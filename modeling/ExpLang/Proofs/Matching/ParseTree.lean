import ExpLang.Grammar.Tree
import Mathlib.Data.List.Forall2
import Mathlib.Logic.Relation

/-!
# Syntax trees as values

An arena names nodes by their index. A `ParseTree` is the same tree as a value, which holds its
children and what it keeps of its parts themselves. `Arena.treeAt?` reads the value of a node back:
a part stands before its node in the arena, so reading is recursion on the index, and it fails on a
node with a part that does not. Parent links are not part of the value.

What an arena says about a node depends only on the nodes up to it, and making a further node
changes none of them but for parent links, so that a tree once read stays as it is.
-/

namespace ExpLang

variable {κ α β : Type}

/-- What a tree keeps of one of its parts. -/
inductive TreeCapture (α : Type) where
  /-- A part, or none for an optional part that is missing. -/
  | part (tree : Option α)
  /-- The elements of a list and the separators between them. -/
  | list (elements separators : List α)
  deriving Inhabited

/-- A syntax tree without indices and parent links. -/
structure ParseTree (κ : Type) where
  /-- What made it. -/
  kind : NodeKind κ
  /-- The text it covers. -/
  span : Span
  /-- Its children from left to right. -/
  children : List (ParseTree κ)
  /-- What it keeps of its parts. -/
  captures : List (TreeCapture (ParseTree κ))
  /-- Where it could not go on, if it could not. -/
  hole : Option Hole

/-- Whether the match of a tree went through to its end. -/
def ParseTree.isComplete (t : ParseTree κ) : Bool := t.hole.isNone

/-- What a tree keeps of this part: nothing of a missing part, the items of a list, or the part. -/
def ParseTree.capture (t : ParseTree κ) : TreeCapture (ParseTree κ) :=
  match t.kind with
  | .empty => .part none
  | .list => t.captures.headD (.part (some t))
  | _ => .part (some t)

/-- Replace the indices in a capture by what they stand for. -/
def Capture.resolve? (f : NodeId → Option α) : Capture → Option (TreeCapture α)
  | .node none => some (.part none)
  | .node (some id) => (f id).map fun t => .part (some t)
  | .list elements separators => do
    let elements ← elements.mapM f
    let separators ← separators.mapM f
    return .list elements separators

/-- The value of a node, given the values of its parts. -/
def Node.tree? (f : NodeId → Option (ParseTree κ)) (n : Node κ) : Option (ParseTree κ) := do
  let children ← n.children.mapM f
  let captures ← n.captures.mapM (Capture.resolve? f)
  return ⟨n.kind, n.span, children, captures, n.hole⟩

/-- The value of the node of an index, if all parts in it stand before what they are part of. -/
def Arena.treeAt? (nodes : Arena κ) (id : NodeId) : Option (ParseTree κ) :=
  nodes[id]?.bind (Node.tree? fun i => if _h : i < id then treeAt? nodes i else none)
termination_by id

/-- The values of the nodes before an index. -/
def Arena.treeBelow? (nodes : Arena κ) (id i : NodeId) : Option (ParseTree κ) :=
  if i < id then nodes.treeAt? i else none

/-- The tree of a node is made of the trees of the nodes below it. -/
theorem Arena.treeAt?_eq (nodes : Arena κ) (id : NodeId) :
    nodes.treeAt? id = nodes[id]?.bind (Node.tree? (nodes.treeBelow? id)) := by
  rw [treeAt?]
  rfl

/-- A node is another one or stands somewhere below it. -/
def Arena.Under (nodes : Arena κ) : NodeId → NodeId → Prop :=
  Relation.ReflTransGen fun i j => ∃ n, nodes[i]? = some n ∧ j ∈ n.children

/-- Mapping a list by a partial function succeeds exactly when it does so at every place. -/
theorem mapM_eq_some_iff_forall₂ {f : α → Option β} {xs : List α} {ys : List β} :
    xs.mapM f = some ys ↔ List.Forall₂ (fun x y => f x = some y) xs ys := by
  induction xs generalizing ys with
  | nil => simp [eq_comm]
  | cons x xs ih =>
    constructor
    · intro h
      simp only [List.mapM_cons, Option.bind_eq_bind, Option.bind_eq_some_iff, Option.pure_def,
        Option.some.injEq] at h
      obtain ⟨y, hy, rest, hrest, rfl⟩ := h
      exact .cons hy (ih.1 hrest)
    · intro h
      rcases h with _ | ⟨hy, hrest⟩
      simp [hy, ih.2 hrest]

/-- Resolving a capture uses the values of its own indices only. -/
theorem Capture.resolve?_mono {f g : NodeId → Option α} (hfg : ∀ i a, f i = some a → g i = some a)
    {c : Capture} {r : TreeCapture α} (h : c.resolve? f = some r) : c.resolve? g = some r := by
  have hlist {is : List NodeId} {as : List α} (his : is.mapM f = some as) :
      is.mapM g = some as :=
    mapM_eq_some_iff_forall₂.2 ((mapM_eq_some_iff_forall₂.1 his).imp hfg)
  cases c with
  | node id =>
    cases id with
    | none => exact h
    | some id =>
      obtain ⟨t, ht, rfl⟩ := Option.map_eq_some_iff.1 h
      simp [resolve?, hfg id t ht]
  | list elements separators =>
    simp only [resolve?, Option.bind_eq_bind, Option.bind_eq_some_iff, Option.pure_def,
      Option.some.injEq] at h ⊢
    obtain ⟨es, hes, ss, hss, rfl⟩ := h
    exact ⟨es, hlist hes, ss, hlist hss, rfl⟩

/-- The node without its parent link. -/
def Node.orphan (n : Node κ) : Node κ := { n with parent := none }

/-- The tree of a node does not depend on its own parent. -/
theorem Node.tree?_orphan (f : NodeId → Option (ParseTree κ)) (n : Node κ) :
    n.orphan.tree? f = n.tree? f := rfl

namespace Arena

variable {a b c : Arena κ} {n m id : Nat}

/-- Two arenas hold the same nodes below an index, parent links apart. -/
def SameBelow (n : Nat) (a b : Arena κ) : Prop :=
  ∀ i < n, a[i]?.map Node.orphan = b[i]?.map Node.orphan

/-- The value of a node depends on the nodes up to it. -/
theorem SameBelow.treeAt?_eq (hab : SameBelow n a b) (hid : id < n) :
    a.treeAt? id = b.treeAt? id := by
  induction id using Nat.strongRecOn with
  | ind id ih =>
    have hbelow : a.treeBelow? id = b.treeBelow? id := by
      funext i
      unfold treeBelow?
      split
      · rename_i hi
        exact ih i hi (Nat.lt_trans hi hid)
      · rfl
    have hnode := hab id hid
    rw [Arena.treeAt?_eq a, Arena.treeAt?_eq b, hbelow]
    cases ha : a[id]? with
    | none =>
      rw [ha, Option.map_none, eq_comm, Option.map_eq_none_iff] at hnode
      rw [hnode]
    | some na =>
      rw [ha, Option.map_some, eq_comm] at hnode
      obtain ⟨nb, hb, horphan⟩ := Option.map_eq_some_iff.1 hnode
      rw [hb, Option.bind_some, Option.bind_some, ← Node.tree?_orphan, ← horphan,
        Node.tree?_orphan]

/-- The value of a node is read from a node that is there. -/
theorem lt_size_of_treeAt? {t : ParseTree κ} (h : a.treeAt? id = some t) : id < a.size := by
  rw [Arena.treeAt?_eq] at h
  obtain ⟨node, hnode, _⟩ := Option.bind_eq_some_iff.1 h
  exact (Array.getElem?_eq_some_iff.1 hnode).1

/-- Writing parents changes parent links only. -/
theorem foldl_setParent_orphan (parent : NodeId) (children : List NodeId) (a : Arena κ) (i : Nat) :
    (children.foldl (setParent parent) a)[i]?.map Node.orphan = a[i]?.map Node.orphan := by
  induction children generalizing a with
  | nil => rfl
  | cons child rest ih =>
    rw [List.foldl_cons, ih, setParent, Array.getElem?_modify]
    split
    · cases a[i]? <;> rfl
    · rfl

/-- Setting the parents of children leaves the number of nodes. -/
theorem size_foldl_setParent (parent : NodeId) (children : List NodeId) (a : Arena κ) :
    (children.foldl (setParent parent) a).size = a.size := by
  induction children generalizing a with
  | nil => rfl
  | cons child rest ih => rw [List.foldl_cons, ih, setParent, Array.size_modify]

/-- Writing parents leaves nodes alone that are not among the children. -/
theorem foldl_setParent_of_lt (parent : NodeId) {children : List NodeId} (a : Arena κ) {i : Nat}
    (h : ∀ child ∈ children, i < child) :
    (children.foldl (setParent parent) a)[i]? = a[i]? := by
  induction children generalizing a with
  | nil => rfl
  | cons child rest ih =>
    have hne : child ≠ i := Nat.ne_of_gt (h child List.mem_cons_self)
    rw [List.foldl_cons, ih _ fun c hc => h c (List.mem_cons_of_mem _ hc), setParent,
      Array.getElem?_modify, if_neg hne]

/-- A pushed node is one more. -/
theorem size_push (a : Arena κ) (n : Node κ) : (Arena.push a n).size = a.size + 1 := by
  rw [Arena.push, Array.size_push, size_foldl_setParent]

/-- The new node stands at the end. -/
theorem push_getElem?_size (a : Arena κ) (n : Node κ) : (Arena.push a n)[a.size]? = some n := by
  rw [Arena.push, Array.getElem?_push, size_foldl_setParent, if_pos rfl]

/-- Making a node changes no earlier node but for parent links. -/
theorem sameBelow_push (a : Arena κ) (n : Node κ) : SameBelow a.size a (Arena.push a n) := by
  intro i hi
  rw [Arena.push, Array.getElem?_push, size_foldl_setParent, if_neg (by omega),
    foldl_setParent_orphan]

/-- Making a node leaves the nodes before all its children as they are. -/
theorem push_getElem?_of_lt (a : Arena κ) (n : Node κ) {i : Nat} (hi : i < a.size)
    (h : ∀ child ∈ n.children, i < child) : (Arena.push a n)[i]? = a[i]? := by
  rw [Arena.push, Array.getElem?_push, size_foldl_setParent, if_neg (by omega),
    foldl_setParent_of_lt _ _ h]

/-- The value of a new node, from the values of its parts before it was made. -/
theorem treeAt?_push (a : Arena κ) (n : Node κ) :
    (Arena.push a n).treeAt? a.size = n.tree? (a.treeBelow? a.size) := by
  have hbelow : (Arena.push a n).treeBelow? a.size = a.treeBelow? a.size := by
    funext i
    unfold treeBelow?
    split
    · rename_i hi
      exact ((sameBelow_push a n).treeAt?_eq hi).symm
    · rfl
  rw [Arena.treeAt?_eq, push_getElem?_size, Option.bind_some, hbelow]

end Arena

end ExpLang
