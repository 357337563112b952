import ExpLang.Grammar.Captures
import ExpLang.Proofs.Lexing.Candidates
import ExpLang.Proofs.Matching.Shapes

/-!
# Captures of complete matches

The constructs of a language are read off nodes by their indices. Here the shape of a complete match
is carried over to the nodes of a tree: `Tree.Matches` says that the tree at a node fits a matcher,
and `Tree.Shaped` that the captures of a node are those of given matchers, one after the other, all
made of earlier nodes. The node of a rule is shaped by what its body stores, `Rule.kept`.

From that each way to look at a capture by its position succeeds. `Reads` states success together
with what is known of the result, so that reading a construct is followed step by step. It leaves
room for the failures that a language allows, and looking at captures needs none of them.

Binding follows captures from the root. Every node that it can come to, `Tree.Reaches`, is a
complete match again, and so fits the rule that made it.
-/

namespace ExpLang

variable {κ α β : Type}

/-! ## Reading with allowed failures -/

/-- Reading gives a result with a property, or fails in a way that is allowed. -/
inductive Reads (E : BindError → Prop) (Q : α → Prop) : Except BindError α → Prop
  | ok {a} : Q a → Reads E Q (.ok a)
  | error {e} : E e → Reads E Q (.error e)

namespace Reads

variable {E : BindError → Prop} {Q : α → Prop} {R : β → Prop} {x : Except BindError α}

/-- What a reading gives may be weakened. -/
theorem imp {P : α → Prop} (hx : Reads E P x) (h : ∀ a, P a → Q a) : Reads E Q x := by
  cases hx with
  | ok ha => exact .ok (h _ ha)
  | error he => exact .error he

/-- Readings one after the other read if each does. -/
theorem bind {f : α → Except BindError β} (hx : Reads E Q x) (hf : ∀ a, Q a → Reads E R (f a)) :
    Reads E R (x >>= f) := by
  cases hx with
  | ok ha => exact hf _ ha
  | error he => exact .error he

/-- A mapped reading reads. -/
theorem map (f : α → β) (hx : Reads E Q x) : Reads E (fun _ => True) (f <$> x) := by
  cases hx with
  | ok => exact .ok trivial
  | error he => exact .error he

/-- Reading the members of a list gives as many results. -/
theorem mapM {f : α → Except BindError β} {xs : List α}
    (h : ∀ a ∈ xs, Reads E (fun _ => True) (f a)) :
    Reads E (fun ys => ys.length = xs.length) (xs.mapM f) := by
  induction xs with
  | nil => exact .ok rfl
  | cons a xs ih =>
    rw [List.mapM_cons]
    refine (h a List.mem_cons_self).bind fun b _ => ?_
    refine (ih fun c hc => h c (List.mem_cons_of_mem _ hc)).bind fun ys hys => ?_
    exact .ok (by rw [List.length_cons, hys, List.length_cons])

/-- Reading the members of a list one after the other. -/
theorem foldlM {f : β → α → Except BindError β} {xs : List α}
    (h : ∀ b, ∀ a ∈ xs, Reads E (fun _ => True) (f b a)) (init : β) :
    Reads E (fun _ => True) (xs.foldlM f init) := by
  induction xs generalizing init with
  | nil => exact .ok trivial
  | cons a xs ih =>
    rw [List.foldlM_cons]
    exact (h init a List.mem_cons_self).bind fun b _ =>
      ih (fun b c hc => h b c (List.mem_cons_of_mem _ hc)) b

end Reads

/-! ## What trees keep -/

/-- The matchers whose results the nodes of a rule keep. -/
def Rule.kept (rule : Rule κ) : List (Matcher κ) :=
  match rule.body with
  | .seq items => items.filter Matcher.isStored
  | body => if rule.arity = 0 then [] else [body]

/-- Whether a matcher reads a single token. -/
def Matcher.isToken : Matcher κ → Bool
  | .literal _ | .literals _ | .pattern .. => true
  | _ => false

/-- The nodes that a capture names. -/
def Capture.parts : Capture → List NodeId
  | .node part => part.toList
  | .list elements separators => elements ++ separators

/-- The trees in a capture. -/
def TreeCapture.trees : TreeCapture α → List α
  | .part tree => tree.toList
  | .list elements separators => elements ++ separators

namespace Grammar.Fits

variable [DecidableEq κ] {g : Grammar κ} {source : Source} {name : κ}

-- Choices, optional parts, placeholders and overrides leave no node of their own. The lemmas that
-- look through them go by recursion on the proof that the tree fits.

/-- A tree made by a rule fits that rule, whatever matcher led to the rule. -/
theorem of_kind {m : Matcher κ} {u : ParseTree κ} :
    g.Fits source m u → u.kind = .rule name → g.Fits source (.rule name) u
  | .any _ h, hkind | .optional h, hkind | .ref _ h, hkind | .skip h, hkind => h.of_kind hkind
  | .ruleSeq hrule hbody hparts, hkind => by
    cases hkind
    exact .ruleSeq hrule hbody hparts
  | .rule hrule hbody h, hkind => by
    cases hkind
    exact .rule hrule hbody h
  | .literal, hkind | .literals .., hkind | .pattern, hkind | .seq _, hkind | .list .., hkind
  | .missing, hkind | .sure, hkind => by cases hkind

/-- The trees that a list keeps are complete matches. -/
theorem of_list {m : Matcher κ} {u : ParseTree κ} : g.Fits source m u → u.kind = .list →
    ∃ elements separators, u.captures = [.list elements separators] ∧
      ∀ v ∈ elements ++ separators, ∃ m', g.Fits source m' v
  | .any _ h, hkind | .optional h, hkind | .ref _ h, hkind | .skip h, hkind => h.of_list hkind
  | @list _ _ _ _ _ separator _ _ _ _ _ helements hseparators _ hlength, _ => by
    refine ⟨_, _, rfl, fun v hv => ?_⟩
    rcases List.mem_append.1 hv with hv | hv
    · exact ⟨_, helements v hv⟩
    · cases separator with
      | none =>
        rw [List.eq_nil_of_length_eq_zero hlength] at hv
        cases hv
      | some m' => exact ⟨m', hseparators v hv m' rfl⟩
  | .literal, hkind | .literals .., hkind | .pattern, hkind | .seq _, hkind | .ruleSeq .., hkind
  | .rule .., hkind | .missing, hkind | .sure, hkind => by cases hkind

/-- The trees that are kept of a complete match are complete matches. -/
theorem of_mem_capture {m : Matcher κ} {u v : ParseTree κ} (h : g.Fits source m u)
    (hv : v ∈ u.capture.trees) : ∃ m', g.Fits source m' v := by
  unfold ParseTree.capture at hv
  split at hv
  · cases hv
  · rename_i hkind
    obtain ⟨elements, separators, hcaptures, hall⟩ := h.of_list hkind
    rw [hcaptures] at hv
    exact hall v hv
  · rw [List.mem_singleton.1 hv]
    exact ⟨m, h⟩

/-- The trees that a complete match keeps are complete matches. -/
theorem of_mem_captures {m : Matcher κ} {u v : ParseTree κ} {c : TreeCapture (ParseTree κ)} :
    g.Fits source m u → c ∈ u.captures → v ∈ c.trees → ∃ m', g.Fits source m' v
  | .any _ h, hc, hv | .optional h, hc, hv | .ref _ h, hc, hv | .skip h, hc, hv =>
    h.of_mem_captures hc hv
  | .seq hparts, hc, hv | .ruleSeq _ _ hparts, hc, hv => by
    obtain ⟨part, hpart, rfl⟩ := List.mem_map.1 hc
    obtain ⟨i, hi, rfl⟩ := List.mem_iff_getElem.1 hpart
    exact (hparts.get (hparts.length_eq ▸ hi) hi).of_mem_capture hv
  | .rule _ _ h, hc, hv => by
    dsimp only at hc
    split at hc
    · cases hc
    · rw [List.mem_singleton.1 hc] at hv
      exact h.of_mem_capture hv
  | h@(.list ..), hc, hv => by
    obtain ⟨elements, separators, hcaptures, hall⟩ := h.of_list rfl
    rw [hcaptures] at hc
    rw [List.mem_singleton.1 hc] at hv
    exact hall v hv
  | .literal, hc, _ | .literals .., hc, _ | .pattern, hc, _ | .missing, hc, _ | .sure, hc, _ => by
    cases hc

/-- The tree of a rule keeps what the rule keeps of its body. -/
theorem rule_kept {rule : Rule κ} {u : ParseTree κ} (h : g.Fits source (.rule name) u) (hrule : g.rule? name = some rule) :
    u.kind = .rule name ∧ ∃ parts, List.Forall₂ (g.Fits source) rule.kept parts ∧
      u.captures = parts.map ParseTree.capture := by
  cases h with
  | ruleSeq hrule' hbody hparts =>
    cases hrule.symm.trans hrule'
    refine ⟨rfl, _, ?_, rfl⟩
    rw [Rule.kept, hbody]
    exact hparts
  | @rule _ _ t hrule' hbody hfits =>
    cases hrule.symm.trans hrule'
    have hkept : rule.kept = if rule.arity = 0 then [] else [rule.body] := by
      unfold Rule.kept
      split
      · rename_i items hseq
        exact absurd hseq (hbody items)
      · rfl
    refine ⟨rfl, if rule.arity = 0 then [] else [t], ?_, ?_⟩
    · rw [hkept]
      split
      · exact .nil
      · exact .cons hfits .nil
    · dsimp only
      split <;> rfl

end Grammar.Fits

/-! ## What nodes keep -/

section Nodes

variable [DecidableEq κ] (t : Tree κ) (g : Grammar κ)

/-- The tree at a node is a complete match of a matcher. -/
def Tree.Matches (m : Matcher κ) (id : NodeId) : Prop :=
  ∃ u, t.nodes.treeAt? id = some u ∧ g.Fits t.source m u

/-- A capture is what is kept of a complete match of a matcher by nodes before a given one. -/
def Tree.Keeps (bound : NodeId) (m : Matcher κ) (c : Capture) : Prop :=
  ∃ u, c.resolve? (t.nodes.treeBelow? bound) = some u.capture ∧ g.Fits t.source m u

/-- The captures of a node are those of given matchers. -/
def Tree.Shaped (id : NodeId) (matchers : List (Matcher κ)) : Prop :=
  List.Forall₂ (t.Keeps g id) matchers (t.node id).captures

/-- The items of a list are complete matches before a given node, as many as the list asks for. -/
structure Tree.KeepsItems (bound : NodeId) (element : Matcher κ) (separator : Option (Matcher κ))
    (least : Nat) (items : List NodeId × List NodeId) : Prop where
  elements : ∀ part ∈ items.1, part < bound ∧ t.Matches g element part
  separators : ∀ part ∈ items.2, ∀ m, separator = some m → t.Matches g m part
  least_le : least ≤ items.1.length
  length : items.2.length = separator.elim 0 fun _ => items.1.length - 1

/-- The nodes that are reached by following captures from a node. -/
inductive Tree.Reaches (t : Tree κ) (root : NodeId) : NodeId → Prop
  | root : Reaches t root root
  | part {id part c} : Reaches t root id → c ∈ (t.node id).captures → part ∈ c.parts →
      Reaches t root part

end Nodes

/-- Two lists that go along with a third one go along with each other. -/
theorem forall₂_join {γ : Type} {R : α → γ → Prop} {S : β → γ → Prop} {xs : List α} {ys : List β}
    {zs : List γ} (h : List.Forall₂ R xs zs) (h' : List.Forall₂ S ys zs) :
    List.Forall₂ (fun x y => ∃ z, S y z ∧ R x z) xs ys := by
  induction h generalizing ys with
  | nil =>
    cases h'
    exact .nil
  | cons hx _ ih =>
    cases h' with
    | cons hy hrest => exact .cons ⟨_, hy, hx⟩ (ih hrest)

/-- An element of a list has a related one in a related list. -/
theorem forall₂_mem_left {R : α → β → Prop} {xs : List α} {ys : List β}
    (h : List.Forall₂ R xs ys) {x : α} (hx : x ∈ xs) : ∃ y ∈ ys, R x y := by
  obtain ⟨i, hi, rfl⟩ := List.mem_iff_getElem.1 hx
  have hi' : i < ys.length := h.length_eq ▸ hi
  exact ⟨ys[i], List.getElem_mem hi', h.get hi hi'⟩

/-- A list that goes along with another one has a member wherever the other one has. -/
theorem forall₂_getElem? {R : α → β → Prop} {xs : List α} {ys : List β}
    (h : List.Forall₂ R xs ys) {i : Nat} {x : α} (hx : xs[i]? = some x) :
    ∃ y, ys[i]? = some y ∧ R x y := by
  obtain ⟨hi, rfl⟩ := List.getElem?_eq_some_iff.1 hx
  have hi' : i < ys.length := h.length_eq ▸ hi
  exact ⟨ys[i], List.getElem?_eq_getElem hi', h.get hi hi'⟩

/-- What stands below an index has a smaller one. -/
theorem Arena.treeBelow?_eq_some {nodes : Arena κ} {bound id : NodeId} {u : ParseTree κ}
    (h : nodes.treeBelow? bound id = some u) : id < bound ∧ nodes.treeAt? id = some u := by
  unfold treeBelow? at h
  split at h
  · exact ⟨‹_›, h⟩
  · cases h

/-- A node has the kind and the span of its tree, and its captures stand for those of the tree. -/
theorem Tree.node_of_treeAt? {t : Tree κ} {id : NodeId} {u : ParseTree κ}
    (h : t.nodes.treeAt? id = some u) :
    (t.node id).kind = u.kind ∧ (t.node id).span = u.span ∧
      List.Forall₂ (fun c r => c.resolve? (t.nodes.treeBelow? id) = some r)
        (t.node id).captures u.captures := by
  rw [Arena.treeAt?_eq] at h
  obtain ⟨node, hnode, htree⟩ := Option.bind_eq_some_iff.1 h
  have heq : t.node id = node := by
    rw [Tree.node, Array.getD_eq_getD_getElem?, hnode, Option.getD_some]
  simp only [Node.tree?, Option.bind_eq_bind, Option.bind_eq_some_iff, Option.pure_def,
    Option.some.injEq] at htree
  obtain ⟨children, -, captures, hcaptures, rfl⟩ := htree
  rw [heq]
  exact ⟨rfl, rfl, mapM_eq_some_iff_forall₂.1 hcaptures⟩

/-- A tree that is neither missing nor a list is kept as a node. -/
theorem Tree.resolve?_part {t : Tree κ} {bound : NodeId} {c : Capture} {u : ParseTree κ}
    (h : c.resolve? (t.nodes.treeBelow? bound) = some (.part (some u))) :
    ∃ part < bound, c = .node (some part) ∧ t.nodes.treeAt? part = some u := by
  cases c with
  | list elements separators =>
    simp [Capture.resolve?, Option.bind_eq_some_iff] at h
  | node part =>
    cases part with
    | none => cases h
    | some part =>
      obtain ⟨v, hv, heq⟩ := Option.map_eq_some_iff.1 h
      cases heq
      obtain ⟨hlt, htree⟩ := Arena.treeBelow?_eq_some hv
      exact ⟨part, hlt, rfl, htree⟩

namespace Tree

variable [DecidableEq κ] {t : Tree κ} {g : Grammar κ} {id bound root : NodeId} {m : Matcher κ}
  {c : Capture} {name : κ} {rule : Rule κ}

/-- The node of a rule is of its kind and shaped by what the rule keeps. -/
theorem Matches.shaped (h : t.Matches g (.rule name) id) (hrule : g.rule? name = some rule) :
    (t.node id).kind = .rule name ∧ t.Shaped g id rule.kept := by
  obtain ⟨u, hu, hfits⟩ := h
  obtain ⟨hkind, -, hcaptures⟩ := node_of_treeAt? hu
  obtain ⟨hname, parts, hparts, hkept⟩ := hfits.rule_kept hrule
  rw [hkept, List.forall₂_map_right_iff] at hcaptures
  exact ⟨hkind.trans hname, forall₂_join hparts hcaptures⟩

namespace Keeps

/-- The node of a rule is kept as it is. -/
theorem of_rule (h : t.Keeps g bound (.rule name) c) :
    ∃ part < bound, c = .node (some part) ∧ t.Matches g (.rule name) part := by
  obtain ⟨u, hc, hfits⟩ := h
  have hcapture : u.capture = .part (some u) := by cases hfits <;> rfl
  rw [hcapture] at hc
  obtain ⟨part, hlt, rfl, htree⟩ := resolve?_part hc
  exact ⟨part, hlt, rfl, u, htree, hfits⟩

/-- A token is kept as a node. -/
theorem of_token (h : t.Keeps g bound m c) (hm : m.isToken = true) :
    ∃ part < bound, c = .node (some part) := by
  obtain ⟨u, hc, hfits⟩ := h
  have hcapture : u.capture = .part (some u) := by
    cases hfits with
    | literal | literals | pattern => rfl
    | _ => cases hm
  rw [hcapture] at hc
  obtain ⟨part, hlt, rfl, -⟩ := resolve?_part hc
  exact ⟨part, hlt, rfl⟩

/-- The chosen alternative is kept. -/
theorem of_any {alternatives : List (Matcher κ)} (h : t.Keeps g bound (.any alternatives) c) :
    ∃ m ∈ alternatives, t.Keeps g bound m c := by
  obtain ⟨u, hc, hfits⟩ := h
  cases hfits with
  | any hmem hfits => exact ⟨_, hmem, u, hc, hfits⟩

/-- Nothing is kept of a part that is missing. -/
theorem of_optional (h : t.Keeps g bound (.optional m) c) :
    c = .node none ∨ t.Keeps g bound m c := by
  obtain ⟨u, hc, hfits⟩ := h
  cases hfits with
  | missing =>
    left
    change _ = some (TreeCapture.part none) at hc
    cases c with
    | list elements separators => simp [Capture.resolve?, Option.bind_eq_some_iff] at hc
    | node part =>
      cases part with
      | none => rfl
      | some part => simp [Capture.resolve?] at hc
  | optional hfits => exact .inr ⟨u, hc, hfits⟩

/-- The items of a list are kept. -/
theorem of_list {element : Matcher κ} {separator : Option (Matcher κ)} {least : Nat}
    (h : t.Keeps g bound (.list element separator least) c) :
    ∃ items, c = .list items.1 items.2 ∧ t.KeepsItems g bound element separator least items := by
  obtain ⟨u, hc, hfits⟩ := h
  cases hfits with
  | list helements hseparators hleast hlength =>
    change _ = some (TreeCapture.list _ _) at hc
    cases c with
    | node part => cases part <;> simp [Capture.resolve?] at hc
    | list elements separators =>
      simp only [Capture.resolve?, Option.bind_eq_bind, Option.bind_eq_some_iff, Option.pure_def,
        Option.some.injEq, TreeCapture.list.injEq, mapM_eq_some_iff_forall₂] at hc
      obtain ⟨es, hes, ss, hss, rfl, rfl⟩ := hc
      refine ⟨(elements, separators), rfl, ?_, ?_, ?_, ?_⟩
      · intro part hpart
        obtain ⟨u, hu, hbelow⟩ := forall₂_mem_left hes hpart
        obtain ⟨hlt, htree⟩ := Arena.treeBelow?_eq_some hbelow
        exact ⟨hlt, u, htree, helements u hu⟩
      · intro part hpart m hm
        obtain ⟨u, hu, hbelow⟩ := forall₂_mem_left hss hpart
        obtain ⟨-, htree⟩ := Arena.treeBelow?_eq_some hbelow
        exact ⟨u, htree, hseparators u hu m hm⟩
      · exact hes.length_eq ▸ hleast
      · rw [hss.length_eq, hlength, hes.length_eq]

end Keeps

/-- The nodes that a capture names stand for the trees in it. -/
theorem trees_of_resolve? {f : NodeId → Option α} {r : TreeCapture α} (h : c.resolve? f = some r)
    {part : NodeId} (hpart : part ∈ c.parts) : ∃ u ∈ r.trees, f part = some u := by
  cases c with
  | node id =>
    cases Option.mem_toList.1 hpart
    obtain ⟨u, hu, rfl⟩ := Option.map_eq_some_iff.1 h
    exact ⟨u, List.mem_singleton_self u, hu⟩
  | list elements separators =>
    simp only [Capture.resolve?, Option.bind_eq_bind, Option.bind_eq_some_iff, Option.pure_def,
      Option.some.injEq, mapM_eq_some_iff_forall₂] at h
    obtain ⟨es, hes, ss, hss, rfl⟩ := h
    rcases List.mem_append.1 hpart with hpart | hpart
    · obtain ⟨u, hu, hf⟩ := forall₂_mem_left hes hpart
      exact ⟨u, List.mem_append_left ss hu, hf⟩
    · obtain ⟨u, hu, hf⟩ := forall₂_mem_left hss hpart
      exact ⟨u, List.mem_append_right es hu, hf⟩

/-- What is reached from a complete match by following captures is a complete match. -/
theorem Reaches.matches (h : t.Reaches root id) (hroot : t.Matches g m root) :
    ∃ m', t.Matches g m' id := by
  induction h with
  | root => exact ⟨m, hroot⟩
  | part _ hc hpart ih =>
    obtain ⟨m', u, hu, hfits⟩ := ih
    obtain ⟨-, -, hcaptures⟩ := node_of_treeAt? hu
    obtain ⟨r, hr, hresolve⟩ := forall₂_mem_left hcaptures hc
    obtain ⟨v, hv, hbelow⟩ := trees_of_resolve? hresolve hpart
    obtain ⟨m'', hfits'⟩ := hfits.of_mem_captures hr hv
    exact ⟨m'', v, (Arena.treeBelow?_eq_some hbelow).2, hfits'⟩

/-- A complete match made by a rule is a match of that rule. -/
theorem Matches.of_kind (h : t.Matches g m id) (hkind : (t.node id).kind = .rule name) :
    t.Matches g (.rule name) id := by
  obtain ⟨u, hu, hfits⟩ := h
  exact ⟨u, hu, hfits.of_kind ((node_of_treeAt? hu).1.symm.trans hkind)⟩

/-! ## Looking at captures by their position -/

namespace Shaped

variable [RuleName κ] {E : BindError → Prop} {matchers : List (Matcher κ)} {i : Nat}

/-- A node has as many captures as its rule makes. -/
theorem expectCaptures (h : t.Shaped g id matchers) {count : Nat} (hcount : matchers.length = count) :
    Reads E (fun _ => True) (t.expectCaptures id count) := by
  have hlength := h.length_eq
  rw [Tree.expectCaptures, if_pos (by rw [← hlength, hcount])]
  exact .ok trivial

/-- A part that has to be there is there. -/
theorem required (h : t.Shaped g id matchers) (hi : matchers[i]? = some (.rule name)) :
    Reads E (fun part => part < id ∧ t.Matches g (.rule name) part) (t.required id i) := by
  obtain ⟨c, hc, hkeeps⟩ := forall₂_getElem? h hi
  obtain ⟨part, hlt, rfl, hmatches⟩ := hkeeps.of_rule
  rw [Tree.required, hc]
  exact .ok ⟨hlt, hmatches⟩

/-- A choice between rules is there and is the node of one of them. -/
theorem required_choice (names : List κ) (h : t.Shaped g id matchers)
    (hi : matchers[i]? = some (.any (names.map .rule))) :
    Reads E (fun part => part < id ∧ ∃ name ∈ names, t.Matches g (.rule name) part)
      (t.required id i) := by
  obtain ⟨c, hc, hkeeps⟩ := forall₂_getElem? h hi
  obtain ⟨m, hm, hkeeps⟩ := hkeeps.of_any
  obtain ⟨name, hname, rfl⟩ := List.mem_map.1 hm
  obtain ⟨part, hlt, rfl, hmatches⟩ := hkeeps.of_rule
  rw [Tree.required, hc]
  exact .ok ⟨hlt, name, hname, hmatches⟩

/-- A required capture of a token is there. -/
theorem required_token (h : t.Shaped g id matchers) (hi : matchers[i]? = some m)
    (hm : m.isToken = true) : Reads E (fun _ => True) (t.required id i) := by
  obtain ⟨c, hc, hkeeps⟩ := forall₂_getElem? h hi
  obtain ⟨part, -, rfl⟩ := hkeeps.of_token hm
  rw [Tree.required, hc]
  exact .ok trivial

/-- A part that may be missing is missing or there. -/
theorem optional (h : t.Shaped g id matchers) (hi : matchers[i]? = some (.optional (.rule name))) :
    Reads E (fun part => ∀ p, part = some p → p < id ∧ t.Matches g (.rule name) p)
      (t.optional id i) := by
  obtain ⟨c, hc, hkeeps⟩ := forall₂_getElem? h hi
  rw [Tree.optional, hc]
  rcases hkeeps.of_optional with rfl | hkeeps
  · refine .ok fun p hp => ?_
    cases hp
  · obtain ⟨part, hlt, rfl, hmatches⟩ := hkeeps.of_rule
    refine .ok fun p hp => ?_
    cases hp
    exact ⟨hlt, hmatches⟩

/-- An optional capture of a token is there or missing. -/
theorem optional_token (h : t.Shaped g id matchers) (hi : matchers[i]? = some (.optional m))
    (hm : m.isToken = true) : Reads E (fun _ => True) (t.optional id i) := by
  obtain ⟨c, hc, hkeeps⟩ := forall₂_getElem? h hi
  rw [Tree.optional, hc]
  rcases hkeeps.of_optional with rfl | hkeeps
  · exact .ok trivial
  · obtain ⟨part, -, rfl⟩ := hkeeps.of_token hm
    exact .ok trivial

/-- The items of a list are there. -/
theorem items {element : Matcher κ} {separator : Option (Matcher κ)} {least : Nat}
    (h : t.Shaped g id matchers) (hi : matchers[i]? = some (.list element separator least)) :
    Reads E (t.KeepsItems g id element separator least) (t.items id i) := by
  obtain ⟨c, hc, hkeeps⟩ := forall₂_getElem? h hi
  obtain ⟨items, rfl, hitems⟩ := hkeeps.of_list
  rw [Tree.items, hc]
  exact .ok hitems

end Shaped

end Tree

/-! ## The texts of tokens -/

/-- The text of a node made by a rule for fixed tokens is one of them. -/
theorem Tree.Matches.text_mem [DecidableEq κ] {t : Tree κ} {g : Grammar κ} {name : κ} {id : NodeId}
    {arity : Nat} {texts : List String} (h : t.Matches g (.rule name) id)
    (hrule : g.rule? name = some ⟨arity, .lits texts⟩) : t.text id ∈ texts := by
  obtain ⟨u, hu, hfits⟩ := h
  obtain ⟨-, hspan, -⟩ := node_of_treeAt? hu
  cases hfits with
  | ruleSeq hrule' hbody =>
    cases hrule.symm.trans hrule'
    cases hbody
  | rule hrule' _ hbody =>
    cases hrule.symm.trans hrule'
    cases hbody with
    | literals hmem hslice =>
      obtain ⟨text, htext, rfl⟩ := List.mem_map.1 (Literals.mem_toList_ofList.1 hmem)
      have hid : t.text id = text := by
        change (t.node id).span = _ at hspan
        rw [Tree.text, hspan, Source.slice, ParseTree.token, hslice, Option.getD_some,
          String.ofList_toList]
      rw [hid]
      exact htext

end ExpLang
