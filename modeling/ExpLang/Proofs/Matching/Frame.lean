import ExpLang.Proofs.Matching.Reference

/-!
# What a match leaves alone

A piece of a match works in the state that it finds: it adds nodes behind those that are there,
writes parents only into nodes of its own, goes back to the skippers it started with, never takes
steps back and takes at most one step more than the budget has. The nodes it adds have children among
themselves only and are marked as incomplete where they have a hole. `MatchState.Framed` says so of
two states, and `MatchState.Answers` says of a state and an answer what outcome the answer stands for,
where the tree of a node is read from the arena.
-/

namespace ExpLang

variable {κ : Type}

/-- A later state of a match keeps the nodes, the skippers and the budget of an earlier one. -/
structure MatchState.Framed (s s' : MatchState κ) : Prop where
  skipper : s'.skipper = s.skipper
  overrides : s'.overrides = s.overrides
  budget : s'.budget = s.budget
  steps : s.steps ≤ s'.steps
  spent : s'.steps ≤ max s.steps (s.budget + 1)
  size : s.nodes.size ≤ s'.nodes.size
  nodes : ∀ i < s.nodes.size, s'.nodes[i]? = s.nodes[i]?
  made : ∀ i n, s.nodes.size ≤ i → s'.nodes[i]? = some n →
    n.isComplete = n.hole.isNone ∧ ∀ c ∈ n.children, s.nodes.size ≤ c

/-- A node made from index `base` on stands in an arena and has a given value. -/
structure Match.Grounded (base : Nat) (nodes : Arena κ) (part : Match κ) (t : ParseTree κ) :
    Prop where
  base_le : base ≤ part.id
  node : nodes[part.id]? = some part.node
  tree : nodes.treeAt? part.id = some t

/-- An answer in a later state stands for an outcome. Without a node, cursor and nodes are as
before. -/
structure MatchState.Answers (s : MatchState κ) (r : MatchState κ × Option (Match κ))
    (o : Outcome κ) : Prop where
  framed : s.Framed r.1
  stop : o.stop = r.1.cursor
  refused : r.2 = none → o.found = none ∧ r.1.nodes = s.nodes ∧ r.1.cursor = s.cursor
  found : ∀ part, r.2 = some part → ∃ t, o.found = some t ∧ part.Grounded s.nodes.size r.1.nodes t

namespace MatchState

variable {s s' s'' : MatchState κ}

/-- The budget is not spent, or else `G` holds. -/
def Excused (s : MatchState κ) (G : Prop) : Prop := s.exhausted = true → G

namespace Framed

/-- A state frames itself. -/
theorem refl (s : MatchState κ) : s.Framed s :=
  ⟨rfl, rfl, rfl, le_rfl, le_max_left _ _, le_rfl, fun _ _ => rfl, fun _ _ hi hn => by
    rw [Array.getElem?_eq_none hi] at hn
    cases hn⟩

/-- A state framed by a framed one is framed. -/
theorem trans (h : s.Framed s') (h' : s'.Framed s'') : s.Framed s'' where
  skipper := h'.skipper.trans h.skipper
  overrides := h'.overrides.trans h.overrides
  budget := h'.budget.trans h.budget
  steps := h.steps.trans h'.steps
  spent := by
    have hspent := h'.spent
    rw [h.budget] at hspent
    exact hspent.trans (max_le h.spent (le_max_right _ _))
  size := h.size.trans h'.size
  nodes i hi := (h'.nodes i (lt_of_lt_of_le hi h.size)).trans (h.nodes i hi)
  made i n hi hn := by
    by_cases hlt : i < s'.nodes.size
    · rw [h'.nodes i hlt] at hn
      exact h.made i n hi hn
    · obtain ⟨hflag, hchildren⟩ := h'.made i n (Nat.le_of_not_lt hlt) hn
      exact ⟨hflag, fun c hc => h.size.trans (hchildren c hc)⟩

/-- A framed state skips as the first one. -/
theorem activeSkipper (h : s.Framed s') : s'.activeSkipper = s.activeSkipper := by
  rw [MatchState.activeSkipper, MatchState.activeSkipper, h.skipper, h.overrides]

/-- Steps are never given back. -/
theorem stepsLeft (h : s.Framed s') : s'.stepsLeft ≤ s.stepsLeft := by
  have hsteps := h.steps
  rw [MatchState.stepsLeft, MatchState.stepsLeft, h.budget]
  omega

/-- A spent budget stays spent. -/
theorem exhausted (h : s.Framed s') (he : s.exhausted = true) : s'.exhausted = true := by
  have hsteps := h.steps
  simp only [MatchState.exhausted, decide_eq_true_eq, h.budget] at he ⊢
  omega

/-- What excuses a spent budget later excuses one that was spent before. -/
theorem excused (h : s.Framed s') {G : Prop} (hG : s'.Excused G) : s.Excused G :=
  fun he => hG (h.exhausted he)

/-- Trees once made stay as they are. -/
theorem treeAt? (h : s.Framed s') {id : NodeId} {t : ParseTree κ}
    (ht : s.nodes.treeAt? id = some t) : s'.nodes.treeAt? id = some t := by
  have hsame : Arena.SameBelow s.nodes.size s.nodes s'.nodes := fun i hi => by rw [h.nodes i hi]
  rw [← hsame.treeAt?_eq (Arena.lt_size_of_treeAt? ht)]
  exact ht

/-- Cutting off what was made since gives back the nodes of the earlier state. -/
theorem shrink (h : s.Framed s') : s'.nodes.shrink s.nodes.size = s.nodes := by
  have hsize := h.size
  refine Array.ext_getElem? fun i => ?_
  rw [Array.shrink_eq_take, Array.take_eq_extract, Array.getElem?_extract]
  by_cases hi : i < s.nodes.size
  · rw [if_pos (by omega), Nat.zero_add, h.nodes i hi]
  · rw [if_neg (by omega), Array.getElem?_eq_none (by omega)]

/-- Going back to the cursor and the nodes of the earlier state. -/
theorem rewind (h : s.Framed s') (c : Cursor) : s.Framed (s'.rewind c s.nodes.size) where
  skipper := h.skipper
  overrides := h.overrides
  budget := h.budget
  steps := h.steps
  spent := h.spent
  size := by rw [MatchState.rewind, h.shrink]
  nodes i _ := by rw [MatchState.rewind, h.shrink]
  made i n hi hn := by
    rw [MatchState.rewind, h.shrink] at hn
    exact (refl s).made i n hi hn

/-- Moving the cursor leaves a state framed. -/
theorem moveTo (h : s.Framed s') (c : Cursor) : s.Framed (s'.moveTo c) :=
  ⟨h.1, h.2, h.3, h.4, h.5, h.6, h.7, h.8⟩

/-- Making a node whose children were made since. -/
theorem make (h : s.Framed s') {n : Node κ} (hn : ∀ c ∈ n.children, s.nodes.size ≤ c)
    (hflag : n.isComplete = n.hole.isNone) : s.Framed (s'.make n).1 where
  skipper := h.skipper
  overrides := h.overrides
  budget := h.budget
  steps := h.steps
  spent := h.spent
  size := by
    have hsize := h.size
    rw [MatchState.make, Arena.size_push]
    omega
  nodes i hi := by
    have hlt : ∀ c ∈ n.children, i < c := fun c hc => lt_of_lt_of_le hi (hn c hc)
    rw [MatchState.make, Arena.push_getElem?_of_lt _ _ (lt_of_lt_of_le hi h.size) hlt, h.nodes i hi]
  made i m hi hm := by
    rcases Nat.lt_trichotomy i s'.nodes.size with hlt | rfl | hgt
    · have hsame := Arena.sameBelow_push s'.nodes n i hlt
      rw [MatchState.make] at hm
      rw [hm, Option.map_some] at hsame
      obtain ⟨m', hm', horphan⟩ := Option.map_eq_some_iff.1 hsame
      simp only [Node.orphan, Node.mk.injEq] at horphan
      obtain ⟨-, -, -, hchildren, -, hcomplete, hhole⟩ := horphan
      rw [← hcomplete, ← hhole, ← hchildren]
      exact h.made i m' hi hm'
    · rw [MatchState.make, Arena.push_getElem?_size] at hm
      cases hm
      exact ⟨hflag, hn⟩
    · rw [MatchState.make, Array.getElem?_eq_none (by rw [Arena.size_push]; exact hgt)] at hm
      cases hm

end Framed

end MatchState

namespace Match.Grounded

variable {base : Nat} {nodes : Arena κ} {part : Match κ} {t : ParseTree κ}

/-- The value of a node has the kind, the span and the hole of the node. -/
theorem fields (h : part.Grounded base nodes t) :
    t.kind = part.node.kind ∧ t.span = part.node.span ∧ t.hole = part.node.hole := by
  have htree := h.tree
  rw [Arena.treeAt?_eq, h.node, Option.bind_some] at htree
  simp only [Node.tree?, Option.bind_eq_bind, Option.bind_eq_some_iff, Option.pure_def,
    Option.some.injEq] at htree
  obtain ⟨children, _, captures, _, rfl⟩ := htree
  exact ⟨rfl, rfl, rfl⟩

/-- A part is marked as incomplete exactly if its value has a hole. -/
theorem isComplete {s s' : MatchState κ} (h : part.Grounded s.nodes.size s'.nodes t)
    (hs : s.Framed s') : part.node.isComplete = t.hole.isNone := by
  rw [h.fields.2.2]
  exact (hs.made _ _ h.base_le h.node).1

/-- Nodes of a tree made from an index on are made from a smaller index on. -/
theorem mono (h : part.Grounded base nodes t) {lower : Nat} (hle : lower ≤ base) :
    part.Grounded lower nodes t := ⟨hle.trans h.base_le, h.node, h.tree⟩

/-- Trees of made nodes stay as they are in later states. -/
theorem framed {s s' : MatchState κ} (h : part.Grounded base s.nodes t) (hs : s.Framed s') :
    part.Grounded base s'.nodes t where
  base_le := h.base_le
  node := by rw [hs.nodes _ (Arena.lt_size_of_treeAt? h.tree), h.node]
  tree := hs.treeAt? h.tree

/-- The nodes of a tree give the tree again. -/
theorem treeBelow? (h : part.Grounded base nodes t) :
    nodes.treeBelow? nodes.size part.id = some t := by
  rw [Arena.treeBelow?, if_pos (Arena.lt_size_of_treeAt? h.tree), h.tree]

/-- What a node keeps of a part stands for what its tree keeps of the tree of the part. -/
theorem capture (h : part.Grounded base nodes t) :
    part.capture.resolve? (nodes.treeBelow? nodes.size) = some t.capture := by
  obtain ⟨hkind, -, -⟩ := h.fields
  have hself : Capture.resolve? (nodes.treeBelow? nodes.size) (.node (some part.id)) =
      some (.part (some t)) := by
    rw [Capture.resolve?, h.treeBelow?, Option.map_some]
  rw [Match.capture, ParseTree.capture, hkind]
  cases hk : part.node.kind with
  | token | group | rule name => exact hself
  | empty => rfl
  | list =>
    have htree := h.tree
    rw [Arena.treeAt?_eq, h.node, Option.bind_some] at htree
    simp only [Node.tree?, Option.bind_eq_bind, Option.bind_eq_some_iff, Option.pure_def,
      Option.some.injEq] at htree
    obtain ⟨children, _, captures, hcaptures, ht⟩ := htree
    have hlower : ∀ i u, nodes.treeBelow? part.id i = some u →
        nodes.treeBelow? nodes.size i = some u := by
      intro i u hu
      unfold Arena.treeBelow? at hu ⊢
      split at hu
      · rwa [if_pos (Arena.lt_size_of_treeAt? hu)]
      · cases hu
    have hall := mapM_eq_some_iff_forall₂.1 hcaptures
    rw [show t.captures = captures by rw [← ht]]
    generalize part.node.captures = kept at hall
    cases hall with
    | nil => exact hself
    | cons hhead _ => exact Capture.resolve?_mono hlower hhead

end Match.Grounded

end ExpLang
