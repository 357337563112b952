import ExpLang.Proofs.Matching.Frame

/-!
# Answers and the outcomes they stand for

The answers that a match can give in a state: nothing, with cursor and nodes as they were, or a node
that was just made from parts made since. A node stands for the tree that its parts give it.
-/

namespace ExpLang

variable {κ : Type}

namespace MatchState

variable {s s' : MatchState κ} {o : Outcome κ} {part : Match κ} {t : ParseTree κ}

/-- A framed state with the same nodes and cursor answers with a refusal. -/
theorem answers_refused (h : s.Framed s') (hn : s'.nodes = s.nodes) (hc : s'.cursor = s.cursor) :
    s.Answers (s', none) (.refused s.cursor) :=
  ⟨h, hc.symm, fun _ => ⟨rfl, hn, hc⟩, fun _ hpart => nomatch hpart⟩

/-- A framed state with the nodes of a tree answers with the tree. -/
theorem answers_found (h : s.Framed s') (hg : part.Grounded s.nodes.size s'.nodes t) :
    s.Answers (s', some part) ⟨some t, s'.cursor⟩ :=
  ⟨h, rfl, fun hnone => (nomatch hnone), fun _ hpart => by cases hpart; exact ⟨t, rfl, hg⟩⟩

/-- Rolling back to the state before is a refusal. -/
theorem answers_rewind (h : s.Framed s') :
    s.Answers (s'.rewind s.cursor s.nodes.size, none) (.refused s.cursor) :=
  answers_refused (h.rewind s.cursor) h.shrink rfl

/-- An answer without a node is a refusal, and nothing was made. -/
theorem Answers.eq_refused (h : s.Answers (s', none) o) :
    o = .refused s.cursor ∧ s'.nodes = s.nodes ∧ s'.cursor = s.cursor := by
  obtain ⟨hfound, hnodes, hcursor⟩ := h.refused rfl
  refine ⟨?_, hnodes, hcursor⟩
  rw [Outcome.refused, ← hcursor, ← h.stop, ← hfound]

/-- An answer with a node is a tree whose nodes were made. -/
theorem Answers.eq_found (h : s.Answers (s', some part) o) :
    ∃ t, o = ⟨some t, s'.cursor⟩ ∧ part.Grounded s.nodes.size s'.nodes t := by
  obtain ⟨t, hfound, hg⟩ := h.found part rfl
  exact ⟨t, by rw [← hfound, ← h.stop], hg⟩

/-- The nodes under the one of an answer were made since. -/
theorem Answers.size_le_of_under {r : MatchState κ × Option (Match κ)} (h : s.Answers r o)
    (hfound : r.2 = some part) {i : NodeId} (hi : r.1.nodes.Under part.id i) :
    s.nodes.size ≤ i := by
  obtain ⟨t, -, hground⟩ := h.found part hfound
  induction hi with
  | refl => exact hground.base_le
  | tail _ hstep ih =>
    obtain ⟨n, hn, hj⟩ := hstep
    exact (h.framed.made _ n ih hn).2 _ hj

/-- The nodes under the one of an answer are marked as complete exactly where they have no hole. -/
theorem Answers.isComplete_eq {r : MatchState κ × Option (Match κ)} (h : s.Answers r o)
    (hfound : r.2 = some part) {i : NodeId} {n : Node κ} (hi : r.1.nodes.Under part.id i)
    (hn : r.1.nodes[i]? = some n) : n.isComplete = n.hole.isNone :=
  (h.framed.made i n (h.size_le_of_under hfound hi) hn).1

/-- The node that is made last has the value that its parts give it. -/
theorem make_answers (h : s.Framed s') {n : Node κ} (hn : ∀ c ∈ n.children, s.nodes.size ≤ c)
    (hflag : n.isComplete = n.hole.isNone)
    (ht : n.tree? (s'.nodes.treeBelow? s'.nodes.size) = some t) :
    s.Answers (s'.make n) ⟨some t, s'.cursor⟩ := by
  refine answers_found (h.make hn hflag) ⟨h.size, Arena.push_getElem?_size _ _, ?_⟩
  exact (Arena.treeAt?_push s'.nodes n).trans ht

/-- An empty node answers with a missing tree at the cursor. -/
theorem makeEmpty_answers (h : s.Framed s') :
    s.Answers s'.makeEmpty ⟨some (.missing s'.cursor.pos), s'.cursor⟩ :=
  make_answers h (fun _ hc => absurd hc List.not_mem_nil) rfl rfl

/-- A token answers with what the reader reads after the gap. -/
theorem makeToken_answers (s : MatchState κ) (read : Cursor → Option Cursor) :
    s.Answers (s.makeToken read) (.token s.activeSkipper read s.cursor) := by
  simp only [makeToken, Outcome.token, tokenStart]
  cases read (s.activeSkipper.skip s.cursor) with
  | none => exact answers_refused (.refl s) rfl rfl
  | some stop =>
    exact make_answers ((Framed.refl s).moveTo stop) (fun _ hc => absurd hc List.not_mem_nil) rfl rfl

end MatchState

section Parts

variable {base : Nat} {nodes : Arena κ} {parts : List (Match κ)} {trees : List (ParseTree κ)}

/-- The children of a new node have the values of the parts. -/
theorem children_tree? (h : List.Forall₂ (Match.Grounded base nodes) parts trees) :
    (parts.map (·.id)).mapM (nodes.treeBelow? nodes.size) = some trees := by
  rw [mapM_eq_some_iff_forall₂, List.forall₂_map_left_iff]
  exact h.imp fun _ _ hg => hg.treeBelow?

/-- What a new node keeps of its parts stands for what its tree keeps of their trees. -/
theorem captures_tree? (h : List.Forall₂ (Match.Grounded base nodes) parts trees) :
    (parts.map (·.capture)).mapM (Capture.resolve? (nodes.treeBelow? nodes.size)) =
      some (trees.map (·.capture)) := by
  rw [mapM_eq_some_iff_forall₂, List.forall₂_map_left_iff, List.forall₂_map_right_iff]
  exact h.imp fun _ _ hg => hg.capture

/-- Nodes cover the text that their trees cover. -/
theorem coverParts_eq (h : List.Forall₂ (Match.Grounded base nodes) parts trees) (pos : Nat) :
    coverParts parts pos = ParseTree.cover trees pos := by
  have hpresent : List.Forall₂ (Match.Grounded base nodes) (parts.filter (!·.node.kind.isEmpty))
      (trees.filter (!·.kind.isEmpty)) :=
    List.rel_filter (fun _ _ hg => by simp only [hg.fields.1]) h
  have hspans : (parts.filter (!·.node.kind.isEmpty)).map (·.node.span) =
      (trees.filter (!·.kind.isEmpty)).map (·.span) := by
    rw [← List.forall₂_eq_eq_eq, List.forall₂_map_left_iff, List.forall₂_map_right_iff]
    exact hpresent.imp fun _ _ hg => hg.fields.2.1.symm
  rw [coverParts, ParseTree.cover, hspans]

/-- Nodes of trees made from an index on have indices from that one on. -/
theorem base_le_of_mem_ids (h : List.Forall₂ (Match.Grounded base nodes) parts trees) {id : NodeId}
    (hid : id ∈ parts.map (·.id)) : base ≤ id := by
  obtain ⟨part, hpart, rfl⟩ := List.mem_map.1 hid
  obtain ⟨i, hi, rfl⟩ := List.mem_iff_getElem.1 hpart
  exact (h.get hi (h.length_eq ▸ hi)).base_le

end Parts

end ExpLang
