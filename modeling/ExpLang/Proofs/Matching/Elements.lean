import ExpLang.Proofs.Matching.Runner

/-!
# Matching lists

A list is matched element by element, and the number of elements is bounded by the steps that are
left. Each element takes a step, so that the bound is met only when the budget is spent.
-/

namespace ExpLang

variable {κ : Type} {P : Skipper → MatchRel κ} {bound : Nat} {run : Runner κ} {s : MatchState κ}

/-- The outcome that the items of a list stand for. -/
structure ListAnswer (base : Nat) (s : MatchState κ) (items : ListItems κ) (r : ListOutcome κ) :
    Prop where
  parts : List.Forall₂ (Match.Grounded base s.nodes) items.parts r.parts
  elements : List.Forall₂ (fun id t => s.nodes.treeAt? id = some t) items.elements r.elements
  separators : List.Forall₂ (fun id t => s.nodes.treeAt? id = some t) items.separators r.separators
  hole : r.hole = items.hole
  stop : r.stop = s.cursor

namespace ListAnswer

variable {base : Nat} {s : MatchState κ} {items : ListItems κ} {r : ListOutcome κ}

/-- An empty list answers with no elements at the cursor. -/
theorem empty (base : Nat) (s : MatchState κ) (hole : Option Hole) :
    ListAnswer base s { hole := hole } { hole := hole, stop := s.cursor } :=
  ⟨.nil, .nil, .nil, rfl, rfl⟩

/-- A list made from an index on is one made from a smaller index on. -/
theorem mono (h : ListAnswer base s items r) {lower : Nat} (hle : lower ≤ base) :
    ListAnswer lower s items r :=
  ⟨h.parts.imp fun _ _ hg => hg.mono hle, h.elements, h.separators, h.hole, h.stop⟩

/-- One element more answers with one element more. -/
theorem element (h : ListAnswer base s items r) {part : Match κ} {t : ParseTree κ}
    (hpart : part.Grounded base s.nodes t) : ListAnswer base s (items.element part) (r.element t) :=
  ⟨.cons hpart h.parts, .cons hpart.tree h.elements, h.separators, h.hole, h.stop⟩

/-- One separator more answers with one separator more. -/
theorem separator (h : ListAnswer base s items r) {sep : Option (Match κ)}
    {before : Option (ParseTree κ)} (hsep : Option.Rel (Match.Grounded base s.nodes) sep before) :
    ListAnswer base s (items.separator sep) (r.separator before) := by
  cases hsep with
  | none => exact h
  | some hpart =>
    exact ⟨.cons hpart h.parts, h.elements, .cons hpart.tree h.separators, h.hole, h.stop⟩

end ListAnswer

/-- A separator that is there stays grounded in a later state. -/
theorem MatchState.Framed.grounded_option {s s' : MatchState κ} (h : s.Framed s') {base : Nat}
    {sep : Option (Match κ)} {before : Option (ParseTree κ)}
    (hsep : Option.Rel (Match.Grounded base s.nodes) sep before) :
    Option.Rel (Match.Grounded base s'.nodes) sep before := by
  cases hsep with
  | none => exact .none
  | some hpart => exact .some (hpart.framed h)

/-- What running the separator before an element can come to: the list ends, the separator has a
hole in it, or the element comes next. -/
theorem runSeparator_cases (hrun : Simulates P bound run) (separator : Option (Matcher κ))
    (first : Bool) (hs : s.stepsLeft ≤ bound) :
    (∃ s' m, runSeparator run separator first s = (s', none) ∧ s.Framed s' ∧
      s'.cursor = s.cursor ∧ separator = some m ∧ first = false ∧
      (s'.Excused (AllowsRefusal P) → P s.activeSkipper m s.cursor (.refused s.cursor))) ∨
    (∃ s' part t hole m, runSeparator run separator first s = (s', some (some part)) ∧
      s.Framed s' ∧ part.Grounded s.nodes.size s'.nodes t ∧ t.hole = some hole ∧
      separator = some m ∧ first = false ∧
      (s'.Excused (AllowsRefusal P) → P s.activeSkipper m s.cursor ⟨some t, s'.cursor⟩)) ∨
    ∃ s' sep before, runSeparator run separator first s = (s', some sep) ∧ s.Framed s' ∧
      sep.any (!·.node.isComplete) = false ∧
      Option.Rel (Match.Grounded s.nodes.size s'.nodes) sep before ∧
      (s'.Excused (AllowsRefusal P) →
        SeparatorRel (P s.activeSkipper) separator first s.cursor before s'.cursor) := by
  unfold runSeparator
  split
  · rename_i m
    rcases hrun.cases m hs with
      ⟨s₁, heq, hframed, -, -, hcursor, hP⟩ | ⟨s₁, part, t, heq, hframed, -, hground, hP⟩
    · exact .inl ⟨s₁, m, by rw [heq], hframed, hcursor, rfl, rfl, hP⟩
    · have hcomplete := hground.isComplete hframed
      cases hhole : t.hole with
      | some hole =>
        exact .inr (.inl ⟨s₁, part, t, hole, m, by rw [heq], hframed, hground, hhole, rfl, rfl, hP⟩)
      | none =>
        rw [hhole] at hcomplete
        exact .inr (.inr ⟨s₁, some part, some t, by rw [heq], hframed, by simp [hcomplete],
          .some hground, fun hG => .present (hP hG) hhole⟩)
  · rename_i hne
    refine .inr (.inr ⟨s, none, none, rfl, .refl s, rfl, .none, fun _ => .absent ?_⟩)
    cases separator with
    | none => exact .inl rfl
    | some m => cases first with
      | false => exact absurd rfl (hne m rfl)
      | true => exact .inr rfl

/-- A state with no steps left has spent its budget. -/
theorem MatchState.exhausted_of_stepsLeft (hs : s.stepsLeft = 0) : s.exhausted = true := by
  simp only [MatchState.stepsLeft, MatchState.exhausted, decide_eq_true_eq] at hs ⊢
  omega

/-- A refusal of everything ends a list at once. -/
theorem ElementsRel.of_allowsRefusal (hG : AllowsRefusal P) (sk : Skipper) (element : Matcher κ)
    (separator : Option (Matcher κ)) (first : Bool) (c : Cursor) :
    ElementsRel (P sk) element separator first c { stop := c } := by
  cases separator with
  | none => exact .ended (.absent (.inl rfl)) (hG sk element c)
  | some m => cases first with
    | true => exact .ended (.absent (.inr rfl)) (hG sk element c)
    | false => exact .unseparated rfl (hG sk m c)

/-- Running the elements of a list. Each takes a step, so that the bound on their number is never
met with steps left. -/
theorem runElements_answers (hrun : Simulates P bound run) (element : Matcher κ)
    (separator : Option (Matcher κ)) (n : Nat) (first : Bool) (s : MatchState κ)
    (hn : s.stepsLeft ≤ n) (hs : s.stepsLeft ≤ bound) :
    ∃ s' items r, runElements run element separator n first s = (s', items) ∧ s.Framed s' ∧
      ListAnswer s.nodes.size s' items r ∧ (s'.Excused (AllowsRefusal P) →
        ElementsRel (P s.activeSkipper) element separator first s.cursor r) := by
  induction n generalizing first s with
  | zero =>
    have hspent : s.exhausted = true := MatchState.exhausted_of_stepsLeft (Nat.le_zero.1 hn)
    exact ⟨s, {}, _, rfl, .refl s, .empty _ s none, fun hG => .of_allowsRefusal (hG hspent) ..⟩
  | succ n ih =>
    rw [runElements]
    rcases runSeparator_cases hrun separator first hs with
      ⟨s₁, m, heq, hframed, hcursor, rfl, rfl, hP⟩ |
      ⟨s₁, part, t, hole, m, heq, hframed, hground, hhole, rfl, rfl, hP⟩ |
      ⟨s₁, sep, before, heq, hframed, hwhole, hsep, hrel⟩
    · simp only [heq]
      refine ⟨s₁, {}, _, rfl, hframed, .empty _ s₁ none, fun hG => ?_⟩
      rw [hcursor]
      exact .unseparated rfl (hP hG)
    · have hcomplete := hground.isComplete hframed
      have hnode := hground.fields.2.2
      rw [hhole] at hcomplete hnode
      simp only [heq, Option.any_some, hcomplete, Option.isNone_some, Bool.not_false, if_true,
        Option.bind_some, ← hnode]
      exact ⟨s₁, _, _, rfl, hframed, (ListAnswer.empty _ s₁ (some hole)).separator (.some hground),
        fun hG => .stuck rfl (hP hG) hhole⟩
    · simp only [heq, hwhole, Bool.false_eq_true, if_false]
      rcases hrun.cases element (hframed.stepsLeft.trans hs) with
        ⟨s₂, heq₂, hframed₂, -, -, -, hP⟩ | ⟨s₂, part, t, heq₂, hframed₂, hsteps, hground, hP⟩
      · rw [hframed.activeSkipper] at hP
        simp only [heq₂]
        exact ⟨_, {}, _, rfl, (hframed.trans hframed₂).rewind s.cursor, .empty _ _ none,
          fun hG => .ended (hrel (hframed₂.excused hG)) (hP hG)⟩
      · rw [hframed.activeSkipper] at hP
        have hground' := hground.mono hframed.size
        have hsep' : Option.Rel (Match.Grounded s.nodes.size s₂.nodes) sep before :=
          hframed₂.grounded_option hsep
        have hnode := hground.fields.2.2
        -- The list ends with this element if the element has a hole or read nothing.
        have hend (hlast : (t.hole.isSome || s₂.cursor.pos == s.cursor.pos) = true) :
            ∃ s' items r, (s₂, ListItems.separator sep (ListItems.element part { hole := t.hole })) =
              (s', items) ∧ s.Framed s' ∧ ListAnswer s.nodes.size s' items r ∧
              (s'.Excused (AllowsRefusal P) →
                ElementsRel (P s.activeSkipper) element separator first s.cursor r) :=
          ⟨s₂, _, _, rfl, hframed.trans hframed₂,
            ((ListAnswer.empty _ s₂ t.hole).element hground').separator hsep',
            fun hG => .last (hrel (hframed₂.excused hG)) (hP hG) hlast⟩
        simp only [heq₂, hground.isComplete hframed₂, ← hnode]
        cases hhole : t.hole with
        | some hole =>
          rw [hhole] at hend
          exact hend rfl
        | none =>
          rw [hhole] at hend
          simp only [Option.isNone_none, Bool.not_true, Bool.false_eq_true, if_false]
          by_cases hmoved : (s₂.cursor.pos == s.cursor.pos) = true
          · rw [if_pos hmoved]
            exact hend hmoved
          · have hmore : (t.hole.isSome || s₂.cursor.pos == s.cursor.pos) = false := by
              simpa [hhole] using hmoved
            rw [if_neg hmoved]
            have hleft : s₂.stepsLeft ≤ n := by
              have := hframed.stepsLeft
              omega
            obtain ⟨s', items, r, heq', hframed', hanswer, hrel'⟩ :=
              ih false s₂ hleft ((hframed.trans hframed₂).stepsLeft.trans hs)
            rw [(hframed.trans hframed₂).activeSkipper] at hrel'
            simp only [heq']
            have hanswer' := ((hanswer.mono (hframed.trans hframed₂).size).element
              (hground'.framed hframed')).separator (hframed'.grounded_option hsep')
            exact ⟨s', _, _, rfl, (hframed.trans hframed₂).trans hframed', hanswer',
              fun hG => .more (hrel ((hframed₂.trans hframed').excused hG))
                (hP (hframed'.excused hG)) hmore (hrel' hG)⟩

/-- Matching a list. -/
theorem matchList_answers (hrun : Simulates P bound run) (element : Matcher κ)
    (separator : Option (Matcher κ)) (least : Nat) (hs : s.stepsLeft ≤ bound) :
    ∃ r, s.Answers (matchList run element separator least s) (r.outcome least s.cursor) ∧
      ((matchList run element separator least s).1.Excused (AllowsRefusal P) →
        ElementsRel (P s.activeSkipper) element separator true s.cursor r) := by
  obtain ⟨s', items, r, heq, hframed, hanswer, hrel⟩ :=
    runElements_answers hrun element separator s.stepsLeft true s le_rfl hs
  have hlength : items.elements.length = r.elements.length := hanswer.elements.length_eq
  refine ⟨r, ?_⟩
  rw [matchList, heq, ListOutcome.outcome, hanswer.hole, ← hlength]
  simp only
  split
  · exact ⟨MatchState.answers_rewind hframed, hrel⟩
  · refine ⟨?_, hrel⟩
    rw [hanswer.stop]
    refine MatchState.make_answers hframed (fun c hc => base_le_of_mem_ids hanswer.parts hc) rfl ?_
    have hbelow {ids : List NodeId} {trees : List (ParseTree κ)}
        (h : List.Forall₂ (fun id t => s'.nodes.treeAt? id = some t) ids trees) :
        ids.mapM (s'.nodes.treeBelow? s'.nodes.size) = some trees := by
      refine mapM_eq_some_iff_forall₂.2 (h.imp fun id t ht => ?_)
      rw [Arena.treeBelow?, if_pos (Arena.lt_size_of_treeAt? ht), ht]
    rw [Node.tree?, coverParts_eq hanswer.parts]
    simp [children_tree? hanswer.parts, Capture.resolve?, hbelow hanswer.elements,
      hbelow hanswer.separators]

end ExpLang
