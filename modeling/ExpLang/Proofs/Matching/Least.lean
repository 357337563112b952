import ExpLang.Proofs.Matching.Refinement

/-!
# The reference semantics is the least closed relation

An outcome of the reference semantics was made by finitely many constructs, so every closed relation
holds of it (`Grammar.ReferenceRel.of_closed`). What one construct makes of reference outcomes is a
reference outcome, and there are no others: a reference outcome can be taken apart by the construct that
made it (`Grammar.ReferenceRel.layer`).
-/

namespace ExpLang

variable {κ : Type}

/-! ## Constructs of larger relations -/

section Mono

variable {describe : Matcher κ → String} {sk : Skipper} {P Q : MatchRel κ} {c : Cursor}

/-- What items end in for one relation, they end in for a larger one. -/
theorem ItemsRel.mono (hPQ : ∀ {m c o}, P m c o → Q m c o) {committed : Bool}
    {items : List (Matcher κ)} {r : SeqOutcome κ} (h : ItemsRel describe sk P committed items c r) :
    ItemsRel describe sk Q committed items c r := by
  induction h with
  | done => exact .done
  | cut hsure _ ih => exact .cut hsure ih
  | refused hsure hitem => exact .refused hsure (hPQ hitem)
  | stuck hsure hitem => exact .stuck hsure (hPQ hitem)
  | inside hsure hitem hhole => exact .inside hsure (hPQ hitem) hhole
  | next hsure hitem hhole _ ih => exact .next hsure (hPQ hitem) hhole ih

/-- A choice for one relation is a choice for a larger one. -/
theorem ChoiceRel.mono (hPQ : ∀ {m c o}, P m c o → Q m c o) {alternatives : List (Matcher κ)}
    {o : Outcome κ} (h : ChoiceRel P c alternatives o) : ChoiceRel Q c alternatives o := by
  induction h with
  | nil => exact .nil
  | complete hm hhole => exact .complete (hPQ hm) hhole
  | refused hm _ ih => exact .refused (hPQ hm) ih
  | incomplete hm hhole _ ih => exact .incomplete (hPQ hm) hhole ih

/-- A separator for one relation is a separator for a larger one. -/
theorem SeparatorRel.mono (hPQ : ∀ {m c o}, P m c o → Q m c o) {separator : Option (Matcher κ)}
    {first : Bool} {before : Option (ParseTree κ)} {here : Cursor}
    (h : SeparatorRel P separator first c before here) :
    SeparatorRel Q separator first c before here := by
  cases h with
  | absent habsent => exact .absent habsent
  | present hm hhole => exact .present (hPQ hm) hhole

/-- Elements for one relation are elements for a larger one. -/
theorem ElementsRel.mono (hPQ : ∀ {m c o}, P m c o → Q m c o) {element : Matcher κ}
    {separator : Option (Matcher κ)} {first : Bool} {r : ListOutcome κ}
    (h : ElementsRel P element separator first c r) : ElementsRel Q element separator first c r := by
  induction h with
  | unseparated hsep hm => exact .unseparated hsep (hPQ hm)
  | stuck hsep hm hhole => exact .stuck hsep (hPQ hm) hhole
  | ended hsep hm => exact .ended (hsep.mono hPQ) (hPQ hm)
  | last hsep hm hlast => exact .last (hsep.mono hPQ) (hPQ hm) hlast
  | more hsep hm hmore _ ih => exact .more (hsep.mono hPQ) (hPQ hm) hmore ih

end Mono

/-- One layer over a relation is a layer over a larger one. -/
theorem Grammar.Layer.mono [DecidableEq κ] [RuleName κ] {g : Grammar κ} {P Q : Skipper → MatchRel κ}
    (hPQ : ∀ {sk m c o}, P sk m c o → Q sk m c o) {sk : Skipper} {m : Matcher κ} {c : Cursor}
    {o : Outcome κ} (h : g.Layer P sk m c o) : g.Layer Q sk m c o := by
  cases h with
  | literal => exact .literal
  | literals => exact .literals
  | pattern => exact .pattern
  | seq hitems => exact .seq (hitems.mono hPQ)
  | any hchoice => exact .any (hchoice.mono hPQ)
  | list helements => exact .list (helements.mono hPQ)
  | optional hbody => exact .optional (hPQ hbody)
  | undefined hrule => exact .undefined hrule
  | ruleSeq hrule hbody hitems => exact .ruleSeq hrule hbody (hitems.mono hPQ)
  | rule hrule hbody hrel => exact .rule hrule hbody (hPQ hrel)
  | unset href => exact .unset href
  | ref href htarget => exact .ref href (hPQ htarget)
  | sure => exact .sure
  | skip hbody => exact .skip (hPQ hbody)

/-! ## The constructs of the reference semantics -/

section Constructs

variable {describe : Matcher κ → String} {sk : Skipper} {ref : Matcher κ → Cursor → Option (Outcome κ)}

/-- Where nothing is found nothing is read. -/
def RefusesInPlace (ref : Matcher κ → Cursor → Option (Outcome κ)) : Prop :=
  ∀ {m c o}, ref m c = some o → o.found = none → o = .refused c

/-- What the reference makes of items is what items can end in. -/
theorem itemsRel_of_reference (href : RefusesInPlace ref) {committed : Bool}
    {items : List (Matcher κ)} {c : Cursor} {r : SeqOutcome κ}
    (h : referenceItems describe sk ref committed items c = some r) :
    ItemsRel describe sk (fun m c o => ref m c = some o) committed items c r := by
  induction items generalizing committed c r with
  | nil =>
    cases h
    exact .done
  | cons item items ih =>
    rw [referenceItems] at h
    split at h
    · exact .cut ‹_› (ih h)
    rename_i hsure
    rw [Bool.not_eq_true] at hsure
    obtain ⟨⟨found, stop⟩, ho, h⟩ := Option.bind_eq_some_iff.1 h
    cases found with
    | none =>
      have hrefused := href ho rfl
      rw [hrefused] at ho
      cases committed with
      | false =>
        cases h
        exact .refused hsure ho
      | true =>
        cases h
        exact .stuck hsure ho
    | some t =>
      cases hhole : t.hole with
      | some hole =>
        simp only [hhole] at h
        cases h
        exact .inside hsure ho hhole
      | none =>
        simp only [hhole] at h
        obtain ⟨rest, hrest, h⟩ := Option.bind_eq_some_iff.1 h
        cases h
        exact .next hsure ho hhole (ih hrest)

/-- What the reference makes of alternatives is what a choice can end in. -/
theorem choiceRel_of_reference (href : RefusesInPlace ref) {alternatives : List (Matcher κ)}
    {c : Cursor} {o : Outcome κ} (h : referenceChoice ref alternatives c = some o) :
    ChoiceRel (fun m c o => ref m c = some o) c alternatives o := by
  induction alternatives generalizing o with
  | nil =>
    cases h
    exact .nil
  | cons m rest ih =>
    rw [referenceChoice] at h
    obtain ⟨⟨found, stop⟩, hm, h⟩ := Option.bind_eq_some_iff.1 h
    cases found with
    | none =>
      rw [href hm rfl] at hm
      exact .refused hm (ih h)
    | some t =>
      cases hhole : t.hole with
      | none =>
        simp only [ParseTree.isComplete, hhole, Option.isNone_none, if_true] at h
        cases h
        exact .complete hm hhole
      | some hole =>
        simp only [ParseTree.isComplete, hhole, Option.isNone_some, Bool.false_eq_true, if_false] at h
        obtain ⟨o', ho', h⟩ := Option.bind_eq_some_iff.1 h
        cases h
        exact .incomplete hm hhole (ih ho')

/-- The separator before an element is none, goes through, is refused or has a hole. -/
theorem separator_cases (href : RefusesInPlace ref) {separator : Option (Matcher κ)} {first : Bool}
    {c : Cursor} {before : Option (ParseTree κ)} {o : Outcome κ}
    (h : referenceSeparator ref separator first c = some (before, o)) :
    (∃ t here, o = ⟨some t, here⟩ ∧ t.hole = none ∧
      SeparatorRel (fun m c o => ref m c = some o) separator first c before here) ∨
    ∃ m, separator = some m ∧ first = false ∧ ref m c = some o ∧ before = o.found ∧
      (o = .refused c ∨ ∃ t hole, o.found = some t ∧ t.hole = some hole) := by
  rw [referenceSeparator.eq_def] at h
  split at h
  · rename_i m
    obtain ⟨⟨found, stop⟩, hm, h⟩ := Option.bind_eq_some_iff.1 h
    cases h
    cases found with
    | none => exact .inr ⟨m, rfl, rfl, hm, rfl, .inl (href hm rfl)⟩
    | some t =>
      cases hhole : t.hole with
      | none => exact .inl ⟨t, stop, rfl, hhole, .present hm hhole⟩
      | some hole => exact .inr ⟨m, rfl, rfl, hm, rfl, .inr ⟨t, hole, rfl, hhole⟩⟩
  · rename_i habsent
    cases h
    refine .inl ⟨_, c, rfl, rfl, .absent ?_⟩
    cases separator with
    | none => exact .inl rfl
    | some m =>
      cases first with
      | true => exact .inr rfl
      | false => exact absurd rfl (habsent m rfl)

/-- What the reference makes of elements is what a list can end in. -/
theorem elementsRel_of_reference (href : RefusesInPlace ref) {element : Matcher κ}
    {separator : Option (Matcher κ)} {bound : Nat} {first : Bool} {c : Cursor} {r : ListOutcome κ}
    (h : referenceElements ref element separator bound first c = some r) :
    ElementsRel (fun m c o => ref m c = some o) element separator first c r := by
  induction bound generalizing first c r with
  | zero => cases h
  | succ bound ih =>
    rw [referenceElements] at h
    obtain ⟨⟨before, sep⟩, hsep, h⟩ := Option.bind_eq_some_iff.1 h
    rcases separator_cases href hsep with
      ⟨t, here, rfl, hhole, hrel⟩ | ⟨m, hm, rfl, hrel, rfl, rfl | ⟨t, hole, hfound, hhole⟩⟩
    · simp only [hhole] at h
      obtain ⟨⟨found, stop⟩, ho, h⟩ := Option.bind_eq_some_iff.1 h
      cases found with
      | none =>
        cases h
        rw [href ho rfl] at ho
        exact .ended hrel ho
      | some u =>
        cases hlast : (u.hole.isSome || stop.pos == c.pos) with
        | true =>
          simp only [hlast, if_true] at h
          cases h
          exact .last hrel ho hlast
        | false =>
          simp only [hlast, Bool.false_eq_true, if_false] at h
          obtain ⟨rest, hrest, h⟩ := Option.bind_eq_some_iff.1 h
          cases h
          exact .more hrel ho hlast (ih hrest)
    · cases h
      exact .unseparated hm hrel
    · obtain ⟨found, stop⟩ := sep
      cases hfound
      simp only [hhole] at h
      cases h
      exact .stuck hm hrel hhole

end Constructs

namespace Grammar

variable [DecidableEq κ] [RuleName κ] {g : Grammar κ} {sk : Skipper} {m : Matcher κ} {c : Cursor}
  {o o' : Outcome κ}

/-- An outcome at a depth was made by one construct from outcomes at the depth below. -/
theorem layer_of_reference {depth : Nat} (hbelow : ∀ sk, RefusesInPlace (g.reference depth sk))
    (h : g.reference (depth + 1) sk m c = some o) :
    g.Layer (fun sk m c o => g.reference depth sk m c = some o) sk m c o := by
  cases m with
  | literal text =>
    cases h
    exact .literal
  | literals set =>
    cases h
    exact .literals
  | pattern reader what =>
    cases h
    exact .pattern
  | seq items =>
    obtain ⟨r, hr, rfl⟩ := Option.map_eq_some_iff.1 h
    exact .seq (itemsRel_of_reference (hbelow sk) hr)
  | any alternatives => exact .any (choiceRel_of_reference (hbelow sk) h)
  | list element separator least =>
    obtain ⟨r, hr, rfl⟩ := Option.map_eq_some_iff.1 h
    exact .list (elementsRel_of_reference (hbelow sk) hr)
  | optional body =>
    obtain ⟨o', ho', rfl⟩ := Option.map_eq_some_iff.1 h
    exact .optional ho'
  | rule name =>
    rw [reference] at h
    split at h
    · cases h
      exact .undefined ‹_›
    · rename_i rule hrule
      split at h
      · rename_i items hbody
        obtain ⟨r, hr, rfl⟩ := Option.map_eq_some_iff.1 h
        exact .ruleSeq hrule hbody (itemsRel_of_reference (hbelow sk) hr)
      · rename_i hbody
        obtain ⟨o', ho', rfl⟩ := Option.map_eq_some_iff.1 h
        exact .rule hrule hbody ho'
  | ref index =>
    rw [reference] at h
    split at h
    · cases h
      exact .unset ‹_›
    · exact .ref ‹_› h
  | sure =>
    cases h
    exact .sure
  | skip skipper body => exact .skip h

/-- Where nothing is found nothing is read, whatever construct is used. -/
theorem Layer.eq_refused {P : Skipper → MatchRel κ}
    (hP : ∀ {sk m c o}, P sk m c o → o.found = none → o = .refused c) (h : g.Layer P sk m c o)
    (hfound : o.found = none) : o = .refused c := by
  have htoken {read : Cursor → Option Cursor}
      (hnone : (Outcome.token sk read c : Outcome κ).found = none) :
      (Outcome.token sk read c : Outcome κ) = .refused c := by
    unfold Outcome.token at hnone ⊢
    split at hnone
    · rfl
    · cases hnone
  have hseq {kind : NodeKind κ} {r : SeqOutcome κ} (hnone : (r.outcome kind c).found = none) :
      r.outcome kind c = .refused c := by
    cases r with
    | refused => rfl
    | ended => cases hnone
  cases h with
  | literal | literals | pattern => exact htoken hfound
  | seq | ruleSeq => exact hseq hfound
  | any hchoice =>
    induction hchoice with
    | nil => rfl
    | complete => cases hfound
    | refused _ _ ih => exact ih hfound
    | incomplete _ hhole _ ih =>
      -- A tree with a hole gets further than nothing.
      unfold Outcome.orFurther at hfound ⊢
      split at hfound
      · rename_i hless
        simp [Outcome.reach, hhole, hfound] at hless
      · cases hfound
  | list =>
    unfold ListOutcome.outcome at hfound ⊢
    split at hfound
    · simp_all
    · cases hfound
  | @optional body _ o' hbody =>
    unfold Outcome.orMissing at hfound
    split at hfound
    · cases hfound
    · simp_all
  | undefined | unset => rfl
  | rule _ _ hbody =>
    rw [hP hbody (Option.map_eq_none_iff.1 hfound)]
    rfl
  | ref _ htarget => exact hP htarget hfound
  | sure => cases hfound
  | skip hbody => exact hP hbody hfound

/-- The reference refuses without moving the cursor. -/
theorem refusesInPlace_reference (g : Grammar κ) (depth : Nat) (sk : Skipper) :
    RefusesInPlace (g.reference depth sk) := by
  induction depth generalizing sk with
  | zero =>
    intro m c o h
    cases h
  | succ depth ih =>
    intro m c o h
    exact (layer_of_reference ih h).eq_refused (ih _)

/-- Every closed relation holds of the outcomes at a depth. -/
theorem closed_of_reference {Q : Skipper → MatchRel κ} (hQ : g.Closed Q) {depth : Nat}
    (h : g.reference depth sk m c = some o) : Q sk m c o := by
  induction depth generalizing sk m c o with
  | zero => cases h
  | succ depth ih =>
    exact hQ _ _ _ _ ((layer_of_reference (g.refusesInPlace_reference depth) h).mono ih)

namespace ReferenceRel

/-- Every closed relation holds of reference outcomes. -/
theorem of_closed {Q : Skipper → MatchRel κ} (hQ : g.Closed Q) (h : g.ReferenceRel sk m c o) :
    Q sk m c o := by
  obtain ⟨depth, h⟩ := h.exists
  exact closed_of_reference hQ h

/-- A reference outcome was made by one construct from reference outcomes. -/
theorem layer (h : g.ReferenceRel sk m c o) : g.Layer g.ReferenceRel sk m c o :=
  h.of_closed fun _ _ _ _ hlayer => hlayer.mono (g.closed_referenceRel _ _ _ _)

/-- A matcher has one outcome at a cursor. -/
theorem unique (h : g.ReferenceRel sk m c o) (h' : g.ReferenceRel sk m c o') : o = o' := by
  obtain ⟨depth, h, h'⟩ := (h.and h').exists
  exact Option.some.inj (h.symm.trans h')

end ReferenceRel

end Grammar

end ExpLang
