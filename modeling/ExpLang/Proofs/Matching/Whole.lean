import ExpLang.Proofs.Matching.Least

/-!
# Matches that go through

`Grammar.Through` says that a matcher makes a tree without a hole of the text between two cursors, and
`Grammar.Refused` that it makes nothing of the text at a cursor. For each construct there is an
equivalence that says so by its parts: the items of a sequence go through one after the other, of several
alternatives one goes through and those before it do not, and the elements of a list go on until there is
no further one.
-/

namespace ExpLang

variable {κ : Type}

/-- Trees without a hole that a matcher can make of the text between two cursors. -/
abbrev ThroughRel (κ : Type) := Matcher κ → Cursor → ParseTree κ → Cursor → Prop

/-- The items of a sequence go through one after the other. Each tree comes with whether it is kept. -/
def Succeed (T : ThroughRel κ) :
    List (Matcher κ) → Cursor → List (ParseTree κ × Bool) → Cursor → Prop
  | [], c, parts, stop => parts = [] ∧ stop = c
  | item :: items, c, parts, stop =>
    if item.isSure then Succeed T items c parts stop
    else ∃ t mid rest, T item c t mid ∧ parts = (t, item.isStored) :: rest ∧
      Succeed T items mid rest stop

/-- A committing mark among the items of a sequence reads nothing. -/
theorem succeed_sure {T : ThroughRel κ} {items : List (Matcher κ)} {c stop : Cursor}
    {parts : List (ParseTree κ × Bool)} :
    Succeed T (.sure :: items) c parts stop ↔ Succeed T items c parts stop := by
  rw [Succeed, if_pos (show Matcher.sure.isSure = true from rfl)]

/-- A sequence goes through if its first item does and the others do after it. -/
theorem succeed_cons {T : ThroughRel κ} {item : Matcher κ} {items : List (Matcher κ)}
    {c stop : Cursor} {parts : List (ParseTree κ × Bool)} (hsure : item.isSure = false) :
    Succeed T (item :: items) c parts stop ↔ ∃ t mid rest, T item c t mid ∧
      parts = (t, item.isStored) :: rest ∧ Succeed T items mid rest stop := by
  rw [Succeed, if_neg (by simp [hsure])]

/-- The tree of a sequence from the trees of its items. -/
def ParseTree.ofParts (kind : NodeKind κ) (pos : Nat) (parts : List (ParseTree κ × Bool)) :
    ParseTree κ :=
  ⟨kind, cover (parts.map (·.1)) pos, parts.map (·.1), (parts.filter (·.2)).map (·.1.capture), none⟩

/-- The offset counts only if nothing is there. -/
theorem ParseTree.ofParts_pos {t : ParseTree κ} (h : t.kind.isEmpty = false) (kind : NodeKind κ)
    (pos pos' : Nat) (isKept : Bool) (parts : List (ParseTree κ × Bool)) :
    ofParts kind pos ((t, isKept) :: parts) = ofParts kind pos' ((t, isKept) :: parts) := by
  simp [ofParts, cover, h, Span.cover]

/-- The tree of a rule around the tree of its body. -/
def ParseTree.ofBody (name : κ) (arity : Nat) (t : ParseTree κ) : ParseTree κ :=
  ⟨.rule name, t.span, [t], if arity = 0 then [] else [t.capture], none⟩

/-- Without separators the first element is like any other. -/
theorem ElementsRel.not_first {P : MatchRel κ} {element : Matcher κ} {first : Bool} {c : Cursor}
    {r : ListOutcome κ} (h : ElementsRel P element none first c r) :
    ElementsRel P element none false c r := by
  have hsep {before : Option (ParseTree κ)} {here : Cursor}
      (h : SeparatorRel P none first c before here) : SeparatorRel P none false c before here := by
    cases h with
    | absent => exact .absent (.inl rfl)
  cases h with
  | unseparated hm => cases hm
  | stuck hm => cases hm
  | ended h hend => exact .ended (hsep h) hend
  | last h ht hlast => exact .last (hsep h) ht hlast
  | more h ht hmore hrest => exact .more (hsep h) ht hmore hrest

/-- A list that goes on with a separator has one before each further element. -/
theorem SeparatorRel.of_some {P : MatchRel κ} {m : Matcher κ} {c here : Cursor}
    {before : Option (ParseTree κ)} (h : SeparatorRel P (some m) false c before here) :
    ∃ t, before = some t ∧ P m c ⟨some t, here⟩ ∧ t.hole = none := by
  cases h with
  | absent habsent => rcases habsent with habsent | habsent <;> cases habsent
  | present hm hhole => exact ⟨_, rfl, hm, hhole⟩

/-- The tree of a list. -/
def ListOutcome.tree (r : ListOutcome κ) (pos : Nat) : ParseTree κ :=
  ⟨.list, ParseTree.cover r.parts pos, r.parts, [.list r.elements r.separators], none⟩

namespace Grammar

variable [DecidableEq κ] [RuleName κ] (g : Grammar κ) (sk : Skipper)

/-- A matcher makes a tree without a hole of the text between two cursors. -/
def Through : ThroughRel κ := fun m c t stop => g.ReferenceRel sk m c ⟨some t, stop⟩ ∧ t.hole = none

/-- A matcher makes nothing of the text at a cursor. -/
def Refused (m : Matcher κ) (c : Cursor) : Prop := g.ReferenceRel sk m c (.refused c)

/-- A matcher does not go through at a cursor. -/
def Fails (m : Matcher κ) (c : Cursor) : Prop :=
  g.Refused sk m c ∨ ∃ t stop hole, g.ReferenceRel sk m c ⟨some t, stop⟩ ∧ t.hole = some hole

/-- One of several alternatives goes through and those before it do not. -/
def Chosen : List (Matcher κ) → Cursor → ParseTree κ → Cursor → Prop
  | [], _, _, _ => False
  | m :: rest, c, t, stop => g.Through sk m c t stop ∨ g.Fails sk m c ∧ Chosen rest c t stop

end Grammar

namespace Outcome

/-- A token is made where the reader stops, of the text after the skipped whitespace. -/
theorem token_eq_some_iff {sk : Skipper} {c stop : Cursor} {t : ParseTree κ}
    {read : Cursor → Option Cursor} :
    token sk read c = ⟨some t, stop⟩ ↔
      read (sk.skip c) = some stop ∧ t = .token ⟨(sk.skip c).pos, stop.pos⟩ := by
  unfold token
  cases hread : read (sk.skip c) with
  | none => simp [refused]
  | some stop' =>
    simp only [mk.injEq, Option.some.injEq]
    constructor
    · rintro ⟨rfl, rfl⟩
      exact ⟨rfl, rfl⟩
    · rintro ⟨rfl, rfl⟩
      exact ⟨rfl, rfl⟩

/-- A token is refused exactly if the reader reads nothing after the skipped whitespace. -/
theorem token_eq_refused_iff {sk : Skipper} {c : Cursor} {read : Cursor → Option Cursor} :
    (token sk read c : Outcome κ) = .refused c ↔ read (sk.skip c) = none := by
  unfold token
  cases read (sk.skip c) <;> simp [refused]

end Outcome

section Constructs

variable [DecidableEq κ] [RuleName κ] {g : Grammar κ} {sk : Skipper} {c stop : Cursor}
  {t : ParseTree κ}

/-- The items of a sequence end without a hole exactly if all of them go through. -/
theorem itemsRel_whole_iff {describe : Matcher κ → String} {committed : Bool}
    {items : List (Matcher κ)} {parts : List (ParseTree κ × Bool)} :
    ItemsRel describe sk (g.ReferenceRel sk) committed items c (.ended parts none stop) ↔
      Succeed (g.Through sk) items c parts stop := by
  constructor
  · intro h
    generalize hr : SeqOutcome.ended parts none stop = r at h
    induction h generalizing parts with
    | done =>
      cases hr
      exact ⟨rfl, rfl⟩
    | cut hsure _ ih =>
      rw [Succeed, if_pos hsure]
      exact ih hr
    | refused | stuck | inside => cases hr
    | @next _ item items c t mid r hsure hitem hhole _ ih =>
      rw [Succeed, if_neg (by simp [hsure])]
      cases r with
      | refused => cases hr
      | ended rest hole stop' =>
        cases hr
        exact ⟨t, mid, rest, ⟨hitem, hhole⟩, rfl, ih rfl⟩
  · intro h
    induction items generalizing committed c parts with
    | nil =>
      obtain ⟨rfl, rfl⟩ := h
      exact .done
    | cons item items ih =>
      rw [Succeed] at h
      split at h
      · exact .cut ‹_› (ih h)
      · rename_i hsure
        obtain ⟨t, mid, rest, ⟨hitem, hhole⟩, rfl, hrest⟩ := h
        exact .next (by simpa using hsure) hitem hhole (ih hrest)

namespace Grammar

/-! ## Tokens -/

/-- A matcher reads one token. -/
def ReadsToken (g : Grammar κ) (sk : Skipper) (m : Matcher κ) (read : Cursor → Option Cursor) : Prop :=
  ∀ c, g.ReferenceRel sk m c (.token sk read c)

/-- A literal reads one token. -/
theorem reads_literal (text : List Char) : g.ReadsToken sk (.literal text) (readLiteral text) :=
  fun _ => g.closed_referenceRel _ _ _ _ .literal

/-- A set of literals reads one token. -/
theorem reads_literals (set : Literals) : g.ReadsToken sk (.literals set) (readLiterals set) :=
  fun _ => g.closed_referenceRel _ _ _ _ .literals

/-- A pattern reads one token. -/
theorem reads_pattern (reader : TokenReader) (what : String) :
    g.ReadsToken sk (.pattern reader what) reader.readAt :=
  fun _ => g.closed_referenceRel _ _ _ _ .pattern

variable {m : Matcher κ} {read : Cursor → Option Cursor}

/-- A matcher of one token goes through as its reader reads. -/
theorem ReadsToken.through_iff (h : g.ReadsToken sk m read) : g.Through sk m c t stop ↔
    read (sk.skip c) = some stop ∧ t = .token ⟨(sk.skip c).pos, stop.pos⟩ := by
  rw [← Outcome.token_eq_some_iff]
  constructor
  · exact fun hm => (h c).unique hm.1
  · intro ht
    refine ⟨ht ▸ h c, ?_⟩
    rw [(Outcome.token_eq_some_iff.1 ht).2]
    rfl

/-- A matcher of one token is refused exactly if its reader reads nothing. -/
theorem ReadsToken.refused_iff (h : g.ReadsToken sk m read) :
    g.Refused sk m c ↔ read (sk.skip c) = none := by
  rw [← Outcome.token_eq_refused_iff (κ := κ)]
  refine ⟨fun hm => (h c).unique hm, fun ht => ?_⟩
  rw [Refused, ← ht]
  exact h c

/-- What reads a token goes through or is refused. -/
theorem ReadsToken.fails_iff (h : g.ReadsToken sk m read) : g.Fails sk m c ↔ read (sk.skip c) = none := by
  rw [← h.refused_iff]
  refine ⟨fun hm => hm.resolve_right ?_, .inl⟩
  rintro ⟨t, stop, hole, hm, hhole⟩
  rw [(Outcome.token_eq_some_iff.1 ((h c).unique hm)).2] at hhole
  cases hhole

/-! ## Rules -/

variable {name : κ} {arity : Nat} {items alternatives : List (Matcher κ)} {body : Matcher κ}

/-- A rule that is a sequence goes through if its items do, and its tree has their trees. -/
theorem through_ruleSeq_iff (hrule : g.rule? name = some ⟨arity, .seq items⟩) :
    g.Through sk (.rule name) c t stop ↔
      ∃ parts, Succeed (g.Through sk) items c parts stop ∧ t = .ofParts (.rule name) c.pos parts := by
  constructor
  · rintro ⟨h, hwhole⟩
    generalize ho : (⟨some t, stop⟩ : Outcome κ) = o at h
    cases h.layer with
    | undefined hnone => cases hrule.symm.trans hnone
    | rule hrule' hbody =>
      cases hrule.symm.trans hrule'
      exact absurd rfl (hbody items)
    | @ruleSeq _ _ items' _ r hrule' hbody hitems =>
      cases hrule.symm.trans hrule'
      cases hbody
      cases r with
      | refused => cases ho
      | ended parts hole stop' =>
        cases ho
        cases hwhole
        exact ⟨parts, itemsRel_whole_iff.1 hitems, rfl⟩
  · rintro ⟨parts, hparts, rfl⟩
    exact ⟨g.closed_referenceRel _ _ _ _ (.ruleSeq hrule rfl (itemsRel_whole_iff.2 hparts)), rfl⟩

/-- The outcome of a rule is that of its body, with a node of the rule around it. -/
theorem referenceRel_rule_iff (hrule : g.rule? name = some ⟨arity, body⟩)
    (hbody : ∀ items, body ≠ .seq items) {o : Outcome κ} : g.ReferenceRel sk (.rule name) c o ↔
      ∃ o', g.ReferenceRel sk body c o' ∧ o = o'.ofRule name ⟨arity, body⟩ := by
  constructor
  · intro h
    cases h.layer with
    | undefined hnone => cases hrule.symm.trans hnone
    | ruleSeq hrule' hseq =>
      cases hrule.symm.trans hrule'
      exact absurd hseq (hbody _)
    | rule hrule' _ hrel =>
      cases hrule.symm.trans hrule'
      exact ⟨_, hrel, rfl⟩
  · rintro ⟨o', ho', rfl⟩
    exact g.closed_referenceRel _ _ _ _ (.rule hrule hbody ho')

/-- A rule that is no sequence goes through if its body does, and its tree is made of that tree. -/
theorem through_rule_iff (hrule : g.rule? name = some ⟨arity, body⟩)
    (hbody : ∀ items, body ≠ .seq items) : g.Through sk (.rule name) c t stop ↔
      ∃ u, g.Through sk body c u stop ∧ t = .ofBody name arity u := by
  constructor
  · rintro ⟨h, hwhole⟩
    obtain ⟨⟨found, stop'⟩, hrel, ho⟩ := (referenceRel_rule_iff hrule hbody).1 h
    cases found with
    | none => cases ho
    | some u =>
      cases ho
      have hu : u.hole = none := hwhole
      refine ⟨u, ⟨hrel, hu⟩, ?_⟩
      simp only [ParseTree.ofBody, hu]
  · rintro ⟨u, ⟨hu, hwhole⟩, rfl⟩
    refine ⟨(referenceRel_rule_iff hrule hbody).2 ⟨_, hu, ?_⟩, rfl⟩
    rw [Outcome.ofRule, ParseTree.ofBody, Option.map_some, hwhole]

/-- A rule that is no sequence is refused if its body is. -/
theorem refused_rule_iff (hrule : g.rule? name = some ⟨arity, body⟩)
    (hbody : ∀ items, body ≠ .seq items) :
    g.Refused sk (.rule name) c ↔ g.Refused sk body c := by
  constructor
  · intro h
    obtain ⟨⟨found, stop'⟩, hrel, ho⟩ := (referenceRel_rule_iff hrule hbody).1 h
    cases found with
    | none =>
      cases ho
      exact hrel
    | some u => cases ho
  · exact fun h => (referenceRel_rule_iff hrule hbody).2 ⟨_, h, rfl⟩

/-- A rule that is no sequence fails if its body does. -/
theorem fails_rule_iff (hrule : g.rule? name = some ⟨arity, body⟩)
    (hbody : ∀ items, body ≠ .seq items) : g.Fails sk (.rule name) c ↔ g.Fails sk body c := by
  constructor
  · rintro (h | ⟨t, stop, hole, h, hhole⟩)
    · exact .inl ((refused_rule_iff hrule hbody).1 h)
    · obtain ⟨⟨found, stop'⟩, hrel, ho⟩ := (referenceRel_rule_iff hrule hbody).1 h
      cases found with
      | none => cases ho
      | some u =>
        cases ho
        exact .inr ⟨u, stop', hole, hrel, hhole⟩
  · rintro (h | ⟨t, stop, hole, h, hhole⟩)
    · exact .inl ((refused_rule_iff hrule hbody).2 h)
    · exact .inr ⟨_, stop, hole, (referenceRel_rule_iff hrule hbody).2 ⟨_, h, rfl⟩, hhole⟩

/-- A sequence of which the first item is refused is refused. -/
theorem refused_ruleSeq {item : Matcher κ} (hrule : g.rule? name = some ⟨arity, .seq (item :: items)⟩)
    (hsure : item.isSure = false) (h : g.Refused sk item c) : g.Refused sk (.rule name) c :=
  g.closed_referenceRel _ _ _ _ (.ruleSeq hrule rfl (.refused hsure h))

/-- A sequence of which the second item is refused behind the first one is refused. -/
theorem refused_ruleSeq_second {first second : Matcher κ} {mid : Cursor}
    (hrule : g.rule? name = some ⟨arity, .seq (first :: second :: items)⟩)
    (hfirst : first.isSure = false) (hsecond : second.isSure = false)
    (h : g.Through sk first c t mid) (h' : g.Refused sk second mid) : g.Refused sk (.rule name) c :=
  g.closed_referenceRel _ _ _ _ (.ruleSeq hrule rfl
    (.next (r := .refused) hfirst h.1 h.2 (.refused hsecond h')))

/-! ## Choices -/

/-- A choice ends in a whole tree exactly if an alternative is chosen. -/
theorem choiceRel_whole_iff {o : Outcome κ} (ho : o = ⟨some t, stop⟩) (hwhole : t.hole = none) :
    ChoiceRel (g.ReferenceRel sk) c alternatives o ↔ g.Chosen sk alternatives c t stop := by
  constructor
  · intro h
    induction h with
    | nil => cases ho
    | complete hm hhole =>
      cases ho
      exact .inl ⟨hm, hhole⟩
    | refused hm _ ih => exact .inr ⟨.inl hm, ih ho⟩
    | incomplete hm hhole _ ih =>
      refine .inr ⟨.inr ⟨_, _, _, hm, hhole⟩, ih ?_⟩
      unfold Outcome.orFurther at ho
      split at ho
      · exact ho
      · cases ho
        cases hhole.symm.trans hwhole
  · subst ho
    intro h
    induction alternatives with
    | nil => exact h.elim
    | cons m rest ih =>
      rcases h with hm | ⟨hm | ⟨t', stop', hole, hm, hhole⟩, hrest⟩
      · exact .complete hm.1 hm.2
      · exact .refused hm (ih hrest)
      · have h := ChoiceRel.incomplete hm hhole (ih hrest)
        rwa [Outcome.orFurther_complete (by simp [Outcome.reach, hhole])
          (by simp [Outcome.reach, hwhole])] at h

/-- An alternation goes through with what is chosen, if that has no hole. -/
theorem through_any_iff :
    g.Through sk (.any alternatives) c t stop ↔
      g.Chosen sk alternatives c t stop ∧ t.hole = none := by
  constructor
  · rintro ⟨h, hwhole⟩
    cases h.layer with
    | any hchoice => exact ⟨(choiceRel_whole_iff rfl hwhole).1 hchoice, hwhole⟩
  · rintro ⟨h, hwhole⟩
    exact ⟨g.closed_referenceRel _ _ _ _ (.any ((choiceRel_whole_iff rfl hwhole).2 h)), hwhole⟩

/-- A choice is refused exactly if all its alternatives are. -/
theorem choiceRel_refused_iff {o : Outcome κ} (ho : o = .refused c) :
    ChoiceRel (g.ReferenceRel sk) c alternatives o ↔ ∀ m ∈ alternatives, g.Refused sk m c := by
  constructor
  · intro h
    induction h with
    | nil => exact fun _ hm => absurd hm List.not_mem_nil
    | complete => cases ho
    | refused hm _ ih => exact List.forall_mem_cons.2 ⟨hm, ih ho⟩
    | incomplete _ hhole _ ih =>
      unfold Outcome.orFurther at ho
      split at ho
      · rename_i hless
        rw [ho] at hless
        simp [Outcome.reach, hhole, Outcome.refused] at hless
      · cases ho
  · subst ho
    intro h
    induction alternatives with
    | nil => exact .nil
    | cons m rest ih =>
      exact .refused (h m List.mem_cons_self) (ih fun m' hm' => h m' (List.mem_cons_of_mem _ hm'))

/-- An alternation is refused exactly if all its alternatives are. -/
theorem refused_any_iff :
    g.Refused sk (.any alternatives) c ↔ ∀ m ∈ alternatives, g.Refused sk m c := by
  rw [← choiceRel_refused_iff rfl]
  refine ⟨fun h => ?_, fun h => g.closed_referenceRel _ _ _ _ (.any h)⟩
  cases h.layer with
  | any hchoice => exact hchoice

/-! ## Lists -/

variable {element : Matcher κ} {separator : Option (Matcher κ)} {least : Nat}

/-- A list goes through with as many elements as it takes and no hole in them. -/
theorem through_list_iff : g.Through sk (.list element separator least) c t stop ↔
    ∃ r : ListOutcome κ, ElementsRel (g.ReferenceRel sk) element separator true c r ∧
      r.hole = none ∧ least ≤ r.elements.length ∧ r.stop = stop ∧ t = r.tree c.pos := by
  constructor
  · rintro ⟨h, hwhole⟩
    generalize ho : (⟨some t, stop⟩ : Outcome κ) = o at h
    cases h.layer with
    | list helements =>
      unfold ListOutcome.outcome at ho
      split at ho
      · cases ho
      · rename_i hleast
        cases ho
        have hhole := hwhole
        simp only at hhole
        refine ⟨_, helements, hhole, ?_, rfl, ?_⟩
        · simpa [hhole] using hleast
        · rw [ListOutcome.tree, hhole]
  · rintro ⟨r, helements, hhole, hleast, rfl, rfl⟩
    refine ⟨?_, rfl⟩
    have h : g.ReferenceRel sk (.list element separator least) c (r.outcome least c) :=
      g.closed_referenceRel _ _ _ _ (.list helements)
    rwa [ListOutcome.outcome, hhole, if_neg (by simpa using hleast)] at h

/-- A list is empty, or it goes on behind its first element. -/
theorem elements_cases (hmoves : ∀ {t stop}, g.Through sk element c t stop → c.pos < stop.pos)
    {r : ListOutcome κ} (h : ElementsRel (g.ReferenceRel sk) element separator true c r)
    (hwhole : r.hole = none) :
    r = { stop := c } ∨ ∃ t stop r', g.Through sk element c t stop ∧ r = .element t r' ∧
      r'.hole = none ∧ ElementsRel (g.ReferenceRel sk) element separator false stop r' := by
  cases h with
  | ended => exact .inl rfl
  | last hsep ht hlast =>
    cases hsep with
    | absent =>
      have hhole := hwhole
      simp only [ListOutcome.separator, ListOutcome.element] at hhole
      simp only [hhole, Option.isSome_none, Bool.false_or, beq_iff_eq] at hlast
      exact absurd hlast (Nat.ne_of_gt (hmoves ⟨ht, hhole⟩))
  | more hsep ht hmore hrest =>
    cases hsep with
    | absent =>
      rw [Bool.or_eq_false_iff, Option.isSome_eq_false_iff, Option.isNone_iff_eq_none] at hmore
      exact .inr ⟨_, _, _, ⟨ht, hmore.1⟩, rfl, hwhole, hrest⟩

/-- A list without separators is empty where no element follows. -/
theorem elements_eq_nil (hrefused : g.Refused sk element c) {r : ListOutcome κ}
    (h : ElementsRel (g.ReferenceRel sk) element none false c r) : r = { stop := c } := by
  cases h with
  | unseparated hm => cases hm
  | stuck hm => cases hm
  | ended => rfl
  | last hsep ht =>
    cases hsep
    cases hrefused.unique ht
  | more hsep ht =>
    cases hsep
    cases hrefused.unique ht

end Grammar

end Constructs

end ExpLang
