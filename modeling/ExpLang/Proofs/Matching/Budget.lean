import ExpLang.Grammar.Parse
import ExpLang.Proofs.Matching.Refinement

/-!
# The budget decides only whether a match is carried through

A run that ends with steps left does the same, step for step, under every larger budget: it makes the
same nodes, stops at the same cursor and takes as many steps. A spent budget shows as a refusal deep
inside of a match, which an optional part or a list turns into a success, so the two runs are related
through every construct and only where the smaller budget is not spent at the end. Steps are never
given back, hence it was then spent nowhere on the way.

The depth to which matchers are entered and the number of elements of a list are bounded by the steps
that are left, so that the two runs have different bounds and meet neither.
-/

namespace ExpLang

variable {κ : Type}

namespace MatchState

variable {s s' : MatchState κ} {budget bound bound' : Nat}

/-- The same state under another budget. -/
def withBudget (s : MatchState κ) (budget : Nat) : MatchState κ := { s with budget := budget }

/-- A state has few steps left, also under a budget that is not smaller. -/
structure Within (s : MatchState κ) (budget bound bound' : Nat) : Prop where
  budget_le : s.budget ≤ budget
  stepsLeft_le : s.stepsLeft ≤ bound
  stepsLeft_le' : (s.withBudget budget).stepsLeft ≤ bound'

/-- A later state has few steps left under both budgets. -/
theorem Within.later (h : s.Within budget bound bound') (hs : s.Framed s') :
    s'.Within budget bound bound' where
  budget_le := hs.budget.trans_le h.budget_le
  stepsLeft_le := hs.stepsLeft.trans h.stepsLeft_le
  stepsLeft_le' := (Nat.sub_le_sub_left hs.steps _).trans h.stepsLeft_le'

/-- With steps left at the end there were steps left before. -/
theorem Framed.unspent (h : s.Framed s') (hleft : s'.exhausted = false) : s.exhausted = false := by
  by_contra hspent
  rw [h.exhausted (by simpa using hspent)] at hleft
  cases hleft

/-- Where steps are left at the end and one was taken, it is taken under another budget too. -/
theorem Framed.stepsLeft_lt (h : s.Framed s') (hstep : s'.stepsLeft ≤ s.stepsLeft - 1)
    (hleft : s'.exhausted = false) (hbudget : s.budget ≤ budget) :
    s'.stepsLeft < s.stepsLeft ∧
      (s'.withBudget budget).stepsLeft < (s.withBudget budget).stepsLeft := by
  have hsame := h.budget
  simp only [MatchState.exhausted, decide_eq_false_iff_not] at hleft
  simp only [MatchState.stepsLeft, withBudget] at hstep ⊢
  omega

/-- A budget that is not smaller is not spent either. -/
theorem exhausted_withBudget (hleft : s.exhausted = false) (hbudget : s.budget ≤ budget) :
    (s.withBudget budget).exhausted = false := by
  rw [exhausted, decide_eq_false_iff_not, not_lt] at hleft ⊢
  exact hleft.trans hbudget

/-- A step under a budget that is not smaller. -/
theorem step_withBudget (hleft : s.exhausted = false) (hbudget : s.budget ≤ budget) :
    (s.withBudget budget).step = s.step.withBudget budget := by
  rw [step, step, hleft, exhausted_withBudget hleft hbudget]
  rfl

/-- Where the smaller budget is not spent, steps are left under both. -/
theorem stepsLeft_pos (hleft : s.exhausted = false) (hbudget : s.budget ≤ budget) :
    0 < s.stepsLeft ∧ 0 < (s.withBudget budget).stepsLeft := by
  simp only [exhausted, decide_eq_false_iff_not] at hleft
  simp only [stepsLeft, withBudget]
  omega

end MatchState

open MatchState

/-- A runner under another budget does what a runner does wherever that one has steps left at the
end. -/
def Repeats (budget bound bound' : Nat) (run run' : Runner κ) : Prop :=
  ∀ ⦃m⦄ ⦃s s' : MatchState κ⦄ ⦃found⦄, s.Within budget bound bound' → run m s = (s', found) →
    s'.exhausted = false → run' m (s.withBudget budget) = (s'.withBudget budget, found)

section Constructs

variable {P : Skipper → MatchRel κ} {budget bound bound' : Nat} {run run' : Runner κ}
  {s s' : MatchState κ}

/-- The items of a sequence. -/
theorem runItems_repeats (hrun : Simulates P bound run)
    (hsame : Repeats budget bound bound' run run') (describe : Matcher κ → String)
    (items : List (Matcher κ)) (committed : Bool) (s : MatchState κ)
    (hs : s.Within budget bound bound') {parts : List (Match κ × Bool)} {ending : SeqEnd}
    (heq : runItems describe run committed items s = (s', parts, ending))
    (hleft : s'.exhausted = false) :
    runItems describe run' committed items (s.withBudget budget) =
      (s'.withBudget budget, parts, ending) := by
  induction items generalizing committed s parts ending with
  | nil =>
    cases heq
    rfl
  | cons item items ih =>
    rw [runItems] at heq ⊢
    by_cases hsure : item.isSure = true
    · rw [if_pos hsure] at heq ⊢
      exact ih true s hs heq
    · rw [if_neg hsure] at heq ⊢
      rcases hrun.cases item hs.stepsLeft_le with
        ⟨s₁, heq₁, -⟩ | ⟨s₁, part, t, heq₁, hframed, -⟩
      · simp only [heq₁] at heq
        cases heq
        simp only [hsame hs heq₁ hleft]
        rfl
      · cases hcomplete : part.node.isComplete with
        | false =>
          simp only [heq₁, hcomplete, Bool.false_eq_true, if_false] at heq
          cases heq
          simp only [hsame hs heq₁ hleft, hcomplete, Bool.false_eq_true, if_false]
        | true =>
          have hs₁ := hs.later hframed
          obtain ⟨s₂, rest, ending₂, -, heq₂, hframed₂, -⟩ :=
            runItems_answers hrun describe items committed s₁ hs₁.stepsLeft_le
          simp only [heq₁, hcomplete, if_true, heq₂] at heq
          cases heq
          have hrest := ih committed s₁ hs₁ heq₂
          simp only [hsame hs heq₁ (hframed₂.unspent hleft), hcomplete, if_true, hrest]

/-- Sequences. -/
theorem matchSeq_repeats (hrun : Simulates P bound run)
    (hsame : Repeats budget bound bound' run run') (describe : Matcher κ → String)
    (items : List (Matcher κ)) (kind : NodeKind κ) (hs : s.Within budget bound bound')
    {found : Option (Match κ)} (heq : matchSeq describe run items kind s = (s', found))
    (hleft : s'.exhausted = false) :
    matchSeq describe run' items kind (s.withBudget budget) = (s'.withBudget budget, found) := by
  rcases heq₁ : runItems describe run false items s with ⟨s₁, parts, ending⟩
  rw [matchSeq] at heq ⊢
  simp only [heq₁] at heq
  have hspent : s₁.exhausted = false := by
    cases ending <;> cases heq <;> exact hleft
  simp only [runItems_repeats hrun hsame describe items false s hs heq₁ hspent]
  cases ending <;> cases heq <;> rfl

/-- The alternatives that are left of a choice. -/
theorem matchAny_repeats (hrun : Simulates P bound run)
    (hsame : Repeats budget bound bound' run run') (start : Cursor)
    (alternatives : List (Matcher κ)) (best : Option (Match κ × Cursor)) (s : MatchState κ)
    (hs : s.Within budget bound bound') {found : Option (Match κ)}
    (heq : matchAny run start alternatives best s = (s', found)) (hleft : s'.exhausted = false) :
    s.exhausted = false ∧ matchAny run' start alternatives best (s.withBudget budget) =
      (s'.withBudget budget, found) := by
  induction alternatives generalizing best s with
  | nil => cases best <;> cases heq <;> exact ⟨hleft, rfl⟩
  | cons m rest ih =>
    rw [matchAny] at heq ⊢
    rcases hrun.cases m hs.stepsLeft_le with
      ⟨s₁, heq₁, hframed, -⟩ | ⟨s₁, part, t, heq₁, hframed, -⟩
    · simp only [heq₁] at heq
      obtain ⟨hspent, hrest⟩ := ih best s₁ (hs.later hframed) heq
      simp only [hsame hs heq₁ hspent]
      exact ⟨hframed.unspent hspent, hrest⟩
    · cases hcomplete : part.node.isComplete with
      | true =>
        simp only [heq₁, hcomplete, if_true] at heq
        cases heq
        simp only [hsame hs heq₁ hleft, hcomplete, if_true, and_true]
        exact hframed.unspent hleft
      | false =>
        simp only [heq₁, hcomplete, Bool.false_eq_true, if_false] at heq
        obtain ⟨hspent, hrest⟩ := ih _ _ (hs.later (hframed.moveTo start)) heq
        simp only [hsame hs heq₁ hspent, hcomplete, Bool.false_eq_true, if_false]
        exact ⟨hframed.unspent hspent, hrest⟩

/-- The separator before an element. -/
theorem runSeparator_repeats (hsame : Repeats budget bound bound' run run')
    (separator : Option (Matcher κ)) (first : Bool) (hs : s.Within budget bound bound')
    {sep : Option (Option (Match κ))} (heq : runSeparator run separator first s = (s', sep))
    (hleft : s'.exhausted = false) :
    runSeparator run' separator first (s.withBudget budget) = (s'.withBudget budget, sep) := by
  unfold runSeparator at heq ⊢
  split at heq
  · rename_i m
    rcases heq₁ : run m s with ⟨s₁, found⟩
    simp only [heq₁] at heq
    have hspent : s₁.exhausted = false := by
      cases found <;> cases heq <;> exact hleft
    simp only [hsame hs heq₁ hspent]
    cases found <;> cases heq <;> rfl
  · cases heq
    rfl

/-- With steps left after the elements of a list there were steps left before them. -/
theorem runElements_unspent (hrun : Simulates P bound run) {element : Matcher κ}
    {separator : Option (Matcher κ)} {n : Nat} {first : Bool} (hn : s.stepsLeft ≤ n)
    (hs : s.stepsLeft ≤ bound) {items : ListItems κ}
    (heq : runElements run element separator n first s = (s', items))
    (hleft : s'.exhausted = false) : s.exhausted = false := by
  obtain ⟨s₁, items₁, r, heq₁, hframed, -⟩ :=
    runElements_answers hrun element separator n first s hn hs
  rw [heq] at heq₁
  cases heq₁
  exact hframed.unspent hleft

/-- The elements of a list. The bounds on their number are not met, since each takes a step. -/
theorem runElements_repeats (hrun : Simulates P bound run)
    (hsame : Repeats budget bound bound' run run') (element : Matcher κ)
    (separator : Option (Matcher κ)) (n n' : Nat) (first : Bool) (s : MatchState κ)
    (hs : s.Within budget bound bound') (hn : s.Within budget n n') {items : ListItems κ}
    (heq : runElements run element separator n first s = (s', items))
    (hleft : s'.exhausted = false) :
    runElements run' element separator n' first (s.withBudget budget) =
      (s'.withBudget budget, items) := by
  induction n generalizing n' first s items with
  | zero =>
    cases heq
    have hpos := stepsLeft_pos hleft hs.budget_le
    have hzero := hn.stepsLeft_le
    omega
  | succ n ih =>
    have hspent := runElements_unspent hrun hn.stepsLeft_le hs.stepsLeft_le heq hleft
    obtain ⟨n', rfl⟩ : ∃ k, n' = k + 1 := by
      have hpos := (stepsLeft_pos hspent hs.budget_le).2.trans_le hn.stepsLeft_le'
      exact ⟨n' - 1, (Nat.succ_pred_eq_of_pos hpos).symm⟩
    rw [runElements] at heq ⊢
    rcases runSeparator_cases hrun separator first hs.stepsLeft_le with
      ⟨s₁, m, heq₁, -⟩ |
      ⟨s₁, part, t, hole, m, heq₁, hframed, hground, hhole, -⟩ |
      ⟨s₁, sep, before, heq₁, hframed, hwhole, -⟩
    · simp only [heq₁] at heq
      cases heq
      simp only [runSeparator_repeats hsame separator first hs heq₁ hleft]
    · have hcomplete := hground.isComplete hframed
      rw [hhole, Option.isNone_some] at hcomplete
      simp only [heq₁, Option.any_some, hcomplete, Bool.not_false, if_true] at heq
      cases heq
      simp only [runSeparator_repeats hsame separator first hs heq₁ hleft, Option.any_some,
        hcomplete, Bool.not_false, if_true]
    · have hs₁ := hs.later hframed
      have hsep (hspent : s₁.exhausted = false) :=
        runSeparator_repeats hsame separator first hs heq₁ hspent
      simp only [heq₁, hwhole, Bool.false_eq_true, if_false] at heq
      rcases hrun.cases element hs₁.stepsLeft_le with
        ⟨s₂, heq₂, hframed₂, -⟩ | ⟨s₂, part, t, heq₂, hframed₂, hstep, -⟩
      · simp only [heq₂] at heq
        cases heq
        simp only [hsep (hframed₂.unspent hleft), hwhole, Bool.false_eq_true, if_false,
          hsame hs₁ heq₂ hleft]
        rfl
      · simp only [heq₂] at heq
        by_cases hbroken : (!part.node.isComplete) = true
        · rw [if_pos hbroken] at heq
          cases heq
          simp only [hsep (hframed₂.unspent hleft), hwhole, Bool.false_eq_true, if_false,
            hsame hs₁ heq₂ hleft, hbroken, if_true]
        rw [if_neg hbroken] at heq
        by_cases hmoved : (s₂.cursor.pos == s.cursor.pos) = true
        · rw [if_pos hmoved] at heq
          cases heq
          simp only [hsep (hframed₂.unspent hleft), hwhole, Bool.false_eq_true, if_false,
            hsame hs₁ heq₂ hleft, hbroken]
          exact if_pos hmoved
        · rw [if_neg hmoved] at heq
          rcases heq₃ : runElements run element separator n false s₂ with ⟨s₃, rest⟩
          simp only [heq₃] at heq
          cases heq
          have hs₂ := hs₁.later hframed₂
          have hleft₂ : s₂.stepsLeft ≤ n := by
            have hbound := hn.stepsLeft_le
            have hbefore := hframed.stepsLeft
            omega
          have hspent₂ := runElements_unspent hrun hleft₂ hs₂.stepsLeft_le heq₃ hleft
          have hn₂ : s₂.Within budget n n' := by
            have hbound := (hn.later hframed).stepsLeft_le'
            have hless := (hframed₂.stepsLeft_lt hstep hspent₂ hs₁.budget_le).2
            exact ⟨hs₂.budget_le, hleft₂, by omega⟩
          simp only [hsep (hframed₂.unspent hspent₂), hwhole, Bool.false_eq_true, if_false,
            hsame hs₁ heq₂ hspent₂, hbroken, ih n' false s₂ hs₂ hn₂ heq₃]
          exact if_neg hmoved

/-- Lists. -/
theorem matchList_repeats (hrun : Simulates P bound run)
    (hsame : Repeats budget bound bound' run run') (element : Matcher κ)
    (separator : Option (Matcher κ)) (least : Nat) (hs : s.Within budget bound bound')
    {found : Option (Match κ)} (heq : matchList run element separator least s = (s', found))
    (hleft : s'.exhausted = false) :
    matchList run' element separator least (s.withBudget budget) =
      (s'.withBudget budget, found) := by
  rcases heq₁ : runElements run element separator s.stepsLeft true s with ⟨s₁, items⟩
  rw [matchList] at heq ⊢
  simp only [heq₁] at heq
  have hspent : s₁.exhausted = false := by
    split at heq <;> cases heq <;> exact hleft
  simp only [runElements_repeats hrun hsame element separator s.stepsLeft _ true s hs
    ⟨hs.budget_le, le_rfl, le_rfl⟩ heq₁ hspent]
  split at heq
  · rename_i hshort
    cases heq
    rw [if_pos hshort]
    rfl
  · rename_i hshort
    cases heq
    rw [if_neg hshort]
    rfl

/-- Tokens. -/
theorem makeToken_repeats (read : Cursor → Option Cursor) {found : Option (Match κ)}
    (heq : s.makeToken read = (s', found)) (budget : Nat) :
    (s.withBudget budget).makeToken read = (s'.withBudget budget, found) := by
  have hstart : (s.withBudget budget).tokenStart = s.tokenStart := rfl
  rw [makeToken] at heq ⊢
  rw [hstart]
  cases hread : read s.tokenStart <;> rw [hread] at heq <;> cases heq <;> rfl

/-- Rules. -/
theorem matchRule_repeats (hrun : Simulates P bound run)
    (hsame : Repeats budget bound bound' run run') (describe : Matcher κ → String) (name : κ)
    (rule : Rule κ) (hs : s.Within budget bound bound') {found : Option (Match κ)}
    (heq : matchRule describe run name rule s = (s', found)) (hleft : s'.exhausted = false) :
    matchRule describe run' name rule (s.withBudget budget) = (s'.withBudget budget, found) := by
  unfold matchRule at heq ⊢
  split at heq
  · exact matchSeq_repeats hrun hsame describe _ _ hs heq hleft
  · rcases heq₁ : run rule.body s with ⟨s₁, _ | part⟩
    · simp only [heq₁] at heq
      cases heq
      simp only [hsame hs heq₁ hleft]
    · simp only [heq₁] at heq
      cases heq
      simp only [hsame hs heq₁ hleft]
      rfl

/-- Matching by one construct. -/
theorem dispatch_repeats [DecidableEq κ] [RuleName κ] {g : Grammar κ} (hrun : Simulates P bound run)
    (hsame : Repeats budget bound bound' run run') (m : Matcher κ)
    (hs : s.Within budget bound bound') {found : Option (Match κ)}
    (heq : g.dispatch run m s = (s', found)) (hleft : s'.exhausted = false) :
    g.dispatch run' m (s.withBudget budget) = (s'.withBudget budget, found) := by
  unfold Grammar.dispatch at heq ⊢
  cases m with
  | literal text => exact makeToken_repeats _ heq budget
  | literals set => exact makeToken_repeats _ heq budget
  | pattern reader what => exact makeToken_repeats _ heq budget
  | seq items => exact matchSeq_repeats hrun hsame g.describe items .group hs heq hleft
  | any alternatives =>
    exact (matchAny_repeats hrun hsame s.cursor alternatives none s hs heq hleft).2
  | list element separator least =>
    exact matchList_repeats hrun hsame element separator least hs heq hleft
  | optional body =>
    rcases heq₁ : run body s with ⟨s₁, _ | part⟩
    · simp only [heq₁] at heq
      cases heq
      simp only [hsame hs heq₁ hleft]
      rfl
    · simp only [heq₁] at heq
      cases heq
      simp only [hsame hs heq₁ hleft]
  | rule name =>
    cases hrule : g.rule? name with
    | none =>
      simp only [hrule] at heq
      cases heq
      simp only [hrule]
    | some rule =>
      simp only [hrule] at heq ⊢
      exact matchRule_repeats hrun hsame g.describe name rule hs heq hleft
  | ref index =>
    cases href : g.refs[index]? with
    | none =>
      simp only [href] at heq
      cases heq
      simp only [href]
    | some target =>
      simp only [href] at heq ⊢
      exact hsame hs heq hleft
  | sure =>
    cases heq
    rfl
  | skip skipper body =>
    rcases heq₁ : run body (s.pushSkipper skipper) with ⟨s₁, found₁⟩
    simp only [heq₁] at heq
    cases heq
    have hs₁ : (s.pushSkipper skipper).Within budget bound bound' := ⟨hs.1, hs.2, hs.3⟩
    have hbody := hsame hs₁ heq₁ hleft
    change run' body ((s.withBudget budget).pushSkipper skipper) = _ at hbody
    simp only [hbody]
    rfl

end Constructs

namespace Grammar

variable [DecidableEq κ] [RuleName κ]

/-- Every run frames its states. -/
theorem simulates_frame (g : Grammar κ) (depth : Nat) :
    Simulates (fun _ _ _ _ => True) depth (g.runWithin depth) :=
  simulates_runWithin (fun _ _ _ _ _ => trivial) depth

/-- Runs of bounded nesting. -/
theorem runWithin_repeats (g : Grammar κ) (budget depth depth' : Nat) :
    Repeats budget depth depth' (g.runWithin depth) (g.runWithin depth') := by
  induction depth generalizing depth' with
  | zero =>
    intro m s s' found hs heq hleft
    cases heq
    have hpos := (stepsLeft_pos hleft hs.budget_le).1.trans_le hs.stepsLeft_le
    exact absurd hpos (lt_irrefl 0)
  | succ depth ih =>
    intro m s s' found hs heq hleft
    rw [runWithin] at heq
    have hstep : s.step.exhausted = false := by
      by_contra hspent
      rw [Bool.not_eq_false] at hspent
      simp only [hspent, if_true] at heq
      cases heq
      rw [hleft] at hspent
      cases hspent
    simp only [hstep, Bool.false_eq_true, if_false] at heq
    have hspent := s.framed_step.unspent hstep
    have hpos := (stepsLeft_pos hspent hs.budget_le).2.trans_le hs.stepsLeft_le'
    obtain ⟨depth', rfl⟩ : ∃ k, depth' = k + 1 := ⟨depth' - 1, (Nat.succ_pred_eq_of_pos hpos).symm⟩
    have hsame := step_withBudget hspent hs.budget_le
    have hless := s.framed_step.stepsLeft_lt s.step_stepsLeft.le hstep hs.budget_le
    have hs₁ : s.step.Within budget depth depth' :=
      ⟨(hs.later s.framed_step).budget_le, Nat.le_of_lt_succ (hless.1.trans_le hs.stepsLeft_le),
        Nat.le_of_lt_succ (hless.2.trans_le hs.stepsLeft_le')⟩
    rw [runWithin]
    simp only [hsame, exhausted_withBudget hstep hs₁.budget_le, Bool.false_eq_true, if_false]
    exact dispatch_repeats (simulates_frame g depth) (ih depth') m hs₁ heq hleft

/-- A run with steps left at the end does the same under every budget that is not smaller. -/
theorem run_withBudget (g : Grammar κ) (m : Matcher κ) {s : MatchState κ} {budget : Nat}
    (hbudget : s.budget ≤ budget) (hleft : (g.run m s).1.exhausted = false) :
    g.run m (s.withBudget budget) = ((g.run m s).1.withBudget budget, (g.run m s).2) :=
  g.runWithin_repeats budget _ _ ⟨hbudget, le_rfl, le_rfl⟩ rfl hleft

/-- A run keeps its budget and takes at most one step more than it has. -/
theorem run_steps_le (g : Grammar κ) (m : Matcher κ) {s : MatchState κ}
    (hs : s.steps ≤ s.budget + 1) :
    (g.run m s).1.budget = s.budget ∧ (g.run m s).1.steps ≤ s.budget + 1 := by
  obtain ⟨-, o, hanswers, -⟩ := simulates_frame g s.stepsLeft m s le_rfl
  exact ⟨hanswers.framed.budget, hanswers.framed.spent.trans (max_le hs le_rfl)⟩

/-- A parse under a spent budget gives nothing but the budget back. -/
theorem parse_of_exhausted (g : Grammar κ) {start : κ} {source : Source} {config : ParseConfig}
    (hspent : (g.run (.rule start) (startState source config)).1.exhausted = true) :
    ∃ pos, g.parse start source config = .error (.budgetExhausted config.budget pos) := by
  have hbudget := (g.run_steps_le (.rule start) (s := startState source config) (Nat.zero_le _)).1
  refine ⟨(g.run (.rule start) (startState source config)).1.cursor.pos, ?_⟩
  rw [parse]
  simp only [hspent, if_true, hbudget]
  rfl

/-- Matching and parsing under a larger budget come to the same, step for step, unless the smaller
one is spent, and the larger one is spent only if the smaller one is. Whatever the budget, at most
one step more is taken than it has, and a parse that spends it answers with that and never with a
tree. -/
theorem budget_transparent (g : Grammar κ) (start : κ) (source : Source) (skipper : Skipper) :
    (∀ budget budget', budget ≤ budget' →
      let r := g.run (.rule start) (startState source ⟨skipper, budget⟩)
      let r' := g.run (.rule start) (startState source ⟨skipper, budget'⟩)
      (r.1.exhausted = false →
        r'.2 = r.2 ∧ r'.1.cursor = r.1.cursor ∧ r'.1.nodes = r.1.nodes ∧ r'.1.steps = r.1.steps ∧
          g.parse start source ⟨skipper, budget'⟩ = g.parse start source ⟨skipper, budget⟩) ∧
      (r'.1.exhausted = true → r.1.exhausted = true)) ∧
    ∀ budget,
      let r := g.run (.rule start) (startState source ⟨skipper, budget⟩)
      r.1.steps ≤ budget + 1 ∧
        (r.1.exhausted = true →
          ∃ pos, g.parse start source ⟨skipper, budget⟩ = .error (.budgetExhausted budget pos)) := by
  have hsteps budget := g.run_steps_le (.rule start) (s := startState source ⟨skipper, budget⟩)
    (Nat.zero_le _)
  refine ⟨fun budget budget' hle => ?_, fun budget => ⟨(hsteps budget).2, g.parse_of_exhausted⟩⟩
  intro r r'
  have hsame (hleft : r.1.exhausted = false) : r' = (r.1.withBudget budget', r.2) :=
    g.run_withBudget (.rule start) (s := startState source ⟨skipper, budget⟩) hle hleft
  have hstill (hleft : r.1.exhausted = false) : (r.1.withBudget budget').exhausted = false :=
    exhausted_withBudget hleft ((hsteps budget).1.trans_le hle)
  refine ⟨fun hleft => ?_, fun hspent => ?_⟩
  · rw [hsame hleft]
    refine ⟨rfl, rfl, rfl, rfl, ?_⟩
    have hrun : g.run (.rule start) (startState source ⟨skipper, budget'⟩) = _ := hsame hleft
    rw [parse, parse, hrun]
    simp only [hstill hleft]
    rw [show (g.run (.rule start) (startState source ⟨skipper, budget⟩)).1.exhausted = false from hleft]
    rfl
  · by_contra hleft
    rw [Bool.not_eq_true] at hleft
    rw [hsame hleft, hstill hleft] at hspent
    cases hspent

end Grammar

/-- Five steps do not carry three arguments through, sixty do, and more than sixty do no more. -/
theorem budget_transparent_arguments :
    let parse := fun budget =>
      argumentGrammar.parse "Args" (.ofText "args" "11 , x,-y") ⟨.blanks, budget⟩
    (∃ pos, parse 5 = .error (.budgetExhausted 5 pos)) ∧ parse 1000 = parse 60 := by
  have htransparent :=
    argumentGrammar.budget_transparent "Args" (.ofText "args" "11 , x,-y") .blanks
  have hspent : (argumentGrammar.run (.rule "Args") (Grammar.startState
      (.ofText "args" "11 , x,-y") ⟨.blanks, 5⟩)).1.exhausted = true := by decide
  have hleft : (argumentGrammar.run (.rule "Args") (Grammar.startState
      (.ofText "args" "11 , x,-y") ⟨.blanks, 60⟩)).1.exhausted = false := by decide
  exact ⟨(htransparent.2 5).2 hspent, ((htransparent.1 60 1000 (by decide)).1 hleft).2.2.2.2⟩

end ExpLang
