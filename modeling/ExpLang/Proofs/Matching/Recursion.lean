import ExpLang.Proofs.Matching.Budget

/-!
# The recursion of matching comes to an end

`Grammar.recurse` is matching as a plain recursion: no budget is looked at but the one of the state, and
where the recursion goes on for too long it is cut off without a value. `fuel` bounds how deep matchers
are entered and how many elements a list has, so that a recursion which does not end has no value for
any fuel. Rules may enter themselves without reading anything, placeholders may stand for themselves,
and the elements of a list may be empty. Still there is a value for every grammar and every state, and
it is the one of `Grammar.run`: each time a matcher is entered a step is taken, and once the budget is
spent every matcher refuses at once, which ends sequences, choices and lists alike.
-/

namespace ExpLang

variable {κ : Type}

/-- How to match by recursion: none if the recursion is cut off. -/
abbrev Recursion (κ : Type) := Matcher κ → MatchState κ → Option (MatchState κ × Option (Match κ))

/-- Run the items of a sequence by recursion. -/
def recurseItems (describe : Matcher κ → String) (rec : Recursion κ) (committed : Bool) :
    List (Matcher κ) → MatchState κ → Option (MatchState κ × List (Match κ × Bool) × SeqEnd)
  | [], s => some (s, [], .ended none)
  | item :: items, s =>
    if item.isSure then recurseItems describe rec true items s
    else do
      match ← rec item s with
      | (s', none) =>
        some (s', [], if committed then .ended (some ⟨describe item, s.tokenStart.pos⟩) else .refused)
      | (s', some part) =>
        if part.node.isComplete then do
          let r ← recurseItems describe rec committed items s'
          some (r.1, (part, item.isStored) :: r.2.1, r.2.2)
        else some (s', [(part, item.isStored)], .ended part.node.hole)

/-- Match a sequence by recursion. -/
def recurseSeq (describe : Matcher κ → String) (rec : Recursion κ) (items : List (Matcher κ))
    (kind : NodeKind κ) (s : MatchState κ) : Option (MatchState κ × Option (Match κ)) := do
  match ← recurseItems describe rec false items s with
  | (s', parts, .ended hole) => some (makeSeq kind s.cursor.pos parts hole s')
  | (s', _, .refused) => some (s'.rewind s.cursor s.nodes.size, none)

/-- Match a choice by recursion. -/
def recurseAny (rec : Recursion κ) (start : Cursor) : List (Matcher κ) →
    Option (Match κ × Cursor) → MatchState κ → Option (MatchState κ × Option (Match κ))
  | [], none, s => some (s, none)
  | [], some (best, stop), s => some (s.moveTo stop, some best)
  | m :: rest, best, s => do
    match ← rec m s with
    | (s', none) => recurseAny rec start rest best s'
    | (s', some part) =>
      if part.node.isComplete then some (s', some part)
      else
        recurseAny rec start rest (if isFurther part best then some (part, s'.cursor) else best)
          (s'.moveTo start)

/-- Run the separator before an element by recursion. -/
def recurseSeparator (rec : Recursion κ) (separator : Option (Matcher κ)) (first : Bool)
    (s : MatchState κ) : Option (MatchState κ × Option (Option (Match κ))) :=
  match separator, first with
  | some m, false => do
    match ← rec m s with
    | (s', none) => some (s', none)
    | (s', some sep) => some (s', some (some sep))
  | _, _ => some (s, some none)

/-- Run the elements of a list by recursion. -/
def recurseElements (rec : Recursion κ) (element : Matcher κ) (separator : Option (Matcher κ)) :
    Nat → Bool → MatchState κ → Option (MatchState κ × ListItems κ)
  | 0, _, _ => none
  | fuel + 1, first, s => do
    match ← recurseSeparator rec separator first s with
    | (s', none) => some (s', {})
    | (s', some sep) =>
      if sep.any (!·.node.isComplete) then
        some (s', ListItems.separator sep { hole := sep.bind (·.node.hole) })
      else do
        match ← rec element s' with
        | (s'', none) => some (s''.rewind s.cursor s.nodes.size, {})
        | (s'', some part) =>
          if !part.node.isComplete then
            some (s'', ListItems.separator sep (ListItems.element part { hole := part.node.hole }))
          else if s''.cursor.pos == s.cursor.pos then
            some (s'', ListItems.separator sep (ListItems.element part {}))
          else do
            let r ← recurseElements rec element separator fuel false s''
            some (r.1, ListItems.separator sep (ListItems.element part r.2))

namespace Grammar

variable [DecidableEq κ] [RuleName κ]

/-- Run a matcher by recursion; none if the recursion is cut off. -/
def recurse (g : Grammar κ) : Nat → Recursion κ
  | 0, _, _ => none
  | fuel + 1, m, s =>
    if s.step.exhausted then some (s.step, none)
    else match m with
      | .literal text => some (s.step.makeToken (readLiteral text))
      | .literals set => some (s.step.makeToken (readLiterals set))
      | .pattern reader _ => some (s.step.makeToken reader.readAt)
      | .seq items => recurseSeq g.describe (recurse g fuel) items .group s.step
      | .any alternatives => recurseAny (recurse g fuel) s.step.cursor alternatives none s.step
      | .list element separator least => do
        match ← recurseElements (recurse g fuel) element separator fuel true s.step with
        | (s', items) =>
          if items.hole.isNone && items.elements.length < least then
            some (s'.rewind s.step.cursor s.step.nodes.size, none)
          else
            some (s'.make {
              kind := .list
              span := coverParts items.parts s.step.cursor.pos
              children := items.parts.map (·.id)
              captures := [.list items.elements items.separators]
              isComplete := items.hole.isNone
              hole := items.hole })
      | .optional body => do
        match ← recurse g fuel body s.step with
        | (s', none) => some s'.makeEmpty
        | found => some found
      | .rule name => match g.rule? name with
        | none => some (s.step, none)
        | some rule => match rule.body with
          | .seq items => recurseSeq g.describe (recurse g fuel) items (.rule name) s.step
          | body => do
            match ← recurse g fuel body s.step with
            | (s', none) => some (s', none)
            | (s', some part) =>
              some (s'.make {
                kind := .rule name
                span := part.node.span
                children := [part.id]
                captures := if rule.arity = 0 then [] else [part.capture]
                isComplete := part.node.isComplete
                hole := part.node.hole })
      | .ref index => match g.refs[index]? with
        | some target => recurse g fuel target s.step
        | none => some (s.step, none)
      | .sure => some s.step.makeEmpty
      | .skip skipper body => do
        let r ← recurse g fuel body (s.step.pushSkipper skipper)
        some (r.1.popSkipper, r.2)

/-! ## The recursion follows runs of bounded nesting -/

end Grammar

/-- A recursion gives what a runner gives in states with few steps left, and refuses where no step is
left. -/
structure Follows (bound : Nat) (rec : Recursion κ) (run : Runner κ) : Prop where
  spent : ∀ m (s : MatchState κ), s.stepsLeft = 0 → rec m s = some (s, none)
  eq : ∀ m (s : MatchState κ), s.stepsLeft ≤ bound → rec m s = some (run m s)

section Constructs

variable {describe : Matcher κ → String} {bound : Nat} {rec : Recursion κ} {run : Runner κ}
  {s : MatchState κ}

/-- A recursion looks for a separator as a runner does. -/
theorem recurseSeparator_eq (hfollows : Follows bound rec run) (separator : Option (Matcher κ))
    (first : Bool) (hs : s.stepsLeft ≤ bound) :
    recurseSeparator rec separator first s = some (runSeparator run separator first s) := by
  unfold recurseSeparator runSeparator
  cases separator with
  | none => rfl
  | some m =>
    cases first with
    | true => rfl
    | false =>
      simp only [hfollows.eq m s hs, Option.bind_eq_bind, Option.bind_some]
      rcases run m s with ⟨s₁, _ | sep⟩ <;> rfl

/-- A list in a state without steps ends at once. -/
theorem recurseElements_of_spent (hfollows : Follows bound rec run) (element : Matcher κ)
    (separator : Option (Matcher κ)) (fuel : Nat) (first : Bool) (hs : s.stepsLeft = 0) :
    recurseElements rec element separator (fuel + 1) first s = some (s, {}) := by
  have hrefused (m : Matcher κ) : rec m s = some (s, none) := hfollows.spent m s hs
  have hrewind : s.rewind s.cursor s.nodes.size = s := by
    rw [MatchState.rewind, (MatchState.Framed.refl s).shrink]
  rw [recurseElements, recurseSeparator.eq_def]
  cases separator with
  | none => simp [hrefused, hrewind]
  | some m => cases first <;> simp [hrefused, hrewind]

variable {P : Skipper → MatchRel κ}

/-- A recursion runs the items of a sequence as a runner does. -/
theorem recurseItems_eq (hrun : Simulates P bound run) (hfollows : Follows bound rec run)
    (items : List (Matcher κ)) (committed : Bool) (s : MatchState κ) (hs : s.stepsLeft ≤ bound) :
    recurseItems describe rec committed items s =
      some (runItems describe run committed items s) := by
  induction items generalizing committed s with
  | nil => rfl
  | cons item items ih =>
    rw [recurseItems, runItems]
    split
    · exact ih true s hs
    · rw [hfollows.eq item s hs, Option.bind_eq_bind, Option.bind_some]
      rcases hrun.cases item hs with ⟨s₁, heq, -⟩ | ⟨s₁, part, t, heq, hframed, -⟩
      · simp only [heq]
      · simp only [heq, ih committed s₁ (hframed.stepsLeft.trans hs)]
        split <;> rfl

/-- A recursion runs a sequence as a runner does. -/
theorem recurseSeq_eq [RuleName κ] (hrun : Simulates P bound run) (hfollows : Follows bound rec run)
    (items : List (Matcher κ)) (kind : NodeKind κ) (hs : s.stepsLeft ≤ bound) :
    recurseSeq describe rec items kind s = some (matchSeq describe run items kind s) := by
  rw [recurseSeq, recurseItems_eq hrun hfollows items false s hs, matchSeq]
  obtain ⟨s', parts, ending⟩ := runItems describe run false items s
  cases ending <;> rfl

/-- A recursion runs alternatives as a runner does. -/
theorem recurseAny_eq (hrun : Simulates P bound run) (hfollows : Follows bound rec run)
    (start : Cursor) (alternatives : List (Matcher κ)) (best : Option (Match κ × Cursor))
    (s : MatchState κ) (hs : s.stepsLeft ≤ bound) :
    recurseAny rec start alternatives best s = some (matchAny run start alternatives best s) := by
  induction alternatives generalizing best s with
  | nil => cases best <;> rfl
  | cons m rest ih =>
    rw [recurseAny, matchAny]
    simp only [hfollows.eq m s hs, Option.bind_eq_bind, Option.bind_some]
    rcases hrun.cases m hs with ⟨s₁, heq, hframed, -⟩ | ⟨s₁, part, t, heq, hframed, -⟩
    · simp only [heq]
      exact ih best s₁ (hframed.stepsLeft.trans hs)
    · simp only [heq]
      split
      · rfl
      · exact ih _ _ ((hframed.moveTo start).stepsLeft.trans hs)

/-- The elements of a list. Each takes a step, so that there are no more of them than steps left. -/
theorem recurseElements_eq (hrun : Simulates P bound run) (hfollows : Follows bound rec run)
    (element : Matcher κ) (separator : Option (Matcher κ)) (n : Nat) {fuel : Nat} (hfuel : n < fuel)
    (first : Bool) (s : MatchState κ) (hn : s.stepsLeft ≤ n) (hs : s.stepsLeft ≤ bound) :
    recurseElements rec element separator fuel first s =
      some (runElements run element separator n first s) := by
  obtain ⟨fuel, rfl⟩ : ∃ k, fuel = k + 1 := ⟨fuel - 1, by omega⟩
  induction n generalizing first fuel s with
  | zero => exact recurseElements_of_spent hfollows element separator fuel first (Nat.le_zero.1 hn)
  | succ n ih =>
    obtain ⟨fuel, rfl⟩ : ∃ k, fuel = k + 1 := ⟨fuel - 1, by omega⟩
    rw [recurseElements, runElements, recurseSeparator_eq hfollows separator first hs,
      Option.bind_eq_bind, Option.bind_some]
    rcases runSeparator_cases hrun separator first hs with
      ⟨s₁, m, heq, -⟩ | ⟨s₁, part, t, hole, m, heq, hframed, hground, hhole, -⟩ |
      ⟨s₁, sep, before, heq, hframed, hwhole, -⟩
    · simp only [heq]
    · have hcomplete := hground.isComplete hframed
      rw [hhole, Option.isNone_some] at hcomplete
      simp only [heq, Option.any_some, hcomplete, Bool.not_false, if_true]
    · have hs₁ := hframed.stepsLeft.trans hs
      simp only [heq, hwhole, Bool.false_eq_true, if_false, hfollows.eq element s₁ hs₁,
        Option.bind_eq_bind, Option.bind_some]
      rcases hrun.cases element hs₁ with ⟨s₂, heq₂, -⟩ | ⟨s₂, part, t, heq₂, hframed₂, hstep, -⟩
      · simp only [heq₂]
      · have hleft : s₂.stepsLeft ≤ n := by
          have hbefore := hframed.stepsLeft
          omega
        have hrest := ih false s₂ hleft (hframed₂.stepsLeft.trans hs₁) fuel (by omega)
        simp only [heq₂, hrest, Option.bind_some]
        split
        · rfl
        · split <;> rfl

end Constructs

namespace Grammar

variable [DecidableEq κ] [RuleName κ]

/-- Matching by one construct. -/
theorem recurse_eq_dispatch {g : Grammar κ} {P : Skipper → MatchRel κ} {bound fuel : Nat}
    {run : Runner κ} {s : MatchState κ} (hrun : Simulates P bound run) (hfuel : bound < fuel)
    (hfollows : Follows bound (g.recurse fuel) run) (m : Matcher κ)
    (hstep : s.step.exhausted = false) (hs : s.step.stepsLeft ≤ bound) :
    g.recurse (fuel + 1) m s = some (g.dispatch run m s.step) := by
  rw [recurse.eq_def]
  dsimp only
  rw [if_neg (Bool.eq_false_iff.1 hstep)]
  unfold dispatch
  cases m with
  | literal | literals | pattern | sure => rfl
  | seq items => exact recurseSeq_eq hrun hfollows items .group hs
  | any alternatives => exact recurseAny_eq hrun hfollows _ alternatives none s.step hs
  | list element separator least =>
    simp only [recurseElements_eq hrun hfollows element separator _ (hs.trans_lt hfuel) true s.step
      le_rfl hs, matchList, Option.bind_eq_bind, Option.bind_some]
    split <;> rfl
  | optional body =>
    simp only [hfollows.eq body s.step hs, Option.bind_eq_bind, Option.bind_some]
    rcases run body s.step with ⟨s₁, _ | part⟩ <;> rfl
  | rule name =>
    cases hrule : g.rule? name with
    | none => simp only [hrule]
    | some rule =>
      simp only [hrule, matchRule]
      have hbody := hfollows.eq rule.body s.step hs
      rcases hresult : run rule.body s.step with ⟨s₁, found⟩
      cases hcase : rule.body with
      | seq items => exact recurseSeq_eq hrun hfollows items (.rule name) hs
      | _ =>
        rw [hcase] at hbody hresult
        simp only [hbody, hresult, Option.bind_eq_bind, Option.bind_some]
        cases found <;> rfl
  | ref index =>
    cases href : g.refs[index]? with
    | none => simp only [href]
    | some target =>
      simp only [href]
      exact hfollows.eq target s.step hs
  | skip skipper body =>
    simp only [hfollows.eq body (s.step.pushSkipper skipper) hs, Option.bind_eq_bind,
      Option.bind_some]

/-- A matcher that is entered where no step is left refuses. -/
theorem recurse_of_spent (g : Grammar κ) (fuel : Nat) (m : Matcher κ) {s : MatchState κ}
    (hs : s.stepsLeft = 0) : g.recurse (fuel + 1) m s = some (s, none) := by
  have hspent : s.exhausted = true := MatchState.exhausted_of_stepsLeft hs
  have hstep : s.step = s := if_pos hspent
  rw [recurse.eq_def]
  dsimp only
  rw [hstep, if_pos hspent]

/-- More fuel than the nesting of a run is enough. -/
theorem follows_runWithin (g : Grammar κ) (depth : Nat) {fuel : Nat} (hfuel : depth < fuel) :
    Follows depth (g.recurse fuel) (g.runWithin depth) := by
  obtain ⟨fuel, rfl⟩ : ∃ k, fuel = k + 1 := ⟨fuel - 1, by omega⟩
  refine ⟨fun m s hs => g.recurse_of_spent fuel m hs, ?_⟩
  induction depth generalizing fuel with
  | zero => exact fun m s hs => g.recurse_of_spent fuel m (Nat.le_zero.1 hs)
  | succ depth ih =>
    obtain ⟨fuel, rfl⟩ : ∃ k, fuel = k + 1 := ⟨fuel - 1, by omega⟩
    intro m s hs
    rw [runWithin]
    cases hspent : s.step.exhausted with
    | true =>
      rw [recurse.eq_def]
      dsimp only
      rw [if_pos hspent, if_pos rfl]
    | false =>
      have hstep : s.step.stepsLeft ≤ depth := by
        rw [s.step_stepsLeft]
        omega
      have hfollows : Follows depth (g.recurse (fuel + 1)) (g.runWithin depth) :=
        ⟨fun m s hs => g.recurse_of_spent fuel m hs, ih fuel (by omega)⟩
      exact recurse_eq_dispatch (simulates_frame g depth) (by omega) hfollows m hspent hstep

/-- Whatever the grammar, the text and the budget, the recursion of matching ends: from some fuel on it
is not cut off. It gives what a run gives, and takes at most one step more than the budget has. -/
theorem recursion_ends (g : Grammar κ) (m : Matcher κ) (s : MatchState κ) :
    ∃ r, (∀ fuel > s.stepsLeft, g.recurse fuel m s = some r) ∧ r = g.run m s ∧
      r.1.steps ≤ max s.steps (s.budget + 1) := by
  obtain ⟨-, o, hanswers, -⟩ := simulates_frame g s.stepsLeft m s le_rfl
  exact ⟨g.run m s, fun fuel hfuel => (g.follows_runWithin s.stepsLeft hfuel).eq m s le_rfl, rfl,
    hanswers.framed.spent⟩

end Grammar

end ExpLang
