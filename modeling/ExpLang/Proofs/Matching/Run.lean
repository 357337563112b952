import ExpLang.Proofs.Matching.Sequence
import ExpLang.Proofs.Matching.Choice
import ExpLang.Proofs.Matching.Elements

/-!
# Runs satisfy every closed relation

Whatever a run answers stands for an outcome, and that outcome satisfies every closed relation:
`Grammar.run_answers`. One construct is taken at a time, and runs are nested no deeper than there
are steps left.
-/

namespace ExpLang

variable {κ : Type}

section Dispatch

variable {P : Skipper → MatchRel κ} {bound : Nat} {run : Runner κ} {s : MatchState κ}

/-- A node with one child has the value that the child gives it. -/
theorem makeRule_answers {s s' : MatchState κ} (h : s.Framed s') {part : Match κ} {t : ParseTree κ}
    (hpart : part.Grounded s.nodes.size s'.nodes t) (name : κ) (rule : Rule κ) :
    s.Answers (s'.make {
        kind := .rule name
        span := part.node.span
        children := [part.id]
        captures := if rule.arity = 0 then [] else [part.capture]
        isComplete := part.node.isComplete
        hole := part.node.hole }) (Outcome.ofRule ⟨some t, s'.cursor⟩ name rule) := by
  obtain ⟨-, hspan, hhole⟩ := hpart.fields
  refine MatchState.make_answers h (fun c hc => ?_) ?_ ?_
  · rw [List.mem_singleton.1 hc]
    exact hpart.base_le
  · exact (h.made _ _ hpart.base_le hpart.node).1
  · by_cases harity : rule.arity = 0
    · simp [Node.tree?, hpart.treeBelow?, hspan, hhole, harity]
    · simp [Node.tree?, hpart.treeBelow?, hpart.capture, hspan, hhole, harity]

/-- Matching by one construct. -/
theorem dispatch_answers [DecidableEq κ] [RuleName κ] {g : Grammar κ} (hP : g.Closed P)
    (hrun : Simulates P bound run) (m : Matcher κ) (hs : s.stepsLeft ≤ bound) :
    ∃ o, s.Answers (g.dispatch run m s) o ∧
      ((g.dispatch run m s).1.Excused (AllowsRefusal P) → P s.activeSkipper m s.cursor o) := by
  have hclosed {m o} := hP s.activeSkipper m s.cursor o
  cases m with
  | literal text => exact ⟨_, s.makeToken_answers _, fun _ => hclosed .literal⟩
  | literals set => exact ⟨_, s.makeToken_answers _, fun _ => hclosed .literals⟩
  | pattern reader what => exact ⟨_, s.makeToken_answers _, fun _ => hclosed .pattern⟩
  | seq items =>
    obtain ⟨r, hanswers, hrel⟩ := matchSeq_answers hrun g.describe items .group hs
    exact ⟨_, hanswers, fun hG => hclosed (.seq (hrel hG))⟩
  | any alternatives =>
    obtain ⟨o, -, hanswers, hrel⟩ :=
      matchAny_answers hrun alternatives (.refl s) rfl (.none rfl) hs
    exact ⟨o, hanswers, fun hG => hclosed (.any (hrel hG))⟩
  | list element separator least =>
    obtain ⟨r, hanswers, hrel⟩ := matchList_answers hrun element separator least hs
    exact ⟨_, hanswers, fun hG => hclosed (.list (hrel hG))⟩
  | optional body =>
    rw [Grammar.dispatch]
    rcases hrun.cases body hs with
      ⟨s₁, heq, hframed, -, -, hcursor, hbody⟩ | ⟨s₁, part, t, heq, hframed, -, hground, hbody⟩
    · simp only [heq]
      refine ⟨_, MatchState.makeEmpty_answers hframed, fun hG => ?_⟩
      rw [hcursor]
      exact hclosed (.optional (hbody hG))
    · simp only [heq]
      exact ⟨_, MatchState.answers_found hframed hground, fun hG => hclosed (.optional (hbody hG))⟩
  | rule name =>
    rw [Grammar.dispatch]
    cases hrule : g.rule? name with
    | none => exact ⟨_, MatchState.answers_refused (.refl s) rfl rfl, fun _ => hclosed (.undefined hrule)⟩
    | some rule =>
      simp only [matchRule]
      split
      · rename_i items hbody
        obtain ⟨r, hanswers, hrel⟩ := matchSeq_answers hrun g.describe items (.rule name) hs
        exact ⟨_, hanswers, fun hG => hclosed (.ruleSeq hrule hbody (hrel hG))⟩
      · rename_i hbody
        rcases hrun.cases rule.body hs with
          ⟨s₁, heq, hframed, -, hnodes, hcursor, hrel⟩ |
          ⟨s₁, part, t, heq, hframed, -, hground, hrel⟩
        · simp only [heq]
          exact ⟨_, MatchState.answers_refused hframed hnodes hcursor,
            fun hG => hclosed (.rule hrule hbody (hrel hG))⟩
        · simp only [heq]
          exact ⟨_, makeRule_answers hframed hground name rule,
            fun hG => hclosed (.rule hrule hbody (hrel hG))⟩
  | ref index =>
    rw [Grammar.dispatch]
    cases href : g.refs[index]? with
    | none => exact ⟨_, MatchState.answers_refused (.refl s) rfl rfl, fun _ => hclosed (.unset href)⟩
    | some target =>
      obtain ⟨-, o, hanswers, hrel⟩ := hrun target s hs
      exact ⟨o, hanswers, fun hG => hclosed (.ref href (hrel hG))⟩
  | sure => exact ⟨_, MatchState.makeEmpty_answers (.refl s), fun _ => hclosed .sure⟩
  | skip skipper body =>
    obtain ⟨-, o, hanswers, hrel⟩ := hrun body (s.pushSkipper skipper) hs
    have hframed := hanswers.framed
    have hpop : s.Framed (run body (s.pushSkipper skipper)).1.popSkipper := by
      refine ⟨hframed.skipper, ?_, hframed.budget, hframed.steps, hframed.spent, hframed.size,
        hframed.nodes, hframed.made⟩
      rw [MatchState.popSkipper, hframed.overrides]
      rfl
    exact ⟨o, ⟨hpop, hanswers.stop, hanswers.refused, hanswers.found⟩,
      fun hG => hclosed (.skip (hrel hG))⟩

end Dispatch

namespace MatchState

variable {s : MatchState κ}

/-- Taking a step frames a state. -/
theorem framed_step (s : MatchState κ) : s.Framed s.step := by
  unfold step
  split
  · exact .refl s
  · rename_i hleft
    refine ⟨rfl, rfl, rfl, Nat.le_succ _, le_max_of_le_right ?_, le_rfl, fun _ _ => rfl,
      (Framed.refl s).made⟩
    simp only [exhausted, decide_eq_true_eq] at hleft
    exact Nat.succ_le_succ (Nat.le_of_not_lt hleft)

/-- Taking a step leaves the nodes. -/
theorem step_nodes (s : MatchState κ) : s.step.nodes = s.nodes := by
  unfold step
  split <;> rfl

/-- Taking a step leaves the cursor. -/
theorem step_cursor (s : MatchState κ) : s.step.cursor = s.cursor := by
  unfold step
  split <;> rfl

/-- A step leaves one step less. -/
theorem step_stepsLeft (s : MatchState κ) : s.step.stepsLeft = s.stepsLeft - 1 := by
  unfold step
  split
  · rename_i h
    simp only [exhausted, decide_eq_true_eq] at h
    simp only [stepsLeft]
    omega
  · simp only [stepsLeft]
    omega

/-- An answer after the step is one before it. -/
theorem Answers.of_step {r : MatchState κ × Option (Match κ)} {o : Outcome κ}
    (h : s.step.Answers r o) : s.Answers r o where
  framed := s.framed_step.trans h.framed
  stop := h.stop
  refused hr := by
    rw [← s.step_nodes, ← s.step_cursor]
    exact h.refused hr
  found := by
    rw [← s.step_nodes]
    exact h.found

end MatchState

namespace Grammar

variable [DecidableEq κ] [RuleName κ] {g : Grammar κ} {P : Skipper → MatchRel κ}

/-- Runs of bounded nesting answer with outcomes of a closed relation. -/
theorem simulates_runWithin (hP : g.Closed P) (depth : Nat) :
    Simulates P depth (g.runWithin depth) := by
  induction depth with
  | zero =>
    intro m s hs
    have hspent : s.exhausted = true := MatchState.exhausted_of_stepsLeft (Nat.le_zero.1 hs)
    refine ⟨?_, _, MatchState.answers_refused (.refl s) rfl rfl, fun hG => hG hspent _ m _⟩
    change s.stepsLeft ≤ s.stepsLeft - 1
    omega
  | succ depth ih =>
    intro m s hs
    rw [runWithin]
    by_cases hspent : s.step.exhausted = true
    · rw [if_pos hspent]
      exact ⟨s.step_stepsLeft.le, _,
        MatchState.answers_refused s.framed_step s.step_nodes s.step_cursor,
        fun hG => hG hspent _ m _⟩
    · rw [if_neg hspent]
      have hstep : s.step.stepsLeft ≤ depth := by
        rw [s.step_stepsLeft]
        omega
      obtain ⟨o, hanswers, hrel⟩ := dispatch_answers hP ih m hstep
      rw [s.framed_step.activeSkipper, s.step_cursor] at hrel
      exact ⟨hanswers.framed.stepsLeft.trans s.step_stepsLeft.le, o, hanswers.of_step, hrel⟩

/-- Every run answers with an outcome of every closed relation, if it ends with steps left or the
relation holds of refusals. -/
theorem run_answers (hP : g.Closed P) (m : Matcher κ) (s : MatchState κ) :
    ∃ o, s.Answers (g.run m s) o ∧
      ((g.run m s).1.Excused (AllowsRefusal P) → P s.activeSkipper m s.cursor o) :=
  (simulates_runWithin hP s.stepsLeft m s le_rfl).2

end Grammar

end ExpLang
