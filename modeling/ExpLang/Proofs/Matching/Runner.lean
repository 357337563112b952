import ExpLang.Proofs.Matching.Answer
import ExpLang.Proofs.Matching.Layer

/-!
# Runners that stay inside a relation

The functions that match sequences, choices and lists take as a parameter how the matchers inside
are run. A runner simulates a relation on outcomes if each of its answers stands for an outcome of
the relation. The budget enters in one place: a run that finds it spent refuses the matcher, so a
relation that does not hold of refusals in general is asked only of runs that end with steps left.
-/

namespace ExpLang

variable {κ : Type}

/-- A relation holds of every refusal. -/
def AllowsRefusal (P : Skipper → MatchRel κ) : Prop := ∀ sk m c, P sk m c (.refused c)

/-- A way to run matchers answers with outcomes of a relation in states with few steps left, and
takes a step each time. -/
def Simulates (P : Skipper → MatchRel κ) (bound : Nat) (run : Runner κ) : Prop :=
  ∀ m (s : MatchState κ), s.stepsLeft ≤ bound →
    (run m s).1.stepsLeft ≤ s.stepsLeft - 1 ∧ ∃ o, s.Answers (run m s) o ∧
      ((run m s).1.Excused (AllowsRefusal P) → P s.activeSkipper m s.cursor o)

variable {P : Skipper → MatchRel κ} {bound : Nat} {run : Runner κ} {s : MatchState κ}

/-- What a run can answer: nothing, or a node of which the relation holds. -/
theorem Simulates.cases (hrun : Simulates P bound run) (m : Matcher κ) (hs : s.stepsLeft ≤ bound) :
    (∃ s', run m s = (s', none) ∧ s.Framed s' ∧ s'.stepsLeft ≤ s.stepsLeft - 1 ∧
      s'.nodes = s.nodes ∧ s'.cursor = s.cursor ∧
      (s'.Excused (AllowsRefusal P) → P s.activeSkipper m s.cursor (.refused s.cursor))) ∨
    ∃ s' part t, run m s = (s', some part) ∧ s.Framed s' ∧ s'.stepsLeft ≤ s.stepsLeft - 1 ∧
      part.Grounded s.nodes.size s'.nodes t ∧
      (s'.Excused (AllowsRefusal P) → P s.activeSkipper m s.cursor ⟨some t, s'.cursor⟩) := by
  obtain ⟨hsteps, o, hanswers, hP⟩ := hrun m s hs
  rcases hr : run m s with ⟨s', _ | part⟩
  · rw [hr] at hsteps hanswers hP
    obtain ⟨rfl, hnodes, hcursor⟩ := hanswers.eq_refused
    exact .inl ⟨s', rfl, hanswers.framed, hsteps, hnodes, hcursor, hP⟩
  · rw [hr] at hsteps hanswers hP
    obtain ⟨t, rfl, hground⟩ := hanswers.eq_found
    exact .inr ⟨s', part, t, rfl, hanswers.framed, hsteps, hground, hP⟩

end ExpLang
