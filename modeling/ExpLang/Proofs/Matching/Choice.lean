import ExpLang.Proofs.Matching.Runner

/-!
# Matching ordered choices

A choice keeps the best alternative with a hole while it goes on. Its node stays in the arena, and
what later alternatives do leaves its tree as it is. That the best one so far is compared with each
further one comes to the same as comparing from the other end, since `Outcome.orFurther` is
associative.
-/

namespace ExpLang

variable {κ : Type} {P : Skipper → MatchRel κ} {bound : Nat} {run : Runner κ} {s : MatchState κ}

/-- The outcome that the best alternative so far stands for, where `s` is the state in which the
choice started. Without one, the nodes are as they were then. -/
inductive BestAnswer (s s' : MatchState κ) : Option (Match κ × Cursor) → Outcome κ → Prop
  | none : s'.nodes = s.nodes → BestAnswer s s' none (.refused s.cursor)
  | some {part t hole stop} : part.Grounded s.nodes.size s'.nodes t → t.hole = some hole →
      BestAnswer s s' (some (part, stop)) ⟨some t, stop⟩

/-- The better of the best alternative so far and a further one with a hole. -/
theorem BestAnswer.update {s s' s'' : MatchState κ} {best : Option (Match κ × Cursor)}
    {o : Outcome κ} (h : BestAnswer s s' best o) (hframed : s'.Framed s'') {part : Match κ}
    {t : ParseTree κ} {hole : Hole} (hground : part.Grounded s.nodes.size s''.nodes t)
    (hhole : t.hole = Option.some hole) (stop : Cursor) :
    BestAnswer s s'' (if isFurther part best then Option.some (part, stop) else best)
      (o.orFurther ⟨Option.some t, stop⟩) := by
  cases h with
  | none => exact .some hground hhole
  | @some best u hole' stop' hbest hhole' =>
    have hnode : part.node.hole = Option.some hole := by rw [← hground.fields.2.2, hhole]
    have hnode' : best.node.hole = Option.some hole' := by rw [← hbest.fields.2.2, hhole']
    have hfurther : isFurther part (Option.some (best, stop')) =
        decide (Outcome.reach ⟨Option.some u, stop'⟩ < Outcome.reach ⟨Option.some t, stop⟩) := by
      simp [isFurther, Node.holePos, Outcome.reach, hnode, hnode', hhole, hhole']
    rw [hfurther, Outcome.orFurther]
    by_cases hlt : Outcome.reach ⟨Option.some u, stop'⟩ < Outcome.reach ⟨Option.some t, stop⟩
    · simp only [hlt, decide_true, if_true, Bool.or_true]
      exact .some hground hhole
    · simp only [hlt, decide_false, Bool.or_false]
      exact .some (hbest.framed hframed) hhole'

/-- The best alternative so far is not touched by a run that makes no nodes. -/
theorem BestAnswer.keep {s s' s'' : MatchState κ} {best : Option (Match κ × Cursor)}
    {o : Outcome κ} (h : BestAnswer s s' best o) (hframed : s'.Framed s'')
    (hnodes : s''.nodes = s'.nodes) : BestAnswer s s'' best o := by
  cases h with
  | none h => exact .none (hnodes.trans h)
  | some hbest hhole => exact .some (hbest.framed hframed) hhole

/-- Moving the cursor leaves the best answer so far. -/
theorem BestAnswer.moveTo {s s' : MatchState κ} {best : Option (Match κ × Cursor)} {o : Outcome κ}
    (h : BestAnswer s s' best o) (c : Cursor) : BestAnswer s (s'.moveTo c) best o :=
  h.keep ((MatchState.Framed.refl s').moveTo c) rfl

/-- The best alternative so far is not complete. -/
theorem BestAnswer.reach_lt {s s' : MatchState κ} {best : Option (Match κ × Cursor)}
    {o : Outcome κ} (h : BestAnswer s s' best o) : o.reach < ⊤ := by
  cases h with
  | none => simp [Outcome.reach, Outcome.refused]
  | @some part t hole stop hbest hhole =>
    have hreach : Outcome.reach ⟨Option.some t, stop⟩ = ((hole.pos + 1 : ℕ) : ℕ∞) := by
      simp [Outcome.reach, hhole]
    rw [hreach]
    exact ENat.natCast_lt_top _

/-- Running the alternatives that are left of a choice that started in the state `s`. -/
theorem matchAny_answers (hrun : Simulates P bound run) (alternatives : List (Matcher κ))
    {s' : MatchState κ} {best : Option (Match κ × Cursor)} {b : Outcome κ} (hframed : s.Framed s')
    (hcursor : s'.cursor = s.cursor) (hbest : BestAnswer s s' best b) (hs : s'.stepsLeft ≤ bound) :
    ∃ o, s'.Framed (matchAny run s.cursor alternatives best s').1 ∧
      s.Answers (matchAny run s.cursor alternatives best s') (b.orFurther o) ∧
      ((matchAny run s.cursor alternatives best s').1.Excused (AllowsRefusal P) →
        ChoiceRel (P s.activeSkipper) s.cursor alternatives o) := by
  induction alternatives generalizing s' best b with
  | nil =>
    refine ⟨.refused s.cursor, ?_⟩
    cases hbest with
    | none hnodes =>
      exact ⟨.refl s', MatchState.answers_refused hframed hnodes hcursor, fun _ => .nil⟩
    | some hground hhole =>
      rw [Outcome.orFurther_refused rfl]
      exact ⟨(MatchState.Framed.refl s').moveTo _,
        MatchState.answers_found (hframed.moveTo _) hground, fun _ => .nil⟩
  | cons m rest ih =>
    rw [matchAny]
    rcases hrun.cases m hs with
      ⟨s₁, heq, hframed₁, -, hnodes, hcursor₁, hP⟩ | ⟨s₁, part, t, heq, hframed₁, -, hground, hP⟩
    · rw [hcursor, hframed.activeSkipper] at hP
      obtain ⟨o, hlater, hanswers, hrel⟩ := ih (hframed.trans hframed₁) (hcursor₁.trans hcursor)
        (hbest.keep hframed₁ hnodes) (hframed₁.stepsLeft.trans hs)
      simp only [heq]
      exact ⟨o, hframed₁.trans hlater, hanswers,
        fun hG => .refused (hP (hlater.excused hG)) (hrel hG)⟩
    · rw [hcursor, hframed.activeSkipper] at hP
      have hground' := hground.mono hframed.size
      simp only [heq, hground.isComplete hframed₁]
      cases hhole : t.hole with
      | none =>
        have hcomplete : Outcome.reach ⟨some t, s₁.cursor⟩ = ⊤ := by simp [Outcome.reach, hhole]
        refine ⟨⟨some t, s₁.cursor⟩, hframed₁, ?_, fun hG => .complete (hP hG) hhole⟩
        rw [Outcome.orFurther_complete hbest.reach_lt hcomplete]
        exact MatchState.answers_found (hframed.trans hframed₁) hground'
      | some hole =>
        obtain ⟨o, hlater, hanswers, hrel⟩ := ih ((hframed.trans hframed₁).moveTo s.cursor) rfl
          ((hbest.update hframed₁ hground' hhole s₁.cursor).moveTo s.cursor)
          (hframed₁.stepsLeft.trans hs)
        rw [Outcome.orFurther_assoc] at hanswers
        have hlater' := ((MatchState.Framed.refl s₁).moveTo s.cursor).trans hlater
        exact ⟨_, hframed₁.trans hlater', hanswers,
          fun hG => .incomplete (hP (hlater'.excused hG)) hhole (hrel hG)⟩

end ExpLang
