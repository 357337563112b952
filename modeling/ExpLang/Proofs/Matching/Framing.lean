import ExpLang.Proofs.Matching.Reading
import ExpLang.Proofs.Matching.Run

/-!
# A match that does not apply leaves no trace

Whatever a run answers, it goes back to the skippers it started with, it touches none of the nodes
that were there before, parent links included, and the cursor has only moved over text in front of
it. A run that answers with nothing leaves the cursor and the nodes as they were. All of this holds
also of a run that spends its budget.

A choice goes back to its cursor after an alternative with a hole and may end there or at the stop
of an earlier alternative, so that the cursor is followed per outcome: the relation below is closed.
-/

namespace ExpLang

open Cursor (Advances)

variable {κ : Type} {c : Cursor}

/-- What a matcher reads is text in front of the cursor. -/
def AdvancingRel (_ : Skipper) : MatchRel κ := fun _ c o => c.Advances o.stop

/-- The items of a sequence. -/
theorem advances_items {describe : Matcher κ → String} {sk : Skipper} {committed : Bool}
    {items : List (Matcher κ)} {r : SeqOutcome κ}
    (h : ItemsRel describe sk (AdvancingRel sk) committed items c r) (kind : NodeKind κ)
    (start : Cursor) (hc : start.Advances c) : start.Advances (r.outcome kind start).stop := by
  induction h with
  | done => exact hc
  | cut _ _ ih => exact ih hc
  | refused => exact .refl start
  | stuck => exact hc
  | inside _ hitem _ => exact hc.trans hitem
  | @next _ _ _ _ t stop r _ hitem _ _ ih =>
    have hrest := ih (hc.trans hitem)
    cases r with
    | refused => exact hrest
    | ended => exact hrest

/-- The chosen alternative. -/
theorem advances_choice {sk : Skipper} {alternatives : List (Matcher κ)} {o : Outcome κ}
    (h : ChoiceRel (AdvancingRel sk) c alternatives o) : c.Advances o.stop := by
  rcases h.chosen with rfl | ⟨m, -, hm⟩
  · exact .refl c
  · exact hm

/-- The separator before an element. -/
theorem SeparatorRel.advances_here {sk : Skipper} {separator : Option (Matcher κ)} {first : Bool}
    {before : Option (ParseTree κ)} {here : Cursor}
    (h : SeparatorRel (AdvancingRel sk) separator first c before here) : c.Advances here := by
  cases h with
  | absent => exact .refl c
  | present hm _ => exact hm

/-- The elements of a list. -/
theorem advances_elements {sk : Skipper} {element : Matcher κ} {separator : Option (Matcher κ)}
    {first : Bool} {r : ListOutcome κ}
    (h : ElementsRel (AdvancingRel sk) element separator first c r) : c.Advances r.stop := by
  induction h with
  | unseparated | ended => exact .refl _
  | stuck _ hm _ => exact hm
  | last hsep helement _ => simpa using hsep.advances_here.trans helement
  | more hsep helement _ _ ih => simpa using (hsep.advances_here.trans helement).trans ih

/-- A token after the gap. -/
theorem advances_token {sk : Skipper} {read : Cursor → Option Cursor}
    (hread : ∀ {c c'}, read c = some c' → c.Advances c') :
    c.Advances (Outcome.token sk read c : Outcome κ).stop := by
  unfold Outcome.token
  split
  · exact .refl c
  · rename_i stop hstop
    exact (sk.skip_advances c).trans (hread hstop)

namespace Grammar

variable [DecidableEq κ] [RuleName κ]

/-- Every construct reads on from where its parts stop. -/
theorem closed_advancingRel (g : Grammar κ) : g.Closed AdvancingRel := by
  intro sk m c o h
  cases h with
  | literal => exact advances_token readLiteral_advances
  | literals => exact advances_token readLiterals_advances
  | pattern => exact advances_token TokenReader.readAt_advances
  | seq hitems => exact advances_items hitems _ c (.refl c)
  | any hchoice => exact advances_choice hchoice
  | list helements =>
    rw [AdvancingRel, ListOutcome.outcome]
    split
    · exact .refl c
    · exact advances_elements helements
  | optional hbody =>
    rw [AdvancingRel, Outcome.orMissing]
    split
    · exact .refl c
    · exact hbody
  | undefined | unset => exact .refl c
  | ruleSeq _ _ hitems => exact advances_items hitems _ c (.refl c)
  | rule _ _ hrel => exact hrel
  | ref _ htarget => exact htarget
  | sure => exact .refl c
  | skip hbody => exact hbody

end Grammar

end ExpLang
