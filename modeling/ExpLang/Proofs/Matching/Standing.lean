import ExpLang.Proofs.Matching.Framing

/-!
# Where a match stands in the text

What a matcher finds covers text between the cursor it starts at and the cursor it stops at. The parts
of a sequence or a list are found one after the other, so their spans stand in order, missing parts
included, and the span over those that are not missing lies between the same cursors.
-/

namespace ExpLang

open Cursor (Advances Between)

variable {κ : Type} {c mid stop : Cursor}

namespace Cursor

/-- A span between two cursors has the second one behind the first. -/
theorem Between.advances {span : Span} (h : Between c stop span) : c.Advances stop := by
  obtain ⟨first, last, hfirst, hmid, hlast, -⟩ := h
  exact (hfirst.trans hmid).trans hlast

/-- The empty span at a cursor is between it and any later one. -/
theorem Between.point (h : c.Advances stop) : Between c stop (.point c.pos) :=
  ⟨c, c, .refl c, .refl c, h, rfl⟩

/-- Two spans one after the other are covered from the start of the first to the end of the second. -/
theorem Between.merge {s t : Span} (hs : Between c mid s) (ht : Between mid stop t) :
    Between c stop (s.merge t) := by
  obtain ⟨first, last, hfirst, hwide, hlast, rfl⟩ := hs
  obtain ⟨first', last', hfirst', hwide', hlast', rfl⟩ := ht
  have hgap := hlast.trans hfirst'
  have hstart : min first.pos first'.pos = first.pos := min_eq_left (hwide.trans hgap).le
  have hstop : max last.pos last'.pos = last'.pos := max_eq_right (hgap.trans hwide').le
  refine ⟨first, last', hfirst, (hwide.trans hgap).trans hwide', hlast', ?_⟩
  rw [Span.merge, hstart, hstop]

/-- Spans stand between two cursors, each behind the one before it. -/
inductive InOrder : Cursor → List Span → Cursor → Prop
  | nil {c stop : Cursor} : c.Advances stop → InOrder c [] stop
  | cons {c mid stop : Cursor} {span : Span} {rest : List Span} : Between c mid span →
      InOrder mid rest stop → InOrder c (span :: rest) stop

namespace InOrder

variable {spans : List Span}

/-- Spans in order have the second cursor behind the first. -/
theorem advances (h : InOrder c spans stop) : c.Advances stop := by
  induction h with
  | nil h => exact h
  | cons hspan _ ih => exact hspan.advances.trans ih

/-- Spans in order after a cursor are in order after an earlier one. -/
theorem of_advances (hc : c.Advances mid) (h : InOrder mid spans stop) : InOrder c spans stop := by
  cases h with
  | nil h => exact .nil (hc.trans h)
  | cons hspan hrest => exact .cons (hspan.mono hc (.refl _)) hrest

/-- Each of some spans in order is between the two cursors. -/
theorem between (h : InOrder c spans stop) : ∀ s ∈ spans, Between c stop s := by
  induction h with
  | nil => exact fun _ hs => absurd hs List.not_mem_nil
  | cons hspan hrest ih =>
    rw [List.forall_mem_cons]
    exact ⟨hspan.mono (.refl _) hrest.advances, fun s hs => (ih s hs).mono hspan.advances (.refl _)⟩

/-- Each span ends where a later one starts or before. -/
theorem pairwise (h : InOrder c spans stop) : spans.Pairwise (·.stop ≤ ·.start) := by
  induction h with
  | nil => exact .nil
  | cons hspan hrest ih =>
    refine .cons (fun s hs => ?_) ih
    obtain ⟨first, last, -, -, hlast, rfl⟩ := hspan
    obtain ⟨first', last', hfirst', -, -, rfl⟩ := hrest.between s hs
    exact (hlast.trans hfirst').le

/-- Leaving spans out keeps the others in order. -/
theorem filter {α : Type} (f : α → Span) (p : α → Bool) {xs : List α}
    (h : InOrder c (xs.map f) stop) : InOrder c ((xs.filter p).map f) stop := by
  induction xs generalizing c with
  | nil => exact h
  | cons x xs ih =>
    cases h with
    | cons hspan hrest =>
      rw [List.filter_cons]
      split
      · exact .cons hspan (ih hrest)
      · exact (ih hrest).of_advances hspan.advances

/-- Merging spans in order gives a span between the two cursors. -/
theorem foldl_merge {s : Span} (hs : Between c mid s) (h : InOrder mid spans stop) :
    Between c stop (spans.foldl Span.merge s) := by
  induction h generalizing s with
  | nil h => exact hs.mono (.refl _) h
  | cons hspan _ ih => exact ih (hs.merge hspan)

/-- The span over some of the parts, or the empty span in front of them. -/
theorem between_cover {α : Type} (f : α → Span) (p : α → Bool) {xs : List α}
    (h : InOrder c (xs.map f) stop) :
    Between c stop ((Span.cover ((xs.filter p).map f)).getD (.point c.pos)) := by
  have hsome := h.filter f p
  generalize (xs.filter p).map f = spans at hsome
  cases hsome with
  | nil h => exact .point h
  | cons hspan hrest => exact hrest.foldl_merge hspan

end InOrder

end Cursor

open Cursor (InOrder)

/-- What a matcher finds stands between the cursor before it and the cursor after it. -/
def StandingRel (_ : Skipper) : MatchRel κ := fun _ c o =>
  c.Advances o.stop ∧ ∀ t, o.found = some t → Between c o.stop t.span

section Constructs

variable {sk : Skipper}

/-- A tree between two cursors stands. -/
theorem standingRel_found {m : Matcher κ} {t : ParseTree κ} (h : Between c stop t.span) :
    StandingRel sk m c ⟨some t, stop⟩ :=
  ⟨h.advances, fun _ ht => by cases ht; exact h⟩

/-- A refusal stands. -/
theorem standingRel_refused (m : Matcher κ) (c : Cursor) : StandingRel sk m c (.refused c) :=
  ⟨.refl c, fun _ ht => by cases ht⟩

/-- A token after the gap. -/
theorem standingRel_token {m : Matcher κ} {read : Cursor → Option Cursor}
    (hread : ∀ {c c'}, read c = some c' → c.Advances c') :
    StandingRel sk m c (.token sk read c) := by
  unfold Outcome.token
  split
  · exact standingRel_refused m c
  · rename_i stop hstop
    exact standingRel_found ⟨_, _, sk.skip_advances c, hread hstop, .refl stop, rfl⟩

/-- The parts of a sequence. -/
theorem inOrder_items {describe : Matcher κ → String} {committed : Bool} {items : List (Matcher κ)}
    {r : SeqOutcome κ} (h : ItemsRel describe sk (StandingRel sk) committed items c r) :
    ∀ parts hole stop, r = .ended parts hole stop → InOrder c (parts.map (·.1.span)) stop := by
  induction h with
  | done | stuck =>
    rintro parts hole stop ⟨⟩
    exact .nil (.refl _)
  | cut _ _ ih => exact ih
  | refused => nofun
  | inside _ hitem _ =>
    rintro parts hole stop ⟨⟩
    exact .cons (hitem.2 _ rfl) (.nil (.refl _))
  | @next _ _ _ _ t mid r _ hitem _ _ ih =>
    intro parts hole stop h
    cases r with
    | refused => cases h
    | ended rest hole' stop' =>
      cases h
      exact .cons (hitem.2 t rfl) (ih rest _ _ rfl)

/-- The node of a sequence. -/
theorem standingRel_outcome {m : Matcher κ} {describe : Matcher κ → String} {committed : Bool}
    {items : List (Matcher κ)} {r : SeqOutcome κ}
    (h : ItemsRel describe sk (StandingRel sk) committed items c r) (kind : NodeKind κ) :
    StandingRel sk m c (r.outcome kind c) := by
  cases r with
  | refused => exact standingRel_refused m c
  | ended parts hole stop =>
    have hparts := inOrder_items h parts hole stop rfl
    rw [show (parts.map (·.1.span)) = (parts.map (·.1)).map (·.span) by simp] at hparts
    exact standingRel_found (hparts.between_cover _ _)

/-- What a choice gives stands if its alternatives do. -/
theorem standingRel_choice {m : Matcher κ} {alternatives : List (Matcher κ)} {o : Outcome κ}
    (h : ChoiceRel (StandingRel sk) c alternatives o) : StandingRel sk m c o := by
  rcases h.chosen with rfl | ⟨m', -, hm⟩
  · exact standingRel_refused m c
  · exact hm

/-- The separator before an element and what stands behind it. -/
theorem SeparatorRel.inOrder {separator : Option (Matcher κ)} {first : Bool}
    {before : Option (ParseTree κ)} {here : Cursor} {r : ListOutcome κ}
    (h : SeparatorRel (StandingRel sk) separator first c before here)
    (hr : InOrder here (r.parts.map (·.span)) stop) :
    InOrder c ((r.separator before).parts.map (·.span)) stop := by
  cases h with
  | absent => exact hr
  | present hm _ => exact .cons (hm.2 _ rfl) hr

/-- The elements and separators of a list. -/
theorem inOrder_elements {element : Matcher κ} {separator : Option (Matcher κ)} {first : Bool}
    {r : ListOutcome κ} (h : ElementsRel (StandingRel sk) element separator first c r) :
    InOrder c (r.parts.map (·.span)) r.stop := by
  induction h with
  | unseparated | ended => exact .nil (.refl _)
  | stuck _ hm _ => exact .cons (hm.2 _ rfl) (.nil (.refl _))
  | last hsep helement _ =>
    simpa using hsep.inOrder (r := .element _ _) (.cons (helement.2 _ rfl) (.nil (.refl _)))
  | more hsep helement _ _ ih =>
    simpa using hsep.inOrder (r := .element _ _) (.cons (helement.2 _ rfl) ih)

end Constructs

/-- Every construct stands where its parts stand. -/
theorem Grammar.closed_standingRel [DecidableEq κ] [RuleName κ] (g : Grammar κ) :
    g.Closed StandingRel := by
  intro sk m c o h
  cases h with
  | literal => exact standingRel_token readLiteral_advances
  | literals => exact standingRel_token readLiterals_advances
  | pattern => exact standingRel_token TokenReader.readAt_advances
  | seq hitems | ruleSeq _ _ hitems => exact standingRel_outcome hitems _
  | any hchoice => exact standingRel_choice hchoice
  | list helements =>
    rw [ListOutcome.outcome]
    split
    · exact standingRel_refused _ c
    · exact standingRel_found ((inOrder_elements helements).between_cover _ _)
  | @optional body _ o hbody =>
    rw [Outcome.orMissing]
    split
    · exact standingRel_found (.point (.refl c))
    · exact hbody
  | undefined | unset => exact standingRel_refused _ c
  | @rule name rule _ o _ _ hbody =>
    refine ⟨hbody.1, fun t ht => ?_⟩
    obtain ⟨u, hu, rfl⟩ := Option.map_eq_some_iff.1 ht
    exact hbody.2 u hu
  | ref _ hbody | skip hbody => exact hbody
  | sure => exact standingRel_found (.point (.refl c))

end ExpLang
