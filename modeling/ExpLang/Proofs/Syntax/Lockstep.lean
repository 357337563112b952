import ExpLang.Proofs.Syntax.Twins

/-!
# Reading two texts in lockstep

Two texts are read in lockstep when every token that is tried at related places of both is taken at
both or at none, and leaves related places behind. `Passage` states this for single tokens and a
relation `I` between places, which may depend on what is known at a place and on the tokens that were
read before it. It follows for every matcher of the language: where it goes through on the first text
it goes through on the second one with a twin of its tree, where it is refused it is refused, and
where it is committed and fails it does so too (`closed_flowRel`). Nothing is said about where the
holes stand.

The course of a matcher says which tokens can be tried, so only those that a site allows matter.
-/

namespace ExpLang.Syntax

/-- What is related at two cursors: what is known there, and the tokens read before. -/
abbrev PlaceRel := Site → List Span → Cursor → Cursor → Prop

/-- A matcher goes through on both texts. -/
structure Matched (K : Comparison) (I : PlaceRel) (r : Course) (x : List Span) (c c' : Cursor)
    (t t' : ParseTree Kind) (stop stop' : Cursor) : Prop where
  whole : t.hole = none
  whole' : t'.hole = none
  twin : Twin K t t'
  extent : Extent c c' t t' stop stop' r.width
  same : r.width = .token → K.Same t.span t'.span
  after : I r.after (x ++ t.tokens) stop stop'

/-- A matcher does the same on both texts. -/
inductive Alike (K : Comparison) (I : PlaceRel) (r : Course) (x : List Span) (c c' : Cursor) :
    Outcome Kind → Outcome Kind → Prop
  /-- It does not apply. -/
  | refused : I r.refused x c c' → Alike K I r x c c' (.refused c) (.refused c')
  /-- It is committed and fails. -/
  | broken {t t' stop stop'} : r.breaks = true → t.isComplete = false → t'.isComplete = false →
      Alike K I r x c c' ⟨some t, stop⟩ ⟨some t', stop'⟩
  /-- It goes through. -/
  | complete {t t' stop stop'} : Matched K I r x c c' t t' stop stop' →
      Alike K I r x c c' ⟨some t, stop⟩ ⟨some t', stop'⟩

/-- Single tokens are read in lockstep. -/
structure Passage (K : Comparison) (I : PlaceRel) : Prop where
  mono : ∀ {s s' x c c'}, s.Le s' → I s x c c' → I s' x c c'
  read : ∀ {t : Token} {s x c c'}, t.Known → s.allows t = true → I s x c c' →
    let start := Skipper.blanksAndComments.skip c
    let start' := Skipper.blanksAndComments.skip c'
    (t.read start = none ∧ t.read start' = none ∧ I (s.refusing t) x c c') ∨
      ∃ stop stop', t.read start = some stop ∧ t.read start' = some stop' ∧
        c.pos ≤ start.pos ∧ start.pos < stop.pos ∧ c'.pos ≤ start'.pos ∧ start'.pos < stop'.pos ∧
        K.Same ⟨start.pos, stop.pos⟩ ⟨start'.pos, stop'.pos⟩ ∧
        I ⟨t.after, false, false⟩ (x ++ [⟨start.pos, stop.pos⟩]) stop stop'

variable {K : Comparison} {I : PlaceRel} {r : Course} {x : List Span} {c c' : Cursor}

section Inversion

variable {o' : Outcome Kind}

/-- Where one text is refused the other is, at a related place. -/
theorem Alike.of_refused (h : Alike K I r x c c' (.refused c) o') :
    o' = .refused c' ∧ I r.refused x c c' := by
  cases h with
  | refused hI => exact ⟨rfl, hI⟩

/-- Where one text breaks off the other does, in a matcher that can. -/
theorem Alike.of_hole {t : ParseTree Kind} {stop : Cursor} {hole : Hole}
    (h : Alike K I r x c c' ⟨some t, stop⟩ o') (hhole : t.hole = some hole) :
    r.breaks = true ∧ ∃ t' stop' hole', o' = ⟨some t', stop'⟩ ∧ t'.hole = some hole' := by
  cases h with
  | @broken _ t' _ stop' hbreaks _ ht' =>
    rw [ParseTree.isComplete, Option.isNone_eq_false_iff, Option.isSome_iff_exists] at ht'
    obtain ⟨hole', hhole'⟩ := ht'
    exact ⟨hbreaks, t', stop', hole', rfl, hhole'⟩
  | complete hmatched => cases hhole.symm.trans hmatched.whole

/-- Where one text goes through the other does, with a matched tree. -/
theorem Alike.of_whole {t : ParseTree Kind} {stop : Cursor}
    (h : Alike K I r x c c' ⟨some t, stop⟩ o') (hwhole : t.hole = none) :
    ∃ t' stop', o' = ⟨some t', stop'⟩ ∧ Matched K I r x c c' t t' stop stop' := by
  cases h with
  | broken _ ht => simp [ParseTree.isComplete, hwhole] at ht
  | complete hmatched => exact ⟨_, _, rfl, hmatched⟩

end Inversion

/-- What reads something can be said to do so. -/
theorem Matched.weaken {t t' : ParseTree Kind} {stop stop' : Cursor} {r' : Course}
    (hI : Passage K I) (h : Matched K I r x c c' t t' stop stop') (hsolid : r.width.isSolid = true)
    (hwidth : r'.width ≠ .token) (hafter : r.after.Le r'.after) :
    Matched K I r' x c c' t t' stop stop' where
  whole := h.whole
  whole' := h.whole'
  twin := h.twin
  extent := .solid (h.extent.covers hsolid).1 (h.extent.covers hsolid).2
  same hw := absurd hw hwidth
  after := hI.mono hafter h.after

/-- What a matcher does at a cursor it does at every related one. -/
def FlowRel (K : Comparison) (I : PlaceRel) (sk : Skipper) : MatchRel Kind := fun m c o =>
  sk = .blanksAndComments → ∀ s r x c', course ruleCourse s m = some r → I s x c c' →
    ∃ o', language.ReferenceRel sk m c' o' ∧ Alike K I r x c c' o o'

/-! ## Tokens -/

/-- What is no token has the tokens of its parts. -/
theorem tokens_of_ne_token {kind : NodeKind Kind} (hkind : kind ≠ .token) {span : Span}
    {parts : List (ParseTree Kind)} {captures : List (TreeCapture (ParseTree Kind))}
    {hole : Option Hole} :
    (⟨kind, span, parts, captures, hole⟩ : ParseTree Kind).tokens = ParseTree.tokensAll parts := by
  rw [ParseTree.tokens]
  exact fun h => hkind h

/-- A token does the same on both texts. -/
theorem Passage.token (hI : Passage K I) {t : Token} {s : Site} (ht : t.Known)
    (hr : s.read t = some r) (h : I s x c c') :
    Alike K I r x c c' (.token .blanksAndComments t.read c) (.token .blanksAndComments t.read c') := by
  obtain ⟨hallowed, rfl⟩ := Site.read_eq_some hr
  unfold Outcome.token
  rcases hI.read ht hallowed h with ⟨hnone, hnone', hrefused⟩ |
    ⟨stop, stop', hstop, hstop', hle, hlt, hle', hlt', hsame, hafter⟩
  · rw [hnone, hnone']
    exact .refused hrefused
  · rw [hstop, hstop']
    exact .complete {
      whole := rfl
      whole' := rfl
      twin := .mk rfl (fun _ => hlt) (fun _ => ⟨K.shifted_of_same hsame, fun _ => hsame⟩) .nil
      extent := .solid ⟨rfl, hle, hlt, rfl⟩ ⟨rfl, hle', hlt', rfl⟩
      same := fun _ => hsame
      after := hafter }

/-! ## Sequences -/

/-- The parts of two sequences are twins, and the same ones are kept. -/
def TwinPart (K : Comparison) (p p' : ParseTree Kind × Bool) : Prop := Twin K p.1 p'.1 ∧ p.2 = p'.2

/-- Items do the same on both texts. -/
inductive ItemsAlike (K : Comparison) (I : PlaceRel) (r : Course) (led : Bool)
    (items : List (Matcher Kind)) (x : List Span) (c c' : Cursor) :
    SeqOutcome Kind → SeqOutcome Kind → Prop
  /-- An item before the cut does not apply. -/
  | refused : ItemsAlike K I r led items x c c' .refused .refused
  /-- The items cannot go on. -/
  | broken {parts parts' hole hole' stop stop'} : r.breaks = true →
      ItemsAlike K I r led items x c c' (.ended parts (some hole) stop)
        (.ended parts' (some hole') stop')
  /-- The items go through. -/
  | complete {parts parts' stop stop'} : List.Forall₂ (TwinPart K) parts parts' →
      parts.any (·.2) = items.any (·.isStored) →
      Spread K led c c' (parts.map (·.1)) (parts'.map (·.1)) stop stop' →
      I r.after (x ++ ParseTree.tokensAll (parts.map (·.1))) stop stop' →
      ItemsAlike K I r led items x c c' (.ended parts none stop) (.ended parts' none stop')

/-- A committing mark is not stored. -/
theorem not_isStored_of_isSure {m : Matcher Kind} (h : m.isSure = true) : m.isStored = false := by
  cases m <;> first | rfl | cases h

/-- The course of items that start with one that is no cut. -/
theorem courseItems_cons {table : Kind → Site → Option Course} {start s : Site}
    {committed led : Bool} {item : Matcher Kind} {items : List (Matcher Kind)}
    (hsure : item.isSure = false)
    (h : courseItems table start committed led s (item :: items) = some r) :
    ∃ first rest, course table s item = some first ∧
      courseItems table start committed (led || first.width.isSolid) first.after items = some rest ∧
      (first.width = .hollow → led = true) ∧ rest.after = r.after ∧
      r.breaks = (committed || first.breaks || rest.breaks) := by
  rw [courseItems, hsure] at h
  simp only [Bool.false_eq_true, if_false, Option.bind_eq_bind, Option.bind_eq_some_iff] at h
  obtain ⟨first, hfirst, rest, hrest, h⟩ := h
  split at h
  · cases h
  · rename_i hhollow
    cases h
    refine ⟨first, rest, hfirst, hrest, fun hw => ?_, rfl, rfl⟩
    simpa [hw] using hhollow

/-- A sequence is refused where it starts, and reads something if it goes through. -/
theorem courseItems_start {table : Kind → Site → Option Course} {start s : Site}
    {committed led : Bool} {items : List (Matcher Kind)}
    (h : courseItems table start committed led s items = some r) :
    r.refused = start ∧ r.width = .solid := by
  induction items generalizing committed led s r with
  | nil =>
    rw [courseItems] at h
    split at h
    · cases h
      exact ⟨rfl, rfl⟩
    · cases h
  | cons item items ih =>
    cases hsure : item.isSure with
    | true =>
      rw [courseItems, if_pos hsure] at h
      exact ih h
    | false =>
      rw [courseItems, hsure] at h
      simp only [Bool.false_eq_true, if_false, Option.bind_eq_bind, Option.bind_eq_some_iff] at h
      obtain ⟨first, -, rest, hrest, h⟩ := h
      split at h
      · cases h
      · cases h
        exact ih (r := rest) hrest

/-- The items of a sequence do the same on both texts. -/
theorem alike_items {describe : Matcher Kind → String} {committed led : Bool}
    {items : List (Matcher Kind)} {o : SeqOutcome Kind} {start s : Site}
    (h : ItemsRel describe .blanksAndComments (FlowRel K I .blanksAndComments) committed items c o)
    (hr : courseItems ruleCourse start committed led s items = some r) (hc : I s x c c') :
    ∃ o', ItemsRel describe .blanksAndComments (language.ReferenceRel .blanksAndComments) committed
        items c' o' ∧ ItemsAlike K I r led items x c c' o o' := by
  induction h generalizing led s x c' r with
  | done =>
    refine ⟨_, .done, ?_⟩
    rw [courseItems] at hr
    split at hr
    · rename_i hled
      cases hr
      rw [hled]
      exact .complete .nil rfl .nil (by simpa [ParseTree.tokensAll] using hc)
    · cases hr
  | @cut committed item items c o hsure _ ih =>
    rw [courseItems, if_pos hsure] at hr
    obtain ⟨o', hrel, halike⟩ := ih hr hc
    refine ⟨o', .cut hsure hrel, ?_⟩
    have hany : (item :: items).any (·.isStored) = items.any (·.isStored) := by
      rw [List.any_cons, not_isStored_of_isSure hsure, Bool.false_or]
    cases halike with
    | refused => exact .refused
    | broken hbreaks => exact .broken hbreaks
    | complete htwins hstored hspread hafter =>
      exact .complete htwins (hstored.trans hany.symm) hspread hafter
  | refused hsure hitem =>
    obtain ⟨first, rest, hfirst, -⟩ := courseItems_cons hsure hr
    obtain ⟨o', hrel, halike⟩ := hitem rfl s first x c' hfirst hc
    obtain ⟨rfl, -⟩ := halike.of_refused
    exact ⟨_, .refused hsure hrel, .refused⟩
  | stuck hsure hitem =>
    obtain ⟨first, rest, hfirst, -, -, -, hbreaks⟩ := courseItems_cons hsure hr
    obtain ⟨o', hrel, halike⟩ := hitem rfl s first x c' hfirst hc
    obtain ⟨rfl, -⟩ := halike.of_refused
    exact ⟨_, .stuck hsure hrel, .broken (by rw [hbreaks]; rfl)⟩
  | inside hsure hitem hhole =>
    obtain ⟨first, rest, hfirst, -, -, -, hbreaks⟩ := courseItems_cons hsure hr
    obtain ⟨o', hrel, halike⟩ := hitem rfl s first x c' hfirst hc
    obtain ⟨hbroken, t', stop', hole', rfl, hhole'⟩ := halike.of_hole hhole
    exact ⟨_, .inside hsure hrel hhole', .broken (by simp [hbreaks, hbroken])⟩
  | @next committed item items c t stop o hsure hitem hhole _ ih =>
    obtain ⟨first, rest, hfirst, hrest, hhollow, hafter, hbreaks⟩ := courseItems_cons hsure hr
    obtain ⟨o', hrel, halike⟩ := hitem rfl s first x c' hfirst hc
    obtain ⟨t', stop', rfl, hmatched⟩ := halike.of_whole hhole
    obtain ⟨o', hrels, halikes⟩ := ih hrest hmatched.after
    refine ⟨_, .next hsure hrel hmatched.whole' hrels, ?_⟩
    cases halikes with
    | refused => exact .refused
    | broken hbroken => exact .broken (by simp [hbreaks, hbroken])
    | complete htwins hstored hspread hend =>
      refine .complete (.cons ⟨hmatched.twin, rfl⟩ htwins) ?_
        (hspread.cons hmatched.extent hmatched.twin.shifted hhollow) ?_
      · rw [List.any_cons, List.any_cons, hstored]
      · rw [← hafter]
        simpa [ParseTree.tokensAll] using hend

/-- What is kept of twin parts is related. -/
theorem forall₂_capture {parts parts' : List (ParseTree Kind × Bool)}
    (h : List.Forall₂ (TwinPart K) parts parts') :
    List.Forall₂ (TreeCapture.Rel (Twin K)) ((parts.filter (·.2)).map (·.1.capture))
      ((parts'.filter (·.2)).map (·.1.capture)) := by
  induction h with
  | nil => exact .nil
  | @cons p p' parts parts' htwin _ ih =>
    obtain ⟨htwin, hflag⟩ := htwin
    rw [List.filter_cons, List.filter_cons, ← hflag]
    split
    · exact .cons htwin.capture ih
    · exact ih

/-- The tree of a sequence. -/
theorem ItemsAlike.outcome {items : List (Matcher Kind)} {o o' : SeqOutcome Kind}
    {kind : NodeKind Kind} (hkind : kind ≠ .token) (hempty : kind.isEmpty = false)
    (h : ItemsAlike K I r false items x c c' o o') (hstored : items.any (·.isStored) = true)
    (hwidth : r.width = .solid) (hrefused : I r.refused x c c') :
    Alike K I r x c c' (o.outcome kind c) (o'.outcome kind c') := by
  cases h with
  | refused => exact .refused hrefused
  | broken hbreaks => exact .broken hbreaks rfl rfl
  | @complete parts parts' stop stop' htwins hany hspread hafter =>
    have hne : (parts.filter (·.2)).map (·.1.capture) ≠ [] := by
      rw [hstored] at hany
      obtain ⟨p, hp, hflag⟩ := List.any_eq_true.1 hany
      exact List.ne_nil_of_mem (List.mem_map_of_mem (List.mem_filter.2 ⟨hp, hflag⟩))
    obtain ⟨htwin, hcovers, hcovers'⟩ := Opens.twin hspread kind hempty (forall₂_capture htwins) hne
    exact .complete {
      whole := rfl
      whole' := rfl
      twin := htwin
      extent := .solid hcovers hcovers'
      same := fun h => by cases hwidth.symm.trans h
      after := by rw [tokens_of_ne_token hkind]; exact hafter }

/-- A sequence does the same on both texts. -/
theorem alike_seq {describe : Matcher Kind → String}
    {items : List (Matcher Kind)} {o : SeqOutcome Kind} {s : Site} (kind : NodeKind Kind)
    (hkind : kind ≠ .token) (hempty : kind.isEmpty = false)
    (h : ItemsRel describe .blanksAndComments (FlowRel K I .blanksAndComments) false items c o)
    (hr : course ruleCourse s (.seq items) = some r) (hc : I s x c c') :
    ∃ o', ItemsRel describe .blanksAndComments (language.ReferenceRel .blanksAndComments) false
        items c' o' ∧ Alike K I r x c c' (o.outcome kind c) (o'.outcome kind c') := by
  rw [course] at hr
  split at hr
  · rename_i hstored
    obtain ⟨o', hrel, halike⟩ := alike_items h hr hc
    obtain ⟨hrefused, hwidth⟩ := courseItems_start hr
    exact ⟨o', hrel, halike.outcome hkind hempty hstored hwidth (by rw [hrefused]; exact hc)⟩
  · cases hr

/-! ## Choices -/

/-- The course of a choice, from that of its first alternative. -/
theorem courseAny_cons {table : Kind → Site → Option Course} {s : Site} {m : Matcher Kind}
    {rest : List (Matcher Kind)} (h : courseAny table s (m :: rest) = some r) :
    ∃ first, course table s m = some first ∧ first.width.isSolid = true ∧ r.width = .solid ∧
      first.after.Le r.after ∧ (first.breaks = true → r.breaks = true) ∧
      ((rest = [] ∧ r.refused = first.refused) ∨ ∃ later,
        courseAny table (if first.breaks then s else first.refused) rest = some later ∧
        later.after.Le r.after ∧ r.refused = later.refused ∧
        (later.breaks = true → r.breaks = true)) := by
  cases rest with
  | nil =>
    rw [courseAny] at h
    obtain ⟨first, hfirst, h⟩ := Option.bind_eq_some_iff.1 h
    split at h
    · rename_i hsolid
      cases h
      exact ⟨first, hfirst, hsolid, rfl, .refl _, id, .inl ⟨rfl, rfl⟩⟩
    · cases h
  | cons next rest =>
    rw [courseAny.eq_3 table s m (next :: rest) (List.cons_ne_nil next rest)] at h
    simp only [Option.bind_eq_bind, Option.bind_eq_some_iff] at h
    obtain ⟨first, hfirst, later, hlater, after, hafter, h⟩ := h
    split at h
    · rename_i hsolid
      cases h
      obtain ⟨hle, hle'⟩ := Site.le_of_join? hafter
      exact ⟨first, hfirst, hsolid, rfl, hle, fun h => by simp [h],
        .inr ⟨later, hlater, hle', rfl, fun h => by simp [h]⟩⟩
    · cases h

/-- A choice reads something if it goes through. -/
theorem courseAny_solid {table : Kind → Site → Option Course} {s : Site}
    {alternatives : List (Matcher Kind)} (h : courseAny table s alternatives = some r) :
    r.width = .solid := by
  cases alternatives with
  | nil => cases h
  | cons m rest =>
    obtain ⟨first, -, -, hwidth, -⟩ := courseAny_cons h
    exact hwidth

/-- What a choice does if it does what its later alternatives do. -/
theorem Alike.of_later (hI : Passage K I) {o o' : Outcome Kind} {later : Course}
    (h : Alike K I later x c c' o o') (hsolid : later.width = .solid) (hwidth : r.width = .solid)
    (hafter : later.after.Le r.after) (hrefused : r.refused = later.refused)
    (hbreaks : later.breaks = true → r.breaks = true) : Alike K I r x c c' o o' := by
  cases h with
  | refused hc => exact .refused (by rw [hrefused]; exact hc)
  | broken hbroken ht ht' => exact .broken (hbreaks hbroken) ht ht'
  | complete hmatched =>
    exact .complete (hmatched.weaken hI (by rw [hsolid]; rfl) (by rw [hwidth]; nofun) hafter)

/-- A committed failure in front of what later alternatives do. -/
theorem Alike.orFurther {o o' : Outcome Kind} {t t' : ParseTree Kind} {stop stop' : Cursor}
    (h : Alike K I r x c c' o o') (hbreaks : r.breaks = true) (ht : t.isComplete = false)
    (ht' : t'.isComplete = false) :
    Alike K I r x c c' (Outcome.orFurther ⟨some t, stop⟩ o) (Outcome.orFurther ⟨some t', stop'⟩ o') := by
  have hreach {t : ParseTree Kind} (stop : Cursor) (ht : t.isComplete = false) :
      (⟨some t, stop⟩ : Outcome Kind).reach < ⊤ := by
    rw [ParseTree.isComplete, Option.isNone_eq_false_iff, Option.isSome_iff_exists] at ht
    obtain ⟨hole, hhole⟩ := ht
    change t.hole.elim ⊤ _ < ⊤
    rw [hhole]
    exact WithTop.coe_lt_top (hole.pos + 1)
  cases h with
  | refused =>
    rw [Outcome.orFurther_refused rfl, Outcome.orFurther_refused rfl]
    exact .broken hbreaks ht ht'
  | broken _ hu hu' =>
    unfold Outcome.orFurther
    split <;> split <;> exact .broken hbreaks ‹_› ‹_›
  | complete hmatched =>
    have htop {t : ParseTree Kind} (stop : Cursor) (h : t.hole = none) :
        (⟨some t, stop⟩ : Outcome Kind).reach = ⊤ := by
      change t.hole.elim ⊤ _ = ⊤
      rw [h]
      rfl
    rw [Outcome.orFurther_complete (hreach stop ht) (htop _ hmatched.whole),
      Outcome.orFurther_complete (hreach stop' ht') (htop _ hmatched.whole')]
    exact .complete hmatched

/-- Alternatives do the same on both texts. -/
theorem alike_choice (hI : Passage K I) {alternatives : List (Matcher Kind)} {o : Outcome Kind}
    {s : Site} (h : ChoiceRel (FlowRel K I .blanksAndComments) c alternatives o)
    (hr : courseAny ruleCourse s alternatives = some r) (hc : I s x c c') :
    ∃ o', ChoiceRel (language.ReferenceRel .blanksAndComments) c' alternatives o' ∧
      Alike K I r x c c' o o' := by
  induction h generalizing s r with
  | nil => cases hr
  | complete hm hwhole =>
    obtain ⟨first, hfirst, hsolid, hwidth, hafter, -⟩ := courseAny_cons hr
    obtain ⟨o', hrel, halike⟩ := hm rfl s first x c' hfirst hc
    obtain ⟨t', stop', rfl, hmatched⟩ := halike.of_whole hwhole
    exact ⟨_, .complete hrel hmatched.whole',
      .complete (hmatched.weaken hI hsolid (by rw [hwidth]; nofun) hafter)⟩
  | @refused m rest o hm hrest ih =>
    obtain ⟨first, hfirst, -, hwidth, -, -, hlater⟩ := courseAny_cons hr
    obtain ⟨o', hrel, halike⟩ := hm rfl s first x c' hfirst hc
    obtain ⟨rfl, hrefused⟩ := halike.of_refused
    rcases hlater with ⟨rfl, heq⟩ | ⟨later, hlater, hafter, heq, hbreaks⟩
    · cases hrest
      exact ⟨_, .refused hrel .nil, .refused (by rw [heq]; exact hrefused)⟩
    · have hsite : I (if first.breaks then s else first.refused) x c c' := by
        split
        · exact hc
        · exact hrefused
      obtain ⟨o', hrels, halikes⟩ := ih hlater hsite
      exact ⟨o', .refused hrel hrels,
        halikes.of_later hI (courseAny_solid hlater) hwidth hafter heq hbreaks⟩
  | @incomplete m rest t hole stop o hm hhole hrest ih =>
    obtain ⟨first, hfirst, -, hwidth, -, hbreaks, hlater⟩ := courseAny_cons hr
    obtain ⟨o', hrel, halike⟩ := hm rfl s first x c' hfirst hc
    obtain ⟨hbroken, t', stop', hole', rfl, hhole'⟩ := halike.of_hole hhole
    have ht : t.isComplete = false := by rw [ParseTree.isComplete, hhole]; rfl
    have ht' : t'.isComplete = false := by rw [ParseTree.isComplete, hhole']; rfl
    rcases hlater with ⟨rfl, heq⟩ | ⟨later, hlater, hafter, heq, hlaterbreaks⟩
    · cases hrest
      refine ⟨_, .incomplete hrel hhole' .nil, ?_⟩
      rw [Outcome.orFurther_refused rfl, Outcome.orFurther_refused rfl]
      exact .broken (hbreaks hbroken) ht ht'
    · rw [if_pos hbroken] at hlater
      obtain ⟨o', hrels, halikes⟩ := ih hlater hc
      exact ⟨_, .incomplete hrel hhole' hrels,
        (halikes.of_later hI (courseAny_solid hlater) hwidth hafter heq hlaterbreaks).orFurther
          (hbreaks hbroken) ht ht'⟩

/-! ## Lists -/

/-- The courses of the first and of the later elements of a list, and what its separators do. -/
structure ListCourse (s : Site) (element : Matcher Kind) (separator : Option (Matcher Kind)) where
  /-- The course of the first element. -/
  first : Course
  /-- Where the later elements start. -/
  next : Site
  /-- Whether the separator can be committed and fail. -/
  breaks : Bool
  /-- The course of a later element. -/
  later : Course
  first_eq : course ruleCourse s element = some first
  next_eq : courseSeparator ruleCourse first.after separator = some (next, breaks)
  later_eq : course ruleCourse next element = some later
  first_solid : first.width.isSolid = true
  later_solid : later.width.isSolid = true
  later_le : later.after.Le first.after

namespace ListCourse

variable {s : Site} {element : Matcher Kind} {separator : Option (Matcher Kind)}

/-- What is known before an element and its separator. -/
def before (l : ListCourse s element separator) (isFirst : Bool) : Site :=
  if isFirst then s else l.first.after

/-- What is known before an element. -/
def site (l : ListCourse s element separator) (isFirst : Bool) : Site :=
  if isFirst then s else l.next

/-- The course of an element. -/
def part (l : ListCourse s element separator) (isFirst : Bool) : Course :=
  if isFirst then l.first else l.later

/-- What is known where the list is at its end. A separator is given back if no element follows. -/
def ending (l : ListCourse s element separator) : Site :=
  if separator.isNone then l.later.refused else l.first.after

/-- Whether something in the list can be committed and fail. -/
def isBreaking (l : ListCourse s element separator) : Bool :=
  l.first.breaks || l.breaks || l.later.breaks

/-- At both sites of a list its element covers text and leads to a site known as well as that behind the
first. -/
theorem part_eq (l : ListCourse s element separator) (isFirst : Bool) :
    course ruleCourse (l.site isFirst) element = some (l.part isFirst) ∧
      (l.part isFirst).width.isSolid = true ∧ (l.part isFirst).after.Le l.first.after ∧
      ((l.part isFirst).breaks = true → l.isBreaking = true) := by
  cases isFirst with
  | true => exact ⟨l.first_eq, l.first_solid, .refl _, fun h => by
      change l.first.breaks = true at h
      simp [isBreaking, h]⟩
  | false => exact ⟨l.later_eq, l.later_solid, l.later_le, fun h => by
      change l.later.breaks = true at h
      simp [isBreaking, h]⟩

end ListCourse

/-- The course of a list. -/
theorem course_list {s : Site} {element : Matcher Kind} {separator : Option (Matcher Kind)}
    {least : Nat} (h : course ruleCourse s (.list element separator least) = some r) :
    ∃ l : ListCourse s element separator, r.refused = s ∧ r.breaks = l.isBreaking ∧
      l.ending.Le r.after ∧ r.width ≠ .token ∧
      (least = 0 → r.width = .hollow ∧ l.first.refused.Le r.after) := by
  rw [course] at h
  simp only [Option.bind_eq_bind, Option.bind_eq_some_iff] at h
  obtain ⟨first, hfirst, ⟨next, breaks⟩, hnext, later, hlater, h⟩ := h
  split at h
  · rename_i hsolid
    simp only [Bool.and_eq_true, decide_eq_true_eq] at hsolid
    let l : ListCourse s element separator :=
      ⟨first, next, breaks, later, hfirst, hnext, hlater, hsolid.1.1, hsolid.1.2, hsolid.2⟩
    refine ⟨l, ?_⟩
    by_cases hleast : least = 0
    · rw [if_pos hleast, if_pos hleast] at h
      obtain ⟨after, hafter, h⟩ := Option.bind_eq_some_iff.1 h
      cases h
      obtain ⟨hle, hle'⟩ := Site.le_of_join? hafter
      exact ⟨rfl, rfl, hle', fun h => (by cases h), fun _ => ⟨rfl, hle⟩⟩
    · rw [if_neg hleast, if_neg hleast] at h
      cases h
      exact ⟨rfl, rfl, .refl _, fun h => (by cases h), fun h => absurd h hleast⟩
  · cases h

/-- The elements of a list do the same on both texts. -/
inductive ElementsAlike (K : Comparison) (I : PlaceRel) {s : Site} {element : Matcher Kind}
    {separator : Option (Matcher Kind)} (l : ListCourse s element separator) (isFirst : Bool)
    (x : List Span) (c c' : Cursor) : ListOutcome Kind → ListOutcome Kind → Prop
  /-- There are no elements. -/
  | refused : isFirst = true → I l.first.refused x c c' →
      ElementsAlike K I l isFirst x c c' { stop := c } { stop := c' }
  /-- An element or a separator cannot go on. -/
  | broken {o o'} : l.isBreaking = true → o.hole.isNone = false → o'.hole.isNone = false →
      ElementsAlike K I l isFirst x c c' o o'
  /-- The list is at its end. -/
  | complete {o o'} : o.hole = none → o'.hole = none → (isFirst = true → o.elements ≠ []) →
      List.Forall₂ (Twin K) o.elements o'.elements →
      List.Forall₂ (Twin K) o.separators o'.separators →
      Spread K (!isFirst) c c' o.parts o'.parts o.stop o'.stop →
      I l.ending (x ++ ParseTree.tokensAll o.parts) o.stop o'.stop →
      ElementsAlike K I l isFirst x c c' o o'

/-- What stands before an element on both texts. -/
inductive BeforeAlike (K : Comparison) (x : List Span) (c c' : Cursor) :
    (isFirst : Bool) → List Span → Option (ParseTree Kind) → Option (ParseTree Kind) →
      Cursor → Cursor → Prop
  /-- No separator. -/
  | absent {isFirst} : BeforeAlike K x c c' isFirst x none none c c'
  /-- A separator. -/
  | present {t t' here here'} : Twin K t t' → Covers c t here → Covers c' t' here' →
      BeforeAlike K x c c' false (x ++ t.tokens) (some t) (some t') here here'

section Elements

variable {s : Site} {element : Matcher Kind} {separator : Option (Matcher Kind)}
  {l : ListCourse s element separator} {isFirst : Bool}

/-- A separator that goes through. -/
theorem alike_separator {before : Option (ParseTree Kind)} {here : Cursor}
    (h : SeparatorRel (FlowRel K I .blanksAndComments) separator isFirst c before here)
    (hc : I (l.before isFirst) x c c') :
    ∃ before' here' y, SeparatorRel (language.ReferenceRel .blanksAndComments) separator isFirst c'
        before' here' ∧ BeforeAlike K x c c' isFirst y before before' here here' ∧
      I (l.site isFirst) y here here' := by
  cases h with
  | absent habsent =>
    refine ⟨none, c', x, .absent habsent, .absent, ?_⟩
    cases isFirst with
    | true => exact hc
    | false =>
      obtain rfl := habsent.resolve_right nofun
      obtain ⟨hnext, -⟩ := Prod.mk.inj (Option.some.inj l.next_eq)
      change I l.next x c c'
      rw [← hnext]
      exact hc
  | present hm hwhole =>
    obtain ⟨r, hr, hnext⟩ := Option.bind_eq_some_iff.1 l.next_eq
    split at hnext
    · rename_i hsolid
      obtain ⟨hnext, -⟩ := Prod.mk.inj (Option.some.inj hnext)
      obtain ⟨o', hrel, halike⟩ := hm rfl _ r x c' hr hc
      obtain ⟨t', here', rfl, hmatched⟩ := halike.of_whole hwhole
      obtain ⟨hcovers, hcovers'⟩ := hmatched.extent.covers hsolid
      refine ⟨_, _, _, .present hrel hmatched.whole', .present hmatched.twin hcovers hcovers', ?_⟩
      change I l.next _ _ _
      rw [← hnext]
      exact hmatched.after
    · cases hnext

/-- A separator that does not apply, or has a hole in it. -/
theorem alike_unseparated {m : Matcher Kind} (hm : separator = some m) :
    ∃ r, course ruleCourse l.first.after m = some r ∧ (r.breaks = true → l.isBreaking = true) := by
  have hnext := l.next_eq
  subst hm
  obtain ⟨r, hr, hnext⟩ := Option.bind_eq_some_iff.1 hnext
  split at hnext
  · obtain ⟨-, hbreaks⟩ := Prod.mk.inj (Option.some.inj hnext)
    exact ⟨r, hr, fun h => by simp [ListCourse.isBreaking, ← hbreaks, h]⟩
  · cases hnext

/-- An element and the list behind it, both behind what stands before the element. -/
theorem BeforeAlike.complete {before before' : Option (ParseTree Kind)} {here here' : Cursor}
    {y : List Span} {t t' : ParseTree Kind} {stop stop' : Cursor} {o o' : ListOutcome Kind}
    (h : BeforeAlike K x c c' isFirst y before before' here here')
    (ht : Matched K I (l.part isFirst) y here here' t t' stop stop')
    (ho : ElementsAlike K I l false (y ++ t.tokens) stop stop' o o') :
    ElementsAlike K I l isFirst x c c' (.separator before (.element t o))
      (.separator before' (.element t' o')) := by
  obtain ⟨-, hsolid, -⟩ := l.part_eq isFirst
  cases ho with
  | refused hfirst => cases hfirst
  | broken hbreaks hhole hhole' =>
    cases h with
    | absent => exact .broken hbreaks hhole hhole'
    | present => exact .broken hbreaks hhole hhole'
  | complete hwhole hwhole' _ helements hseparators hspread hend =>
    have hspread' : Spread K (!isFirst) here here' (t :: o.parts) (t' :: o'.parts) o.stop o'.stop :=
      Spread.cons (by rw [hsolid, Bool.or_true]; exact hspread) ht.extent ht.twin.shifted
        fun hw => by rw [hw] at hsolid; cases hsolid
    cases h with
    | absent =>
      exact .complete hwhole hwhole' (fun _ => List.cons_ne_nil _ _) (.cons ht.twin helements)
        hseparators hspread' (by simpa [ParseTree.tokensAll, ListOutcome.separator,
          ListOutcome.element] using hend)
    | @present u u' _ _ hu hcovers hcovers' =>
      exact .complete hwhole hwhole' Bool.noConfusion (.cons ht.twin helements) (.cons hu hseparators)
        (hspread'.cons (w := .solid) (.solid hcovers hcovers') hu.shifted fun h => by cases h)
        (by simpa [ParseTree.tokensAll, ListOutcome.separator, ListOutcome.element] using hend)

/-- No element follows. What is known where the list ends is what is known where an element is
refused, or where a separator would start. -/
theorem BeforeAlike.ended {before before' : Option (ParseTree Kind)} {here here' : Cursor}
    {y : List Span} (h : BeforeAlike K x c c' isFirst y before before' here here')
    (hsep : SeparatorRel (FlowRel K I .blanksAndComments) separator isFirst c before here)
    (hc : I (l.before isFirst) x c c') (hrefused : I (l.part isFirst).refused y here here') :
    ElementsAlike K I l isFirst x c c' { stop := c } { stop := c' } := by
  have hdone (hend : I l.ending x c c') :
      ElementsAlike K I l false x c c' { stop := c } { stop := c' } :=
    .complete rfl rfl Bool.noConfusion .nil .nil .nil (by simpa [ParseTree.tokensAll] using hend)
  cases isFirst with
  | true =>
    cases h with
    | absent => exact .refused rfl hrefused
  | false =>
    refine hdone ?_
    cases hsep with
    | absent habsent =>
      cases h
      rw [ListCourse.ending, if_pos (Option.isNone_iff_eq_none.2 (habsent.resolve_right Bool.noConfusion))]
      exact hrefused
    | present =>
      rw [ListCourse.ending, if_neg fun h => by cases h]
      exact hc

/-- An element with something before it has moved both cursors. -/
theorem BeforeAlike.moved {before before' : Option (ParseTree Kind)} {here here' : Cursor}
    {y : List Span} {t t' : ParseTree Kind} {stop stop' : Cursor}
    (h : BeforeAlike K x c c' isFirst y before before' here here') (ht : Covers here t stop)
    (ht' : Covers here' t' stop') : c.pos < stop.pos ∧ c'.pos < stop'.pos := by
  have hstart := ht.start_le
  have hstart' := ht'.start_le
  have hlt := ht.lt
  have hlt' := ht'.lt
  have hstop := ht.stop_eq
  have hstop' := ht'.stop_eq
  cases h with
  | absent => omega
  | present _ hu hu' =>
    have := hu.start_le
    have := hu'.start_le
    have := hu.lt
    have := hu'.lt
    have := hu.stop_eq
    have := hu'.stop_eq
    omega

/-- The elements of a list do the same on both texts. -/
theorem alike_elements (hI : Passage K I) {o : ListOutcome Kind}
    (h : ElementsRel (FlowRel K I .blanksAndComments) element separator isFirst c o)
    (hc : I (l.before isFirst) x c c') :
    ∃ o', ElementsRel (language.ReferenceRel .blanksAndComments) element separator isFirst c' o' ∧
      ElementsAlike K I l isFirst x c c' o o' := by
  induction h generalizing x c' with
  | unseparated hm hsep =>
    obtain ⟨r, hr, -⟩ := alike_unseparated (l := l) hm
    obtain ⟨o', hrel, halike⟩ := hsep rfl _ r x c' hr hc
    obtain ⟨rfl, -⟩ := halike.of_refused
    refine ⟨_, .unseparated hm hrel, .complete rfl rfl nofun .nil .nil .nil ?_⟩
    rw [ListCourse.ending, if_neg (by rw [hm]; nofun), ParseTree.tokensAll, List.append_nil]
    exact hc
  | stuck hm hsep hhole =>
    obtain ⟨r, hr, hbreaks⟩ := alike_unseparated (l := l) hm
    obtain ⟨o', hrel, halike⟩ := hsep rfl _ r x c' hr hc
    obtain ⟨hbroken, t', stop', hole', rfl, hhole'⟩ := halike.of_hole hhole
    exact ⟨_, .stuck hm hrel hhole', .broken (hbreaks hbroken) rfl rfl⟩
  | @ended isFirst c before here hsep helement =>
    obtain ⟨before', here', y, hrel, hbefore, hsite⟩ := alike_separator hsep hc
    obtain ⟨heq, -⟩ := l.part_eq isFirst
    obtain ⟨o', hrels, halike⟩ := helement rfl _ _ y here' heq hsite
    obtain ⟨rfl, hrefused⟩ := halike.of_refused
    exact ⟨_, .ended hrel hrels, hbefore.ended hsep hc hrefused⟩
  | @last isFirst c before here t stop hsep helement hlast =>
    obtain ⟨before', here', y, hrel, hbefore, hsite⟩ := alike_separator hsep hc
    obtain ⟨heq, hsolid, -, hbreaks⟩ := l.part_eq isFirst
    obtain ⟨o', hrels, halike⟩ := helement rfl _ _ y here' heq hsite
    cases hhole : t.hole with
    | none =>
      -- An element reads something, so it is not the last one for having read nothing.
      obtain ⟨t', stop', rfl, hmatched⟩ := halike.of_whole hhole
      obtain ⟨hcovers, hcovers'⟩ := hmatched.extent.covers hsolid
      have hmoved := (hbefore.moved hcovers hcovers').1
      rw [hhole, Option.isSome_none, Bool.false_or, beq_iff_eq] at hlast
      exact absurd hlast (Nat.ne_of_gt hmoved)
    | some hole =>
      obtain ⟨hbroken, t', stop', hole', rfl, hhole'⟩ := halike.of_hole hhole
      have hlast' : (t'.hole.isSome || stop'.pos == c'.pos) = true := by rw [hhole']; rfl
      refine ⟨_, .last hrel hrels hlast', .broken (hbreaks hbroken) ?_ ?_⟩
      · cases before <;> rfl
      · rw [hhole']
        cases before' <;> rfl
  | @more isFirst c before here t stop o hsep helement hmore _ ih =>
    obtain ⟨before', here', y, hrel, hbefore, hsite⟩ := alike_separator hsep hc
    obtain ⟨heq, hsolid, hle, -⟩ := l.part_eq isFirst
    obtain ⟨o', hrels, halike⟩ := helement rfl _ _ y here' heq hsite
    rw [Bool.or_eq_false_iff, Option.isSome_eq_false_iff, Option.isNone_iff_eq_none] at hmore
    obtain ⟨t', stop', rfl, hmatched⟩ := halike.of_whole hmore.1
    obtain ⟨hcovers, hcovers'⟩ := hmatched.extent.covers hsolid
    have hmore' : (t'.hole.isSome || stop'.pos == c'.pos) = false := by
      rw [hmatched.whole', Option.isSome_none, Bool.false_or, beq_eq_false_iff_ne]
      exact Nat.ne_of_gt (hbefore.moved hcovers hcovers').2
    obtain ⟨o', hlist, hlists⟩ := ih (hI.mono hle hmatched.after)
    exact ⟨_, .more hrel hrels hmore' hlist, hbefore.complete hmatched hlists⟩

end Elements

/-- The tree of a list. -/
theorem ElementsAlike.outcome (hI : Passage K I) {s : Site} {element : Matcher Kind}
    {separator : Option (Matcher Kind)} {l : ListCourse s element separator} {least : Nat}
    {o o' : ListOutcome Kind} (h : ElementsAlike K I l true x c c' o o')
    (hbreaks : r.breaks = l.isBreaking) (hending : l.ending.Le r.after) (hwidth : r.width ≠ .token)
    (hleast : least = 0 → r.width = .hollow ∧ l.first.refused.Le r.after)
    (hrefused : I r.refused x c c') :
    Alike K I r x c c' (o.outcome least c) (o'.outcome least c') := by
  cases h with
  | refused _ hfirst =>
    unfold ListOutcome.outcome
    by_cases hzero : least = 0
    · subst hzero
      obtain ⟨hhollow, hle⟩ := hleast rfl
      refine .complete {
        whole := rfl
        whole' := rfl
        twin := .mk rfl nofun (fun h => absurd h (Nat.lt_irrefl _))
          (.cons (.list .nil .nil) .nil)
        extent := ?_
        same := fun h => absurd h hwidth
        after := ?_ }
      · rw [hhollow]
        exact .hollow rfl rfl rfl rfl (tokens_of_ne_token (by nofun)) rfl rfl
      · rw [tokens_of_ne_token (by nofun), ParseTree.tokensAll, List.append_nil]
        exact hI.mono hle hfirst
    · rw [if_pos (by simp [Nat.pos_of_ne_zero hzero]), if_pos (by simp [Nat.pos_of_ne_zero hzero])]
      exact .refused hrefused
  | broken hbroken hhole hhole' =>
    unfold ListOutcome.outcome
    rw [hhole, hhole']
    exact .broken (hbreaks.trans hbroken) hhole hhole'
  | complete hwhole hwhole' _ helements hseparators hspread hend =>
    have hlength := helements.length_eq
    unfold ListOutcome.outcome
    rw [hwhole, hwhole', ← hlength]
    split
    · exact .refused hrefused
    · obtain ⟨htwin, hcovers, hcovers'⟩ := Opens.twin hspread .list rfl
        (.cons (.list helements hseparators) .nil) (List.cons_ne_nil _ _)
      exact .complete {
        whole := rfl
        whole' := rfl
        twin := htwin
        extent := .solid hcovers hcovers'
        same := fun h => absurd h hwidth
        after := by
          rw [tokens_of_ne_token (by nofun)]
          exact hI.mono hending hend }

/-! ## The other constructs -/

/-- An optional part does the same on both texts. -/
theorem Alike.orMissing (hI : Passage K I) {body r' : Course} {o o' : Outcome Kind}
    (h : Alike K I body x c c' o o') (hsolid : body.width.isSolid = true)
    (hwidth : r'.width = .optional) (hafter : body.after.Le r'.after)
    (hrefused : body.refused.Le r'.after) (hbreaks : r'.breaks = body.breaks) :
    Alike K I r' x c c' (o.orMissing c) (o'.orMissing c') := by
  cases h with
  | refused hc =>
    refine .complete {
      whole := rfl
      whole' := rfl
      twin := .mk rfl (fun h => by cases h) (fun h => absurd h (Nat.lt_irrefl _)) .nil
      extent := ?_
      same := fun h => by cases hwidth.symm.trans h
      after := ?_ }
    · rw [hwidth]
      exact .missing rfl rfl (tokens_of_ne_token (fun h => by cases h)) rfl rfl
    · rw [ParseTree.missing, tokens_of_ne_token (fun h => by cases h), ParseTree.tokensAll, List.append_nil]
      exact hI.mono hrefused hc
  | broken hbroken ht ht' => exact .broken (hbreaks.trans hbroken) ht ht'
  | complete hmatched => exact .complete (hmatched.weaken hI hsolid (fun h => by cases hwidth.symm.trans h) hafter)

/-- A rule whose body is no sequence does what its body does. -/
theorem Alike.ofRule {o o' : Outcome Kind} (h : Alike K I r x c c' o o') (k : Kind)
    (rule : Rule Kind) (harity : rule.arity = 0 → r.width = .token)
    (hwidth : r.width.isSolid = true ∨ r.width = .hollow ∧ (k = .params ∨ k = .stms)) :
    Alike K I r x c c' (o.ofRule k rule) (o'.ofRule k rule) := by
  cases h with
  | refused hc => exact .refused hc
  | broken hbreaks ht ht' => exact .broken hbreaks ht ht'
  | @complete t t' stop stop' hmatched =>
    refine .complete {
      whole := hmatched.whole
      whole' := hmatched.whole'
      twin := .mk rfl ?_ (fun hlt => ⟨hmatched.twin.shifted hlt, ?_⟩) ?_
      extent := ?_
      same := hmatched.same
      after := by
        rw [tokens_of_ne_token (by nofun), ParseTree.tokensAll_singleton]
        exact hmatched.after }
    · intro htext
      rcases hwidth with hsolid | ⟨-, rfl | rfl⟩
      · exact (hmatched.extent.covers hsolid).1.lt
      · cases htext
      · cases htext
    · intro hcaptures
      dsimp only at hcaptures
      split at hcaptures
      · rename_i hzero
        exact hmatched.same (harity hzero)
      · cases hcaptures
    · dsimp only
      split
      · exact .nil
      · exact .cons hmatched.twin.capture .nil
    · have hextent := hmatched.extent
      generalize hw : r.width = w at hextent hwidth ⊢
      cases hextent with
      | solid hcovers hcovers' =>
        exact .solid ⟨rfl, hcovers.start_le, hcovers.lt, hcovers.stop_eq⟩
          ⟨rfl, hcovers'.start_le, hcovers'.lt, hcovers'.stop_eq⟩
      | missing => simp [Width.isSolid] at hwidth
      | hollow hspan hspan' _ _ htokens hstop hstop' =>
        refine .hollow hspan hspan' rfl rfl ?_ hstop hstop'
        rw [tokens_of_ne_token (by nofun), ParseTree.tokensAll_singleton, htokens]

/-- Every matcher of the language does the same on both texts. -/
theorem closed_flowRel (hI : Passage K I) : language.Closed (FlowRel K I) := by
  rintro sk m c o h rfl s r x c' hr hc
  have hclosed {m o'} (h : language.Layer language.ReferenceRel .blanksAndComments m c' o') :=
    language.closed_referenceRel .blanksAndComments m c' o' h
  cases h with
  | literal =>
    obtain ⟨t, ht, hread⟩ := Option.bind_eq_some_iff.1 hr
    obtain ⟨hknown, heq⟩ := token?_literal ht
    refine ⟨_, hclosed .literal, ?_⟩
    rw [← heq]
    exact hI.token hknown hread hc
  | literals =>
    obtain ⟨t, ht, hread⟩ := Option.bind_eq_some_iff.1 hr
    obtain ⟨hknown, heq⟩ := token?_literals ht
    refine ⟨_, hclosed .literals, ?_⟩
    rw [← heq]
    exact hI.token hknown hread hc
  | pattern =>
    obtain ⟨t, ht, hread⟩ := Option.bind_eq_some_iff.1 hr
    obtain ⟨hknown, heq⟩ := token?_pattern ht
    refine ⟨_, hclosed .pattern, ?_⟩
    rw [← heq]
    exact hI.token hknown hread hc
  | seq hitems =>
    obtain ⟨o', hrel, halike⟩ := alike_seq .group (fun h => by cases h) rfl hitems hr hc
    exact ⟨_, hclosed (.seq hrel), halike⟩
  | any hchoice =>
    obtain ⟨o', hrel, halike⟩ := alike_choice hI hchoice hr hc
    exact ⟨_, hclosed (.any hrel), halike⟩
  | list helements =>
    obtain ⟨l, hrefused, hbreaks, hending, hwidth, hleast⟩ := course_list hr
    obtain ⟨o', hrel, halike⟩ := alike_elements hI (l := l) helements hc
    exact ⟨_, hclosed (.list hrel),
      halike.outcome hI hbreaks hending hwidth hleast (by rw [hrefused]; exact hc)⟩
  | optional hbody =>
    rw [course] at hr
    simp only [Option.bind_eq_bind, Option.bind_eq_some_iff] at hr
    obtain ⟨body, hcourse, after, hafter, hr⟩ := hr
    split at hr
    · rename_i hsolid
      cases hr
      obtain ⟨hle, hle'⟩ := Site.le_of_join? hafter
      obtain ⟨o', hrel, halike⟩ := hbody rfl s body x c' hcourse hc
      exact ⟨_, hclosed (.optional hrel), halike.orMissing hI hsolid rfl hle hle' rfl⟩
    · cases hr
  | undefined hrule =>
    obtain ⟨rule, hrule', -⟩ := course_body hr
    cases hrule.symm.trans hrule'
  | ruleSeq hrule hbody hitems =>
    obtain ⟨rule, hrule', hcourse, -⟩ := course_body hr
    cases hrule.symm.trans hrule'
    rw [hbody] at hcourse
    obtain ⟨o', hrel, halike⟩ := alike_seq (.rule _) (fun h => by cases h) rfl hitems hcourse hc
    exact ⟨_, hclosed (.ruleSeq hrule hbody hrel), halike⟩
  | rule hrule hbody hm =>
    obtain ⟨rule, hrule', hcourse, harity, hwidth⟩ := course_body hr
    cases hrule.symm.trans hrule'
    obtain ⟨o', hrel, halike⟩ := hm rfl s r x c' hcourse hc
    exact ⟨_, hclosed (.rule hrule hbody hrel), halike.ofRule _ _ harity hwidth⟩
  | unset | ref | sure | skip => cases hr

end ExpLang.Syntax
