import ExpLang.Proofs.Matching.Refinement
import ExpLang.Proofs.Matching.Tiling
import ExpLang.Proofs.Syntax.Flow

/-!
# Twin trees

Two texts that are read by the same matchers, one of them with other gaps, give trees of the same
shape. Twins have the same kind and keep twins of each other's parts, and their spans are related: by
`Shifted` if there is text in them, and by `Same` if they are single tokens. How spans are related
is left open. Spans are merged when a node is made, and `Shifted` is required to respect that.

A node that covers no text has the empty span at the cursor, and where a gap follows that offset
means nothing. Such nodes stand behind text only, so they never add to the span of another node.
-/

namespace ExpLang.Syntax

open Text

/-- How the spans of two trees are related. -/
structure Comparison where
  /-- The relation between the spans of two tokens. -/
  Same : Span → Span → Prop
  /-- The relation between the spans of two trees with some text. -/
  Shifted : Span → Span → Prop
  shifted_of_same : ∀ {a a'}, Same a a' → Shifted a a'
  merge : ∀ {a a' b b'}, Shifted a a' → Shifted b b' → Shifted (a.merge b) (a'.merge b')

end ExpLang.Syntax

namespace ExpLang

/-- What two trees keep of a part, where the trees in it are related. -/
inductive TreeCapture.Rel {α : Type} (R : α → α → Prop) : TreeCapture α → TreeCapture α → Prop
  | missing : Rel R (.part none) (.part none)
  | part {t t'} : R t t' → Rel R (.part (some t)) (.part (some t'))
  | list {es es' ss ss'} : List.Forall₂ R es es' → List.Forall₂ R ss ss' →
      Rel R (.list es ss) (.list es' ss')

/-- Related lists have related heads, if what stands in for a missing head is related. -/
theorem forall₂_headD {α β : Type} {R : α → β → Prop} {xs : List α} {ys : List β} {x : α} {y : β}
    (h : List.Forall₂ R xs ys) (hxy : R x y) : R (xs.headD x) (ys.headD y) := by
  cases h with
  | nil => exact hxy
  | cons hhead _ => exact hhead

/-- The span over several spans, merged to another one. -/
theorem Span.foldl_merge {spans : List Span} {b : Span} (h : Span.cover spans = some b) (a : Span) :
    spans.foldl Span.merge a = a.merge b := by
  cases spans with
  | nil => cases h
  | cons first rest =>
    cases h
    exact List.foldl_assoc

end ExpLang

namespace ExpLang.Syntax

/-- Whether trees of a kind always cover text: tokens do, and rules other than lists of parameters and
of statements. -/
def hasText : NodeKind Kind → Bool
  | .token => true
  | .rule k => k != .params && k != .stms
  | _ => false

/-- Two trees of the same shape. -/
inductive Twin (K : Comparison) : ParseTree Kind → ParseTree Kind → Prop
  | mk {t t'} : t.kind = t'.kind → (hasText t.kind = true → t.span.start < t.span.stop) →
      (t.span.start < t.span.stop → K.Shifted t.span t'.span ∧
        (t.captures = [] → K.Same t.span t'.span)) →
      List.Forall₂ (TreeCapture.Rel (Twin K)) t.captures t'.captures → Twin K t t'

/-- A tree covers text between two cursors, up to the second one. -/
structure Covers (c : Cursor) (t : ParseTree Kind) (stop : Cursor) : Prop where
  present : t.kind.isEmpty = false
  start_le : c.pos ≤ t.span.start
  lt : t.span.start < t.span.stop
  stop_eq : t.span.stop = stop.pos

/-- What two trees cover: some text, or nothing if that is allowed. -/
inductive Extent (c c' : Cursor) (t t' : ParseTree Kind) (stop stop' : Cursor) : Width → Prop
  | solid {w} : Covers c t stop → Covers c' t' stop' → Extent c c' t t' stop stop' w
  | missing : t.kind.isEmpty = true → t'.kind.isEmpty = true → t.tokens = [] → stop = c → stop' = c' →
      Extent c c' t t' stop stop' .optional
  | hollow : t.span = .point c.pos → t'.span = .point c'.pos → t.kind.isEmpty = false →
      t'.kind.isEmpty = false → t.tokens = [] → stop = c → stop' = c' →
      Extent c c' t t' stop stop' .hollow

variable {K : Comparison} {t t' : ParseTree Kind} {c c' mid mid' stop stop' : Cursor}
  {parts parts' : List (ParseTree Kind)} {w : Width} {led : Bool}

/-- Trees of a solid width cover text, each between its cursors. -/
theorem Extent.covers (h : Extent c c' t t' stop stop' w) (hw : w.isSolid = true) :
    Covers c t stop ∧ Covers c' t' stop' := by
  cases h with
  | solid h h' => exact ⟨h, h'⟩
  | missing | hollow => cases hw

/-! ## The spans of several parts -/

/-- The spans of the parts that are not missing. -/
def presentSpans (trees : List (ParseTree Kind)) : List Span :=
  (trees.filter (!·.kind.isEmpty)).map (·.span)

/-- A tree that is there is among the spans of what is there. -/
theorem presentSpans_cons (h : t.kind.isEmpty = false) :
    presentSpans (t :: parts) = t.span :: presentSpans parts := by
  simp [presentSpans, h]

/-- A missing tree is not among the spans of what is there. -/
theorem presentSpans_cons_missing (h : t.kind.isEmpty = true) :
    presentSpans (t :: parts) = presentSpans parts := by
  simp [presentSpans, h]

/-- Two spans over what was read up to two cursors. -/
structure Led (K : Comparison) (a a' : Span) (c c' : Cursor) : Prop where
  lt : a.start < a.stop
  lt' : a'.start < a'.stop
  stop_eq : a.stop = c.pos
  stop_eq' : a'.stop = c'.pos
  shifted : K.Shifted a a'

/-- Parts that stand behind text: merging their spans moves the end of what was read before. -/
def Extends (K : Comparison) (c c' : Cursor) (parts parts' : List (ParseTree Kind))
    (stop stop' : Cursor) : Prop :=
  ∀ a a', Led K a a' c c' → ∃ b b', Led K b b' stop stop' ∧ b.start = a.start ∧ b'.start = a'.start ∧
    (presentSpans parts).foldl Span.merge a = b ∧ (presentSpans parts').foldl Span.merge a' = b'

/-- Parts that cover some text. -/
def Opens (K : Comparison) (c c' : Cursor) (parts parts' : List (ParseTree Kind))
    (stop stop' : Cursor) : Prop :=
  ∃ a a', Led K a a' stop stop' ∧ c.pos ≤ a.start ∧ c'.pos ≤ a'.start ∧
    Span.cover (presentSpans parts) = some a ∧ Span.cover (presentSpans parts') = some a'

/-- What parts cover, where `led` says whether they stand behind text. -/
def Spread (K : Comparison) (led : Bool) (c c' : Cursor) (parts parts' : List (ParseTree Kind))
    (stop stop' : Cursor) : Prop :=
  match led with
  | true => Extends K c c' parts parts' stop stop'
  | false => Opens K c c' parts parts' stop stop'

/-- No parts extend what is covered by nothing. -/
theorem Extends.nil : Extends K c c' [] [] c c' :=
  fun a a' h => ⟨a, a', h, rfl, rfl, rfl, rfl⟩

/-- Merging a span that stands behind text. -/
theorem Led.merge {a a' b b' : Span} (h : Led K a a' c c') (hstart : c.pos ≤ b.start)
    (hstart' : c'.pos ≤ b'.start) (hlt : b.start < b.stop) (hlt' : b'.start < b'.stop)
    (hstop : b.stop = stop.pos) (hstop' : b'.stop = stop'.pos) (hshifted : K.Shifted b b') :
    Led K (a.merge b) (a'.merge b') stop stop' ∧ (a.merge b).start = a.start ∧
      (a'.merge b').start = a'.start := by
  have ha := h.lt
  have ha' := h.lt'
  have hc := h.stop_eq
  have hc' := h.stop_eq'
  have hmin : (a.merge b).start = a.start := by simp only [Span.merge]; omega
  have hmin' : (a'.merge b').start = a'.start := by simp only [Span.merge]; omega
  have hmax : (a.merge b).stop = b.stop := by simp only [Span.merge]; omega
  have hmax' : (a'.merge b').stop = b'.stop := by simp only [Span.merge]; omega
  exact ⟨⟨by omega, by omega, by omega, by omega, K.merge h.shifted hshifted⟩, hmin, hmin'⟩

/-- A span over what was read is not changed by an empty span at its end. -/
theorem Led.merge_point {a a' : Span} (h : Led K a a' c c') :
    a.merge (.point c.pos) = a ∧ a'.merge (.point c'.pos) = a' := by
  have ha := h.lt
  have ha' := h.lt'
  have hc := h.stop_eq
  have hc' := h.stop_eq'
  obtain ⟨start, stop⟩ := a
  obtain ⟨start', stop'⟩ := a'
  simp only [Span.merge, Span.point, Span.mk.injEq] at *
  omega

/-- A part in front of parts, all behind text. -/
theorem Extends.cons (h : Extends K mid mid' parts parts' stop stop')
    (ht : Extent c c' t t' mid mid' w) (hshifted : t.span.start < t.span.stop → K.Shifted t.span t'.span) :
    Extends K c c' (t :: parts) (t' :: parts') stop stop' := by
  intro a a' hled
  cases ht with
  | solid ht ht' =>
    obtain ⟨hled', hstart, hstart'⟩ := hled.merge ht.start_le ht'.start_le ht.lt ht'.lt ht.stop_eq
      ht'.stop_eq (hshifted ht.lt)
    obtain ⟨b, b', hb, hbstart, hbstart', hfold, hfold'⟩ := h _ _ hled'
    refine ⟨b, b', hb, hbstart.trans hstart, hbstart'.trans hstart', ?_, ?_⟩
    · rw [presentSpans_cons ht.present, List.foldl_cons, hfold]
    · rw [presentSpans_cons ht'.present, List.foldl_cons, hfold']
  | missing ht ht' _ hc hc' =>
    subst hc hc'
    rw [presentSpans_cons_missing ht, presentSpans_cons_missing ht']
    exact h a a' hled
  | hollow hspan hspan' ht ht' _ hc hc' =>
    subst hc hc'
    obtain ⟨hmerge, hmerge'⟩ := hled.merge_point
    rw [presentSpans_cons ht, presentSpans_cons ht', List.foldl_cons, List.foldl_cons, hspan, hspan',
      hmerge, hmerge']
    exact h a a' hled

/-- A part with text in front of parts that may be without. -/
theorem Opens.of_covers (ht : Covers c t mid) (ht' : Covers c' t' mid')
    (hshifted : K.Shifted t.span t'.span) (h : Extends K mid mid' parts parts' stop stop') :
    Opens K c c' (t :: parts) (t' :: parts') stop stop' := by
  obtain ⟨b, b', hb, hstart, hstart', hfold, hfold'⟩ :=
    h t.span t'.span ⟨ht.lt, ht'.lt, ht.stop_eq, ht'.stop_eq, hshifted⟩
  refine ⟨b, b', hb, hstart ▸ ht.start_le, hstart' ▸ ht'.start_le, ?_, ?_⟩
  · rw [presentSpans_cons ht.present, Span.cover, hfold]
  · rw [presentSpans_cons ht'.present, Span.cover, hfold']

/-- A part with text in front of parts with text. -/
theorem Opens.cons (h : Opens K mid mid' parts parts' stop stop') (ht : Covers c t mid)
    (ht' : Covers c' t' mid') (hshifted : K.Shifted t.span t'.span) :
    Opens K c c' (t :: parts) (t' :: parts') stop stop' := by
  obtain ⟨b, b', hb, hstart, hstart', hcover, hcover'⟩ := h
  have hled : Led K t.span t'.span mid mid' := ⟨ht.lt, ht'.lt, ht.stop_eq, ht'.stop_eq, hshifted⟩
  obtain ⟨hmerged, hmin, hmin'⟩ :=
    hled.merge hstart hstart' hb.lt hb.lt' hb.stop_eq hb.stop_eq' hb.shifted
  refine ⟨_, _, hmerged, hmin ▸ ht.start_le, hmin' ▸ ht'.start_le, ?_, ?_⟩
  · rw [presentSpans_cons ht.present, Span.cover, Span.foldl_merge hcover]
  · rw [presentSpans_cons ht'.present, Span.cover, Span.foldl_merge hcover']

/-- A missing part in front leaves what the parts behind it cover. -/
theorem Opens.cons_missing (h : Opens K c c' parts parts' stop stop') (ht : t.kind.isEmpty = true)
    (ht' : t'.kind.isEmpty = true) : Opens K c c' (t :: parts) (t' :: parts') stop stop' := by
  rw [Opens, presentSpans_cons_missing ht, presentSpans_cons_missing ht']
  exact h

/-- A part in front of parts. One that may cover nothing stands behind text. -/
theorem Spread.cons (h : Spread K (led || w.isSolid) mid mid' parts parts' stop stop')
    (ht : Extent c c' t t' mid mid' w)
    (hshifted : t.span.start < t.span.stop → K.Shifted t.span t'.span)
    (hhollow : w = .hollow → led = true) :
    Spread K led c c' (t :: parts) (t' :: parts') stop stop' := by
  cases led with
  | true => exact Extends.cons h ht hshifted
  | false =>
    cases hw : w.isSolid with
    | true =>
      rw [hw] at h
      obtain ⟨ht, ht'⟩ := ht.covers hw
      exact Opens.of_covers ht ht' (hshifted ht.lt) h
    | false =>
      rw [hw] at h
      cases ht with
      | solid ht ht' => exact Opens.cons h ht ht' (hshifted ht.lt)
      | missing ht ht' _ hc hc' =>
        subst hc hc'
        exact Opens.cons_missing h ht ht'
      | hollow => cases hhollow rfl

/-! ## Making twins -/

/-- Twins are of the same kind. -/
theorem Twin.kind_eq (h : Twin K t t') : t.kind = t'.kind := by
  cases h with
  | mk hkind => exact hkind

/-- Twins of some text stand in spans that are shifted. -/
theorem Twin.shifted (h : Twin K t t') (hlt : t.span.start < t.span.stop) :
    K.Shifted t.span t'.span := by
  cases h with
  | mk _ _ hspan => exact (hspan hlt).1

/-- What is kept of twins is related. -/
theorem Twin.capture (h : Twin K t t') : TreeCapture.Rel (Twin K) t.capture t'.capture := by
  cases h with
  | mk hkind htext hspan hcaptures =>
    unfold ParseTree.capture
    rw [← hkind]
    split
    · exact .missing
    · exact forall₂_headD hcaptures (.part (.mk hkind htext hspan hcaptures))
    · exact .part (.mk hkind htext hspan hcaptures)

/-- Twins that are made of parts with text. -/
theorem Opens.twin (h : Opens K c c' parts parts' stop stop') (kind : NodeKind Kind)
    (hkind : kind.isEmpty = false) {captures captures' : List (TreeCapture (ParseTree Kind))}
    (hcaptures : List.Forall₂ (TreeCapture.Rel (Twin K)) captures captures') (hne : captures ≠ []) :
    Twin K ⟨kind, ParseTree.cover parts c.pos, parts, captures, none⟩
        ⟨kind, ParseTree.cover parts' c'.pos, parts', captures', none⟩ ∧
      Covers c ⟨kind, ParseTree.cover parts c.pos, parts, captures, none⟩ stop ∧
      Covers c' ⟨kind, ParseTree.cover parts' c'.pos, parts', captures', none⟩ stop' := by
  obtain ⟨a, a', hled, hstart, hstart', hcover, hcover'⟩ := h
  have hspan : ParseTree.cover parts c.pos = a := by
    change (Span.cover (presentSpans parts)).getD _ = a
    rw [hcover, Option.getD_some]
  have hspan' : ParseTree.cover parts' c'.pos = a' := by
    change (Span.cover (presentSpans parts')).getD _ = a'
    rw [hcover', Option.getD_some]
  rw [hspan, hspan']
  exact ⟨.mk rfl (fun _ => hled.lt) (fun _ => ⟨hled.shifted, fun h => absurd h hne⟩)
      hcaptures, ⟨hkind, hstart, hled.lt, hled.stop_eq⟩, ⟨hkind, hstart', hled.lt', hled.stop_eq'⟩⟩

end ExpLang.Syntax
