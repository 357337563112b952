import ExpLang.Proofs.Matching.Acceptance
import ExpLang.Proofs.Matching.Progress
import ExpLang.Proofs.Matching.Validation

/-!
# Spans without gaps at their ends

A node covers its parts, those left out that are optional and missing. A list without elements is not
missing: it stands as an empty span right at the cursor, and in front of a token this is in front of
the gap before the token. So a sequence that starts with such a list covers that gap too.

`Matcher.hugs` looks for this. It asks of each sequence that the first part that is not missing read
something, and says nothing about what comes after it: there the cursor is where the last token ends.
Where all rules and placeholders of a grammar pass, each node of a parsed source covers the text from the
start of its first token to the end of its last one (`Grammar.Hugging.parse_tight`).
-/

namespace ExpLang

variable {κ : Type}

/-! ## From the first span to the last -/

namespace Span

/-- The text from the start of the first of some spans to the end of the last; if there are none,
the empty text at an offset. -/
def hull (pos : Nat) (spans : List Span) : Span :=
  ⟨spans.head?.elim pos (·.start), spans.getLast?.elim pos (·.stop)⟩

/-- The hull of no spans is the empty span at the offset. -/
theorem hull_nil (pos : Nat) : hull pos [] = .point pos := rfl

/-- The hull of some spans reaches from the start of the first to the end of the last. -/
theorem hull_of_ne_nil (pos : Nat) {spans : List Span} (h : spans ≠ []) :
    hull pos spans = ⟨(spans.head h).start, (spans.getLast h).stop⟩ := by
  rw [hull, List.head?_eq_some_head h, List.getLast?_eq_some_getLast h]
  rfl

/-- The hull of two lists starts where that of the first does, if there is a span in it. -/
theorem hull_append_start (pos : Nat) {first : List Span} (h : first ≠ []) (second : List Span) :
    (hull pos (first ++ second)).start = (hull pos first).start := by
  rw [hull, List.head?_append_of_ne_nil _ h]
  rfl

/-- The hull of two lists ends where that of the second does, taken from the end of the first. -/
theorem hull_append_stop (pos : Nat) (first second : List Span) :
    (hull pos (first ++ second)).stop = (hull (hull pos first).stop second).stop := by
  cases h : second.getLast? <;> simp [hull, List.getLast?_append, h]

end Span

namespace ParseTree

/-! ## Trees whose nodes are tight -/

/-- The tokens of trees are the tokens of each. -/
theorem mem_tokensAll {trees : List (ParseTree κ)} {s : Span} :
    s ∈ tokensAll trees ↔ ∃ t ∈ trees, s ∈ t.tokens := by
  induction trees with
  | nil => simp [tokensAll]
  | cons t rest ih => simp [tokensAll, ih]

/-- Every node in a tree covers the text from its first token to its last one, and every token is
some text. -/
inductive IsTight : ParseTree κ → Prop
  | node {t : ParseTree κ} (pos : Nat) : t.span = .hull pos t.tokens →
      (t.kind = .token → t.children = [] ∧ t.span.start < t.span.stop) →
      (∀ u ∈ t.children, IsTight u) → IsTight t

/-- The tokens of a node are those of its children, if it is none itself. -/
theorem tokens_eq_tokensAll {t : ParseTree κ} (h : t.kind ≠ .token) :
    t.tokens = tokensAll t.children := by
  obtain ⟨kind, span, children, captures, hole⟩ := t
  rw [tokens]
  exact fun hkind => h hkind

/-- The tokens of a token are its own span. -/
theorem tokens_eq_singleton {t : ParseTree κ} (h : t.kind = .token) : t.tokens = [t.span] := by
  obtain ⟨kind, span, children, captures, hole⟩ := t
  obtain rfl : kind = .token := h
  rw [tokens]

/-- A tight tree with tokens covers the text from the first to the last. -/
theorem IsTight.span_eq {t : ParseTree κ} (h : t.IsTight) (hne : t.tokens ≠ []) :
    t.span = ⟨(t.tokens.head hne).start, (t.tokens.getLast hne).stop⟩ := by
  obtain ⟨pos, hspan, -, -⟩ := h
  exact hspan.trans (Span.hull_of_ne_nil pos hne)

/-- A tight tree without tokens covers nothing. -/
theorem IsTight.isEmpty_span {t : ParseTree κ} (h : t.IsTight) (hnil : t.tokens = []) :
    t.span.isEmpty = true := by
  obtain ⟨pos, hspan, -, -⟩ := h
  rw [hspan, hnil, Span.hull_nil, Span.isEmpty, Span.point, beq_self_eq_true]

/-- The children of a tight tree are tight. -/
theorem IsTight.child {t u : ParseTree κ} (h : t.IsTight) (hu : u ∈ t.children) : u.IsTight := by
  obtain ⟨-, -, -, hchildren⟩ := h
  exact hchildren u hu

/-- The tokens of a part of a node are tokens of the node. -/
theorem IsTight.tokens_subset {t u : ParseTree κ} (h : t.IsTight) (hu : u ∈ t.children) :
    u.tokens ⊆ t.tokens := by
  obtain ⟨-, -, htoken, -⟩ := h
  have hkind : t.kind ≠ .token := by
    intro hkind
    rw [(htoken hkind).1] at hu
    cases hu
  rw [tokens_eq_tokensAll hkind]
  exact fun s hs => mem_tokensAll.2 ⟨u, hu, hs⟩

/-- Every token of a tight tree is some text. -/
theorem IsTight.token_lt {t : ParseTree κ} (h : t.IsTight) : ∀ s ∈ t.tokens, s.start < s.stop := by
  induction h with
  | @node t pos hspan htoken hchildren ih =>
    intro s hs
    by_cases hkind : t.kind = .token
    · rw [tokens_eq_singleton hkind, List.mem_singleton] at hs
      rw [hs]
      exact (htoken hkind).2
    · rw [tokens_eq_tokensAll hkind, mem_tokensAll] at hs
      obtain ⟨u, hu, hs⟩ := hs
      exact ih u hu s hs

/-! ## Trees that stand one after the other -/

/-- A tree between two offsets: it covers the text from its first token to its last one, or nothing
right at the first offset, and the second offset is where it ends. -/
structure Hugs (pos : Nat) (t : ParseTree κ) (stop : Nat) : Prop where
  span : t.span = .hull pos t.tokens
  stop : t.span.stop = stop
  start_le : pos ≤ t.span.start
  le_stop : t.span.start ≤ t.span.stop
  missing : t.kind.isEmpty = true → t.tokens = []
  tight : t.IsTight

/-- Trees one after the other between two offsets. -/
inductive HugsAll : Nat → List (ParseTree κ) → Nat → Prop
  | nil {pos : Nat} : HugsAll pos [] pos
  | cons {pos mid stop : Nat} {t : ParseTree κ} {rest : List (ParseTree κ)} : t.Hugs pos mid →
      HugsAll mid rest stop → HugsAll pos (t :: rest) stop

/-- The first tree that is not a missing part has a token, or there is nothing behind it. -/
def Opens : List (ParseTree κ) → Prop
  | [] => True
  | t :: rest => t.tokens ≠ [] ∨ rest = [] ∨ t.kind.isEmpty = true ∧ Opens rest

section Rows

variable {pos mid stop : Nat} {t : ParseTree κ} {trees : List (ParseTree κ)}

/-- A tree without tokens reads nothing. -/
theorem Hugs.stop_eq (h : t.Hugs pos stop) (hnil : t.tokens = []) : stop = pos := by
  rw [← h.stop, h.span, hnil]
  rfl

/-- A tree that reads something has a token. -/
theorem Hugs.tokens_ne_nil (h : t.Hugs pos stop) (hlt : pos < stop) : t.tokens ≠ [] := by
  intro hnil
  exact hlt.ne' (h.stop_eq hnil)

/-- Trees one after the other end at or after the offset where they begin. -/
theorem HugsAll.le (h : HugsAll pos trees stop) : pos ≤ stop := by
  induction h with
  | nil => exact le_rfl
  | cons ht _ ih =>
    have hstart := ht.start_le
    have hle := ht.le_stop
    have hstop := ht.stop
    omega

/-- Trees one after the other end where the hull of their tokens does. -/
theorem HugsAll.stop_eq (h : HugsAll pos trees stop) :
    (Span.hull pos (tokensAll trees)).stop = stop := by
  induction h with
  | nil => rfl
  | cons ht _ ih => rw [tokensAll, Span.hull_append_stop, ← ht.span, ht.stop, ih]

/-- The hull of the tokens starts between the two offsets. -/
theorem HugsAll.bounds (h : HugsAll pos trees stop) :
    pos ≤ (Span.hull pos (tokensAll trees)).start ∧
      (Span.hull pos (tokensAll trees)).start ≤ stop := by
  induction h with
  | nil => exact ⟨le_rfl, le_rfl⟩
  | @cons pos mid stop t rest ht hrest ih =>
    rw [tokensAll]
    by_cases hnil : t.tokens = []
    · have hmid := ht.stop_eq hnil
      subst hmid
      rw [hnil, List.nil_append]
      exact ih
    · rw [Span.hull_append_start pos hnil, ← ht.span]
      have hle := ht.le_stop
      rw [ht.stop] at hle
      exact ⟨ht.start_le, hle.trans hrest.le⟩

/-- Each of the trees is tight. -/
theorem HugsAll.tight (h : HugsAll pos trees stop) : ∀ t ∈ trees, t.IsTight := by
  induction h with
  | nil => exact fun _ ht => absurd ht List.not_mem_nil
  | cons ht _ ih => exact List.forall_mem_cons.2 ⟨ht.tight, ih⟩

/-- What ends where some trees begin is continued by them to where they end, whatever is missing among
them. -/
theorem HugsAll.foldl_merge (h : HugsAll mid trees stop) {s : Span} (hs : s.start ≤ s.stop)
    (hmid : s.stop = mid) :
    ((trees.filter (!·.kind.isEmpty)).map (·.span)).foldl Span.merge s = ⟨s.start, stop⟩ := by
  induction h generalizing s with
  | nil => simp [← hmid]
  | @cons pos mid stop t rest ht _ ih =>
    rw [List.filter_cons]
    split
    · have hstart := ht.start_le
      have hle := ht.le_stop
      have hmerge : s.merge t.span = ⟨s.start, mid⟩ := by
        rw [← ht.stop, Span.merge, Span.mk.injEq]
        omega
      have hmidle := ht.stop
      rw [List.map_cons, List.foldl_cons, hmerge, ih (by simp only; omega) rfl]
    · rename_i hempty
      rw [Bool.not_eq_true, Bool.not_eq_false'] at hempty
      exact ih hs (hmid.trans (ht.stop_eq (ht.missing hempty)).symm)

/-- Trees that open with a token are covered from their first token to their last one. -/
theorem HugsAll.cover_eq (h : HugsAll pos trees stop) (hopens : Opens trees) :
    cover trees pos = .hull pos (tokensAll trees) := by
  induction h with
  | nil => rfl
  | @cons pos mid stop t rest ht hrest ih =>
    rw [tokensAll]
    by_cases hempty : t.kind.isEmpty = true
    · have hnil := ht.missing hempty
      have hskip : cover (t :: rest) pos = cover rest pos := by simp [cover, hempty]
      have hmid := ht.stop_eq hnil
      subst hmid
      rw [hskip, hnil, List.nil_append]
      refine ih ?_
      rcases hopens with hne | rfl | ⟨-, hrestopens⟩
      · exact absurd hnil hne
      · trivial
      · exact hrestopens
    · have hcover : cover (t :: rest) pos = ⟨t.span.start, stop⟩ := by
        rw [cover, List.filter_cons_of_pos (by simp [hempty]), List.map_cons]
        exact hrest.foldl_merge ht.le_stop ht.stop
      rw [hcover]
      rcases hopens with hne | rfl | ⟨hmissing, -⟩
      · have hstop := (HugsAll.cons ht hrest).stop_eq
        rw [tokensAll] at hstop
        rw [ht.span, ← Span.hull_append_start pos hne (tokensAll rest), ← hstop]
      · cases hrest
        rw [tokensAll, List.append_nil, ← ht.span, ← ht.stop]
      · exact absurd hmissing hempty

/-- The node over trees whose span is that of their tokens. -/
theorem HugsAll.node (h : HugsAll pos trees stop) {span : Span}
    (hspan : span = .hull pos (tokensAll trees)) (kind : NodeKind κ) (hkind : kind ≠ .token)
    (hempty : kind.isEmpty = false) (captures : List (TreeCapture (ParseTree κ)))
    (hole : Option Hole) : Hugs pos ⟨kind, span, trees, captures, hole⟩ stop := by
  have htokens : (⟨kind, span, trees, captures, hole⟩ : ParseTree κ).tokens = tokensAll trees :=
    tokens_eq_tokensAll hkind
  obtain ⟨hstart, hle⟩ := h.bounds
  have hstop := h.stop_eq
  rw [← hspan] at hstart hle hstop
  rw [← htokens] at hspan
  refine ⟨hspan, hstop, hstart, hle.trans hstop.ge, fun hmissing => ?_, ?_⟩
  · cases hempty.symm.trans hmissing
  · exact .node pos hspan (fun h => absurd h hkind) h.tight

end Rows

end ParseTree

/-! ## Matchers that open with a token -/

namespace Matcher

variable (solid : κ → Bool)

/-- Whether what a matcher makes where it goes through is a missing part or reads something. -/
def shows : Matcher κ → Bool
  | sure => true
  | optional body => body.reads solid
  | m => m.reads solid

/-- Whether the first of some items that makes no missing part reads something. -/
def opens : List (Matcher κ) → Bool
  | [] => true
  | m :: rest => m.shows solid && (m.reads solid || opens rest)

mutual

/-- Whether every sequence in a matcher opens with something that is read, and every token is some
text. -/
def hugs : Matcher κ → Bool
  | literal text => !text.isEmpty
  | literals set => set.groups.all fun group => 0 < group.1
  | seq items => opens solid items && hugsAll items
  | any alternatives => hugsAll alternatives
  | list element separator _ => element.hugs && hugsOption separator
  | optional body | skip _ body => body.hugs
  | pattern .. | rule _ | ref _ | sure => true

/-- The same of the matchers of a list. -/
def hugsAll : List (Matcher κ) → Bool
  | [] => true
  | m :: rest => m.hugs && hugsAll rest

/-- The same of a matcher that may be missing. -/
def hugsOption : Option (Matcher κ) → Bool
  | none => true
  | some m => m.hugs

end

/-- A list of matchers opens with something that is read if each of them does. -/
theorem hugsAll_iff {solid : κ → Bool} {items : List (Matcher κ)} :
    hugsAll solid items = true ↔ ∀ m ∈ items, m.hugs solid = true := by
  induction items with
  | nil => simp [hugsAll]
  | cons m rest ih => simp [hugsAll, ih]

end Matcher

/-- Where a matcher goes through, its tree stands between the two cursors, if the sequences in it open
with something that is read. -/
structure HuggingRel (solid : κ → Bool) (sk : Skipper) (m : Matcher κ) (c : Cursor)
    (o : Outcome κ) : Prop where
  reading : ReadingRel solid sk m c o
  shows : m.shows solid = true → ∀ t, o.found = some t → t.hole = none →
    t.kind.isEmpty = true ∨ c.pos < o.stop.pos
  hugs : m.hugs solid = true → ∀ t, o.found = some t → t.hole = none → t.Hugs c.pos o.stop.pos

section Constructs

open ParseTree

variable {solid : κ → Bool} {sk : Skipper} {c : Cursor}

/-- A missing tree stands at its offset and covers nothing. -/
theorem hugs_missing (pos : Nat) : (missing pos : ParseTree κ).Hugs pos pos where
  span := rfl
  stop := rfl
  start_le := le_rfl
  le_stop := le_rfl
  missing _ := rfl
  tight := .node pos rfl nofun nofun

/-- A token that is some text. -/
theorem hugs_token {read : Cursor → Option Cursor}
    (hread : ∀ {c c'}, read c = some c' → c.pos < c'.pos) (t : ParseTree κ)
    (ht : (Outcome.token sk read c : Outcome κ).found = some t) :
    t.Hugs c.pos (Outcome.token sk read c : Outcome κ).stop.pos := by
  unfold Outcome.token at ht ⊢
  split at ht
  · cases ht
  · rename_i stop hstop
    cases ht
    have hlt := hread hstop
    exact ⟨rfl, rfl, (sk.skip_advances c).le, hlt.le, nofun,
      .node c.pos rfl (fun _ => ⟨rfl, hlt⟩) nofun⟩

/-- The parts of a sequence that goes through. -/
theorem hugsAll_items {describe : Matcher κ → String} {committed : Bool} {items : List (Matcher κ)}
    {r : SeqOutcome κ} (h : ItemsRel describe sk (HuggingRel solid sk) committed items c r)
    (hhugs : Matcher.hugsAll solid items = true) {parts : List (ParseTree κ × Bool)} {stop : Cursor}
    (hr : r = .ended parts none stop) :
    HugsAll c.pos (parts.map (·.1)) stop.pos ∧
      (Matcher.opens solid items = true → Opens (parts.map (·.1))) := by
  induction h generalizing parts with
  | done =>
    cases hr
    exact ⟨.nil, fun _ => trivial⟩
  | @cut _ item _ _ _ hsure _ ih =>
    rw [Matcher.hugsAll, Bool.and_eq_true] at hhugs
    obtain ⟨hall, hopens⟩ := ih hhugs.2 hr
    refine ⟨hall, fun h => hopens ?_⟩
    cases item with
    | sure => exact h
    | _ => cases hsure
  | refused | stuck | inside => cases hr
  | @next committed item items c t mid r _ hitem hwhole _ ih =>
    rw [Matcher.hugsAll, Bool.and_eq_true] at hhugs
    cases r with
    | refused => cases hr
    | ended rest hole stop' =>
      cases hr
      have ht := hitem.hugs hhugs.1 t rfl hwhole
      obtain ⟨hall, hopens⟩ := ih hhugs.2 rfl
      refine ⟨.cons ht hall, fun h => ?_⟩
      rw [Matcher.opens, Bool.and_eq_true, Bool.or_eq_true] at h
      obtain ⟨hshows, hreads | hrest⟩ := h
      · exact .inl (ht.tokens_ne_nil (hitem.reading.2 hreads t rfl hwhole))
      · rcases hitem.shows hshows t rfl hwhole with hempty | hlt
        · exact .inr (.inr ⟨hempty, hopens hrest⟩)
        · exact .inl (ht.tokens_ne_nil hlt)

/-- The node of a sequence that goes through. -/
theorem hugs_outcome {describe : Matcher κ → String} {items : List (Matcher κ)} {r : SeqOutcome κ}
    (h : ItemsRel describe sk (HuggingRel solid sk) false items c r)
    (hopens : Matcher.opens solid items = true) (hhugs : Matcher.hugsAll solid items = true)
    (kind : NodeKind κ) (hkind : kind ≠ .token) (hempty : kind.isEmpty = false) (t : ParseTree κ)
    (ht : (r.outcome kind c).found = some t) (hwhole : t.hole = none) :
    t.Hugs c.pos (r.outcome kind c).stop.pos := by
  cases r with
  | refused => cases ht
  | ended parts hole stop =>
    cases ht
    obtain rfl : hole = none := hwhole
    obtain ⟨hall, hopened⟩ := hugsAll_items h hhugs rfl
    exact hall.node (hall.cover_eq (hopened hopens)) kind hkind hempty _ _

/-- The alternative that goes through. -/
theorem hugs_choice {alternatives : List (Matcher κ)} {o : Outcome κ}
    (h : ChoiceRel (HuggingRel solid sk) c alternatives o)
    (hhugs : Matcher.hugsAll solid alternatives = true) (t : ParseTree κ) (ht : o.found = some t)
    (hwhole : t.hole = none) : t.Hugs c.pos o.stop.pos := by
  rcases h.chosen with rfl | ⟨m, hmem, hm⟩
  · cases ht
  · exact hm.hugs (Matcher.hugsAll_iff.1 hhugs m hmem) t ht hwhole

/-- The separator before an element, and what stands behind it. -/
theorem SeparatorRel.hugsAll_parts {separator : Option (Matcher κ)} {first : Bool} {here stop : Cursor}
    {before : Option (ParseTree κ)} {r : ListOutcome κ}
    (h : SeparatorRel (HuggingRel solid sk) separator first c before here)
    (hseparator : Matcher.hugsOption solid separator = true)
    (hr : HugsAll here.pos r.parts stop.pos) :
    HugsAll c.pos (ListOutcome.separator before r).parts stop.pos := by
  cases h with
  | absent => exact hr
  | present hm hwhole => exact .cons (hm.hugs hseparator _ rfl hwhole) hr

/-- The parts of a list that goes through. Only its last element may read nothing. -/
theorem hugsAll_elements {element : Matcher κ} {separator : Option (Matcher κ)} {first : Bool}
    {r : ListOutcome κ} (h : ElementsRel (HuggingRel solid sk) element separator first c r)
    (helement : element.hugs solid = true) (hseparator : Matcher.hugsOption solid separator = true)
    (hwhole : r.hole = none) :
    HugsAll c.pos r.parts r.stop.pos ∧ (first = true → Opens r.parts) := by
  induction h with
  | unseparated | ended => exact ⟨.nil, fun _ => trivial⟩
  | stuck => cases hwhole
  | @last first c before here t stop hsep ht _ =>
    rw [ListOutcome.separator_hole, ListOutcome.element_hole] at hwhole
    have hpart := ht.hugs helement t rfl hwhole
    rw [ListOutcome.separator_stop]
    refine ⟨hsep.hugsAll_parts hseparator (.cons hpart .nil), ?_⟩
    rintro rfl
    cases hsep
    exact .inr (.inl rfl)
  | @more first c before here t stop r hsep ht hmore _ ih =>
    rw [Bool.or_eq_false_iff, Option.isSome_eq_false_iff, Option.isNone_iff_eq_none] at hmore
    have hpart := ht.hugs helement t rfl hmore.1
    rw [ListOutcome.separator_hole, ListOutcome.element_hole] at hwhole
    obtain ⟨hall, -⟩ := ih hwhole
    rw [ListOutcome.separator_stop]
    refine ⟨hsep.hugsAll_parts hseparator (.cons hpart hall), ?_⟩
    rintro rfl
    cases hsep
    refine .inl fun hnil => ?_
    rw [hpart.stop_eq hnil, beq_self_eq_true] at hmore
    cases hmore.2

/-- What one layer makes is missing or reads something, where this can be seen from the shape. -/
theorem shows_layer [DecidableEq κ] [RuleName κ] {g : Grammar κ} {m : Matcher κ} {o : Outcome κ}
    (h : g.Layer (HuggingRel solid) sk m c o) (hreading : ReadingRel solid sk m c o)
    (hshows : m.shows solid = true) (t : ParseTree κ) (ht : o.found = some t)
    (hwhole : t.hole = none) : t.kind.isEmpty = true ∨ c.pos < o.stop.pos := by
  cases h with
  | @optional body _ o hbody =>
    unfold Outcome.orMissing at ht ⊢
    cases hfound : o.found with
    | none =>
      rw [hfound] at ht
      cases ht
      exact .inl rfl
    | some u =>
      rw [hfound] at ht
      exact .inr (hbody.reading.2 hshows t ht hwhole)
  | sure =>
    cases ht
    exact .inl rfl
  | _ => exact .inr (hreading.2 hshows t ht hwhole)

end Constructs

namespace Grammar

open ParseTree

/-- The sequences in the rules and the placeholders of a grammar open with something that is read;
`solid` says which rules read something. -/
structure Hugging [DecidableEq κ] (g : Grammar κ) (solid : κ → Bool) : Prop where
  reads : ∀ name rule, g.rule? name = some rule → solid name = true → rule.body.reads solid = true
  hugs : ∀ name rule, g.rule? name = some rule → rule.body.hugs solid = true
  refs : ∀ target ∈ g.refs, target.hugs solid = true

variable [DecidableEq κ] [RuleName κ] {g : Grammar κ} {solid : κ → Bool}

/-- One layer of a grammar whose sequences open with something that is read gives trees that stand between
the cursors. -/
theorem Hugging.closed (hg : g.Hugging solid) : g.Closed (HuggingRel solid) := by
  intro sk m c o h
  have hreading := closed_readingRel hg.reads sk m c o (h.mono fun h => h.reading)
  refine ⟨hreading, shows_layer h hreading, fun hhugs t ht hwhole => ?_⟩
  cases h with
  | literal =>
    refine hugs_token (fun h => readLiteral_lt h ?_) t ht
    rintro rfl
    cases hhugs
  | literals =>
    refine hugs_token (fun h => readLiterals_lt h fun group hgroup => ?_) t ht
    exact of_decide_eq_true (List.all_eq_true.1 hhugs group hgroup)
  | pattern => exact hugs_token TokenReader.readAt_lt t ht
  | seq hitems =>
    rw [Matcher.hugs, Bool.and_eq_true] at hhugs
    exact hugs_outcome hitems hhugs.1 hhugs.2 .group nofun rfl t ht hwhole
  | any hchoice => exact hugs_choice hchoice hhugs t ht hwhole
  | @list _ _ _ _ r helements =>
    rw [Matcher.hugs, Bool.and_eq_true] at hhugs
    unfold ListOutcome.outcome at ht ⊢
    split at ht
    · cases ht
    · rename_i hleast
      rw [if_neg hleast]
      cases ht
      obtain ⟨hall, hopens⟩ := hugsAll_elements helements hhugs.1 hhugs.2 hwhole
      exact hall.node (hall.cover_eq (hopens rfl)) .list nofun rfl _ _
  | @optional body _ o hbody =>
    unfold Outcome.orMissing at ht ⊢
    cases hfound : o.found with
    | none =>
      rw [hfound] at ht
      cases ht
      exact hugs_missing c.pos
    | some u =>
      rw [hfound] at ht
      exact hbody.hugs hhugs t ht hwhole
  | undefined | unset => cases ht
  | ruleSeq hrule hbody hitems =>
    have hbodyhugs := hg.hugs _ _ hrule
    rw [hbody, Matcher.hugs, Bool.and_eq_true] at hbodyhugs
    exact hugs_outcome hitems hbodyhugs.1 hbodyhugs.2 (.rule _) nofun rfl t ht hwhole
  | rule hrule _ hrel =>
    obtain ⟨u, hu, rfl⟩ := Option.map_eq_some_iff.1 ht
    have hpart := hrel.hugs (hg.hugs _ _ hrule) u hu hwhole
    refine (HugsAll.cons hpart .nil).node ?_ (.rule _) nofun rfl _ _
    rw [tokensAll_singleton]
    exact hpart.span
  | ref href htarget => exact htarget.hugs (hg.refs _ (List.mem_of_getElem? href)) t ht hwhole
  | sure =>
    cases ht
    exact hugs_missing c.pos
  | skip hbody => exact hbody.hugs hhugs t ht hwhole

/-- Every node of a parsed source covers the text from its first token to its last one. -/
theorem Hugging.parse_tight (hg : g.Hugging solid) {start : κ} {source : Source}
    {config : ParseConfig} {parsed : Parsed κ} (h : g.parse start source config = .ok parsed) :
    ∃ t, parsed.tree.nodes.treeAt? parsed.root = some t ∧ t.IsTight := by
  obtain ⟨-, t, stop, ht, hwhole, hrel, -⟩ := outcome_of_parse hg.closed h
  exact ⟨t, ht, (hrel.hugs rfl t rfl hwhole).tight⟩

/-- A list without elements in front of a token covers the gap before the token. -/
example : ((Grammar.mk [("Tail", ⟨1, .seq [.list (.lit ",") none 0, .lit "a"]⟩)] []).parse "Tail"
    (.ofText "tail" " a") {}).toOption.any
      (fun parsed => parsed.tree.nodes[parsed.root]?.any (·.span = ⟨0, 2⟩)) = true := by
  decide +kernel

end Grammar

/-- The value of a node covers the same text. -/
theorem Arena.span_of_treeAt? {nodes : Arena κ} {i : NodeId} {n : Node κ} {u : ParseTree κ}
    (hn : nodes[i]? = some n) (hu : nodes.treeAt? i = some u) : u.span = n.span := by
  rw [Arena.treeAt?_eq, hn, Option.bind_some] at hu
  simp only [Node.tree?, Option.bind_eq_bind, Option.bind_eq_some_iff, Option.pure_def,
    Option.some.injEq] at hu
  obtain ⟨children, -, captures, -, rfl⟩ := hu
  rfl

/-- The nodes below a tight one are tight, and their tokens are among those of the tight one. -/
theorem ParseTree.IsTight.under {nodes : Arena κ} {id i : NodeId} {t : ParseTree κ} (h : t.IsTight)
    (ht : nodes.treeAt? id = some t) (hi : nodes.Under id i) :
    ∃ u, nodes.treeAt? i = some u ∧ u.IsTight ∧ u.tokens ⊆ t.tokens := by
  induction hi with
  | refl => exact ⟨t, ht, h, List.Subset.refl _⟩
  | tail _ hstep ih =>
    obtain ⟨u, hu, htight, hsubset⟩ := ih
    obtain ⟨n, hn, hj⟩ := hstep
    obtain ⟨v, hv, hvtree⟩ := (Arena.node_of_treeAt? hn hu).2.2.1 _ hj
    exact ⟨v, hvtree, htight.child hv, List.Subset.trans (htight.tokens_subset hv) hsubset⟩

end ExpLang
