import ExpLang.Proofs.Matching.Framing
import ExpLang.Proofs.Matching.Least

/-!
# Matchers that read something

`Matcher.reads` says of a matcher, from its shape, that it reads something whenever it goes through,
and `Matcher.leads` lists the rules that it can enter before anything is read. Rules refer to each
other, so which rules read something is given as a table. If the table is right about the body of
every rule, it is right about every match (`Grammar.closed_readingRel`).
-/

namespace ExpLang

open Cursor (Advances)

variable {κ : Type}

namespace Matcher

variable (solid : κ → Bool)

mutual

/-- Whether a matcher reads something where it goes through; `solid` says so of rules. -/
def reads : Matcher κ → Bool
  | literal text => !text.isEmpty
  | literals set => set.groups.all fun group => 0 < group.1
  | pattern _ _ => true
  | seq items => oneReads items
  | any alternatives => allRead alternatives
  | list element _ least => 0 < least && element.reads
  | rule name => solid name
  | skip _ body => body.reads
  | optional _ | ref _ | sure => false

/-- Whether one of the items of a sequence reads something. -/
def oneReads : List (Matcher κ) → Bool
  | [] => false
  | m :: rest => m.reads || oneReads rest

/-- Whether each of several alternatives reads something. -/
def allRead : List (Matcher κ) → Bool
  | [] => true
  | m :: rest => m.reads && allRead rest

end

/-- Alternatives read if each of them does. -/
theorem allRead_iff {solid : κ → Bool} {alternatives : List (Matcher κ)} :
    allRead solid alternatives = true ↔ ∀ m ∈ alternatives, m.reads solid = true := by
  induction alternatives with
  | nil => simp [allRead]
  | cons m rest ih => simp [allRead, ih]

mutual

/-- The rules that can be entered before anything is read. -/
def leads : Matcher κ → List κ
  | seq items => leadsItems items
  | any alternatives => leadsAll alternatives
  | list element _ _ => element.leads
  | optional body | skip _ body => body.leads
  | rule name => [name]
  | _ => []

/-- The rules that the items of a sequence can enter before anything is read. -/
def leadsItems : List (Matcher κ) → List κ
  | [] => []
  | m :: rest => m.leads ++ if m.reads solid then [] else leadsItems rest

/-- The rules that several alternatives can enter before anything is read. -/
def leadsAll : List (Matcher κ) → List κ
  | [] => []
  | m :: rest => m.leads ++ leadsAll rest

end

end Matcher

/-- What a matcher finds stands behind its cursor, and behind some text if the matcher reads
something and goes through. -/
def ReadingRel (solid : κ → Bool) (_ : Skipper) : MatchRel κ := fun m c o =>
  c.Advances o.stop ∧ (m.reads solid = true → ∀ t, o.found = some t → t.hole = none →
    c.pos < o.stop.pos)

section Constructs

variable {solid : κ → Bool} {sk : Skipper} {c : Cursor}

/-- A literal that is some text moves the cursor. -/
theorem readLiteral_lt {text : List Char} {c c' : Cursor} (h : readLiteral text c = some c')
    (htext : text ≠ []) : c.pos < c'.pos := by
  unfold readLiteral at h
  split at h
  · split at h
    · cases h
      exact Nat.lt_add_of_pos_right (Text.byteLength_pos htext)
    · cases h
  · cases h

/-- A set of literals that are some text moves the cursor. -/
theorem readLiterals_lt {set : Literals} {c c' : Cursor} (h : readLiterals set c = some c')
    (hset : ∀ group ∈ set.groups, 0 < group.1) : c.pos < c'.pos := by
  unfold readLiterals at h
  split at h
  · rename_i text htext
    cases h
    obtain ⟨group, hgroup, hprobe⟩ := List.exists_of_findSome?_eq_some htext
    simp only [Literals.probe, Option.bind_eq_bind, Option.bind_eq_some_iff] at hprobe
    obtain ⟨start, hstart, after, -, hchosen⟩ := hprobe
    split at hchosen
    · cases hchosen
      obtain ⟨rest, -, hsize⟩ := Text.takeBytes?_eq_some_iff.1 hstart
      have hpos := hset group hgroup
      simp only
      omega
    · cases hchosen
  · cases h

/-- A reader moves the cursor over the token that it reads. -/
theorem TokenReader.readAt_lt {reader : TokenReader} {c c' : Cursor}
    (h : reader.readAt c = some c') : c.pos < c'.pos := by
  obtain ⟨htoken, -, hpos⟩ := readAt_eq_some_iff.1 h
  rw [hpos]
  exact Nat.lt_add_of_pos_right (Text.byteLength_pos htoken)

/-- A token after the gap. -/
theorem token_lt {read : Cursor → Option Cursor}
    (hread : ∀ {c c'}, read c = some c' → c.pos < c'.pos) (t : ParseTree κ)
    (ht : (Outcome.token sk read c : Outcome κ).found = some t) :
    c.pos < (Outcome.token sk read c : Outcome κ).stop.pos := by
  unfold Outcome.token at ht ⊢
  split at ht
  · cases ht
  · exact (sk.skip_advances c).le.trans_lt (hread ‹_›)

/-- The items of a sequence that goes through. -/
theorem items_lt {describe : Matcher κ → String} {committed : Bool} {items : List (Matcher κ)}
    {r : SeqOutcome κ} (h : ItemsRel describe sk (ReadingRel solid sk) committed items c r)
    (hreads : Matcher.oneReads solid items = true) (kind : NodeKind κ) (start : Cursor)
    (t : ParseTree κ) (ht : (r.outcome kind start).found = some t) (hwhole : t.hole = none) :
    c.pos < (r.outcome kind start).stop.pos := by
  induction h generalizing t with
  | done => cases hreads
  | @cut _ item _ _ _ hsure _ ih =>
    rw [Matcher.oneReads, Bool.or_eq_true] at hreads
    refine ih (hreads.resolve_left fun hitem => ?_) t ht hwhole
    cases item <;> simp [Matcher.isSure, Matcher.reads] at hsure hitem
  | refused => cases ht
  | stuck | inside =>
    cases ht
    cases hwhole
  | @next _ item items _ u mid r _ hitem hhole hrest ih =>
    cases r with
    | refused => cases ht
    | ended parts hole stop =>
      cases ht
      have hafter : mid.Advances stop :=
        advances_items (hrest.mono fun h => h.1) kind mid (.refl mid)
      rw [Matcher.oneReads, Bool.or_eq_true] at hreads
      rcases hreads with hreads | hreads
      · exact (hitem.2 hreads u rfl hhole).trans_le hafter.le
      · exact hitem.1.le.trans_lt (ih hreads _ rfl hwhole)

/-- The chosen alternative. -/
theorem choice_lt {alternatives : List (Matcher κ)} {o : Outcome κ}
    (h : ChoiceRel (ReadingRel solid sk) c alternatives o)
    (hreads : Matcher.allRead solid alternatives = true) (t : ParseTree κ) (ht : o.found = some t)
    (hwhole : t.hole = none) : c.pos < o.stop.pos := by
  rcases h.chosen with rfl | ⟨m, hmem, hm⟩
  · cases ht
  · exact hm.2 (Matcher.allRead_iff.1 hreads m hmem) t ht hwhole

/-- A list that goes through with an element. -/
theorem elements_lt {element : Matcher κ} {separator : Option (Matcher κ)} {r : ListOutcome κ}
    (h : ElementsRel (ReadingRel solid sk) element separator true c r)
    (hreads : element.reads solid = true) (hwhole : r.hole = none) (hne : r.elements ≠ []) :
    c.pos < r.stop.pos := by
  cases h with
  | ended => exact absurd rfl hne
  | last hsep ht _ =>
    cases hsep
    exact ht.2 hreads _ rfl hwhole
  | more hsep ht hmore hrest =>
    cases hsep
    rw [Bool.or_eq_false_iff, Option.isSome_eq_false_iff, Option.isNone_iff_eq_none] at hmore
    have hadvancing : ElementsRel (AdvancingRel sk) element _ false _ _ := hrest.mono fun h => h.1
    have hafter := advances_elements hadvancing
    exact (ht.2 hreads _ rfl hmore.1).trans_le hafter.le

end Constructs

namespace Grammar

variable [DecidableEq κ] [RuleName κ] {g : Grammar κ} {solid : κ → Bool}

/-- If rules read something of which the table says so by their bodies, they do. -/
theorem closed_readingRel
    (hsolid : ∀ name rule, g.rule? name = some rule → solid name = true →
      rule.body.reads solid = true) : g.Closed (ReadingRel solid) := by
  intro sk m c o h
  refine ⟨g.closed_advancingRel sk m c o (h.mono fun h => h.1), fun hreads t ht hwhole => ?_⟩
  cases h with
  | literal =>
    refine token_lt (fun h => readLiteral_lt h ?_) t ht
    rintro rfl
    cases hreads
  | literals =>
    refine token_lt (fun h => readLiterals_lt h fun group hgroup => ?_) t ht
    exact of_decide_eq_true (List.all_eq_true.1 hreads group hgroup)
  | pattern => exact token_lt TokenReader.readAt_lt t ht
  | seq hitems => exact items_lt hitems hreads _ c t ht hwhole
  | any hchoice => exact choice_lt hchoice hreads t ht hwhole
  | @list _ _ _ _ r helements =>
    rw [Matcher.reads, Bool.and_eq_true, decide_eq_true_eq] at hreads
    unfold ListOutcome.outcome at ht ⊢
    split at ht
    · cases ht
    · rename_i hleast
      rw [if_neg hleast]
      cases ht
      have hhole : r.hole = none := hwhole
      refine elements_lt helements hreads.2 hhole fun hnil => hleast ?_
      rw [hhole, hnil]
      simpa using hreads.1
  | undefined | unset => cases ht
  | ruleSeq hrule hbody hitems =>
    have hitemsRead := hsolid _ _ hrule hreads
    rw [hbody] at hitemsRead
    exact items_lt hitems hitemsRead _ c t ht hwhole
  | rule hrule _ hrel =>
    obtain ⟨u, hu, rfl⟩ := Option.map_eq_some_iff.1 ht
    exact hrel.2 (hsolid _ _ hrule hreads) u hu hwhole
  | optional | ref | sure => cases hreads
  | skip hbody => exact hbody.2 hreads t ht hwhole

end Grammar

end ExpLang
