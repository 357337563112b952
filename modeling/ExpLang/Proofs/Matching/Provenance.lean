import ExpLang.Proofs.Matching.Run
import Mathlib.Data.List.Perm.Basic

/-!
# Which matcher made which tree

`Grammar.Makes` says of a tree that a matcher of a grammar can have made it, with one constructor for
each construct and down to the last child. Unlike the shapes of complete matches it covers trees with
a hole and children that nothing is kept of. A tree with a hole is the beginning of what the matcher
makes; that a tree has none says that every item of a sequence went through, that a list has its least
number of elements and a separator between each two of them, and that no child has a hole.

It is a closed relation on outcomes that holds of refusals, so it holds of whatever a run leaves, also
of one that spends its budget.
-/

namespace ExpLang

variable {κ : Type}

/-- Cuts are not stored. -/
theorem Matcher.countP_filter_isSure (items : List (Matcher κ)) :
    (items.filter (!·.isSure)).countP isStored = items.countP isStored := by
  rw [List.countP_filter]
  refine List.countP_congr fun m _ => ?_
  cases m <;> simp [isStored, isSure]

/-- The matchers that stand in a matcher. -/
def Matcher.parts : Matcher κ → List (Matcher κ)
  | seq items => items
  | any alternatives => alternatives
  | list element separator _ => element :: separator.toList
  | optional body | skip _ body => [body]
  | _ => []

/-- The matchers that a run from a rule can come to run. -/
inductive Grammar.Reaches [DecidableEq κ] (g : Grammar κ) : Matcher κ → Prop
  | start (name : κ) : Reaches g (.rule name)
  | body {name rule} : g.rule? name = some rule → Reaches g rule.body
  | target {index : Nat} {target} : g.refs[index]? = some target → Reaches g target
  | part {m m'} : Reaches g m → m' ∈ m.parts → Reaches g m'

/-- A tree is made of the trees of the first items of a sequence, each given with its item. -/
structure SeqShape (items : List (Matcher κ)) (parts : List (Matcher κ × ParseTree κ))
    (t : ParseTree κ) : Prop where
  begun : parts.map (·.1) <+: items.filter (!·.isSure)
  children : t.children = parts.map (·.2)
  captures : t.captures = (parts.filter (·.1.isStored)).map (·.2.capture)
  whole : t.hole = none →
    parts.map (·.1) = items.filter (!·.isSure) ∧ ∀ p ∈ parts, p.2.hole = none

/-- A tree is made of the elements of a list and the separators between them. -/
structure ListShape (separator : Option (Matcher κ)) (least : Nat)
    (elements separators : List (ParseTree κ)) (t : ParseTree κ) : Prop where
  children : t.children.Perm (elements ++ separators)
  captures : t.captures = [.list elements separators]
  bare : separator = none → separators = []
  whole : t.hole = none →
    least ≤ elements.length ∧
      separators.length = separator.elim 0 (fun _ => elements.length - 1) ∧
      ∀ u ∈ t.children, u.hole = none

/-- A matcher of a grammar can have made a tree. -/
inductive Grammar.Makes [DecidableEq κ] (g : Grammar κ) : Matcher κ → ParseTree κ → Prop
  | literal {text span} : Makes g (.literal text) (.token span)
  | literals {set span} : Makes g (.literals set) (.token span)
  | pattern {reader what span} : Makes g (.pattern reader what) (.token span)
  | seq {items parts t} : t.kind = .group → SeqShape items parts t →
      (∀ p ∈ parts, Makes g p.1 p.2) → Makes g (.seq items) t
  | any {alternatives m t} : m ∈ alternatives → Makes g m t → Makes g (.any alternatives) t
  | list {element separator least elements separators t} : t.kind = .list →
      ListShape separator least elements separators t → (∀ u ∈ elements, Makes g element u) →
      (∀ m, separator = some m → ∀ u ∈ separators, Makes g m u) →
      Makes g (.list element separator least) t
  | missing {body pos} : Makes g (.optional body) (.missing pos)
  | optional {body t} : Makes g body t → Makes g (.optional body) t
  | ruleSeq {name rule items parts t} : g.rule? name = some rule → rule.body = .seq items →
      t.kind = .rule name → SeqShape items parts t → (∀ p ∈ parts, Makes g p.1 p.2) →
      Makes g (.rule name) t
  | rule {name rule t} : g.rule? name = some rule → (∀ items, rule.body ≠ .seq items) →
      Makes g rule.body t →
      Makes g (.rule name)
        ⟨.rule name, t.span, [t], if rule.arity = 0 then [] else [t.capture], t.hole⟩
  | ref {index target t} : g.refs[index]? = some target → Makes g target t →
      Makes g (.ref index) t
  | sure {pos} : Makes g .sure (.missing pos)
  | skip {skipper body t} : Makes g body t → Makes g (.skip skipper body) t

/-- What a matcher finds it can have made. -/
def Grammar.MakesRel [DecidableEq κ] (g : Grammar κ) (_ : Skipper) : MatchRel κ := fun m _ o =>
  ∀ t, o.found = some t → g.Makes m t

section Constructs

variable [DecidableEq κ] {g : Grammar κ} {sk : Skipper} {c : Cursor}

/-- Tokens. -/
theorem makes_token {m : Matcher κ} {read : Cursor → Option Cursor}
    (h : ∀ span, g.Makes m (.token span)) : g.MakesRel sk m c (.token sk read c) := by
  intro t ht
  unfold Outcome.token at ht
  split at ht
  · cases ht
  · cases ht
    exact h _

/-- The parts of a sequence are made by its first items. -/
theorem ItemsRel.makes {describe : Matcher κ → String} {committed : Bool}
    {items : List (Matcher κ)} {r : SeqOutcome κ}
    (h : ItemsRel describe sk (g.MakesRel sk) committed items c r)
    {trees : List (ParseTree κ × Bool)} {hole : Option Hole} {stop : Cursor}
    (hr : r = .ended trees hole stop) :
    ∃ parts : List (Matcher κ × ParseTree κ), trees = parts.map (fun p => (p.2, p.1.isStored)) ∧
      parts.map (·.1) <+: items.filter (!·.isSure) ∧ (∀ p ∈ parts, g.Makes p.1 p.2) ∧
      (hole = none → parts.map (·.1) = items.filter (!·.isSure) ∧ ∀ p ∈ parts, p.2.hole = none) := by
  induction h generalizing trees hole stop with
  | done =>
    cases hr
    exact ⟨[], rfl, List.nil_prefix, nofun, fun _ => ⟨rfl, nofun⟩⟩
  | cut hsure _ ih =>
    rw [List.filter_cons_of_neg (by simp [hsure])]
    exact ih hr
  | refused => cases hr
  | stuck =>
    cases hr
    exact ⟨[], rfl, List.nil_prefix, nofun, nofun⟩
  | @inside _ item items c t hole stop hsure hitem hhole =>
    cases hr
    rw [List.filter_cons_of_pos (by simp [hsure])]
    refine ⟨[(item, t)], rfl, ?_, ?_, nofun⟩
    · exact List.prefix_cons_inj item |>.2 List.nil_prefix
    · simpa using hitem t rfl
  | @next committed item items c t stop' r hsure hitem hhole _ ih =>
    cases r with
    | refused => cases hr
    | ended rest hole' stop'' =>
      cases hr
      obtain ⟨parts, rfl, hbegun, hmakes, hwhole⟩ := ih rfl
      rw [List.filter_cons_of_pos (by simp [hsure])]
      refine ⟨(item, t) :: parts, rfl, (List.prefix_cons_inj item).2 hbegun, ?_, fun hnone => ?_⟩
      · intro p hp
        rcases List.mem_cons.1 hp with rfl | hp
        · exact hitem t rfl
        · exact hmakes p hp
      · obtain ⟨hitems, hholes⟩ := hwhole hnone
        refine ⟨by simp [hitems], fun p hp => ?_⟩
        rcases List.mem_cons.1 hp with rfl | hp
        · exact hhole
        · exact hholes p hp

/-- The tree of a sequence is made of the trees of its first items. -/
theorem ItemsRel.makes_outcome {describe : Matcher κ → String} {items : List (Matcher κ)}
    {r : SeqOutcome κ} (h : ItemsRel describe sk (g.MakesRel sk) false items c r)
    (kind : NodeKind κ) {t : ParseTree κ} (ht : (r.outcome kind c).found = some t) :
    ∃ parts, t.kind = kind ∧ SeqShape items parts t ∧ ∀ p ∈ parts, g.Makes p.1 p.2 := by
  cases r with
  | refused => cases ht
  | ended trees hole stop =>
    cases ht
    obtain ⟨parts, rfl, hbegun, hmakes, hwhole⟩ := h.makes rfl
    refine ⟨parts, rfl, ⟨hbegun, by simp, ?_, hwhole⟩, hmakes⟩
    simp [List.filter_map, Function.comp_def]

/-- The chosen alternative made the tree. -/
theorem ChoiceRel.makes {alternatives : List (Matcher κ)} {o : Outcome κ}
    (h : ChoiceRel (g.MakesRel sk) c alternatives o) {t : ParseTree κ} (ht : o.found = some t) :
    ∃ m ∈ alternatives, g.Makes m t := by
  rcases h.chosen with rfl | ⟨m, hmem, hm⟩
  · cases ht
  · exact ⟨m, hmem, hm t ht⟩

/-- What the elements and separators of a list are from some element on. There is a separator before
each element but the first one of the list. -/
structure MadeList (g : Grammar κ) (element : Matcher κ) (separator : Option (Matcher κ))
    (first : Bool) (r : ListOutcome κ) : Prop where
  parts : r.parts.Perm (r.elements ++ r.separators)
  elements : ∀ u ∈ r.elements, g.Makes element u
  separators : ∀ m, separator = some m → ∀ u ∈ r.separators, g.Makes m u
  bare : separator = none → r.separators = []
  whole : r.hole = none →
    r.separators.length = separator.elim 0 (fun _ => r.elements.length - first.toNat) ∧
      ∀ u ∈ r.parts, u.hole = none

namespace MadeList

variable {element : Matcher κ} {separator : Option (Matcher κ)} {first : Bool}
  {r : ListOutcome κ} {before : Option (ParseTree κ)} {here : Cursor} {t : ParseTree κ}

/-- No further elements. -/
theorem nil (c : Cursor) (first : Bool) : MadeList g element separator first { stop := c } where
  parts := .refl _
  elements := nofun
  separators := nofun
  bare _ := rfl
  whole _ := ⟨by cases separator <;> simp, nofun⟩

/-- One more element, with the separator before it. It has a hole only if the list has one. -/
theorem cons (h : MadeList g element separator false r)
    (hsep : SeparatorRel (g.MakesRel sk) separator first c before here)
    (ht : g.Makes element t) (hhole : r.hole = none → t.hole = none) :
    MadeList g element separator first (.separator before (.element t r)) := by
  have helements : ∀ u ∈ t :: r.elements, g.Makes element u := by
    intro u hu
    rcases List.mem_cons.1 hu with rfl | hu
    · exact ht
    · exact h.elements u hu
  have hholes (hnone : r.hole = none) : ∀ u ∈ t :: r.parts, u.hole = none := by
    intro u hu
    rcases List.mem_cons.1 hu with rfl | hu
    · exact hhole hnone
    · exact (h.whole hnone).2 u hu
  have hlength (hnone : r.hole = none) := hsep.length_separators t (h.whole hnone).1
  cases hsep with
  | absent habsent =>
    exact ⟨h.parts.cons t, helements, h.separators, h.bare, fun hnone => ⟨hlength hnone, hholes hnone⟩⟩
  | @present m _ sep _ hm hwhole =>
    refine ⟨?_, helements, ?_, nofun, fun hnone => ⟨hlength hnone, ?_⟩⟩
    · change (sep :: t :: r.parts).Perm ((t :: r.elements) ++ sep :: r.separators)
      exact ((h.parts.cons t).cons sep).trans
        (@List.perm_middle _ sep (t :: r.elements) r.separators).symm
    · intro m' hm' u hu
      cases hm'
      rcases List.mem_cons.1 hu with rfl | hu
      · exact hm u rfl
      · exact h.separators m rfl u hu
    · intro u hu
      rcases List.mem_cons.1 hu with rfl | hu
      · exact hwhole
      · exact hholes hnone u hu

end MadeList

/-- The elements and separators of a list. -/
theorem ElementsRel.makes {element : Matcher κ} {separator : Option (Matcher κ)} {first : Bool}
    {r : ListOutcome κ} (h : ElementsRel (g.MakesRel sk) element separator first c r) :
    MadeList g element separator first r := by
  induction h with
  | unseparated | ended => exact .nil _ _
  | @stuck m c t hole stop hsep hm hhole =>
    subst hsep
    exact ⟨.refl _, nofun, fun m' hm' u hu => by
      cases hm'
      rw [List.mem_singleton.1 hu]
      exact hm t rfl, nofun, nofun⟩
  | @last first c before here t stop hsep hm _ =>
    -- A list that ends in a hole keeps the hole of its last element.
    have hlast : MadeList g element separator false { hole := t.hole, stop := stop } :=
      ⟨.refl _, nofun, nofun, fun _ => rfl, fun _ => ⟨by cases separator <;> simp, nofun⟩⟩
    exact hlast.cons hsep (hm t rfl) id
  | more hsep hm hmore _ ih =>
    rw [Bool.or_eq_false_iff, Option.isSome_eq_false_iff, Option.isNone_iff_eq_none] at hmore
    exact ih.cons hsep (hm _ rfl) fun _ => hmore.1

end Constructs

namespace Grammar

variable [DecidableEq κ]

/-- Whatever a matcher finds it can have made. -/
theorem closed_makesRel [RuleName κ] (g : Grammar κ) : g.Closed g.MakesRel := by
  intro sk m c o h
  cases h with
  | literal => exact makes_token fun _ => .literal
  | literals => exact makes_token fun _ => .literals
  | pattern => exact makes_token fun _ => .pattern
  | seq hitems =>
    intro t ht
    obtain ⟨parts, hkind, hshape, hparts⟩ := hitems.makes_outcome _ ht
    exact .seq hkind hshape hparts
  | any hchoice =>
    intro t ht
    obtain ⟨m, hmem, hmakes⟩ := hchoice.makes ht
    exact .any hmem hmakes
  | @list element separator least c r helements =>
    intro t ht
    have hlist := helements.makes
    unfold ListOutcome.outcome at ht
    split at ht
    · cases ht
    · rename_i hleast
      cases ht
      refine .list rfl ⟨hlist.parts, rfl, hlist.bare, fun hnone => ?_⟩ hlist.elements
        hlist.separators
      change r.hole = none at hnone
      obtain ⟨hlength, hholes⟩ := hlist.whole hnone
      rw [hnone, Option.isNone_none, Bool.true_and, decide_eq_true_eq, not_lt] at hleast
      exact ⟨hleast, hlength, hholes⟩
  | @optional body c o hbody =>
    intro t ht
    unfold Outcome.orMissing at ht
    split at ht
    · cases ht
      exact .missing
    · exact .optional (hbody t ht)
  | undefined | unset =>
    intro t ht
    cases ht
  | ruleSeq hrule hbody hitems =>
    intro t ht
    obtain ⟨parts, hkind, hshape, hparts⟩ := hitems.makes_outcome _ ht
    exact .ruleSeq hrule hbody hkind hshape hparts
  | rule hrule hbody hrel =>
    intro t ht
    obtain ⟨u, hu, rfl⟩ := Option.map_eq_some_iff.1 ht
    exact .rule hrule hbody (hrel u hu)
  | ref href htarget => exact fun t ht => .ref href (htarget t ht)
  | sure =>
    intro t ht
    cases ht
    exact .sure
  | skip hbody => exact fun t ht => .skip (hbody t ht)

namespace Makes

variable {g : Grammar κ} {m : Matcher κ} {t : ParseTree κ}

/-- Every child is made by a matcher that a run can come to run. -/
theorem child (h : g.Makes m t) (hm : g.Reaches m) :
    ∀ u ∈ t.children, ∃ m', g.Reaches m' ∧ g.Makes m' u := by
  have hseq {items : List (Matcher κ)} {parts : List (Matcher κ × ParseTree κ)} {t : ParseTree κ}
      (hshape : SeqShape items parts t) (hparts : ∀ p ∈ parts, g.Makes p.1 p.2)
      (hitems : g.Reaches (.seq items)) : ∀ u ∈ t.children, ∃ m', g.Reaches m' ∧ g.Makes m' u := by
    intro u hu
    rw [hshape.children] at hu
    obtain ⟨p, hp, rfl⟩ := List.mem_map.1 hu
    have hitem := List.mem_of_mem_filter (hshape.begun.subset (List.mem_map_of_mem hp))
    exact ⟨p.1, hitems.part hitem, hparts p hp⟩
  induction h with
  | literal | literals | pattern | missing | sure => exact nofun
  | seq _ hshape hparts => exact hseq hshape hparts hm
  | any hmem _ ih => exact ih (hm.part hmem)
  | optional _ ih | skip _ ih => exact ih (hm.part (List.mem_singleton_self _))
  | ref htarget _ ih => exact ih (.target htarget)
  | @list element separator _ elements separators t _ hshape helements hseparators =>
    intro u hu
    rcases List.mem_append.1 (hshape.children.mem_iff.1 hu) with hu | hu
    · exact ⟨element, hm.part List.mem_cons_self, helements u hu⟩
    · cases separator with
      | none =>
        rw [hshape.bare rfl] at hu
        cases hu
      | some m =>
        exact ⟨m, hm.part (List.mem_cons_of_mem _ (List.mem_singleton_self _)),
          hseparators m rfl u hu⟩
  | ruleSeq hrule hbody _ hshape hparts => exact hseq hshape hparts (hbody ▸ .body hrule)
  | rule hrule _ hbody =>
    intro u hu
    rw [List.mem_singleton.1 hu]
    exact ⟨_, .body hrule, hbody⟩

/-- A tree without a hole has only children without one. -/
theorem child_complete (h : g.Makes m t) (hhole : t.hole = none) :
    ∀ u ∈ t.children, u.hole = none := by
  have hseq {items : List (Matcher κ)} {parts : List (Matcher κ × ParseTree κ)} {t : ParseTree κ}
      (hshape : SeqShape items parts t) (hhole : t.hole = none) : ∀ u ∈ t.children, u.hole = none := by
    intro u hu
    rw [hshape.children] at hu
    obtain ⟨p, hp, rfl⟩ := List.mem_map.1 hu
    exact (hshape.whole hhole).2 p hp
  induction h with
  | literal | literals | pattern | missing | sure => exact nofun
  | seq _ hshape => exact hseq hshape hhole
  | any _ _ ih | optional _ ih | ref _ _ ih | skip _ ih => exact ih hhole
  | list _ hshape => exact (hshape.whole hhole).2.2
  | ruleSeq _ _ _ hshape => exact hseq hshape hhole
  | rule =>
    intro u hu
    rw [List.mem_singleton.1 hu]
    exact hhole

/-- The tree of a rule without a hole keeps as many parts as the body of the rule has captures. -/
theorem captures_length (h : g.Makes m t) (hhole : t.hole = none) {name : κ}
    (hkind : t.kind = .rule name) :
    ∃ rule, g.rule? name = some rule ∧
      (rule.body.arity = rule.arity → t.captures.length = rule.arity) := by
  induction h with
  | literal | literals | pattern | missing | sure => cases hkind
  | seq hgroup | list hgroup =>
    rw [hgroup] at hkind
    cases hkind
  | any _ _ ih | optional _ ih | ref _ _ ih | skip _ ih => exact ih hhole hkind
  | @ruleSeq name' rule items parts t hrule hbody hkind' hshape =>
    rw [hkind'] at hkind
    cases hkind
    refine ⟨rule, hrule, fun harity => ?_⟩
    rw [← harity, hbody, hshape.captures, List.length_map, Matcher.arity,
      ← Matcher.countP_filter_isSure items, ← (hshape.whole hhole).1, List.countP_map,
      List.countP_eq_length_filter]
    rfl
  | @rule name' rule t hrule hbody =>
    cases hkind
    refine ⟨rule, hrule, fun harity => ?_⟩
    have hle : rule.body.arity ≤ 1 := by
      cases hm : rule.body with
      | seq items => exact absurd hm (hbody items)
      | _ => simp [Matcher.arity]
    by_cases hzero : rule.arity = 0
    · simp [hzero]
    · simp only [hzero, if_false, List.length_singleton]
      omega

end Makes

end Grammar

end ExpLang
