import ExpLang.Proofs.Matching.Reference

/-!
# One layer of a match

`Grammar.Layer g P` relates a matcher and a cursor to an outcome when the outcome follows by one
construct of the language of matchers from outcomes that `P` gives the parts. A relation that holds
of whatever one layer makes of it is closed. The outcomes of actual runs satisfy every closed
relation, so that a property of all matches is proved one construct at a time.

The relations on items, alternatives and elements take the relation on matchers as a parameter, as
the functions that run them take the runner.
-/

namespace ExpLang

variable {κ : Type}

/-- A relation between matchers at a cursor and what they make of the text there. -/
abbrev MatchRel (κ : Type) := Matcher κ → Cursor → Outcome κ → Prop

/-- What the items of a sequence can make of a text. -/
inductive ItemsRel (describe : Matcher κ → String) (sk : Skipper) (P : MatchRel κ) :
    Bool → List (Matcher κ) → Cursor → SeqOutcome κ → Prop
  /-- No items are left. -/
  | done {committed c} : ItemsRel describe sk P committed [] c (.ended [] none c)
  /-- The cut commits to what comes after it. -/
  | cut {committed item items c r} : item.isSure = true → ItemsRel describe sk P true items c r →
      ItemsRel describe sk P committed (item :: items) c r
  /-- An item before the cut does not apply. -/
  | refused {item items c} : item.isSure = false → P item c (.refused c) →
      ItemsRel describe sk P false (item :: items) c .refused
  /-- An item after the cut does not apply. -/
  | stuck {item items c} : item.isSure = false → P item c (.refused c) →
      ItemsRel describe sk P true (item :: items) c
        (.ended [] (some ⟨describe item, (sk.skip c).pos⟩) c)
  /-- An item has a hole in it. -/
  | inside {committed item items c t hole stop} : item.isSure = false → P item c ⟨some t, stop⟩ →
      t.hole = some hole → ItemsRel describe sk P committed (item :: items) c
        (.ended [(t, item.isStored)] (some hole) stop)
  /-- An item goes through. -/
  | next {committed item items c t stop r} : item.isSure = false → P item c ⟨some t, stop⟩ →
      t.hole = none → ItemsRel describe sk P committed items stop r →
      ItemsRel describe sk P committed (item :: items) c (r.cons (t, item.isStored))

/-- What alternatives can make of a text. -/
inductive ChoiceRel (P : MatchRel κ) (c : Cursor) : List (Matcher κ) → Outcome κ → Prop
  /-- No alternatives are left. -/
  | nil : ChoiceRel P c [] (.refused c)
  /-- An alternative goes through. -/
  | complete {m rest t stop} : P m c ⟨some t, stop⟩ → t.hole = none →
      ChoiceRel P c (m :: rest) ⟨some t, stop⟩
  /-- An alternative does not apply. -/
  | refused {m rest o} : P m c (.refused c) → ChoiceRel P c rest o → ChoiceRel P c (m :: rest) o
  /-- An alternative has a hole in it. -/
  | incomplete {m rest t hole stop o} : P m c ⟨some t, stop⟩ → t.hole = some hole →
      ChoiceRel P c rest o → ChoiceRel P c (m :: rest) (Outcome.orFurther ⟨some t, stop⟩ o)

/-- What alternatives make of a text is what one of them makes of it, if they do not all refuse. -/
theorem ChoiceRel.chosen {P : MatchRel κ} {c : Cursor} {alternatives : List (Matcher κ)}
    {o : Outcome κ} (h : ChoiceRel P c alternatives o) :
    o = .refused c ∨ ∃ m ∈ alternatives, P m c o := by
  have hlater {m : Matcher κ} {rest : List (Matcher κ)} {o : Outcome κ}
      (h : o = .refused c ∨ ∃ m ∈ rest, P m c o) : o = .refused c ∨ ∃ m' ∈ m :: rest, P m' c o :=
    h.imp_right fun ⟨m, hmem, hm⟩ => ⟨m, List.mem_cons_of_mem _ hmem, hm⟩
  induction h with
  | nil => exact .inl rfl
  | complete hm _ => exact .inr ⟨_, List.mem_cons_self, hm⟩
  | refused _ _ ih => exact hlater ih
  | incomplete hm _ _ ih =>
    unfold Outcome.orFurther
    split
    · exact hlater ih
    · exact .inr ⟨_, List.mem_cons_self, hm⟩

/-- What the separator before an element can make of a text. The first element has none. -/
inductive SeparatorRel (P : MatchRel κ) :
    Option (Matcher κ) → Bool → Cursor → Option (ParseTree κ) → Cursor → Prop
  /-- No separator is asked for. -/
  | absent {separator first c} : separator = none ∨ first = true →
      SeparatorRel P separator first c none c
  /-- The separator goes through. -/
  | present {m c t stop} : P m c ⟨some t, stop⟩ → t.hole = none →
      SeparatorRel P (some m) false c (some t) stop

/-- What the elements of a list can make of a text. -/
inductive ElementsRel (P : MatchRel κ) (element : Matcher κ) (separator : Option (Matcher κ)) :
    Bool → Cursor → ListOutcome κ → Prop
  /-- The separator does not apply. -/
  | unseparated {m c} : separator = some m → P m c (.refused c) →
      ElementsRel P element separator false c { stop := c }
  /-- The separator has a hole in it. -/
  | stuck {m c t hole stop} : separator = some m → P m c ⟨some t, stop⟩ → t.hole = some hole →
      ElementsRel P element separator false c
        (.separator (some t) { hole := some hole, stop := stop })
  /-- No element follows; a separator is given back. -/
  | ended {first c before here} : SeparatorRel P separator first c before here →
      P element here (.refused here) → ElementsRel P element separator first c { stop := c }
  /-- The element has a hole in it or reads nothing. -/
  | last {first c before here t stop} : SeparatorRel P separator first c before here →
      P element here ⟨some t, stop⟩ → (t.hole.isSome || stop.pos == c.pos) = true →
      ElementsRel P element separator first c
        (.separator before (.element t { hole := t.hole, stop := stop }))
  /-- The list goes on after the element. -/
  | more {first c before here t stop r} : SeparatorRel P separator first c before here →
      P element here ⟨some t, stop⟩ → (t.hole.isSome || stop.pos == c.pos) = false →
      ElementsRel P element separator false stop r →
      ElementsRel P element separator first c (.separator before (.element t r))

/-- A separator leaves where a list ends. -/
@[simp]
theorem ListOutcome.separator_stop (t : Option (ParseTree κ)) (r : ListOutcome κ) :
    (r.separator t).stop = r.stop := by
  cases t <;> rfl

/-- An element leaves where a list ends. -/
@[simp]
theorem ListOutcome.element_stop (t : ParseTree κ) (r : ListOutcome κ) :
    (r.element t).stop = r.stop := rfl

/-- A separator leaves the hole of a list. -/
@[simp]
theorem ListOutcome.separator_hole (t : Option (ParseTree κ)) (r : ListOutcome κ) :
    (r.separator t).hole = r.hole := by
  cases t <;> rfl

/-- An element leaves the hole of a list. -/
@[simp]
theorem ListOutcome.element_hole (t : ParseTree κ) (r : ListOutcome κ) :
    (r.element t).hole = r.hole := rfl

/-- There is a separator before each element but the first one of a list, so one element more with the
separator before it keeps the count. -/
theorem SeparatorRel.length_separators {P : MatchRel κ} {separator : Option (Matcher κ)}
    {first : Bool} {c here : Cursor} {before : Option (ParseTree κ)} {r : ListOutcome κ}
    (h : SeparatorRel P separator first c before here) (t : ParseTree κ)
    (hlength : r.separators.length = separator.elim 0 fun _ => r.elements.length) :
    (ListOutcome.separator before (.element t r)).separators.length =
      separator.elim 0 fun _ =>
        (ListOutcome.separator before (.element t r)).elements.length - first.toNat := by
  cases h with
  | absent habsent =>
    rcases habsent with rfl | rfl
    · exact hlength
    · cases separator with
      | none => exact hlength
      | some m => simpa [ListOutcome.separator, ListOutcome.element] using hlength
  | present => simpa [ListOutcome.separator, ListOutcome.element] using hlength

namespace Grammar

variable [DecidableEq κ] [RuleName κ]

/-- The outcomes of a matcher that follow by one construct from outcomes of its parts. -/
inductive Layer (g : Grammar κ) (P : Skipper → MatchRel κ) (sk : Skipper) : MatchRel κ
  | literal {text c} : Layer g P sk (.literal text) c (.token sk (readLiteral text) c)
  | literals {set c} : Layer g P sk (.literals set) c (.token sk (readLiterals set) c)
  | pattern {reader what c} :
      Layer g P sk (.pattern reader what) c (.token sk reader.readAt c)
  | seq {items c r} : ItemsRel g.describe sk (P sk) false items c r →
      Layer g P sk (.seq items) c (r.outcome .group c)
  | any {alternatives c o} : ChoiceRel (P sk) c alternatives o →
      Layer g P sk (.any alternatives) c o
  | list {element separator least c r} : ElementsRel (P sk) element separator true c r →
      Layer g P sk (.list element separator least) c (r.outcome least c)
  | optional {body c o} : P sk body c o → Layer g P sk (.optional body) c (o.orMissing c)
  | undefined {name c} : g.rule? name = none → Layer g P sk (.rule name) c (.refused c)
  | ruleSeq {name rule items c r} : g.rule? name = some rule → rule.body = .seq items →
      ItemsRel g.describe sk (P sk) false items c r →
      Layer g P sk (.rule name) c (r.outcome (.rule name) c)
  | rule {name rule c o} : g.rule? name = some rule → (∀ items, rule.body ≠ .seq items) →
      P sk rule.body c o → Layer g P sk (.rule name) c (o.ofRule name rule)
  | unset {index c} : g.refs[index]? = none → Layer g P sk (.ref index) c (.refused c)
  | ref {index target c o} : g.refs[index]? = some target → P sk target c o →
      Layer g P sk (.ref index) c o
  | sure {c} : Layer g P sk .sure c ⟨some (.missing c.pos), c⟩
  | skip {skipper body c o} : P skipper body c o → Layer g P sk (.skip skipper body) c o

/-- A relation holds of whatever one layer makes of it. -/
def Closed (g : Grammar κ) (P : Skipper → MatchRel κ) : Prop :=
  ∀ sk m c o, g.Layer P sk m c o → P sk m c o

end Grammar

end ExpLang
