import ExpLang.Proofs.Matching.Tiling

/-!
# Shapes of complete matches

What a tree without a hole looks like follows from the matcher that made it: a sequence keeps what
its stored items keep, a choice is the tree of an alternative, a list keeps its elements and the
separators between them, and the node of a rule is made from its body. `Grammar.Fits` says so of a
tree and a matcher, with one constructor for each construct. It is a closed relation on outcomes, so
the root of every parse fits the start rule, whatever the grammar, the source and the budget.

Trees with a hole have no shape of this kind: a list that stopped after a separator keeps as many
separators as elements.
-/

namespace ExpLang

variable {κ : Type}

/-- A complete tree is one that a matcher can make. Of the text only the tokens of a set matter:
each is a member of the set. -/
inductive Grammar.Fits [DecidableEq κ] (g : Grammar κ) (source : Source) :
    Matcher κ → ParseTree κ → Prop
  | literal {text span} : Fits g source (.literal text) (.token span)
  | literals {set text span} : text ∈ set.toList → source.slice? span = some text →
      Fits g source (.literals set) (.token span)
  | pattern {reader what span} : Fits g source (.pattern reader what) (.token span)
  | seq {items parts span children} :
      List.Forall₂ (Fits g source) (items.filter Matcher.isStored) parts →
      Fits g source (.seq items) ⟨.group, span, children, parts.map ParseTree.capture, none⟩
  | any {alternatives m t} : m ∈ alternatives → Fits g source m t →
      Fits g source (.any alternatives) t
  | list {element separator least elements separators span children} :
      (∀ t ∈ elements, Fits g source element t) →
      (∀ t ∈ separators, ∀ m, separator = some m → Fits g source m t) →
      least ≤ elements.length →
      separators.length = separator.elim 0 (fun _ => elements.length - 1) →
      Fits g source (.list element separator least)
        ⟨.list, span, children, [.list elements separators], none⟩
  | missing {body pos} : Fits g source (.optional body) (.missing pos)
  | optional {body t} : Fits g source body t → Fits g source (.optional body) t
  | ruleSeq {name rule items parts span children} : g.rule? name = some rule →
      rule.body = .seq items →
      List.Forall₂ (Fits g source) (items.filter Matcher.isStored) parts →
      Fits g source (.rule name) ⟨.rule name, span, children, parts.map ParseTree.capture, none⟩
  | rule {name rule t} : g.rule? name = some rule → (∀ items, rule.body ≠ .seq items) →
      Fits g source rule.body t →
      Fits g source (.rule name)
        ⟨.rule name, t.span, [t], if rule.arity = 0 then [] else [t.capture], none⟩
  | ref {index target t} : g.refs[index]? = some target → Fits g source target t →
      Fits g source (.ref index) t
  | sure {pos} : Fits g source .sure (.missing pos)
  | skip {skipper body t} : Fits g source body t → Fits g source (.skip skipper body) t

/-- What a matcher reads completely at a cursor of the source fits it, and the source goes on after
it. -/
def Grammar.ShapeRel [DecidableEq κ] (g : Grammar κ) (source : Source) (_ : Skipper) :
    MatchRel κ := fun m c o =>
  source.start.Advances c → ∀ t, o.found = some t → t.hole = none →
    source.start.Advances o.stop ∧ g.Fits source m t

section Tokens

variable {source : Source} {c c' : Cursor} {text : List Char}

/-- A token of a set is a member of the set. -/
theorem readLiterals_mem {set : Literals} (h : readLiterals set c = some c') :
    ∃ text ∈ set.toList, c.rest = text ++ c'.rest := by
  unfold readLiterals at h
  split at h
  · rename_i text htext
    cases h
    obtain ⟨rest, hrest⟩ := Literals.longest?_isPrefix htext
    refine ⟨text, ?_, by simp [hrest]⟩
    obtain ⟨group, hgroup, hprobe⟩ := List.exists_of_findSome?_eq_some htext
    simp only [Literals.probe, Option.bind_eq_bind, Option.bind_eq_some_iff] at hprobe
    obtain ⟨start, -, after, -, hchosen⟩ := hprobe
    split at hchosen
    · rename_i hcontains
      cases hchosen
      rw [Bool.and_eq_true, List.contains_iff_mem] at hcontains
      exact List.mem_flatMap.2 ⟨group, hgroup, hcontains.1⟩
    · cases hchosen
  · cases h

/-- The text of a token is what was read. -/
theorem Source.slice?_of_rest (h : source.start.Advances c) (hc : c.Advances c')
    (hrest : c.rest = text ++ c'.rest) : source.slice? ⟨c.pos, c'.pos⟩ = some text := by
  obtain ⟨text', hslice, hrest'⟩ := Source.slice?_of_advances h hc
  rw [hrest] at hrest'
  rw [hslice, List.append_cancel_right hrest']

end Tokens

section Constructs

variable [DecidableEq κ] {g : Grammar κ} {source : Source} {sk : Skipper} {c : Cursor}

/-- A token fits its matcher if reading it at a cursor of the source says so. -/
theorem shape_token {m : Matcher κ} {read : Cursor → Option Cursor}
    (hread : ∀ {c c'}, read c = some c' → c.Advances c')
    (hfits : ∀ {c c'}, source.start.Advances c → read c = some c' →
      g.Fits source m (.token ⟨c.pos, c'.pos⟩)) :
    g.ShapeRel source sk m c (.token sk read c) := by
  intro hc t ht _
  have hstart := hc.trans (sk.skip_advances c)
  unfold Outcome.token at ht ⊢
  split at ht
  · cases ht
  · rename_i stop hstop
    cases ht
    exact ⟨hstart.trans (hread hstop), hfits hstart hstop⟩

/-- The stored parts of a sequence fit the stored items. -/
theorem ItemsRel.fits {describe : Matcher κ → String} {committed : Bool}
    {items : List (Matcher κ)} {r : SeqOutcome κ}
    (h : ItemsRel describe sk (g.ShapeRel source sk) committed items c r)
    (hc : source.start.Advances c) {parts : List (ParseTree κ × Bool)} {stop : Cursor}
    (hr : r = .ended parts none stop) :
    source.start.Advances stop ∧ List.Forall₂ (g.Fits source) (items.filter Matcher.isStored)
      ((parts.filter (·.2)).map (·.1)) := by
  induction h generalizing parts stop with
  | done =>
    cases hr
    exact ⟨hc, .nil⟩
  | @cut _ item items _ _ hsure _ ih =>
    cases item with
    | sure => exact ih hc hr
    | _ => cases hsure
  | refused | stuck => cases hr
  | inside => cases hr
  | @next committed item items c t stop' r _ hitem hhole _ ih =>
    obtain ⟨hstop, hfits⟩ := hitem hc t rfl hhole
    cases r with
    | refused => cases hr
    | ended rest hole stop'' =>
      cases hr
      obtain ⟨hend, hrest⟩ := ih hstop rfl
      refine ⟨hend, ?_⟩
      cases hstored : item.isStored with
      | true =>
        rw [List.filter_cons_of_pos hstored, List.filter_cons_of_pos rfl]
        exact .cons hfits hrest
      | false =>
        rw [List.filter_cons_of_neg (by simp [hstored]), List.filter_cons_of_neg (by simp)]
        exact hrest

/-- The complete tree of a sequence keeps what its stored parts keep. -/
theorem ItemsRel.fits_outcome {describe : Matcher κ → String} {items : List (Matcher κ)}
    {r : SeqOutcome κ} (h : ItemsRel describe sk (g.ShapeRel source sk) false items c r)
    (hc : source.start.Advances c) (kind : NodeKind κ) {t : ParseTree κ}
    (ht : (r.outcome kind c).found = some t) (hhole : t.hole = none) :
    source.start.Advances (r.outcome kind c).stop ∧ ∃ parts span children,
      List.Forall₂ (g.Fits source) (items.filter Matcher.isStored) parts ∧
        t = ⟨kind, span, children, parts.map ParseTree.capture, none⟩ := by
  cases r with
  | refused => cases ht
  | ended parts hole stop =>
    cases ht
    cases hhole
    obtain ⟨hstop, hparts⟩ := h.fits hc rfl
    exact ⟨hstop, _, _, _, hparts, by rw [List.map_map]; rfl⟩

/-- A complete choice is the tree of one of its alternatives. -/
theorem ChoiceRel.fits {alternatives : List (Matcher κ)} {o : Outcome κ}
    (h : ChoiceRel (g.ShapeRel source sk) c alternatives o) (hc : source.start.Advances c)
    {t : ParseTree κ} (ht : o.found = some t) (hhole : t.hole = none) :
    source.start.Advances o.stop ∧ ∃ m ∈ alternatives, g.Fits source m t := by
  rcases h.chosen with rfl | ⟨m, hmem, hm⟩
  · cases ht
  · obtain ⟨hstop, hfits⟩ := hm hc t ht hhole
    exact ⟨hstop, m, hmem, hfits⟩

/-- The elements and separators that a complete list keeps from some element on. There is a separator
before each element but the first one of the list. -/
structure FitsList (g : Grammar κ) (source : Source) (element : Matcher κ)
    (separator : Option (Matcher κ)) (first : Bool) (r : ListOutcome κ) : Prop where
  stop : source.start.Advances r.stop
  elements : ∀ t ∈ r.elements, g.Fits source element t
  separators : ∀ t ∈ r.separators, ∀ m, separator = some m → g.Fits source m t
  length : r.separators.length = separator.elim 0 fun _ => r.elements.length - first.toNat

namespace FitsList

variable {element : Matcher κ} {separator : Option (Matcher κ)} {first : Bool}
  {r : ListOutcome κ} {before : Option (ParseTree κ)} {here : Cursor} {t : ParseTree κ}

/-- No further elements. -/
theorem nil (hc : source.start.Advances c) :
    FitsList g source element separator first { stop := c } where
  stop := hc
  elements := fun _ h => absurd h List.not_mem_nil
  separators := fun _ h => absurd h List.not_mem_nil
  length := by cases separator <;> simp

/-- One more element, with the separator before it. -/
theorem cons (h : FitsList g source element separator false r)
    (hsep : SeparatorRel (g.ShapeRel source sk) separator first c before here)
    (hc : source.start.Advances c) (ht : g.Fits source element t) :
    FitsList g source element separator first (.separator before (.element t r)) := by
  have hlength := hsep.length_separators t h.length
  have helements : ∀ u ∈ t :: r.elements, g.Fits source element u := by
    intro u hu
    rcases List.mem_cons.1 hu with rfl | hu
    · exact ht
    · exact h.elements u hu
  cases hsep with
  | absent => exact ⟨h.stop, helements, h.separators, hlength⟩
  | @present m _ sep _ hm hhole =>
    refine ⟨h.stop, helements, fun u hu m' hm' => ?_, hlength⟩
    cases hm'
    rcases List.mem_cons.1 hu with rfl | hu
    · exact (hm hc u rfl hhole).2
    · exact h.separators u hu m rfl

end FitsList

/-- The source goes on after a separator. -/
theorem SeparatorRel.advances {separator : Option (Matcher κ)} {first : Bool} {here : Cursor}
    {before : Option (ParseTree κ)}
    (h : SeparatorRel (g.ShapeRel source sk) separator first c before here)
    (hc : source.start.Advances c) : source.start.Advances here := by
  cases h with
  | absent => exact hc
  | present hm hhole => exact (hm hc _ rfl hhole).1

/-- The elements and separators of a complete list fit. -/
theorem ElementsRel.fits {element : Matcher κ} {separator : Option (Matcher κ)} {first : Bool}
    {r : ListOutcome κ} (h : ElementsRel (g.ShapeRel source sk) element separator first c r)
    (hc : source.start.Advances c) (hhole : r.hole = none) :
    FitsList g source element separator first r := by
  induction h with
  | unseparated | ended => exact .nil hc
  | stuck => cases hhole
  | @last first c before here t stop hsep hm _ =>
    have hcomplete : t.hole = none := by cases before <;> exact hhole
    obtain ⟨hstop, hfits⟩ := hm (hsep.advances hc) t rfl hcomplete
    rw [hcomplete]
    exact (FitsList.nil hstop).cons hsep hc hfits
  | @more first c before here t stop r hsep hm hmore _ ih =>
    rw [Bool.or_eq_false_iff, Option.isSome_eq_false_iff, Option.isNone_iff_eq_none] at hmore
    have hcomplete : r.hole = none := by cases before <;> exact hhole
    obtain ⟨hstop, hfits⟩ := hm (hsep.advances hc) t rfl hmore.1
    exact (ih hstop hcomplete).cons hsep hc hfits

end Constructs

namespace Grammar

variable [DecidableEq κ] [RuleName κ] {source : Source}

/-- What is read completely fits its matcher. -/
theorem closed_shapeRel (g : Grammar κ) (source : Source) : g.Closed (g.ShapeRel source) := by
  intro sk m c o h
  cases h with
  | literal => exact shape_token readLiteral_advances fun _ _ => .literal
  | literals =>
    refine shape_token readLiterals_advances fun hc hread => ?_
    obtain ⟨text, hmem, hrest⟩ := readLiterals_mem hread
    exact .literals hmem (Source.slice?_of_rest hc (readLiterals_advances hread) hrest)
  | pattern => exact shape_token TokenReader.readAt_advances fun _ _ => .pattern
  | seq hitems =>
    intro hc t ht hhole
    obtain ⟨hstop, parts, span, children, hparts, rfl⟩ := hitems.fits_outcome hc _ ht hhole
    exact ⟨hstop, .seq hparts⟩
  | any hchoice =>
    intro hc t ht hhole
    obtain ⟨hstop, m, hmem, hfits⟩ := hchoice.fits hc ht hhole
    exact ⟨hstop, .any hmem hfits⟩
  | @list element separator least c r helements =>
    intro hc t ht hhole
    unfold ListOutcome.outcome at ht ⊢
    split at ht
    · cases ht
    · rename_i hleast
      rw [if_neg hleast]
      cases ht
      change r.hole = none at hhole
      have hlist := helements.fits hc hhole
      rw [Bool.and_eq_true, decide_eq_true_eq, not_and, not_lt, hhole] at hleast
      rw [hhole]
      exact ⟨hlist.stop, .list hlist.elements hlist.separators (hleast rfl) hlist.length⟩
  | @optional body c o hbody =>
    intro hc t ht hhole
    unfold Outcome.orMissing at ht ⊢
    cases hfound : o.found with
    | none =>
      rw [hfound] at ht
      cases ht
      exact ⟨hc, .missing⟩
    | some u =>
      rw [hfound] at ht
      obtain ⟨hstop, hfits⟩ := hbody hc t ht hhole
      exact ⟨hstop, .optional hfits⟩
  | undefined | unset =>
    intro _ t ht
    cases ht
  | ruleSeq hrule hbody hitems =>
    intro hc t ht hhole
    obtain ⟨hstop, parts, span, children, hparts, rfl⟩ := hitems.fits_outcome hc _ ht hhole
    exact ⟨hstop, .ruleSeq hrule hbody hparts⟩
  | rule hrule hbody hrel =>
    intro hc t ht hhole
    obtain ⟨u, hu, rfl⟩ := Option.map_eq_some_iff.1 ht
    obtain ⟨hstop, hfits⟩ := hrel hc u hu hhole
    refine ⟨hstop, ?_⟩
    change u.hole = none at hhole
    rw [hhole]
    exact .rule hrule hbody hfits
  | ref href htarget =>
    intro hc t ht hhole
    obtain ⟨hstop, hfits⟩ := htarget hc t ht hhole
    exact ⟨hstop, .ref href hfits⟩
  | sure =>
    intro hc t ht _
    cases ht
    exact ⟨hc, .sure⟩
  | skip hbody =>
    intro hc t ht hhole
    obtain ⟨hstop, hfits⟩ := hbody hc t ht hhole
    exact ⟨hstop, .skip hfits⟩

/-- What the run of a matcher from the start of a source finds without a hole fits the matcher. -/
theorem run_fits (g : Grammar κ) (m : Matcher κ) {s : MatchState κ} (hs : s.cursor = source.start)
    {part : Match κ} (hfound : (g.run m s).2 = some part) (hhole : part.node.hole = none) :
    ∃ t, (g.run m s).1.nodes.treeAt? part.id = some t ∧ g.Fits source m t := by
  obtain ⟨o, hanswers, hrel⟩ := run_answers (g.closed_shapeRel source) m s
  have hrefusal : AllowsRefusal (g.ShapeRel source) := by
    intro sk m c _ t ht
    cases ht
  obtain ⟨t, ht, hground⟩ := hanswers.found part hfound
  have hstart : source.start.Advances s.cursor := hs ▸ .refl _
  exact ⟨t, hground.tree,
    (hrel (fun _ => hrefusal) hstart t ht (hground.fields.2.2.trans hhole)).2⟩

/-- The root of a parsed source fits the start rule. -/
theorem parse_fits {g : Grammar κ} {start : κ} {config : ParseConfig} {parsed : Parsed κ}
    (h : g.parse start source config = .ok parsed) :
    parsed.tree.source = source ∧
      ∃ t, parsed.tree.nodes.treeAt? parsed.root = some t ∧ g.Fits source (.rule start) t := by
  unfold parse at h
  rcases hrun : g.run (.rule start) (startState source config) with ⟨s, _ | root⟩
  all_goals rw [hrun] at h; dsimp only at h; split at h
  · cases h
  · cases h
  · cases h
  · cases hhole : root.node.hole with
    | some hole =>
      rw [hhole] at h
      cases h
    | none =>
      rw [hhole] at h
      dsimp only at h
      split at h
      · cases h
        have hstart : (startState source config : MatchState κ).cursor = source.start := rfl
        have hfits := g.run_fits (.rule start) hstart (by rw [hrun]) hhole
        rw [hrun] at hfits
        exact ⟨rfl, hfits⟩
      · cases h

end Grammar

end ExpLang
