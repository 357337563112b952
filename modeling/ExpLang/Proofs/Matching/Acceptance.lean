import ExpLang.Proofs.Matching.Budget
import ExpLang.Proofs.Matching.Refinement
import ExpLang.Proofs.Matching.Shapes

/-!
# Sources that parse

A source parses when the start rule goes through and only a gap is left behind it. Here this is said
of outcomes and not of runs: what a closed relation gives at the start of a source that parses, and
that a source parses whose reference outcome is a complete tree up to the last gap, if the budget
lasts.
-/

namespace ExpLang.Grammar

variable {κ : Type} [DecidableEq κ] [RuleName κ] {g : Grammar κ} {start : κ} {source : Source}
  {config : ParseConfig}

/-- What a parse says about the run of the start rule. -/
theorem parse_eq_ok_iff {parsed : Parsed κ} : g.parse start source config = .ok parsed ↔
    ∃ s root, g.run (.rule start) (startState source config) = (s, some root) ∧
      s.exhausted = false ∧ root.node.hole = none ∧ s.tokenStart.rest = [] ∧
      parsed = ⟨⟨source, s.nodes⟩, root.id⟩ := by
  unfold parse
  rcases g.run (.rule start) (startState source config) with ⟨s, found⟩
  cases hspent : s.exhausted with
  | true => simp [hspent]
  | false =>
    cases found with
    | none => simp [hspent]
    | some root =>
      cases hhole : root.node.hole with
      | some hole => simp [hspent, hhole]
      | none =>
        by_cases hrest : s.tokenStart.rest = []
        · simpa [hspent, hhole, hrest] using eq_comm
        · simp [hspent, hhole, hrest]

/-- A closed relation holds of the tree of a source that parses, and only a gap is left behind it. -/
theorem outcome_of_parse {P : Skipper → MatchRel κ} (hP : g.Closed P) {parsed : Parsed κ}
    (h : g.parse start source config = .ok parsed) :
    parsed.tree.source = source ∧ ∃ t stop, parsed.tree.nodes.treeAt? parsed.root = some t ∧
      t.hole = none ∧ P config.skipper (.rule start) source.start ⟨some t, stop⟩ ∧
      (config.skipper.skip stop).rest = [] := by
  obtain ⟨s, root, hrun, hsteps, hhole, hrest, rfl⟩ := parse_eq_ok_iff.1 h
  obtain ⟨⟨found, stop⟩, hanswers, hrel⟩ :=
    run_answers hP (.rule start) (startState source config)
  rw [hrun] at hanswers hrel
  obtain ⟨t, rfl, hground⟩ := hanswers.found root rfl
  obtain rfl : stop = s.cursor := hanswers.stop
  have hskipper : s.activeSkipper = config.skipper := hanswers.framed.activeSkipper
  refine ⟨rfl, t, s.cursor, hground.tree, hground.fields.2.2.trans hhole, ?_, ?_⟩
  · refine hrel fun hspent => ?_
    rw [hsteps] at hspent
    cases hspent
  · rw [← hskipper]
    exact hrest

/-- In a grammar without overrides of the skipper, the tokens of a parsed source follow each other from
its start. -/
theorem tiles_of_parse (hg : g.isSkipFree = true) {parsed : Parsed κ} {t : ParseTree κ}
    (h : g.parse start source config = .ok parsed)
    (ht : parsed.tree.nodes.treeAt? parsed.root = some t) :
    ∃ stop, config.skipper.Tiles source 0 t.tokens stop := by
  obtain ⟨-, u, stop, hu, -, hrel, -⟩ := outcome_of_parse (closed_tilingRel hg source) h
  obtain rfl : u = t := Option.some.inj (hu.symm.trans ht)
  have htiles := (hrel rfl source.hasCursor_start u rfl).tiles
  rw [ParseTree.tokensAll_singleton] at htiles
  exact ⟨stop.pos, htiles⟩

/-- A source parses if the reference finds a complete tree with only a gap behind it and the budget is
not spent on the way. -/
theorem parse_of_reference {t : ParseTree κ} {stop : Cursor}
    (href : g.ReferenceRel config.skipper (.rule start) source.start ⟨some t, stop⟩)
    (hwhole : t.hole = none) (hrest : (config.skipper.skip stop).rest = [])
    (hbudget : ∀ budget pos, g.parse start source config ≠ .error (.budgetExhausted budget pos)) :
    ∃ parsed, g.parse start source config = .ok parsed ∧ parsed.tree.source = source ∧
      parsed.tree.nodes.treeAt? parsed.root = some t := by
  rcases hrun : g.run (.rule start) (startState source config) with ⟨s, found⟩
  have hsteps : (g.run (.rule start) (startState source config)).1.exhausted = false := by
    refine Bool.eq_false_iff.2 fun hspent => ?_
    obtain ⟨pos, hparse⟩ := parse_of_exhausted g hspent
    exact hbudget _ pos hparse
  obtain ⟨o, hanswers, hrel⟩ :=
    run_answers g.closed_referenceRel (.rule start) (startState source config)
  have hrel := hrel fun hspent => by rw [hsteps] at hspent; cases hspent
  -- The run answers as the reference does, and that has one outcome.
  obtain ⟨depth, href, ho⟩ := (href.and hrel).exists
  obtain rfl : (⟨some t, stop⟩ : Outcome κ) = o := Option.some.inj (href.symm.trans ho)
  rw [hrun] at hanswers hsteps
  cases found with
  | none => cases (hanswers.refused rfl).1
  | some root =>
    obtain ⟨u, hu, hground⟩ := hanswers.found root rfl
    obtain rfl : t = u := Option.some.inj hu
    have hstop : stop = s.cursor := hanswers.stop
    have hskipper : s.activeSkipper = config.skipper := hanswers.framed.activeSkipper
    refine ⟨⟨⟨source, s.nodes⟩, root.id⟩, ?_, rfl, hground.tree⟩
    refine parse_eq_ok_iff.2 ⟨s, root, hrun, hsteps, hground.fields.2.2.symm.trans hwhole, ?_, rfl⟩
    rw [MatchState.tokenStart, hskipper, ← hstop]
    exact hrest

end ExpLang.Grammar
