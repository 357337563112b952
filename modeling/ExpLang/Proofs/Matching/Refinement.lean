import ExpLang.Proofs.Matching.Run
import Mathlib.Order.Filter.AtTopBot.Basic

/-!
# The matching engine refines the reference semantics

The reference semantics is a closed relation: what one construct makes of reference outcomes is the
reference outcome. So a run that ends with steps left answers with the reference outcome, and the
tree that the arena holds at the node of the answer is the reference tree.
-/

namespace ExpLang

open Filter

variable {κ : Type}

/-- The outcome of an answer: the tree of its node as the arena holds it, and the cursor. -/
def MatchState.outcome? (r : MatchState κ × Option (Match κ)) : Option (Outcome κ) :=
  match r.2 with
  | none => some (.refused r.1.cursor)
  | some part => (r.1.nodes.treeAt? part.id).map fun t => ⟨some t, r.1.cursor⟩

/-- The outcome that an answer stands for is the one that the arena holds. -/
theorem MatchState.Answers.outcome?_eq {s : MatchState κ} {r : MatchState κ × Option (Match κ)}
    {o : Outcome κ} (h : s.Answers r o) : MatchState.outcome? r = some o := by
  obtain ⟨s', _ | part⟩ := r
  · obtain ⟨rfl, -, hcursor⟩ := h.eq_refused
    rw [outcome?, ← hcursor]
  · obtain ⟨t, rfl, hground⟩ := h.eq_found
    simp [outcome?, hground.tree]

namespace Grammar

variable [DecidableEq κ] [RuleName κ] {g : Grammar κ} {sk : Skipper}

/-- The outcomes that the reference semantics has for matchers at every depth from some depth on. -/
def ReferenceRel (g : Grammar κ) (sk : Skipper) : MatchRel κ :=
  fun m c o => ∀ᶠ depth in atTop, g.reference depth sk m c = some o

/-- What items make of reference outcomes is their reference outcome. -/
theorem eventually_referenceItems {committed : Bool} {items : List (Matcher κ)} {c : Cursor}
    {r : SeqOutcome κ} (h : ItemsRel g.describe sk (g.ReferenceRel sk) committed items c r) :
    ∀ᶠ depth in atTop,
      referenceItems g.describe sk (g.reference depth sk) committed items c = some r := by
  induction h with
  | done => exact .of_forall fun _ => rfl
  | cut hsure _ ih =>
    filter_upwards [ih] with depth ih
    rw [referenceItems, if_pos hsure, ih]
  | refused hsure hitem =>
    filter_upwards [hitem] with depth hitem
    simp [referenceItems, hsure, hitem, Outcome.refused]
  | stuck hsure hitem =>
    filter_upwards [hitem] with depth hitem
    simp [referenceItems, hsure, hitem, Outcome.refused]
  | inside hsure hitem hhole =>
    filter_upwards [hitem] with depth hitem
    simp [referenceItems, hsure, hitem, hhole]
  | next hsure hitem hhole _ ih =>
    filter_upwards [hitem, ih] with depth hitem ih
    simp [referenceItems, hsure, hitem, hhole, ih]

/-- What alternatives make of reference outcomes is their reference outcome. -/
theorem eventually_referenceChoice {alternatives : List (Matcher κ)} {c : Cursor} {o : Outcome κ}
    (h : ChoiceRel (g.ReferenceRel sk) c alternatives o) :
    ∀ᶠ depth in atTop, referenceChoice (g.reference depth sk) alternatives c = some o := by
  induction h with
  | nil => exact .of_forall fun _ => rfl
  | complete hm hhole =>
    filter_upwards [hm] with depth hm
    simp [referenceChoice, hm, ParseTree.isComplete, hhole]
  | refused hm _ ih =>
    filter_upwards [hm, ih] with depth hm ih
    simp [referenceChoice, hm, Outcome.refused, ih]
  | incomplete hm hhole _ ih =>
    filter_upwards [hm, ih] with depth hm ih
    simp [referenceChoice, hm, ParseTree.isComplete, hhole, ih]

/-- A separator that goes through stops where the element begins. -/
theorem eventually_referenceSeparator {separator : Option (Matcher κ)} {first : Bool}
    {c here : Cursor} {before : Option (ParseTree κ)}
    (h : SeparatorRel (g.ReferenceRel sk) separator first c before here) :
    ∀ᶠ depth in atTop, ∃ t, t.hole = none ∧
      referenceSeparator (g.reference depth sk) separator first c =
        some (before, ⟨some t, here⟩) := by
  cases h with
  | absent habsent =>
    refine .of_forall fun depth => ⟨.missing c.pos, rfl, ?_⟩
    rw [referenceSeparator]
    · rfl
    · intro m h h'
      subst h
      subst h'
      rcases habsent with h | h <;> cases h
  | present hm hhole =>
    filter_upwards [hm] with depth hm
    exact ⟨_, hhole, by simp [referenceSeparator, hm]⟩

/-- What elements make of reference outcomes is their reference outcome, where the bound on their
number is large enough. -/
theorem eventually_referenceElements {element : Matcher κ} {separator : Option (Matcher κ)}
    {first : Bool} {c : Cursor} {r : ListOutcome κ}
    (h : ElementsRel (g.ReferenceRel sk) element separator first c r) :
    ∃ least, ∀ᶠ depth in atTop, ∀ bound ≥ least,
      referenceElements (g.reference depth sk) element separator bound first c = some r := by
  induction h with
  | unseparated hsep hm =>
    refine ⟨1, ?_⟩
    filter_upwards [hm] with depth hm bound hbound
    obtain ⟨bound, rfl⟩ := Nat.exists_eq_add_of_le' hbound
    simp [referenceElements, referenceSeparator, hsep, hm, Outcome.refused]
  | stuck hsep hm hhole =>
    refine ⟨1, ?_⟩
    filter_upwards [hm] with depth hm bound hbound
    obtain ⟨bound, rfl⟩ := Nat.exists_eq_add_of_le' hbound
    simp [referenceElements, referenceSeparator, hsep, hm, hhole]
  | ended hsep helement =>
    refine ⟨1, ?_⟩
    filter_upwards [eventually_referenceSeparator hsep, helement]
      with depth hsep helement bound hbound
    obtain ⟨t, hhole, hsep⟩ := hsep
    obtain ⟨bound, rfl⟩ := Nat.exists_eq_add_of_le' hbound
    simp [referenceElements, hsep, hhole, helement, Outcome.refused]
  | last hsep helement hlast =>
    refine ⟨1, ?_⟩
    filter_upwards [eventually_referenceSeparator hsep, helement]
      with depth hsep helement bound hbound
    obtain ⟨t, hhole, hsep⟩ := hsep
    obtain ⟨bound, rfl⟩ := Nat.exists_eq_add_of_le' hbound
    simp only [referenceElements, hsep, hhole, helement, hlast, Option.bind_eq_bind,
      Option.bind_some, if_true, Option.pure_def]
  | more hsep helement hmore _ ih =>
    obtain ⟨least, ih⟩ := ih
    refine ⟨least + 1, ?_⟩
    filter_upwards [eventually_referenceSeparator hsep, helement, ih]
      with depth hsep helement ih bound hbound
    obtain ⟨t, hhole, hsep⟩ := hsep
    obtain ⟨bound, rfl⟩ := Nat.exists_eq_add_one_of_ne_zero (Nat.ne_zero_of_lt hbound)
    have hrest := ih bound (Nat.le_of_succ_le_succ hbound)
    simp only [referenceElements, hsep, hhole, helement, hmore, hrest,
      Option.bind_eq_bind, Option.bind_some, Bool.false_eq_true, if_false, Option.pure_def]

/-- What holds one step further at every depth from some depth on holds from some depth on. -/
theorem ReferenceRel.of_succ {m : Matcher κ} {c : Cursor} {o : Outcome κ}
    (h : ∀ᶠ depth in atTop, g.reference (depth + 1) sk m c = some o) :
    g.ReferenceRel sk m c o := by
  rw [← eventually_map (m := (· + 1)) (P := fun depth => g.reference depth sk m c = some o),
    map_add_atTop_eq_nat] at h
  exact h

/-- The reference semantics is a closed relation. -/
theorem closed_referenceRel (g : Grammar κ) : g.Closed g.ReferenceRel := by
  intro sk m c o h
  apply ReferenceRel.of_succ
  cases h with
  | literal | literals | pattern | sure => exact .of_forall fun _ => rfl
  | seq hitems =>
    filter_upwards [eventually_referenceItems hitems] with depth hitems
    rw [reference, hitems]
    rfl
  | any hchoice =>
    filter_upwards [eventually_referenceChoice hchoice] with depth hchoice
    rw [reference, hchoice]
  | list helements =>
    obtain ⟨least, helements⟩ := eventually_referenceElements helements
    filter_upwards [helements, eventually_ge_atTop least] with depth helements hdepth
    rw [reference, helements depth hdepth]
    rfl
  | optional hbody =>
    filter_upwards [hbody] with depth hbody
    rw [reference, hbody]
    rfl
  | undefined hrule => exact .of_forall fun _ => by rw [reference, hrule]
  | ruleSeq hrule hbody hitems =>
    filter_upwards [eventually_referenceItems hitems] with depth hitems
    rw [reference, hrule]
    simp [hbody, hitems]
  | rule hrule hbody hrel =>
    filter_upwards [hrel] with depth hrel
    rw [reference, hrule]
    simp only [hrel, Option.map_some]
  | unset href => exact .of_forall fun _ => by rw [reference, href]
  | ref href htarget =>
    filter_upwards [htarget] with depth htarget
    rw [reference, href]
    exact htarget
  | skip hbody =>
    filter_upwards [hbody] with depth hbody
    rw [reference]
    exact hbody

/-- A run that ends with steps left answers as the reference semantics does: with nothing where the
reference finds nothing, and else with a node at which the arena holds the reference tree, in both
cases with the cursor where the reference stops. The tree tells a complete match by its hole, and so
does the flag that the arena keeps of the node and of every node below it. -/
theorem run_refines_reference (g : Grammar κ) (m : Matcher κ) (s : MatchState κ)
    (hsteps : (g.run m s).1.exhausted = false) :
    (∃ o, MatchState.outcome? (g.run m s) = some o ∧
      ∀ᶠ depth in atTop, g.reference depth s.activeSkipper m s.cursor = some o) ∧
    ∀ part, (g.run m s).2 = some part → (g.run m s).1.nodes[part.id]? = some part.node ∧
      ∀ i n, (g.run m s).1.nodes.Under part.id i → (g.run m s).1.nodes[i]? = some n →
        n.isComplete = n.hole.isNone := by
  obtain ⟨o, hanswers, hrel⟩ := run_answers g.closed_referenceRel m s
  refine ⟨⟨o, hanswers.outcome?_eq, hrel fun hspent => ?_⟩, fun part hfound => ?_⟩
  · rw [hsteps] at hspent
    cases hspent
  · obtain ⟨t, -, hground⟩ := hanswers.found part hfound
    exact ⟨hground.node, fun i n hi hn => hanswers.isComplete_eq hfound hi hn⟩

end Grammar

/-- Arguments between commas, where a sign commits to a number after it. -/
def argumentGrammar : Grammar String where
  rules := [("Args", ⟨1, .list (.rule "Arg") (some (.lit ",")) 1⟩),
    ("Arg", ⟨1, .any [.seq [.lit "-", .sure, .lits ["1", "11"]], .lits ["1", "11"], .rule "Word"]⟩),
    ("Word", ⟨1, .seq [.lit "x", .optional (.lit "y")]⟩)]
  refs := []

/-- The engine and the reference agree on a list whose last argument stops after its sign. -/
theorem run_refines_reference_arguments :
    let s : MatchState String := { cursor := ⟨0, "11 , x,-y".toList⟩, budget := 60 }
    let r := argumentGrammar.run (.rule "Args") s
    r.1.exhausted = false ∧
      (∃ o, MatchState.outcome? r = some o ∧
        ∀ᶠ depth in atTop,
          argumentGrammar.reference depth .blanks (.rule "Args") s.cursor = some o) ∧
      ∀ part, r.2 = some part → r.1.nodes[part.id]? = some part.node ∧
        ∀ i n, r.1.nodes.Under part.id i → r.1.nodes[i]? = some n →
          n.isComplete = n.hole.isNone :=
  ⟨by decide, argumentGrammar.run_refines_reference _ _ (by decide)⟩

end ExpLang
