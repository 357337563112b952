import ExpLang.Proofs.Syntax.Phrases

/-!
# The rules of expressions

What it means for each rule of expressions to go through, in terms of the tokens that are read and of the
rules inside. Every statement is an equivalence: it takes a match apart, and it puts one together.
-/

namespace ExpLang.Syntax

variable {sk : Skipper} {c stop : Cursor} {t : ParseTree Kind} {k : Kind}

/-! ## Tokens -/

/-- The token of a rule that is one token. -/
def tokenOf : Kind → Option Token
  | .float => some .float
  | .int => some .int
  | .bool => some .bool
  | .id => some .name
  | .unop => some (.op .prefixOp)
  | .binop => some (.op .binaryOp)
  | .postOp => some (.op .postfixOp)
  | _ => none

/-- The rule of a token has a body that reads the token. -/
theorem rule_of_tokenOf {token : Token} (h : tokenOf k = some token) (sk : Skipper) :
    ∃ body, language.rule? k = some ⟨0, body⟩ ∧ (∀ items, body ≠ .seq items) ∧
      language.ReadsToken sk body token.read := by
  cases k <;> cases h
  · exact ⟨_, rfl, fun _ h => (by cases h), Grammar.reads_pattern _ _⟩
  · exact ⟨_, rfl, fun _ h => (by cases h), Grammar.reads_pattern _ _⟩
  · exact ⟨_, rfl, fun _ h => (by cases h), Grammar.reads_pattern _ _⟩
  · exact ⟨_, rfl, fun _ h => (by cases h), Grammar.reads_pattern _ _⟩
  · exact ⟨_, rfl, fun _ h => (by cases h), Grammar.reads_literals _⟩
  · exact ⟨_, rfl, fun _ h => (by cases h), Grammar.reads_literals _⟩
  · exact ⟨_, rfl, fun _ h => (by cases h), Grammar.reads_literals _⟩

/-- The rule of a token goes through where the token is read, with a leaf. -/
theorem through_leaf_iff {token : Token} (h : tokenOf k = some token) :
    language.Through sk (.rule k) c t stop ↔
      ∃ span, token.At sk c span stop ∧ t = leafTree k span := by
  obtain ⟨body, hrule, hseq, hreads⟩ := rule_of_tokenOf h sk
  rw [Grammar.through_rule_iff hrule hseq]
  constructor
  · rintro ⟨u, hu, rfl⟩
    obtain ⟨hread, rfl⟩ := hreads.through_iff.1 hu
    exact ⟨_, ⟨hread, rfl⟩, rfl⟩
  · rintro ⟨span, ⟨hread, rfl⟩, rfl⟩
    exact ⟨_, hreads.through_iff.2 ⟨hread, rfl⟩, rfl⟩

/-- The rule of a token is refused exactly where the token is not read. -/
theorem refused_leaf_iff {token : Token} (h : tokenOf k = some token) :
    language.Refused sk (.rule k) c ↔ token.NotAt sk c := by
  obtain ⟨body, hrule, hseq, hreads⟩ := rule_of_tokenOf h sk
  rw [Grammar.refused_rule_iff hrule hseq, hreads.refused_iff]
  rfl

/-- The rule of a token fails exactly where the token is not read. -/
theorem fails_leaf_iff {token : Token} (h : tokenOf k = some token) :
    language.Fails sk (.rule k) c ↔ token.NotAt sk c := by
  obtain ⟨body, hrule, hseq, hreads⟩ := rule_of_tokenOf h sk
  rw [Grammar.fails_rule_iff hrule hseq, hreads.fails_iff]
  rfl

/-- A literal goes through where its mark is read. -/
theorem through_mark_iff {text : List Char} : language.Through sk (.literal text) c t stop ↔
    ∃ span, (Token.mark text).At sk c span stop ∧ t = .token span := by
  rw [(Grammar.reads_literal text).through_iff]
  constructor
  · rintro ⟨hread, rfl⟩
    exact ⟨_, ⟨hread, rfl⟩, rfl⟩
  · rintro ⟨span, ⟨hread, rfl⟩, rfl⟩
    exact ⟨hread, rfl⟩

/-- A literal is refused exactly where its mark is not read. -/
theorem refused_mark_iff {text : List Char} :
    language.Refused sk (.literal text) c ↔ (Token.mark text).NotAt sk c :=
  (Grammar.reads_literal text).refused_iff

/-! ## Atoms -/

/-- A literal is the first of its kinds that can be read. -/
theorem through_literal_iff : language.Through sk (.rule .literal) c t stop ↔
    ∃ (kind : LiteralKind) (span : Span), kind.token.At sk c span stop ∧
      (∀ k ∈ kind.earlier, k.token.NotAt sk c) ∧ t = .ofBody .literal 1 (leafTree kind.rule span) := by
  rw [Grammar.through_rule_iff rfl fun _ h => by cases h]
  constructor
  · rintro ⟨u, hu, rfl⟩
    rcases (Grammar.through_any_iff.1 hu).1 with h | ⟨hbool, h | ⟨hfloat, h | ⟨hint, h | ⟨-, h⟩⟩⟩⟩
    · obtain ⟨span, hat, rfl⟩ := (through_leaf_iff rfl).1 h
      exact ⟨.bool, span, hat, by simp [LiteralKind.earlier], rfl⟩
    · obtain ⟨span, hat, rfl⟩ := (through_leaf_iff rfl).1 h
      refine ⟨.float, span, hat, ?_, rfl⟩
      exact List.forall_mem_singleton.2 ((fails_leaf_iff rfl).1 hbool)
    · obtain ⟨span, hat, rfl⟩ := (through_leaf_iff rfl).1 h
      refine ⟨.int, span, hat, ?_, rfl⟩
      exact List.forall_mem_cons.2 ⟨(fails_leaf_iff rfl).1 hbool,
        List.forall_mem_singleton.2 ((fails_leaf_iff rfl).1 hfloat)⟩
    · obtain ⟨span, hat, rfl⟩ := (through_leaf_iff rfl).1 h
      refine ⟨.name, span, hat, ?_, rfl⟩
      exact List.forall_mem_cons.2 ⟨(fails_leaf_iff rfl).1 hbool,
        List.forall_mem_cons.2 ⟨(fails_leaf_iff rfl).1 hfloat,
          List.forall_mem_singleton.2 ((fails_leaf_iff rfl).1 hint)⟩⟩
    · exact h.elim
  · rintro ⟨kind, span, hat, hnot, rfl⟩
    refine ⟨_, Grammar.through_any_iff.2 ⟨?_, rfl⟩, rfl⟩
    cases kind with
    | bool => exact .inl ((through_leaf_iff rfl).2 ⟨span, hat, rfl⟩)
    | float =>
      refine .inr ⟨(fails_leaf_iff rfl).2 (hnot .bool (by decide)), ?_⟩
      exact .inl ((through_leaf_iff rfl).2 ⟨span, hat, rfl⟩)
    | int =>
      refine .inr ⟨(fails_leaf_iff rfl).2 (hnot .bool (by decide)), ?_⟩
      refine .inr ⟨(fails_leaf_iff rfl).2 (hnot .float (by decide)), ?_⟩
      exact .inl ((through_leaf_iff rfl).2 ⟨span, hat, rfl⟩)
    | name =>
      refine .inr ⟨(fails_leaf_iff rfl).2 (hnot .bool (by decide)), ?_⟩
      refine .inr ⟨(fails_leaf_iff rfl).2 (hnot .float (by decide)), ?_⟩
      refine .inr ⟨(fails_leaf_iff rfl).2 (hnot .int (by decide)), ?_⟩
      exact .inl ((through_leaf_iff rfl).2 ⟨span, hat, rfl⟩)

/-- Something in parentheses or brackets. -/
theorem through_bracket_iff {a b : List Char} {m : Matcher Kind}
    (hrule : language.rule? k = some ⟨1, .seq [.literal a, .sure, m, .literal b]⟩)
    (hsure : m.isSure = false) (hkept : m.isStored = true) :
    language.Through sk (.rule k) c t stop ↔ ∃ opening c₁ u c₂ closing,
      (Token.mark a).At sk c opening c₁ ∧ language.Through sk m c₁ u c₂ ∧
        (Token.mark b).At sk c₂ closing stop ∧ t = bracketTree k opening u closing := by
  rw [Grammar.through_ruleSeq_iff hrule]
  constructor
  · rintro ⟨parts, ⟨_, c₁, _, hopening, rfl, hrest⟩, rfl⟩
    rw [succeed_sure, succeed_cons hsure] at hrest
    obtain ⟨u, c₂, _, hu, rfl, ⟨_, _, _, hclosing, rfl, rfl, rfl⟩⟩ := hrest
    obtain ⟨opening, hopenAt, rfl⟩ := through_mark_iff.1 hopening
    obtain ⟨closing, hcloseAt, rfl⟩ := through_mark_iff.1 hclosing
    refine ⟨opening, c₁, u, c₂, closing, hopenAt, hu, hcloseAt, ?_⟩
    rw [hkept]
    exact ParseTree.ofParts_pos rfl _ _ _ _ _
  · rintro ⟨opening, c₁, u, c₂, closing, hopening, hu, hclosing, rfl⟩
    refine ⟨[(.token opening, false), (u, true), (.token closing, false)], ?_,
      ParseTree.ofParts_pos rfl _ _ _ _ _⟩
    refine ⟨_, c₁, _, through_mark_iff.2 ⟨opening, hopening, rfl⟩, rfl, ?_⟩
    rw [succeed_sure, succeed_cons hsure, hkept]
    exact ⟨u, c₂, _, hu, rfl, _, stop, _, through_mark_iff.2 ⟨closing, hclosing, rfl⟩, rfl, rfl, rfl⟩

/-- A prefixed expression is an operator and the operand behind it. -/
theorem through_unary_iff : language.Through sk (.rule .unopExpr) c t stop ↔ ∃ op c₁ u,
    (Token.op .prefixOp).At sk c op c₁ ∧ language.Through sk (.rule .operand) c₁ u stop ∧
      t = unaryTree op u := by
  rw [Grammar.through_ruleSeq_iff rfl]
  constructor
  · rintro ⟨parts, ⟨_, c₁, _, hop, rfl, u, _, _, hu, rfl, rfl, rfl⟩, rfl⟩
    obtain ⟨op, hat, rfl⟩ := (through_leaf_iff rfl).1 hop
    exact ⟨op, c₁, u, hat, hu, ParseTree.ofParts_pos rfl _ _ _ _ _⟩
  · rintro ⟨op, c₁, u, hop, hu, rfl⟩
    refine ⟨[(leafTree .unop op, true), (u, true)], ?_, ParseTree.ofParts_pos rfl _ _ _ _ _⟩
    exact ⟨_, c₁, _, (through_leaf_iff rfl).2 ⟨op, hop, rfl⟩, rfl, u, stop, _, hu, rfl, rfl, rfl⟩

/-- The alternatives for an atom. -/
theorem through_atom_iff : language.Through sk (.rule .atom) c t stop ↔
    ∃ u, language.Chosen sk [.rule .literal, .rule .unopExpr, .rule .parenExpr] c u stop ∧
      u.hole = none ∧ t = .ofBody .atom 1 u := by
  rw [Grammar.through_rule_iff rfl fun _ h => by cases h]
  simp only [Grammar.through_any_iff, and_assoc]

/-! ## Accesses -/

/-- A field access is a point and the name behind it. -/
theorem through_field_iff : language.Through sk (.rule .accessField) c t stop ↔ ∃ point c₁ name,
    (Token.mark ['.']).At sk c point c₁ ∧ Token.name.At sk c₁ name stop ∧
      t = fieldTree point name := by
  rw [Grammar.through_ruleSeq_iff rfl]
  constructor
  · rintro ⟨parts, ⟨_, c₁, _, hpoint, rfl, _, _, _, hname, rfl, rfl, rfl⟩, rfl⟩
    obtain ⟨point, hpointAt, rfl⟩ := through_mark_iff.1 hpoint
    obtain ⟨name, hnameAt, rfl⟩ := (through_leaf_iff rfl).1 hname
    exact ⟨point, c₁, name, hpointAt, hnameAt, ParseTree.ofParts_pos rfl _ _ _ _ _⟩
  · rintro ⟨point, c₁, name, hpoint, hname, rfl⟩
    refine ⟨[(.token point, false), (leafTree .id name, true)], ?_,
      ParseTree.ofParts_pos rfl _ _ _ _ _⟩
    exact ⟨_, c₁, _, through_mark_iff.2 ⟨point, hpoint, rfl⟩, rfl, _, stop, _,
      (through_leaf_iff rfl).2 ⟨name, hname, rfl⟩, rfl, rfl, rfl⟩

/-- The alternatives for an access. -/
theorem through_access_iff : language.Through sk (.rule .access) c t stop ↔
    ∃ u, language.Chosen sk
        [.rule .accessField, .rule .accessArray, .rule .accessCall, .rule .postOp] c u stop ∧
      u.hole = none ∧ t = .ofBody .access 1 u := by
  rw [Grammar.through_rule_iff rfl fun _ h => by cases h]
  simp only [Grammar.through_any_iff, and_assoc]

/-- An access is refused exactly where all four kinds of it are. -/
theorem refused_access_iff : language.Refused sk (.rule .access) c ↔
    language.Refused sk (.rule .accessField) c ∧ language.Refused sk (.rule .accessArray) c ∧
      language.Refused sk (.rule .accessCall) c ∧ (Token.op .postfixOp).NotAt sk c := by
  rw [Grammar.refused_rule_iff rfl (fun _ h => by cases h), Grammar.refused_any_iff,
    ← refused_leaf_iff (k := .postOp) rfl]
  simp only [List.forall_mem_cons, List.not_mem_nil, false_implies, implies_true, and_true]

/-! ## Lists -/

/-- An operand is an atom and the accesses after it. -/
theorem through_operand_iff : language.Through sk (.rule .operand) c t stop ↔
    ∃ atom c₁ accesses, language.Through sk (.rule .atom) c atom c₁ ∧
      language.Through sk (.list (.rule .access) none 0) c₁ accesses stop ∧
      t = .ofParts (.rule .operand) 0 [(atom, true), (accesses, true)] := by
  rw [Grammar.through_ruleSeq_iff rfl]
  have hkind {atom : ParseTree Kind} {c₁ : Cursor}
      (hatom : language.Through sk (.rule .atom) c atom c₁) : atom.kind.isEmpty = false := by
    obtain ⟨u, -, -, rfl⟩ := through_atom_iff.1 hatom
    rfl
  constructor
  · rintro ⟨parts, ⟨atom, c₁, _, hatom, rfl, accesses, _, _, haccesses, rfl, rfl, rfl⟩, rfl⟩
    exact ⟨atom, c₁, accesses, hatom, haccesses, ParseTree.ofParts_pos (hkind hatom) _ _ _ _ _⟩
  · rintro ⟨atom, c₁, accesses, hatom, haccesses, rfl⟩
    refine ⟨[(atom, true), (accesses, true)], ?_, ParseTree.ofParts_pos (hkind hatom) _ _ _ _ _⟩
    exact ⟨atom, c₁, _, hatom, rfl, accesses, stop, _, haccesses, rfl, rfl, rfl⟩

/-- An expression is a list of operands with operators between them. -/
theorem through_expr_iff : language.Through sk (.rule .expr) c t stop ↔
    ∃ u, language.Through sk (.list (.rule .operand) (some (.rule .binop)) 1) c u stop ∧
      t = .ofBody .expr 1 u :=
  Grammar.through_rule_iff rfl fun _ h => by cases h

end ExpLang.Syntax
