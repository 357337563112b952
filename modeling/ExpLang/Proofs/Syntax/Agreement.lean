import ExpLang.Proofs.Syntax.Constructs

/-!
# Grammar and constructs fit together

A source that parses is a tree in which every node that binding can come to is a complete match of
the rule that made it, and each rule has its reader. `BindsAs` lists the readers rule by rule. It
holds at all these nodes at once, not only at those that are read before the first literal without a
value stops the reading. So a source is never refused because grammar and constructs disagree,
whatever its text, its gaps and the budget.

Nothing is said about sources that do not parse, and no reader is shown to give the right construct.
-/

namespace ExpLang.Syntax

variable {α : Type} {t : Tree Kind} {k : Kind} {id : NodeId}

/-- The reader of each rule gives a result at a node, or fails on a literal without a value; an
operator token has its operator. -/
def BindsAs (t : Tree Kind) (id : NodeId) : Kind → Prop
  | .id => Binds t (ident t id)
  | .float | .int | .bool | .literal | .unopExpr | .parenExpr | .atom | .operand | .expr =>
    Binds t (expr t id)
  | .unop => ∃ op, PrefixOp.ofSymbol? (t.text id) = some op
  | .binop => ∃ op, BinaryOp.ofSymbol? (t.text id) = some op ∧
      1 ≤ priority op ∧ priority op ≤ assignmentPriority
  | .postOp => ∃ op, PostfixOp.ofSymbol? (t.text id) = some op
  | .access => ∀ target, Binds t (applyAccess t (expr t) target id)
  | .accessField => Binds t (do ident t (← chosen t id))
  | .accessArray | .default => Binds t (do expr t (← chosen t id))
  | .accessCall | .params => Binds t (t.items id 0)
  | .typeDecl => Binds t (typeDecl t id)
  | .typeTag => Binds t (typeTag t id)
  | .init => Binds t (initializer t id)
  | .varDecl => Binds t (varDecl t id)
  | .vars => Binds t (vars t id)
  | .param => Binds t (param t id)
  | .exprBody => Binds t (functionBody t (stmt t) id)
  | .function => Binds t (function t (stmt t) id)
  | .member => Binds t (member t (stmt t) id)
  | .classDecl => Binds t (classDecl t (stmt t) id)
  | .elseBranch => Binds t (do stmt t (← chosen t id))
  | .emptyStm | .exprStm | .block | .ifStm | .forStm | .whileStm | .returnStm | .stm =>
    Binds t (stmt t id)
  | .stms => Binds t (program t id)

/-- Expressions before a node are read without a bound of their own. -/
theorem expr_bindsBelow (t : Tree Kind) (id : NodeId) : BindsBelow t exprKinds (expr t) id :=
  fun _ _ _ hk h => expr_binds hk h

/-- Statements before a node are read without a bound of their own. -/
theorem stmt_bindsBelow (t : Tree Kind) (id : NodeId) : BindsBelow t stmtKinds (stmt t) id :=
  fun _ _ _ hk h => stmt_binds hk h

/-- Every operator has a priority. -/
theorem priority_bounds (op : BinaryOp) : 1 ≤ priority op ∧ priority op ≤ assignmentPriority := by
  cases op <;> decide

/-- The complete matches of a rule are read by its reader. -/
theorem Made.bindsAs (h : Made t k id) : BindsAs t id k := by
  have hexpr := expr_bindsBelow t id
  have hstmt := stmt_bindsBelow t id
  cases k with
  | id => exact ident_binds h
  | float | int | bool | literal | unopExpr | parenExpr | atom | operand | expr =>
    exact expr_binds (by decide) h
  | unop => exact h.unop
  | binop =>
    obtain ⟨op, hop⟩ := h.binop
    exact ⟨op, hop, priority_bounds op⟩
  | postOp => exact h.postOp
  | access => exact applyAccess_binds h hexpr
  | accessField => exact (h.keeps.required rfl).bind fun _ hname => ident_binds hname.2
  | accessArray => exact (h.keeps.required rfl).bind fun _ hindex => expr_binds (by decide) hindex.2
  | default => exact default_binds h
  | accessCall | params => exact (h.keeps.items rfl).imp fun _ _ => trivial
  | typeDecl => exact typeDecl_binds h
  | typeTag => exact typeTag_binds h
  | init => exact initializer_binds h
  | varDecl => exact varDecl_binds h
  | vars => exact vars_binds h
  | param => exact param_binds h
  | exprBody => exact functionBody_binds (by decide) h fun hstm => stmt_binds (by decide) hstm
  | function => exact function_binds h hstmt
  | member => exact member_binds h hstmt
  | classDecl => exact classDecl_binds h hstmt
  | elseBranch => exact elseBranch_binds h hstmt
  | emptyStm | exprStm | block | ifStm | forStm | whileStm | returnStm | stm =>
    exact stmt_binds (by decide) h
  | stms => exact program_binds h

section Parsed

variable {start : Kind} {source : Source} {config : ParseConfig} {parsed : Parsed Kind}

/-- The root of a parsed source is a complete match of the start rule. -/
theorem made_of_parse (h : language.parse start source config = .ok parsed) :
    Made parsed.tree start parsed.root := by
  obtain ⟨hsource, u, hu, hfits⟩ := Grammar.parse_fits h
  exact ⟨u, hu, hsource.symm ▸ hfits⟩

/-- Every node that binding can come to in a parsed source is a complete match of its rule. -/
theorem made_of_reaches (h : language.parse start source config = .ok parsed)
    (hreaches : parsed.tree.Reaches parsed.root id) (hrule : ruleOf parsed.tree id = some k) :
    Made parsed.tree k id := by
  obtain ⟨m, hmatches⟩ := hreaches.matches (made_of_parse h)
  refine hmatches.of_kind ?_
  unfold ruleOf NodeKind.rule? at hrule
  split at hrule
  · rename_i hkind
    cases hrule
    exact hkind
  · cases hrule

/-- A reader that works on the complete matches of the start rule never meets a fault. -/
theorem readAs_ne_internal {read : Tree Kind → Read α}
    (hread : ∀ t id, Made t start id → Binds t (read t id)) (source : Source) (config : ParseConfig)
    (fault : Fault) : readAs start read source config ≠ .error (.internal fault) := by
  unfold readAs
  rw [grammar_eq]
  dsimp only
  cases hparse : language.parse start source config with
  | error e =>
    intro h
    cases h
  | ok parsed =>
    dsimp only
    have hbinds := hread parsed.tree parsed.root (made_of_parse hparse)
    generalize read parsed.tree parsed.root = result at hbinds
    intro h
    cases hbinds with
    | ok => cases h
    | error he => cases he <;> cases h

end Parsed

/-- The draft of the language is a grammar. Where a source parses under it, the root is a node of the
start rule, and at every node that is reached from the root by captures the reader of its rule finds
the captures that it asks for, every operator token has an operator with a priority, and the only
possible failure is a literal of the source that has no value. So no source text, under no budget,
gives an internal error. -/
theorem binding_agrees_with_grammar :
    ∃ g, grammar = .ok g ∧
      (∀ start source config parsed, g.parse start source config = .ok parsed →
        ruleOf parsed.tree parsed.root = some start ∧
        ∀ id k, parsed.tree.Reaches parsed.root id → ruleOf parsed.tree id = some k →
          BindsAs parsed.tree id k) ∧
      ∀ source config fault,
        parseProgram source config ≠ .error (.internal fault) ∧
        parseExpr source config ≠ .error (.internal fault) := by
  refine ⟨language, grammar_eq, fun start source config parsed hparse => ⟨?_, ?_⟩, ?_⟩
  · exact (made_of_parse hparse).ruleOf_eq
  · exact fun id k hreaches hrule => (made_of_reaches hparse hreaches hrule).bindsAs
  · intro source config fault
    exact ⟨readAs_ne_internal (fun _ _ h => program_binds h) source config fault,
      readAs_ne_internal (fun _ _ h => expr_binds (by decide) h) source config fault⟩

/-- Binding a statement with accesses, operators and a literal without a value. -/
theorem binding_agrees_with_grammar_assignment :
    ∃ g parsed, grammar = .ok g ∧
      g.parse .stms (.ofText "main" "a = -b[0]++ * 99999999999999999999;") (parseConfig 2000) =
        .ok parsed ∧
      ruleOf parsed.tree parsed.root = some .stms ∧ Binds parsed.tree (program parsed.tree parsed.root) := by
  obtain ⟨g, hg, hparsed, -⟩ := binding_agrees_with_grammar
  have hlanguage : g = language := by
    rw [grammar_eq] at hg
    cases hg
    rfl
  have hok : (language.parse .stms (.ofText "main" "a = -b[0]++ * 99999999999999999999;")
      (parseConfig 2000)).isOk = true := by decide +kernel
  rw [← hlanguage] at hok
  cases hparse : g.parse .stms (.ofText "main" "a = -b[0]++ * 99999999999999999999;")
      (parseConfig 2000) with
  | error e =>
    rw [hparse] at hok
    cases hok
  | ok parsed =>
    obtain ⟨hroot, hbinds⟩ := hparsed _ _ _ parsed hparse
    exact ⟨g, parsed, hg, hparse, hroot, hbinds parsed.root .stms .root hroot⟩

end ExpLang.Syntax
