import ExpLang.Proofs.Matching.Captures
import ExpLang.Syntax.Parse

/-!
# Constructs of complete matches

The grammar of the language is a table of rules, and the readers of constructs name captures by
their positions. Each reader is followed here over a node that is a complete match of its rule: the
table says which matcher stands behind each position, and what a capture of that matcher looks like
is known. So a reader fails on a literal without a value and on nothing else.

Expressions and statements contain each other to any depth. Their readers are bounded by the index
of the node, and the parts of a node have smaller indices, so the bound is never met.
-/

namespace ExpLang.Syntax

/-- The grammar of the language, as its draft is built. -/
def language : Grammar Kind := ⟨draft.rules, []⟩

/-- Nothing about the draft is wrong. -/
theorem grammar_eq : grammar = .ok language := rfl

/-- The matchers behind the captures of the nodes of a rule. -/
def kept (k : Kind) : List (Matcher Kind) := ((language.rule? k).map Rule.kept).getD []

/-- A node is a complete match of a rule of the language. -/
abbrev Made (t : Tree Kind) (k : Kind) (id : NodeId) : Prop := t.Matches language (.rule k) id

/-- The refusal of a literal of the source whose text has no value. -/
inductive Unreadable (t : Tree Kind) : BindError → Prop
  | int {id} : Made t .int id →
      Decimal.readInt? (String.ofList ((t.text id).toList.filter (· ≠ '_'))) = none →
      Unreadable t (.literal "integer" (t.text id) (spanOf t id))
  | float {id} : Made t .float id → Decimal.readFraction? (t.text id) = none →
      Unreadable t (.literal "float" (t.text id) (spanOf t id))

/-- Reading gives a result, or fails on a literal without a value. -/
abbrev Binds {α : Type} (t : Tree Kind) (x : Except BindError α) : Prop :=
  Reads (Unreadable t) (fun _ => True) x

/-- A way to read constructs works on every complete match of some rules before a node. -/
def BindsBelow {α : Type} (t : Tree Kind) (kinds : List Kind) (read : Read α) (bound : NodeId) :
    Prop :=
  ∀ part < bound, ∀ k ∈ kinds, Made t k part → Binds t (read part)

variable {α : Type} {t : Tree Kind} {k : Kind} {id : NodeId}

/-- What binds below a node binds below every node under it. -/
theorem BindsBelow.mono {kinds : List Kind} {read : Read α} {bound lower : NodeId}
    (h : BindsBelow t kinds read bound) (hle : lower ≤ bound) : BindsBelow t kinds read lower :=
  fun part hpart => h part (lt_of_lt_of_le hpart hle)

/-- Every rule has a definition, and its nodes are shaped by what the definition keeps. -/
theorem Made.kind_and_shaped (h : Made t k id) :
    (t.node id).kind = .rule k ∧ t.Shaped language id (kept k) := by
  have hrule : ∃ rule, language.rule? k = some rule ∧ kept k = rule.kept := by
    cases k <;> exact ⟨_, rfl, rfl⟩
  obtain ⟨rule, hrule, hkept⟩ := hrule
  rw [hkept]
  exact h.shaped hrule

/-- A node made by a rule names that rule. -/
theorem Made.ruleOf_eq (h : Made t k id) : ruleOf t id = some k := by
  rw [ruleOf, h.kind_and_shaped.1]
  rfl

/-- A node made by a rule has the children the rule keeps. -/
theorem Made.keeps (h : Made t k id) : t.Shaped language id (kept k) := h.kind_and_shaped.2

/-- Every identifier node reads. -/
theorem ident_binds (h : Made t .id id) : Binds t (ident t id) := by
  rw [ident, if_pos h.ruleOf_eq]
  exact .ok trivial

/-- An optional part reads when the part does wherever it stands. -/
theorem optionally_binds {read : Read α} {part : Option NodeId}
    (h : ∀ p, part = some p → Binds t (read p)) : Binds t (optionally read part) := by
  cases part with
  | none => exact .ok trivial
  | some p => exact (h p rfl).map some

/-! ## Operators -/

/-- Every token between operands is an operator. -/
theorem Made.binop (h : Made t .binop id) : ∃ op, BinaryOp.ofSymbol? (t.text id) = some op := by
  have hmem : t.text id ∈ BinaryOp.all.map BinaryOp.symbol := h.text_mem rfl
  obtain ⟨op, -, hop⟩ := List.mem_map.1 hmem
  exact ⟨op, hop ▸ op.ofSymbol?_symbol⟩

/-- Every token before an operand is an operator. -/
theorem Made.unop (h : Made t .unop id) : ∃ op, PrefixOp.ofSymbol? (t.text id) = some op := by
  have hmem : t.text id ∈ PrefixOp.all.map PrefixOp.symbol := h.text_mem rfl
  obtain ⟨op, -, hop⟩ := List.mem_map.1 hmem
  exact ⟨op, hop ▸ op.ofSymbol?_symbol⟩

/-- Every token after an operand is an operator. -/
theorem Made.postOp (h : Made t .postOp id) : ∃ op, PostfixOp.ofSymbol? (t.text id) = some op := by
  have hmem : t.text id ∈ PostfixOp.all.map PostfixOp.symbol := h.text_mem rfl
  obtain ⟨op, -, hop⟩ := List.mem_map.1 hmem
  exact ⟨op, hop ▸ op.ofSymbol?_symbol⟩

/-- Operators that are known can be added to a tree. -/
theorem OperatorTree.insertAll_ok {operators : List (String × Span)}
    (h : ∀ op ∈ operators, ∃ b, BinaryOp.ofSymbol? op.1 = some b) (tree : OperatorTree)
    (operands : List Expr) : ∃ tree', tree.insertAll operators operands = .ok tree' := by
  induction operators generalizing tree operands with
  | nil => exact ⟨tree, by cases operands <;> rfl⟩
  | cons op operators ih =>
    obtain ⟨symbol, span⟩ := op
    cases operands with
    | nil => exact ⟨tree, rfl⟩
    | cons operand operands =>
      obtain ⟨b, hb⟩ := h _ List.mem_cons_self
      dsimp only at hb
      rw [insertAll, hb]
      exact ih (fun op hop => h op (List.mem_cons_of_mem _ hop)) _ _

/-- One operand more than known operators form an expression. -/
theorem foldOperators_ok {operands : List Expr} {operators : List (String × Span)}
    (hlength : operands.length = operators.length + 1)
    (h : ∀ op ∈ operators, ∃ b, BinaryOp.ofSymbol? op.1 = some b) :
    ∃ e, foldOperators operands operators = .ok e := by
  cases operands with
  | nil => cases hlength
  | cons first rest =>
    rw [List.length_cons, Nat.add_right_cancel_iff] at hlength
    obtain ⟨tree, htree⟩ := OperatorTree.insertAll_ok h (.leaf first) rest
    exact ⟨tree.toExpr, by rw [foldOperators, if_pos hlength, htree]; rfl⟩

/-! ## Expressions -/

/-- The rules whose nodes are read as expressions. -/
def exprKinds : List Kind :=
  [.expr, .operand, .atom, .literal, .parenExpr, .unopExpr, .int, .float, .bool, .id]

/-- Every integer literal node reads or is reported as malformed. -/
theorem intLiteral_binds (h : Made t .int id) : Binds t (intLiteral t id) := by
  unfold intLiteral
  split
  · exact .ok trivial
  · rename_i hnone
    exact .error (.int h hnone)

/-- Every float literal node reads or is reported as malformed. -/
theorem floatLiteral_binds (h : Made t .float id) : Binds t (floatLiteral t id) := by
  unfold floatLiteral
  split
  · exact .ok trivial
  · rename_i hnone
    exact .error (.float h hnone)

section Expr

variable {read : Read Expr}

/-- An expression node's operands and operators read when the operands below it do. -/
theorem operatorList_binds (h : Made t .expr id) (hread : BindsBelow t exprKinds read id) :
    Binds t (operatorList t read id) := by
  unfold operatorList
  refine (h.keeps.items rfl).bind ?_
  rintro ⟨operands, operators⟩ hitems
  have hoperands : ∀ part ∈ operands, Binds t (read part) := fun part hpart =>
    hread part (hitems.elements part hpart).1 .operand (by decide) (hitems.elements part hpart).2
  refine (Reads.mapM hoperands).bind fun exprs hexprs => ?_
  -- There is an operand, so the operators are one less than the operands and not merely none.
  have hleast : 1 ≤ operands.length := hitems.least_le
  have hlength : operators.length = operands.length - 1 := hitems.length
  have hcount : exprs.length = (operators.map fun op => (t.text op, spanOf t op)).length + 1 := by
    rw [hexprs, List.length_map]
    omega
  obtain ⟨e, he⟩ := foldOperators_ok hcount (by
    intro op hop
    obtain ⟨part, hpart, rfl⟩ := List.mem_map.1 hop
    exact Made.binop (hitems.separators part hpart _ rfl))
  rw [he]
  exact .ok trivial

/-- An access node reads on any target when the expressions below it do. -/
theorem applyAccess_binds (h : Made t .access id) (hread : BindsBelow t exprKinds read id)
    (target : Expr) : Binds t (applyAccess t read target id) := by
  unfold applyAccess
  refine (h.keeps.required_choice [.accessField, .accessArray, .accessCall, .postOp] rfl).bind ?_
  rintro part ⟨hlt, k, hk, hmade⟩
  have hpart : Made t k part := hmade
  have hbelow := hread.mono hlt.le
  rw [hpart.ruleOf_eq]
  simp only [List.mem_cons, List.not_mem_nil, or_false] at hk
  rcases hk with rfl | rfl | rfl | rfl
  · refine (hpart.keeps.required rfl).bind fun name hname => ?_
    exact (ident_binds hname.2).bind fun _ _ => .ok trivial
  · refine (hpart.keeps.required rfl).bind fun index hindex => ?_
    exact (hbelow index hindex.1 .expr (by decide) hindex.2).bind fun _ _ => .ok trivial
  · refine (hpart.keeps.items rfl).bind ?_
    rintro ⟨args, commas⟩ hitems
    have hargs : ∀ arg ∈ args, Binds t (read arg) := fun arg harg =>
      hbelow arg (hitems.elements arg harg).1 .expr (by decide) (hitems.elements arg harg).2
    exact (Reads.mapM hargs).bind fun _ _ => .ok trivial
  · obtain ⟨op, hop⟩ := hpart.postOp
    dsimp only
    rw [hop]
    exact .ok trivial

/-- An operand with its accesses reads when the expressions below it do. -/
theorem accessChain_binds (h : Made t .operand id) (hread : BindsBelow t exprKinds read id) :
    Binds t (accessChain t read id) := by
  unfold accessChain
  refine (h.keeps.expectCaptures rfl).bind fun _ _ => ?_
  refine (h.keeps.items rfl).bind ?_
  rintro ⟨accesses, separators⟩ hitems
  refine (h.keeps.required rfl).bind fun first hfirst => ?_
  refine (hread first hfirst.1 .atom (by decide) hfirst.2).bind fun e _ => ?_
  refine Reads.foldlM (fun target access haccess => ?_) e
  obtain ⟨hlt, hmade⟩ := hitems.elements access haccess
  exact applyAccess_binds hmade (hread.mono hlt.le) target

/-- A prefixed expression reads when the expression below it does. -/
theorem unary_binds (h : Made t .unopExpr id) (hread : BindsBelow t exprKinds read id) :
    Binds t (unary t read id) := by
  unfold unary
  refine (h.keeps.expectCaptures rfl).bind fun _ _ => ?_
  refine (h.keeps.required rfl).bind fun op hop => ?_
  obtain ⟨symbol, hsymbol⟩ := Made.unop hop.2
  rw [hsymbol]
  refine (h.keeps.required rfl).bind fun operand hoperand => ?_
  exact (hread operand hoperand.1 .operand (by decide) hoperand.2).bind fun _ _ => .ok trivial

/-- A choice between expressions is read as the alternative that it took. -/
theorem chosen_binds (kinds : List Kind) (hkept : (kept k)[0]? = some (.any (kinds.map .rule)))
    (hkinds : ∀ k ∈ kinds, k ∈ exprKinds) (h : Made t k id)
    (hread : BindsBelow t exprKinds read id) : Binds t (do read (← chosen t id)) := by
  refine (h.keeps.required_choice kinds hkept).bind ?_
  rintro part ⟨hlt, k, hk, hpart⟩
  exact hread part hlt k (hkinds k hk) hpart

end Expr

/-- Expressions are read to any depth. -/
theorem exprWithin_binds (t : Tree Kind) (depth : Nat) :
    BindsBelow t exprKinds (exprWithin t depth) depth := by
  induction depth with
  | zero => exact fun _ hpart => absurd hpart (Nat.not_lt_zero _)
  | succ depth ih =>
    intro id hid k hk h
    -- The parts of a node stand before it, so one level less is enough for them.
    have hbelow := ih.mono (Nat.le_of_lt_succ hid)
    rw [exprWithin, h.ruleOf_eq]
    simp only [exprKinds, List.mem_cons, List.not_mem_nil, or_false] at hk
    rcases hk with rfl | rfl | rfl | rfl | rfl | rfl | rfl | rfl | rfl | rfl
    · exact operatorList_binds h hbelow
    · exact accessChain_binds h hbelow
    · exact chosen_binds [.literal, .unopExpr, .parenExpr] rfl (by decide) h hbelow
    · exact chosen_binds [.bool, .float, .int, .id] rfl (by decide) h hbelow
    · refine (h.keeps.required rfl).bind fun part hpart => ?_
      exact hbelow part hpart.1 .expr (by decide) hpart.2
    · exact unary_binds h hbelow
    · exact intLiteral_binds h
    · exact floatLiteral_binds h
    · exact .ok trivial
    · exact (ident_binds h).map Expr.ident

/-- Every expression node reads, by induction on the node. -/
theorem expr_binds (hk : k ∈ exprKinds) (h : Made t k id) : Binds t (expr t id) :=
  exprWithin_binds t (id + 1) id (Nat.lt_succ_self id) k hk h

/-! ## Declarations -/

/-- Every type name node reads. -/
theorem typeDecl_binds (h : Made t .typeDecl id) : Binds t (typeDecl t id) := by
  unfold typeDecl
  refine (h.keeps.expectCaptures rfl).bind fun _ _ => ?_
  refine (h.keeps.items rfl).bind fun _ _ => ?_
  refine (h.keeps.required rfl).bind fun name hname => ?_
  exact (ident_binds hname.2).bind fun _ _ => .ok trivial

/-- Every type annotation node reads. -/
theorem typeTag_binds (h : Made t .typeTag id) : Binds t (typeTag t id) := by
  unfold typeTag
  refine (h.keeps.expectCaptures rfl).bind fun _ _ => ?_
  exact (h.keeps.required rfl).bind fun _ htype => typeDecl_binds htype.2

/-- Every initializer node reads. -/
theorem initializer_binds (h : Made t .init id) : Binds t (initializer t id) := by
  unfold initializer
  refine (h.keeps.expectCaptures rfl).bind fun _ _ => ?_
  refine (h.keeps.required_token rfl rfl).bind fun _ _ => ?_
  refine (h.keeps.required rfl).bind fun value hvalue => ?_
  exact (expr_binds (by decide) hvalue.2).bind fun _ _ => .ok trivial

/-- Every declarator node reads. -/
theorem varDecl_binds (h : Made t .varDecl id) : Binds t (varDecl t id) := by
  unfold varDecl
  refine (h.keeps.expectCaptures rfl).bind fun _ _ => ?_
  refine (h.keeps.optional rfl).bind fun init hinit => ?_
  refine (optionally_binds fun p hp => initializer_binds (hinit p hp).2).bind fun _ _ => ?_
  refine (h.keeps.required rfl).bind fun name hname => ?_
  refine (ident_binds hname.2).bind fun _ _ => ?_
  refine (h.keeps.optional rfl).bind fun type htype => ?_
  exact (optionally_binds fun p hp => typeTag_binds (htype p hp).2).bind fun _ _ => .ok trivial

/-- Every declaration list node reads. -/
theorem vars_binds (h : Made t .vars id) : Binds t (vars t id) := by
  unfold vars
  refine (h.keeps.expectCaptures rfl).bind fun _ _ => ?_
  refine (h.keeps.items rfl).bind ?_
  rintro ⟨decls, commas⟩ hitems
  refine (h.keeps.optional_token rfl rfl).bind fun _ _ => ?_
  have hdecls : ∀ decl ∈ decls, Binds t (varDecl t decl) := fun decl hdecl =>
    varDecl_binds (hitems.elements decl hdecl).2
  exact (Reads.mapM hdecls).bind fun _ _ => .ok trivial

/-- Every default value node reads. -/
theorem default_binds (h : Made t .default id) : Binds t (do expr t (← chosen t id)) :=
  (h.keeps.required rfl).bind fun _ hvalue => expr_binds (by decide) hvalue.2

/-- Every parameter node reads. -/
theorem param_binds (h : Made t .param id) : Binds t (param t id) := by
  unfold param
  refine (h.keeps.expectCaptures rfl).bind fun _ _ => ?_
  refine (h.keeps.optional rfl).bind fun default hdefault => ?_
  refine (optionally_binds fun p hp => default_binds (hdefault p hp).2).bind fun _ _ => ?_
  refine (h.keeps.required rfl).bind fun name hname => ?_
  refine (ident_binds hname.2).bind fun _ _ => ?_
  refine (h.keeps.optional rfl).bind fun type htype => ?_
  exact (optionally_binds fun p hp => typeTag_binds (htype p hp).2).bind fun _ _ => .ok trivial

section Stmt

/-- The rules whose nodes are read as statements: the choice and its alternatives. -/
def stmtKinds : List Kind :=
  [.stm, .emptyStm, .block, .ifStm, .forStm, .whileStm, .returnStm, .classDecl, .vars, .function,
   .exprStm]

variable {read : Read Stmt}

/-- A function's body reads, be it one expression or a statement below it. -/
theorem functionBody_binds (hk : k ∈ [Kind.exprBody, .stm]) (h : Made t k id)
    (hread : Made t .stm id → Binds t (read id)) : Binds t (functionBody t read id) := by
  rw [functionBody, h.ruleOf_eq]
  simp only [List.mem_cons, List.not_mem_nil, or_false] at hk
  rcases hk with rfl | rfl
  · refine (h.keeps.required rfl).bind fun value hvalue => ?_
    exact (expr_binds (by decide) hvalue.2).bind fun _ _ => .ok trivial
  · exact (hread h).map FunctionBody.stmt

/-- A function node reads when the statements below it do. -/
theorem function_binds (h : Made t .function id) (hread : BindsBelow t stmtKinds read id) :
    Binds t (function t read id) := by
  unfold function
  refine (h.keeps.expectCaptures rfl).bind fun _ _ => ?_
  refine (h.keeps.required rfl).bind fun list hlist => ?_
  refine (Made.keeps hlist.2).items rfl |>.bind ?_
  rintro ⟨params, commas⟩ hitems
  refine (h.keeps.required_choice [.exprBody, .stm] rfl).bind ?_
  rintro body ⟨hlt, k, hk, hbody⟩
  refine (functionBody_binds hk hbody (hread body hlt .stm (by decide))).bind fun _ _ => ?_
  refine (h.keeps.required rfl).bind fun name hname => ?_
  refine (ident_binds hname.2).bind fun _ _ => ?_
  have hparams : ∀ part ∈ params, Binds t (param t part) := fun part hpart =>
    param_binds (hitems.elements part hpart).2
  refine (Reads.mapM hparams).bind fun _ _ => ?_
  refine (h.keeps.optional rfl).bind fun ret hret => ?_
  exact (optionally_binds fun p hp => typeTag_binds (hret p hp).2).bind fun _ _ => .ok trivial

/-- A class member reads when the statements below it do. -/
theorem member_binds (h : Made t .member id) (hread : BindsBelow t stmtKinds read id) :
    Binds t (member t read id) := by
  unfold member
  refine (h.keeps.expectCaptures rfl).bind fun _ _ => ?_
  refine (h.keeps.required_choice [.vars, .function] rfl).bind ?_
  rintro part ⟨hlt, k, hk, hmade⟩
  have hpart : Made t k part := hmade
  have hkind : Binds t (memberKind t read part) := by
    rw [memberKind, hpart.ruleOf_eq]
    simp only [List.mem_cons, List.not_mem_nil, or_false] at hk
    rcases hk with rfl | rfl
    · exact (vars_binds hpart).map MemberKind.fields
    · exact (function_binds hpart (hread.mono hlt.le)).map MemberKind.method
  refine hkind.bind fun _ _ => ?_
  exact (h.keeps.optional_token rfl rfl).bind fun _ _ => .ok trivial

/-- A class declaration reads when the statements below it do. -/
theorem classDecl_binds (h : Made t .classDecl id) (hread : BindsBelow t stmtKinds read id) :
    Binds t (classDecl t read id) := by
  unfold classDecl
  refine (h.keeps.expectCaptures rfl).bind fun _ _ => ?_
  refine (h.keeps.items rfl).bind ?_
  rintro ⟨members, separators⟩ hitems
  refine (h.keeps.required rfl).bind fun name hname => ?_
  refine (ident_binds hname.2).bind fun _ _ => ?_
  have hmembers : ∀ part ∈ members, Binds t (member t read part) := by
    intro part hpart
    obtain ⟨hlt, hmade⟩ := hitems.elements part hpart
    exact member_binds hmade (hread.mono hlt.le)
  exact (Reads.mapM hmembers).bind fun _ _ => .ok trivial

/-! ## Statements -/

/-- A block reads when the statements below it do. -/
theorem block_binds (h : Made t .block id) (hread : BindsBelow t stmtKinds read id) :
    Binds t (block t read id) := by
  unfold block
  refine (h.keeps.expectCaptures rfl).bind fun _ _ => ?_
  refine (h.keeps.required rfl).bind ?_
  rintro list ⟨hlt, hlist⟩
  refine (Made.keeps hlist).items rfl |>.bind ?_
  rintro ⟨body, separators⟩ hitems
  have hbody : ∀ part ∈ body, Binds t (read part) := by
    intro part hpart
    obtain ⟨hpartlt, hmade⟩ := hitems.elements part hpart
    exact hread part (hpartlt.trans hlt) .stm (by decide) hmade
  exact (Reads.mapM hbody).bind fun _ _ => .ok trivial

/-- An else branch reads when the statement below it does. -/
theorem elseBranch_binds (h : Made t .elseBranch id) (hread : BindsBelow t stmtKinds read id) :
    Binds t (do read (← chosen t id)) :=
  (h.keeps.required rfl).bind fun part hpart => hread part hpart.1 .stm (by decide) hpart.2

/-- A conditional reads when the statements below it do. -/
theorem ifStmt_binds (h : Made t .ifStm id) (hread : BindsBelow t stmtKinds read id) :
    Binds t (ifStmt t read id) := by
  unfold ifStmt
  refine (h.keeps.expectCaptures rfl).bind fun _ _ => ?_
  refine (h.keeps.optional rfl).bind fun other hother => ?_
  refine (optionally_binds fun p hp =>
    elseBranch_binds (hother p hp).2 (hread.mono (hother p hp).1.le)).bind fun _ _ => ?_
  refine (h.keeps.required rfl).bind fun cond hcond => ?_
  refine (expr_binds (by decide) hcond.2).bind fun _ _ => ?_
  refine (h.keeps.required rfl).bind fun body hbody => ?_
  exact (hread body hbody.1 .stm (by decide) hbody.2).bind fun _ _ => .ok trivial

/-- A loop over a value reads when the statements below it do. -/
theorem forStmt_binds (h : Made t .forStm id) (hread : BindsBelow t stmtKinds read id) :
    Binds t (forStmt t read id) := by
  unfold forStmt
  refine (h.keeps.expectCaptures rfl).bind fun _ _ => ?_
  refine (h.keeps.required rfl).bind fun name hname => ?_
  refine (ident_binds hname.2).bind fun _ _ => ?_
  refine (h.keeps.required rfl).bind fun iterable hiterable => ?_
  refine (expr_binds (by decide) hiterable.2).bind fun _ _ => ?_
  refine (h.keeps.required rfl).bind fun body hbody => ?_
  exact (hread body hbody.1 .stm (by decide) hbody.2).bind fun _ _ => .ok trivial

/-- A loop on a condition reads when the statements below it do. -/
theorem whileStmt_binds (h : Made t .whileStm id) (hread : BindsBelow t stmtKinds read id) :
    Binds t (whileStmt t read id) := by
  unfold whileStmt
  refine (h.keeps.expectCaptures rfl).bind fun _ _ => ?_
  refine (h.keeps.required rfl).bind fun cond hcond => ?_
  refine (expr_binds (by decide) hcond.2).bind fun _ _ => ?_
  refine (h.keeps.required rfl).bind fun body hbody => ?_
  exact (hread body hbody.1 .stm (by decide) hbody.2).bind fun _ _ => .ok trivial

/-- Every return statement node reads. -/
theorem returnStmt_binds (h : Made t .returnStm id) : Binds t (returnStmt t id) := by
  unfold returnStmt
  refine (h.keeps.expectCaptures rfl).bind fun _ _ => ?_
  refine (h.keeps.optional rfl).bind fun value hvalue => ?_
  exact (optionally_binds fun p hp =>
    expr_binds (by decide) (hvalue p hp).2).bind fun _ _ => .ok trivial

/-- Every expression statement node reads. -/
theorem exprStmt_binds (h : Made t .exprStm id) : Binds t (exprStmt t id) := by
  unfold exprStmt
  refine (h.keeps.expectCaptures rfl).bind fun _ _ => ?_
  refine (h.keeps.required rfl).bind fun value hvalue => ?_
  exact (expr_binds (by decide) hvalue.2).bind fun _ _ => .ok trivial

/-- A statement is an alternative of the choice, at the node itself or before it. -/
theorem stmtNode_reads (hk : k ∈ stmtKinds) (h : Made t k id) :
    Reads (Unreadable t) (fun part => part ≤ id ∧ ∃ k ∈ stmtKinds.tail, Made t k part) (stmtNode t id) := by
  unfold stmtNode
  rw [h.ruleOf_eq]
  split
  · rename_i heq
    cases heq
    refine (h.keeps.required_choice stmtKinds.tail rfl).imp ?_
    rintro part ⟨hlt, hpart⟩
    exact ⟨hlt.le, hpart⟩
  · rename_i hne
    rcases List.mem_cons.1 hk with rfl | hk
    · exact absurd rfl hne
    · exact .ok ⟨le_rfl, k, hk, h⟩

end Stmt

/-- Statements are read to any depth. -/
theorem stmtWithin_binds (t : Tree Kind) (depth : Nat) :
    BindsBelow t stmtKinds (stmtWithin t depth) depth := by
  induction depth with
  | zero => exact fun _ hpart => absurd hpart (Nat.not_lt_zero _)
  | succ depth ih =>
    intro start hstart k hk hmade
    rw [stmtWithin]
    refine (stmtNode_reads hk hmade).bind ?_
    rintro id ⟨hle, k, hk, h⟩
    -- The step to the alternative takes no level of its own; its parts stand before it.
    have hbelow := ih.mono (hle.trans (Nat.le_of_lt_succ hstart))
    rw [h.ruleOf_eq]
    simp only [stmtKinds, List.tail_cons, List.mem_cons, List.not_mem_nil, or_false] at hk
    rcases hk with rfl | rfl | rfl | rfl | rfl | rfl | rfl | rfl | rfl | rfl
    · exact .ok trivial
    · exact block_binds h hbelow
    · exact ifStmt_binds h hbelow
    · exact forStmt_binds h hbelow
    · exact whileStmt_binds h hbelow
    · exact returnStmt_binds h
    · exact (classDecl_binds h hbelow).map Stmt.classDecl
    · exact (vars_binds h).map Stmt.vars
    · exact (function_binds h hbelow).map Stmt.function
    · exact exprStmt_binds h

/-- Every statement node reads, by induction on the node. -/
theorem stmt_binds (hk : k ∈ stmtKinds) (h : Made t k id) : Binds t (stmt t id) :=
  stmtWithin_binds t (id + 1) id (Nat.lt_succ_self id) k hk h

/-- Every program node reads. -/
theorem program_binds (h : Made t .stms id) : Binds t (program t id) := by
  unfold program
  refine (h.keeps.expectCaptures rfl).bind fun _ _ => ?_
  refine (h.keeps.items rfl).bind ?_
  rintro ⟨body, separators⟩ hitems
  have hbody : ∀ part ∈ body, Binds t (stmt t part) := fun part hpart =>
    stmt_binds (by decide) (hitems.elements part hpart).2
  exact (Reads.mapM hbody).bind fun _ _ => .ok trivial

end ExpLang.Syntax
