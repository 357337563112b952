import ExpLang.Proofs.Syntax.Agreement
import ExpLang.Proofs.Syntax.Pairs
import ExpLang.Proofs.Syntax.Spans

/-!
# Whitespace between tokens does not matter

A space behind a token of a program leaves the program as it is, but for its spans, and these are
shifted with the text. The trees of the two sources are twins, so each construct is followed over
paired nodes: where reading the first one gives a construct, reading the second one gives the same
construct with spread spans.

The readers of expressions and of statements are bounded by the index of a node. The indices of paired
nodes need not be equal, so the two bounds are independent of each other.
-/

namespace ExpLang.Syntax

variable {α β : Type} {t t' : Tree Kind} {offset : Nat} {id id' : NodeId} {k : Kind}

/-- A way to read constructs and another one give constructs that differ by a map, at all paired
nodes of some rules whose second one stands before a node. -/
def CarriesBelow (t t' : Tree Kind) (offset : Nat) (kinds : List Kind) (g : α → α)
    (read read' : Read α) (bound : NodeId) : Prop :=
  ∀ part part', part' < bound → ∀ k ∈ kinds, Paired t t' offset (.rule k) part part' →
    Carries g (read part) (read' part')

/-- What carries below a node carries below every node under it. -/
theorem CarriesBelow.mono {kinds : List Kind} {g : α → α} {read read' : Read α}
    {bound lower : NodeId} (h : CarriesBelow t t' offset kinds g read read' bound)
    (hle : lower ≤ bound) : CarriesBelow t t' offset kinds g read read' lower :=
  fun part part' hlt => h part part' (lt_of_lt_of_le hlt hle)

/-- Paired identifiers read alike, with the span moved apart. -/
theorem ident_carries (h : Paired t t' offset (.rule .id) id id') :
    Carries (Ident.mapSpans (.spread offset)) (ident t id) (ident t' id') := by
  rw [ident, if_pos (Made.ruleOf_eq h.made), ident, if_pos h.ruleOf_eq]
  refine .ok ?_
  rw [Ident.mapSpans, h.text_eq rfl rfl, h.spanOf_eq rfl]

/-- Optional parts read alike when the parts do. -/
theorem optionally_carries {R : NodeId → NodeId → Prop} {g : α → β} {read : Read α} {read' : Read β}
    {part part' : Option NodeId} (h : Option.Rel R part part')
    (hread : ∀ p p', R p p' → Carries g (read p) (read' p')) :
    Carries (Option.map g) (optionally read part) (optionally read' part') := by
  cases h with
  | none => exact .ok rfl
  | some hp => exact (hread _ _ hp).map fun _ _ hb => congrArg some hb

/-! ## Expressions -/

section Expr

variable {read read' : Read Expr}

/-- Paired integer literals read alike. -/
theorem intLiteral_carries (h : Paired t t' offset (.rule .int) id id') :
    Carries (Expr.mapSpans (.spread offset)) (intLiteral t id) (intLiteral t' id') := by
  unfold intLiteral
  rw [h.text_eq rfl rfl, h.spanOf_eq rfl]
  split
  · exact .ok rfl
  · exact .error

/-- Paired float literals read alike. -/
theorem floatLiteral_carries (h : Paired t t' offset (.rule .float) id id') :
    Carries (Expr.mapSpans (.spread offset)) (floatLiteral t id) (floatLiteral t' id') := by
  unfold floatLiteral
  rw [h.text_eq rfl rfl, h.spanOf_eq rfl]
  split
  · exact .ok rfl
  · exact .error

/-- Paired expressions fold their operators alike when the operands below them read alike. -/
theorem operatorList_carries (h : Paired t t' offset (.rule .expr) id id')
    (hread : CarriesBelow t t' offset exprKinds (Expr.mapSpans (.spread offset)) read read' id') :
    Carries (Expr.mapSpans (.spread offset)) (operatorList t read id) (operatorList t' read' id') := by
  unfold operatorList
  refine (h.items rfl).bind ?_
  rintro ⟨operands, operators⟩ ⟨operands', operators'⟩ ⟨hoperands, hoperators⟩
  refine (Follows.mapM hoperands fun part part' hpart =>
    hread part part' hpart.1 .operand (by decide) hpart.2).bind ?_
  rintro exprs _ rfl
  have hsymbols : List.Forall₂ (fun op op' => op'.1 = op.1)
      (operators.map fun op => (t.text op, spanOf t op))
      (operators'.map fun op => (t'.text op, spanOf t' op)) := by
    rw [List.forall₂_map_left_iff, List.forall₂_map_right_iff]
    exact hoperators.imp fun op op' hop => (hop _ rfl).text_eq rfl rfl
  intro e he
  cases hfold : foldOperators exprs (operators.map fun op => (t.text op, spanOf t op)) with
  | error e =>
    rw [hfold] at he
    cases he
  | ok e' =>
    rw [hfold] at he
    cases he
    rw [foldOperators_mapSpans (Span.spread_merge offset) hsymbols hfold]
    exact ⟨_, rfl, rfl⟩

/-- Paired accesses on one target read alike when the expressions below them do. -/
theorem applyAccess_carries (h : Paired t t' offset (.rule .access) id id')
    (hread : CarriesBelow t t' offset exprKinds (Expr.mapSpans (.spread offset)) read read' id')
    (target : Expr) :
    Carries (Expr.mapSpans (.spread offset)) (applyAccess t read target id)
      (applyAccess t' read' (target.mapSpans (.spread offset)) id') := by
  unfold applyAccess
  refine (h.required_choice [.accessField, .accessArray, .accessCall, .postOp] rfl).bind ?_
  rintro part part' ⟨hlt, k, hk, hpart⟩
  have hbelow := hread.mono hlt.le
  rw [Made.ruleOf_eq hpart.made, hpart.ruleOf_eq]
  simp only [List.mem_cons, List.not_mem_nil, or_false] at hk
  have hspan (hk : hasText (.rule k) = true) :
      (target.mapSpans (.spread offset)).span.merge (spanOf t' part') =
        (target.span.merge (spanOf t part)).spread offset := by
    rw [Expr.span_mapSpans, hpart.spanOf_eq hk, Span.spread_merge]
  rcases hk with rfl | rfl | rfl | rfl
  · refine (hpart.required rfl).bind fun name name' hname => ?_
    refine (ident_carries hname.2).bind ?_
    rintro name _ rfl
    exact .ok (congrArg _ (hspan rfl))
  · refine (hpart.required rfl).bind fun index index' hindex => ?_
    refine (hbelow index index' hindex.1 .expr (by decide) hindex.2).bind ?_
    rintro e _ rfl
    exact .ok (congrArg _ (hspan rfl))
  · refine (hpart.items rfl).bind ?_
    rintro ⟨args, commas⟩ ⟨args', commas'⟩ ⟨hargs, -⟩
    refine (Follows.mapM hargs fun arg arg' harg =>
      hbelow arg arg' harg.1 .expr (by decide) harg.2).bind ?_
    rintro args _ rfl
    refine .ok ?_
    rw [Expr.mapSpans, mapSpansArgs_eq, hspan rfl]
  · dsimp only
    rw [hpart.text_eq rfl rfl, hspan rfl]
    split
    · exact .ok rfl
    · exact .error

/-- Paired operands read alike with all their accesses. -/
theorem accessChain_carries (h : Paired t t' offset (.rule .operand) id id')
    (hread : CarriesBelow t t' offset exprKinds (Expr.mapSpans (.spread offset)) read read' id') :
    Carries (Expr.mapSpans (.spread offset)) (accessChain t read id) (accessChain t' read' id') := by
  unfold accessChain
  refine (h.expectCaptures 2).bind fun _ _ _ => ?_
  refine (h.items rfl).bind ?_
  rintro ⟨accesses, separators⟩ ⟨accesses', separators'⟩ ⟨haccesses, -⟩
  refine (h.required rfl).bind fun first first' hfirst => ?_
  refine (hread first first' hfirst.1 .atom (by decide) hfirst.2).bind ?_
  rintro e _ rfl
  exact Follows.foldlM haccesses (fun target access access' haccess =>
    applyAccess_carries haccess.2 (hread.mono haccess.1.le) target) e

/-- Paired prefixed expressions read alike when their operands do. -/
theorem unary_carries (h : Paired t t' offset (.rule .unopExpr) id id')
    (hread : CarriesBelow t t' offset exprKinds (Expr.mapSpans (.spread offset)) read read' id') :
    Carries (Expr.mapSpans (.spread offset)) (unary t read id) (unary t' read' id') := by
  unfold unary
  refine (h.expectCaptures 2).bind fun _ _ _ => ?_
  refine (h.required rfl).bind fun op op' hop => ?_
  rw [hop.2.text_eq rfl rfl]
  split
  · refine (h.required rfl).bind fun operand operand' hoperand => ?_
    refine (hread operand operand' hoperand.1 .operand (by decide) hoperand.2).bind ?_
    rintro e _ rfl
    exact .ok (congrArg _ (h.spanOf_eq rfl))
  · exact .error

/-- A choice between expressions. -/
theorem chosen_carries (kinds : List Kind) (hkept : (kept k)[0]? = some (.any (kinds.map .rule)))
    (hkinds : ∀ k ∈ kinds, k ∈ exprKinds) (h : Paired t t' offset (.rule k) id id')
    (hread : CarriesBelow t t' offset exprKinds (Expr.mapSpans (.spread offset)) read read' id') :
    Carries (Expr.mapSpans (.spread offset)) (do read (← chosen t id)) (do read' (← chosen t' id')) := by
  refine (h.required_choice kinds hkept).bind ?_
  rintro part part' ⟨hlt, k, hk, hpart⟩
  exact hread part part' hlt k (hkinds k hk) hpart

end Expr

/-- Expressions of any depth, where the second bound is large enough. -/
theorem exprWithin_carries (t t' : Tree Kind) (offset depth depth' : Nat) :
    CarriesBelow t t' offset exprKinds (Expr.mapSpans (.spread offset)) (exprWithin t depth)
      (exprWithin t' depth') depth' := by
  induction depth generalizing depth' with
  | zero => exact fun _ _ _ _ _ _ => .error
  | succ depth ih =>
    intro id id' hid k hk h
    obtain ⟨depth', rfl⟩ := Nat.exists_eq_add_one_of_ne_zero (Nat.ne_zero_of_lt hid)
    have hbelow := (ih depth').mono (Nat.le_of_lt_succ hid)
    rw [exprWithin, exprWithin, Made.ruleOf_eq h.made, h.ruleOf_eq]
    simp only [exprKinds, List.mem_cons, List.not_mem_nil, or_false] at hk
    rcases hk with rfl | rfl | rfl | rfl | rfl | rfl | rfl | rfl | rfl | rfl
    · exact operatorList_carries h hbelow
    · exact accessChain_carries h hbelow
    · exact chosen_carries [.literal, .unopExpr, .parenExpr] rfl (by decide) h hbelow
    · exact chosen_carries [.bool, .float, .int, .id] rfl (by decide) h hbelow
    · refine (h.required rfl).bind fun part part' hpart => ?_
      exact hbelow part part' hpart.1 .expr (by decide) hpart.2
    · exact unary_carries h hbelow
    · exact intLiteral_carries h
    · exact floatLiteral_carries h
    · refine .ok ?_
      rw [Expr.mapSpans, h.text_eq rfl rfl, h.spanOf_eq rfl]
    · exact (ident_carries h).map fun _ _ hname => congrArg Expr.ident hname

/-- Paired expressions read alike, by induction on the second node. -/
theorem expr_carries (hk : k ∈ exprKinds) (h : Paired t t' offset (.rule k) id id') :
    Carries (Expr.mapSpans (.spread offset)) (expr t id) (expr t' id') :=
  exprWithin_carries t t' offset (id + 1) (id' + 1) id id' (Nat.lt_succ_self id') k hk h

/-! ## Declarations -/

/-- Paired type names read alike. -/
theorem typeDecl_carries (h : Paired t t' offset (.rule .typeDecl) id id') :
    Carries (TypeRef.mapSpans (.spread offset)) (typeDecl t id) (typeDecl t' id') := by
  unfold typeDecl
  refine (h.expectCaptures 2).bind fun _ _ _ => ?_
  refine (h.items rfl).bind ?_
  rintro ⟨dims, separators⟩ ⟨dims', separators'⟩ ⟨hdims, -⟩
  refine (h.required rfl).bind fun name name' hname => ?_
  refine (ident_carries hname.2).bind ?_
  rintro name _ rfl
  refine .ok ?_
  rw [TypeRef.mapSpans, hdims.length_eq, h.spanOf_eq rfl]

/-- Paired type annotations read alike. -/
theorem typeTag_carries (h : Paired t t' offset (.rule .typeTag) id id') :
    Carries (TypeRef.mapSpans (.spread offset)) (typeTag t id) (typeTag t' id') := by
  unfold typeTag
  refine (h.expectCaptures 1).bind fun _ _ _ => ?_
  exact (h.required rfl).bind fun type type' htype => typeDecl_carries htype.2

/-- Paired initializers read alike, both with the same kind of assignment. -/
theorem initializer_carries (h : Paired t t' offset (.rule .init) id id') :
    Carries (Prod.map (Expr.mapSpans (.spread offset)) fun b => b) (initializer t id)
      (initializer t' id') := by
  unfold initializer
  refine (h.expectCaptures 2).bind fun _ _ _ => ?_
  refine (h.required_literals rfl).bind fun mark mark' hmark => ?_
  refine (h.required rfl).bind fun value value' hvalue => ?_
  refine (expr_carries (by decide) hvalue.2).bind ?_
  rintro e _ rfl
  refine .ok ?_
  rw [hmark]
  rfl

/-- Paired declarators read alike. -/
theorem varDecl_carries (h : Paired t t' offset (.rule .varDecl) id id') :
    Carries (VarDecl.mapSpans (.spread offset)) (varDecl t id) (varDecl t' id') := by
  unfold varDecl
  refine (h.expectCaptures 3).bind fun _ _ _ => ?_
  refine (h.optional rfl).bind fun init init' hinit => ?_
  refine (optionally_carries hinit fun p p' hp => initializer_carries hp.2).bind ?_
  rintro init _ rfl
  refine (h.required rfl).bind fun name name' hname => ?_
  refine (ident_carries hname.2).bind ?_
  rintro name _ rfl
  refine (h.optional rfl).bind fun type type' htype => ?_
  refine (optionally_carries htype fun p p' hp => typeTag_carries hp.2).bind ?_
  rintro type _ rfl
  refine .ok ?_
  rw [VarDecl.mapSpans, h.spanOf_eq rfl]
  cases init <;> rfl

/-- Paired declaration lists read alike. -/
theorem vars_carries (h : Paired t t' offset (.rule .vars) id id') :
    Carries (VarsDecl.mapSpans (.spread offset)) (vars t id) (vars t' id') := by
  unfold vars
  refine (h.expectCaptures 2).bind fun _ _ _ => ?_
  refine (h.items rfl).bind ?_
  rintro ⟨decls, commas⟩ ⟨decls', commas'⟩ ⟨hdecls, -⟩
  refine (h.optional_token rfl rfl).bind fun mark mark' hmark => ?_
  refine (Follows.mapM hdecls fun decl decl' hdecl => varDecl_carries hdecl.2).bind ?_
  rintro decls _ rfl
  refine .ok ?_
  rw [VarsDecl.mapSpans, h.spanOf_eq rfl, hmark]

/-- Paired default values read alike. -/
theorem default_carries (h : Paired t t' offset (.rule .default) id id') :
    Carries (Expr.mapSpans (.spread offset)) (do expr t (← chosen t id))
      (do expr t' (← chosen t' id')) :=
  (h.required rfl).bind fun _ _ hvalue => expr_carries (by decide) hvalue.2

/-- Paired parameters read alike. -/
theorem param_carries (h : Paired t t' offset (.rule .param) id id') :
    Carries (Param.mapSpans (.spread offset)) (param t id) (param t' id') := by
  unfold param
  refine (h.expectCaptures 3).bind fun _ _ _ => ?_
  refine (h.optional rfl).bind fun default default' hdefault => ?_
  refine (optionally_carries hdefault fun p p' hp => default_carries hp.2).bind ?_
  rintro default _ rfl
  refine (h.required rfl).bind fun name name' hname => ?_
  refine (ident_carries hname.2).bind ?_
  rintro name _ rfl
  refine (h.optional rfl).bind fun type type' htype => ?_
  refine (optionally_carries htype fun p p' hp => typeTag_carries hp.2).bind ?_
  rintro type _ rfl
  refine .ok ?_
  rw [Param.mapSpans, h.spanOf_eq rfl]

section Stmt

variable {read read' : Read Stmt}

/-- Paired function bodies read alike when the statements below them do. -/
theorem functionBody_carries (hk : k ∈ [Kind.exprBody, .stm]) (h : Paired t t' offset (.rule k) id id')
    (hread : Paired t t' offset (.rule .stm) id id' →
      Carries (Stmt.mapSpans (.spread offset)) (read id) (read' id')) :
    Carries (FunctionBody.mapSpans (.spread offset) (Stmt.mapSpans (.spread offset)))
      (functionBody t read id) (functionBody t' read' id') := by
  rw [functionBody, functionBody, Made.ruleOf_eq h.made, h.ruleOf_eq]
  simp only [List.mem_cons, List.not_mem_nil, or_false] at hk
  rcases hk with rfl | rfl
  · refine (h.required rfl).bind fun value value' hvalue => ?_
    refine (expr_carries (by decide) hvalue.2).bind ?_
    rintro e _ rfl
    exact .ok rfl
  · exact (hread h).map fun _ _ hs => congrArg FunctionBody.stmt hs

/-- Paired functions read alike when the statements below them do. -/
theorem function_carries (h : Paired t t' offset (.rule .function) id id')
    (hread : CarriesBelow t t' offset stmtKinds (Stmt.mapSpans (.spread offset)) read read' id') :
    Carries (FunctionDecl.mapSpans (.spread offset) (Stmt.mapSpans (.spread offset)))
      (function t read id) (function t' read' id') := by
  unfold function
  refine (h.expectCaptures 4).bind fun _ _ _ => ?_
  refine (h.required rfl).bind fun list list' hlist => ?_
  refine (hlist.2.items rfl).bind ?_
  rintro ⟨params, commas⟩ ⟨params', commas'⟩ ⟨hparams, -⟩
  refine (h.required_choice [.exprBody, .stm] rfl).bind ?_
  rintro body body' ⟨hlt, k, hk, hbody⟩
  refine (functionBody_carries hk hbody (hread body body' hlt .stm (by decide))).bind ?_
  rintro body _ rfl
  refine (h.required rfl).bind fun name name' hname => ?_
  refine (ident_carries hname.2).bind ?_
  rintro name _ rfl
  refine (Follows.mapM hparams fun p p' hp => param_carries hp.2).bind ?_
  rintro params _ rfl
  refine (h.optional rfl).bind fun ret ret' hret => ?_
  refine (optionally_carries hret fun p p' hp => typeTag_carries hp.2).bind ?_
  rintro ret _ rfl
  refine .ok ?_
  rw [FunctionDecl.mapSpans, h.spanOf_eq rfl]

/-- Paired class members read alike when the statements below them do. -/
theorem member_carries (h : Paired t t' offset (.rule .member) id id')
    (hread : CarriesBelow t t' offset stmtKinds (Stmt.mapSpans (.spread offset)) read read' id') :
    Carries (MemberDecl.mapSpans (.spread offset) (Stmt.mapSpans (.spread offset)))
      (member t read id) (member t' read' id') := by
  unfold member
  refine (h.expectCaptures 2).bind fun _ _ _ => ?_
  refine (h.required_choice [.vars, .function] rfl).bind ?_
  rintro part part' ⟨hlt, k, hk, hpart⟩
  have hkind : Carries (MemberKind.mapSpans (.spread offset) (Stmt.mapSpans (.spread offset)))
      (memberKind t read part) (memberKind t' read' part') := by
    rw [memberKind, memberKind, Made.ruleOf_eq hpart.made, hpart.ruleOf_eq]
    simp only [List.mem_cons, List.not_mem_nil, or_false] at hk
    rcases hk with rfl | rfl
    · exact (vars_carries hpart).map fun _ _ hd => congrArg MemberKind.fields hd
    · exact (function_carries hpart (hread.mono hlt.le)).map fun _ _ hd =>
        congrArg MemberKind.method hd
  refine hkind.bind ?_
  rintro kind _ rfl
  refine (h.optional_token rfl rfl).bind fun mark mark' hmark => ?_
  refine .ok ?_
  rw [MemberDecl.mapSpans, h.spanOf_eq rfl, hmark]

/-- Paired class declarations read alike when the statements below them do. -/
theorem classDecl_carries (h : Paired t t' offset (.rule .classDecl) id id')
    (hread : CarriesBelow t t' offset stmtKinds (Stmt.mapSpans (.spread offset)) read read' id') :
    Carries (ClassDecl.mapSpans (.spread offset) (Stmt.mapSpans (.spread offset)))
      (classDecl t read id) (classDecl t' read' id') := by
  unfold classDecl
  refine (h.expectCaptures 2).bind fun _ _ _ => ?_
  refine (h.items rfl).bind ?_
  rintro ⟨members, separators⟩ ⟨members', separators'⟩ ⟨hmembers, -⟩
  refine (h.required rfl).bind fun name name' hname => ?_
  refine (ident_carries hname.2).bind ?_
  rintro name _ rfl
  refine (Follows.mapM hmembers fun part part' hpart =>
    member_carries hpart.2 (hread.mono hpart.1.le)).bind ?_
  rintro members _ rfl
  refine .ok ?_
  rw [ClassDecl.mapSpans, h.spanOf_eq rfl]

/-! ## Statements -/

/-- Paired blocks read alike when the statements below them do. -/
theorem block_carries (h : Paired t t' offset (.rule .block) id id')
    (hread : CarriesBelow t t' offset stmtKinds (Stmt.mapSpans (.spread offset)) read read' id') :
    Carries (Stmt.mapSpans (.spread offset)) (block t read id) (block t' read' id') := by
  unfold block
  refine (h.expectCaptures 1).bind fun _ _ _ => ?_
  refine (h.required rfl).bind ?_
  rintro list list' ⟨hlt, hlist⟩
  refine (hlist.items rfl).bind ?_
  rintro ⟨body, separators⟩ ⟨body', separators'⟩ ⟨hbody, -⟩
  refine (Follows.mapM hbody fun part part' hpart =>
    hread part part' (hpart.1.trans hlt) .stm (by decide) hpart.2).bind ?_
  rintro body _ rfl
  refine .ok ?_
  rw [Stmt.mapSpans, mapSpansAll_eq, h.spanOf_eq rfl]

/-- Paired else branches read alike when the statements below them do. -/
theorem elseBranch_carries (h : Paired t t' offset (.rule .elseBranch) id id')
    (hread : CarriesBelow t t' offset stmtKinds (Stmt.mapSpans (.spread offset)) read read' id') :
    Carries (Stmt.mapSpans (.spread offset)) (do read (← chosen t id)) (do read' (← chosen t' id')) :=
  (h.required rfl).bind fun part part' hpart => hread part part' hpart.1 .stm (by decide) hpart.2

/-- Paired conditionals read alike when the statements below them do. -/
theorem ifStmt_carries (h : Paired t t' offset (.rule .ifStm) id id')
    (hread : CarriesBelow t t' offset stmtKinds (Stmt.mapSpans (.spread offset)) read read' id') :
    Carries (Stmt.mapSpans (.spread offset)) (ifStmt t read id) (ifStmt t' read' id') := by
  unfold ifStmt
  refine (h.expectCaptures 3).bind fun _ _ _ => ?_
  refine (h.optional rfl).bind fun other other' hother => ?_
  refine (optionally_carries hother fun p p' hp =>
    elseBranch_carries hp.2 (hread.mono hp.1.le)).bind ?_
  rintro other _ rfl
  refine (h.required rfl).bind fun cond cond' hcond => ?_
  refine (expr_carries (by decide) hcond.2).bind ?_
  rintro cond _ rfl
  refine (h.required rfl).bind fun body body' hbody => ?_
  refine (hread body body' hbody.1 .stm (by decide) hbody.2).bind ?_
  rintro body _ rfl
  refine .ok ?_
  rw [Stmt.mapSpans_ifElse, h.spanOf_eq rfl]

/-- Paired loops over a value read alike when the statements below them do. -/
theorem forStmt_carries (h : Paired t t' offset (.rule .forStm) id id')
    (hread : CarriesBelow t t' offset stmtKinds (Stmt.mapSpans (.spread offset)) read read' id') :
    Carries (Stmt.mapSpans (.spread offset)) (forStmt t read id) (forStmt t' read' id') := by
  unfold forStmt
  refine (h.expectCaptures 3).bind fun _ _ _ => ?_
  refine (h.required rfl).bind fun name name' hname => ?_
  refine (ident_carries hname.2).bind ?_
  rintro name _ rfl
  refine (h.required rfl).bind fun iterable iterable' hiterable => ?_
  refine (expr_carries (by decide) hiterable.2).bind ?_
  rintro iterable _ rfl
  refine (h.required rfl).bind fun body body' hbody => ?_
  refine (hread body body' hbody.1 .stm (by decide) hbody.2).bind ?_
  rintro body _ rfl
  refine .ok ?_
  rw [Stmt.mapSpans, h.spanOf_eq rfl]

/-- Paired loops on a condition read alike when the statements below them do. -/
theorem whileStmt_carries (h : Paired t t' offset (.rule .whileStm) id id')
    (hread : CarriesBelow t t' offset stmtKinds (Stmt.mapSpans (.spread offset)) read read' id') :
    Carries (Stmt.mapSpans (.spread offset)) (whileStmt t read id) (whileStmt t' read' id') := by
  unfold whileStmt
  refine (h.expectCaptures 2).bind fun _ _ _ => ?_
  refine (h.required rfl).bind fun cond cond' hcond => ?_
  refine (expr_carries (by decide) hcond.2).bind ?_
  rintro cond _ rfl
  refine (h.required rfl).bind fun body body' hbody => ?_
  refine (hread body body' hbody.1 .stm (by decide) hbody.2).bind ?_
  rintro body _ rfl
  refine .ok ?_
  rw [Stmt.mapSpans, h.spanOf_eq rfl]

/-- Paired return statements read alike. -/
theorem returnStmt_carries (h : Paired t t' offset (.rule .returnStm) id id') :
    Carries (Stmt.mapSpans (.spread offset)) (returnStmt t id) (returnStmt t' id') := by
  unfold returnStmt
  refine (h.expectCaptures 1).bind fun _ _ _ => ?_
  refine (h.optional rfl).bind fun value value' hvalue => ?_
  refine (optionally_carries hvalue fun p p' hp => expr_carries (by decide) hp.2).bind ?_
  rintro value _ rfl
  refine .ok ?_
  rw [Stmt.mapSpans, h.spanOf_eq rfl]

/-- Paired expression statements read alike. -/
theorem exprStmt_carries (h : Paired t t' offset (.rule .exprStm) id id') :
    Carries (Stmt.mapSpans (.spread offset)) (exprStmt t id) (exprStmt t' id') := by
  unfold exprStmt
  refine (h.expectCaptures 1).bind fun _ _ _ => ?_
  refine (h.required rfl).bind fun value value' hvalue => ?_
  refine (expr_carries (by decide) hvalue.2).bind ?_
  rintro e _ rfl
  refine .ok ?_
  rw [Stmt.mapSpans, h.spanOf_eq rfl]

/-- The alternative of a statement, at the node itself or before it. -/
theorem stmtNode_follows (hk : k ∈ stmtKinds) (h : Paired t t' offset (.rule k) id id') :
    Follows (fun part part' => part' ≤ id' ∧
        ∃ k ∈ stmtKinds.tail, Paired t t' offset (.rule k) part part')
      (stmtNode t id) (stmtNode t' id') := by
  unfold stmtNode
  rw [Made.ruleOf_eq h.made, h.ruleOf_eq]
  split
  · rename_i heq
    cases heq
    intro part hpart
    obtain ⟨part', hpart', hlt, hpaired⟩ := h.required_choice stmtKinds.tail rfl part hpart
    exact ⟨part', hpart', hlt.le, hpaired⟩
  · rename_i hne
    rcases List.mem_cons.1 hk with rfl | hk
    · exact absurd rfl hne
    · exact .ok ⟨le_rfl, k, hk, h⟩

end Stmt

/-- Statements of any depth, where the second bound is large enough. -/
theorem stmtWithin_carries (t t' : Tree Kind) (offset depth depth' : Nat) :
    CarriesBelow t t' offset stmtKinds (Stmt.mapSpans (.spread offset)) (stmtWithin t depth)
      (stmtWithin t' depth') depth' := by
  induction depth generalizing depth' with
  | zero => exact fun _ _ _ _ _ _ => .error
  | succ depth ih =>
    intro start start' hstart k hk hpaired
    obtain ⟨depth', rfl⟩ := Nat.exists_eq_add_one_of_ne_zero (Nat.ne_zero_of_lt hstart)
    rw [stmtWithin, stmtWithin]
    refine (stmtNode_follows hk hpaired).bind ?_
    rintro id id' ⟨hle, k, hk, h⟩
    have hbelow := (ih depth').mono (hle.trans (Nat.le_of_lt_succ hstart))
    rw [Made.ruleOf_eq h.made, h.ruleOf_eq]
    simp only [stmtKinds, List.tail_cons, List.mem_cons, List.not_mem_nil, or_false] at hk
    rcases hk with rfl | rfl | rfl | rfl | rfl | rfl | rfl | rfl | rfl | rfl
    · refine .ok ?_
      rw [Stmt.mapSpans, h.spanOf_eq rfl]
    · exact block_carries h hbelow
    · exact ifStmt_carries h hbelow
    · exact forStmt_carries h hbelow
    · exact whileStmt_carries h hbelow
    · exact returnStmt_carries h
    · refine (classDecl_carries h hbelow).map fun d _ hd => ?_
      rw [Stmt.mapSpans_classDecl, hd]
    · refine (vars_carries h).map fun d _ hd => ?_
      rw [Stmt.mapSpans, hd]
    · refine (function_carries h hbelow).map fun d _ hd => ?_
      rw [Stmt.mapSpans_function, hd]
    · exact exprStmt_carries h

/-- Paired statements read alike, by induction on the second node. -/
theorem stmt_carries (hk : k ∈ stmtKinds) (h : Paired t t' offset (.rule k) id id') :
    Carries (Stmt.mapSpans (.spread offset)) (stmt t id) (stmt t' id') :=
  stmtWithin_carries t t' offset (id + 1) (id' + 1) id id' (Nat.lt_succ_self id') k hk h

/-- A program with some text. -/
theorem program_carries (h : Paired t t' offset (.rule .stms) id id')
    (hlt : (spanOf t id).start < (spanOf t id).stop) :
    Carries (Program.mapSpans (.spread offset)) (program t id) (program t' id') := by
  unfold program
  refine (h.expectCaptures 1).bind fun _ _ _ => ?_
  refine (h.items rfl).bind ?_
  rintro ⟨body, separators⟩ ⟨body', separators'⟩ ⟨hbody, -⟩
  refine (Follows.mapM hbody fun part part' hpart => stmt_carries (by decide) hpart.2).bind ?_
  rintro body _ rfl
  refine .ok ?_
  rw [Program.mapSpans, (h.linked.span_eq hlt).1]

/-! ## Sources -/

section Sources

variable {source : Source} {config : ParseConfig} {p : Program}

/-- Reading a source is reading the root of its tree. -/
theorem parseProgram_eq_ok_iff : parseProgram source config = .ok p ↔
    ∃ parsed, language.parse .stms source config = .ok parsed ∧
      program parsed.tree parsed.root = .ok p := by
  unfold parseProgram readAs
  rw [grammar_eq]
  dsimp only
  cases language.parse .stms source config with
  | error e => simp
  | ok parsed =>
    cases hread : program parsed.tree parsed.root with
    | error e => simp [Except.mapError, hread]
    | ok q => simp [Except.mapError, hread]

/-- A source whose budget does not last is not read. -/
theorem parseProgram_of_exhausted {budget pos : Nat}
    (h : language.parse .stms source config = .error (.budgetExhausted budget pos)) :
    parseProgram source config = .error (.parse (.budgetExhausted budget pos)) := by
  unfold parseProgram readAs
  rw [grammar_eq]
  dsimp only
  rw [h]

end Sources

/-- Whitespace between tokens does not matter. A space behind any token of a source that is read as a
program gives a source that is read as a program too, provided that the budget lasts for it. The two
programs are equal without their spans, and each span of the second one is that of the first one,
spread by the space. Offsets being words of 32 bits, the text with the space has to be below 2 ^ 32
bytes. -/
theorem parseProgram_withSpace {g : Grammar Kind} {source : Source} {budget : Nat} {p : Program}
    {parsed : Parsed Kind} {tree : ParseTree Kind} {t : Span} (hg : grammar = .ok g)
    (hp : parseProgram source (parseConfig budget) = .ok p)
    (hparsed : g.parse .stms source (parseConfig budget) = .ok parsed)
    (htree : parsed.tree.nodes.treeAt? parsed.root = some tree) (ht : t ∈ tree.tokens)
    (_hsize : (source.withSpace t.stop).size < UInt32.size)
    (hbudget : ∀ spent pos, parseProgram (source.withSpace t.stop) (parseConfig budget) ≠
      .error (.parse (.budgetExhausted spent pos))) :
    ∃ p', parseProgram (source.withSpace t.stop) (parseConfig budget) = .ok p' ∧
      p'.erase = p.erase ∧ p' = p.mapSpans (Span.spread t.stop) := by
  obtain rfl : language = g := Except.ok.inj (grammar_eq.symm.trans hg)
  obtain ⟨_, hparse, hprogram⟩ := parseProgram_eq_ok_iff.1 hp
  obtain rfl := Except.ok.inj (hparsed.symm.trans hparse)
  have hlasts spent pos : language.parse .stms (source.withSpace t.stop) (parseConfig budget) ≠
      .error (.budgetExhausted spent pos) :=
    fun hspent => hbudget spent pos (parseProgram_of_exhausted hspent)
  obtain ⟨parsed', tree', hparse', hsource', htree', htwin, hlt⟩ :=
    parse_withSpace hparsed htree ht hlasts
  obtain ⟨hsource, -⟩ := Grammar.parse_fits hparsed
  rw [← hsource', ← hsource] at htwin
  have hpaired : Paired parsed.tree parsed'.tree t.stop (.rule .stms) parsed.root parsed'.root :=
    ⟨made_of_parse hparsed, tree, tree', htree, htree', htwin⟩
  have hspan : (spanOf parsed.tree parsed.root).start < (spanOf parsed.tree parsed.root).stop := by
    rw [spanOf, (Tree.node_of_treeAt? htree).2.1]
    exact hlt
  obtain ⟨_, hprogram', rfl⟩ := program_carries hpaired hspan p hprogram
  exact ⟨_, parseProgram_eq_ok_iff.2 ⟨parsed', hparse', hprogram'⟩, p.erase_mapSpans _, rfl⟩

/-- A space between a sign and a fraction that starts with its point. -/
theorem parseProgram_withSpace_sign :
    ∃ g parsed tree p, grammar = .ok g ∧
      parseProgram (.ofText "main" "a=-.5;") (parseConfig 200) = .ok p ∧
      g.parse .stms (.ofText "main" "a=-.5;") (parseConfig 200) = .ok parsed ∧
      parsed.tree.nodes.treeAt? parsed.root = some tree ∧ ⟨2, 3⟩ ∈ tree.tokens ∧
      (Source.ofText "main" "a=- .5;").size < UInt32.size ∧
      ∃ p', parseProgram (.ofText "main" "a=- .5;") (parseConfig 200) = .ok p' ∧
        p'.erase = p.erase ∧ p' = p.mapSpans (Span.spread 3) := by
  have hok : (parseProgram (.ofText "main" "a=-.5;") (parseConfig 200)).isOk = true := by
    decide +kernel
  have hspace : Source.ofText "main" "a=- .5;" =
      (Source.ofText "main" "a=-.5;").withSpace (⟨2, 3⟩ : Span).stop := by decide +kernel
  have hok' : (parseProgram (.ofText "main" "a=- .5;") (parseConfig 200)).isOk = true := by
    decide +kernel
  have htokens : (language.parse .stms (.ofText "main" "a=-.5;") (parseConfig 200)).toOption.bind
      (fun parsed => (parsed.tree.nodes.treeAt? parsed.root).map ParseTree.tokens) =
        some [⟨0, 1⟩, ⟨1, 2⟩, ⟨2, 3⟩, ⟨3, 5⟩, ⟨5, 6⟩] := by decide +kernel
  cases hp : parseProgram (.ofText "main" "a=-.5;") (parseConfig 200) with
  | error e =>
    rw [hp] at hok
    cases hok
  | ok p =>
    cases hparsed : language.parse .stms (.ofText "main" "a=-.5;") (parseConfig 200) with
    | error e =>
      rw [hparsed] at htokens
      cases htokens
    | ok parsed =>
      rw [hparsed] at htokens
      obtain ⟨tree, htree, htokens⟩ := Option.map_eq_some_iff.1 htokens
      have ht : (⟨2, 3⟩ : Span) ∈ tree.tokens := by
        rw [htokens]
        decide
      have hsize : (Source.ofText "main" "a=- .5;").size < UInt32.size := by decide +kernel
      refine ⟨language, parsed, tree, p, grammar_eq, rfl, hparsed, htree, ht, hsize, ?_⟩
      rw [hspace] at hok' hsize ⊢
      refine parseProgram_withSpace grammar_eq hp hparsed htree ht hsize fun spent pos hspent => ?_
      rw [hspent] at hok'
      cases hok'

end ExpLang.Syntax
