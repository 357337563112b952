import ExpLang.Decimal.Reading
import ExpLang.Grammar.Captures
import ExpLang.Syntax.Precedence
import ExpLang.Syntax.Rules

/-!
# From syntax trees to abstract syntax

Each construct is read off the captures of its node. A rule that is a choice is followed to the
alternative that matched. Parts of a node stand before it in the array of nodes, so the index of a
node bounds the depth of what it contains; a node that is deeper than that is refused.
-/

namespace ExpLang.Syntax

/-- A way to read a construct off a node. -/
abbrev Read (α : Type) := NodeId → Except BindError α

variable (t : Tree Kind)

/-- The rule that made a node. -/
def ruleOf (id : NodeId) : Option Kind := (t.node id).kind.rule?

/-- Where a node stands. -/
def spanOf (id : NodeId) : Span := (t.node id).span

/-- The refusal of a node of another kind. -/
def unexpected (id : NodeId) (expected : String) : BindError :=
  .unexpected (t.node id).kind.name expected id

/-- The alternative that a choice took. -/
def chosen : Read NodeId := fun id => t.required id 0

/-- Read a name. -/
def ident : Read Ident := fun id =>
  if ruleOf t id = some .id then .ok ⟨t.text id, spanOf t id⟩
  else .error (unexpected t id "an identifier")

/-- Read a part that may be missing. -/
def optionally {α : Type} (read : Read α) : Option NodeId → Except BindError (Option α)
  | none => .ok none
  | some id => some <$> read id

/-! ## Expressions -/

/-- Read an integer literal; underscores between digits do not count. -/
def intLiteral : Read Expr := fun id =>
  match Decimal.readInt? (String.ofList ((t.text id).toList.filter (· ≠ '_'))) with
  | some value => .ok (.int value (spanOf t id))
  | none => .error (.literal "integer" (t.text id) (spanOf t id))

/-- Read a fraction literal. -/
def floatLiteral : Read Expr := fun id =>
  match Decimal.readFraction? (t.text id) with
  | some value => .ok (.float value (spanOf t id))
  | none => .error (.literal "float" (t.text id) (spanOf t id))

/-- Read operands with operators between them. -/
def operatorList (expr : Read Expr) : Read Expr := fun id => do
  let (elements, separators) ← t.items id 0
  let operands ← elements.mapM expr
  match foldOperators operands (separators.map fun op => (t.text op, spanOf t op)) with
  | .ok e => return e
  | .error e => throw (.rejected e.message e.span)

/-- Read one access and apply it to what stands before it. -/
def applyAccess (expr : Read Expr) (target : Expr) (access : NodeId) : Except BindError Expr := do
  let part ← chosen t access
  let span := target.span.merge (spanOf t part)
  match ruleOf t part with
  | some .accessField => return .field target (← ident t (← chosen t part)) span
  | some .accessArray => return .index target (← expr (← chosen t part)) span
  | some .accessCall =>
    let (args, _) ← t.items part 0
    return .call target (← args.mapM expr) span
  | some .postOp => match PostfixOp.ofSymbol? (t.text part) with
    | some op => return .post op target span
    | none => throw (unexpected t part "`++` or `--`")
  | _ => throw (unexpected t part "a member access, index or call")

/-- Read an operand with the accesses after it, which apply from left to right. -/
def accessChain (expr : Read Expr) : Read Expr := fun id => do
  t.expectCaptures id 2
  let (accesses, _) ← t.items id 1
  let first ← expr (← t.required id 0)
  accesses.foldlM (applyAccess t expr) first

/-- Read an operator before its operand. -/
def unary (expr : Read Expr) : Read Expr := fun id => do
  t.expectCaptures id 2
  let opId ← t.required id 0
  match PrefixOp.ofSymbol? (t.text opId) with
  | some op => return .unary op (← expr (← t.required id 1)) (spanOf t id)
  | none => throw (unexpected t opId "a unary operator")

/-- Read an expression of a bounded depth. -/
def exprWithin : Nat → Read Expr
  | 0, id => .error (unexpected t id "an expression")
  | depth + 1, id => match ruleOf t id with
    | some .expr => operatorList t (exprWithin depth) id
    | some .operand => accessChain t (exprWithin depth) id
    | some .atom | some .literal | some .parenExpr => do exprWithin depth (← chosen t id)
    | some .unopExpr => unary t (exprWithin depth) id
    | some .int => intLiteral t id
    | some .float => floatLiteral t id
    | some .bool => .ok (.bool (t.text id == "true") (spanOf t id))
    | some .id => .ident <$> ident t id
    | _ => .error (unexpected t id "an expression")

/-- Read an expression. -/
def expr : Read Expr := fun id => exprWithin t (id + 1) id

/-! ## Declarations -/

/-- Read a type. -/
def typeDecl : Read TypeRef := fun id => do
  t.expectCaptures id 2
  let (dims, _) ← t.items id 1
  return ⟨← ident t (← t.required id 0), dims.length, spanOf t id⟩

/-- Read a type after its colon. -/
def typeTag : Read TypeRef := fun id => do
  t.expectCaptures id 1
  typeDecl t (← t.required id 0)

/-- Read a first value with whether it stands after an arrow. -/
def initializer : Read (Expr × Bool) := fun id => do
  t.expectCaptures id 2
  let deferred := t.text (← t.required id 0) == "=>"
  return (← expr t (← t.required id 1), deferred)

/-- Read one variable of a declaration. -/
def varDecl : Read VarDecl := fun id => do
  t.expectCaptures id 3
  let init ← optionally (initializer t) (← t.optional id 2)
  let name ← ident t (← t.required id 0)
  let type ← optionally (typeTag t) (← t.optional id 1)
  return ⟨name, type, init.map (·.1), init.elim false (·.2), spanOf t id⟩

/-- Read a declaration of variables. -/
def vars : Read VarsDecl := fun id => do
  t.expectCaptures id 2
  let (decls, _) ← t.items id 1
  let isLazy := (← t.optional id 0).isSome
  return ⟨isLazy, ← decls.mapM (varDecl t), spanOf t id⟩

/-- Read a parameter. -/
def param : Read Param := fun id => do
  t.expectCaptures id 3
  let default ← optionally (fun part => do expr t (← chosen t part)) (← t.optional id 2)
  let name ← ident t (← t.required id 0)
  let type ← optionally (typeTag t) (← t.optional id 1)
  return ⟨name, type, default, spanOf t id⟩

/-- Read what a function does. -/
def functionBody (stmt : Read Stmt) : Read (FunctionBody Stmt) := fun id =>
  match ruleOf t id with
  | some .exprBody => do return .expr (← expr t (← chosen t id))
  | some .stm => .stmt <$> stmt id
  | _ => .error (unexpected t id "a function body")

/-- Read a declaration of a function. -/
def function (stmt : Read Stmt) : Read (FunctionDecl Stmt) := fun id => do
  t.expectCaptures id 4
  let (params, _) ← t.items (← t.required id 1) 0
  let body ← functionBody t stmt (← t.required id 3)
  let name ← ident t (← t.required id 0)
  let params ← params.mapM (param t)
  let ret ← optionally (typeTag t) (← t.optional id 2)
  return ⟨name, params, ret, body, spanOf t id⟩

/-- Read what a member is. -/
def memberKind (stmt : Read Stmt) : Read (MemberKind Stmt) := fun id =>
  match ruleOf t id with
  | some .vars => .fields <$> vars t id
  | some .function => .method <$> function t stmt id
  | _ => .error (unexpected t id "a field or method")

/-- Read a declaration of a member. -/
def member (stmt : Read Stmt) : Read (MemberDecl Stmt) := fun id => do
  t.expectCaptures id 2
  let kind ← memberKind t stmt (← t.required id 1)
  return ⟨(← t.optional id 0).isSome, kind, spanOf t id⟩

/-- Read a declaration of a class. -/
def classDecl (stmt : Read Stmt) : Read (ClassDecl Stmt) := fun id => do
  t.expectCaptures id 2
  let (members, _) ← t.items id 1
  let name ← ident t (← t.required id 0)
  return ⟨name, ← members.mapM (member t stmt), spanOf t id⟩

/-! ## Statements -/

/-- Read a block. -/
def block (stmt : Read Stmt) : Read Stmt := fun id => do
  t.expectCaptures id 1
  let (body, _) ← t.items (← t.required id 0) 0
  return .block (← body.mapM stmt) (spanOf t id)

/-- Read a choice. -/
def ifStmt (stmt : Read Stmt) : Read Stmt := fun id => do
  t.expectCaptures id 3
  let elseBranch ← optionally (fun part => do stmt (← chosen t part)) (← t.optional id 2)
  let cond ← expr t (← t.required id 0)
  let thenBranch ← stmt (← t.required id 1)
  return .ifElse cond thenBranch elseBranch (spanOf t id)

/-- Read a loop over the elements of something. -/
def forStmt (stmt : Read Stmt) : Read Stmt := fun id => do
  t.expectCaptures id 3
  let name ← ident t (← t.required id 0)
  let iterable ← expr t (← t.required id 1)
  let body ← stmt (← t.required id 2)
  return .forIn name iterable body (spanOf t id)

/-- Read a loop under a condition. -/
def whileStmt (stmt : Read Stmt) : Read Stmt := fun id => do
  t.expectCaptures id 2
  let cond ← expr t (← t.required id 0)
  let body ← stmt (← t.required id 1)
  return .whileLoop cond body (spanOf t id)

/-- Read the end of a function. -/
def returnStmt : Read Stmt := fun id => do
  t.expectCaptures id 1
  return .ret (← optionally (expr t) (← t.optional id 0)) (spanOf t id)

/-- Read an expression that stands as a statement. -/
def exprStmt : Read Stmt := fun id => do
  t.expectCaptures id 1
  return .expr (← expr t (← t.required id 0)) (spanOf t id)

/-- The alternative of a statement, or the node itself if it is one. -/
def stmtNode : Read NodeId := fun id =>
  if ruleOf t id = some .stm then chosen t id else .ok id

/-- Read a statement of a bounded depth. -/
def stmtWithin : Nat → Read Stmt
  | 0, id => .error (unexpected t id "a statement")
  | depth + 1, id => do
    let id ← stmtNode t id
    match ruleOf t id with
    | some .emptyStm => return .empty (spanOf t id)
    | some .exprStm => exprStmt t id
    | some .block => block t (stmtWithin depth) id
    | some .ifStm => ifStmt t (stmtWithin depth) id
    | some .forStm => forStmt t (stmtWithin depth) id
    | some .whileStm => whileStmt t (stmtWithin depth) id
    | some .returnStm => returnStmt t id
    | some .vars => .vars <$> vars t id
    | some .function => .function <$> function t (stmtWithin depth) id
    | some .classDecl => .classDecl <$> classDecl t (stmtWithin depth) id
    | _ => throw (unexpected t id "a statement")

/-- Read a statement. -/
def stmt : Read Stmt := fun id => stmtWithin t (id + 1) id

/-- Read the statements of a whole source. -/
def program : Read Program := fun id => do
  t.expectCaptures id 1
  let (body, _) ← t.items id 0
  return ⟨← body.mapM (stmt t), spanOf t id⟩

end ExpLang.Syntax
