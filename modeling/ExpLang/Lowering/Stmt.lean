import ExpLang.Lowering.Declaration

/-!
# Lowering of statements

A block and each branch or body of a choice or loop has a scope of its own. A variable is in scope
after its declaration, so that its first value still sees an outer variable of the same name; a
variable of a loop is in scope in the body only. A loop over a range is told from a loop over other
things here, by the form of the expression.
-/

namespace ExpLang.Lowering

open Resolved

/-- Something cannot be iterated. -/
def notIterable (span : Span) (type : String) : Diagnostic :=
  (Diagnostic.error .undefinedOperator s!"`{type}` cannot be iterated").withLabel span
    s!"has type `{type}`"

/-- Add a local to a method and bring it into scope. -/
def bindLocal (method : MethodId) (scope : Scope) (name : Syntax.Ident) (type : TypeId) :
    Lower (LocalId × Scope) := do
  let (id, m) ← ask fun u => (u.getMethod method).addLocal name.name type name.span
  modifyUnit (·.modifyMethod method fun _ => m)
  return (id, scope.add name.name (.localVar id))

/-- Lower the variables of a declaration. Each gets an assignment if it has a first value. -/
def lowerVars (site : Site) (method : MethodId) :
    Scope → List Syntax.VarDecl → Lower (List Stmt × Scope)
  | scope, [] => return ([], scope)
  | scope, decl :: rest => do
    let init ← decl.init.mapM (lowerExpr site scope)
    let type ← declaredType decl.type
    if let (none, some value) := (decl.type, init) then unify type value.type
    let (id, scope) ← bindLocal method scope decl.name type
    let here ← match init with
      | none => pure []
      | some value => do
        let assignment ← lowerBinary .assign (.localVar id ⟨type, decl.name.span⟩) value decl.span
        pure [Stmt.expr assignment decl.span]
    let (others, scope) ← lowerVars site method scope rest
    return (here ++ others, scope)

/-- Lower a loop, given how to lower its body in a scope. -/
def lowerFor (site : Site) (scope : Scope) (name : Syntax.Ident) (iterable : Syntax.Expr)
    (body : Scope → Lower Stmt) (span : Span) : Lower Stmt := do
  let iterable ← lowerExpr site scope iterable
  let method ← site.currentMethod "for loop" span
  match iterable with
  | .binary .range low high _ =>
    let (id, inner) ← bindLocal method scope.child name Primitive.int.id
    let body ← body inner
    match low.int?, high.int? with
    | some low, some high => return .forConst id low high body span
    | _, _ => return .forRange id low high body span
  | _ =>
    let element ← ask (·.types.elementOf iterable.type)
    if element = Primitive.unknown.id then
      unless ← isLenient iterable.type do
        report (notIterable iterable.span (← typeName iterable.type))
    let (id, inner) ← bindLocal method scope.child name element
    return .forIn id iterable (← body inner) span

mutual

/-- Lower a statement. The scope after it is the one before it with what it declares. -/
def lowerStmt (site : Site) (scope : Scope) : Syntax.Stmt → Lower (Stmt × Scope)
  | .empty span => return (.skip span, scope)
  | .expr e span => return (.expr (← lowerExpr site scope e) span, scope)
  | .block body span => do
    let (body, _) ← lowerStmts site scope.child body
    return (.seq body span, scope)
  | .ifElse cond thenBranch none span => do
    let cond ← lowerExpr site scope cond
    let (thenBranch, _) ← lowerStmt site scope.child thenBranch
    return (.ifElse cond thenBranch none span, scope)
  | .ifElse cond thenBranch (some elseBranch) span => do
    let cond ← lowerExpr site scope cond
    let (thenBranch, _) ← lowerStmt site scope.child thenBranch
    let (elseBranch, _) ← lowerStmt site scope.child elseBranch
    return (.ifElse cond thenBranch (some elseBranch) span, scope)
  | .whileLoop cond body span => do
    let cond ← lowerExpr site scope cond
    let (body, _) ← lowerStmt site scope.child body
    return (.whileLoop cond body span, scope)
  | .forIn name iterable body span => do
    let lowerBody (inner : Scope) : Lower Stmt := return (← lowerStmt site inner body).1
    return (← lowerFor site scope name iterable lowerBody span, scope)
  | .ret value span => do
    let value ← value.mapM (lowerExpr site scope)
    let method ← site.currentMethod "return" span
    let ret ← ask fun u => (u.getMethod method).ret
    unify ret (value.elim Primitive.void.id (·.type))
    return (.ret value span, scope)
  | .vars decl => do
    let method ← site.currentMethod "variable declaration" decl.span
    let (body, scope) ← lowerVars site method scope decl.decls
    return (.seq body decl.span, scope)
  | .function decl => return (← lowerFunction site decl, scope)
  | .classDecl decl => return (← lowerClass decl, scope)

/-- Lower statements one after the other; each sees what those before it declare. -/
def lowerStmts (site : Site) (scope : Scope) :
    List Syntax.Stmt → Lower (List Stmt × Scope)
  | [] => return ([], scope)
  | s :: rest => do
    let (s, scope) ← lowerStmt site scope s
    let (others, scope) ← lowerStmts site scope rest
    return (s :: others, scope)

end

end ExpLang.Lowering
