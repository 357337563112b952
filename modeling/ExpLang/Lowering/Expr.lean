import ExpLang.Lowering.Basic

/-!
# Lowering of expressions

Each name is looked up and each expression gets its type. An operator binds a hole among its
operands: a hole beside a known type stands for that type from then on. What does not fit is
reported once: the result is then of a type that goes with everything, so that nothing is reported
about what is built from it.
-/

namespace ExpLang.Lowering

open Resolved

/-- Something is not defined for a type. -/
def notDefinedFor (span : Span) (what type : String) : Diagnostic :=
  (Diagnostic.error .undefinedOperator s!"`{what}` is not defined for `{type}`").withLabel span
    s!"has type `{type}`"

/-- An expression that stands for nothing. -/
def unknownExpr (name : String) (span : Span) : Expr :=
  .unknown name ⟨Primitive.unknown.id, span⟩

/-- Report that something is not defined for a type, unless the type goes with everything. -/
def refuse (span : Span) (what : String) (type : TypeId) : Lower Unit := do
  unless ← isLenient type do report (notDefinedFor span what (← typeName type))

/-- A name: the receiver, or what the scope says. -/
def lowerIdent (site : Site) (scope : Scope) (id : Syntax.Ident) : Lower Expr := do
  let span := id.span
  if id.name = "this" then
    if site.isStatic then
      report (.unknownName span id.name)
      return unknownExpr id.name span
    return .this ⟨← ask fun u => (u.getClass site.owner).type, span⟩
  match ← ask fun u => scope.find u id.name with
  | .localVar l =>
    let m ← site.currentMethod "local variable" span
    return .localVar l ⟨← ask fun u => ((u.getMethod m).locals.getD l default).type, span⟩
  | .param p =>
    let m ← site.currentMethod "parameter" span
    return .argument p ⟨← ask fun u => ((u.getMethod m).params.getD p default).type, span⟩
  | .member m => return .member m ⟨← ask (·.memberType m), span⟩
  | .classRef c => return .classRef c ⟨← ask fun u => (u.getClass c).type, span⟩
  | .unknown =>
    report (.unknownName span id.name)
    return unknownExpr id.name span

/-- A member of a value. -/
def lowerAccess (target : Expr) (name : Syntax.Ident) (span : Span) : Lower Expr := do
  if ← ask (·.types.isUnbound target.type) then return unknownExpr name.name span
  match ← ask (·.access target.type name.name) with
  | .found (some m) => return .access target m ⟨← ask (·.memberType m), span⟩
  | .found none =>
    report (.unknownMember name.span (← typeName target.type) name.name)
    return unknownExpr name.name span
  | .lenient => return unknownExpr name.name span
  | .unsupported => raise (.unsupportedMemberTarget name.name (← typeName target.type) span)

/-- An operator between two operands. -/
def lowerBinary (op : BinaryOp) (left right : Expr) (span : Span) : Lower Expr := do
  if ← ask (·.types.isUnbound left.type) then unify left.type right.type
  else unify right.type left.type
  match ← ask fun u => u.operators.resultType? u.types op left.type right.type with
  | some type => return .binary op left right ⟨type, span⟩
  | none =>
    report (.undefinedOperator span op.symbol (← typeName left.type) (← typeName right.type))
    return .binary op left right ⟨Primitive.invalid.id, span⟩

/-- The type of a unary operator that gives back the type of its operand, which is to be one of
some primitive types. -/
def operandType (allowed : List Primitive) (symbol : String) (operand : Expr) (span : Span) :
    Lower TypeId := do
  unify operand.type Primitive.int.id
  let type ← ask (·.types.resolve operand.type)
  if allowed.any (·.id == type) || TypePool.isLenient type then return type
  report (notDefinedFor span symbol (← typeName type))
  return Primitive.invalid.id

/-- The type of an operator on numbers. -/
def numericType : String → Expr → Span → Lower TypeId :=
  operandType [.int, .long, .float, .double]

/-- The type of an operator before its operand. -/
def prefixType (op : PrefixOp) (operand : Expr) (span : Span) : Lower TypeId := do
  match op with
  | .not =>
    unify operand.type Primitive.bool.id
    return Primitive.bool.id
  | .bitNot => operandType [.int, .long] op.symbol operand span
  | _ => numericType op.symbol operand span

/-- An element of an array. -/
def lowerIndex (target index : Expr) (span : Span) : Lower Expr := do
  let type ← ask (·.types.elementOf target.type)
  if type = Primitive.unknown.id then refuse span "[]" target.type
  return .index target index ⟨type, span⟩

/-- A call; to call a class is to make an object of it. -/
def lowerCall (callee : Expr) (args : List Expr) (span : Span) : Lower Expr := do
  if let .classRef c _ := callee then
    return .new c args ⟨← ask fun u => (u.getClass c).type, span⟩
  let type ← ask (·.types.returnTypeOf callee.type)
  if type = Primitive.unknown.id then refuse span "()" callee.type
  return .call callee args ⟨type, span⟩

mutual

/-- Lower an expression in a scope. -/
def lowerExpr (site : Site) (scope : Scope) : Syntax.Expr → Lower Expr
  | .int value span => return .literal (.int value) ⟨Primitive.int.id, span⟩
  | .float value span => return .literal (.float value) ⟨Primitive.float.id, span⟩
  | .bool value span => return .literal (.bool value) ⟨Primitive.bool.id, span⟩
  | .ident id => lowerIdent site scope id
  | .unary op operand span => do
    let operand ← lowerExpr site scope operand
    return .pre op operand ⟨← prefixType op operand span, span⟩
  | .post op operand span => do
    let operand ← lowerExpr site scope operand
    return .post op operand ⟨← numericType op.symbol operand span, span⟩
  | .binary op left right span => do
    let left ← lowerExpr site scope left
    let right ← lowerExpr site scope right
    lowerBinary op left right span
  | .field target name span => do lowerAccess (← lowerExpr site scope target) name span
  | .index target index span => do
    let target ← lowerExpr site scope target
    let index ← lowerExpr site scope index
    lowerIndex target index span
  | .call callee args span => do
    let callee ← lowerExpr site scope callee
    let args ← lowerExprs site scope args
    lowerCall callee args span

/-- Lower expressions from left to right. -/
def lowerExprs (site : Site) (scope : Scope) : List Syntax.Expr → Lower (List Expr)
  | [] => return []
  | e :: rest => do
    let e ← lowerExpr site scope e
    return e :: (← lowerExprs site scope rest)

end

end ExpLang.Lowering
