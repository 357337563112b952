import ExpLang.Resolved.Visit

/-!
# What is to be checked about a unit

Each place in a unit where a value goes into something of a type is an obligation: the types have to
go with one another. So is each variable whose type was to be found from its use, and each call of a
method for the number of its arguments. The obligations of a unit stand in the order of a walk
through it.
-/

namespace ExpLang.Checking

open Resolved

/-- Something that has to hold of a unit. -/
inductive Obligation where
  /-- A value of one type goes where another one is wanted; `context` says what the value is. -/
  | assignable (target given : TypeId) (span : Span) (context : String)
  /-- The type of a variable is known. -/
  | inferred (type : TypeId) (span : Span) (name : String)
  /-- A call of a method has as many arguments as the method takes. -/
  | argumentCount (method : MethodId) (given : Nat) (span : Span)
  /-- The arguments of a call go where the type of what is called wants them. -/
  | arguments (callee : TypeId) (given : List (TypeId × Span))
  deriving DecidableEq, Repr, Inhabited

/-- The method that an expression names. -/
def calledMethod? : Expr → Option MethodId
  | .member (.method id) _ | .access _ (.method id) _ => some id
  | _ => none

/-- The obligations of an expression without those of its parts. -/
def exprObligations : Expr → List Obligation
  | .binary op left right info =>
    if op.isAssignment then
      [.assignable left.type (if op = .assign then right.type else info.type) info.span
        "assigned value"]
    else []
  | .call callee args info =>
    ((calledMethod? callee).map (.argumentCount · args.length info.span)).toList
      ++ [.arguments callee.type (args.map fun a => (a.type, a.span))]
  | _ => []

/-- The obligations of a thing met on a walk, in code whose result has a type, without those of its
parts. -/
def visitObligations (ret : TypeId) : Visit → List Obligation
  | .expr e => exprObligations e
  | .stmt (.ret (some value) _) => [.assignable ret value.type value.span "return value"]
  | .stmt (.ret none span) => [.assignable ret Primitive.void.id span "return value"]
  | _ => []

/-- The obligations of a field. Its type and its first value come before what is in the value. -/
def fieldObligations (u : CodeUnit) (id : FieldId) : List Obligation :=
  let f := u.getField id
  (f.init.map fun e => .assignable f.type e.type e.span "field initializer").toList
    ++ [.inferred f.type f.span f.name]
    ++ (u.fieldVisits id).flatMap (visitObligations Primitive.void.id)

/-- The obligations of a method: those of the defaults of its parameters, of its code, and of its
locals. -/
def methodObligations (u : CodeUnit) (id : MethodId) : List Obligation :=
  let m := u.getMethod id
  (m.params.toList.filterMap fun p =>
      p.default.map fun e => .assignable p.type e.type e.span "default value")
    ++ (u.methodVisits id).flatMap (visitObligations m.ret)
    ++ m.locals.toList.map fun l => .inferred l.type l.span l.name

/-- The obligations of a class. -/
def classObligations (u : CodeUnit) (id : ClassId) : List Obligation :=
  let c := u.getClass id
  c.fields.flatMap (fieldObligations u) ++ c.methods.flatMap (methodObligations u)

/-- The obligations of a unit. -/
def obligations (u : CodeUnit) : List Obligation :=
  (List.range u.classes.size).flatMap (classObligations u)

end ExpLang.Checking
