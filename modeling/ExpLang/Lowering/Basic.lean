import ExpLang.Resolved.Scope
import ExpLang.Diagnostic.Queue
import ExpLang.Syntax.Ast

/-!
# Work on a unit

Lowering turns syntax into resolved code. What it works on is a state: the unit so far, the
findings so far, and the bodies of functions that wait until every signature is known. A finding
about the program never stops the work; the expression it is about becomes one of a type that goes
with everything. Only a fault stops it, or a type that contains itself where its text is asked for.
-/

namespace ExpLang.Lowering

open Resolved

/-- Why the work on a unit stops early. -/
inductive Halt where
  /-- Parts of the compiler disagree. -/
  | fault (f : Fault)
  /-- A type contains itself, so that a text or a comparison of it has no end. -/
  | endless
  deriving DecidableEq, Repr, Inhabited

/-- The body of a method that is lowered when all signatures are known. -/
structure Deferred where
  /-- The class of the method. -/
  owner : ClassId
  /-- The method. -/
  method : MethodId
  /-- What it does. -/
  body : Syntax.Stmt
  deriving Inhabited

/-- What lowering works on. -/
structure State where
  /-- The unit so far. -/
  unit : CodeUnit
  /-- The findings so far. -/
  queue : DiagnosticQueue
  /-- The bodies that wait, in the order of their declaration. -/
  deferred : List Deferred := []
  deriving Inhabited

/-- A step of lowering. -/
abbrev Lower := StateT State (Except Halt)

/-- Where the code being lowered stands. -/
structure Site where
  /-- The class around. -/
  owner : ClassId
  /-- The method around; first values of fields and defaults of parameters have none. -/
  method : Option MethodId
  /-- Whether there is no receiver. -/
  isStatic : Bool
  deriving DecidableEq, Repr, Inhabited

/-- Stop with a fault. -/
def raise {α : Type} (f : Fault) : Lower α := throw (.fault f)

/-- Report a finding. -/
def report (d : Diagnostic) : Lower Unit := modify fun s => { s with queue := s.queue.add d }

/-- Change the unit. -/
def modifyUnit (f : CodeUnit → CodeUnit) : Lower Unit := modify fun s => { s with unit := f s.unit }

/-- Ask something of the unit. -/
def ask {α : Type} (f : CodeUnit → α) : Lower α := return f (← get).unit

/-- Ask something of the types that may add to them. -/
def onTypes {α : Type} (f : TypePool → α × TypePool) : Lower α :=
  modifyGet fun s =>
    let (a, types) := f s.unit.types
    (a, { s with unit := { s.unit with types := types } })

/-- Let a hole stand for another type, if the first type is a hole. -/
def unify (hole target : TypeId) : Lower Unit := do
  let _ ← onTypes (·.bindIfUnbound hole target)

/-- The text of a type. -/
def typeName (id : TypeId) : Lower String := do
  match (← get).unit.typeName? id with
  | some name => return name
  | none => throw .endless

/-- Whether a type stands for one that goes with everything. -/
def isLenient (id : TypeId) : Lower Bool := ask fun u => TypePool.isLenient (u.types.resolve id)

/-- Add a method, a field or a class, or report that its name is taken. -/
def declare {α : Type} (span : Span) (create : CodeUnit → Except DuplicateName (α × CodeUnit)) :
    Lower (Option α) := do
  match create (← get).unit with
  | .ok (id, u) =>
    modifyUnit fun _ => u
    return some id
  | .error clash =>
    report (clash.diagnostic span)
    return none

/-- The method around a piece of code that makes no sense without one. -/
def Site.currentMethod (site : Site) (what : String) (span : Span) : Lower MethodId :=
  match site.method with
  | some id => return id
  | none => raise (.outsideMethod what span)

/-- The type that is written at a place. An unknown name is reported and goes with everything. -/
def writtenType (type : Syntax.TypeRef) : Lower TypeId := do
  match ← ask (·.namedType? type.name.name) with
  | some id => (List.range type.dims).foldlM (fun id _ => onTypes (·.array id)) id
  | none =>
    report (.unknownType type.name.span type.name.name)
    return Primitive.invalid.id

/-- The type that is written at a place, or a new hole where none is written. -/
def declaredType : Option Syntax.TypeRef → Lower TypeId
  | some type => writtenType type
  | none => onTypes (·.newHole)

end ExpLang.Lowering
