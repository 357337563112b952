import ExpLang.Checking.Obligation
import ExpLang.Diagnostic.Queue

/-!
# Checking a unit

The obligations of a unit are looked at one after the other. What does not hold is reported. To
compare types binds holes, so that the first use of a variable of no known type gives it one, and
later uses are compared with that.
-/

namespace ExpLang.Checking

open Resolved

/-- What checking works on: the unit, whose holes get bound, and the findings. -/
structure State where
  /-- The unit. -/
  unit : CodeUnit
  /-- The findings so far. -/
  queue : DiagnosticQueue
  deriving Inhabited

/-- A step of checking; it has no result where types contain themselves and the step has no end. -/
abbrev Check := StateT State Option

/-- Report a finding. -/
def report (d : Diagnostic) : Check Unit := modify fun s => { s with queue := s.queue.add d }

/-- The text of a type. -/
def typeName (id : TypeId) : Check String := do (← get).unit.typeName? id

/-- Whether a value of one type can stand where another one is wanted. -/
def canAssign (target given : TypeId) : Check Bool := do
  let s ← get
  let (verdict, types) ← TypePool.canAssign target given s.unit.types
  set { s with unit := { s.unit with types := types } }
  return verdict

/-- Report a value of one type that cannot stand where another one is wanted. -/
def checkAssignable (target given : TypeId) (span : Span) (context : String) : Check Unit := do
  unless ← canAssign target given do
    report (.typeMismatch span (← typeName target) (← typeName given) context)

/-- The least number of arguments of a method: those after the last parameter without a default can
be left out. -/
def leastArguments (m : MethodDef) : Nat :=
  m.params.size - (m.params.toList.reverse.takeWhile (·.default.isSome)).length

/-- Check arguments against the types of parameters, as far as there are both. -/
def checkArguments : List TypeId → List (TypeId × Span) → Check Unit
  | param :: params, (type, span) :: given => do
    checkAssignable param type span "argument"
    checkArguments params given
  | _, _ => return ()

/-- Look at an obligation. -/
def checkObligation : Obligation → Check Unit
  | .assignable target given span context => checkAssignable target given span context
  | .inferred type span name => do
    if (← get).unit.types.isUnbound type then report (.cannotInfer span name)
  | .argumentCount method given span => do
    let m := (← get).unit.getMethod method
    if given < leastArguments m ∨ m.params.size < given then
      report (.argumentCount span m.name (leastArguments m) m.params.size given)
  | .arguments callee given => do
    let types := (← get).unit.types
    if let .function _ params := types.get (types.resolve callee) then checkArguments params given

/-- Check a unit: the unit with its holes bound, and the findings after those before. -/
def check (u : CodeUnit) (queue : DiagnosticQueue) : Option (CodeUnit × DiagnosticQueue) :=
  ((obligations u).forM checkObligation).run ⟨u, queue⟩ |>.map fun (_, s) => (s.unit, s.queue)

end ExpLang.Checking
