import ExpLang.Diagnostic.Fault
import ExpLang.Syntax.Operator

/-!
# Errors of running programs

Why a program could not go on. `EvalError.message` is the one place that words them.
-/

namespace ExpLang.Evaluation

/-- Why a running program stops. -/
inductive EvalError where
  /-- A number is divided by zero. -/
  | divisionByZero
  /-- The result of an operation on integers does not fit. -/
  | integerOverflow (operation : String)
  /-- An operator does not take these kinds of values. -/
  | invalidBinaryOp (op : BinaryOp) (left right : String)
  /-- An operator does not take this kind of value. -/
  | invalidUnaryOp (op operand : String)
  /-- A value is of another kind than is wanted. -/
  | typeMismatch (expected found : String)
  /-- A name stands for nothing. -/
  | unresolved (name : String)
  /-- A class stands where a value is wanted. -/
  | classAsValue (name : String)
  /-- There is no object to read a member of. -/
  | nullReference (name : String)
  /-- There is no element at an index of an array. -/
  | indexOutOfBounds (index : Int64) (length : Nat)
  /-- A value that is no method is called. -/
  | notCallable (found : String)
  /-- A loop goes over a value that has no elements. -/
  | notIterable (found : String)
  /-- Something is assigned to that is no variable. -/
  | invalidAssignmentTarget
  /-- A method gets too many or too few arguments. -/
  | wrongArgCount (name : String) (expected found : Nat)
  /-- Calls are nested too deep. -/
  | callDepthExceeded (limit : Nat)
  /-- There is no method to start in. -/
  | noEntryPoint (owner method : String)
  /-- Code names a local or an argument that its frame does not have. -/
  | missingSlot (index count : Nat)
  /-- Parts of the compiler disagree. -/
  | internal (fault : Fault)
  deriving DecidableEq, Repr, Inhabited

/-- The wording of an error. -/
def EvalError.message : EvalError → String
  | divisionByZero => "division by zero"
  | integerOverflow operation => s!"integer overflow in {operation}"
  | invalidBinaryOp op left right =>
    s!"operator `{op.symbol}` cannot be applied to {left} and {right}"
  | invalidUnaryOp op operand => s!"operator `{op}` cannot be applied to {operand}"
  | typeMismatch expected found => s!"expected {expected}, found {found}"
  | unresolved name => s!"`{name}` did not resolve at compile time"
  | classAsValue name => s!"class `{name}` used as a value"
  | nullReference name => s!"null reference reading `{name}`"
  | indexOutOfBounds index length => s!"index {index.toInt} out of bounds for length {length}"
  | notCallable found => s!"{found} is not callable"
  | notIterable found => s!"{found} is not iterable"
  | invalidAssignmentTarget => "invalid assignment target"
  | wrongArgCount name expected found =>
    s!"`{name}` takes {expected} argument(s) but {found} were supplied"
  | callDepthExceeded limit => s!"call depth limit of {limit} exceeded"
  | noEntryPoint owner method => s!"the module has no `{owner}.{method}` entry point"
  | missingSlot index count => s!"slot {index} in a frame of {count}"
  | internal fault => fault.message

end ExpLang.Evaluation
