import ExpLang.Checking.Basic
import ExpLang.Lowering.Program
import ExpLang.Syntax.Parse

/-!
# Compilation

A source text is parsed, lowered to a unit and checked. There is a unit also where errors were
found; a caller that wants none asks for `Compilation.clean`.
-/

namespace ExpLang

/-- Why there is no unit. -/
inductive CompileError where
  /-- The source could not be read. -/
  | parse (findings : List Diagnostic)
  /-- The source was read, and errors were found in it. -/
  | semantic (findings : List Diagnostic)
  /-- Parts of the compiler disagree. -/
  | internal (fault : Fault)
  /-- A type contains itself where its text or a comparison of it was asked for. -/
  | endless
  deriving DecidableEq, Repr, Inhabited

namespace CompileError

/-- The wording of an error. -/
def message : CompileError → String
  | parse findings => s!"{findings.length} syntax error(s)"
  | semantic findings => s!"{findings.length} error(s)"
  | internal fault => s!"internal compiler error: {fault.message}"
  | endless => "a type contains itself"

/-- The findings to show for an error. -/
def findings : CompileError → List Diagnostic
  | parse ds | semantic ds => ds
  | internal fault => [.internal fault.message]
  | e => [.internal e.message]

/-- The error for work that stopped early. -/
def ofHalt : Lowering.Halt → CompileError
  | .fault f => internal f
  | .endless => endless

/-- The error for a source that could not be read. -/
def ofSyntaxError : Syntax.SyntaxError → CompileError
  | .internal f => internal f
  | e => parse [e.diagnostic]

end CompileError

/-- A compiled source. -/
structure Compilation where
  /-- The unit. -/
  unit : Resolved.CodeUnit
  /-- What was found, in the order in which it was found. -/
  findings : List Diagnostic
  deriving Inhabited

namespace Compilation

/-- Whether errors were found. -/
def hasErrors (c : Compilation) : Bool := c.findings.any (·.isError)

/-- The unit, if no errors were found. -/
def clean (c : Compilation) : Except CompileError Resolved.CodeUnit :=
  if c.hasErrors then .error (.semantic c.findings) else .ok c.unit

end Compilation

/-- Lower a program without checking the unit. -/
def lower (p : Syntax.Program) (policy : QueuePolicy) : Except CompileError Compilation :=
  match Lowering.lowerProgram p policy with
  | .ok (u, queue) => .ok ⟨u, queue.entries⟩
  | .error halt => .error (.ofHalt halt)

/-- Lower a program and check the unit. -/
def lowerAndCheck (p : Syntax.Program) (policy : QueuePolicy) : Except CompileError Compilation :=
  match Lowering.lowerProgram p policy with
  | .error halt => .error (.ofHalt halt)
  | .ok (u, queue) => match Checking.check u queue with
    | some (u, queue) => .ok ⟨u, queue.entries⟩
    | none => .error .endless

/-- Compile a source. -/
def compile (source : Source) (budget : Nat) (policy : QueuePolicy) :
    Except CompileError Compilation :=
  match Syntax.parseProgram source (Syntax.parseConfig budget) with
  | .error e => .error (.ofSyntaxError e)
  | .ok p => lowerAndCheck p policy

end ExpLang
