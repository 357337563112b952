import ExpLang.Diagnostic.Basic

/-!
# Faults

A fault means that two parts of the compiler disagree: it is no finding about the program being
compiled, and it ends the compilation. `Fault.message` is the one place that words them.
-/

namespace ExpLang

/-- A second declaration of a name in one scope. -/
structure DuplicateName where
  /-- The scope that declares the name. -/
  scope : String
  /-- The name. -/
  name : String
  /-- Where it was declared first. -/
  previous : Span
  deriving DecidableEq, Repr, Inhabited

/-- The wording of a second declaration. -/
def DuplicateName.message (d : DuplicateName) : String :=
  s!"`{d.scope}` already declares `{d.name}`"

/-- The diagnostic for a second declaration at a place. -/
def DuplicateName.diagnostic (d : DuplicateName) (span : Span) : Diagnostic :=
  .duplicateName span d.previous d.scope d.name

/-- A disagreement between parts of the compiler. -/
inductive Fault where
  /-- A syntax node of a shape that no construct has. -/
  | unexpectedNode (kind : String) (span : Span) (dump : String)
  /-- A syntax node with too many or too few captures. -/
  | arity (kind : String) (expected found : Nat)
  /-- A member is asked of a type that has no members. -/
  | unsupportedMemberTarget (name type : String) (span : Span)
  /-- A type that was never inferred is needed for execution. -/
  | unboundHolder (context : String)
  /-- A method is called that has no body. -/
  | missingBody (method : String)
  /-- The rules of the language do not form a grammar. -/
  | grammar (message : String)
  /-- The entry point cannot be declared. -/
  | entryPoint (duplicate : DuplicateName)
  /-- Something that needs a method stands outside of every method. -/
  | outsideMethod (what : String) (span : Span)
  deriving DecidableEq, Repr, Inhabited

/-- The wording of a fault. -/
def Fault.message : Fault → String
  | unexpectedNode kind span dump => s!"no lowering for syntax node `{kind}` at {span.text}\n{dump}"
  | arity kind expected found =>
    s!"node `{kind}` was built with {found} captures but its constructor takes {expected}"
  | unsupportedMemberTarget name type span =>
    s!"member access `.{name}` on unsupported target type `{type}` at {span.text}"
  | unboundHolder context => s!"unbound type hole reached execution: {context}"
  | missingBody method => s!"method `{method}` has no body after compilation"
  | grammar message => s!"grammar failed to build: {message}"
  | entryPoint duplicate => s!"cannot declare the implicit entry point: {duplicate.message}"
  | outsideMethod what span => s!"{what} outside a method body at {span.text}"

end ExpLang
