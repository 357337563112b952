import ExpLang.Diagnostic.Basic

/-!
# Diagnostic queues

A queue keeps diagnostics in the order in which they are reported. It refuses further errors once
it holds as many as its policy allows, and, where the policy says so, a diagnostic equal to one it
already holds. The limit is looked at first, and warnings and notes never count against it.
-/

namespace ExpLang

/-- What a queue refuses. -/
structure QueuePolicy where
  /-- The most errors that are kept; zero keeps all. -/
  errorLimit : Nat := 50
  /-- Whether a diagnostic equal to a kept one is refused. -/
  refuseEqual : Bool := true
  deriving DecidableEq, Repr, Inhabited

/-- The policy that refuses nothing. -/
def QueuePolicy.unlimited : QueuePolicy := ⟨0, false⟩

/-- Diagnostics in the order of their report. -/
structure DiagnosticQueue where
  /-- What is refused. -/
  policy : QueuePolicy := {}
  /-- What is kept, oldest first. -/
  entries : List Diagnostic := []
  deriving DecidableEq, Repr, Inhabited

namespace DiagnosticQueue

/-- Number of errors that are kept. -/
def errorCount (q : DiagnosticQueue) : Nat := q.entries.countP (·.isError)

/-- Whether any error is kept. -/
def hasErrors (q : DiagnosticQueue) : Bool := 0 < q.errorCount

/-- Whether no further error is taken. -/
def limitReached (q : DiagnosticQueue) : Bool :=
  0 < q.policy.errorLimit && q.policy.errorLimit ≤ q.errorCount

/-- Whether a diagnostic would be kept. -/
def accepts (q : DiagnosticQueue) (d : Diagnostic) : Bool :=
  !(d.isError && q.limitReached) && !(q.policy.refuseEqual && q.entries.contains d)

/-- Report a diagnostic. -/
def add (q : DiagnosticQueue) (d : Diagnostic) : DiagnosticQueue :=
  if q.accepts d then { q with entries := q.entries ++ [d] } else q

/-- Report diagnostics one after the other. -/
def addAll (q : DiagnosticQueue) (ds : List Diagnostic) : DiagnosticQueue := ds.foldl add q

/-- The queue after its entries were taken out. -/
def emptied (q : DiagnosticQueue) : DiagnosticQueue := { q with entries := [] }

end DiagnosticQueue

end ExpLang
