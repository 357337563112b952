import ExpLang.Diagnostic.Fault
import ExpLang.Grammar.Tree

/-!
# Captures by position

The constructs of a language are read off the captures of its nodes. The functions here give a
capture by its position and refuse one of another shape. Only a literal out of range is the fault
of the source; every other refusal means that grammar and constructs do not fit together.
-/

namespace ExpLang

variable {κ : Type}

/-- Why a node could not be read as a construct. -/
inductive BindError where
  /-- A node has too many or too few captures. -/
  | arity (kind : String) (expected found : Nat) (node : NodeId)
  /-- A capture has another shape. -/
  | shape (kind : String) (index : Nat) (expected : String) (node : NodeId)
  /-- A node is of another kind. -/
  | unexpected (found expected : String) (node : NodeId)
  /-- A literal does not fit its type. -/
  | literal (what text : String) (span : Span)
  /-- A node of the right shape is refused. -/
  | rejected (message : String) (span : Span)
  deriving DecidableEq, Repr, Inhabited

namespace BindError

/-- The wording of a refusal. -/
def message : BindError → String
  | arity kind expected found _ =>
    s!"`{kind}` has {found} captures but its constructor takes {expected}"
  | shape kind index expected _ => s!"capture {index} of `{kind}` should be {expected}"
  | unexpected found expected _ => s!"`{found}` cannot be bound as {expected}"
  | literal what text _ => s!"invalid {what} literal `{text}`"
  | rejected message _ => message

/-- Whether the source is at fault. -/
def isUserError : BindError → Bool
  | literal .. => true
  | _ => false

/-- A refusal as a fault, with an outline of the node. -/
def toFault [RuleName κ] (t : Tree κ) : BindError → Fault
  | arity kind expected found _ => .arity kind expected found
  | shape _ _ _ node | unexpected _ _ node =>
    .unexpectedNode (t.node node).kind.name (t.node node).span (t.dump node)
  | literal what _ span => .unexpectedNode what span ""
  | rejected message span => .unexpectedNode message span ""

end BindError

namespace Tree

variable [RuleName κ] (t : Tree κ) (id : NodeId)

/-- Refuse a node that does not have a given number of captures. -/
def expectCaptures (count : Nat) : Except BindError Unit :=
  let n := t.node id
  if n.captures.length = count then .ok ()
  else .error (.arity n.kind.name count n.captures.length id)

/-- The refusal of a capture of another shape. -/
def misshapen (index : Nat) (expected : String) : BindError :=
  .shape (t.node id).kind.name index expected id

/-- A part that has to be there. -/
def required (index : Nat) : Except BindError NodeId :=
  match (t.node id).captures[index]? with
  | some (.node (some part)) => .ok part
  | _ => .error (t.misshapen id index "a node")

/-- A part that may be missing. -/
def optional (index : Nat) : Except BindError (Option NodeId) :=
  match (t.node id).captures[index]? with
  | some (.node part) => .ok part
  | _ => .error (t.misshapen id index "an optional node")

/-- The elements and the separators of a list. -/
def items (index : Nat) : Except BindError (List NodeId × List NodeId) :=
  match (t.node id).captures[index]? with
  | some (.list elements separators) => .ok (elements, separators)
  | _ => .error (t.misshapen id index "a list")

end Tree

end ExpLang
