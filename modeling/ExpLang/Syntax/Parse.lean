import ExpLang.Grammar.Parse
import ExpLang.Syntax.Binding

/-!
# Reading source texts

`parseProgram` and `parseExpr` read a whole source as statements or as one expression. Comments
count as gaps between tokens.
-/

namespace ExpLang.Syntax

/-- Why a source could not be read. -/
inductive SyntaxError where
  /-- The source does not follow the grammar. -/
  | parse (e : ParseError)
  /-- A literal does not fit its type. -/
  | literal (what text : String) (span : Span)
  /-- Grammar and constructs do not fit together. -/
  | internal (fault : Fault)
  deriving DecidableEq, Repr, Inhabited

namespace SyntaxError

/-- The wording of an error. -/
def message : SyntaxError → String
  | parse e => e.message
  | literal what text _ => s!"invalid {what} literal `{text}`"
  | internal fault => fault.message

/-- An error as a finding about the source. -/
def diagnostic (e : SyntaxError) : Diagnostic :=
  match e with
  | parse e => e.diagnostic
  | literal _ _ span =>
    (Diagnostic.error .literalRange e.message).withLabel span "does not fit in 64 bits"
  | internal fault => .internal fault.message

/-- The error for a node that could not be read. -/
def ofBindError (t : Tree Kind) : BindError → SyntaxError
  | .literal what text span => literal what text span
  | e => internal (e.toFault t)

end SyntaxError

/-- Sources are parsed with comments as gaps. -/
def parseConfig (budget : Nat) : ParseConfig := { skipper := .blanksAndComments, budget := budget }

/-- Parse a source as a rule and read the node of the rule. -/
def readAs {α : Type} (start : Kind) (read : Tree Kind → Read α) (source : Source)
    (config : ParseConfig) : Except SyntaxError α :=
  match grammar with
  | .error fault => .error (.internal (.grammar fault.message))
  | .ok g => match g.parse start source config with
    | .error e => .error (.parse e)
    | .ok parsed => (read parsed.tree parsed.root).mapError (.ofBindError parsed.tree)

/-- Read a whole source as statements. -/
def parseProgram (source : Source) (config : ParseConfig) : Except SyntaxError Program :=
  readAs .stms program source config

/-- Read a whole source as one expression. -/
def parseExpr (source : Source) (config : ParseConfig) : Except SyntaxError Expr :=
  readAs .expr expr source config

end ExpLang.Syntax
