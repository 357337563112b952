import ExpLang.Diagnostic.Fault
import ExpLang.Grammar.Matching

/-!
# Parsing a whole source

Parsing runs the start rule from the beginning of a source and asks that it match completely and
that nothing but a gap be left after it. A failure says where the source stops being understood.
-/

namespace ExpLang

variable {κ : Type}

/-- How a source is parsed. -/
structure ParseConfig where
  /-- What is passed over between tokens. -/
  skipper : Skipper := .blanks
  /-- The most steps that may be taken. -/
  budget : Nat := 2000000
  deriving DecidableEq, Repr, Inhabited

/-- Why a source does not parse. -/
inductive ParseError where
  /-- A committed rule could not go on. -/
  | expected (what : String) (pos : Nat)
  /-- The start rule matched a beginning of the source, or nothing. -/
  | trailing (pos : Nat)
  /-- The budget is spent. -/
  | budgetExhausted (budget pos : Nat)
  deriving DecidableEq, Repr, Inhabited

namespace ParseError

/-- The offset that an error points at. -/
def pos : ParseError → Nat
  | expected _ pos | trailing pos | budgetExhausted _ pos => pos

/-- The wording of an error. -/
def message : ParseError → String
  | expected what pos => s!"expected {what} at offset {pos}"
  | trailing pos => s!"unexpected input at offset {pos}"
  | budgetExhausted budget pos => s!"gave up after {budget} matching steps at offset {pos}"

/-- An error as a finding about the source. -/
def diagnostic (e : ParseError) : Diagnostic :=
  match e with
  | expected what pos => .expectedToken pos what
  | trailing pos =>
    (Diagnostic.error .trailingInput e.message).withLabel (.point pos) "could not parse from here"
  | budgetExhausted _ pos =>
    ((Diagnostic.error .budgetExhausted e.message).withLabel (.point pos) "gave up here").withNote
      "the input backtracks too much; raise the step budget if this is expected"

end ParseError

/-- A source that was understood as a whole. -/
structure Parsed (κ : Type) where
  /-- The source with its nodes. -/
  tree : Tree κ
  /-- The node of the start rule. -/
  root : NodeId
  deriving Inhabited

/-- The text of a parsed source for inspection. -/
def Parsed.inspect (p : Parsed κ) : String :=
  "Parsed \x7b tree: SyntaxTree \x7b source: " ++ Text.quote p.tree.source.name ++ ", nodes: "
    ++ toString p.tree.nodes.size ++ " \x7d, root: NodeId(" ++ toString p.root ++ ") \x7d"

namespace Grammar

/-- The state in which parsing a source starts. -/
def startState (source : Source) (config : ParseConfig) : MatchState κ :=
  { cursor := source.start, skipper := config.skipper, budget := config.budget }

/-- Parse all of a source as a rule. -/
def parse [DecidableEq κ] [RuleName κ] (g : Grammar κ) (start : κ) (source : Source)
    (config : ParseConfig) : Except ParseError (Parsed κ) :=
  let (s, found) := g.run (.rule start) (startState source config)
  if s.exhausted then .error (.budgetExhausted s.budget s.cursor.pos)
  else match found with
    | none => .error (.trailing s.tokenStart.pos)
    | some root => match root.node.hole with
      | some hole => .error (.expected hole.what hole.pos)
      | none =>
        let stop := s.tokenStart
        if stop.rest.isEmpty then .ok ⟨⟨source, s.nodes⟩, root.id⟩ else .error (.trailing stop.pos)

end Grammar

end ExpLang
