import ExpLang.Grammar.Basic
import ExpLang.Grammar.Tree

/-!
# Matching

A matcher runs on a state: a cursor, the active skippers, the nodes made so far and a step budget.
It answers with a node or with nothing. A complete node is a success; an incomplete node is a
committed failure that no other alternative repairs; no node means that the matcher does not apply,
and leaves cursor and nodes as they were.

Each run of a matcher takes one step, and when the budget is spent nothing matches any more. The
remaining budget therefore bounds both the nesting of runs and the length of lists, which is why
`Grammar.run` needs no other bound, whatever the grammar.
-/

namespace ExpLang

open Text

variable {κ : Type}

/-- What a running match works on. -/
structure MatchState (κ : Type) where
  /-- Where the next token is looked for. -/
  cursor : Cursor
  /-- The skipper outside of every override. -/
  skipper : Skipper := .blanks
  /-- The skippers that override it, innermost first. -/
  overrides : List Skipper := []
  /-- The nodes made so far. -/
  nodes : Arena κ := #[]
  /-- The steps taken so far. -/
  steps : Nat := 0
  /-- The most steps that may be taken. -/
  budget : Nat := 18446744073709551615
  deriving Inhabited

/-- A node that a matcher has made, with its index. -/
structure Match (κ : Type) where
  /-- The index of the node. -/
  id : NodeId
  /-- The node. -/
  node : Node κ
  deriving Inhabited

namespace MatchState

/-- Whether the budget is spent. -/
def exhausted (s : MatchState κ) : Bool := s.budget < s.steps

/-- The steps that are left, the one that finds the budget spent included. -/
def stepsLeft (s : MatchState κ) : Nat := s.budget + 1 - s.steps

/-- Take a step, unless the budget is spent already. -/
def step (s : MatchState κ) : MatchState κ :=
  if s.exhausted then s else { s with steps := s.steps + 1 }

/-- The innermost skipper. -/
def activeSkipper (s : MatchState κ) : Skipper := s.overrides.headD s.skipper

/-- Where the next token would start. -/
def tokenStart (s : MatchState κ) : Cursor := s.activeSkipper.skip s.cursor

/-- Move the cursor to where the next token would start. -/
def skipGap (s : MatchState κ) : MatchState κ := { s with cursor := s.tokenStart }

/-- Move the cursor. -/
def moveTo (s : MatchState κ) (c : Cursor) : MatchState κ := { s with cursor := c }

/-- Override the skipper. -/
def pushSkipper (s : MatchState κ) (skipper : Skipper) : MatchState κ :=
  { s with overrides := skipper :: s.overrides }

/-- Give up the innermost override; the skipper outside of every override stays. -/
def popSkipper (s : MatchState κ) : MatchState κ := { s with overrides := s.overrides.tail }

/-- Go back to a cursor and a number of nodes. -/
def rewind (s : MatchState κ) (cursor : Cursor) (size : Nat) : MatchState κ :=
  { s with cursor := cursor, nodes := s.nodes.shrink size }

/-- Make a node. -/
def make (s : MatchState κ) (n : Node κ) : MatchState κ × Option (Match κ) :=
  let id := s.nodes.size
  ({ s with nodes := Arena.push s.nodes n }, some ⟨id, n⟩)

/-- Make the node of an optional part that is missing. -/
def makeEmpty (s : MatchState κ) : MatchState κ × Option (Match κ) :=
  s.make { kind := .empty, span := .point s.cursor.pos }

/-- Make a token, if `read` finds one after the gap. -/
def makeToken (s : MatchState κ) (read : Cursor → Option Cursor) :
    MatchState κ × Option (Match κ) :=
  let start := s.tokenStart
  match read start with
  | none => (s, none)
  | some stop => (s.moveTo stop).make { kind := .token, span := ⟨start.pos, stop.pos⟩ }

end MatchState

/-- Read a fixed token that ends a word. -/
def readLiteral (text : List Char) (c : Cursor) : Option Cursor :=
  match dropPrefix? text c.rest with
  | some after => if atWordEnd text after then some ⟨c.pos + byteLength text, after⟩ else none
  | none => none

/-- Read the longest fixed token of a set. -/
def readLiterals (set : Literals) (c : Cursor) : Option Cursor :=
  match set.longest? c.rest with
  | some text => some ⟨c.pos + byteLength text, c.rest.drop text.length⟩
  | none => none

/-- What a node keeps of a part: nothing of a missing part, the items of a list, or the part. -/
def Match.capture (m : Match κ) : Capture :=
  match m.node.kind with
  | .empty => .node none
  | .list => m.node.captures.headD (.node (some m.id))
  | _ => .node (some m.id)

/-- The span over the parts that are not missing, or the empty span at `pos`. -/
def coverParts (parts : List (Match κ)) (pos : Nat) : Span :=
  (Span.cover ((parts.filter (!·.node.kind.isEmpty)).map (·.node.span))).getD (.point pos)

/-- A way to run matchers. -/
abbrev Runner (κ : Type) := Matcher κ → MatchState κ → MatchState κ × Option (Match κ)

/-- How the items of a sequence ended. -/
inductive SeqEnd where
  /-- The items went through, or could not go on after the cut or inside of an item. -/
  | ended (hole : Option Hole)
  /-- An item before the cut does not apply. -/
  | refused
  deriving DecidableEq, Repr, Inhabited

/-- Run the items of a sequence. Each part is given with whether it is captured. -/
def runItems (describe : Matcher κ → String) (run : Runner κ) :
    Bool → List (Matcher κ) → MatchState κ → MatchState κ × List (Match κ × Bool) × SeqEnd
  | _, [], s => (s, [], .ended none)
  | committed, item :: items, s =>
    if item.isSure then
      runItems describe run true items s
    else
      let pos := s.tokenStart.pos
      match run item s with
      | (s, none) => (s, [], if committed then .ended (some ⟨describe item, pos⟩) else .refused)
      | (s, some part) =>
        if part.node.isComplete then
          let (s, parts, ending) := runItems describe run committed items s
          (s, (part, item.isStored) :: parts, ending)
        else (s, [(part, item.isStored)], .ended part.node.hole)

/-- Make the node of a sequence from its parts. -/
def makeSeq (kind : NodeKind κ) (pos : Nat) (parts : List (Match κ × Bool)) (hole : Option Hole)
    (s : MatchState κ) : MatchState κ × Option (Match κ) :=
  s.make {
    kind := kind
    span := coverParts (parts.map (·.1)) pos
    children := parts.map (·.1.id)
    captures := (parts.filter (·.2)).map (·.1.capture)
    isComplete := hole.isNone
    hole := hole }

/-- Match a sequence; `kind` is the kind of its node. -/
def matchSeq (describe : Matcher κ → String) (run : Runner κ) (items : List (Matcher κ))
    (kind : NodeKind κ) (s : MatchState κ) : MatchState κ × Option (Match κ) :=
  let start := s.cursor
  let size := s.nodes.size
  match runItems describe run false items s with
  | (s, parts, .ended hole) => makeSeq kind start.pos parts hole s
  | (s, _, .refused) => (s.rewind start size, none)

/-- Whether a committed failure got further than the best one so far. -/
def isFurther (part : Match κ) : Option (Match κ × Cursor) → Bool
  | none => true
  | some (best, _) => best.node.holePos < part.node.holePos

/-- Match the first alternative that goes through, or else the committed failure that got furthest,
the earlier one if two got equally far. -/
def matchAny (run : Runner κ) (start : Cursor) :
    List (Matcher κ) → Option (Match κ × Cursor) → MatchState κ → MatchState κ × Option (Match κ)
  | [], none, s => (s, none)
  | [], some (best, stop), s => (s.moveTo stop, some best)
  | m :: rest, best, s => match run m s with
    | (s, none) => matchAny run start rest best s
    | (s, some part) =>
      if part.node.isComplete then (s, some part)
      else
        let best := if isFurther part best then some (part, s.cursor) else best
        matchAny run start rest best (s.moveTo start)

/-- The items of a list. -/
structure ListItems (κ : Type) where
  /-- Elements and separators as they stand. -/
  parts : List (Match κ) := []
  /-- The elements. -/
  elements : List NodeId := []
  /-- The separators. -/
  separators : List NodeId := []
  /-- Where the list could not go on, if it could not. -/
  hole : Option Hole := none
  deriving Inhabited

namespace ListItems

/-- Put an element in front. -/
def element (m : Match κ) (items : ListItems κ) : ListItems κ :=
  { items with parts := m :: items.parts, elements := m.id :: items.elements }

/-- Put a separator in front, if there is one. -/
def separator (m : Option (Match κ)) (items : ListItems κ) : ListItems κ :=
  match m with
  | none => items
  | some m => { items with parts := m :: items.parts, separators := m.id :: items.separators }

end ListItems

/-- Run the separator that stands before an element. The first element has none; the outer option
is missing when the list is at its end. -/
def runSeparator (run : Runner κ) (separator : Option (Matcher κ)) (first : Bool)
    (s : MatchState κ) : MatchState κ × Option (Option (Match κ)) :=
  match separator, first with
  | some m, false => match run m s with
    | (s, none) => (s, none)
    | (s, some sep) => (s, some (some sep))
  | _, _ => (s, some none)

/-- Run the elements of a list. A separator without an element after it is given back, and an
element that reads nothing ends the list. The number bounds the elements. -/
def runElements (run : Runner κ) (element : Matcher κ) (separator : Option (Matcher κ)) :
    Nat → Bool → MatchState κ → MatchState κ × ListItems κ
  | 0, _, s => (s, {})
  | bound + 1, first, s =>
    let start := s.cursor
    let size := s.nodes.size
    match runSeparator run separator first s with
    | (s, none) => (s, {})
    | (s, some sep) =>
      if sep.any (!·.node.isComplete) then
        (s, ListItems.separator sep { hole := sep.bind (·.node.hole) })
      else match run element s with
        | (s, none) => (s.rewind start size, {})
        | (s, some part) =>
          if !part.node.isComplete then
            (s, ListItems.separator sep (ListItems.element part { hole := part.node.hole }))
          else if s.cursor.pos == start.pos then
            (s, ListItems.separator sep (ListItems.element part {}))
          else
            let (s, items) := runElements run element separator bound false s
            (s, ListItems.separator sep (ListItems.element part items))

/-- Match a list. -/
def matchList (run : Runner κ) (element : Matcher κ) (separator : Option (Matcher κ))
    (least : Nat) (s : MatchState κ) : MatchState κ × Option (Match κ) :=
  let start := s.cursor
  let size := s.nodes.size
  let (s, items) := runElements run element separator s.stepsLeft true s
  if items.hole.isNone && items.elements.length < least then
    (s.rewind start size, none)
  else
    s.make {
      kind := .list
      span := coverParts items.parts start.pos
      children := items.parts.map (·.id)
      captures := [.list items.elements items.separators]
      isComplete := items.hole.isNone
      hole := items.hole }

/-- Match a rule. The node of a rule whose body is a sequence is the node of the sequence; any
other body becomes the only child of the node. -/
def matchRule (describe : Matcher κ → String) (run : Runner κ) (name : κ) (rule : Rule κ)
    (s : MatchState κ) : MatchState κ × Option (Match κ) :=
  match rule.body with
  | .seq items => matchSeq describe run items (.rule name) s
  | body => match run body s with
    | (s, none) => (s, none)
    | (s, some part) =>
      s.make {
        kind := .rule name
        span := part.node.span
        children := [part.id]
        captures := if rule.arity = 0 then [] else [part.capture]
        isComplete := part.node.isComplete
        hole := part.node.hole }

namespace Grammar

/-- Run a matcher after its step was taken, where `run` runs the matchers inside of it. -/
def dispatch [DecidableEq κ] [RuleName κ] (g : Grammar κ) (run : Runner κ) (m : Matcher κ)
    (s : MatchState κ) : MatchState κ × Option (Match κ) :=
  match m with
  | .literal text => s.makeToken (readLiteral text)
  | .literals set => s.makeToken (readLiterals set)
  | .pattern reader _ => s.makeToken reader.readAt
  | .seq items => matchSeq g.describe run items .group s
  | .any alternatives => matchAny run s.cursor alternatives none s
  | .list element separator least => matchList run element separator least s
  | .optional body => match run body s with
    | (s, none) => s.makeEmpty
    | found => found
  | .rule name => match g.rule? name with
    | some rule => matchRule g.describe run name rule s
    | none => (s, none)
  | .ref index => match g.refs[index]? with
    | some target => run target s
    | none => (s, none)
  | .sure => s.makeEmpty
  | .skip skipper body =>
    let (s, found) := run body (s.pushSkipper skipper)
    (s.popSkipper, found)

/-- Run a matcher, where `depth` bounds the nesting of runs. -/
def runWithin [DecidableEq κ] [RuleName κ] (g : Grammar κ) : Nat → Runner κ
  | 0, _, s => (s, none)
  | depth + 1, m, s =>
    let s := s.step
    if s.exhausted then (s, none) else g.dispatch (runWithin g depth) m s

/-- Run a matcher until it answers or the budget is spent. -/
def run [DecidableEq κ] [RuleName κ] (g : Grammar κ) : Runner κ :=
  fun m s => g.runWithin s.stepsLeft m s

end Grammar

end ExpLang
