import ExpLang.Grammar.Matcher
import ExpLang.Text.Source

/-!
# Syntax trees

The nodes of a tree stand in one array and are named by their index. A node is made after its
children, so that its index is greater than theirs, and making it writes its index into each of
them. A node whose match was committed and could not go on is marked as incomplete and keeps the hole
where it stopped, and so does every node around it.

Indices are numbers here and 32-bit words in the programs that are described, which are the same for trees
of at most 2 ^ 32 nodes; so many nodes take hundreds of gigabytes.
-/

namespace ExpLang

open Text

/-- The index of a node. -/
abbrev NodeId := Nat

/-- What made a node. -/
inductive NodeKind (κ : Type) where
  /-- A fixed token or a pattern. -/
  | token
  /-- A sequence without a name. -/
  | group
  /-- A list. -/
  | list
  /-- An optional part that is missing. -/
  | empty
  /-- A named rule. -/
  | rule (name : κ)
  deriving DecidableEq, Repr, Inhabited

/-- The name of a kind of node. -/
def NodeKind.name {κ : Type} [RuleName κ] : NodeKind κ → String
  | token => "token"
  | group => "group"
  | list => "list"
  | empty => "empty"
  | rule name => RuleName.name name

/-- The rule that made a node, if one did. -/
def NodeKind.rule? {κ : Type} : NodeKind κ → Option κ
  | rule name => some name
  | _ => none

/-- Whether a node stands for an optional part that is missing. -/
def NodeKind.isEmpty {κ : Type} : NodeKind κ → Bool
  | empty => true
  | _ => false

/-- What a node keeps of one of its parts. -/
inductive Capture where
  /-- A part, or none for an optional part that is missing. -/
  | node (id : Option NodeId)
  /-- The elements of a list and the separators between them. -/
  | list (elements separators : List NodeId)
  deriving DecidableEq, Repr, Inhabited

/-- Where a committed match could not go on. -/
structure Hole where
  /-- What was expected. -/
  what : String
  /-- The byte offset where it was expected. -/
  pos : Nat
  deriving DecidableEq, Repr, Inhabited

/-- One node of a syntax tree. -/
structure Node (κ : Type) where
  /-- What made it. -/
  kind : NodeKind κ
  /-- The text it covers. -/
  span : Span
  /-- The node it is a child of. -/
  parent : Option NodeId := none
  /-- Its children from left to right. -/
  children : List NodeId := []
  /-- What it keeps of its parts. -/
  captures : List Capture := []
  /-- Whether its match went through to its end. -/
  isComplete : Bool := true
  /-- Where it could not go on, if it could not. -/
  hole : Option Hole := none
  deriving DecidableEq, Repr, Inhabited

/-- The offset of the hole of a node. -/
def Node.holePos {κ : Type} (n : Node κ) : Nat := n.hole.elim 0 (·.pos)

/-- The nodes that a match has made, by index. -/
abbrev Arena (κ : Type) := Array (Node κ)

/-- Write a parent into a node. -/
def Arena.setParent {κ : Type} (parent : NodeId) (nodes : Arena κ) (child : NodeId) : Arena κ :=
  nodes.modify child fun n => { n with parent := some parent }

/-- Make a node: its children learn their parent. -/
def Arena.push {κ : Type} (nodes : Arena κ) (n : Node κ) : Arena κ :=
  Array.push (n.children.foldl (setParent nodes.size) nodes) n

/-- A source with the nodes made from it. -/
structure Tree (κ : Type) where
  /-- The source. -/
  source : Source
  /-- The nodes. -/
  nodes : Arena κ
  deriving DecidableEq, Repr, Inhabited

namespace Tree

variable {κ : Type}

/-- The node of an index; an index without a node counts as a missing part. -/
def node (t : Tree κ) (id : NodeId) : Node κ :=
  t.nodes.getD id ⟨.empty, .synthetic, none, [], [], true, none⟩

/-- The text that a node covers. -/
def text (t : Tree κ) (id : NodeId) : String := t.source.slice (t.node id).span

/-- The lines of the outline of a node, where `bound` bounds its depth. -/
def outline [RuleName κ] (t : Tree κ) : (bound depth : Nat) → NodeId → List String
  | 0, _, _ => []
  | bound + 1, depth, id =>
    let n := t.node id
    let text := if n.children.isEmpty then " " ++ quote (t.text id) else ""
    let mark := if n.isComplete then "" else " (incomplete)"
    let indent := String.ofList (List.replicate (2 * depth) ' ')
    (indent ++ n.kind.name ++ " " ++ n.span.text ++ text ++ mark ++ "\n")
      :: n.children.flatMap (outline t bound (depth + 1))

/-- The outline of a node: a line for each node below it, indented by its depth. -/
def dump [RuleName κ] (t : Tree κ) (id : NodeId) : String :=
  String.join (t.outline (t.nodes.size + 1) 0 id)

end Tree

end ExpLang
