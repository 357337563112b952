import ExpLang.Syntax.Ast

/-!
# Priorities of operators

The grammar takes an expression as operands with operators between them, all on one level. The
tree is built afterwards, from left to right: an operator that binds tighter than the operator on
top goes into the right operand of it, any other operator goes on top. Priorities run from one, the
tightest, to eleven, the assignments. Operators of equal priority group to the left, assignments to
the right.
-/

namespace ExpLang.Syntax

/-- The priority of the assignments, the loosest one. -/
def assignmentPriority : Nat := 11

/-- The priority of an operator; a smaller number binds tighter. -/
def priority : BinaryOp → Nat
  | .pow => 1
  | .mod => 2
  | .mul | .div => 3
  | .add | .sub => 4
  | .shl | .shr | .uShr => 5
  | .bitOr | .bitAnd | .bitXor => 6
  | .cmp | .eq | .notEq | .strictEq | .strictNotEq | .gt | .lt | .gtEq | .ltEq => 7
  | .range => 8
  | .and => 9
  | .or => 10
  | _ => assignmentPriority

/-- Why operands and operators form no expression. -/
inductive PrecedenceError where
  /-- A symbol is no operator. -/
  | unknownOperator (symbol : String) (span : Span)
  /-- There is not one operand more than there are operators. -/
  | shape (operands operators : Nat)
  deriving DecidableEq, Repr, Inhabited

namespace PrecedenceError

/-- The wording of an error. -/
def message : PrecedenceError → String
  | unknownOperator symbol _ => s!"unknown operator `{symbol}`"
  | shape operands operators => s!"{operands} operands cannot be joined by {operators} operators"

/-- The place of an error. -/
def span : PrecedenceError → Span
  | unknownOperator _ span => span
  | shape .. => .synthetic

end PrecedenceError

/-- A tree under construction. Its leaves are closed: nothing goes into an operand. -/
inductive OperatorTree where
  /-- An operand. -/
  | leaf (operand : Expr)
  /-- An operator on two trees. -/
  | node (op : BinaryOp) (left right : OperatorTree)
  deriving Inhabited

namespace OperatorTree

/-- Whether an operator on the right goes into the right operand of an operator before it. -/
def bindsTighter (incoming top : BinaryOp) : Bool :=
  priority incoming < priority top
    || (priority incoming == priority top && priority incoming == assignmentPriority)

/-- Add an operator and its right operand at the right end of a tree. -/
def insert (op : BinaryOp) (operand : Expr) : OperatorTree → OperatorTree
  | leaf e => node op (leaf e) (leaf operand)
  | node top left right =>
    if bindsTighter op top then node top left (insert op operand right)
    else node op (node top left right) (leaf operand)

/-- The expression of a tree. -/
def toExpr : OperatorTree → Expr
  | leaf e => e
  | node op left right =>
    let l := left.toExpr
    let r := right.toExpr
    .binary op l r (l.span.merge r.span)

/-- Add operators with their right operands one after the other. -/
def insertAll :
    OperatorTree → List (String × Span) → List Expr → Except PrecedenceError OperatorTree
  | tree, (symbol, span) :: operators, operand :: operands =>
    match BinaryOp.ofSymbol? symbol with
    | some op => insertAll (tree.insert op operand) operators operands
    | none => .error (.unknownOperator symbol span)
  | tree, _, _ => .ok tree

end OperatorTree

/-- The expression of operands with operators between them. -/
def foldOperators (operands : List Expr) (operators : List (String × Span)) :
    Except PrecedenceError Expr :=
  match operands with
  | [] => .error (.shape 0 operators.length)
  | first :: rest =>
    if rest.length = operators.length then
      (OperatorTree.insertAll (.leaf first) operators rest).map OperatorTree.toExpr
    else
      .error (.shape operands.length operators.length)

end ExpLang.Syntax
