/-!
# Operators

Binary operators, prefix operators and postfix operators with their symbols. A compound assignment
such as `+=` has a base, the operator that it applies before it assigns.
-/

namespace ExpLang

/-- The operators that stand between two operands. -/
inductive BinaryOp where
  | pow
  | mod
  | mul
  | div
  | add
  | sub
  | shl
  | shr
  | uShr
  | bitOr
  | bitAnd
  | bitXor
  | cmp
  | eq
  | notEq
  | strictEq
  | strictNotEq
  | gt
  | lt
  | gtEq
  | ltEq
  | range
  | and
  | or
  | assign
  | addAssign
  | subAssign
  | mulAssign
  | divAssign
  | modAssign
  | shlAssign
  | shrAssign
  | uShrAssign
  | orAssign
  | andAssign
  | xorAssign
  deriving DecidableEq, Repr, Inhabited

namespace BinaryOp

/-- Every binary operator. -/
def all : List BinaryOp :=
  [pow, mod, mul, div, add, sub, shl, shr, uShr, bitOr, bitAnd, bitXor, cmp, eq, notEq, strictEq,
   strictNotEq, gt, lt, gtEq, ltEq, range, and, or, assign, addAssign, subAssign, mulAssign,
   divAssign, modAssign, shlAssign, shrAssign, uShrAssign, orAssign, andAssign, xorAssign]

/-- The symbol of an operator. -/
def symbol : BinaryOp → String
  | pow => "**"
  | mod => "%"
  | mul => "*"
  | div => "/"
  | add => "+"
  | sub => "-"
  | shl => "<<"
  | shr => ">>"
  | uShr => ">>>"
  | bitOr => "|"
  | bitAnd => "&"
  | bitXor => "^"
  | cmp => "<=>"
  | eq => "=="
  | notEq => "!="
  | strictEq => "==="
  | strictNotEq => "!=="
  | gt => ">"
  | lt => "<"
  | gtEq => ">="
  | ltEq => "<="
  | range => "..."
  | and => "&&"
  | or => "||"
  | assign => "="
  | addAssign => "+="
  | subAssign => "-="
  | mulAssign => "*="
  | divAssign => "/="
  | modAssign => "%="
  | shlAssign => "<<="
  | shrAssign => ">>="
  | uShrAssign => ">>>="
  | orAssign => "|="
  | andAssign => "&="
  | xorAssign => "^="

/-- The operator of a symbol. -/
def ofSymbol? (symbol : String) : Option BinaryOp := all.find? (·.symbol == symbol)

/-- The symbol of a binary operator leads back to it. -/
theorem ofSymbol?_symbol (op : BinaryOp) : ofSymbol? op.symbol = some op := by
  cases op <;> rfl

/-- The operator that a compound assignment applies before it assigns. -/
def base? : BinaryOp → Option BinaryOp
  | addAssign => some add
  | subAssign => some sub
  | mulAssign => some mul
  | divAssign => some div
  | modAssign => some mod
  | shlAssign => some shl
  | shrAssign => some shr
  | uShrAssign => some uShr
  | orAssign => some bitOr
  | andAssign => some bitAnd
  | xorAssign => some bitXor
  | _ => none

/-- Whether an operator assigns to its left operand. -/
def isAssignment (op : BinaryOp) : Bool := op == assign || op.base?.isSome

/-- Whether the result of an operator is always a truth value. -/
def isBoolean : BinaryOp → Bool
  | eq | notEq | strictEq | strictNotEq | gt | lt | gtEq | ltEq | and | or => true
  | _ => false

end BinaryOp

/-- The operators that stand before their operand. -/
inductive PrefixOp where
  | inc
  | dec
  | plus
  | neg
  | not
  | bitNot
  deriving DecidableEq, Repr, Inhabited

namespace PrefixOp

/-- Every prefix operator. -/
def all : List PrefixOp := [inc, dec, plus, neg, not, bitNot]

/-- The symbol of an operator. -/
def symbol : PrefixOp → String
  | inc => "++"
  | dec => "--"
  | plus => "+"
  | neg => "-"
  | not => "!"
  | bitNot => "~"

/-- The operator of a symbol. -/
def ofSymbol? (symbol : String) : Option PrefixOp := all.find? (·.symbol == symbol)

/-- The symbol of a prefix operator leads back to it. -/
theorem ofSymbol?_symbol (op : PrefixOp) : ofSymbol? op.symbol = some op := by
  cases op <;> rfl

end PrefixOp

/-- The operators that stand after their operand. -/
inductive PostfixOp where
  | inc
  | dec
  deriving DecidableEq, Repr, Inhabited

namespace PostfixOp

/-- Every postfix operator. -/
def all : List PostfixOp := [inc, dec]

/-- The symbol of an operator. -/
def symbol : PostfixOp → String
  | inc => "++"
  | dec => "--"

/-- The operator of a symbol. -/
def ofSymbol? (symbol : String) : Option PostfixOp := all.find? (·.symbol == symbol)

/-- The symbol of a postfix operator leads back to it. -/
theorem ofSymbol?_symbol (op : PostfixOp) : ofSymbol? op.symbol = some op := by
  cases op <;> rfl

end PostfixOp

end ExpLang
