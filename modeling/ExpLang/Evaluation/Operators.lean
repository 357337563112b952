import ExpLang.Decimal.Binary
import ExpLang.Decimal.Reading
import ExpLang.Evaluation.Error
import ExpLang.Evaluation.Value

/-!
# Operators on values

Integers have 64 bits, and arithmetic on them is exact: a result that does not fit is an error and
never wraps around. Shifts move bits out, but by less than 64 places only. Fractions follow the
arithmetic of doubles, and comparing with a number that is not a number counts as equal for `<=>`.
-/

namespace ExpLang.Evaluation

open Decimal (fit64?)

/-- The result of an operation. -/
abbrev Result := Except EvalError Value

/-- An exact integer as the result of an operation. -/
def checked (operation : String) (n : Int) : Result :=
  match fit64? n with
  | some r => .ok (.int r)
  | none => .error (.integerOverflow operation)

/-- A quotient cut off toward zero. -/
def quotient (a b : Int64) : Result :=
  if b = 0 then .error .divisionByZero else checked "division" (a.toInt.tdiv b.toInt)

/-- The rest of a division that is cut off toward zero. It does not fit where the quotient does
not. -/
def remainder (a b : Int64) : Result :=
  if b = 0 then .error .divisionByZero
  else do
    let _ ← checked "remainder" (a.toInt.tdiv b.toInt)
    checked "remainder" (a.toInt.tmod b.toInt)

/-- A power with an exponent that is not negative. The powers of zero, one and its negative repeat
after two of them; all other bases have powers that fit only up to an exponent of 63. -/
def naturalPower (base : Int64) (exponent : Nat) : Result :=
  let exponent := if base.toInt.natAbs ≤ 1 then min exponent (2 + exponent % 2) else exponent
  if exponent < 64 then checked "exponentiation" (base.toInt.pow exponent)
  else .error (.integerOverflow "exponentiation")

/-- A power. With an exponent below zero or from `2 ^ 32` on it is taken for a quotient cut off
toward zero, which only one and its negative survive. -/
def power (base exponent : Int64) : Result :=
  if 0 ≤ exponent.toInt ∧ exponent.toInt < 4294967296 then naturalPower base exponent.toInt.toNat
  else if base = 0 then .error .divisionByZero
  else if base = 1 then .ok (.int 1)
  else if base = -1 then .ok (.int (if exponent.toInt % 2 = 0 then 1 else -1))
  else .ok (.int 0)

/-- A shift by some places, which have to be less than 64. -/
def shift (operation : String) (places : Int64) (f : Int64 → Int64) : Result :=
  if 0 ≤ places.toInt ∧ places.toInt < 64 then .ok (.int (f places))
  else .error (.integerOverflow operation)

/-- The number of an order. -/
def ofOrdering : Ordering → Value
  | .lt => .int (-1)
  | .eq => .int 0
  | .gt => .int 1

/-- The order of two fractions. -/
def orderOf (a b : Float) : Ordering := if a < b then .lt else if b < a then .gt else .eq

/-- An operator on two integers. -/
def intBinary (op : BinaryOp) (a b : Int64) : Result :=
  match op with
  | .add => checked "addition" (a.toInt + b.toInt)
  | .sub => checked "subtraction" (a.toInt - b.toInt)
  | .mul => checked "multiplication" (a.toInt * b.toInt)
  | .div => quotient a b
  | .mod => remainder a b
  | .pow => power a b
  | .cmp => .ok (ofOrdering (compare a.toInt b.toInt))
  | .shl => shift "left shift" b (a <<< ·)
  | .shr => shift "right shift" b (a >>> ·)
  | .uShr => shift "unsigned right shift" b fun n => (a.toUInt64 >>> n.toUInt64).toInt64
  | .bitOr => .ok (.int (a ||| b))
  | .bitAnd => .ok (.int (a &&& b))
  | .bitXor => .ok (.int (a ^^^ b))
  | .eq | .strictEq => .ok (.bool (a == b))
  | .notEq | .strictNotEq => .ok (.bool (a != b))
  | .lt => .ok (.bool (a < b))
  | .ltEq => .ok (.bool (a ≤ b))
  | .gt => .ok (.bool (b < a))
  | .gtEq => .ok (.bool (b ≤ a))
  | .range => .ok (.range a b)
  | .assign => .ok (.int b)
  | _ => .error (.invalidBinaryOp op (Value.int a).kind (Value.int b).kind)

/-- An operator on two fractions. -/
def floatBinary (op : BinaryOp) (a b : Float) : Result :=
  match op with
  | .add => .ok (.float (a + b))
  | .sub => .ok (.float (a - b))
  | .mul => .ok (.float (a * b))
  | .div => .ok (.float (a / b))
  | .mod => .ok (.float (Binary.remainder a b))
  | .pow => .ok (.float (a.pow b))
  | .cmp => .ok (ofOrdering (orderOf a b))
  | .eq | .strictEq => .ok (.bool (a == b))
  | .notEq | .strictNotEq => .ok (.bool (a != b))
  | .lt => .ok (.bool (a < b))
  | .ltEq => .ok (.bool (a ≤ b))
  | .gt => .ok (.bool (b < a))
  | .gtEq => .ok (.bool (b ≤ a))
  | .assign => .ok (.float b)
  | _ => .error (.invalidBinaryOp op (Value.float a).kind (Value.float b).kind)

/-- An operator on two truth values. -/
def boolBinary (op : BinaryOp) (a b : Bool) : Result :=
  match op with
  | .and | .bitAnd => .ok (.bool (a && b))
  | .or | .bitOr => .ok (.bool (a || b))
  | .bitXor => .ok (.bool (a ^^ b))
  | .eq | .strictEq => .ok (.bool (a == b))
  | .notEq | .strictNotEq => .ok (.bool (a != b))
  | .assign => .ok (.bool b)
  | _ => .error (.invalidBinaryOp op (Value.bool a).kind (Value.bool b).kind)

/-- An operator on two values of any kinds. -/
def anyBinary (op : BinaryOp) (left right : Value) : Result :=
  match op with
  | .assign => .ok right
  | .eq | .strictEq => .ok (.bool (left.same right))
  | .notEq | .strictNotEq => .ok (.bool !(left.same right))
  | _ => .error (.invalidBinaryOp op left.kind right.kind)

/-- An operator that is no compound assignment, on two values. -/
def plainBinary (op : BinaryOp) : Value → Value → Result
  | .int a, .int b => intBinary op a b
  | .float a, .float b => floatBinary op a b
  | .bool a, .bool b => boolBinary op a b
  | .str a, .str b => if op = .add then .ok (.str (a ++ b)) else anyBinary op (.str a) (.str b)
  | left, right => anyBinary op left right

/-- An operator on two values. A compound assignment gives what it assigns. -/
def evalBinary (op : BinaryOp) (left right : Value) : Result :=
  plainBinary (op.base?.getD op) left right

/-- One more or one less. -/
def step (symbol : String) (delta : Int) : Value → Result
  | .int n => checked "increment" (n.toInt + delta)
  | .float x => .ok (.float (x + Float.ofInt delta))
  | value => .error (.invalidUnaryOp symbol value.kind)

/-- An operator before its operand. -/
def evalPrefix : PrefixOp → Value → Result
  | .plus, .int n => .ok (.int n)
  | .plus, .float x => .ok (.float x)
  | .neg, .int n => checked "negation" (-n.toInt)
  | .neg, .float x => .ok (.float (-x))
  | .not, .bool b => .ok (.bool !b)
  | .bitNot, .int n => .ok (.int (~~~n))
  | .inc, value => step "++" 1 value
  | .dec, value => step "--" (-1) value
  | op, value => .error (.invalidUnaryOp op.symbol value.kind)

/-- The value that an operator after its operand leaves in the operand. -/
def evalPostfix : PostfixOp → Value → Result
  | .inc, value => step "++" 1 value
  | .dec, value => step "--" (-1) value

end ExpLang.Evaluation
