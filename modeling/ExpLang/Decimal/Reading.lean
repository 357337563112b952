import ExpLang.Decimal.Binary

/-!
# Reading numbers

Digits are the ten ASCII digits. An integer has to fit in 64 bits; a decimal fraction is read as
the double next to it.
-/

namespace ExpLang.Decimal

/-- The number that digits stand for, unless one of the characters is no digit. -/
def digitsValue? (cs : List Char) : Option Nat :=
  if cs.all (fun c => '0' ≤ c && c ≤ '9') then
    some (cs.foldl (fun n c => 10 * n + (c.toNat - '0'.toNat)) 0)
  else
    none

/-- An integer, if it fits in 64 bits. -/
def fit64? (n : Int) : Option Int64 :=
  if Int64.minValue.toInt ≤ n ∧ n ≤ Int64.maxValue.toInt then some (Int64.ofInt n) else none

/-- Read an integer of 64 bits with an optional sign. -/
def readInt? (s : String) : Option Int64 :=
  match s.toList with
  | [] | ['-'] | ['+'] => none
  | '-' :: cs => digitsValue? cs >>= fun n => fit64? (-n)
  | '+' :: cs => digitsValue? cs >>= fun n => fit64? n
  | cs => digitsValue? cs >>= fun n => fit64? n

/-- Read digits with a point between them; digits before the point may be missing. -/
def readFraction? (s : String) : Option Float :=
  let whole := s.toList.takeWhile (· ≠ '.')
  match s.toList.dropWhile (· ≠ '.') with
  | '.' :: fraction =>
    if fraction.isEmpty then none
    else (digitsValue? (whole ++ fraction)).map (Binary.ofRatio · (Nat.pow 10 fraction.length))
  | _ => none

end ExpLang.Decimal
