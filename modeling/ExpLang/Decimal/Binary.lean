/-!
# Doubles as scaled integers

A finite double is a whole number of at most 53 bits times a power of two. `Binary.ofFloat` takes
the two apart and `Binary.ofRatio` goes back from any nonnegative quotient to the double next to
it, a tie going to the even one. Both work in exact arithmetic on natural numbers.
-/

namespace ExpLang

/-- The number `mant · 2 ^ (exp - 1074)`. -/
structure Binary where
  /-- The whole number. -/
  mant : Nat
  /-- The power of two, counted from the smallest one that doubles have. -/
  exp : Nat
  deriving DecidableEq, Repr, Inhabited

namespace Binary

/-- The lowest power of two of a double is `2 ^ -1074`. -/
def lowest : Nat := 1074

/-- The smallest mantissa of a double above the subnormal ones. -/
def hidden : Nat := 0x10000000000000

/-- The bit of the sign. -/
def signBit : Nat := 0x8000000000000000

/-- The bits of infinity. -/
def infinityBits : Nat := 0x7FF0000000000000

/-- The magnitude of a finite double. -/
def ofFloat (x : Float) : Binary :=
  let bits := x.toBits.toNat % signBit
  let field := bits / hidden
  if field = 0 then ⟨bits, 0⟩ else ⟨bits % hidden + hidden, field - 1⟩

/-- Whether the sign of a double is set. -/
def isNegative (x : Float) : Bool := signBit ≤ x.toBits.toNat

/-- The quotient rounded to the nearest whole number, a tie to the even one. -/
def roundDiv (num den : Nat) : Nat :=
  let q := num / den
  let r := num % den
  if 2 * r < den then q else if den < 2 * r then q + 1 else q + q % 2

/-- The power of two under which a quotient has a mantissa of 53 bits, if doubles have one. -/
def scaleOf (num den : Nat) : Nat :=
  let guess := num.log2 + lowest - den.log2 - 52
  if num * Nat.pow 2 lowest < den * Nat.pow 2 (guess + 52) then guess - 1 else guess

/-- The bits of the double next to a quotient. A mantissa of 53 bits adds one to the exponent field
by itself, and so does one that was rounded up to 54 bits. -/
def bitsOfRatio (num den : Nat) : Nat :=
  let exp := if num = 0 then 0 else scaleOf num den
  min (exp * hidden + roundDiv (num * Nat.pow 2 lowest) (den * Nat.pow 2 exp)) infinityBits

/-- The double next to a quotient. -/
def ofRatio (num den : Nat) : Float := Float.ofBits (bitsOfRatio num den).toUInt64

/-- The double with a given sign and magnitude. -/
def withSign (negative : Bool) (x : Float) : Float := if negative then -x else x

/-- The remainder of a division that is cut off toward zero; it has the sign of the dividend. -/
def remainder (x y : Float) : Float :=
  if x.isNaN || y.isNaN || x.isInf || y == 0 then 0 / 0
  else if y.isInf then x
  else
    let a := ofFloat x
    let b := ofFloat y
    let exp := min a.exp b.exp
    let rest := (a.mant * Nat.pow 2 (a.exp - exp)) % (b.mant * Nat.pow 2 (b.exp - exp))
    withSign (isNegative x) (ofRatio (rest * Nat.pow 2 exp) (Nat.pow 2 lowest))

end Binary

end ExpLang
