import ExpLang.Decimal.Binary

/-!
# The shortest decimal of a double

Many decimals are read back as one double. The one that is written has the fewest digits, and of
those it is the nearest. `Shortest.digits` searches the decimal grids from coarse to fine: on each
grid only the two neighbours of the double have to be looked at.

How the digits are laid out is a matter of the place where the number is written. `positional`
writes no exponent and nothing after a whole number; `general` always shows that the number is not
an integer, and takes an exponent for very small and very large numbers.
-/

namespace ExpLang

/-- The decimal `digits · 10 ^ (point - number of digits)`. -/
structure Decimal where
  /-- The digits, the first one not zero. -/
  digits : List Char
  /-- Number of digits before the decimal point; zero or negative for small numbers. -/
  point : Int
  deriving DecidableEq, Repr, Inhabited

namespace Shortest

/-- The reals that are read back as a double, all three scaled by a common factor: the bounds, the
double itself, and whether the bounds belong to them. -/
structure Interval where
  /-- The lower bound. -/
  low : Nat
  /-- The double. -/
  value : Nat
  /-- The upper bound. -/
  high : Nat
  /-- The common factor. -/
  unit : Nat
  /-- Whether the bounds are read back as the double too. -/
  closed : Bool
  deriving Repr, Inhabited

/-- The interval of a double. Below a power of two the doubles stand twice as close. -/
def interval (b : Binary) : Interval :=
  let low := if b.mant = Binary.hidden then 4 * b.mant - 1 else 4 * b.mant - 2
  let scale := Nat.pow 2 b.exp
  ⟨low * scale, 4 * b.mant * scale, (4 * b.mant + 2) * scale, 4 * Nat.pow 2 Binary.lowest,
    b.mant % 2 = 0⟩

/-- Whether a multiple of `step` lies in an interval, where `step` is in the unit of the interval
after both have been multiplied by `factor`. -/
def Interval.holds (i : Interval) (factor n : Nat) : Bool :=
  if i.closed then i.low * factor ≤ n && n ≤ i.high * factor
  else i.low * factor < n && n < i.high * factor

/-- The whole number `k` for which `k · 10 ^ grid` lies in the interval and is nearest to the
double, a tie going up. -/
def onGrid? (i : Interval) (grid : Int) : Option Nat :=
  let step := i.unit * Nat.pow 10 grid.toNat
  let factor := Nat.pow 10 (-grid).toNat
  let k := i.value * factor / step
  let below := k * step
  let above := below + step
  let target := i.value * factor
  match i.holds factor below, i.holds factor above with
  | true, true => some (if target - below < above - target then k else k + 1)
  | true, false => some k
  | false, true => some (k + 1)
  | false, false => none

/-- Search the grids from `grid` on downward; the first bound is the number of grids. -/
def search (i : Interval) : Nat → Int → Nat × Int
  | 0, grid => (0, grid)
  | n + 1, grid => match onGrid? i grid with
    | some k => if k = 0 then search i n (grid - 1) else (k, grid)
    | none => search i n (grid - 1)

/-- Drop the zeros at the end of a number, each making the grid coarser. -/
def dropZeros : Nat → Nat → Int → Nat × Int
  | 0, k, grid => (k, grid)
  | n + 1, k, grid => if k ≠ 0 ∧ k % 10 = 0 then dropZeros n (k / 10) (grid + 1) else (k, grid)

/-- An upper bound for the decimal exponent of a double. -/
def topGrid (b : Binary) : Int :=
  ((b.mant.log2 + b.exp : Nat) - (Binary.lowest : Int)) * 30103 / 100000 + 1

/-- The shortest decimal of a positive finite double, the nearest one of equally short ones. -/
def digits (b : Binary) : Decimal :=
  let (k, grid) := search (interval b) 20 (topGrid b)
  let (k, grid) := dropZeros 20 k grid
  let ds := Nat.toDigits 10 k
  ⟨ds, ds.length + grid⟩

/-- A row of zeros. -/
def zeros (n : Nat) : List Char := List.replicate n '0'

/-- The digits of a decimal before and after its point. -/
def split (d : Decimal) : List Char × List Char :=
  if d.point ≤ 0 then (['0'], zeros (-d.point).toNat ++ d.digits)
  else
    let n := d.point.toNat
    if d.digits.length ≤ n then (d.digits ++ zeros (n - d.digits.length), [])
    else (d.digits.take n, d.digits.drop n)

/-- A decimal without an exponent, with at least `least` digits after the point. -/
def layPlain (least : Nat) (d : Decimal) : String :=
  let (whole, fraction) := split d
  let fraction := fraction ++ zeros (least - fraction.length)
  String.ofList (if fraction.isEmpty then whole else whole ++ '.' :: fraction)

/-- A decimal with one digit before the point and an exponent. -/
def layScientific (d : Decimal) : String :=
  let mantissa := match d.digits with
    | [] => ['0']
    | [c] => [c]
    | c :: cs => c :: '.' :: cs
  String.ofList mantissa ++ "e" ++ toString (d.point - 1)

/-- The text of a double, where `lay` lays out its magnitude. -/
def text (lay : Decimal → String) (x : Float) : String :=
  let sign := if Binary.isNegative x then "-" else ""
  if x.isNaN then "NaN"
  else if x.isInf then sign ++ "inf"
  else
    let b := Binary.ofFloat x
    sign ++ lay (if b.mant = 0 then ⟨['0'], 1⟩ else digits b)

/-- The text of a double without an exponent; a whole number has no point. -/
def positional (x : Float) : String := text (layPlain 0) x

/-- Whether a decimal is below `10 ^ -4`, or `10 ^ 16` and above. -/
def needsExponent (d : Decimal) : Bool := d.point < -3 || 16 < d.point

/-- The text of a double that tells it from an integer. -/
def general (x : Float) : String :=
  text (fun d => if needsExponent d then layScientific d else layPlain 1 d) x

end Shortest

end ExpLang
