import ExpLang.Evaluation.Run

/-!
# Operators on scalars

A scalar is an integer, a fraction, a truth value or a range of integers. An expression of literals and
operators is typed by rules of its own, without a unit, where every operator takes the scalars that it
is given. Such an expression evaluates to a value of its type, whatever it is evaluated in, or fails in
one of two ways: a division by zero or an integer that does not fit.
-/

namespace ExpLang

open Resolved Evaluation

/-- Whether an operator compares the order of its operands. -/
def BinaryOp.isOrder (op : BinaryOp) : Bool := op ∈ [BinaryOp.gt, .lt, .gtEq, .ltEq]

/-- Whether an operator combines truth values and may leave its right operand out. -/
def BinaryOp.isLogical (op : BinaryOp) : Bool := op ∈ [BinaryOp.and, .or]

/-- Whether an operator asks if two values are the same. -/
def BinaryOp.isEquality (op : BinaryOp) : Bool :=
  op ∈ [BinaryOp.eq, .notEq, .strictEq, .strictNotEq]

/-- What literals and operators make. -/
inductive Scalar where
  /-- A truth value. -/
  | bool
  /-- An integer. -/
  | int
  /-- A fraction. -/
  | float
  /-- A range of integers. -/
  | range
  deriving DecidableEq, Repr

namespace Scalar

/-- What an operator before an operand makes of a scalar that it takes. -/
def ofPrefix? : PrefixOp → Scalar → Option Scalar
  | .plus, .int | .neg, .int | .bitNot, .int => some .int
  | .plus, .float | .neg, .float => some .float
  | .not, .bool => some .bool
  | _, _ => none

/-- What an operator between two operands makes of scalars that it takes. -/
def ofBinary? (op : BinaryOp) (left right : Scalar) : Option Scalar :=
  if op.isEquality then some .bool
  else match left, right with
    | .bool, .bool => if op.isLogical then some .bool else none
    | .int, .int =>
      if op.isOrder then some .bool
      else if op = .range then some .range
      else if op ∈ OperatorTable.intOps then some .int else none
    | .float, .float =>
      if op.isOrder then some .bool
      else if op = .cmp then some .int
      else if op ∈ OperatorTable.floatOps then some .float else none
    | _, _ => none

/-- A value is such a scalar. -/
def Has : Scalar → Value → Prop
  | .bool, .bool _ | .int, .int _ | .float, .float _ | .range, .range _ _ => True
  | _, _ => False

end Scalar

/-- The two errors of arithmetic. -/
inductive Evaluation.EvalError.IsArithmetic : EvalError → Prop
  | divisionByZero : IsArithmetic .divisionByZero
  | integerOverflow (operation : String) : IsArithmetic (.integerOverflow operation)

namespace Scalar

/-- The result of an operation is such a scalar, or an error of arithmetic. -/
def Fits (σ : Scalar) : Result → Prop
  | .ok value => σ.Has value
  | .error e => e.IsArithmetic

variable {σ τ ρ : Scalar}

/-- An operation on a result of one scalar gives another scalar if it does on its values. -/
theorem Fits.bind {r : Result} {f : Value → Result} (hr : σ.Fits r)
    (hf : ∀ value, σ.Has value → τ.Fits (f value)) : τ.Fits (r >>= f) := by
  cases r with
  | ok value => exact hf value hr
  | error e => exact hr

/-! ## Operators on values -/

/-- Checked arithmetic gives an integer or an overflow. -/
theorem fits_checked (operation : String) (n : Int) : int.Fits (checked operation n) := by
  unfold checked
  split
  · trivial
  · exact .integerOverflow operation

/-- A quotient is an integer or an error of arithmetic. -/
theorem fits_quotient (a b : Int64) : int.Fits (quotient a b) := by
  unfold quotient
  split
  · exact .divisionByZero
  · exact fits_checked _ _

/-- A remainder is an integer or an error of arithmetic. -/
theorem fits_remainder (a b : Int64) : int.Fits (remainder a b) := by
  unfold remainder
  split
  · exact .divisionByZero
  · exact (fits_checked _ _).bind fun _ _ => fits_checked _ _

/-- A power with a natural exponent is an integer or an overflow. -/
theorem fits_naturalPower (base : Int64) (exponent : Nat) :
    int.Fits (naturalPower base exponent) := by
  unfold naturalPower
  extract_lets exponent
  split
  · exact fits_checked _ _
  · exact .integerOverflow "exponentiation"

/-- A power is an integer or an overflow. -/
theorem fits_power (a b : Int64) : int.Fits (power a b) := by
  unfold power
  split
  · exact fits_naturalPower _ _
  split
  · exact .divisionByZero
  split
  · trivial
  split <;> trivial

/-- A shift is an integer or an error of arithmetic. -/
theorem fits_shift (operation : String) (places : Int64) (f : Int64 → Int64) :
    int.Fits (shift operation places f) := by
  unfold shift
  split
  · trivial
  · exact .integerOverflow operation

/-- A comparison gives an integer. -/
theorem has_ofOrdering (o : Ordering) : int.Has (ofOrdering o) := by cases o <;> trivial

/-- An operator on integers gives the scalar that it has on integers. -/
theorem fits_intBinary {op : BinaryOp} (a b : Int64) (h : ofBinary? op .int .int = some ρ) :
    ρ.Fits (intBinary op a b) := by
  cases op <;> cases h <;> try trivial
  case add | sub | mul => exact fits_checked _ _
  case div => exact fits_quotient a b
  case mod => exact fits_remainder a b
  case pow => exact fits_power a b
  case cmp => exact has_ofOrdering _
  case shl | shr => exact fits_shift _ _ _
  case uShr =>
    rw [intBinary]
    exact fits_shift _ _ _

/-- An operator on floats gives the scalar that it has on floats. -/
theorem fits_floatBinary {op : BinaryOp} (a b : Float) (h : ofBinary? op .float .float = some ρ) :
    ρ.Fits (floatBinary op a b) := by
  cases op <;> cases h <;> try trivial
  case cmp => exact has_ofOrdering _

/-- An operator on booleans gives the scalar that it has on booleans. -/
theorem fits_boolBinary {op : BinaryOp} (a b : Bool) (h : ofBinary? op .bool .bool = some ρ) :
    ρ.Fits (boolBinary op a b) := by
  cases op <;> cases h <;> trivial

/-- Any two values are the same or not. -/
theorem fits_anyBinary {op : BinaryOp} (left right : Value) (hop : op.isEquality = true) :
    bool.Fits (anyBinary op left right) := by
  cases op <;> cases hop <;> trivial

/-- An operator on two scalars that it takes. -/
theorem fits_plainBinary {op : BinaryOp} {left right : Value} (hleft : σ.Has left)
    (hright : τ.Has right) (h : ofBinary? op σ τ = some ρ) : ρ.Fits (plainBinary op left right) := by
  -- an operator takes two scalars of different kinds only to ask if they are the same
  have hmixed (h : (if op.isEquality = true then some bool else none) = some ρ)
      (hany : plainBinary op left right = anyBinary op left right) :
      ρ.Fits (plainBinary op left right) := by
    split at h
    · rename_i hop
      cases h
      exact hany ▸ fits_anyBinary left right hop
    · cases h
  cases σ <;> cases left <;> first | exact hleft.elim | skip
  all_goals cases τ <;> cases right <;> first | exact hright.elim | skip
  case bool.bool.bool.bool => exact fits_boolBinary _ _ h
  case int.int.int.int => exact fits_intBinary _ _ h
  case float.float.float.float => exact fits_floatBinary _ _ h
  all_goals exact hmixed h rfl

/-- An operator before a scalar that it takes. -/
theorem fits_evalPrefix {op : PrefixOp} {value : Value} (hvalue : σ.Has value)
    (h : ofPrefix? op σ = some τ) : τ.Fits (evalPrefix op value) := by
  cases σ <;> cases value <;> first | exact hvalue.elim | skip
  all_goals cases op <;> cases h <;> try trivial
  exact fits_checked _ _

/-- What an operator takes it does not assign to. -/
theorem isAssignment_of_ofBinary? {op : BinaryOp} (h : ofBinary? op σ τ = some ρ) :
    op.isAssignment = false := by
  cases op <;> first | rfl | (cases σ <;> cases τ <;> cases h)

/-- The logical operators take truth values only. -/
theorem eq_bool_of_isLogical {op : BinaryOp} (h : ofBinary? op σ τ = some ρ)
    (hop : op.isLogical = true) : σ = .bool ∧ τ = .bool ∧ ρ = .bool := by
  cases op <;> cases hop <;> cases σ <;> cases τ <;> cases h <;> exact ⟨rfl, rfl, rfl⟩

end Scalar

/-! ## Expressions -/

/-- An expression of literals and operators makes a scalar. -/
inductive Resolved.Expr.Makes : Expr → Scalar → Prop
  | int {value info} : Makes (.literal (.int value) info) .int
  | float {value info} : Makes (.literal (.float value) info) .float
  | bool {value info} : Makes (.literal (.bool value) info) .bool
  | pre {op operand info σ τ} : operand.Makes σ → Scalar.ofPrefix? op σ = some τ →
      Makes (.pre op operand info) τ
  | binary {op left right info σ τ ρ} : left.Makes σ → right.Makes τ →
      Scalar.ofBinary? op σ τ = some ρ → Makes (.binary op left right info) ρ

namespace Evaluation

variable {r r' : Result} {env : Env} {entry : Entry}

/-- Operations one after the other, as steps. -/
theorem ofResult_bind {f : Value → Eval Value} {g : Value → Result}
    (h : ∀ value, f value = ofResult (g value)) : (ofResult r >>= f) = ofResult (r >>= g) := by
  cases r with
  | ok value => exact h value
  | error e => rfl

section Operators

variable (env entry) {op : BinaryOp} (left right : Expr) (info : Info)

/-- An operator that neither assigns nor combines truth values evaluates both operands. -/
theorem eval_plain (hop : op.isAssignment = false) (hlogical : op.isLogical = false) :
    eval env entry (.binary op left right info) = (do
      let a ← eval env entry left
      let b ← eval env entry right
      ofResult (plainBinary op a b)) := by
  cases op <;>
    first | (cases hop; done) | (cases hlogical; done) | (rw [eval] <;> first | rfl | nofun)

/-- An operator that combines truth values evaluates the right operand only if the left one does not
settle the result. -/
theorem eval_logical (hop : op.isLogical = true) :
    eval env entry (.binary op left right info) = (do
      let t ← asBool (← eval env entry left)
      if t = decide (op = .and) then return .bool (← asBool (← eval env entry right))
      else return .bool t) := by
  cases op <;> cases hop
  all_goals
    rw [eval]
    refine bind_congr fun a => bind_congr fun t => ?_
    cases t <;> rfl

end Operators

/-- An operation that goes on with a truth value. -/
def boolResult (f : Bool → Result) : Value → Result
  | .bool b => f b
  | value => .error (.typeMismatch "Bool" value.kind)

/-- Going on from a boolean is an operation on booleans. -/
theorem asBool_bind {f : Bool → Eval Value} {g : Bool → Result} (h : ∀ b, f b = ofResult (g b))
    (value : Value) : (asBool value >>= f) = ofResult (boolResult g value) := by
  cases value with
  | bool b => exact h b
  | _ => rfl

/-- An operator before an operand that it does not assign to. -/
theorem eval_prefix {op : PrefixOp} {operand : Expr} {info : Info} (hinc : op ≠ .inc)
    (hdec : op ≠ .dec) (hoperand : eval env entry operand = ofResult r) :
    eval env entry (.pre op operand info) = ofResult (r >>= evalPrefix op) := by
  rw [eval, if_neg (not_or.2 ⟨hinc, hdec⟩), hoperand]
  exact ofResult_bind fun value => rfl

/-- An expression that makes a scalar evaluates to one, or there is an error of arithmetic. What it is
evaluated in makes no difference, and stays as it is. -/
theorem fits_eval {e : Expr} {σ : Scalar} (h : e.Makes σ) :
    ∃ r, σ.Fits r ∧ ∀ env entry, eval env entry e = ofResult r := by
  induction h with
  | @int value => exact ⟨.ok (.int value), trivial, fun _ _ => by rw [eval]; rfl⟩
  | @float value => exact ⟨.ok (.float value), trivial, fun _ _ => by rw [eval]; rfl⟩
  | @bool value => exact ⟨.ok (.bool value), trivial, fun _ _ => by rw [eval]; rfl⟩
  | @pre op operand info σ τ _ hop ih =>
    obtain ⟨r, hr, heval⟩ := ih
    refine ⟨r >>= evalPrefix op, hr.bind fun value hvalue => Scalar.fits_evalPrefix hvalue hop, ?_⟩
    refine fun env entry => eval_prefix ?_ ?_ (heval env entry)
    all_goals
      rintro rfl
      cases hop
  | @binary op left right info σ τ ρ _ _ hop ihleft ihright =>
    obtain ⟨r, hr, hleft⟩ := ihleft
    obtain ⟨r', hr', hright⟩ := ihright
    cases hlogical : op.isLogical with
    | false =>
      refine ⟨do plainBinary op (← r) (← r'), ?_, fun env entry => ?_⟩
      · exact hr.bind fun a ha => hr'.bind fun b hb => Scalar.fits_plainBinary ha hb hop
      · rw [eval_plain env entry left right info (Scalar.isAssignment_of_ofBinary? hop) hlogical,
          hleft, hright]
        exact ofResult_bind fun a => ofResult_bind fun b => rfl
    | true =>
      obtain ⟨rfl, rfl, rfl⟩ := Scalar.eq_bool_of_isLogical hop hlogical
      have hbool {f : Bool → Result} (hf : ∀ t, Scalar.bool.Fits (f t)) (value : Value)
          (hvalue : Scalar.bool.Has value) : Scalar.bool.Fits (boolResult f value) := by
        cases value <;> first | exact hvalue.elim | exact hf _
      let last : Result := r' >>= boolResult fun t => .ok (.bool t)
      refine ⟨r >>= boolResult fun t => if t = decide (op = .and) then last else .ok (.bool t), ?_,
        fun env entry => ?_⟩
      · refine hr.bind (hbool fun t => ?_)
        split
        · exact hr'.bind (hbool fun t => trivial)
        · trivial
      · have hlast : (do return .bool (← asBool (← eval env entry right))) = ofResult last := by
          rw [hright]
          exact ofResult_bind fun value => asBool_bind (f := fun t => pure (.bool t))
            (g := fun t => .ok (.bool t)) (fun _ => rfl) value
        rw [eval_logical env entry left right info hlogical, hleft, hlast]
        refine ofResult_bind fun value => asBool_bind (fun t => ?_) value
        split <;> rfl

end Evaluation

end ExpLang
