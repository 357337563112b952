import ExpLang.Proofs.Typing.Scalars

/-!
# Compound assignments

A compound assignment finds the place of its target once and reads it before its right operand is
evaluated. To assign the value of the operation is to find the place of the target first and to
evaluate the target as the left operand then. The two are the same where the target is a variable: a
local, an argument or a field without a receiver. Finding the place of a variable does nothing, and
its value is what is read from its place, so it makes no difference what the right operand does to
it in between. A target with a receiver or an index does not qualify, for it would be evaluated
twice.
-/

namespace ExpLang

open Resolved

/-- An expression is a variable: a local, an argument, or a field of the class around. -/
inductive Resolved.Expr.IsVariable : Expr → Prop
  | localVar (id : LocalId) (info : Info) : IsVariable (.localVar id info)
  | argument (id : ParamId) (info : Info) : IsVariable (.argument id info)
  | field (id : FieldId) (info : Info) : IsVariable (.member (.field id) info)

namespace BinaryOp

variable {op base : BinaryOp}

/-- What a compound assignment applies is an operator that evaluates both operands and assigns to
none. -/
theorem isPlain_of_base? (h : op.base? = some base) :
    base.isAssignment = false ∧ base.isLogical = false := by
  cases op <;> cases h <;> exact ⟨rfl, rfl⟩

end BinaryOp

namespace Evaluation

variable {op base : BinaryOp} {target : Expr}

/-- A compound assignment makes of two values what its base makes of them. -/
theorem evalBinary_of_base? (h : op.base? = some base) (left right : Value) :
    evalBinary op left right = plainBinary base left right := by
  rw [evalBinary, h, Option.getD_some]

section Steps

variable (env : Env) (entry : Entry)

/-- An assignment finds its place, then its value, and writes it. -/
theorem eval_assign (left right : Expr) (info : Info) :
    eval env entry (.binary .assign left right info) = (do
      let place ← placeOf env entry left
      let value ← eval env entry right
      place.write env value
      return value) := by
  rw [eval]

/-- The old value is read before the right operand is evaluated. -/
theorem eval_compound (h : op.base? = some base) (left right : Expr) (info : Info) :
    eval env entry (.binary op left right info) = (do
      let place ← placeOf env entry left
      let old ← place.read env entry
      let given ← eval env entry right
      let value ← ofResult (plainBinary base old given)
      place.write env value
      return value) := by
  have hop : op ≠ .and ∧ op ≠ .or ∧ op ≠ .assign ∧ op.isAssignment = true := by
    cases op <;> cases h <;> decide
  obtain ⟨hand, hor, hassign, hisAssignment⟩ := hop
  rw [eval, if_pos hisAssignment]
  · simp only [evalBinary_of_base? h]
  · exact hand
  · exact hor
  · exact hassign

/-- To find the place of a variable does nothing, and the value of the variable is what is read
there. -/
theorem exists_place (h : target.IsVariable) (m : Machine) :
    ∃ place, placeOf env entry target m = (.ok place, m) ∧
      eval env entry target m = place.read env entry m := by
  cases h with
  | localVar id info => exact ⟨.localVar id, rfl, by rw [eval]; rfl⟩
  | argument id info => exact ⟨.argument id, rfl, by rw [eval]; rfl⟩
  | field id info =>
    have hplace : placeOf env entry (.member (.field id) info) m =
        (.ok (.field m.frame.this id), m) := by rw [placeOf]; rfl
    have hvalue : eval env entry (.member (.field id) info) m =
        readField env entry m.frame.this id m := by rw [eval]; rfl
    exact ⟨.field m.frame.this id, hplace, hvalue⟩

end Steps

/-- A compound assignment to a variable does what assigning the value of the operation does: it ends
with the same value or error and leaves the same machine, whatever the right operand does. -/
theorem eval_compound_eq_assign (env : Env) (entry : Entry) (h : op.base? = some base)
    (htarget : target.IsVariable) (right : Expr) (info inner outer : Info) (m : Machine) :
    eval env entry (.binary op target right info) m =
      eval env entry (.binary .assign target (.binary base target right inner) outer) m := by
  obtain ⟨place, hplace, hvalue⟩ := exists_place env entry htarget m
  obtain ⟨hassign, hlogical⟩ := BinaryOp.isPlain_of_base? h
  rw [eval_compound env entry h, eval_assign, bind_of_ok hplace, bind_of_ok hplace,
    eval_plain env entry target right inner hassign hlogical]
  simp only [bind_assoc]
  -- both forms go on with the old value, in the machine that reading it leaves
  cases hread : place.read env entry m with
  | mk r m' =>
    rw [hread] at hvalue
    rw [bind_of_run hread, bind_of_run hvalue]

/-- A unit with a field of a class whose first value is seven. -/
def countedUnit : CodeUnit :=
  { CodeUnit.empty with fields := #[⟨"n", Primitive.int.id, .ofClass,
      some (.literal (.int 7) default), 0, default⟩] }

/-- The field gets its first value when it is read, then the right operand assigns to it. -/
theorem eval_compound_eq_assign_counted :
    BinaryOp.subAssign.base? = some .sub ∧ (Expr.member (.field 0) default).IsVariable ∧
    ∃ m', eval ⟨countedUnit, 1000⟩ (.fuelled ⟨countedUnit, 1000⟩ 1)
        (.binary .subAssign (.member (.field 0) default)
          (.binary .assign (.member (.field 0) default) (.literal (.int 3) default) default) default) {} =
        (.ok (.int 4), m') ∧
      eval ⟨countedUnit, 1000⟩ (.fuelled ⟨countedUnit, 1000⟩ 1)
        (.binary .assign (.member (.field 0) default)
          (.binary .sub (.member (.field 0) default)
            (.binary .assign (.member (.field 0) default) (.literal (.int 3) default) default) default)
          default) {} = (.ok (.int 4), m') ∧
      m'.statics = [(0, .int 4)] := by
  have hop : BinaryOp.subAssign.base? = some .sub := rfl
  refine ⟨hop, .field 0 default, _, rfl, ?_, rfl⟩
  rw [← eval_compound_eq_assign ⟨countedUnit, 1000⟩ _ hop (.field 0 default) _ default default default]
  rfl

end Evaluation

end ExpLang
