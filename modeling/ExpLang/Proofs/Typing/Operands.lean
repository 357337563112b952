import ExpLang.Proofs.Compilation
import ExpLang.Proofs.Origins.Programs
import ExpLang.Proofs.Typing.Operators
import ExpLang.Proofs.Typing.Scalars

/-!
# Operands that are looked at when the program runs

A comparison, and an operator that combines truth values, is a truth value whatever its operands are. To
lower it reports nothing, and to check a unit asks nothing about it, so a program in which a number is
compared with a truth value compiles without a finding. What the operands are is looked at when the
program runs: an order is one of two integers or of two fractions, and what is combined has to be a
truth value, where it is evaluated at all.
-/

namespace ExpLang

open Resolved Lowering Evaluation

/-- Two values have an order: they are both integers or both fractions. -/
def Evaluation.Value.HasOrder : Value → Value → Prop
  | .int _, .int _ | .float _, .float _ => True
  | _, _ => False

/-- How an operator on two operands looks at their values, where it compares their order or combines
truth values. -/
structure LooksAtOperands (op : BinaryOp) (left right whole : Eval Value) : Prop where
  /-- Two numbers of one kind are compared. -/
  compared : op.isOrder = true → ∀ {m a m₁ b m₂}, left m = (.ok a, m₁) → right m₁ = (.ok b, m₂) →
    a.HasOrder b → ∃ t, whole m = (.ok (.bool t), m₂)
  /-- Other values are refused. -/
  refused : op.isOrder = true → ∀ {m a m₁ b m₂}, left m = (.ok a, m₁) → right m₁ = (.ok b, m₂) →
    ¬ a.HasOrder b → whole m = (.error (.error (.invalidBinaryOp op a.kind b.kind)), m₂)
  /-- A left operand that settles the result leaves the right one out. -/
  settled : op.isLogical = true → ∀ {m t m₁}, left m = (.ok (.bool t), m₁) →
    t ≠ decide (op = .and) → whole m = (.ok (.bool t), m₁)
  /-- Else the right operand is the result. -/
  unsettled : op.isLogical = true → ∀ {m t m₁ t' m₂}, left m = (.ok (.bool t), m₁) →
    t = decide (op = .and) → right m₁ = (.ok (.bool t'), m₂) → whole m = (.ok (.bool t'), m₂)
  /-- A left operand that is no truth value is refused. -/
  left_refused : op.isLogical = true → ∀ {m a m₁}, left m = (.ok a, m₁) → (∀ t, a ≠ .bool t) →
    whole m = (.error (.error (.typeMismatch "Bool" a.kind)), m₁)
  /-- So is a right operand, if it is evaluated. -/
  right_refused : op.isLogical = true → ∀ {m t m₁ b m₂}, left m = (.ok (.bool t), m₁) →
    t = decide (op = .and) → right m₁ = (.ok b, m₂) → (∀ t, b ≠ .bool t) →
    whole m = (.error (.error (.typeMismatch "Bool" b.kind)), m₂)

/-- An operator that compares an order, on two values. -/
theorem plainBinary_order {op : BinaryOp} (hop : op.isOrder = true) (a b : Value) :
    (a.HasOrder b → ∃ t, plainBinary op a b = .ok (.bool t)) ∧
      (¬ a.HasOrder b → plainBinary op a b = .error (.invalidBinaryOp op a.kind b.kind)) := by
  cases op <;> first | (cases hop; done) | skip
  all_goals
    refine ⟨fun h => ?_, fun h => ?_⟩
    · cases a <;> cases b <;> first | exact h.elim | exact ⟨_, rfl⟩
    · cases a <;> cases b <;> first | exact absurd trivial h | rfl

/-- Only a truth value is one. -/
theorem asBool_of_ne {a : Value} (h : ∀ t, a ≠ .bool t) :
    asBool a = fail (.typeMismatch "Bool" a.kind) := by
  cases a with
  | bool t => exact absurd rfl (h t)
  | _ => rfl

/-- Evaluating a binary operator looks at its operands as the operator does. -/
theorem looksAtOperands (env : Env) (entry : Entry) (op : BinaryOp) (left right : Expr)
    (info : Info) : LooksAtOperands op (eval env entry left) (eval env entry right)
      (eval env entry (.binary op left right info)) := by
  have horder (hop : op.isOrder = true) {m a m₁ b m₂} (hleft : eval env entry left m = (.ok a, m₁))
      (hright : eval env entry right m₁ = (.ok b, m₂)) :
      eval env entry (.binary op left right info) m = ofResult (plainBinary op a b) m₂ := by
    have hplain : op.isAssignment = false ∧ op.isLogical = false := by
      cases op <;> first | (cases hop; done) | exact ⟨rfl, rfl⟩
    rw [eval_plain env entry left right info hplain.1 hplain.2, Evaluation.bind_of_ok hleft,
      Evaluation.bind_of_ok hright]
  have hlogical (hop : op.isLogical = true) {m t m₁}
      (hleft : eval env entry left m = (.ok (.bool t), m₁)) :
      eval env entry (.binary op left right info) m = (if t = decide (op = .and) then
        (do return .bool (← asBool (← eval env entry right)) : Eval Value) else
        pure (.bool t)) m₁ := by
    rw [eval_logical env entry left right info hop, Evaluation.bind_of_ok hleft]
    rfl
  refine ⟨?_, ?_, ?_, ?_, ?_, ?_⟩
  · intro hop m a m₁ b m₂ hleft hright h
    obtain ⟨t, ht⟩ := (plainBinary_order hop a b).1 h
    exact ⟨t, by rw [horder hop hleft hright, ht]; rfl⟩
  · intro hop m a m₁ b m₂ hleft hright h
    rw [horder hop hleft hright, (plainBinary_order hop a b).2 h]
    rfl
  · intro hop m t m₁ hleft h
    rw [hlogical hop hleft, if_neg h]
    rfl
  · intro hop m t m₁ t' m₂ hleft h hright
    rw [hlogical hop hleft, if_pos h, Evaluation.bind_of_ok hright]
    rfl
  · intro hop m a m₁ hleft h
    rw [eval_logical env entry left right info hop, Evaluation.bind_of_ok hleft, asBool_of_ne h]
    rfl
  · intro hop m t m₁ b m₂ hleft ht hright h
    rw [hlogical hop hleft, if_pos ht, Evaluation.bind_of_ok hright, asBool_of_ne h]
    rfl

/-! ## Compiled programs -/

/-- Whatever its operands are, an operator whose result is a truth value is lowered without a report, to
one of the type of truth values. -/
theorem lowerBinary_boolean {op : BinaryOp} (hop : op.isBoolean = true) (left right : Expr)
    (span : Span) (s : State) : lowerBinary op left right span s =
      .ok (.binary op left right ⟨Primitive.bool.id, span⟩, s.joined left.type right.type) := by
  have hassign : op ≠ .assign := by
    rintro rfl
    cases hop
  apply lowerBinary_of_some
  rw [State.result?, OperatorTable.resultType?]
  dsimp only
  rw [if_neg hassign, if_pos hop]

/-- A unit that was compiled has the code of a unit that was lowered. -/
theorem visits_traced {source : Source} {budget : Nat} {policy : QueuePolicy} {c : Compilation}
    (h : compile source budget policy = .ok c) : Traced c.unit.visits := by
  obtain ⟨p, u, queue, queue', hlower, hcheck, -⟩ := compile_eq_ok h
  obtain ⟨ds, hextends⟩ := Checking.forM_extends _ (lowerProgram_lowered hlower).sound.types
    (Checking.check_eq_some hcheck)
  have hunit : c.unit = { u with types := c.unit.types } := hextends.unit_eq
  rw [hunit]
  exact (lowerProgram_traced hlower).visits

/-- A comparison, or an operator that combines truth values, in a compiled program is a truth value. To
lower it on its operands reports nothing, in whatever state, and checking asks nothing about it that it
does not ask about the operands. What the operands are is looked at when the program runs. -/
theorem looksAtOperands_of_compile {source : Source} {budget : Nat} {policy : QueuePolicy}
    {c : Compilation} (h : compile source budget policy = .ok c) {op : BinaryOp} {left right : Expr}
    {info : Info} (hmem : .expr (.binary op left right info) ∈ c.unit.visits)
    (hop : op.isOrder = true ∨ op.isLogical = true) :
    info.type = Primitive.bool.id ∧
    (∀ s : State, ∃ types, lowerBinary op left right info.span s =
      .ok (.binary op left right info, { s with unit := { s.unit with types := types } })) ∧
    (∀ ret, (Expr.binary op left right info).visits.flatMap (Checking.visitObligations ret) =
      (left.visits ++ right.visits).flatMap (Checking.visitObligations ret)) ∧
    ∀ env entry, LooksAtOperands op (eval env entry left) (eval env entry right)
      (eval env entry (.binary op left right info)) := by
  have hboolean : op.isBoolean = true := by
    rcases hop with hop | hop <;> cases op <;> first | (cases hop; done) | rfl
  obtain ⟨s, s', -, hrun⟩ := visits_traced h _ hmem
  have hinfo : info = ⟨Primitive.bool.id, info.span⟩ := by
    rw [lowerBinary_boolean hboolean] at hrun
    injection congrArg Prod.fst (Except.ok.inj hrun) with _ _ _ hinfo
    exact hinfo.symm
  refine ⟨by rw [hinfo], fun s => ?_, fun ret => ?_, fun env entry => looksAtOperands env entry _ _ _ _⟩
  · have hlower := lowerBinary_boolean hboolean left right info.span s
    rw [← hinfo] at hlower
    exact ⟨_, hlower⟩
  · have hplain : op.isAssignment = false := by
      rcases hop with hop | hop <;> cases op <;> first | (cases hop; done) | rfl
    have hnone : Checking.visitObligations ret (.expr (.binary op left right info)) = [] := by
      rw [Checking.visitObligations, Checking.exprObligations, hplain]
      rfl
    rw [Expr.visits, List.cons_append, List.flatMap_cons, hnone, List.nil_append]

/-- The operands and what it carries, of a thing met on a walk that is some operator. -/
def binary? (op : BinaryOp) : Visit → Option (Expr × Expr × Info)
  | .expr (.binary op' left right info) => if op' = op then some (left, right, info) else none
  | _ => none

/-- A binary operator that is found in code is in it. -/
theorem mem_of_findSome?_binary? {op : BinaryOp} {code : List Visit} {left right : Expr} {info : Info}
    (h : code.findSome? (binary? op) = some (left, right, info)) :
    .expr (.binary op left right info) ∈ code := by
  obtain ⟨v, hv, hbinary⟩ := List.exists_of_findSome?_eq_some h
  unfold binary? at hbinary
  split at hbinary
  · split at hbinary
    · rename_i heq
      cases hbinary
      exact heq ▸ hv
    · cases hbinary
  · cases hbinary

/-- A comparison of an integer with a fraction, or an integer. -/
def combinesNumber : Source := .ofText "main" "2>1.5||3;"

/-- A disjunction of a comparison and a number compiles, and looks at its operands as it runs. -/
theorem looksAtOperands_of_compile_combinesNumber :
    ∃ c left right info, compile combinesNumber 1000 {} = .ok c ∧
      .expr (.binary .or left right info) ∈ c.unit.visits ∧ info.type = Primitive.bool.id ∧
      ∀ env entry, LooksAtOperands .or (eval env entry left) (eval env entry right)
        (eval env entry (.binary .or left right info)) := by
  have hshape : (compile combinesNumber 1000 {}).toOption.map (fun c =>
      (c.unit.visits.findSome? (binary? .or)).isSome) = some true := by
    decide +kernel
  cases h : compile combinesNumber 1000 {} with
  | error e =>
    rw [h] at hshape
    cases hshape
  | ok c =>
    rw [h] at hshape
    obtain ⟨⟨left, right, info⟩, hfound⟩ := Option.isSome_iff_exists.1 (Option.some.inj hshape)
    have hmem := mem_of_findSome?_binary? hfound
    obtain ⟨htype, -, -, hlooks⟩ := looksAtOperands_of_compile h hmem (.inr rfl)
    exact ⟨c, left, right, info, rfl, hmem, htype, hlooks⟩

/-- An integer is compared with a truth value. -/
def comparesMixed : Source := .ofText "main" "1<true;"

/-- A source that compiles without a finding, in which an integer is compared with a truth value. -/
theorem compile_comparesMixed :
    ∃ c left right info, compile comparesMixed 1000 {} = .ok c ∧ c.findings = [] ∧
      .expr (.binary .lt left right info) ∈ c.unit.visits ∧
      c.unit.types.resolve left.type = Primitive.int.id ∧
      c.unit.types.resolve right.type = Primitive.bool.id := by
  have hshape : (compile comparesMixed 1000 {}).toOption.map (fun c =>
      c.findings = [] ∧ (c.unit.visits.findSome? (binary? .lt)).map (fun r =>
        (c.unit.types.resolve r.1.type, c.unit.types.resolve r.2.1.type)) =
          some (Primitive.int.id, Primitive.bool.id) : Compilation → Bool) = some true := by
    decide +kernel
  cases h : compile comparesMixed 1000 {} with
  | error e =>
    rw [h] at hshape
    cases hshape
  | ok c =>
    rw [h] at hshape
    obtain ⟨hfindings, htypes⟩ := of_decide_eq_true (Option.some.inj hshape)
    obtain ⟨⟨left, right, info⟩, hfound, htypes⟩ := Option.map_eq_some_iff.1 htypes
    obtain ⟨hleft, hright⟩ := Prod.mk.inj htypes
    exact ⟨c, left, right, info, rfl, hfindings, mem_of_findSome?_binary? hfound, hleft, hright⟩

end ExpLang
