import ExpLang.Proofs.Diagnostic.Errors
import ExpLang.Proofs.Origins.Programs
import ExpLang.Proofs.Typing.Operators
import ExpLang.Proofs.Typing.Scalars

/-!
# Expressions of literals and operators

An expression of literals and operators means the same wherever it stands: to lower it changes nothing
of the unit, and what is reported about it does not depend on what was reported before. If nothing is
reported, and the operators whose operands nobody looks at have fitting ones, it is evaluated to a value
of its type, or an integer does not fit or a number is divided by zero.
-/

namespace ExpLang

open Resolved Lowering Evaluation

/-- An expression of literals and of operators that do not assign. -/
def Syntax.Expr.IsConstant : Syntax.Expr → Prop
  | .int _ _ | .float _ _ | .bool _ _ => True
  | .unary op operand _ => op ≠ .inc ∧ op ≠ .dec ∧ operand.IsConstant
  | .binary op left right _ => op.isAssignment = false ∧ left.IsConstant ∧ right.IsConstant
  | _ => False

/-- Whether the operands of an operator fit that nobody looks at when it is lowered: numbers of one kind
where they are compared, and truth values where they are combined. -/
def Resolved.Visit.operandsFit (types : TypePool) : Visit → Bool
  | .expr (.binary op left right _) =>
    let both (p : Primitive) : Bool :=
      types.resolve left.type == p.id && types.resolve right.type == p.id
    if op.isOrder then both .int || both .float else if op.isLogical then both .bool else true
  | .expr (.pre .not operand _) => types.resolve operand.type == Primitive.bool.id
  | _ => true

/-- A value is one of a type. -/
def Evaluation.Value.HasType (types : TypePool) (type : TypeId) : Value → Prop
  | .int _ => types.get (types.resolve type) = .primitive .int
  | .float _ => types.get (types.resolve type) = .primitive .float
  | .bool _ => types.get (types.resolve type) = .primitive .bool
  | .range _ _ =>
    types.get (types.resolve type) = .specific TypePool.iterableBase [Primitive.int.id]
  | _ => False

/-- A result is a value of a type or an error of arithmetic. -/
def Evaluation.Result.HasType (types : TypePool) (type : TypeId) : Result → Prop
  | .ok value => value.HasType types type
  | .error e => e.IsArithmetic

/-! ## The types of scalars -/

/-- Every binary operator is in the list of them. -/
theorem BinaryOp.mem_all (op : BinaryOp) : op ∈ BinaryOp.all := by cases op <;> decide

namespace Scalar

/-- The type of a scalar in every unit. -/
def type : Scalar → TypeId
  | bool => Primitive.bool.id
  | int => Primitive.int.id
  | float => Primitive.float.id
  | range => TypePool.iterableBase + 1

variable {u : CodeUnit} {σ τ : Scalar}

/-- The type of a scalar is basic. -/
theorem isBasicType (σ : Scalar) : IsBasicType σ.type := by cases σ <;> decide

/-- Scalars of the same type are the same. -/
theorem type_injective {σ τ : Scalar} (h : σ.type = τ.type) : σ = τ := by
  cases σ <;> cases τ <;> first | rfl | cases h

/-- Results of a scalar have its type. -/
theorem Fits.hasType (hu : u.Standard) {r : Result} (h : σ.Fits r) : r.HasType u.types σ.type := by
  cases r with
  | error e => exact h
  | ok value =>
    have hget : u.types.get (u.types.resolve σ.type) = TypePool.basic.get σ.type := by
      rw [hu.resolve_basic σ.isBasicType, hu.get_basic σ.isBasicType]
    cases σ <;> cases value <;> first | exact h.elim | exact hget

/-- The table of the language agrees with the rules for scalars where it looks at operands. -/
theorem resultType?_basic : ∀ op ∈ BinaryOp.all, op.isAssignment = false → op.isOrder = false →
    op.isLogical = false → ∀ σ ∈ [bool, int, float, range], ∀ τ ∈ [bool, int, float, range],
      CodeUnit.empty.operators.resultType? .basic op σ.type τ.type =
        (ofBinary? op σ τ).map Scalar.type := by
  decide +kernel

/-- An operator whose operands fit takes them, and the table gives the type of what it makes. -/
theorem exists_ofBinary? (hu : u.Standard) {op : BinaryOp} (hop : op.isAssignment = false)
    (horder : op.isOrder = true → σ = .int ∧ τ = .int ∨ σ = .float ∧ τ = .float)
    (hlogical : op.isLogical = true → σ = .bool ∧ τ = .bool) {type : TypeId}
    (h : u.operators.resultType? u.types op σ.type τ.type = some type) :
    ∃ ρ, ofBinary? op σ τ = some ρ ∧ type = ρ.type := by
  have hmem (σ : Scalar) : σ ∈ [bool, int, float, range] := by cases σ <;> decide
  rw [hu.resultType?_basic op σ.isBasicType τ.isBasicType] at h
  cases horder' : op.isOrder with
  | true =>
    have hbool : type = Primitive.bool.id := by
      cases op <;> first | (cases horder'; done) | exact (Option.some.inj h).symm
    refine ⟨.bool, ?_, hbool⟩
    rcases horder horder' with ⟨rfl, rfl⟩ | ⟨rfl, rfl⟩ <;>
      cases op <;> first | (cases horder'; done) | rfl
  | false =>
    cases hlogical' : op.isLogical with
    | true =>
      obtain ⟨rfl, rfl⟩ := hlogical hlogical'
      refine ⟨.bool, ?_, ?_⟩
      · cases op <;> first | (cases hlogical'; done) | rfl
      · cases op <;> first | (cases hlogical'; done) | exact (Option.some.inj h).symm
    | false =>
      rw [resultType?_basic op op.mem_all hop horder' hlogical' σ (hmem σ) τ (hmem τ)] at h
      obtain ⟨ρ, hρ, rfl⟩ := Option.map_eq_some_iff.1 h
      exact ⟨ρ, hρ, rfl⟩

end Scalar

/-! ## Lowering -/

namespace Lowering

variable {α β : Type} {u : CodeUnit} {s : State}

/-- In states with a unit, a step goes through with a result. It reports some findings, whatever was
reported before, and changes nothing else. -/
structure Reports (x : Lower α) (u : CodeUnit) (a : α) (ds : List Diagnostic) : Prop where
  run : ∀ s : State, s.unit = u → x s = .ok (a, { s with queue := s.queue.addAll ds })

/-- A step that does nothing reports nothing. -/
theorem reports_pure (a : α) : Reports (pure a) u a [] := ⟨fun _ _ => rfl⟩

/-- Two steps one after the other report what the first does and then what the second does. -/
theorem Reports.bind {x : Lower α} {f : α → Lower β} {a : α} {b : β} {ds ds' : List Diagnostic}
    (hx : Reports x u a ds) (hf : Reports (f a) u b ds') : Reports (x >>= f) u b (ds ++ ds') := by
  refine ⟨fun s hs => ?_⟩
  rw [bind_of_ok (hx.run s hs), DiagnosticQueue.addAll, DiagnosticQueue.addAll, List.foldl_append]
  exact hf.run { s with queue := s.queue.addAll ds } hs

/-- An operator on types of the language. -/
theorem lowerBinary_reports (hu : u.Standard) (op : BinaryOp) {left right : Expr}
    (hleft : IsBasicType left.type) (hright : IsBasicType right.type) (span : Span) :
    ∃ type ds, Reports (lowerBinary op left right span) u (.binary op left right ⟨type, span⟩) ds ∧
      IsBasicType type ∧
      (ds = [] → u.operators.resultType? u.types op left.type right.type = some type) := by
  have hjoined {s : State} (hs : s.unit = u) : s.joined left.type right.type = s := by
    subst hs
    unfold State.joined
    dsimp only
    rw [hu.bindIfUnbound_basic hleft, hu.bindIfUnbound_basic hright, ite_self]
  have hresult {s : State} (hs : s.unit = u) : s.result? op left.type right.type =
      u.operators.resultType? u.types op left.type right.type := by
    rw [State.result?, hjoined hs, hs]
  cases htype : u.operators.resultType? u.types op left.type right.type with
  | some type =>
    refine ⟨type, [], ⟨fun s hs => ?_⟩, hu.isBasicType_of_resultType? hright htype, fun _ => rfl⟩
    rw [lowerBinary_of_some ((hresult hs).trans htype), hjoined hs]
    rfl
  | none =>
    obtain ⟨l, hl⟩ := hu.typeName?_basic hleft
    obtain ⟨r, hr⟩ := hu.typeName?_basic hright
    refine ⟨_, [.undefinedOperator span op.symbol l r], ⟨fun s hs => ?_⟩,
      isBasicType_primitive .invalid, fun h => by cases h⟩
    rw [lowerBinary_of_none ((hresult hs).trans htype) (by rwa [hjoined hs, hs])
      (by rwa [hjoined hs, hs]), hjoined hs]
    rfl

/-- An operator before an operand of a type of the language, where it gives back the type. -/
theorem operandType_reports (hu : u.Standard) (allowed : List Primitive) (symbol : String)
    {operand : Expr} (hoperand : IsBasicType operand.type) (span : Span) :
    ∃ type ds, Reports (operandType allowed symbol operand span) u type ds ∧ IsBasicType type ∧
      (ds = [] → type = operand.type ∧
        (allowed.any (·.id == type) || TypePool.isLenient type) = true) := by
  obtain ⟨name, hname⟩ := hu.typeName?_basic hoperand
  have hunify {s : State} (hs : s.unit = u) :
      unify operand.type Primitive.int.id s = .ok ((), s) := by
    subst hs
    have hbind := hu.bindIfUnbound_basic hoperand Primitive.int.id
    change Except.ok ((), { s with unit := { s.unit with
      types := (s.unit.types.bindIfUnbound operand.type Primitive.int.id).2 } }) = _
    rw [hbind]
  have hask {s : State} (hs : s.unit = u) :
      ask (·.types.resolve operand.type) s = .ok (operand.type, s) := by
    subst hs
    change Except.ok (s.unit.types.resolve operand.type, s) = _
    rw [hu.resolve_basic hoperand]
  cases hallowed : allowed.any (·.id == operand.type) || TypePool.isLenient operand.type with
  | true =>
    refine ⟨operand.type, [], ⟨fun s hs => ?_⟩, hoperand, fun _ => ⟨rfl, hallowed⟩⟩
    unfold operandType
    rw [bind_of_ok (hunify hs), bind_of_ok (hask hs), if_pos hallowed]
    rfl
  | false =>
    refine ⟨_, [notDefinedFor span symbol name], ⟨fun s hs => ?_⟩, isBasicType_primitive .invalid,
      fun h => by cases h⟩
    unfold operandType
    rw [bind_of_ok (hunify hs), bind_of_ok (hask hs), if_neg (by rw [hallowed]; exact nofun),
      bind_of_ok (typeName_of_some (hs ▸ hname))]
    rfl

/-- An operator before an operand, which makes a scalar of a scalar if nothing is reported. -/
theorem prefixType_reports (hu : u.Standard) {op : PrefixOp} (hinc : op ≠ .inc) (hdec : op ≠ .dec)
    {operand : Expr} (hoperand : IsBasicType operand.type) (span : Span) :
    ∃ type ds, Reports (prefixType op operand span) u type ds ∧ IsBasicType type ∧
      (ds = [] → ∀ σ : Scalar, operand.type = σ.type → (op = .not → σ = .bool) →
        ∃ τ, Scalar.ofPrefix? op σ = some τ ∧ type = τ.type) := by
  cases op with
  | inc => exact absurd rfl hinc
  | dec => exact absurd rfl hdec
  | not =>
    refine ⟨Primitive.bool.id, [], ⟨fun s hs => ?_⟩, isBasicType_primitive .bool, ?_⟩
    · subst hs
      have hbind := hu.bindIfUnbound_basic hoperand Primitive.bool.id
      change Except.ok (Primitive.bool.id, { s with unit := { s.unit with
        types := (s.unit.types.bindIfUnbound operand.type Primitive.bool.id).2 } }) = _
      rw [hbind]
      rfl
    · intro _ σ _ hnot
      cases hnot rfl
      exact ⟨.bool, rfl, rfl⟩
  | bitNot =>
    obtain ⟨type, ds, hrun, hbasic, hquiet⟩ :=
      operandType_reports hu [.int, .long] PrefixOp.bitNot.symbol hoperand span
    refine ⟨type, ds, hrun, hbasic, fun hds σ hσ _ => ?_⟩
    obtain ⟨rfl, hallowed⟩ := hquiet hds
    rw [hσ] at hallowed
    cases σ <;> first | (cases hallowed; done) | exact ⟨_, rfl, hσ⟩
  | plus | neg =>
    obtain ⟨type, ds, hrun, hbasic, hquiet⟩ :=
      operandType_reports hu [.int, .long, .float, .double] (PrefixOp.symbol _) hoperand span
    refine ⟨type, ds, hrun, hbasic, fun hds σ hσ _ => ?_⟩
    obtain ⟨rfl, hallowed⟩ := hquiet hds
    rw [hσ] at hallowed
    cases σ <;> first | (cases hallowed; done) | exact ⟨_, rfl, hσ⟩

/-- An expression of literals and operators is lowered whatever the unit and the scope are. If nothing
is reported and the operands fit, it makes a scalar. -/
theorem lowerExpr_constant (hu : u.Standard) (site : Site) (scope : Scope) :
    ∀ e : Syntax.Expr, e.IsConstant → ∃ e' ds, Reports (lowerExpr site scope e) u e' ds ∧
      IsBasicType e'.type ∧ (ds = [] → (∀ v ∈ e'.visits, v.operandsFit u.types = true) →
        ∃ σ, e'.Makes σ ∧ e'.type = σ.type)
  | .int value span, _ => by
    rw [lowerExpr]
    exact ⟨_, [], reports_pure _, isBasicType_primitive .int, fun _ _ => ⟨.int, .int, rfl⟩⟩
  | .float value span, _ => by
    rw [lowerExpr]
    exact ⟨_, [], reports_pure _, isBasicType_primitive .float, fun _ _ => ⟨.float, .float, rfl⟩⟩
  | .bool value span, _ => by
    rw [lowerExpr]
    exact ⟨_, [], reports_pure _, isBasicType_primitive .bool, fun _ _ => ⟨.bool, .bool, rfl⟩⟩
  | .unary op operand span, he => by
    obtain ⟨hinc, hdec, hoperand⟩ := he
    obtain ⟨operand', ds, hrun, hbasic, hmakes⟩ := lowerExpr_constant hu site scope operand hoperand
    obtain ⟨type, ds', hrun', hbasic', hmakes'⟩ := prefixType_reports hu hinc hdec hbasic span
    rw [lowerExpr]
    refine ⟨.pre op operand' ⟨type, span⟩, ds ++ (ds' ++ []),
      hrun.bind (hrun'.bind (reports_pure _)), hbasic', fun hquiet hfit => ?_⟩
    rw [List.append_nil, List.append_eq_nil_iff] at hquiet
    obtain ⟨σ, hσ, htype⟩ := hmakes hquiet.1 fun v hv => hfit v (List.mem_cons_of_mem _ hv)
    have hnot (hop : op = .not) : σ = .bool := by
      subst hop
      have hnode := hfit _ List.mem_cons_self
      rw [Visit.operandsFit, beq_iff_eq, hu.resolve_basic hbasic, htype] at hnode
      exact Scalar.type_injective hnode
    obtain ⟨τ, hτ, htype'⟩ := hmakes' hquiet.2 σ htype hnot
    exact ⟨τ, .pre hσ hτ, htype'⟩
  | .binary op left right span, he => by
    obtain ⟨hop, hleft, hright⟩ := he
    obtain ⟨left', ds, hrun, hbasic, hmakes⟩ := lowerExpr_constant hu site scope left hleft
    obtain ⟨right', ds', hrun', hbasic', hmakes'⟩ := lowerExpr_constant hu site scope right hright
    obtain ⟨type, ds'', hrun'', hbasic'', htype⟩ := lowerBinary_reports hu op hbasic hbasic' span
    rw [lowerExpr]
    refine ⟨.binary op left' right' ⟨type, span⟩, ds ++ (ds' ++ ds''),
      hrun.bind (hrun'.bind hrun''), hbasic'', fun hquiet hfit => ?_⟩
    rw [List.append_eq_nil_iff, List.append_eq_nil_iff] at hquiet
    obtain ⟨hquiet, hquiet', hquiet''⟩ := hquiet
    obtain ⟨σ, hσ, htypeLeft⟩ := hmakes hquiet fun v hv =>
      hfit v (List.mem_cons_of_mem _ (List.mem_append_left _ hv))
    obtain ⟨τ, hτ, htypeRight⟩ := hmakes' hquiet' fun v hv =>
      hfit v (List.mem_cons_of_mem _ (List.mem_append_right _ hv))
    have hnode := hfit _ List.mem_cons_self
    rw [Visit.operandsFit, hu.resolve_basic hbasic, hu.resolve_basic hbasic', htypeLeft,
      htypeRight] at hnode
    have htable := htype hquiet''
    rw [htypeLeft, htypeRight] at htable
    have hboth {p : Primitive} {ρ : Scalar} (hρ : ρ.type = p.id)
        (h : (σ.type == p.id && τ.type == p.id) = true) : σ = ρ ∧ τ = ρ := by
      rw [Bool.and_eq_true, beq_iff_eq, beq_iff_eq, ← hρ] at h
      exact ⟨Scalar.type_injective h.1, Scalar.type_injective h.2⟩
    have horder (h : op.isOrder = true) : σ = .int ∧ τ = .int ∨ σ = .float ∧ τ = .float := by
      rw [if_pos h, Bool.or_eq_true] at hnode
      exact hnode.imp (hboth rfl) (hboth rfl)
    have hlogical (h : op.isLogical = true) : σ = .bool ∧ τ = .bool := by
      have hnot : ¬ op.isOrder = true := by cases op <;> first | (cases h; done) | decide
      rw [if_neg hnot, if_pos h] at hnode
      exact hboth rfl hnode
    obtain ⟨ρ, hρ, rfl⟩ := Scalar.exists_ofBinary? hu hop horder hlogical htable
    exact ⟨ρ, .binary hσ hτ hρ, rfl⟩

end Lowering

/-! ## Evaluation -/

/-- Wherever lowering a program comes to an expression of literals and operators, the expression is
lowered. If nothing is reported about it, and operands that nobody looks at fit, then evaluating it
gives a value of its type, or an integer does not fit or a number is divided by zero. What it is
evaluated in makes no difference and stays as it is. -/
theorem eval_constant {p : Syntax.Program} {policy : QueuePolicy} {site : Site} {scope : Scope}
    {e : Syntax.Expr} {s : State} (hcomes : Comes p policy (.expr site scope e) s)
    (he : e.IsConstant) :
    ∃ e' ds, (∀ queue, lowerExpr site scope e { s with queue := queue } =
        .ok (e', { s with queue := queue.addAll ds })) ∧
      (ds = [] → (∀ v ∈ e'.visits, v.operandsFit s.unit.types = true) →
        ∃ r : Result, (∀ env entry, eval env entry e' = ofResult r) ∧
          r.HasType s.unit.types e'.type) := by
  have hu := hcomes.traced.toStandard
  obtain ⟨e', ds, hrun, -, hmakes⟩ := lowerExpr_constant hu site scope e he
  refine ⟨e', ds, fun queue => hrun.run _ rfl, fun hquiet hfit => ?_⟩
  obtain ⟨σ, hσ, htype⟩ := hmakes hquiet hfit
  obtain ⟨r, hr, heval⟩ := fits_eval hσ
  exact ⟨r, heval, htype ▸ hr.hasType hu⟩

/-- The expression `!(1.5 < 2.5) || 7 / 0 < 3`. -/
def dividing : Syntax.Expr :=
  .binary .or
    (.unary .not (.binary .lt (.float 1.5 ⟨2, 5⟩) (.float 2.5 ⟨8, 11⟩) ⟨2, 11⟩) ⟨0, 12⟩)
    (.binary .lt (.binary .div (.int 7 ⟨16, 17⟩) (.int 0 ⟨20, 21⟩) ⟨16, 21⟩) (.int 3 ⟨24, 25⟩) ⟨16, 25⟩)
    ⟨0, 25⟩

/-- The program of this expression. -/
def dividingProgram : Syntax.Program := ⟨[.expr dividing ⟨0, 26⟩], ⟨0, 26⟩⟩

/-- A constant expression that divides by zero is lowered without a report, and evaluating it gives an
outcome of its type. -/
theorem eval_constant_dividing :
    ∃ site scope s s' e', Comes dividingProgram {} (.expr site scope dividing) s ∧
      dividing.IsConstant ∧ lowerExpr site scope dividing { s with queue := { policy := .unlimited } } =
        .ok (e', s') ∧ s'.queue.entries = [] ∧
      (∀ v ∈ e'.visits, v.operandsFit s.unit.types = true) ∧
      ∃ r : Result, (∀ env entry, eval env entry e' = ofResult r) ∧
        r.HasType s.unit.types e'.type := by
  have hruns : ((declareMain dividingProgram.span (.start {})).toOption.bind fun main =>
      (declareProgram main.1.1 dividingProgram.body main.2).toOption.bind fun declared =>
      (declared.1.forM runTask declared.2).toOption.bind fun ran =>
      (lowerExpr ⟨main.1.1, some main.1.2, true⟩ (.ofMethod main.1.1 main.1.2) dividing
        { ran.2 with queue := { policy := .unlimited } }).toOption.bind fun lowered =>
      some (decide (lowered.2.queue.entries = [] ∧
        ∀ v ∈ lowered.1.visits, v.operandsFit ran.2.unit.types = true))) = some true := by
    decide +kernel
  obtain ⟨⟨⟨owner, method⟩, s₁⟩, hmain, hruns⟩ := of_toOption_bind hruns
  obtain ⟨⟨tasks, s₂⟩, hdeclare, hruns⟩ := of_toOption_bind hruns
  obtain ⟨⟨⟨⟩, s₃⟩, htasks, hruns⟩ := of_toOption_bind hruns
  obtain ⟨⟨e', s₄⟩, hlower, hruns⟩ := of_toOption_bind hruns
  obtain ⟨hquiet, hfit⟩ := of_decide_eq_true (Option.some.inj hruns)
  have hdeclared : Declared dividingProgram {} owner method tasks s₂ := ⟨s₁, hmain, hdeclare⟩
  have hcomes := (Comes.main hdeclared htasks).stmt.head (e := dividing) rfl
  have hconstant : dividing.IsConstant :=
    ⟨rfl, ⟨nofun, nofun, rfl, trivial, trivial⟩, rfl, ⟨rfl, trivial, trivial⟩, trivial⟩
  obtain ⟨e, ds, hrun, heval⟩ := eval_constant hcomes hconstant
  have hsame := (hrun _).symm.trans hlower
  obtain ⟨rfl, rfl⟩ := Prod.mk.inj (Except.ok.inj hsame)
  have hds : ds = [] := by
    rw [DiagnosticQueue.entries_addAll rfl] at hquiet
    exact hquiet
  exact ⟨_, _, s₃, _, e, hcomes, hconstant, hlower, hquiet, hfit, heval hds hfit⟩

end ExpLang
