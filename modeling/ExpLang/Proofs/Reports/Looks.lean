import ExpLang.Proofs.Origins.Programs
import ExpLang.Proofs.Reports.Steps

/-!
# Looks at types

Lowering looks at the types of operands, receivers, callees and what is iterated, and reports where they
do not allow what is done with them. A `Look` is one of these places together with the code that is
lowered by then. `Look.steady` says what any look reports: a finding that names the types looked at, all
of which are settled in the unit at that moment. `Looks p policy look s` says that lowering a program
comes to a look in a state.
-/

namespace ExpLang

/-- A type stands for one that does not go with everything. -/
def TypePool.Firm (types : TypePool) (id : TypeId) : Prop := isLenient (types.resolve id) = false

/-- Whether a finding says that types do not allow what is done with them. -/
def Code.isAboutTypes : Code → Bool
  | .typeMismatch | .undefinedOperator | .unknownMember => true
  | _ => false

namespace Lowering

open Resolved

variable {p : Syntax.Program} {policy : QueuePolicy} {s s' : State} {ds : List Diagnostic}

/-- A look that lowering takes at the types of lowered code. -/
inductive Look where
  /-- An operator before its operand. -/
  | prefixed (op : PrefixOp) (operand : Expr) (span : Span)
  /-- An operator after its operand. -/
  | postfixed (op : PostfixOp) (operand : Expr) (span : Span)
  /-- An operator between two operands. -/
  | binary (op : BinaryOp) (left right : Expr) (span : Span)
  /-- A member of a value. -/
  | access (target : Expr) (name : Syntax.Ident) (span : Span)
  /-- An element of an array. -/
  | index (target key : Expr) (span : Span)
  /-- A call. -/
  | call (callee : Expr) (args : List Expr) (span : Span)
  /-- A loop over a value. -/
  | iteration (iterable : Expr)

namespace Look

/-- Take a look. -/
def run : Look → Lower Unit
  | prefixed op operand span => do
    let _ ← prefixType op operand span
    return ()
  | postfixed op operand span => do
    let _ ← numericType op.symbol operand span
    return ()
  | binary op left right span => do
    let _ ← lowerBinary op left right span
    return ()
  | access target name span => do
    let _ ← lowerAccess target name span
    return ()
  | index target key span => do
    let _ ← lowerIndex target key span
    return ()
  | call callee args span => do
    let _ ← lowerCall callee args span
    return ()
  | iteration iterable => do
    let element ← ask (·.types.elementOf iterable.type)
    if element = Primitive.unknown.id then
      unless ← isLenient iterable.type do
        report (notIterable iterable.span (← typeName iterable.type))

/-- The types that a look is about. -/
def subjects : Look → List TypeId
  | prefixed _ operand _ | postfixed _ operand _ => [operand.type]
  | binary _ left right _ => [left.type, right.type]
  | access target _ _ | index target _ _ => [target.type]
  | call callee _ _ => [callee.type]
  | iteration iterable => [iterable.type]

/-- A finding says of a look that the types it is about do not allow what is done, and names them. -/
inductive Complains (u : CodeUnit) : Look → Diagnostic → Prop
  | prefixed {op operand span type} : u.typeName? (u.types.resolve operand.type) = some type →
      Complains u (.prefixed op operand span) (notDefinedFor span op.symbol type)
  | postfixed {op operand span type} : u.typeName? (u.types.resolve operand.type) = some type →
      Complains u (.postfixed op operand span) (notDefinedFor span op.symbol type)
  | binary {op left right span leftType rightType} : u.typeName? left.type = some leftType →
      u.typeName? right.type = some rightType →
      Complains u (.binary op left right span) (.undefinedOperator span op.symbol leftType rightType)
  | access {target name span type} : u.typeName? target.type = some type →
      Complains u (.access target name span) (.unknownMember name.span type name.name)
  | index {target key span type} : u.typeName? target.type = some type →
      Complains u (.index target key span) (notDefinedFor span "[]" type)
  | call {callee args span type} : u.typeName? callee.type = some type →
      Complains u (.call callee args span) (notDefinedFor span "()" type)
  | iteration {iterable type} : u.typeName? iterable.type = some type →
      Complains u (.iteration iterable) (notIterable iterable.span type)

/-- The types that a look is about are settled: the receiver of a member is an object of a class, and any
other type does not go with everything. -/
def Settled (types : TypePool) : Look → Prop
  | access target _ _ => ∃ c, types.get (types.resolve target.type) = .ofClass c
  | look => ∀ id ∈ look.subjects, types.Firm id

/-- A finding of a look, justified by the unit at that moment. -/
structure Justifies (u : CodeUnit) (look : Look) (d : Diagnostic) : Prop where
  complains : look.Complains u d
  settled : look.Settled u.types

end Look

/-! ## What a look reports -/

/-- A step that is steady and reports only what a look justifies. -/
abbrev JustifiedBy {α : Type} (look : Look) (x : Lower α) (s : State) : Prop :=
  Steady x s fun _ s' ds => ∀ d ∈ ds, look.Justifies s'.unit d

/-- Operands without a result type have types that are firm. -/
theorem firm_of_resultType? {table : OperatorTable} {types : TypePool} {op : BinaryOp}
    {left right : TypeId} (h : table.resultType? types op left right = none) :
    types.Firm left ∧ types.Firm right := by
  unfold OperatorTable.resultType? at h
  dsimp only at h
  simp only [TypePool.Firm, TypePool.isLenient]
  split at h
  · cases h
  split at h
  · cases h
  split at h
  · cases h
  split at h
  · cases h
  · rename_i hunknown hdynamic
    simp only [Bool.or_eq_true, not_or, Bool.not_eq_true] at hunknown hdynamic
    simp [hunknown, hdynamic]

/-- What lowering a binary operator reports is justified by its operands. -/
theorem lowerBinary_justified (op : BinaryOp) (left right : Expr) (span : Span) :
    JustifiedBy (.binary op left right span) (lowerBinary op left right span) s := by
  unfold lowerBinary
  apply steady_ask_bind
  dsimp only
  -- which operand is bound makes no difference to what follows
  split
  all_goals
    refine steady_unify_bind (steady_ask_bind ?_)
    split
    · exact steady_pure nofun
    · rename_i hnone
      obtain ⟨hleft, hright⟩ := firm_of_resultType? hnone
      refine steady_typeName_bind fun leftName hleftName =>
        steady_typeName_bind fun rightName hrightName => steady_report_bind fun d hd => ?_
      cases List.mem_singleton.1 hd
      refine ⟨.binary hleftName hrightName, fun id hid => ?_⟩
      rcases List.mem_pair.1 hid with rfl | rfl
      · exact hleft
      · exact hright

/-- The type of an operand that is not allowed is firm. -/
theorem operandType_justified {look : Look} {allowed : List Primitive} {symbol : String}
    {operand : Expr} {span : Span}
    (hlook : ∀ {u : CodeUnit} {type : String}, u.types.Firm operand.type →
      u.typeName? (u.types.resolve operand.type) = some type →
      look.Justifies u (notDefinedFor span symbol type)) :
    JustifiedBy look (operandType allowed symbol operand span) s := by
  refine steady_unify_bind (steady_ask_bind ?_)
  split
  · exact steady_pure nofun
  · rename_i hrefused
    simp only [Bool.or_eq_true, not_or, Bool.not_eq_true] at hrefused
    refine steady_typeName_bind fun type htype => steady_report_bind fun d hd => ?_
    cases List.mem_singleton.1 hd
    exact hlook hrefused.2 htype

/-- What finding the type of a prefixed expression reports is justified by its operand. -/
theorem prefixType_justified (op : PrefixOp) (operand : Expr) (span : Span) :
    JustifiedBy (.prefixed op operand span) (prefixType op operand span) s := by
  have hlook {u : CodeUnit} {type : String} (hfirm : u.types.Firm operand.type)
      (htype : u.typeName? (u.types.resolve operand.type) = some type) :
      (Look.prefixed op operand span).Justifies u (notDefinedFor span op.symbol type) :=
    ⟨.prefixed htype, fun _ hid => List.mem_singleton.1 hid ▸ hfirm⟩
  unfold prefixType
  split
  · exact steady_unify_bind (steady_pure nofun)
  · exact operandType_justified hlook
  · exact operandType_justified hlook

/-- What finding the type of a postfixed expression reports is justified by its operand. -/
theorem numericType_justified (op : PostfixOp) (operand : Expr) (span : Span) :
    JustifiedBy (.postfixed op operand span) (numericType op.symbol operand span) s :=
  operandType_justified fun hfirm htype =>
    ⟨.postfixed htype, fun _ hid => List.mem_singleton.1 hid ▸ hfirm⟩

/-- What lowering a member access reports is justified by its target. -/
theorem lowerAccess_justified (target : Expr) (name : Syntax.Ident) (span : Span) :
    JustifiedBy (.access target name span) (lowerAccess target name span) s := by
  apply steady_ask_bind
  split
  · exact steady_pure nofun
  apply steady_ask_bind
  split
  · exact steady_ask_bind (steady_pure nofun)
  · rename_i hmissing
    refine steady_typeName_bind fun type htype => steady_report_bind fun d hd => ?_
    cases List.mem_singleton.1 hd
    refine ⟨.access htype, ?_⟩
    unfold CodeUnit.access at hmissing
    split at hmissing
    · rename_i c hc
      exact ⟨c, hc⟩
    all_goals cases hmissing
  · exact steady_pure nofun
  · exact steady_typeName_bind fun _ _ => steady_throw

/-- What is reported about a type by its name is reported of firm types only. -/
theorem reportFirm_justified {look : Look} {type : TypeId} {d : String → Diagnostic}
    (hlook : ∀ {text : String}, s.unit.types.Firm type → s.unit.typeName? type = some text →
      look.Justifies s.unit (d text)) :
    JustifiedBy look (reportFirm type d) s := by
  apply steady_ask_bind
  split
  · exact steady_pure nofun
  · rename_i hfirm
    refine steady_typeName_bind fun text htext => steady_report fun d hd => ?_
    cases List.mem_singleton.1 hd
    exact hlook (Bool.eq_false_iff.2 hfirm) htext

/-- What lowering an index access reports is justified by its parts. -/
theorem lowerIndex_justified (target key : Expr) (span : Span) :
    JustifiedBy (.index target key span) (lowerIndex target key span) s := by
  apply steady_ask_bind
  dsimp only
  split
  · have hrefuse : JustifiedBy (.index target key span) (refuse span "[]" target.type) s :=
      reportFirm_justified fun hfirm htext =>
        ⟨.index htext, fun _ hid => List.mem_singleton.1 hid ▸ hfirm⟩
    exact hrefuse.bind_pure fun _ _ _ h => h
  · exact steady_pure nofun

/-- What lowering a call reports is justified by its callee and arguments. -/
theorem lowerCall_justified (callee : Expr) (args : List Expr) (span : Span) :
    JustifiedBy (.call callee args span) (lowerCall callee args span) s := by
  unfold lowerCall
  split
  · exact steady_ask_bind (steady_pure nofun)
  apply steady_ask_bind
  split
  · have hrefuse : JustifiedBy (.call callee args span) (refuse span "()" callee.type) s :=
      reportFirm_justified fun hfirm htext =>
        ⟨.call htext, fun _ hid => List.mem_singleton.1 hid ▸ hfirm⟩
    exact hrefuse.bind_pure fun _ _ _ h => h
  · exact steady_pure nofun

/-- What finding the type of an element reports is justified by what is iterated. -/
theorem elementType_justified (iterable : Expr) :
    JustifiedBy (.iteration iterable) (elementType iterable) s := by
  apply steady_ask_bind
  dsimp only
  split
  · have hrefuse : JustifiedBy (.iteration iterable)
        (reportFirm iterable.type (notIterable iterable.span)) s :=
      reportFirm_justified fun hfirm htext =>
        ⟨.iteration htext, fun _ hid => List.mem_singleton.1 hid ▸ hfirm⟩
    exact hrefuse.bind_pure fun _ _ _ h => h
  · exact steady_pure nofun

/-- A look at what a loop goes over asks for the type of its elements. -/
theorem Look.run_iteration (iterable : Expr) :
    (Look.iteration iterable).run = elementType iterable >>= fun _ => pure () := by
  rw [Look.run, elementType, bind_assoc]
  refine bind_congr fun element => ?_
  split
  · rw [bind_assoc]
    exact (bind_pure _).symm
  · rfl

/-- Whatever a look reports is justified by the unit at that moment. -/
theorem Look.steady (look : Look) : JustifiedBy look look.run s := by
  cases look with
  | prefixed op operand span => exact (prefixType_justified op operand span).bind_pure fun _ _ _ h => h
  | postfixed op operand span =>
    exact (numericType_justified op operand span).bind_pure fun _ _ _ h => h
  | binary op left right span =>
    exact (lowerBinary_justified op left right span).bind_pure fun _ _ _ h => h
  | access target name span =>
    exact (lowerAccess_justified target name span).bind_pure fun _ _ _ h => h
  | index target key span => exact (lowerIndex_justified target key span).bind_pure fun _ _ _ h => h
  | call callee args span => exact (lowerCall_justified callee args span).bind_pure fun _ _ _ h => h
  | iteration iterable =>
    rw [Look.run_iteration]
    exact (elementType_justified iterable).bind_pure fun _ _ _ h => h

/-- What a look reports is what it is found to report. -/
theorem Look.justifies_of_tells {look : Look} (h : Tells look.run s () s' ds) :
    ∀ d ∈ ds, look.Justifies s'.unit d := by
  cases look.steady (s := s) with
  | stops hstop => exact absurd ((hstop s.queue).symm.trans (h.of_queue s.queue)) nofun
  | tells htells hds =>
    obtain ⟨-, hunit, rfl⟩ := h.unique htells
    exact hunit ▸ hds

/-! ## The looks of a program -/

/-- Lowering a program comes to a look in a state: the code that the look is about was lowered in the
steps before. -/
inductive Looks (p : Syntax.Program) (policy : QueuePolicy) : Look → State → Prop
  | prefixed {site scope op operand span operand' s s'} :
      Comes p policy (.expr site scope (.unary op operand span)) s →
      lowerExpr site scope operand s = .ok (operand', s') →
      Looks p policy (.prefixed op operand' span) s'
  | postfixed {site scope op operand span operand' s s'} :
      Comes p policy (.expr site scope (.post op operand span)) s →
      lowerExpr site scope operand s = .ok (operand', s') →
      Looks p policy (.postfixed op operand' span) s'
  | binary {site scope op left right span left' right' s s' s''} :
      Comes p policy (.expr site scope (.binary op left right span)) s →
      lowerExpr site scope left s = .ok (left', s') →
      lowerExpr site scope right s' = .ok (right', s'') →
      Looks p policy (.binary op left' right' span) s''
  | access {site scope target name span target' s s'} :
      Comes p policy (.expr site scope (.field target name span)) s →
      lowerExpr site scope target s = .ok (target', s') →
      Looks p policy (.access target' name span) s'
  | index {site scope target key span target' key' s s' s''} :
      Comes p policy (.expr site scope (.index target key span)) s →
      lowerExpr site scope target s = .ok (target', s') →
      lowerExpr site scope key s' = .ok (key', s'') →
      Looks p policy (.index target' key' span) s''
  | call {site scope callee args span callee' args' s s' s''} :
      Comes p policy (.expr site scope (.call callee args span)) s →
      lowerExpr site scope callee s = .ok (callee', s') →
      lowerExprs site scope args s' = .ok (args', s'') →
      Looks p policy (.call callee' args' span) s''
  | iteration {site scope name iterable body span iterable' s s'} :
      Comes p policy (.stmt site scope (.forIn name iterable body span)) s →
      lowerExpr site scope iterable s = .ok (iterable', s') →
      (∀ low high info, iterable' ≠ .binary .range low high info) →
      Looks p policy (.iteration iterable') s'

/-- If a finding is about types, a look that lowering comes to reports it. -/
def Accounted (p : Syntax.Program) (policy : QueuePolicy) (d : Diagnostic) : Prop :=
  d.code.isAboutTypes = true →
    ∃ look s s' ds, Looks p policy look s ∧ Tells look.run s () s' ds ∧ d ∈ ds

/-- A step that is steady, and all of whose findings about types are reported by looks. -/
abbrev Accounts {α : Type} (p : Syntax.Program) (policy : QueuePolicy) (s : State) (x : Lower α) :
    Prop :=
  Steady x s fun _ _ ds => ∀ d ∈ ds, Accounted p policy d

/-- What is lowered at a look reports what the look does. -/
theorem Looks.accounts {α : Type} {look : Look} {x : Lower α} (hlook : Looks p policy look s)
    (hrun : look.run = x >>= fun _ => pure ()) (hx : JustifiedBy look x s) :
    Accounts p policy s x := by
  cases hx with
  | stops hstop => exact .stops hstop
  | @tells a s' ds htells _ =>
    have hlooked : Tells look.run s () s' ds := by
      constructor
      intro q
      rw [hrun, bind_of_ok (htells.of_queue q)]
      rfl
    exact .tells htells fun d hd _ => ⟨look, s, s', ds, hlook, hlooked, hd⟩

end Lowering

end ExpLang
