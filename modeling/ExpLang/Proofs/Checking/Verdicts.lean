import ExpLang.Proofs.Checking.Inference
import ExpLang.Proofs.Resolved.Nodes

/-!
# Verdicts agree with the types in the end

Types are compared while holes are still being bound. Still, what is reported is what the types say
that the walk ends with: a mismatch for each use whose types do not go with one another then, and none
for any other use. And the walk leaves out no use: it comes to the comparisons of every node of the
unit, and to those of each node once.
-/

namespace ExpLang.Checking

open Resolved Lowering

variable {u u' : CodeUnit} {queue queue' : DiagnosticQueue}

/-! ## What is compared -/

/-- Whether an obligation is about types that have to go with one another. -/
def Obligation.compares : Obligation → Bool
  | .assignable _ _ _ _ | .arguments _ _ => true
  | .inferred _ _ _ | .argumentCount _ _ _ => false

/-- The comparisons that are due at a node: for the first value of a field, the defaults of the
parameters of a method, a value that is returned from code with a result of type `ret`, an assignment
and a call. -/
def comparisons (u : CodeUnit) (ret : TypeId) : Visit → List Obligation
  | .field id => ((u.getField id).init.map fun e =>
      .assignable (u.getField id).type e.type e.span "field initializer").toList
  | .method id => (u.getMethod id).params.toList.filterMap fun p =>
      p.default.map fun e => .assignable p.type e.type e.span "default value"
  | .stmt (.ret (some value) _) => [.assignable ret value.type value.span "return value"]
  | .stmt (.ret none span) => [.assignable ret Primitive.void.id span "return value"]
  | .expr (.binary .assign left right info) =>
    [.assignable left.type right.type info.span "assigned value"]
  | .expr (.binary op left _ info) =>
    if op.isAssignment then [.assignable left.type info.type info.span "assigned value"] else []
  | .expr (.call callee args _) => [.arguments callee.type (args.map fun a => (a.type, a.span))]
  | _ => []

/-- The type of the result of the code of a member. -/
def resultType (u : CodeUnit) : Member → TypeId
  | .field _ => Primitive.void.id
  | .method id => (u.getMethod id).ret

/-- The comparisons that are due at an address. -/
def comparisonsAt (u : CodeUnit) (a : Address) : List Obligation :=
  (u.nodeAt? a).elim [] (comparisons u (resultType u a.member))

/-- The obligations of a member. -/
def memberObligations (u : CodeUnit) : Member → List Obligation
  | .field id => fieldObligations u id
  | .method id => methodObligations u id

/-- The obligations of a unit are those of its members. -/
theorem obligations_eq (u : CodeUnit) :
    obligations u = u.members.flatMap (memberObligations u) := by
  have hclasses : (List.range u.classes.size).map u.getClass = u.classes.toList := by
    refine List.ext_getElem (by simp) fun c hc hc' => ?_
    rw [List.getElem_map, List.getElem_range, CodeUnit.getClass, Array.getD,
      dif_pos (by simpa using hc'), Array.getElem_toList]
    rfl
  rw [CodeUnit.members, ← hclasses, List.flatMap_map, List.flatMap_assoc]
  refine List.flatMap_congr fun c _ => ?_
  rw [List.flatMap_append, List.flatMap_map, List.flatMap_map]
  rfl

/-- At a statement or an expression, what is due is what the walk looks at there. -/
theorem comparisons_eq_filter (u : CodeUnit) (ret : TypeId) {v : Visit} (hv : v.isCode = true) :
    comparisons u ret v = (visitObligations ret v).filter Obligation.compares := by
  cases v with
  | stmt s =>
    cases s with
    | ret value span => cases value <;> rfl
    | _ => rfl
  | expr e =>
    cases e with
    | binary op left right info =>
      by_cases hassign : op = .assign
      · subst hassign
        rfl
      · rw [comparisons]
        · simp only [visitObligations, exprObligations, if_neg hassign]
          split <;> rfl
        · exact fun h => hassign h
    | call callee args info =>
      simp only [comparisons, visitObligations, exprObligations]
      cases calledMethod? callee <;> rfl
    | _ => rfl
  | _ => cases hv

/-- The comparisons of code are its obligations to compare. -/
theorem flatMap_comparisons (u : CodeUnit) (ret : TypeId) {vs : List Visit}
    (hvs : ∀ v ∈ vs, v.isCode = true) :
    vs.flatMap (comparisons u ret) = (vs.flatMap (visitObligations ret)).filter Obligation.compares := by
  rw [List.filter_flatMap]
  exact List.flatMap_congr fun v hv => comparisons_eq_filter u ret (hvs v hv)

/-- What is compared on the way through a field. -/
theorem fieldObligations_filter (u : CodeUnit) (id : FieldId) :
    (fieldObligations u id).filter Obligation.compares =
      (u.fieldVisits id).flatMap (comparisons u Primitive.void.id) := by
  have hcode : ∀ v ∈ (u.getField id).init.elim [] Expr.visits, v.isCode = true := by
    cases (u.getField id).init with
    | none => exact fun v hv => by cases hv
    | some e => exact fun v hv => CodeUnit.isCode_of_mem_exprVisits hv
  have hinit : (comparisons u Primitive.void.id (.field id)).filter Obligation.compares =
      comparisons u Primitive.void.id (.field id) := by
    simp only [comparisons]
    cases (u.getField id).init <;> rfl
  have hinferred : [Obligation.inferred (u.getField id).type (u.getField id).span
      (u.getField id).name].filter Obligation.compares = [] := rfl
  rw [fieldObligations, CodeUnit.fieldVisits, List.flatMap_cons, List.flatMap_cons,
    flatMap_comparisons u _ hcode, List.filter_append, List.filter_append, hinferred,
    List.append_nil, ← hinit]
  rfl

/-- What is compared on the way through a method. -/
theorem methodObligations_filter (u : CodeUnit) (id : MethodId) :
    (methodObligations u id).filter Obligation.compares =
      (u.methodVisits id).flatMap (comparisons u (u.getMethod id).ret) := by
  have hcode : ∀ v ∈ (u.getMethod id).params.toList.flatMap (·.default.elim [] Expr.visits)
      ++ (u.getMethod id).body.elim [] Stmt.visits, v.isCode = true := by
    intro v hv
    rcases List.mem_append.1 hv with hv | hv
    · obtain ⟨p, -, hv⟩ := List.mem_flatMap.1 hv
      cases hdefault : p.default with
      | none =>
        rw [hdefault] at hv
        cases hv
      | some e =>
        rw [hdefault] at hv
        exact CodeUnit.isCode_of_mem_exprVisits hv
    · cases hbody : (u.getMethod id).body with
      | none =>
        rw [hbody] at hv
        cases hv
      | some body =>
        rw [hbody] at hv
        exact CodeUnit.isCode_of_mem_stmtVisits hv
  have hdefaults : (comparisons u (u.getMethod id).ret (.method id)).filter Obligation.compares =
      comparisons u (u.getMethod id).ret (.method id) := by
    refine List.filter_eq_self.2 fun o ho => ?_
    obtain ⟨p, -, ho⟩ := List.mem_filterMap.1 ho
    obtain ⟨e, -, rfl⟩ := Option.map_eq_some_iff.1 ho
    rfl
  have hlocals : ((u.getMethod id).locals.toList.map fun l =>
      Obligation.inferred l.type l.span l.name).filter Obligation.compares = [] := by
    refine List.filter_eq_nil_iff.2 fun o ho => ?_
    obtain ⟨l, -, rfl⟩ := List.mem_map.1 ho
    exact Bool.false_ne_true
  rw [methodObligations, CodeUnit.methodVisits, List.cons_append, List.flatMap_cons,
    List.flatMap_cons, flatMap_comparisons u _ hcode, List.filter_append, List.filter_append,
    hlocals, List.append_nil, ← hdefaults]
  rfl

/-- A walk comes to the comparisons of every node of a unit, and to those of each node once. -/
theorem exists_addresses_comparisons {holes : TypeId → Prop} {bodies : MethodId → Prop}
    (hu : u.Sound holes bodies) :
    ∃ addresses : List Address, addresses.Nodup ∧
      (∀ a, a ∈ addresses ↔ (u.nodeAt? a).isSome = true) ∧
      (obligations u).filter Obligation.compares = addresses.flatMap (comparisonsAt u) := by
  obtain ⟨addresses, hnodup, hmem, hmap⟩ := hu.exists_addresses
  refine ⟨addresses, hnodup, hmem, ?_⟩
  have hat : addresses.flatMap (comparisonsAt u) =
      (addresses.map fun a => (a.member, u.nodeAt? a)).flatMap fun r =>
        r.2.elim [] (comparisons u (resultType u r.1)) := by
    rw [List.flatMap_map]
    rfl
  rw [hat, hmap, obligations_eq, List.filter_flatMap, List.flatMap_assoc]
  refine List.flatMap_congr fun m _ => ?_
  rw [List.flatMap_map]
  cases m with
  | field id => exact fieldObligations_filter u id
  | method id => exact methodObligations_filter u id

/-! ## What is reported -/

/-- Each step of a walk decides the uses of its obligation, in agreement with the types that the walk
ends with. -/
theorem step_decided (hu : u.types.Valid) (hqueue : queue.policy = .unlimited)
    (hcheck : check u queue = some (u', queue')) {before after : List Obligation} {o : Obligation}
    (hsplit : obligations u = before ++ o :: after) :
    ∃ s s', before.forM checkObligation ⟨u, queue⟩ = some ((), s) ∧
      checkObligation o s = some ((), s') ∧
      after.forM checkObligation s' = some ((), ⟨u', queue'⟩) ∧
      ∃ blocks : List (List Diagnostic),
        mismatches s'.queue.entries = mismatches s.queue.entries ++ blocks.flatten ∧
        List.Forall₂ (Use.Decided u'.types) (o.uses s.unit.types) blocks := by
  have hrun := check_eq_some hcheck
  rw [hsplit] at hrun
  obtain ⟨s, s', _, _, _, hbefore, hstep, hafter, hfirst, hextends, hlast, hdecided⟩ :=
    forM_split hu hrun
  have hs' : s'.unit.types.Valid := hextends.valid (hfirst.valid hu)
  obtain ⟨blocks, hblocks, huses⟩ := hdecided.refines hs' hlast.refines
  refine ⟨s, s', hbefore, hstep, hafter, blocks, ?_, huses⟩
  have hpolicy : s.queue.policy = .unlimited := by
    rw [hfirst.queue_eq, DiagnosticQueue.policy_addAll, hqueue]
  rw [hextends.queue_eq, DiagnosticQueue.entries_addAll hpolicy, mismatches_append, hblocks]

/-- Checking a lowered unit with a queue without limits compares the types at every node of the unit,
at each node once, and of each use it reports a mismatch if and only if the types that it ends with
do not go with one another. Nothing else reports a mismatch. -/
theorem check_decided {p : Syntax.Program} {policy : QueuePolicy} {found : DiagnosticQueue}
    (hlower : lowerProgram p policy = .ok (u, found)) (hqueue : queue.policy = .unlimited)
    (hcheck : check u queue = some (u', queue')) :
    (∃ addresses : List Address, addresses.Nodup ∧
      (∀ a, a ∈ addresses ↔ (u.nodeAt? a).isSome = true) ∧
      (obligations u).filter Obligation.compares = addresses.flatMap (comparisonsAt u)) ∧
    ∀ before o after, obligations u = before ++ o :: after →
      ∃ s s', before.forM checkObligation ⟨u, queue⟩ = some ((), s) ∧
        checkObligation o s = some ((), s') ∧
        after.forM checkObligation s' = some ((), ⟨u', queue'⟩) ∧
        ∃ blocks : List (List Diagnostic),
          mismatches s'.queue.entries = mismatches s.queue.entries ++ blocks.flatten ∧
          List.Forall₂ (Use.Decided u'.types) (o.uses s.unit.types) blocks := by
  have hu := (lowerProgram_lowered hlower).sound
  refine ⟨exists_addresses_comparisons hu, fun before o after hsplit => ?_⟩
  exact step_decided hu.types hqueue hcheck hsplit

/-- A variable that gets its type from its first value, and then a value of another type. -/
def twoTypes : Syntax.Program where
  body := [
    .vars ⟨false, [⟨⟨"a", ⟨4, 5⟩⟩, none, some (.int 1 ⟨8, 9⟩), false, ⟨4, 9⟩⟩], ⟨0, 10⟩⟩,
    .expr (.binary .assign (.ident ⟨"a", ⟨11, 12⟩⟩) (.bool true ⟨15, 19⟩) ⟨11, 19⟩) ⟨11, 20⟩]
  span := ⟨0, 20⟩

/-- The second value is the one use that is refused. -/
theorem check_decided_second_value :
    ∃ u found u' queue', lowerProgram twoTypes .unlimited = .ok (u, found) ∧
      check u { policy := .unlimited } = some (u', queue') ∧
      (mismatches queue'.entries).map (·.primarySpan) = [some ⟨11, 19⟩] ∧
      ∀ before o after, obligations u = before ++ o :: after →
        ∃ s s', before.forM checkObligation ⟨u, { policy := .unlimited }⟩ = some ((), s) ∧
          checkObligation o s = some ((), s') ∧
          ∃ blocks : List (List Diagnostic),
            mismatches s'.queue.entries = mismatches s.queue.entries ++ blocks.flatten ∧
            List.Forall₂ (Use.Decided u'.types) (o.uses s.unit.types) blocks := by
  have hruns : ((lowerProgram twoTypes .unlimited).toOption.bind fun r =>
      (check r.1 { policy := .unlimited }).map fun r =>
        (mismatches r.2.entries).map (·.primarySpan)) = some [some ⟨11, 19⟩] := by decide +kernel
  obtain ⟨⟨u, found⟩, hlower, hruns⟩ := Option.bind_eq_some_iff.1 hruns
  obtain ⟨⟨u', queue'⟩, hcheck, hspans⟩ := Option.map_eq_some_iff.1 hruns
  have hlower : lowerProgram twoTypes .unlimited = .ok (u, found) := by
    cases hrun : lowerProgram twoTypes .unlimited with
    | error halt =>
      rw [hrun] at hlower
      cases hlower
    | ok r =>
      rw [hrun] at hlower
      cases hlower
      rfl
  obtain ⟨-, hsteps⟩ := check_decided hlower rfl hcheck
  refine ⟨u, found, u', queue', hlower, hcheck, hspans, fun before o after hsplit => ?_⟩
  obtain ⟨s, s', hbefore, hstep, -, hblocks⟩ := hsteps before o after hsplit
  exact ⟨s, s', hbefore, hstep, hblocks⟩

end ExpLang.Checking
