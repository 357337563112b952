import ExpLang.Proofs.Tidying.Programs

/-!
# What stands for nothing in a unit

An expression that lowering cannot resolve becomes one that stands for nothing. A name that nothing is
known of is reported, and so is a member that a class does not have. So where nothing is reported, an
expression that stands for nothing is a member access, and its receiver had a type that says nothing
about members when the access was lowered. Such a type is `Dynamic` or `Unknown`, or a hole: the type
of a receiver may be inferred from a method that is lowered later.
-/

namespace ExpLang.Lowering

open Resolved

variable {p : Syntax.Program} {policy : QueuePolicy} {u : CodeUnit}

/-- What the walk over a blameless unit meets has an excuse. -/
theorem excused_visits {P : Expr → Prop} (hu : u.Blameless P) : Excused P u.visits := by
  intro name info hmem
  obtain ⟨c, -, hmem⟩ := List.mem_flatMap.1 hmem
  rcases List.mem_append.1 hmem with hmem | hmem
  · rcases List.mem_cons.1 hmem with hmem | hmem
    · cases hmem
    obtain ⟨i, -, hmem⟩ := List.mem_flatMap.1 hmem
    rcases List.mem_cons.1 hmem with hmem | hmem
    · cases hmem
    cases hinit : (u.getField i).init with
    | none =>
      rw [hinit] at hmem
      cases hmem
    | some e =>
      rw [hinit] at hmem
      exact (hu.field i).init e hinit name info hmem
  · obtain ⟨i, -, hmem⟩ := List.mem_flatMap.1 hmem
    rcases List.mem_append.1 hmem with hmem | hmem
    · rcases List.mem_cons.1 hmem with hmem | hmem
      · cases hmem
      obtain ⟨param, hparam, hmem⟩ := List.mem_flatMap.1 hmem
      cases hdefault : param.default with
      | none =>
        rw [hdefault] at hmem
        cases hmem
      | some e =>
        rw [hdefault] at hmem
        exact (hu.method i).default param (Array.mem_toList_iff.1 hparam) e hdefault name info hmem
    · cases hbody : (u.getMethod i).body with
      | none =>
        rw [hbody] at hmem
        cases hmem
      | some body =>
        rw [hbody] at hmem
        exact (hu.method i).body body hbody name info hmem

/-- If nothing is reported about a program, every expression of its unit that stands for nothing is
what a member access was lowered to, on a receiver whose type was `Dynamic`, `Unknown` or not known
yet. -/
theorem fromAccess_of_unknown {queue : DiagnosticQueue} (h : lowerProgram p policy = .ok (u, queue))
    (hquiet : queue.entries = []) {name : String} {info : Info}
    (hmem : Visit.expr (.unknown name info) ∈ u.visits) :
    FromAccess p policy (.unknown name info) :=
  excused_visits ((lowerProgram_tidy h).2 hquiet) name info hmem

/-! ## Accesses that nothing is reported about -/

/-- The result of a function: `g()`. -/
def lateReceiver : Syntax.Expr := .call (.ident ⟨"g", ⟨50, 51⟩⟩) [] ⟨50, 53⟩

/-- A variable with the member of a result: `var x=g().x;` -/
def lateVars : Syntax.VarsDecl :=
  ⟨false, [⟨⟨"x", ⟨48, 49⟩⟩, none, some (.field lateReceiver ⟨"x", ⟨54, 55⟩⟩ ⟨50, 55⟩), false,
    ⟨48, 55⟩⟩], ⟨44, 56⟩⟩

/-- A variable that may be anything: `var d:Dynamic;` -/
def dynamicVars : Syntax.VarsDecl :=
  ⟨false, [⟨⟨"d", ⟨60, 61⟩⟩, some ⟨⟨"Dynamic", ⟨62, 69⟩⟩, 0, ⟨62, 69⟩⟩, none, false, ⟨60, 69⟩⟩], ⟨56, 70⟩⟩

/-- A call of a member of it: `d.a()`. -/
def dynamicCall : Syntax.Expr :=
  .call (.field (.ident ⟨"d", ⟨76, 77⟩⟩) ⟨"a", ⟨78, 79⟩⟩ ⟨76, 79⟩) [] ⟨76, 81⟩

/-- A variable with a member of what was called: `var b=d.a().b;` -/
def calledVars : Syntax.VarsDecl :=
  ⟨false, [⟨⟨"b", ⟨74, 75⟩⟩, none, some (.field dynamicCall ⟨"b", ⟨82, 83⟩⟩ ⟨76, 83⟩), false,
    ⟨74, 83⟩⟩], ⟨70, 84⟩⟩

/-- The three variables after `class A{var x=1;} function g(){return A();}`. -/
def quietAccesses : Syntax.Program where
  body := [
    .classDecl ⟨⟨"A", ⟨6, 7⟩⟩, [⟨false, .fields ⟨false,
      [⟨⟨"x", ⟨12, 13⟩⟩, none, some (.int 1 ⟨14, 15⟩), false, ⟨12, 15⟩⟩], ⟨8, 16⟩⟩, ⟨8, 16⟩⟩], ⟨0, 17⟩⟩,
    .function ⟨⟨"g", ⟨27, 28⟩⟩, [], none, .stmt (.block [
      .ret (some (.call (.ident ⟨"A", ⟨38, 39⟩⟩) [] ⟨38, 41⟩)) ⟨31, 42⟩] ⟨30, 43⟩), ⟨18, 43⟩⟩,
    .vars lateVars, .vars dynamicVars, .vars calledVars]
  span := ⟨0, 84⟩

/-- Whether a thing met on a walk is an expression that stands for nothing, at some place. -/
def isUnknownAt (name : String) (span : Span) : Visit → Bool
  | .expr (.unknown name' info) => name' == name && info == ⟨Primitive.unknown.id, span⟩
  | _ => false

/-- What is unknown at a place is that expression. -/
theorem eq_of_isUnknownAt {name : String} {span : Span} {v : Visit}
    (h : isUnknownAt name span v = true) : v = .expr (unknownExpr name span) := by
  unfold isUnknownAt at h
  split at h
  · simp only [Bool.and_eq_true, beq_iff_eq] at h
    rw [h.1, h.2, unknownExpr]
  · cases h

/-- Code that is unknown at a place has that expression in it. -/
theorem mem_of_any_isUnknownAt {name : String} {span : Span} {code : List Visit}
    (h : code.any (isUnknownAt name span) = true) : Visit.expr (unknownExpr name span) ∈ code := by
  obtain ⟨v, hv, hunknown⟩ := List.any_eq_true.1 h
  exact eq_of_isUnknownAt hunknown ▸ hv

/-- An access on the result of a dynamic call is unknown without a report. -/
theorem fromAccess_of_unknown_quietAccesses :
    ∃ u queue, lowerProgram quietAccesses {} = .ok (u, queue) ∧ queue.entries = [] ∧
      Visit.expr (unknownExpr "b" ⟨76, 83⟩) ∈ u.visits ∧
      FromAccess quietAccesses {} (unknownExpr "b" ⟨76, 83⟩) := by
  have hshape : (lowerProgram quietAccesses {}).toOption.map (fun r =>
      decide (r.2.entries = [] ∧ r.1.visits.any (isUnknownAt "b" ⟨76, 83⟩) = true)) =
      some true := by
    decide +kernel
  cases h : lowerProgram quietAccesses {} with
  | error halt =>
    rw [h] at hshape
    cases hshape
  | ok r =>
    obtain ⟨u, queue⟩ := r
    rw [h] at hshape
    obtain ⟨hquiet, hmem⟩ := of_decide_eq_true (Option.some.inj hshape)
    have hmem := mem_of_any_isUnknownAt hmem
    exact ⟨u, queue, rfl, hquiet, hmem, fromAccess_of_unknown h hquiet hmem⟩

/-- Two accesses that become expressions which stand for nothing, with nothing reported. The receiver
of the first one is a call whose type is a class in the end, the receiver of the second one is a call
of the type `Unknown`. -/
theorem quietAccesses_unresolved :
    ∃ u queue, lowerProgram quietAccesses {} = .ok (u, queue) ∧ queue.entries = [] ∧
      (Visit.expr (unknownExpr "x" ⟨50, 55⟩) ∈ u.visits ∧
        ∃ site scope receiver s s', Comes quietAccesses {}
            (.expr site scope (.field lateReceiver ⟨"x", ⟨54, 55⟩⟩ ⟨50, 55⟩)) s ∧
          lowerExpr site scope lateReceiver s = .ok (receiver, s') ∧ receiver.form = "Call" ∧
          u.types.get (u.types.resolve receiver.type) = .ofClass 1) ∧
      (Visit.expr (unknownExpr "b" ⟨76, 83⟩) ∈ u.visits ∧
        ∃ site scope receiver s s', Comes quietAccesses {}
            (.expr site scope (.field dynamicCall ⟨"b", ⟨82, 83⟩⟩ ⟨76, 83⟩)) s ∧
          lowerExpr site scope dynamicCall s = .ok (receiver, s') ∧ receiver.form = "Call" ∧
          s'.unit.types.get (s'.unit.types.resolve receiver.type) = .primitive .unknown) := by
  have hruns : ((lowerProgram quietAccesses {}).toOption.bind fun final =>
      (declareMain quietAccesses.span (.start {})).toOption.bind fun main =>
      (declareProgram main.1.1 quietAccesses.body main.2).toOption.bind fun declared =>
      (declared.1.forM runTask declared.2).toOption.bind fun ran =>
      let site : Site := ⟨main.1.1, some main.1.2, true⟩
      let scope : Scope := .ofMethod main.1.1 main.1.2
      (lowerExpr site scope lateReceiver ran.2).toOption.bind fun late =>
      (lowerStmt site scope (.vars lateVars) ran.2).toOption.bind fun first =>
      (lowerStmt site first.1.2 (.vars dynamicVars) first.2).toOption.bind fun second =>
      (lowerExpr site second.1.2 dynamicCall second.2).toOption.bind fun called =>
      some (decide (final.2.entries = [] ∧
        final.1.visits.any (isUnknownAt "x" ⟨50, 55⟩) = true ∧ late.1.form = "Call" ∧
        final.1.types.get (final.1.types.resolve late.1.type) = .ofClass 1 ∧
        final.1.visits.any (isUnknownAt "b" ⟨76, 83⟩) = true ∧ called.1.form = "Call" ∧
        called.2.unit.types.get (called.2.unit.types.resolve called.1.type) =
          .primitive .unknown))) = some true := by
    decide +kernel
  obtain ⟨⟨u, queue⟩, hfinal, hruns⟩ := of_toOption_bind hruns
  obtain ⟨⟨⟨owner, method⟩, s₁⟩, hmain, hruns⟩ := of_toOption_bind hruns
  obtain ⟨⟨tasks, s₂⟩, hdeclare, hruns⟩ := of_toOption_bind hruns
  obtain ⟨⟨⟨⟩, s₃⟩, htasks, hruns⟩ := of_toOption_bind hruns
  obtain ⟨⟨late, s₄⟩, hlate, hruns⟩ := of_toOption_bind hruns
  obtain ⟨⟨⟨stmt₁, scope₁⟩, s₅⟩, hfirst, hruns⟩ := of_toOption_bind hruns
  obtain ⟨⟨⟨stmt₂, scope₂⟩, s₆⟩, hsecond, hruns⟩ := of_toOption_bind hruns
  obtain ⟨⟨called, s₇⟩, hcalled, hruns⟩ := of_toOption_bind hruns
  obtain ⟨hquiet, hx, hlateForm, hlateType, hb, hcalledForm, hcalledType⟩ :=
    of_decide_eq_true (Option.some.inj hruns)
  have hdeclared : Declared quietAccesses {} owner method tasks s₂ := ⟨s₁, hmain, hdeclare⟩
  have hstmts := Comes.main hdeclared htasks
  have hrest := (hstmts.moreStmts hfirst).moreStmts hsecond
  exact ⟨u, queue, hfinal, hquiet,
    ⟨mem_of_any_isUnknownAt hx, _, _, late, s₃, s₄, (hstmts.stmt.vars rfl).varInit rfl, hlate,
      hlateForm, hlateType⟩,
    ⟨mem_of_any_isUnknownAt hb, _, _, called, s₆, s₇, (hrest.stmt.vars rfl).varInit rfl, hcalled,
      hcalledForm, hcalledType⟩⟩

end ExpLang.Lowering
