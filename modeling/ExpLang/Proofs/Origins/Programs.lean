import ExpLang.Proofs.Origins.Steps

/-!
# Where the operators of a program come from

A program is lowered from a unit without classes, so every state that lowering comes to has a traced
unit, and so has the state that it ends in. Whatever the program is, an operator in its unit was
lowered with the types and operators of the language, out of the operands that it has in the unit.
-/

namespace ExpLang.Lowering

open Resolved

variable {p : Syntax.Program} {policy : QueuePolicy} {s : State}

/-- The class and the method that a program starts in. -/
theorem declareMain_keepsTraced (span : Span) : KeepsTraced (declareMain span) := by
  constructor
  intro s s' r _ hrun
  obtain ⟨u, u', hclass, hmethod, rfl⟩ := declareMain_eq_ok hrun
  have htypes : u.types.Keeps (u.types.newHole.2.array Primitive.string.id).2 :=
    (u.types.keeps_push _ _).trans (u.types.newHole.2.keeps_intern _)
  have hu := CodeUnit.traced_empty.createClass hclass
  exact ⟨(hu.withTypes htypes).createMethod hmethod, trivial⟩

/-- Declaring classes keeps code traced. -/
theorem declareClasses_keepsTraced (decls : List (Syntax.ClassDecl Syntax.Stmt)) :
    KeepsTraced (declareClasses decls) := by
  induction decls with
  | nil => exact gives_pure trivial
  | cons decl rest ih =>
    exact (declareClass_keepsTraced decl).bind fun _ _ => ih.bind fun _ _ => gives_pure trivial

/-- Declaring a program keeps code traced. -/
theorem declareProgram_keepsTraced (main : ClassId) (body : List Syntax.Stmt) :
    KeepsTraced (declareProgram main body) := by
  refine (declareClasses_keepsTraced _).bind fun declared _ => ?_
  have hmembers : KeepsTraced (declareAll (fun r => declareMembers r.1 r.2) declared) :=
    declareAll_keepsTraced (fun _ => declareMembers_keepsTraced _ _) declared
  have hfunctions : KeepsTraced (declareAll (declareMethod main .ofClass) (functionDecls body)) :=
    declareAll_keepsTraced (declareMethod_keepsTraced main _) _
  exact hmembers.bind fun _ _ => hfunctions.bind fun _ _ => gives_pure trivial

/-- Lowering the statements of a program keeps code traced. -/
theorem lowerMain_keepsTraced (owner : ClassId) (method : MethodId) (p : Syntax.Program) :
    KeepsTraced (lowerMain owner method p) :=
  (lowerStmts_traced _ _ _).bind fun _ h =>
    keepsTraced_modifyUnit fun hu => hu.setBody method (traced_cons.2 ⟨trivial, h⟩)

/-- Lowering a body that waits keeps code traced. -/
theorem lowerBody_keepsTraced (d : Deferred) : KeepsTraced (lowerBody d) :=
  (keepsTraced_ask _).bind fun _ _ => (lowerStmt_traced _ d.body _).bind fun _ h =>
    keepsTraced_modifyUnit fun hu => hu.setBody d.method h

/-- Lowering all bodies that wait keeps code traced. -/
theorem lowerDeferred_keepsTraced (n : Nat) : KeepsTraced (lowerDeferred n) := by
  induction n with
  | zero =>
    refine keepsTraced_get.bind fun s _ => ?_
    split
    · exact gives_pure trivial
    · exact gives_halt
  | succ n ih =>
    refine keepsTraced_get.bind fun s _ => ?_
    split
    · exact gives_pure trivial
    · rename_i d rest _
      have hpop : KeepsTraced (modify fun s => { s with deferred := rest } : Lower Unit) := by
        constructor
        intro s s' a hs hrun
        cases hrun
        exact ⟨hs, trivial⟩
      exact hpop.bind fun _ _ => (lowerBody_keepsTraced d).bind fun _ _ => ih

/-- The unit of every program is traced. -/
theorem lowerProgram_traced {u : CodeUnit} {queue : DiagnosticQueue}
    (h : lowerProgram p policy = .ok (u, queue)) : u.Traced := by
  have hall : KeepsTraced (lowerAll p) := by
    refine (declareMain_keepsTraced p.span).bind fun r _ => ?_
    refine (declareProgram_keepsTraced r.1 p.body).bind fun tasks _ => ?_
    refine (runTasks_keepsTraced tasks).bind fun _ _ => ?_
    refine (lowerMain_keepsTraced r.1 r.2 p).bind fun _ _ => ?_
    refine (lowerDeferred_keepsTraced _).bind fun _ _ => ?_
    exact keepsTraced_modifyUnit fun hu => hu.closeResults
  obtain ⟨s, hrun, rfl, -⟩ := lowerProgram_eq_ok h
  exact (hall.of_run CodeUnit.traced_empty hrun).1

/-- A unit in which a program is declared is traced. -/
theorem Declared.traced {owner : ClassId} {method : MethodId} {tasks : List Task}
    (h : Declared p policy owner method tasks s) : s.unit.Traced := by
  obtain ⟨s₁, hmain, hprogram⟩ := h.of_runs
  have h₁ := ((declareMain_keepsTraced _).of_run CodeUnit.traced_empty hmain).1
  exact ((declareProgram_keepsTraced _ _).of_run h₁ hprogram).1

/-- Every state that lowering a program comes to has a traced unit. -/
theorem Comes.traced {job : Job} (h : Comes p policy job s) : s.unit.Traced := by
  induction h with
  | tasks hdeclared => exact hdeclared.traced
  | main hdeclared htasks =>
    exact ((runTasks_keepsTraced _).of_run hdeclared.traced htasks).1
  | bodies hdeclared htasks hmain =>
    have h := ((runTasks_keepsTraced _).of_run hdeclared.traced htasks).1
    exact ((lowerMain_keepsTraced _ _ _).of_run h hmain).1
  | task _ ih | stmt _ ih | head _ _ ih | block _ ih | vars _ _ ih | varInit _ _ ih => exact ih
  | body _ _ ih => exact ih
  | moreTasks _ hrun ih => exact ((runTask_keepsTraced _).of_run ih hrun).1
  | moreBodies _ _ hrun ih =>
    exact ((lowerBody_keepsTraced _).of_run (by exact ih) hrun).1
  | moreStmts _ hrun ih => exact ((lowerStmt_traced _ _ _).of_run ih hrun).1
  | thenBranch _ hcond ih | whileBody _ hcond ih =>
    exact ((lowerExpr_traced _ _ _).of_run ih hcond).1
  | elseBranch _ hcond hyes ih =>
    have h := ((lowerExpr_traced _ _ _).of_run ih hcond).1
    exact ((lowerStmt_traced _ _ _).of_run h hyes).1
  | forBody _ hhead ih => exact ((loopHead_traced _ _ _ _ _).of_run ih hhead).1
  | moreVars _ hrun ih => exact ((lowerVars_traced _ _ _ _).of_run ih hrun).1
  | function _ hdeclare ih => exact ((declareMethod_keepsTraced _ _ _).of_run ih hdeclare).1
  | classMembers _ hclass hmembers ih =>
    have h := ((declareClass_keepsTraced _).of_run ih hclass).1
    exact ((declareMembers_keepsTraced _ _).of_run h hmembers).1
  | part _ _ hbefore ih => exact ((lowerExprs_traced _ _ _).of_run ih hbefore).1

end ExpLang.Lowering
