import ExpLang.Proofs.Evaluation.Slots
import ExpLang.Proofs.Slots.Programs
import ExpLang.Syntax.Parse

/-!
# Frames hold what code names

Functions and classes can stand in the bodies of other functions, and their code is lowered in the
middle of the code around or after it. A local of one method never gets into the code of another:
every number in a lowered unit is within the bounds of its place. So a running program finds each
local and each argument that its code names in the frame of the method that runs, whether the unit was
checked or errors were found in it, and however the method was called.
-/

namespace ExpLang

open Resolved Lowering Evaluation

/-- Code outside of all methods names no slot. -/
theorem not_mem_visits_of_bare {u : CodeUnit} {code : List Visit} (h : CodeWithin (u.bounds none) code)
    (id : Nat) (info : Info) :
    .expr (.localVar id info) ∉ code ∧ .expr (.argument id info) ∉ code :=
  ⟨fun hmem => Nat.not_lt_zero id (h _ hmem), fun hmem => Nat.not_lt_zero id (h _ hmem)⟩

/-- Every number in a lowered unit is that of something it has, and first values of fields and
defaults of parameters name no slot. So whatever is known of the types, and on whatever machine, no
call of a method, no making of an object and no run of the program misses a slot of a frame. -/
theorem lowered_slots_in_range {p : Syntax.Program} {policy : QueuePolicy} {u : CodeUnit}
    {queue : DiagnosticQueue} (h : lowerProgram p policy = .ok (u, queue)) :
    u.InRange ∧
    (∀ i e, (u.getField i).init = some e → ∀ id info,
      .expr (.localVar id info) ∉ e.visits ∧ .expr (.argument id info) ∉ e.visits) ∧
    (∀ i, ∀ param ∈ (u.getMethod i).params, ∀ e, param.default = some e → ∀ id info,
      .expr (.localVar id info) ∉ e.visits ∧ .expr (.argument id info) ∉ e.visits) ∧
    ∀ types maxDepth fuel m index count,
      let env : Env := ⟨{ u with types := types }, maxDepth⟩
      (∀ id receiver args,
        (env.callMethod fuel id receiver args m).1 ≠ .error (.error (.missingSlot index count))) ∧
      (∀ owner, (env.makeObject fuel owner m).1 ≠ .error (.error (.missingSlot index count))) ∧
      ∀ argv, (run env fuel argv).1 ≠ .error (.error (.missingSlot index count)) := by
  have hinRange := lowerProgram_inRange h
  have hcode := hinRange.code
  refine ⟨hinRange, fun i e he => not_mem_visits_of_bare (hcode.init i e he),
    fun i param hparam e he => not_mem_visits_of_bare (hcode.default i param hparam e he), ?_⟩
  intro types maxDepth fuel m index count env
  have henv : env.unit.CodeInRange := hcode.withTypes types
  have hentry := seated_fuelled henv fuel
  exact ⟨fun id receiver args => (seated_call henv hentry id receiver args).ne_missingSlot m _ _,
    fun owner => (seated_newObject henv hentry owner).ne_missingSlot m _ _,
    fun argv => (seated_runMain henv fuel argv).ne_missingSlot {} _ _⟩

/-- A function inside of a loop that names the local of the loop, which is not one of its own. -/
def outerLocal : Source := .ofText "outer"
  "function f(k:Int=2){for(i in 0...k){function g()=>i;}return k;}return f();"

/-- A function that names a local of the code around it runs without missing a slot, and the program has
an error. -/
theorem lowered_slots_in_range_outerLocal :
    ∃ p u queue, Syntax.parseProgram outerLocal (Syntax.parseConfig 1000) = .ok p ∧
      lowerProgram p {} = .ok (u, queue) ∧ queue.hasErrors = true ∧ u.InRange ∧
      (u.getMethod 1).locals.size = 1 ∧ (u.getMethod 2).locals.size = 0 ∧
      (run ⟨u, 100⟩ 20 []).1.toOption.any (Value.same (.int 2)) = true ∧
      ∀ fuel argv index count,
        (run ⟨u, 100⟩ fuel argv).1 ≠ .error (.error (.missingSlot index count)) := by
  have hshape : ((Syntax.parseProgram outerLocal (Syntax.parseConfig 1000)).toOption.bind fun p =>
      (lowerProgram p {}).toOption.map fun r => decide (r.2.hasErrors = true ∧
        (r.1.getMethod 1).locals.size = 1 ∧ (r.1.getMethod 2).locals.size = 0 ∧
        (run ⟨r.1, 100⟩ 20 []).1.toOption.any (Value.same (.int 2)) = true)) = some true := by
    decide +kernel
  cases hparse : Syntax.parseProgram outerLocal (Syntax.parseConfig 1000) with
  | error e =>
    rw [hparse] at hshape
    cases hshape
  | ok p =>
    rw [hparse] at hshape
    cases hlower : lowerProgram p {} with
    | error halt =>
      change (lowerProgram p {}).toOption.map _ = _ at hshape
      rw [hlower] at hshape
      cases hshape
    | ok r =>
      obtain ⟨u, queue⟩ := r
      change (lowerProgram p {}).toOption.map _ = _ at hshape
      rw [hlower] at hshape
      obtain ⟨herrors, houter, hinner, hrun⟩ := of_decide_eq_true (Option.some.inj hshape)
      obtain ⟨hinRange, -, -, hsafe⟩ := lowered_slots_in_range hlower
      exact ⟨p, u, queue, rfl, hlower, herrors, hinRange, houter, hinner, hrun,
        fun fuel argv index count => (hsafe u.types 100 fuel {} index count).2.2 argv⟩

end ExpLang
