import ExpLang.Compilation
import ExpLang.Proofs.Checking.Inference
import ExpLang.Proofs.Evaluation.Running
import ExpLang.Proofs.Resolved.Nodes

/-!
# Compiled programs can be run

A source that compiles without errors gives a unit in which every method has a body and every type is
known, whatever the limits on findings are. These are the two things that a running program relies on
when a method is called, so it never finds them missing.
-/

namespace ExpLang

open Resolved Evaluation

/-- A compilation is a program that was lowered and then checked. -/
theorem compile_eq_ok {source : Source} {budget : Nat} {policy : QueuePolicy} {c : Compilation}
    (h : compile source budget policy = .ok c) :
    ∃ p u queue queue', Lowering.lowerProgram p policy = .ok (u, queue) ∧
      Checking.check u queue = some (c.unit, queue') ∧ c.findings = queue'.entries := by
  unfold compile at h
  split at h
  · cases h
  · rename_i p _
    unfold lowerAndCheck at h
    split at h
    · cases h
    · rename_i u queue hlower
      split at h
      · rename_i u' queue' hcheck
        cases h
        exact ⟨p, u, queue, queue', hlower, hcheck, rfl⟩
      · cases h

/-- A unit that was compiled without errors is complete. -/
theorem complete_of_compile {source : Source} {budget : Nat} {policy : QueuePolicy}
    {c : Compilation} (h : compile source budget policy = .ok c) (hclean : c.hasErrors = false) :
    c.unit.Complete := by
  obtain ⟨p, u, queue, queue', hlower, hcheck, hfindings⟩ := compile_eq_ok h
  have hqueue : queue'.hasErrors = false := by
    rw [Bool.eq_false_iff]
    intro herrors
    obtain ⟨d, hd, hd'⟩ := DiagnosticQueue.hasErrors_iff.1 herrors
    rw [Compilation.hasErrors, hfindings, List.any_eq_false] at hclean
    exact hclean d hd hd'
  exact Checking.check_complete (Lowering.lowerProgram_lowered hlower) hcheck hqueue

/-- A source that compiles without errors gives a unit whose methods all have bodies and whose
results, locals, fields and expressions all have known types, and running it never finds a fault. -/
theorem compile_clean {source : Source} {budget : Nat} {policy : QueuePolicy} {c : Compilation}
    (h : compile source budget policy = .ok c) (hclean : c.hasErrors = false) :
    (∀ i < c.unit.methods.size, (c.unit.getMethod i).body.isSome = true ∧
      c.unit.types.isUnbound (c.unit.getMethod i).ret = false ∧
      ∀ l ∈ (c.unit.getMethod i).locals, c.unit.types.isUnbound l.type = false) ∧
    (∀ i < c.unit.fields.size, c.unit.types.isUnbound (c.unit.getField i).type = false) ∧
    (∀ a e, c.unit.nodeAt? a = some (.expr e) → c.unit.types.isUnbound e.type = false) ∧
    ∀ maxDepth fuel argv fault,
      (run ⟨c.unit, maxDepth⟩ fuel argv).1 ≠ .error (.error (.internal fault)) := by
  have hcomplete := complete_of_compile h hclean
  refine ⟨fun i hi => ⟨?_, hcomplete.known _, fun l _ => hcomplete.known _⟩,
    fun i _ => hcomplete.known _, fun a e _ => hcomplete.known _, fun maxDepth fuel argv fault => ?_⟩
  · exact (hcomplete.sound.has_body i hi).resolve_right not_false
  · have henv : (Env.mk c.unit maxDepth).unit.Complete := hcomplete
    exact run_ne_fault henv fuel argv fault

/-- A function with a default, and a variable that gets its type from the result of a call. -/
def callWithDefault : Source := .ofText "call" "function f(k:Int=2)=>k;var a=f();"

/-- A program with a default compiles clean, and no run of it stops with a fault. -/
theorem compile_clean_default_argument :
    ∃ c, compile callWithDefault 1000 {} = .ok c ∧ c.hasErrors = false ∧
      (∀ a e, c.unit.nodeAt? a = some (.expr e) → c.unit.types.isUnbound e.type = false) ∧
      ∀ maxDepth fuel argv fault,
        (run ⟨c.unit, maxDepth⟩ fuel argv).1 ≠ .error (.error (.internal fault)) := by
  have hclean : (compile callWithDefault 1000 {}).toOption.map (·.hasErrors) = some false := by
    decide +kernel
  cases h : compile callWithDefault 1000 {} with
  | error e =>
    rw [h] at hclean
    cases hclean
  | ok c =>
    rw [h] at hclean
    have hclean : c.hasErrors = false := Option.some.inj hclean
    obtain ⟨-, -, hexpr, hrun⟩ := compile_clean h hclean
    exact ⟨c, rfl, hclean, hexpr, hrun⟩

end ExpLang
