import ExpLang.Compilation
import ExpLang.Proofs.Reports.Checks
import ExpLang.Proofs.Reports.Programs

/-!
# Policies

What is kept of the findings depends on the policy, but what is compiled does not: lowering and checking
report the same findings under every policy, and a policy drops an error only where an error is kept. So
a source has errors under one policy if and only if it has errors under another one, and the units are
the same.
-/

namespace ExpLang

/-- A source is compiled to the same unit under every policy, and the findings are what the policy keeps
of the same reports. -/
theorem compile_told (source : Source) (budget : Nat) :
    (∃ e, ∀ policy, compile source budget policy = .error e) ∨
    ∃ u told, ∀ policy, compile source budget policy =
      .ok ⟨u, (DiagnosticQueue.addAll { policy := policy } told).entries⟩ := by
  unfold compile
  split
  · exact .inl ⟨_, fun _ => rfl⟩
  rename_i p _
  obtain ⟨halt, hstop⟩ | ⟨u, lowered, hlower, -⟩ := Lowering.lowerProgram_accounted p .unlimited
  · exact .inl ⟨.ofHalt halt, fun policy => by rw [lowerAndCheck, hstop]⟩
  have hu := (Lowering.lowerProgram_lowered (hlower .unlimited)).sound.types
  obtain hstop | ⟨u', checked, hcheck, -⟩ := Checking.check_accounted hu { policy := .unlimited }
  · exact .inl ⟨.endless, fun policy => by simp only [lowerAndCheck, hlower, hstop]⟩
  · refine .inr ⟨u', lowered ++ checked, fun policy => ?_⟩
    simp only [lowerAndCheck, hlower, hcheck, DiagnosticQueue.addAll_append]

/-- What a policy keeps of some reports has errors if there are errors among the reports. -/
theorem hasErrors_told (u : Resolved.CodeUnit) (policy : QueuePolicy) (told : List Diagnostic) :
    (Compilation.mk u (DiagnosticQueue.addAll { policy := policy } told).entries).hasErrors =
      told.any (·.isError) := by
  rw [Bool.eq_iff_iff, Compilation.hasErrors, List.any_eq_true, List.any_eq_true,
    ← DiagnosticQueue.hasErrors_iff, DiagnosticQueue.hasErrors_addAll_iff]
  exact ⟨fun h => h.resolve_left nofun, .inr⟩

/-- Over every history a queue holds, in their order, the diagnostics added since it was last emptied
except those that it refuses, and has errors if any was added. What is compiled, and whether it is free
of errors, does not depend on what the queue refuses. -/
theorem policy_filters_findings :
    (∀ policy events, CountedQueue.after policy events =
        (DiagnosticQueue.addAll { policy := policy } (sinceFlush events)).counted ∧
      CountedQueue.Filters policy (sinceFlush events) (CountedQueue.after policy events)) ∧
    ∀ source budget policy policy',
      (compile source budget policy).map (·.unit) = (compile source budget policy').map (·.unit) ∧
      (compile source budget policy >>= Compilation.clean).toOption =
        (compile source budget policy' >>= Compilation.clean).toOption := by
  refine ⟨fun policy events => ⟨CountedQueue.after_eq policy events, CountedQueue.filters_after _ _⟩,
    fun source budget policy policy' => ?_⟩
  obtain ⟨e, hstop⟩ | ⟨u, told, hruns⟩ := compile_told source budget
  · rw [hstop, hstop]
    exact ⟨rfl, rfl⟩
  · have hclean (policy : QueuePolicy) :
        (compile source budget policy >>= Compilation.clean).toOption =
          if told.any (·.isError) then none else some u := by
      rw [hruns]
      change (Compilation.clean _).toOption = _
      rw [Compilation.clean, hasErrors_told]
      split <;> rfl
    rw [hclean, hclean, hruns, hruns]
    exact ⟨rfl, rfl⟩

end ExpLang
