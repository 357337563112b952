import ExpLang.Diagnostic.Queue

/-!
# Errors in a queue

A queue refuses an error only where it holds one already: because as many as allowed were reported, or
because it holds an equal one. So a queue without errors is one to which no error was reported.
-/

namespace ExpLang

namespace DiagnosticQueue

variable {q : DiagnosticQueue} {d : Diagnostic}

/-- A queue has errors exactly if one of its entries is an error. -/
theorem hasErrors_iff : q.hasErrors = true ↔ ∃ d ∈ q.entries, d.isError = true := by
  rw [hasErrors, decide_eq_true_eq, errorCount, List.countP_pos_iff]

/-- Errors stay in a queue. -/
theorem hasErrors_add (h : q.hasErrors = true) : (q.add d).hasErrors = true := by
  obtain ⟨e, he, herror⟩ := hasErrors_iff.1 h
  unfold add
  split
  · exact hasErrors_iff.2 ⟨e, List.mem_append_left _ he, herror⟩
  · exact h

/-- A queue has errors once one was reported: it refuses an error only if it holds one. -/
theorem hasErrors_add_of_isError (hd : d.isError = true) : (q.add d).hasErrors = true := by
  unfold add
  split
  · exact hasErrors_iff.2 ⟨d, List.mem_append_right _ List.mem_cons_self, hd⟩
  · rename_i hrefused
    simp only [accepts, hd, Bool.true_and, Bool.and_eq_true, Bool.not_eq_true', not_and,
      Bool.not_eq_false] at hrefused
    cases hlimit : q.limitReached with
    | true =>
      simp only [limitReached, Bool.and_eq_true, decide_eq_true_eq] at hlimit
      rw [hasErrors, decide_eq_true_eq]
      exact Nat.lt_of_lt_of_le hlimit.1 hlimit.2
    | false =>
      have hequal := hrefused hlimit
      rw [List.contains_iff_mem] at hequal
      exact hasErrors_iff.2 ⟨d, hequal.2, hd⟩

/-- A queue with errors has errors when more is added. -/
theorem hasErrors_addAll {ds : List Diagnostic} (h : q.hasErrors = true) :
    (q.addAll ds).hasErrors = true := by
  induction ds generalizing q with
  | nil => exact h
  | cons d ds ih => exact ih (hasErrors_add h)

/-- Adding findings leaves the policy. -/
theorem policy_addAll (q : DiagnosticQueue) (ds : List Diagnostic) :
    (q.addAll ds).policy = q.policy := by
  induction ds generalizing q with
  | nil => rfl
  | cons d ds ih =>
    rw [addAll, List.foldl_cons, ← addAll, ih, add]
    split <;> rfl

/-- A queue without limits keeps all that is reported. -/
theorem entries_addAll (hq : q.policy = .unlimited) (ds : List Diagnostic) :
    (q.addAll ds).entries = q.entries ++ ds := by
  induction ds generalizing q with
  | nil => exact (List.append_nil _).symm
  | cons d ds ih =>
    have haccepts : q.accepts d = true := by
      simp [accepts, limitReached, hq, QueuePolicy.unlimited]
    have hadd : q.add d = { q with entries := q.entries ++ [d] } := by
      rw [add, if_pos haccepts]
    rw [addAll, List.foldl_cons, ← addAll, ih (hadd ▸ hq), hadd, List.append_assoc,
      List.singleton_append]

end DiagnosticQueue

end ExpLang
