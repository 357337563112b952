import ExpLang.Proofs.Diagnostic.Errors

/-!
# Histories of a queue

A queue that is asked for its errors again and again keeps their number beside its entries, and a queue
that is used for more than one source is emptied in between: `CountedQueue` does both. Over every
history it is the queue that holds what is kept of the diagnostics added since it was last emptied
(`CountedQueue.after_eq`), so that what holds of `DiagnosticQueue.addAll` from an empty queue holds of
it at every moment.
-/

namespace ExpLang

namespace DiagnosticQueue

variable {q : DiagnosticQueue} {d : Diagnostic}

/-- Why a queue refuses a diagnostic: it is an error and as many as allowed are kept, or it is equal to
one that is kept. -/
def Refuses (q : DiagnosticQueue) (d : Diagnostic) : Prop :=
  (d.isError = true ∧ q.limitReached = true) ∨ (q.policy.refuseEqual = true ∧ d ∈ q.entries)

/-- A queue does not accept exactly what its policy refuses. -/
theorem accepts_eq_false_iff : q.accepts d = false ↔ q.Refuses d := by
  rw [accepts, Bool.and_eq_false_iff, Bool.not_eq_false', Bool.not_eq_false', Bool.and_eq_true,
    Bool.and_eq_true, List.contains_iff_mem, Refuses]

/-- An accepted finding is put last. -/
theorem entries_add_of_accepts (h : q.accepts d = true) :
    (q.add d).entries = q.entries ++ [d] := by
  rw [add, if_pos h]

/-- A refused finding changes nothing. -/
theorem add_of_refuses (h : q.Refuses d) : q.add d = q := by
  rw [add, accepts_eq_false_iff.2 h]
  rfl

/-- Adding two lists of findings is adding the first and then the second. -/
theorem addAll_append (q : DiagnosticQueue) (ds ds' : List Diagnostic) :
    q.addAll (ds ++ ds') = (q.addAll ds).addAll ds' := List.foldl_append

/-- Adding a list of findings adds the first one first. -/
theorem addAll_cons (q : DiagnosticQueue) (d : Diagnostic) (ds : List Diagnostic) :
    q.addAll (d :: ds) = (q.add d).addAll ds := rfl

/-- A new queue without limits holds what is reported. -/
theorem addAll_unlimited (ds : List Diagnostic) :
    addAll { policy := .unlimited } ds = ⟨.unlimited, ds⟩ := by
  have hentries : (addAll { policy := .unlimited } ds).entries = [] ++ ds := entries_addAll rfl ds
  have hpolicy : (addAll { policy := .unlimited } ds).policy = .unlimited := policy_addAll _ ds
  cases hqueue : addAll { policy := .unlimited } ds with
  | mk policy entries =>
    rw [hqueue] at hentries hpolicy
    cases hentries
    cases hpolicy
    rfl

/-- What was kept stays, and what comes later stands after it. -/
theorem exists_entries_addAll (q : DiagnosticQueue) (ds : List Diagnostic) :
    ∃ kept, (q.addAll ds).entries = q.entries ++ kept ∧ kept.Sublist ds := by
  induction ds generalizing q with
  | nil => exact ⟨[], (List.append_nil _).symm, .slnil⟩
  | cons d ds ih =>
    obtain ⟨kept, heq, hsub⟩ := ih (q.add d)
    cases haccepts : q.accepts d with
    | true =>
      refine ⟨d :: kept, ?_, hsub.cons_cons d⟩
      rw [addAll_cons, heq, entries_add_of_accepts haccepts, List.append_assoc,
        List.singleton_append]
    | false =>
      rw [add_of_refuses (accepts_eq_false_iff.1 haccepts)] at heq
      refine ⟨kept, ?_, hsub.cons d⟩
      rw [addAll_cons, add_of_refuses (accepts_eq_false_iff.1 haccepts), heq]

/-- Adding keeps the number of errors within the limit. -/
theorem errorCount_add_le (hlimit : q.policy.errorLimit ≠ 0)
    (h : q.errorCount ≤ q.policy.errorLimit) : (q.add d).errorCount ≤ q.policy.errorLimit := by
  unfold add
  split
  · rename_i haccepts
    rw [errorCount, List.countP_append, List.countP_singleton, ← errorCount]
    cases herror : d.isError with
    | false => simpa using h
    | true =>
      -- an error is taken only while there is room for one more
      have hroom : q.limitReached = false := by
        simp only [accepts, herror, Bool.true_and, Bool.and_eq_true, Bool.not_eq_true'] at haccepts
        exact haccepts.1
      simp only [limitReached, Bool.and_eq_false_iff, decide_eq_false_iff_not] at hroom
      rw [if_pos rfl]
      omega
  · exact h

/-- There are never more errors than the limit, if there is one. -/
theorem errorCount_addAll_le (hlimit : q.policy.errorLimit ≠ 0)
    (h : q.errorCount ≤ q.policy.errorLimit) (ds : List Diagnostic) :
    (q.addAll ds).errorCount ≤ q.policy.errorLimit := by
  induction ds generalizing q with
  | nil => exact h
  | cons d ds ih =>
    have hpolicy : (q.add d).policy = q.policy := policy_addAll q [d]
    rw [addAll_cons, ← hpolicy]
    exact ih (hpolicy ▸ hlimit) (hpolicy ▸ errorCount_add_le hlimit h)

/-- Where equal diagnostics are refused, adding one keeps the entries apart. -/
theorem nodup_add (hrefuse : q.policy.refuseEqual = true) (h : q.entries.Nodup) :
    (q.add d).entries.Nodup := by
  unfold add
  split
  · rename_i haccepts
    have hnew : d ∉ q.entries := by
      simp only [accepts, hrefuse, Bool.true_and, Bool.and_eq_true, Bool.not_eq_true',
        List.contains_eq_mem, decide_eq_false_iff_not] at haccepts
      exact haccepts.2
    refine List.nodup_append.2 ⟨h, List.pairwise_singleton _ d, fun a ha b hb hab => hnew ?_⟩
    rw [← List.mem_singleton.1 hb, ← hab]
    exact ha
  · exact h

/-- No finding is twice in a queue that refuses equal ones. -/
theorem nodup_addAll (hrefuse : q.policy.refuseEqual = true) (h : q.entries.Nodup)
    (ds : List Diagnostic) : (q.addAll ds).entries.Nodup := by
  induction ds generalizing q with
  | nil => exact h
  | cons d ds ih =>
    have hpolicy : (q.add d).policy = q.policy := policy_addAll q [d]
    exact ih (hpolicy ▸ hrefuse) (nodup_add hrefuse h)

/-- A queue has errors once it had some or one was added. -/
theorem hasErrors_addAll_iff {ds : List Diagnostic} :
    (q.addAll ds).hasErrors = true ↔ q.hasErrors = true ∨ ∃ d ∈ ds, d.isError = true := by
  constructor
  · intro h
    obtain ⟨d, hd, herror⟩ := hasErrors_iff.1 h
    obtain ⟨kept, heq, hsub⟩ := exists_entries_addAll q ds
    rw [heq] at hd
    rcases List.mem_append.1 hd with hd | hd
    · exact .inl (hasErrors_iff.2 ⟨d, hd, herror⟩)
    · exact .inr ⟨d, hsub.subset hd, herror⟩
  · rintro (h | ⟨d, hd, herror⟩)
    · exact hasErrors_addAll h
    · obtain ⟨before, after, rfl⟩ := List.append_of_mem hd
      rw [addAll_append, addAll_cons]
      exact hasErrors_addAll (hasErrors_add_of_isError herror)

/-- Each addition is kept in its place, or refused for a reason. -/
theorem kept_or_refused (q : DiagnosticQueue) (before : List Diagnostic) (d : Diagnostic)
    (after : List Diagnostic) :
    ∃ later, (q.addAll (before ++ d :: after)).entries = (q.addAll before).entries ++ d :: later ∨
      ((q.addAll before).Refuses d ∧
        (q.addAll (before ++ d :: after)).entries = (q.addAll before).entries ++ later) := by
  obtain ⟨later, heq, -⟩ := exists_entries_addAll ((q.addAll before).add d) after
  refine ⟨later, ?_⟩
  rw [addAll_append, addAll_cons, heq]
  cases haccepts : (q.addAll before).accepts d with
  | true =>
    rw [entries_add_of_accepts haccepts, List.append_assoc, List.singleton_append]
    exact .inl rfl
  | false =>
    have hrefuses := accepts_eq_false_iff.1 haccepts
    rw [add_of_refuses hrefuses]
    exact .inr ⟨hrefuses, rfl⟩

end DiagnosticQueue

/-- A queue that keeps the number of its errors beside its entries. -/
structure CountedQueue where
  /-- What is refused. -/
  policy : QueuePolicy
  /-- What is kept, oldest first. -/
  entries : List Diagnostic := []
  /-- Number of errors that are kept. -/
  errorCount : Nat := 0
  deriving DecidableEq, Repr, Inhabited

/-- What can be done to a queue. -/
inductive QueueEvent where
  /-- One diagnostic is added. -/
  | add (d : Diagnostic)
  /-- Several are added one after the other. -/
  | extend (ds : List Diagnostic)
  /-- The entries are taken out. -/
  | flush
  deriving DecidableEq, Repr, Inhabited

/-- What was added since a queue was last emptied, after an event. -/
def QueueEvent.note (added : List Diagnostic) : QueueEvent → List Diagnostic
  | .add d => added ++ [d]
  | .extend ds => added ++ ds
  | .flush => []

/-- What was added to a new queue since it was last emptied. -/
def sinceFlush (events : List QueueEvent) : List Diagnostic := events.foldl QueueEvent.note []

namespace CountedQueue

/-- Whether no further error is taken. -/
def limitReached (q : CountedQueue) : Bool :=
  0 < q.policy.errorLimit && q.policy.errorLimit ≤ q.errorCount

/-- Whether any error is kept. -/
def hasErrors (q : CountedQueue) : Bool := 0 < q.errorCount

/-- Add a diagnostic. The truth value says whether it is kept. -/
def add (q : CountedQueue) (d : Diagnostic) : Bool × CountedQueue :=
  if d.isError && q.limitReached then (false, q)
  else if q.policy.refuseEqual && q.entries.contains d then (false, q)
  else (true, { q with
    entries := q.entries ++ [d]
    errorCount := if d.isError then q.errorCount + 1 else q.errorCount })

/-- Add diagnostics one after the other. -/
def extend (q : CountedQueue) (ds : List Diagnostic) : CountedQueue :=
  ds.foldl (fun q d => (q.add d).2) q

/-- Take the entries out. -/
def flush (q : CountedQueue) : List Diagnostic × CountedQueue :=
  (q.entries, { q with entries := [], errorCount := 0 })

/-- The queue after an event. -/
def step (q : CountedQueue) : QueueEvent → CountedQueue
  | .add d => (q.add d).2
  | .extend ds => q.extend ds
  | .flush => q.flush.2

/-- A new queue after a history. -/
def after (policy : QueuePolicy) (events : List QueueEvent) : CountedQueue :=
  events.foldl step { policy := policy }

end CountedQueue

/-- The same queue with the number of its errors kept. -/
def DiagnosticQueue.counted (q : DiagnosticQueue) : CountedQueue := ⟨q.policy, q.entries, q.errorCount⟩

namespace CountedQueue

open DiagnosticQueue

/-- The queue that counts accepts the same findings as the one that does not. -/
theorem add_counted (q : DiagnosticQueue) (d : Diagnostic) :
    q.counted.add d = (q.accepts d, (q.add d).counted) := by
  have hlimit : q.counted.limitReached = q.limitReached := rfl
  cases haccepts : q.accepts d with
  | true =>
    have hboth := haccepts
    simp only [accepts, Bool.and_eq_true, Bool.not_eq_true'] at hboth
    have hequal : (q.counted.policy.refuseEqual && q.counted.entries.contains d) = false := hboth.2
    have hcount : (q.add d).errorCount = if d.isError then q.errorCount + 1 else q.errorCount := by
      rw [DiagnosticQueue.errorCount, entries_add_of_accepts haccepts, List.countP_append,
        List.countP_singleton]
      cases d.isError <;> rfl
    have hpolicy : (q.add d).policy = q.policy := policy_addAll q [d]
    have hadded : (q.add d).counted =
        ⟨q.policy, q.entries ++ [d], if d.isError then q.errorCount + 1 else q.errorCount⟩ := by
      rw [counted, hpolicy, entries_add_of_accepts haccepts, hcount]
    rw [add, hlimit, hboth.1, hequal, hadded]
    rfl
  | false =>
    rw [add_of_refuses (accepts_eq_false_iff.1 haccepts), add, hlimit]
    split
    · rfl
    · rename_i hfree
      have hequal : (q.policy.refuseEqual && q.entries.contains d) = true := by
        simpa [accepts, Bool.eq_false_iff.2 hfree] using haccepts
      rw [show (q.counted.policy.refuseEqual && q.counted.entries.contains d) = true from hequal]
      rfl

/-- The queue that counts takes a list of findings as the one that does not. -/
theorem extend_counted (q : DiagnosticQueue) (ds : List Diagnostic) :
    q.counted.extend ds = (q.addAll ds).counted := by
  induction ds generalizing q with
  | nil => rfl
  | cons d ds ih =>
    rw [extend, List.foldl_cons, ← extend, add_counted, ih]
    rfl

/-- The queue that counts gives the same entries when it is flushed. -/
theorem flush_counted (q : DiagnosticQueue) : q.counted.flush = (q.entries, q.emptied.counted) := rfl

/-- An event leads from the queue of what was added to the queue of what is added then. -/
theorem step_counted (policy : QueuePolicy) (added : List Diagnostic) (event : QueueEvent) :
    (addAll { policy := policy } added).counted.step event =
      (addAll { policy := policy } (event.note added)).counted := by
  cases event with
  | add d =>
    rw [step, add_counted, QueueEvent.note, addAll_append]
    rfl
  | extend ds => rw [step, extend_counted, QueueEvent.note, addAll_append]
  | flush =>
    rw [step, flush_counted, emptied, policy_addAll]
    rfl

/-- A queue after a history is the queue of what was added since it was last emptied. -/
theorem after_eq (policy : QueuePolicy) (events : List QueueEvent) :
    after policy events = (addAll { policy := policy } (sinceFlush events)).counted := by
  have hrun : ∀ added : List Diagnostic, events.foldl step (addAll { policy := policy } added).counted =
      (addAll { policy := policy } (events.foldl QueueEvent.note added)).counted := by
    induction events with
    | nil => exact fun _ => rfl
    | cons event events ih =>
      intro added
      rw [List.foldl_cons, List.foldl_cons, step_counted, ih]
  exact hrun []

/-- What a queue holds at any moment, told on what was added to it since it was last emptied. -/
structure Filters (policy : QueuePolicy) (added : List Diagnostic) (q : CountedQueue) : Prop where
  /-- The entries are some of what was added, in the order in which it was. -/
  sublist : q.entries.Sublist added
  /-- The count is that of the errors among the entries. -/
  count : q.errorCount = q.entries.countP (·.isError)
  /-- There are no more errors than allowed. -/
  le_limit : policy.errorLimit ≠ 0 → q.errorCount ≤ policy.errorLimit
  /-- Where equal diagnostics are refused there are no two. -/
  nodup : policy.refuseEqual = true → q.entries.Nodup
  /-- What is not kept in its place was refused: it was an error when as many as allowed were kept, or
  it was equal to an entry before it. -/
  kept_or_refused : ∀ before d rest, added = before ++ d :: rest →
    let earlier := (CountedQueue.mk policy [] 0).extend before
    ∃ later, q.entries = earlier.entries ++ d :: later ∨ q.entries = earlier.entries ++ later ∧
      (d.isError = true ∧ earlier.limitReached = true ∨
        policy.refuseEqual = true ∧ d ∈ earlier.entries)
  /-- There are errors if any was added, also one that was refused. -/
  hasErrors_iff : q.hasErrors = true ↔ ∃ d ∈ added, d.isError = true

/-- After any events a queue holds what its policy lets through since the last flush. -/
theorem filters_after (policy : QueuePolicy) (events : List QueueEvent) :
    Filters policy (sinceFlush events) (after policy events) := by
  have hpolicy (ds : List Diagnostic) :
      (addAll { policy := policy } ds).policy = policy := policy_addAll _ ds
  rw [after_eq]
  refine ⟨?_, rfl, fun hlimit => ?_, fun hrefuse => ?_, ?_, ?_⟩
  · obtain ⟨kept, heq, hsub⟩ := exists_entries_addAll { policy := policy } (sinceFlush events)
    have hentries : (addAll { policy := policy } (sinceFlush events)).counted.entries = kept :=
      heq.trans (List.nil_append kept)
    rw [hentries]
    exact hsub
  · exact errorCount_addAll_le (q := { policy := policy }) hlimit (Nat.zero_le _) _
  · exact nodup_addAll (q := { policy := policy }) hrefuse List.nodup_nil _
  · intro before d rest hadded
    dsimp only
    rw [show CountedQueue.mk policy [] 0 = DiagnosticQueue.counted { policy := policy } from rfl,
      extend_counted, hadded]
    obtain ⟨later, hkept | ⟨hrefuses, hdropped⟩⟩ :=
      DiagnosticQueue.kept_or_refused { policy := policy } before d rest
    · exact ⟨later, .inl hkept⟩
    · refine ⟨later, .inr ⟨hdropped, hrefuses.imp_right fun h => ⟨?_, h.2⟩⟩⟩
      rw [← hpolicy before]
      exact h.1
  · refine hasErrors_addAll_iff.trans ⟨fun h => h.resolve_left nofun, .inr⟩

end CountedQueue

end ExpLang
