import ExpLang.Checking.Basic
import ExpLang.Evaluation.Run
import ExpLang.Proofs.Diagnostic.Errors
import Mathlib.Data.List.Induction
import Mathlib.Tactic.ByContra

/-!
# Numbers of arguments

A call is checked for the number of its arguments, and when the program runs its arguments are bound
to the parameters of the method. The check counts down to the last parameter without a default; the
run goes through the parameters after the last argument and evaluates their defaults. Wherever
defaults stand among the parameters the two agree: what the check accepts is bound, as far as the
defaults have values, and what it reports is not bound. A default may still fail, and may also make
a call with a wrong number of arguments itself, but then it is the default that fails and not the
binding.
-/

namespace ExpLang

open Resolved Evaluation Checking

/-- The values of the parameters from a position on, where there is one. -/
def Resolved.MethodDef.defaultsFrom (m : MethodDef) (n : Nat) : List Expr :=
  (m.params.toList.drop n).filterMap (·.default)

/-! ## The least number -/

/-- What stands behind the last element without a property, counted from a position on. -/
theorem length_sub_takeWhile_reverse_le_iff {α : Type} (p : α → Bool) (l : List α) (n : Nat) :
    l.length - (l.reverse.takeWhile p).length ≤ n ↔ ∀ a ∈ l.drop n, p a = true := by
  induction l using List.reverseRecOn with
  | nil => simp
  | append_singleton l a ih =>
    have hlast : a ∈ [a].drop (n - l.length) ↔ n ≤ l.length := by
      cases h : n - l.length <;> simp <;> omega
    rw [List.reverse_append, List.reverse_singleton, List.singleton_append, List.takeWhile_cons,
      List.length_append, List.length_singleton, List.drop_append]
    cases ha : p a with
    | true =>
      rw [if_pos rfl, List.length_cons, Nat.add_sub_add_right, ih]
      refine ⟨fun h b hb => ?_, fun h b hb => h b (List.mem_append_left _ hb)⟩
      rcases List.mem_append.1 hb with hb | hb
      · exact h b hb
      · rw [List.mem_singleton.1 (List.mem_of_mem_drop hb), ha]
    | false =>
      rw [if_neg Bool.false_ne_true, List.length_nil, Nat.sub_zero]
      constructor
      · intro hle b hb
        rw [List.drop_eq_nil_of_le (by omega), List.drop_eq_nil_of_le (by simp; omega)] at hb
        cases hb
      · intro h
        by_contra hlt
        have hfalse := h a (List.mem_append_right _ (hlast.2 (by omega)))
        rw [ha] at hfalse
        cases hfalse

/-- A number of arguments is enough if and only if all parameters behind them have defaults. -/
theorem Checking.leastArguments_le_iff (m : MethodDef) (n : Nat) :
    leastArguments m ≤ n ↔ ∀ p ∈ m.params.toList.drop n, p.default.isSome = true :=
  length_sub_takeWhile_reverse_le_iff (fun p : ParamDef => p.default.isSome) m.params.toList n

/-- Parameters that all have defaults have as many defaults. -/
theorem length_filterMap_default {params : List ParamDef}
    (h : ∀ p ∈ params, p.default.isSome = true) :
    (params.filterMap (·.default)).length = params.length := by
  induction params with
  | nil => rfl
  | cons p rest ih =>
    obtain ⟨hp, hrest⟩ := List.forall_mem_cons.1 h
    obtain ⟨e, he⟩ := Option.isSome_iff_exists.1 hp
    rw [List.filterMap_cons, he, List.length_cons, List.length_cons, ih hrest]

/-! ## Binding -/

namespace Evaluation

variable {entry : Entry} {m : MethodDef} {this : Option ObjectRef}

/-- Steps one after the other have a result only if the first one has. -/
theorem exists_of_bind_eq_ok {α β : Type} {x : Eval α} {f : α → Eval β} {b : β}
    {mach mach' : Machine} (h : (x >>= f) mach = (.ok b, mach')) :
    ∃ a mach₁, x mach = (.ok a, mach₁) ∧ f a mach₁ = (.ok b, mach') := by
  cases hx : x mach with
  | mk r mach₁ =>
    rw [bind_of_run hx] at h
    cases r with
    | error stop => cases h
    | ok a => exact ⟨a, mach₁, rfl, h⟩

/-- Parameters with defaults get the values of these, one after the other. -/
theorem defaultArgs_eq_mapM {params : List ParamDef} (h : ∀ p ∈ params, p.default.isSome = true)
    (given : Nat) :
    defaultArgs entry m given this params =
      (params.filterMap (·.default)).mapM (entry.value { this := this }) := by
  induction params with
  | nil => rfl
  | cons p rest ih =>
    obtain ⟨hp, hrest⟩ := List.forall_mem_cons.1 h
    obtain ⟨e, he⟩ := Option.isSome_iff_exists.1 hp
    rw [List.filterMap_cons, he, List.mapM_cons, defaultArgs, he, ih hrest]

/-- A parameter without a default gets no value. -/
theorem defaultArgs_ne_ok {params : List ParamDef} {p : ParamDef} (hp : p ∈ params)
    (hdefault : p.default = none) (given : Nat) (mach mach' : Machine) (values : List Value) :
    defaultArgs entry m given this params mach ≠ (.ok values, mach') := by
  induction params generalizing mach mach' values with
  | nil => cases hp
  | cons q rest ih =>
    intro hrun
    unfold defaultArgs at hrun
    cases hq : q.default with
    | none =>
      rw [hq] at hrun
      cases hrun
    | some e =>
      rcases List.mem_cons.1 hp with rfl | hp
      · rw [hdefault] at hq
        cases hq
      rw [hq] at hrun
      obtain ⟨value, mach₁, -, hrun⟩ := exists_of_bind_eq_ok hrun
      obtain ⟨others, mach₂, hrest, -⟩ := exists_of_bind_eq_ok hrun
      exact ih hp _ _ _ hrest

/-- Steps for the elements of a list have as many results, or stop where one of them stops. -/
theorem exists_mapM {α β : Type} (f : α → Eval β) (as : List α) (mach : Machine) :
    ∃ r mach', as.mapM f mach = (r, mach') ∧
      (∀ bs, r = .ok bs → bs.length = as.length) ∧
      ∀ stop, r = .error stop → ∃ a ∈ as, ∃ mach₁, f a mach₁ = (.error stop, mach') := by
  induction as generalizing mach with
  | nil =>
    refine ⟨.ok [], mach, rfl, fun bs heq => ?_, nofun⟩
    cases heq
    rfl
  | cons a as ih =>
    rw [List.mapM_cons]
    cases hfirst : f a mach with
    | mk r mach₁ =>
      rw [bind_of_run hfirst]
      cases r with
      | error stop =>
        refine ⟨.error stop, mach₁, rfl, nofun, fun stop' heq => ?_⟩
        cases heq
        exact ⟨a, List.mem_cons_self, mach, hfirst⟩
      | ok b =>
        obtain ⟨r, mach', hrest, hlength, hstop⟩ := ih mach₁
        change ∃ r mach', (as.mapM f >>= _) mach₁ = (r, mach') ∧ _
        rw [bind_of_run hrest]
        cases r with
        | error stop =>
          refine ⟨.error stop, mach', rfl, nofun, fun stop' heq => ?_⟩
          cases heq
          obtain ⟨a', hmem, hrun⟩ := hstop stop rfl
          exact ⟨a', List.mem_cons_of_mem _ hmem, hrun⟩
        | ok bs =>
          refine ⟨.ok (b :: bs), mach', rfl, fun bs' heq => ?_, nofun⟩
          cases heq
          rw [List.length_cons, List.length_cons, hlength bs rfl]

/-- Where the parameters behind the arguments have defaults, the arguments are bound if these have
values, and otherwise the first that has none is what fails. -/
theorem bindArgs_of_forall {args : List Value} (hle : args.length ≤ m.params.size)
    (h : ∀ p ∈ m.params.toList.drop args.length, p.default.isSome = true) (mach : Machine) :
    ∃ r mach', (m.defaultsFrom args.length).mapM (entry.value { this := this }) mach = (r, mach') ∧
      bindArgs entry m this args mach = (r.map (args ++ ·), mach') ∧
      (∀ values, r = .ok values → (args ++ values).length = m.params.size) ∧
      ∀ stop, r = .error stop → ∃ e ∈ m.defaultsFrom args.length, ∃ mach₁,
        entry.value { this := this } e mach₁ = (.error stop, mach') := by
  obtain ⟨r, mach', hrun, hlength, hstop⟩ :=
    exists_mapM (entry.value { this := this }) (m.defaultsFrom args.length) mach
  refine ⟨r, mach', hrun, ?_, fun values hr => ?_, hstop⟩
  · unfold bindArgs
    rw [if_neg (Nat.not_lt.2 hle), defaultArgs_eq_mapM h]
    change ((m.defaultsFrom args.length).mapM (entry.value { this := this }) >>= _) mach = _
    rw [bind_of_run hrun]
    cases r <;> rfl
  · rw [List.length_append, hlength values hr, MethodDef.defaultsFrom, length_filterMap_default h,
      List.length_drop]
    exact Nat.add_sub_of_le hle

/-- Arguments are not bound where there are too many, or where a parameter behind them has no
default. -/
theorem bindArgs_ne_ok {args : List Value}
    (h : m.params.size < args.length ∨ ∃ p ∈ m.params.toList.drop args.length, p.default = none)
    (mach mach' : Machine) (values : List Value) :
    bindArgs entry m this args mach ≠ (.ok values, mach') := by
  intro hrun
  unfold bindArgs at hrun
  by_cases hlt : m.params.size < args.length
  · rw [if_pos hlt] at hrun
    cases hrun
  · obtain ⟨p, hp, hdefault⟩ := h.resolve_left hlt
    rw [if_neg hlt] at hrun
    obtain ⟨others, mach₁, hrest, -⟩ := exists_of_bind_eq_ok hrun
    exact defaultArgs_ne_ok hp hdefault _ _ _ _ hrest

end Evaluation

/-! ## The check and the run -/

/-- The check of a number of arguments reports one thing or nothing, whatever the queue holds. -/
theorem Checking.checkObligation_argumentCount (u : CodeUnit) (id : MethodId) (given : Nat) (span : Span)
    (queue : DiagnosticQueue) :
    checkObligation (.argumentCount id given span) ⟨u, queue⟩ = some ((), ⟨u, queue.addAll
      (if given < leastArguments (u.getMethod id) ∨ (u.getMethod id).params.size < given then
        [.argumentCount span (u.getMethod id).name (leastArguments (u.getMethod id))
          (u.getMethod id).params.size given]
      else [])⟩) := by
  change (if given < leastArguments (u.getMethod id) ∨ (u.getMethod id).params.size < given then
    report _ else pure () : Check Unit) _ = _
  split <;> rfl

/-- A call of a method is checked for the number of its arguments. If nothing is reported, then as
many arguments are bound when the program runs, each parameter to one value and the arguments first,
unless one of the missing defaults fails, and then it is the default that fails. If something is
reported, which is always that the number is wrong, then the arguments are not bound. -/
theorem bindArgs_agrees_with_check (u : CodeUnit) {callee : Expr} {id : MethodId}
    (hcallee : calledMethod? callee = some id) (given : List Expr) (info : Info) :
    .argumentCount id given.length info.span ∈ exprObligations (.call callee given info) ∧
    ∃ ds : List Diagnostic,
      (∀ queue, checkObligation (.argumentCount id given.length info.span) ⟨u, queue⟩ =
        some ((), ⟨u, queue.addAll ds⟩)) ∧
      (∀ d ∈ ds, d.code = .argumentCount) ∧
      ∀ (entry : Entry) (this : Option ObjectRef) (args : List Value) (m : Machine),
        args.length = given.length →
        (ds = [] → ∃ r m',
          ((u.getMethod id).defaultsFrom args.length).mapM (entry.value { this := this }) m = (r, m') ∧
          bindArgs entry (u.getMethod id) this args m = (r.map (args ++ ·), m') ∧
          (∀ values, r = .ok values → (args ++ values).length = (u.getMethod id).params.size) ∧
          ∀ stop, r = .error stop → ∃ e ∈ (u.getMethod id).defaultsFrom args.length, ∃ m₁,
            entry.value { this := this } e m₁ = (.error stop, m')) ∧
        (ds ≠ [] → ∀ values m', bindArgs entry (u.getMethod id) this args m ≠ (.ok values, m')) := by
  refine ⟨?_, _, checkObligation_argumentCount u id given.length info.span, fun d hd => ?_,
    fun entry this args m hargs => ?_⟩
  · rw [exprObligations, hcallee]
    exact List.mem_cons_self
  · split at hd
    · rw [List.mem_singleton.1 hd]
      rfl
    · cases hd
  rw [← hargs]
  have hleast := leastArguments_le_iff (u.getMethod id) args.length
  split
  · rename_i hrefused
    refine ⟨nofun, fun _ values m' => bindArgs_ne_ok ?_ m m' values⟩
    rcases hrefused with hfew | hmany
    · rw [← Nat.not_le, hleast] at hfew
      right
      by_contra hall
      exact hfew fun p hp => Option.isSome_iff_ne_none.2 fun hdefault => hall ⟨p, hp, hdefault⟩
    · exact .inl hmany
  · rename_i haccepted
    obtain ⟨henough, hle⟩ := not_or.1 haccepted
    refine ⟨fun _ => ?_, fun hne => absurd rfl hne⟩
    exact bindArgs_of_forall (Nat.not_lt.1 hle) (hleast.1 (Nat.not_lt.1 henough)) m

/-- A method with defaults for its second and its last parameter. -/
def mixedDefaults : CodeUnit :=
  { CodeUnit.empty with methods := #[{ (default : MethodDef) with params := #[
      ⟨"a", Primitive.int.id, none⟩, ⟨"b", Primitive.int.id, some (.literal (.int 1) default)⟩,
      ⟨"c", Primitive.int.id, none⟩, ⟨"d", Primitive.int.id, some (.literal (.int 2) default)⟩] }] }

/-- Three arguments are bound with the last default. Two are not bound, though the second parameter
has a default. -/
theorem bindArgs_agrees_with_check_mixedDefaults :
    calledMethod? (.member (.method 0) default) = some 0 ∧
    (∃ m', bindArgs (.fuelled ⟨mixedDefaults, 1⟩ 1) (mixedDefaults.getMethod 0) none
      [.int 7, .int 8, .int 9] {} = (.ok [.int 7, .int 8, .int 9, .int 2], m')) ∧
    ∀ values m', bindArgs (.fuelled ⟨mixedDefaults, 1⟩ 1) (mixedDefaults.getMethod 0) none
      [.int 7, .int 8] {} ≠ (.ok values, m') := by
  have hcallee : calledMethod? (.member (.method 0) default) = some 0 := rfl
  have hagrees (n : Nat) := bindArgs_agrees_with_check mixedDefaults hcallee
    (List.replicate n default) default
  have hfound (n : Nat) {ds : List Diagnostic} (hcheck : ∀ queue, checkObligation
      (.argumentCount 0 n default) ⟨mixedDefaults, queue⟩ =
        some ((), ⟨mixedDefaults, queue.addAll ds⟩)) :
      (checkObligation (.argumentCount 0 n default) ⟨mixedDefaults, { policy := .unlimited }⟩).map
        (·.2.queue.entries) = some ds := by
    rw [hcheck, Option.map_some, DiagnosticQueue.entries_addAll rfl, List.nil_append]
  refine ⟨hcallee, ?_, ?_⟩
  · obtain ⟨-, ds, hcheck, -, hbinds⟩ := hagrees 3
    have hnone : ds = [] := Option.some.inj (hfound 3 hcheck).symm
    obtain ⟨r, m', hrun, hbind, -⟩ := (hbinds (.fuelled ⟨mixedDefaults, 1⟩ 1) none
      [.int 7, .int 8, .int 9] {} rfl).1 hnone
    cases hrun
    exact ⟨_, hbind⟩
  · obtain ⟨-, ds, hcheck, -, hbinds⟩ := hagrees 2
    refine (hbinds _ none [.int 7, .int 8] {} rfl).2 fun hnone => ?_
    have hsome := Option.some.inj (hfound 2 hcheck)
    rw [hnone] at hsome
    cases hsome

end ExpLang
