import ExpLang.Proofs.Checking.Inference
import ExpLang.Proofs.Reports.Looks

/-!
# What checking a unit reports

Checking reports findings and never looks at those before, as lowering does. What it reports about types
is reported by a comparison that it comes to, of two types that do not go with one another: both are
firm at that moment, since a type that goes with everything goes with the other one.
-/

namespace ExpLang

/-- Types that do not go with one another are firm. -/
theorem TypePool.firm_of_canAssign {pool pool' : TypePool} {target given : TypeId}
    (h : canAssign target given pool = some (false, pool')) : pool.Firm target ∧ pool.Firm given := by
  change canAssignWithin pool.compareDepth target given pool = _ at h
  rw [compareDepth, canAssignWithin_succ] at h
  split at h
  · cases h
  split at h
  · cases h
  split at h
  · cases h
  split at h
  · cases h
  · rename_i hfirm
    simpa only [Firm, Bool.or_eq_true, not_or, Bool.not_eq_true] using hfirm

namespace Checking

open Resolved

variable {α β : Type} {u : CodeUnit} {queue : DiagnosticQueue} {s s' : State} {ds : List Diagnostic}

/-- A state with other findings so far. -/
def State.withQueue (s : State) (q : DiagnosticQueue) : State := { s with queue := q }

/-- Whatever was found before, a check from a state ends with a result in a state and reports some
findings. -/
structure Tells (x : Check α) (s : State) (a : α) (s' : State) (ds : List Diagnostic) : Prop where
  of_queue : ∀ q, x (s.withQueue q) = some (a, s'.withQueue (q.addAll ds))

/-- What a check does is the same whatever was found before, and something holds of what it ends with
and reports. -/
inductive Steady (x : Check α) (s : State) (Q : α → State → List Diagnostic → Prop) : Prop
  | stops : (∀ q, x (s.withQueue q) = none) → Steady x s Q
  | tells {a s' ds} : Tells x s a s' ds → Q a s' ds → Steady x s Q

/-- What a check tells is told in one way only. -/
theorem Tells.unique {x : Check α} {a a' : α} {s₁ s₂ : State} {ds₁ ds₂ : List Diagnostic}
    (h₁ : Tells x s a s₁ ds₁) (h₂ : Tells x s a' s₂ ds₂) :
    a = a' ∧ s₁.unit = s₂.unit ∧ ds₁ = ds₂ := by
  have heq := (h₁.of_queue { policy := .unlimited }).symm.trans
    (h₂.of_queue { policy := .unlimited })
  obtain ⟨ha, hs⟩ := Prod.mk.inj (Option.some.inj heq)
  have hentries := congrArg (fun s => s.queue.entries) hs
  simp only [State.withQueue, DiagnosticQueue.entries_addAll, List.nil_append] at hentries
  have hunit := congrArg (fun s => s.unit) hs
  exact ⟨ha, hunit, hentries⟩

variable {Q : α → State → List Diagnostic → Prop}

/-- A check that is decided already is steady. -/
theorem steady_pure {a : α} (h : Q a s []) : Steady (pure a) s Q := .tells ⟨fun _ => rfl⟩ h

/-- A report is steady, with its finding. -/
theorem steady_report {d : Diagnostic} {Q : Unit → State → List Diagnostic → Prop}
    (h : Q () s [d]) : Steady (report d) s Q := .tells ⟨fun _ => rfl⟩ h

/-- Looking at the unit changes nothing. -/
theorem steady_get_bind {f : State → Check α} (hf : ∀ q, f (s.withQueue q) = f s)
    (h : Steady (f s) s Q) : Steady (get >>= f) s Q := by
  have hrun (q : DiagnosticQueue) : (get >>= f) (s.withQueue q) = f s (s.withQueue q) :=
    congrFun (hf q) (s.withQueue q)
  cases h with
  | stops hstop => exact .stops fun q => (hrun q).trans (hstop q)
  | tells htells hq => exact .tells ⟨fun q => (hrun q).trans (htells.of_queue q)⟩ hq

/-- The text of a type. -/
theorem steady_typeName_bind {id : TypeId} {f : String → Check α}
    (h : ∀ name, s.unit.typeName? id = some name → Steady (f name) s Q) :
    Steady (typeName id >>= f) s Q := by
  have hrun (q : DiagnosticQueue) : (typeName id >>= f) (s.withQueue q) =
      (s.unit.typeName? id).bind fun name => f name (s.withQueue q) := by
    change ((s.unit.typeName? id).bind fun name => some (name, s.withQueue q)).bind
      (fun r => f r.1 r.2) = _
    rw [Option.bind_assoc]
    rfl
  cases hname : s.unit.typeName? id with
  | none => exact .stops fun q => by rw [hrun, hname, Option.bind_none]
  | some name =>
    simp only [hname, Option.bind_some] at hrun
    cases h name hname with
    | stops hstop => exact .stops fun q => (hrun q).trans (hstop q)
    | tells htells hq => exact .tells ⟨fun q => (hrun q).trans (htells.of_queue q)⟩ hq

/-- A comparison of two types binds holes and reports nothing by itself. -/
theorem steady_canAssign_bind {target given : TypeId} {f : Bool → Check α}
    (h : ∀ verdict types, TypePool.canAssign target given s.unit.types = some (verdict, types) →
      Steady (f verdict) (s.withTypes types) Q) : Steady (canAssign target given >>= f) s Q := by
  have hrun (q : DiagnosticQueue) : (canAssign target given >>= f) (s.withQueue q) =
      (TypePool.canAssign target given s.unit.types).bind fun r =>
        f r.1 ((s.withTypes r.2).withQueue q) := by
    change (((TypePool.canAssign target given s.unit.types).bind
      fun r => some (r, s.withQueue q)).bind
        fun r => some (r.1.1, (s.withTypes r.1.2).withQueue q)).bind (fun r => f r.1 r.2) = _
    rw [Option.bind_assoc, Option.bind_assoc]
    rfl
  cases hcan : TypePool.canAssign target given s.unit.types with
  | none => exact .stops fun q => by rw [hrun, hcan, Option.bind_none]
  | some r =>
    simp only [hcan, Option.bind_some] at hrun
    cases h r.1 r.2 hcan with
    | stops hstop => exact .stops fun q => (hrun q).trans (hstop q)
    | tells htells hq => exact .tells ⟨fun q => (hrun q).trans (htells.of_queue q)⟩ hq

/-! ## Comparisons -/

/-- Compare the types of a use. -/
def Use.check (use : Use) : Check Unit :=
  checkAssignable use.target use.given use.span use.context

/-- A finding of a use, justified by the unit at that moment: it names the two types, and both are
firm. -/
structure Use.Justifies (u : CodeUnit) (use : Use) (d : Diagnostic) : Prop where
  complains : ∃ expected found, u.typeName? use.target = some expected ∧
    u.typeName? use.given = some found ∧ d = .typeMismatch use.span expected found use.context
  target_firm : u.types.Firm use.target
  given_firm : u.types.Firm use.given

/-- Whatever a comparison reports is justified by the unit at that moment. -/
theorem Use.steady (use : Use) (hs : s.unit.types.Valid) :
    Steady use.check s fun _ s' ds => ∀ d ∈ ds, use.Justifies s'.unit d := by
  refine steady_canAssign_bind fun verdict types hcan => ?_
  cases verdict with
  | true => exact steady_pure nofun
  | false =>
    -- the verdict stands for the types that the comparison ends with
    obtain ⟨-, hagain⟩ := TypePool.stable_canAssign _ _ _ _ _ hs hcan
    obtain ⟨htarget, hgiven⟩ := TypePool.firm_of_canAssign (hagain types .refl)
    refine steady_typeName_bind fun expected hexpected =>
      steady_typeName_bind fun found hfound => steady_report fun d hd => ?_
    cases List.mem_singleton.1 hd
    exact ⟨⟨expected, found, hexpected, hfound, rfl⟩, htarget, hgiven⟩

/-- What the check of a use tells is justified by the types it leaves. -/
theorem Use.justifies_of_tells {use : Use} (hs : s.unit.types.Valid)
    (h : Tells use.check s () s' ds) : ∀ d ∈ ds, use.Justifies s'.unit d := by
  cases use.steady hs with
  | stops hstop => exact absurd ((hstop s.queue).symm.trans (h.of_queue s.queue)) nofun
  | tells htells hds =>
    obtain ⟨-, hunit, rfl⟩ := h.unique htells
    exact hunit ▸ hds

/-- The arguments of a call are compared with the parameters one after the other. -/
theorem checkArguments_eq (params : List TypeId) (given : List (TypeId × Span)) :
    checkArguments params given = (argumentUses params given).forM Use.check := by
  induction params generalizing given with
  | nil => rfl
  | cons param params ih =>
    cases given with
    | nil => rfl
    | cons arg given => exact bind_congr fun _ => ih given

/-! ## The comparisons of a unit -/

/-- Checking a unit comes to a comparison in a state. -/
inductive Compares (u : CodeUnit) (queue : DiagnosticQueue) : Use → State → Prop
  | assignable {before target given span context after s} :
      obligations u = before ++ .assignable target given span context :: after →
      before.forM checkObligation ⟨u, queue⟩ = some ((), s) →
      Compares u queue ⟨target, given, span, context⟩ s
  | argument {before callee args after ret params first use rest s s'} :
      obligations u = before ++ .arguments callee args :: after →
      before.forM checkObligation ⟨u, queue⟩ = some ((), s) →
      s.unit.types.get (s.unit.types.resolve callee) = .function ret params →
      argumentUses params args = first ++ use :: rest →
      first.forM Use.check s = some ((), s') →
      Compares u queue use s'

/-- If a finding is about types, a comparison that checking comes to reports it. -/
def Accounted (u : CodeUnit) (queue : DiagnosticQueue) (d : Diagnostic) : Prop :=
  d.code.isAboutTypes = true →
    ∃ use s s' ds, Compares u queue use s ∧ Tells use.check s () s' ds ∧ d ∈ ds

/-- A check that is steady, and all of whose findings about types are reported by comparisons. -/
abbrev Accounts (u : CodeUnit) (queue : DiagnosticQueue) (s : State) (x : Check Unit) : Prop :=
  Steady x s fun _ _ ds => ∀ d ∈ ds, Accounted u queue d

/-- A check after another one begins in the state in which that one ends. -/
theorem Steady.andThen {x : Check Unit} {f : Unit → Check Unit} (hx : Accounts u queue s x)
    (hf : ∀ s', x s = some ((), s') → Accounts u queue s' (f ())) :
    Accounts u queue s (x >>= f) := by
  have hrun {q : DiagnosticQueue} {s' : State} (h : x (s.withQueue q) = some ((), s')) :
      (x >>= f) (s.withQueue q) = f () s' := by
    change (x (s.withQueue q)).bind (fun r => f r.1 r.2) = _
    rw [h]
    rfl
  cases hx with
  | stops hstop =>
    refine .stops fun q => ?_
    change (x (s.withQueue q)).bind (fun r => f r.1 r.2) = _
    rw [hstop]
    rfl
  | @tells _ s' ds htells hds =>
    cases hf _ (htells.of_queue s.queue) with
    | stops hstop => exact .stops fun q => (hrun (htells.of_queue q)).trans (hstop _)
    | @tells _ s'' ds' htells' hds' =>
      have hboth : Tells (x >>= f) s () s'' (ds ++ ds') := by
        constructor
        intro q
        rw [hrun (htells.of_queue q), DiagnosticQueue.addAll_append]
        exact htells'.of_queue _
      exact .tells hboth fun d hd => (List.mem_append.1 hd).elim (hds d) (hds' d)

/-- A finding that is not about types. -/
theorem accounted_of_code {d : Diagnostic} (hd : d.code.isAboutTypes = false) :
    ∀ d' ∈ [d], Accounted u queue d' := by
  intro d' hd' habout
  rw [List.mem_singleton.1 hd', hd] at habout
  cases habout

/-- A comparison that checking comes to accounts for its findings. -/
theorem Compares.accounts {use : Use} (hs : s.unit.types.Valid) (h : Compares u queue use s) :
    Accounts u queue s use.check := by
  cases use.steady hs with
  | stops hstop => exact .stops hstop
  | tells htells _ => exact .tells htells fun d hd _ => ⟨_, _, _, _, h, htells, hd⟩

/-! ## Walks -/

section Walks

variable {γ : Type} {f : γ → Check Unit}

/-- Checks for a list and then for one more element are checks for the longer list. -/
theorem forM_snoc {as : List γ} {a : γ} {s'' : State} (h : as.forM f s = some ((), s'))
    (ha : f a s' = some ((), s'')) : (as ++ [a]).forM f s = some ((), s'') := by
  rw [List.forM_eq_forM, List.forM_append]
  change (forM as f s).bind (fun r => (forM [a] f) r.2) = _
  rw [show forM as f s = some ((), s') from h]
  change (f a s').bind (fun r => some ((), r.2)) = _
  rw [ha]
  rfl

/-- What a walk reports about types is reported by comparisons if that holds of each step that it comes
to. -/
theorem forM_accounts {all : List γ} {s₀ : State}
    (hstep : ∀ {first a rest s}, all = first ++ a :: rest → first.forM f s₀ = some ((), s) →
      Accounts u queue s (f a)) (rest : List γ) {first : List γ} {s : State}
    (hsplit : all = first ++ rest) (hfirst : first.forM f s₀ = some ((), s)) :
    Accounts u queue s (rest.forM f) := by
  induction rest generalizing first s with
  | nil => exact steady_pure nofun
  | cons a rest ih =>
    change Accounts u queue s (f a >>= fun _ => rest.forM f)
    refine (hstep hsplit hfirst).andThen fun s' hrun => ?_
    exact ih (hsplit.trans (List.append_cons first a rest)) (forM_snoc hfirst hrun)

end Walks

/-- Comparisons keep the types in order. -/
theorem valid_of_uses (uses : List Use) {s : State} (hs : s.unit.types.Valid)
    (h : uses.forM Use.check s = some ((), s')) : s'.unit.types.Valid := by
  induction uses generalizing s with
  | nil =>
    cases h
    exact hs
  | cons use uses ih =>
    obtain ⟨⟨_, s₁⟩, hfirst, hrest⟩ := Option.bind_eq_some_iff.1 h
    obtain ⟨_, hextends, -⟩ := checkAssignable_extends hs hfirst
    exact ih (hextends.valid hs) hrest

/-- Comparisons are made of types that are in order. -/
theorem Compares.valid {use : Use} (hu : u.types.Valid) (h : Compares u queue use s) :
    s.unit.types.Valid := by
  cases h with
  | assignable _ hbefore =>
    obtain ⟨_, hextends⟩ := forM_extends _ hu hbefore
    exact hextends.valid hu
  | argument _ hbefore _ _ hfirst =>
    obtain ⟨_, hextends⟩ := forM_extends _ hu hbefore
    exact valid_of_uses _ (hextends.valid hu) hfirst

/-- What is reported about types at an obligation is reported by comparisons. -/
theorem checkObligation_accounts (hu : u.types.Valid) {before : List Obligation} {o : Obligation}
    {after : List Obligation} (hsplit : obligations u = before ++ o :: after)
    (hbefore : before.forM checkObligation ⟨u, queue⟩ = some ((), s)) :
    Accounts u queue s (checkObligation o) := by
  cases o with
  | assignable target given span context =>
    have hcompares : Compares u queue ⟨target, given, span, context⟩ s := .assignable hsplit hbefore
    have haccounts := hcompares.accounts (hcompares.valid hu)
    rw [checkObligation]
    exact haccounts
  | inferred type span name =>
    rw [checkObligation]
    refine steady_get_bind (fun _ => rfl) ?_
    split
    · exact steady_report (accounted_of_code rfl)
    · exact steady_pure nofun
  | argumentCount method given span =>
    rw [checkObligation]
    refine steady_get_bind (fun _ => rfl) ?_
    dsimp only
    split
    · exact steady_report (accounted_of_code rfl)
    · exact steady_pure nofun
  | arguments callee args =>
    rw [checkObligation]
    refine steady_get_bind (fun _ => rfl) ?_
    dsimp only
    split
    · rename_i ret params hcallee
      rw [checkArguments_eq]
      refine forM_accounts (fun huses hfirst => ?_) _ (List.nil_append _).symm rfl
      have hcompares := Compares.argument hsplit hbefore hcallee huses hfirst
      exact hcompares.accounts (hcompares.valid hu)
    · exact steady_pure nofun

/-- What checking does to a unit and reports about it is the same whatever was found before, and what is
reported about types is reported by comparisons. -/
theorem check_accounted (hu : u.types.Valid) (queue : DiagnosticQueue) :
    (∀ queue', check u queue' = none) ∨
    ∃ u' told, (∀ queue', check u queue' = some (u', queue'.addAll told)) ∧
      ∀ d ∈ told, Accounted u queue d := by
  have hrun (queue' : DiagnosticQueue) : check u queue' =
      ((obligations u).forM checkObligation ((State.mk u queue).withQueue queue')).map
        fun r => (r.2.unit, r.2.queue) := rfl
  have hall : Accounts u queue ⟨u, queue⟩ ((obligations u).forM checkObligation) :=
    forM_accounts (checkObligation_accounts hu) _ (List.nil_append _).symm rfl
  cases hall with
  | stops hstop => exact .inl fun queue' => by rw [hrun, hstop]; rfl
  | @tells _ s' told htells htold =>
    exact .inr ⟨s'.unit, told, fun queue' => by rw [hrun, htells.of_queue]; rfl, htold⟩

end Checking

end ExpLang
