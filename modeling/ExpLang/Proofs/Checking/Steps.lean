import Mathlib.Data.List.Forall2
import ExpLang.Checking.Basic
import ExpLang.Proofs.Diagnostic.Errors
import ExpLang.Proofs.Types.Assignable

/-!
# What checks do

A check binds holes of the unit and reports findings, and does nothing else: `State.Extends`. The
places at which an obligation has a value go where a type is wanted are its uses, which for a call
depend on what is known of its callee by then. Each use is decided once, and because comparing types
is stable, `Use.Decided` holds of the types that a walk ends with as soon as it holds of those right
after the comparison.
-/

namespace ExpLang.Checking

open Resolved

variable {s s' s'' : State} {ds ds' : List Diagnostic}

/-- Between two states holes were bound and findings reported. -/
structure State.Extends (s : State) (ds : List Diagnostic) (s' : State) : Prop where
  unit_eq : s'.unit = { s.unit with types := s'.unit.types }
  refines : s.unit.types.Refines s'.unit.types
  queue_eq : s'.queue = s.queue.addAll ds

namespace State.Extends

/-- A state extends itself without findings. -/
theorem refl (s : State) : s.Extends [] s := ⟨rfl, .refl, rfl⟩

/-- Findings made one after the other are made together. -/
theorem trans (h : s.Extends ds s') (h' : s'.Extends ds' s'') : s.Extends (ds ++ ds') s'' where
  unit_eq := by rw [h'.unit_eq, h.unit_eq]
  refines := h.refines.trans h'.refines
  queue_eq := by
    rw [h'.queue_eq, h.queue_eq, DiagnosticQueue.addAll, DiagnosticQueue.addAll,
      DiagnosticQueue.addAll, List.foldl_append]

/-- A report extends a state by its finding. -/
theorem report (s : State) (d : Diagnostic) :
    s.Extends [d] { s with queue := s.queue.add d } := ⟨rfl, .refl, rfl⟩

/-- An extension of a state with valid types has valid types. -/
theorem valid (h : s.Extends ds s') (hs : s.unit.types.Valid) : s'.unit.types.Valid :=
  h.refines.valid hs

end State.Extends

/-! ## Uses -/

/-- A value of a type goes where another type is wanted. -/
structure Use where
  /-- The type that is wanted. -/
  target : TypeId
  /-- The type of the value. -/
  given : TypeId
  /-- Where the value stands. -/
  span : Span
  /-- What the value is. -/
  context : String
  deriving DecidableEq, Repr, Inhabited

/-- The uses that arguments make of parameters, as far as there are both. -/
def argumentUses (params : List TypeId) (given : List (TypeId × Span)) : List Use :=
  params.zipWith (fun param arg => ⟨param, arg.1, arg.2, "argument"⟩) given

/-- The uses that an obligation is about. Those of a call are known if its callee is a function. -/
def Obligation.uses (types : TypePool) : Obligation → List Use
  | .assignable target given span context => [⟨target, given, span, context⟩]
  | .arguments callee given => match types.get (types.resolve callee) with
    | .function _ params => argumentUses params given
    | _ => []
  | .inferred _ _ _ | .argumentCount _ _ _ => []

/-- What is reported about a use is a mismatch if the types do not go with one another, and nothing if
they do. -/
inductive Use.Decided (types : TypePool) (use : Use) : List Diagnostic → Prop
  | accepted : TypePool.canAssign use.target use.given types = some (true, types) →
      Decided types use []
  | refused (expected found : String) :
      TypePool.canAssign use.target use.given types = some (false, types) →
      Decided types use [.typeMismatch use.span expected found use.context]

/-- What is decided about a use stays so when more holes are bound. -/
theorem Use.Decided.refines {types final : TypePool} {use : Use} (h : use.Decided types ds)
    (htypes : types.Valid) (hfinal : types.Refines final) : use.Decided final ds := by
  cases h with
  | accepted h =>
    exact .accepted ((TypePool.stable_canAssign _ _ types true types htypes h).2 final hfinal)
  | refused expected found h =>
    exact .refused expected found
      ((TypePool.stable_canAssign _ _ types false types htypes h).2 final hfinal)

/-! ## Single checks -/

/-- The state after holes of its unit were bound. -/
def State.withTypes (s : State) (types : TypePool) : State :=
  { s with unit := { s.unit with types := types } }

/-- Types with more holes bound extend a state without findings. -/
theorem State.extends_withTypes {types : TypePool} (h : s.unit.types.Refines types) :
    s.Extends [] (s.withTypes types) := ⟨rfl, h, rfl⟩

/-- A comparison that ends changes types at most, as the pool does. -/
theorem canAssign_eq_some {target given : TypeId} {verdict : Bool}
    (h : canAssign target given s = some (verdict, s')) :
    ∃ types, TypePool.canAssign target given s.unit.types = some (verdict, types) ∧
      s' = s.withTypes types := by
  obtain ⟨⟨⟨verdict', types⟩, s₁⟩, hlift, hset⟩ := Option.bind_eq_some_iff.1 h
  obtain ⟨r, hcan, hlift⟩ := Option.bind_eq_some_iff.1 hlift
  cases hlift
  cases hset
  exact ⟨types, hcan, rfl⟩

/-- Naming a type changes nothing. -/
theorem typeName_eq_some {id : TypeId} {name : String} (h : typeName id s = some (name, s')) :
    s' = s := by
  obtain ⟨_, -, hname⟩ := Option.bind_eq_some_iff.1 h
  cases hname
  rfl

/-- A comparison binds holes, and what is reported about the use is decided. -/
theorem checkAssignable_extends {target given : TypeId} {span : Span} {context : String}
    (hs : s.unit.types.Valid) (h : checkAssignable target given span context s = some ((), s')) :
    ∃ ds, s.Extends ds s' ∧ Use.Decided s'.unit.types ⟨target, given, span, context⟩ ds := by
  unfold checkAssignable at h
  obtain ⟨⟨verdict, s₁⟩, hcompare, hrest⟩ := Option.bind_eq_some_iff.1 h
  obtain ⟨types, hcan, rfl⟩ := canAssign_eq_some hcompare
  obtain ⟨hrefines, hagain⟩ := TypePool.stable_canAssign _ _ _ _ _ hs hcan
  have hextends := State.extends_withTypes hrefines
  have hfinal := hagain types .refl
  cases verdict with
  | true =>
    cases hrest
    exact ⟨[], hextends, .accepted hfinal⟩
  | false =>
    obtain ⟨⟨expected, s₂⟩, hexpected, hrest⟩ := Option.bind_eq_some_iff.1 hrest
    obtain ⟨⟨found, s₃⟩, hfound, hrest⟩ := Option.bind_eq_some_iff.1 hrest
    cases typeName_eq_some hexpected
    cases typeName_eq_some hfound
    cases hrest
    exact ⟨_, hextends.trans (.report _ _), .refused expected found hfinal⟩

/-- What is decided about uses stays so when more holes are bound. -/
theorem forall₂_decided_refines {types final : TypePool} {uses : List Use}
    {blocks : List (List Diagnostic)} (h : List.Forall₂ (Use.Decided types) uses blocks)
    (htypes : types.Valid) (hfinal : types.Refines final) :
    List.Forall₂ (Use.Decided final) uses blocks :=
  h.imp fun _ _ hdecided => hdecided.refines htypes hfinal

/-- Arguments are compared one after the other. -/
theorem checkArguments_extends (params : List TypeId) (given : List (TypeId × Span)) {s : State}
    (hs : s.unit.types.Valid) (h : checkArguments params given s = some ((), s')) :
    ∃ blocks : List (List Diagnostic), s.Extends blocks.flatten s' ∧
      List.Forall₂ (Use.Decided s'.unit.types) (argumentUses params given) blocks := by
  induction params generalizing given s with
  | nil =>
    cases h
    exact ⟨[], .refl _, .nil⟩
  | cons param params ih =>
    cases given with
    | nil =>
      cases h
      exact ⟨[], .refl _, .nil⟩
    | cons arg given =>
      obtain ⟨⟨_, s₁⟩, hfirst, hrest⟩ := Option.bind_eq_some_iff.1 h
      obtain ⟨ds, hextends, hdecided⟩ := checkAssignable_extends hs hfirst
      obtain ⟨blocks, hextends', hblocks⟩ := ih given (hextends.valid hs) hrest
      refine ⟨ds :: blocks, hextends.trans hextends', .cons ?_ hblocks⟩
      exact hdecided.refines (hextends.valid hs) hextends'.refines

/-! ## Walks -/

/-- The findings that types do not go with one another. -/
def mismatches (ds : List Diagnostic) : List Diagnostic :=
  ds.filter (·.code == .typeMismatch)

/-- The mismatches of two lists are those of the first and then those of the second. -/
theorem mismatches_append (ds ds' : List Diagnostic) :
    mismatches (ds ++ ds') = mismatches ds ++ mismatches ds' := List.filter_append ..

/-- The findings about a use are mismatches. -/
theorem Use.Decided.mismatches_eq {types : TypePool} {use : Use} (h : use.Decided types ds) :
    mismatches ds = ds := by
  cases h <;> rfl

/-- The findings about uses are mismatches, use by use. -/
theorem mismatches_flatten {types : TypePool} {uses : List Use} {blocks : List (List Diagnostic)}
    (h : List.Forall₂ (Use.Decided types) uses blocks) :
    mismatches blocks.flatten = blocks.flatten := by
  induction h with
  | nil => rfl
  | cons hdecided _ ih => rw [List.flatten_cons, mismatches_append, hdecided.mismatches_eq, ih]

/-- The mismatches that are reported about an obligation are those of its uses. -/
def Obligation.Decided (o : Obligation) (types final : TypePool) (ds : List Diagnostic) : Prop :=
  ∃ blocks : List (List Diagnostic), mismatches ds = blocks.flatten ∧
    List.Forall₂ (Use.Decided final) (o.uses types) blocks

/-- What is decided about an obligation stays decided when more holes are bound. -/
theorem Obligation.Decided.refines {o : Obligation} {types mid final : TypePool}
    (h : o.Decided types mid ds) (hmid : mid.Valid) (hfinal : mid.Refines final) :
    o.Decided types final ds := by
  obtain ⟨blocks, heq, hblocks⟩ := h
  exact ⟨blocks, heq, forall₂_decided_refines hblocks hmid hfinal⟩

/-- Looking at an obligation binds holes and reports, and the mismatches are those of its uses. -/
theorem checkObligation_extends {o : Obligation} (hs : s.unit.types.Valid)
    (h : checkObligation o s = some ((), s')) :
    ∃ ds, s.Extends ds s' ∧ o.Decided s.unit.types s'.unit.types ds := by
  cases o with
  | assignable target given span context =>
    obtain ⟨ds, hextends, hdecided⟩ := checkAssignable_extends hs h
    refine ⟨ds, hextends, [ds], ?_, .cons hdecided .nil⟩
    rw [hdecided.mismatches_eq, List.flatten_singleton]
  | inferred type span name =>
    change (if s.unit.types.isUnbound type = true then report (.cannotInfer span name)
      else pure () : Check Unit) s = some ((), s') at h
    split at h
    · cases h
      exact ⟨_, .report s _, [], rfl, .nil⟩
    · cases h
      exact ⟨[], .refl s, [], rfl, .nil⟩
  | argumentCount method given span =>
    change (if given < leastArguments (s.unit.getMethod method) ∨
        (s.unit.getMethod method).params.size < given then
      report (.argumentCount span (s.unit.getMethod method).name
        (leastArguments (s.unit.getMethod method)) (s.unit.getMethod method).params.size given)
      else pure () : Check Unit) s = some ((), s') at h
    split at h
    · cases h
      exact ⟨_, .report s _, [], rfl, .nil⟩
    · cases h
      exact ⟨[], .refl s, [], rfl, .nil⟩
  | arguments callee given =>
    change (match s.unit.types.get (s.unit.types.resolve callee) with
      | .function _ params => checkArguments params given
      | _ => pure () : Check Unit) s = some ((), s') at h
    simp only [Obligation.Decided, Obligation.uses]
    cases hcallee : s.unit.types.get (s.unit.types.resolve callee) with
    | function ret params =>
      rw [hcallee] at h
      obtain ⟨blocks, hextends, hblocks⟩ := checkArguments_extends _ given hs h
      exact ⟨_, hextends, blocks, mismatches_flatten hblocks, hblocks⟩
    | _ =>
      rw [hcallee] at h
      cases h
      exact ⟨[], .refl _, [], rfl, .nil⟩

/-- A walk that gets to its end gets through each part of it. -/
theorem forM_append_eq_some {os os' : List Obligation}
    (h : (os ++ os').forM checkObligation s = some ((), s')) :
    ∃ mid, os.forM checkObligation s = some ((), mid) ∧
      os'.forM checkObligation mid = some ((), s') := by
  simp only [List.forM_eq_forM, List.forM_append] at h ⊢
  obtain ⟨⟨_, mid⟩, hfirst, hrest⟩ := Option.bind_eq_some_iff.1 h
  exact ⟨mid, hfirst, hrest⟩

/-- A walk binds holes and reports. -/
theorem forM_extends (os : List Obligation) {s : State} (hs : s.unit.types.Valid)
    (h : os.forM checkObligation s = some ((), s')) : ∃ ds, s.Extends ds s' := by
  induction os generalizing s with
  | nil =>
    cases h
    exact ⟨[], .refl _⟩
  | cons o rest ih =>
    obtain ⟨⟨_, s₁⟩, hfirst, hrest⟩ := Option.bind_eq_some_iff.1 h
    obtain ⟨ds, hextends, -⟩ := checkObligation_extends hs hfirst
    obtain ⟨ds', hextends'⟩ := ih (hextends.valid hs) hrest
    exact ⟨ds ++ ds', hextends.trans hextends'⟩

/-- A walk that gets to its end comes to each obligation, and goes on from where that one left it. -/
theorem forM_split {before after : List Obligation} {o : Obligation} (hs : s.unit.types.Valid)
    (h : (before ++ o :: after).forM checkObligation s = some ((), s'')) :
    ∃ mid mid' ds₁ ds ds₂, before.forM checkObligation s = some ((), mid) ∧
      checkObligation o mid = some ((), mid') ∧
      after.forM checkObligation mid' = some ((), s'') ∧
      s.Extends ds₁ mid ∧ mid.Extends ds mid' ∧ mid'.Extends ds₂ s'' ∧
      o.Decided mid.unit.types mid'.unit.types ds := by
  obtain ⟨mid, hbefore, h⟩ := forM_append_eq_some h
  obtain ⟨⟨_, mid'⟩, hstep, hafter⟩ := Option.bind_eq_some_iff.1 h
  obtain ⟨ds₁, hfirst⟩ := forM_extends before hs hbefore
  have hmid : mid.unit.types.Valid := hfirst.valid hs
  obtain ⟨ds, hextends, hdecided⟩ := checkObligation_extends hmid hstep
  obtain ⟨ds₂, hlast⟩ := forM_extends after (hextends.valid hmid) hafter
  exact ⟨mid, mid', ds₁, ds, ds₂, hbefore, hstep, hafter, hfirst, hextends, hlast, hdecided⟩

end ExpLang.Checking
