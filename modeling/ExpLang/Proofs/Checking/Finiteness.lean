import ExpLang.Proofs.Checking.Steps
import ExpLang.Proofs.Types.Finite

/-!
# Checks of finite types come to an end

The text of a type is put together from the texts of its parts, so it has one exactly if the type
does not contain itself. Where the types of a unit are finite, every check that compares types or
asks for their texts comes to an end and leaves finite types behind, and so does the whole walk.
-/

namespace ExpLang

namespace Resolved.CodeUnit

variable {u : CodeUnit} {id : TypeId}

/-- One level of the text of a type. -/
theorem isSome_typeNameWithin_succ {depth : Nat} :
    (u.typeNameWithin (depth + 1) id).isSome = true ↔
      ∀ part, u.types.PartOf part id → (u.typeNameWithin depth part).isSome = true := by
  unfold TypePool.PartOf
  rw [typeNameWithin]
  cases u.types.get (u.types.resolve id) with
  | array element => simp [TypeData.parts]
  | function ret params =>
    have hparams : (params.mapM (u.typeNameWithin depth)).isSome = true ↔ _ := isSome_mapM_iff
    rw [TypeData.parts, List.forall_mem_cons, ← hparams]
    cases hps : params.mapM (u.typeNameWithin depth) <;>
      cases hret : u.typeNameWithin depth ret <;> simp [hps, hret]
  | specific base args =>
    have hargs : (args.mapM (u.typeNameWithin depth)).isSome = true ↔ _ := isSome_mapM_iff
    rw [TypeData.parts, List.forall_mem_cons, ← hargs]
    cases hargs : args.mapM (u.typeNameWithin depth) <;>
      cases hbase : u.typeNameWithin depth base <;> simp [hargs, hbase]
  | _ => simp [TypeData.parts]

/-- A type whose rank is below a depth has a text within it. -/
theorem isSome_typeNameWithin {rank : TypeId → Nat}
    (hrank : ∀ part id, u.types.PartOf part id → rank part < rank id) {depth : Nat}
    (hdepth : rank id < depth) : (u.typeNameWithin depth id).isSome = true := by
  induction depth generalizing id with
  | zero => exact absurd hdepth (Nat.not_lt_zero _)
  | succ depth ih =>
    rw [isSome_typeNameWithin_succ]
    intro part hpart
    have hless := hrank part id hpart
    exact ih (by omega)

/-- A type that has a text does not contain itself. -/
theorem acc_of_typeNameWithin {depth : Nat} (h : (u.typeNameWithin depth id).isSome = true) :
    Acc u.types.PartOf id :=
  acc_of_isSome (fun _ => rfl) (fun _ _ => isSome_typeNameWithin_succ) h

/-- All types of a unit have texts exactly if none contains itself. -/
theorem isSome_typeName?_iff :
    (∀ id, (u.typeName? id).isSome = true) ↔ WellFounded u.types.PartOf := by
  constructor
  · exact fun h => ⟨fun id => acc_of_typeNameWithin (h id)⟩
  · intro h id
    obtain ⟨rank, hle, hrank⟩ := TypePool.exists_rank h
    exact isSome_typeNameWithin hrank (Nat.lt_succ_of_le (hle id))

end Resolved.CodeUnit

namespace Checking

open Resolved

variable {s : State}

/-- A step of checking comes to an end with finite types. -/
def Ends (x : Check Unit) (s : State) : Prop :=
  ∃ s', x s = some ((), s') ∧ s'.unit.types.Finite

/-- A report ends where the types are finite. -/
theorem ends_report (hs : s.unit.types.Finite) (d : Diagnostic) : Ends (report d) s :=
  ⟨_, rfl, hs⟩

/-- Looking at the state changes nothing. -/
theorem ends_get_bind {f : State → Check Unit} (h : Ends (f s) s) : Ends (get >>= f) s := h

/-- Checking an assignment ends where the types are finite. -/
theorem ends_checkAssignable (hs : s.unit.types.Finite) (target given : TypeId) (span : Span)
    (context : String) : Ends (checkAssignable target given span context) s := by
  obtain ⟨verdict, types, hcompare, htypes⟩ := hs.canAssign target given
  have hrun : canAssign target given s = some (verdict, s.withTypes types) := by
    change ((TypePool.canAssign target given s.unit.types).bind fun r => some (r, s)).bind _ = _
    rw [hcompare]
    rfl
  unfold checkAssignable
  cases verdict with
  | true =>
    refine ⟨s.withTypes types, ?_, htypes⟩
    change (canAssign target given s).bind _ = _
    rw [hrun]
    rfl
  | false =>
    have hnames := CodeUnit.isSome_typeName?_iff.2
      (show WellFounded (s.withTypes types).unit.types.PartOf from htypes.wellFounded)
    obtain ⟨expected, hexpected⟩ := Option.isSome_iff_exists.1 (hnames target)
    obtain ⟨found, hfound⟩ := Option.isSome_iff_exists.1 (hnames given)
    have hname {id : TypeId} {name : String} (h : (s.withTypes types).unit.typeName? id = some name) :
        typeName id (s.withTypes types) = some (name, s.withTypes types) := by
      change (((s.withTypes types).unit.typeName? id).bind fun r => some (r, s.withTypes types)) = _
      rw [h]
      rfl
    refine ⟨{ s.withTypes types with
      queue := s.queue.add (.typeMismatch span expected found context) }, ?_, htypes⟩
    change (canAssign target given s).bind _ = _
    rw [hrun]
    change (typeName target (s.withTypes types)).bind _ = _
    rw [hname hexpected]
    change (typeName given (s.withTypes types)).bind _ = _
    rw [hname hfound]
    rfl

/-- Steps of checking one after the other. -/
theorem Ends.then {x y : Check Unit} (hx : Ends x s)
    (hy : ∀ s' : State, s'.unit.types.Finite → Ends y s') : Ends (do x; y) s := by
  obtain ⟨s', hrun, hs'⟩ := hx
  obtain ⟨s'', hrun', hs''⟩ := hy s' hs'
  refine ⟨s'', ?_, hs''⟩
  change (x s).bind _ = _
  rw [hrun]
  exact hrun'

/-- Checking arguments ends where the types are finite. -/
theorem ends_checkArguments (params : List TypeId) (given : List (TypeId × Span)) {s : State}
    (hs : s.unit.types.Finite) : Ends (checkArguments params given) s := by
  induction params generalizing given s with
  | nil => exact ⟨s, rfl, hs⟩
  | cons param params ih =>
    cases given with
    | nil => exact ⟨s, rfl, hs⟩
    | cons arg given =>
      exact (ends_checkAssignable hs param arg.1 arg.2 "argument").then fun s' hs' => ih given hs'

/-- Checking an obligation ends where the types are finite. -/
theorem ends_checkObligation (hs : s.unit.types.Finite) (o : Obligation) :
    Ends (checkObligation o) s := by
  cases o with
  | assignable target given span context => exact ends_checkAssignable hs _ _ _ _
  | inferred type span name =>
    apply ends_get_bind
    split
    · exact ends_report hs _
    · exact ⟨s, rfl, hs⟩
  | argumentCount method given span =>
    apply ends_get_bind
    dsimp only
    split
    · exact ends_report hs _
    · exact ⟨s, rfl, hs⟩
  | arguments callee given =>
    apply ends_get_bind
    dsimp only
    split
    · exact ends_checkArguments _ given hs
    · exact ⟨s, rfl, hs⟩

/-- Checking a unit whose types are finite comes to an end, and they are finite after it. -/
theorem check_ends {u : CodeUnit} (hu : u.types.Finite) (queue : DiagnosticQueue) :
    ∃ u' queue', check u queue = some (u', queue') ∧ u'.types.Finite := by
  have hwalk : ∀ (os : List Obligation) {s : State}, s.unit.types.Finite →
      Ends (os.forM checkObligation) s := by
    intro os
    induction os with
    | nil => exact fun {s} hs => ⟨s, rfl, hs⟩
    | cons o rest ih =>
      exact fun {s} hs => (ends_checkObligation hs o).then fun s' hs' => ih hs'
  obtain ⟨s', hrun, hfinite⟩ := hwalk (obligations u) (s := ⟨u, queue⟩) hu
  refine ⟨s'.unit, s'.queue, ?_, hfinite⟩
  unfold check
  rw [show ((obligations u).forM checkObligation).run ⟨u, queue⟩ = some ((), s') from hrun]
  rfl

end Checking

end ExpLang
