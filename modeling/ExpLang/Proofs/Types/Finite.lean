import Mathlib.Order.WellFounded
import ExpLang.Proofs.Acyclic
import ExpLang.Proofs.Types.Assignable

/-!
# Types that do not contain themselves

An array, a function and a generic type with its arguments are made of other types, each of which may
be a hole that stands for yet another one. `TypePool.PartOf` says that a type is a part of what
another one stands for, and `TypePool.Finite` that no type contains itself this way and that no part
is an open hole. Binding a hole keeps a pool finite, because the hole is part of nothing. In a finite
pool types have ranks, so that every comparison of two types comes to a verdict.
-/

namespace ExpLang

namespace TypePool

variable {pool pool' : TypePool} {part id hole target a b : TypeId}

/-- One type is a part of what another one stands for. -/
def PartOf (pool : TypePool) (part id : TypeId) : Prop :=
  part ∈ (pool.get (pool.resolve id)).parts

/-- No type contains itself, and no part of a type is an open hole. -/
structure Finite (pool : TypePool) : Prop where
  valid : pool.Valid
  wellFounded : WellFounded pool.PartOf
  known : ∀ part id, pool.PartOf part id → pool.isUnbound part = false

/-- Only a type of the pool has parts. -/
theorem PartOf.lt (h : pool.PartOf part id) : id < pool.size := by
  by_contra hid
  have hget := get_of_size_le (Nat.not_lt.1 hid)
  have hroot : pool.binding? id = none := by rw [binding?, hget]
  rw [PartOf, resolve_of_root hroot, hget] at h
  cases h

/-- The types of a pool have ranks if no type contains itself. -/
theorem exists_rank (h : WellFounded pool.PartOf) :
    ∃ rank : TypeId → Nat, (∀ id, rank id ≤ pool.size) ∧
      ∀ part id, pool.PartOf part id → rank part < rank id := by
  have hacyclic : Acyclic pool.PartOf := fun id hid => h.transGen.irrefl.irrefl id hid
  obtain ⟨rank, hle, hlt⟩ := hacyclic.exists_rank (Finset.range pool.size)
    fun _ _ hpart => Finset.mem_range.2 hpart.lt
  exact ⟨rank, fun id => Finset.card_range pool.size ▸ hle id, hlt⟩

/-- A rank that parts have smaller than the whole rules out endless types. -/
theorem wellFounded_of_rank (rank : TypeId → Nat)
    (h : ∀ part id, pool.PartOf part id → rank part < rank id) : WellFounded pool.PartOf :=
  Subrelation.wf (fun {part id} hpart => h part id hpart) (InvImage.wf rank Nat.lt_wfRel.wf)

/-! ## Binding holes -/

/-- A hole is no part, so binding it ties no type into itself. -/
theorem Finite.bind (hpool : pool.Finite) (h : pool.Bindable hole target) :
    (pool.bind hole target).Finite := by
  obtain ⟨rank, -, hrank⟩ := exists_rank hpool.wellFounded
  have hresolve := hpool.valid.resolve_bind h
  have hne : ∀ part id, pool.PartOf part id → pool.resolve part ≠ hole := by
    intro part id hpart heq
    have hknown := hpool.known part id hpart
    rw [isUnbound, heq, h.isHole] at hknown
    cases hknown
  -- what has a part after the binding has it by itself, or stands for the target
  have hparts : ∀ part id, (pool.bind hole target).PartOf part id →
      pool.PartOf part (if pool.resolve id = hole then target else id) := by
    intro part id hpart
    rw [PartOf, hresolve, get_bind] at hpart
    split
    · rename_i heq
      rw [if_pos heq] at hpart
      rwa [PartOf, resolve_of_root h.root]
    · rename_i heq
      rwa [if_neg heq] at hpart
  refine ⟨hpool.valid.bind h, ?_, fun part id hpart => ?_⟩
  · refine wellFounded_of_rank
      (fun id => rank (if pool.resolve id = hole then target else id)) ?_
    intro part id hpart
    have hold := hparts part id hpart
    rw [if_neg (hne _ _ hold)]
    exact hrank _ _ hold
  · have hold := hparts part id hpart
    rw [isUnbound, hresolve, if_neg (hne _ _ hold), isHole_bind]
    exact hpool.known _ _ hold

/-- Finite types stay finite when more holes are bound. -/
theorem Finite.refines (hpool : pool.Finite) (h : pool.Refines pool') : pool'.Finite := by
  induction h with
  | refl => exact hpool
  | bind _ hbind ih => exact ih.bind hbind

/-! ## Comparing types -/

/-- A comparison has a verdict and binds nothing. -/
def Decides (pool : TypePool) (x : Check Bool) : Prop := ∃ verdict, x pool = some (verdict, pool)

/-- A check that is decided already decides. -/
theorem decides_pure (verdict : Bool) : pool.Decides (pure verdict) := ⟨verdict, rfl⟩

/-- Two checks one after the other decide if each does. -/
theorem decides_and {x y : Check Bool} (hx : pool.Decides x) (hy : pool.Decides y) :
    pool.Decides (do if ← x then y else return false) := by
  obtain ⟨verdict, hx⟩ := hx
  obtain ⟨verdict', hy⟩ := hy
  rw [Decides, and_run hx]
  cases verdict with
  | true => exact ⟨verdict', hy⟩
  | false => exact ⟨false, rfl⟩

/-- Two types are compared by their parts. -/
theorem decides_compareData {compare : TypeId → TypeId → Check Bool} {x y : TypeData}
    (h : ∀ a ∈ x.parts, ∀ b ∈ y.parts, pool.Decides (same compare a b)) :
    pool.Decides (compareData compare x y) :=
  compareData_rel (R := fun x _ => pool.Decides x) (g := compare) decides_pure decides_and h

/-- Known types of a finite pool are compared, where the smaller of their ranks bounds the depth. -/
theorem Finite.decides_known (hpool : pool.Finite) {rank : TypeId → Nat}
    (hrank : ∀ part id, pool.PartOf part id → rank part < rank id) (depth : Nat)
    (hdepth : min (rank a) (rank b) < depth) (ha : pool.isUnbound a = false)
    (hb : pool.isUnbound b = false) : pool.Decides (canAssignWithin depth a b) := by
  induction depth generalizing a b with
  | zero => exact absurd hdepth (Nat.not_lt_zero _)
  | succ depth ih =>
    rw [isUnbound, Bool.eq_false_iff] at ha hb
    rw [Decides, canAssignWithin_succ, if_neg ha, if_neg hb]
    split
    · exact ⟨true, rfl⟩
    split
    · exact ⟨true, rfl⟩
    refine decides_compareData fun a' ha' b' hb' => ?_
    have hranka := hrank a' a ha'
    have hrankb := hrank b' b hb'
    have hknown := hpool.known a' a ha'
    have hknown' := hpool.known b' b hb'
    exact decides_and (ih (by omega) hknown hknown') (ih (by omega) hknown' hknown)

/-- Types are compared to a depth beyond their number. -/
theorem size_lt_compareDepth (pool : TypePool) : pool.size < pool.compareDepth := by
  have hsquare : pool.size ≤ pool.size * pool.size := Nat.le_mul_self _
  have hmul := Nat.le_mul_of_pos_right (pool.size * pool.size) (Nat.succ_pos pool.bindings.size)
  exact Nat.lt_succ_of_le (hsquare.trans hmul)

/-- An open hole goes with everything. -/
theorem canAssignWithin_open (depth : Nat) (h : pool.isUnbound a = true ∨ pool.isUnbound b = true) :
    ∃ verdict pool', canAssignWithin (depth + 1) a b pool = some (verdict, pool') := by
  rw [canAssignWithin_succ]
  split
  · exact ⟨_, _, rfl⟩
  split
  · exact ⟨_, _, rfl⟩
  rename_i ha
  have hb : pool.isHole (pool.resolve b) = true := h.resolve_left ha
  rw [if_pos hb]
  exact ⟨_, _, rfl⟩

/-- Every two types of a finite pool are compared, and the pool after it is finite. -/
theorem Finite.canAssign (hpool : pool.Finite) (target given : TypeId) :
    ∃ verdict pool', TypePool.canAssign target given pool = some (verdict, pool') ∧
      pool'.Finite := by
  have hcompare : ∃ verdict pool',
      canAssignWithin pool.compareDepth target given pool = some (verdict, pool') := by
    by_cases hopen : pool.isUnbound target = true ∨ pool.isUnbound given = true
    · exact canAssignWithin_open _ hopen
    · obtain ⟨htarget, hgiven⟩ := not_or.1 hopen
      obtain ⟨rank, hle, hrank⟩ := exists_rank hpool.wellFounded
      have hdepth : min (rank target) (rank given) < pool.compareDepth :=
        ((Nat.min_le_left _ _).trans (hle target)).trans_lt pool.size_lt_compareDepth
      obtain ⟨verdict, hverdict⟩ := hpool.decides_known hrank _ hdepth
        (Bool.eq_false_iff.2 htarget) (Bool.eq_false_iff.2 hgiven)
      exact ⟨verdict, pool, hverdict⟩
  obtain ⟨verdict, pool', hverdict⟩ := hcompare
  have hrefines := (stable_canAssign _ _ pool verdict pool' hpool.valid hverdict).1
  exact ⟨verdict, pool', hverdict, hpool.refines hrefines⟩

end TypePool

end ExpLang
