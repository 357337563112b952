import Mathlib.Logic.Relation
import ExpLang.Proofs.Types.Assignable

/-!
# Pools in use

A pool is used by adding types that are made of those it has, adding holes, binding holes and
comparing types. `TypePool.Step` is one such use, and `TypePool.Reachable` holds of the pools that
come about this way. In all of them the parts of types and what holes are bound to are types of the
pool, which `TypePool.Closed` says. A use either binds holes or adds one type at the end, behind all
that the pool has.
-/

namespace ExpLang.TypePool

variable {pool pool' : TypePool} {id hole target a b : TypeId}

/-- The types of a pool are made of types that it has, and its holes are bound to such. -/
structure Closed (pool : TypePool) : Prop where
  valid : pool.Valid
  part_lt : ∀ id, ∀ part ∈ (pool.get id).parts, part < pool.size
  binding_lt : ∀ id next, pool.binding? id = some next → next < pool.size

/-- A use of a pool. -/
inductive Step (pool : TypePool) : TypePool → Prop
  /-- Add a type that is no hole and is made of types of the pool. -/
  | intern (d : TypeData) : (∀ slot, d ≠ .hole slot) → (∀ part ∈ d.parts, part < pool.size) →
      Step pool (pool.intern d).2
  /-- Add a hole. -/
  | newHole : Step pool pool.newHole.2
  /-- Bind a hole. -/
  | bindIfUnbound (hole target : TypeId) : hole < pool.size → target < pool.size →
      Step pool (pool.bindIfUnbound hole target).2
  /-- Compare two types, to any verdict. -/
  | canAssign {a b : TypeId} {verdict : Bool} {pool' : TypePool} : a < pool.size → b < pool.size →
      canAssign a b pool = some (verdict, pool') → Step pool pool'

/-- One pool comes from another one by uses of it. -/
abbrev Later : TypePool → TypePool → Prop := Relation.ReflTransGen Step

/-- A pool comes from that of a new compilation by uses of it. -/
def Reachable (pool : TypePool) : Prop := Later initial pool

/-! ## Types stay in the pool -/

/-- What a type of a closed pool stands for is a type of the pool. -/
theorem Closed.resolve_lt (h : pool.Closed) {id : TypeId} :
    id < pool.size → pool.resolve id < pool.size := by
  induction id using h.valid.induction with
  | root id hroot =>
    intro hid
    rwa [resolve_of_root hroot]
  | step id next hnext ih =>
    intro _
    rw [h.valid.resolve_of_binding hnext]
    exact ih (h.binding_lt id next hnext)

/-- Binding a hole leaves the number of types. -/
theorem size_bind (pool : TypePool) (hole target : TypeId) :
    (pool.bind hole target).size = pool.size := by
  rw [size, size, data_bind]

/-- Binding a hole to a type of the pool keeps the pool closed. -/
theorem Closed.bind (h : pool.Closed) (hbind : pool.Bindable hole target)
    (htarget : target < pool.size) : (pool.bind hole target).Closed where
  valid := h.valid.bind hbind
  part_lt id part hpart := by
    rw [get_bind] at hpart
    rw [size_bind]
    exact h.part_lt id part hpart
  binding_lt id next hnext := by
    rw [h.valid.binding?_bind hbind.isHole] at hnext
    rw [size_bind]
    split at hnext
    · cases hnext
      exact htarget
    · exact h.binding_lt id next hnext

/-- A check keeps the types of pools of a size in the pool. -/
def KeepsClosed (size : Nat) (x : Check Bool) : Prop :=
  ∀ pool verdict pool', pool.Closed → pool.size = size → x pool = some (verdict, pool') →
    pool'.Closed ∧ pool'.size = size

section Checks

variable {size : Nat}

/-- A check that is decided already keeps pools closed. -/
theorem KeepsClosed.pure (verdict : Bool) : KeepsClosed size (pure verdict) := by
  intro pool _ _ hpool hsize h
  cases h
  exact ⟨hpool, hsize⟩

/-- Two checks one after the other keep pools closed if each does. -/
theorem KeepsClosed.and {x y : Check Bool} (hx : KeepsClosed size x) (hy : KeepsClosed size y) :
    KeepsClosed size (do if ← x then y else return false) := by
  intro pool verdict pool' hpool hsize h
  obtain ⟨⟨first, mid⟩, hfirst, hsecond⟩ := Option.bind_eq_some_iff.1 h
  obtain ⟨hmid, hsize'⟩ := hx pool first mid hpool hsize hfirst
  cases first with
  | true => exact hy mid verdict pool' hmid hsize' hsecond
  | false => exact KeepsClosed.pure false mid verdict pool' hmid hsize' hsecond

/-- A comparison of two types of a pool keeps the pool closed, to any depth. -/
theorem keepsClosed_canAssignWithin (depth : Nat) (ha : a < size) (hb : b < size) :
    KeepsClosed size (canAssignWithin depth a b) := by
  induction depth generalizing a b with
  | zero =>
    intro pool _ _ _ _ h
    cases h
  | succ depth ih =>
    intro pool verdict pool' hpool hsize h
    subst hsize
    rw [canAssignWithin_succ] at h
    split at h
    · cases h
      exact ⟨hpool, rfl⟩
    rename_i hne
    split at h
    · rename_i hhole
      cases h
      exact ⟨hpool.bind (hpool.valid.bindable hne hhole) (hpool.resolve_lt hb), size_bind _ _ _⟩
    split at h
    · rename_i hhole
      cases h
      exact ⟨hpool.bind (hpool.valid.bindable (Ne.symm hne) hhole) (hpool.resolve_lt ha),
        size_bind _ _ _⟩
    split at h
    · cases h
      exact ⟨hpool, rfl⟩
    have hparts (x y : TypeId) (hx : x ∈ (pool.get (pool.resolve a)).parts)
        (hy : y ∈ (pool.get (pool.resolve b)).parts) :
        KeepsClosed pool.size (same (canAssignWithin depth) x y) := by
      have hxlt := hpool.part_lt _ x hx
      have hylt := hpool.part_lt _ y hy
      exact (ih hxlt hylt).and (ih hylt hxlt)
    have hdata : KeepsClosed pool.size (compareData (canAssignWithin depth)
        (pool.get (pool.resolve a)) (pool.get (pool.resolve b))) :=
      compareData_rel (R := fun x _ => KeepsClosed pool.size x)
        (g := canAssignWithin depth) KeepsClosed.pure KeepsClosed.and
        fun x hx y hy => hparts x y hx hy
    exact hdata pool verdict pool' hpool rfl h

end Checks

/-! ## One type more -/

/-- A pool has one more type than another one, behind the types of that. What types stand for is as
it was, and comparisons may go deeper. -/
structure Appends (pool pool' : TypePool) : Prop where
  size_le : pool.size ≤ pool'.size
  get_eq : ∀ id < pool.size, pool'.get id = pool.get id
  resolve_eq : ∀ id, pool'.resolve id = pool.resolve id
  compareDepth_le : pool.compareDepth ≤ pool'.compareDepth

/-- Types of a larger pool are compared at least as deep. -/
theorem compareDepth_le (hsize : pool.size ≤ pool'.size)
    (hbindings : pool.bindings.size ≤ pool'.bindings.size) :
    pool.compareDepth ≤ pool'.compareDepth :=
  Nat.succ_le_succ
    (Nat.mul_le_mul (Nat.mul_le_mul hsize hsize) (Nat.succ_le_succ hbindings))

/-- A pool does not shrink when a description is added. -/
theorem size_push_le (pool : TypePool) (d : TypeData) (bindings : Array (Option TypeId)) :
    pool.size ≤ (TypePool.mk (pool.data.push d) bindings).size := by
  simp [size]

/-- A description that is no hole appends one type to a pool. -/
theorem appends_push (pool : TypePool) {d : TypeData} (hd : ∀ slot, d ≠ .hole slot) :
    pool.Appends { pool with data := pool.data.push d } where
  size_le := pool.size_push_le d _
  get_eq id hid := by rw [get_push, if_neg (Nat.ne_of_lt hid)]
  resolve_eq := resolveWithin_congr (pool.binding?_push hd) _
  compareDepth_le := compareDepth_le (pool.size_push_le d _) (Nat.le_refl _)

/-- A new hole appends one type to a valid pool. -/
theorem Valid.appends_newHole (hpool : pool.Valid) : pool.Appends pool.newHole.2 where
  size_le := pool.size_push_le _ _
  get_eq id hid := by rw [TypePool.newHole, get_push, if_neg (Nat.ne_of_lt hid)]
  resolve_eq id := by
    have hsize : pool.newHole.2.bindings.size = pool.bindings.size + 1 := Array.size_push _
    rw [resolve, resolveWithin_congr hpool.binding?_newHole, hsize]
    exact resolveWithin_of_le (hpool.binding?_resolve id) (Nat.le_succ _)
  compareDepth_le := by
    refine compareDepth_le (pool.size_push_le _ _) ?_
    simp [TypePool.newHole]

/-- A type at the end is made of types of the pool. -/
theorem Closed.part_lt_push (h : pool.Closed) {d : TypeData}
    (hparts : ∀ part ∈ d.parts, part < pool.size) (bindings : Array (Option TypeId)) (id : TypeId) :
    ∀ part ∈ ((TypePool.mk (pool.data.push d) bindings).get id).parts,
      part < (TypePool.mk (pool.data.push d) bindings).size := by
  intro part hpart
  refine Nat.lt_of_lt_of_le ?_ (pool.size_push_le d bindings)
  rw [get_push] at hpart
  split at hpart
  · exact hparts part hpart
  · exact h.part_lt id part hpart

/-- Adding a description made of types of the pool keeps it closed. -/
theorem Closed.push (h : pool.Closed) {d : TypeData} (hd : ∀ slot, d ≠ .hole slot)
    (hparts : ∀ part ∈ d.parts, part < pool.size) :
    ({ pool with data := pool.data.push d } : TypePool).Closed where
  valid := h.valid.push hd
  part_lt := h.part_lt_push hparts _
  binding_lt id next hnext := by
    rw [pool.binding?_push hd] at hnext
    exact Nat.lt_of_lt_of_le (h.binding_lt id next hnext) (pool.size_push_le d _)

/-- A new hole keeps a pool closed. -/
theorem Closed.newHole (h : pool.Closed) : pool.newHole.2.Closed where
  valid := h.valid.newHole
  part_lt := h.part_lt_push (fun _ hpart => by cases hpart) _
  binding_lt id next hnext := by
    rw [h.valid.binding?_newHole] at hnext
    exact Nat.lt_of_lt_of_le (h.binding_lt id next hnext) (pool.size_push_le _ _)

/-! ## Uses -/

/-- A use keeps the types in the pool, and binds holes or adds a type at the end. -/
theorem Step.cases (hstep : Step pool pool') (h : pool.Closed) :
    pool'.Closed ∧ (pool.Refines pool' ∨ pool.Appends pool') := by
  cases hstep with
  | intern d hd hparts =>
    unfold TypePool.intern
    split
    · exact ⟨h, .inl .refl⟩
    · exact ⟨h.push hd hparts, .inr (pool.appends_push hd)⟩
  | newHole => exact ⟨h.newHole, .inr h.valid.appends_newHole⟩
  | bindIfUnbound hole target hhole htarget =>
    refine ⟨?_, .inl (h.valid.refines_bindIfUnbound hole target)⟩
    simp only [TypePool.bindIfUnbound]
    split
    · rename_i hbind
      exact h.bind (h.valid.bindable hbind.1 hbind.2) (h.resolve_lt htarget)
    · exact h
  | canAssign ha hb hverdict =>
    exact ⟨(keepsClosed_canAssignWithin _ ha hb pool _ _ h rfl hverdict).1,
      .inl (stable_canAssign _ _ pool _ _ h.valid hverdict).1⟩

/-- The first pool is closed. -/
theorem closed_initial : initial.Closed where
  valid := valid_initial
  part_lt id part hpart := by
    rw [parts_get_initial] at hpart
    cases hpart
  binding_lt id next hnext := by
    rw [binding?_of_isHole_eq_false (isHole_initial id)] at hnext
    cases hnext

/-- All uses of a pool keep it closed. -/
theorem Later.closed (hlater : Later pool pool') (h : pool.Closed) : pool'.Closed := by
  induction hlater with
  | refl => exact h
  | tail _ hstep ih => exact (hstep.cases ih).1

/-- A pool of a compilation is closed. -/
theorem Reachable.closed (h : Reachable pool) : pool.Closed := Later.closed h closed_initial

end ExpLang.TypePool
