import ExpLang.Types.Pool

/-!
# What holes stand for

A hole is bound once, to the type that another one stands for at that time, and never to itself. So
bindings do not go round in circles, no chain of them is longer than there are bound holes, and
`TypePool.resolve` ends at a type that is bound to nothing. `TypePool.Valid` says that a pool is of
this kind, and `TypePool.Refines` that one pool is another one with more holes bound: what stands for
a type that is no hole stands for it from then on.
-/

namespace ExpLang

namespace TypePool

variable {pool pool' : TypePool} {id hole target : TypeId}

/-- Number of holes that are bound. -/
def boundCount (pool : TypePool) : Nat := pool.bindings.countP (·.isSome)

/-- There are at most as many bound holes as holes. -/
theorem boundCount_le (pool : TypePool) : pool.boundCount ≤ pool.bindings.size :=
  Array.countP_le_size

/-- The primitive types stand where they belong, each hole has a place for its binding to itself, and
bindings lead to an end. -/
structure Valid (pool : TypePool) : Prop where
  primitive : ∀ p : Primitive, pool.data[p.id]? = some (.primitive p)
  slot_lt : ∀ {id slot}, pool.get id = .hole slot → slot < pool.bindings.size
  slot_inj : ∀ {i j slot}, pool.get i = .hole slot → pool.get j = .hole slot → i = j
  settles : ∀ id, pool.binding? (pool.resolveWithin pool.boundCount id) = none

/-! ## Following bindings -/

/-- A type without a binding is resolved, whatever the budget. -/
theorem resolveWithin_of_root (h : pool.binding? id = none) (n : Nat) :
    pool.resolveWithin n id = id := by
  cases n with
  | zero => rfl
  | succ n => rw [resolveWithin, h]

/-- A bound hole costs one step and goes on at its binding. -/
theorem resolveWithin_of_binding {next : TypeId} (h : pool.binding? id = some next) (n : Nat) :
    pool.resolveWithin (n + 1) id = pool.resolveWithin n next := by
  rw [resolveWithin, h]

/-- Nothing is bound behind the end of a chain of bindings. -/
theorem resolveWithin_of_le {n m : Nat} (h : pool.binding? (pool.resolveWithin n id) = none)
    (hle : n ≤ m) : pool.resolveWithin m id = pool.resolveWithin n id := by
  induction n generalizing m id with
  | zero => exact resolveWithin_of_root h m
  | succ n ih =>
    obtain ⟨m, rfl⟩ := Nat.exists_eq_add_one_of_ne_zero (Nat.ne_zero_of_lt hle)
    cases hnext : pool.binding? id with
    | none => rw [resolveWithin_of_root hnext, resolveWithin_of_root hnext]
    | some next =>
      rw [resolveWithin_of_binding hnext] at h
      rw [resolveWithin_of_binding hnext, resolveWithin_of_binding hnext]
      exact ih h (Nat.le_of_succ_le_succ hle)

/-- A type without a binding resolves to itself. -/
theorem resolve_of_root (h : pool.binding? id = none) : pool.resolve id = id :=
  resolveWithin_of_root h _

namespace Valid

variable (hpool : pool.Valid)

include hpool

/-- The number of bound holes is a budget large enough to resolve any type. -/
theorem resolve_eq (id : TypeId) : pool.resolve id = pool.resolveWithin pool.boundCount id :=
  resolveWithin_of_le (hpool.settles id) pool.boundCount_le

/-- What a type stands for is bound to nothing. -/
theorem binding?_resolve (id : TypeId) : pool.binding? (pool.resolve id) = none := by
  rw [hpool.resolve_eq]
  exact hpool.settles id

/-- Resolving twice is resolving once. -/
theorem resolve_resolve (id : TypeId) : pool.resolve (pool.resolve id) = pool.resolve id :=
  resolve_of_root (hpool.binding?_resolve id)

/-- The index of a primitive describes it. -/
theorem get_primitive (p : Primitive) : pool.get p.id = .primitive p := by
  rw [TypePool.get, Array.getD_eq_getD_getElem?, hpool.primitive, Option.getD_some]

/-- A primitive type is known. -/
theorem isUnbound_primitive (p : Primitive) : pool.isUnbound p.id = false := by
  have hroot : pool.binding? p.id = none := by rw [binding?, hpool.get_primitive]
  rw [isUnbound, resolve_of_root hroot, isHole, hpool.get_primitive]

/-- A bound hole stands for what it is bound to stands for. -/
theorem resolve_of_binding {next : TypeId} (h : pool.binding? id = some next) :
    pool.resolve id = pool.resolve next := by
  have hwithin : pool.resolveWithin (pool.boundCount + 1) id =
      pool.resolveWithin pool.boundCount next := resolveWithin_of_binding h _
  rw [hpool.resolve_eq, hpool.resolve_eq, ← hwithin]
  exact (resolveWithin_of_le (hpool.settles id) (Nat.le_succ _)).symm

/-- Whatever holds of the types that are bound to nothing, and of a bound hole when it holds of what
the hole is bound to, holds of all types. -/
theorem induction {P : TypeId → Prop} (root : ∀ id, pool.binding? id = none → P id)
    (step : ∀ id next, pool.binding? id = some next → P next → P id) (id : TypeId) : P id := by
  have hwithin : ∀ n id, pool.binding? (pool.resolveWithin n id) = none → P id := by
    intro n
    induction n with
    | zero => exact root
    | succ n ih =>
      intro id h
      cases hnext : pool.binding? id with
      | none => exact root id hnext
      | some next =>
        rw [resolveWithin_of_binding hnext] at h
        exact step id next hnext (ih next h)
  exact hwithin _ id (hpool.settles id)

end Valid

/-! ## Binding a hole -/

/-- Binding a hole leaves every description. -/
@[simp] theorem get_bind (pool : TypePool) (hole target id : TypeId) :
    (pool.bind hole target).get id = pool.get id := by
  unfold bind
  split <;> rfl

/-- Binding a hole leaves the list of descriptions. -/
@[simp] theorem data_bind (pool : TypePool) (hole target : TypeId) :
    (pool.bind hole target).data = pool.data := by
  unfold bind
  split <;> rfl

/-- Binding a hole leaves the number of holes. -/
@[simp] theorem bindings_size_bind (pool : TypePool) (hole target : TypeId) :
    (pool.bind hole target).bindings.size = pool.bindings.size := by
  unfold bind
  split <;> simp

/-- Binding a hole leaves it a hole. -/
@[simp] theorem isHole_bind (pool : TypePool) (hole target id : TypeId) :
    (pool.bind hole target).isHole id = pool.isHole id := by
  rw [isHole, isHole, get_bind]

/-- A type is a hole if its description is that of a slot. -/
theorem isHole_iff : pool.isHole id = true ↔ ∃ slot, pool.get id = .hole slot := by
  unfold isHole
  split <;> simp_all

/-- What is no hole has no binding. -/
theorem binding?_of_isHole_eq_false (h : pool.isHole id = false) : pool.binding? id = none := by
  unfold isHole at h
  unfold binding?
  split
  · rename_i slot hslot
    rw [hslot] at h
    cases h
  · rfl

/-- Binding a hole binds it and no other one. -/
theorem Valid.binding?_bind (hpool : pool.Valid) (hhole : pool.isHole hole = true)
    (target id : TypeId) :
    (pool.bind hole target).binding? id = if id = hole then some target else pool.binding? id := by
  obtain ⟨slot, hslot⟩ := isHole_iff.1 hhole
  have hlt := hpool.slot_lt hslot
  unfold binding?
  rw [get_bind]
  by_cases hid : id = hole
  · rw [hid, hslot, if_pos rfl, bind, hslot]
    simp [hlt]
  · rw [if_neg hid, bind, hslot]
    split
    · rename_i other hother
      have hne : other ≠ slot := fun h => hid (hpool.slot_inj (h ▸ hother) hslot)
      simp [Ne.symm hne]
    · rfl

/-- Binding an unbound hole adds one to the bound holes. -/
theorem Valid.boundCount_bind (hpool : pool.Valid) (hhole : pool.isHole hole = true)
    (hfree : pool.binding? hole = none) (target : TypeId) :
    (pool.bind hole target).boundCount = pool.boundCount + 1 := by
  obtain ⟨slot, hslot⟩ := isHole_iff.1 hhole
  have hlt := hpool.slot_lt hslot
  have hnone : pool.bindings[slot] = none := by
    simpa [binding?, hslot, Array.getD, hlt] using hfree
  rw [boundCount, boundCount, bind, hslot]
  simp only [Array.setIfInBounds, hlt, dif_pos]
  rw [Array.countP_set]
  simp [hnone]

/-- A free hole may be bound to another type that is bound to nothing. -/
structure Bindable (pool : TypePool) (hole target : TypeId) : Prop where
  isHole : pool.isHole hole = true
  free : pool.binding? hole = none
  root : pool.binding? target = none
  ne : hole ≠ target

/-- The chains of bindings get longer by one binding at most. -/
theorem Valid.settles_bind (hpool : pool.Valid) (h : pool.Bindable hole target) {n : Nat}
    (hn : pool.binding? (pool.resolveWithin n id) = none) :
    (pool.bind hole target).binding? ((pool.bind hole target).resolveWithin (n + 1) id) = none := by
  have hbinding := hpool.binding?_bind h.isHole target
  have htarget : (pool.bind hole target).binding? target = none := by
    rw [hbinding, if_neg h.ne.symm, h.root]
  induction n generalizing id with
  | zero =>
    change pool.binding? id = none at hn
    by_cases hid : id = hole
    · have hnext : (pool.bind hole target).binding? id = some target := by rw [hbinding, if_pos hid]
      rw [resolveWithin_of_binding hnext]
      exact htarget
    · have hnext : (pool.bind hole target).binding? id = none := by rw [hbinding, if_neg hid, hn]
      rw [resolveWithin_of_root hnext]
      exact hnext
  | succ n ih =>
    by_cases hid : id = hole
    · have hnext : (pool.bind hole target).binding? id = some target := by rw [hbinding, if_pos hid]
      rw [resolveWithin_of_binding hnext, resolveWithin_of_root htarget]
      exact htarget
    · cases hnext : pool.binding? id with
      | none =>
        have hroot : (pool.bind hole target).binding? id = none := by
          rw [hbinding, if_neg hid, hnext]
        rw [resolveWithin_of_root hroot]
        exact hroot
      | some next =>
        have hstep : (pool.bind hole target).binding? id = some next := by
          rw [hbinding, if_neg hid, hnext]
        rw [resolveWithin_of_binding hnext] at hn
        rw [resolveWithin_of_binding hstep]
        exact ih hn

/-- Binding a bindable hole keeps a pool valid. -/
theorem Valid.bind (hpool : pool.Valid) (h : pool.Bindable hole target) :
    (pool.bind hole target).Valid where
  primitive p := by
    rw [data_bind]
    exact hpool.primitive p
  slot_lt hslot := by
    rw [get_bind] at hslot
    rw [bindings_size_bind]
    exact hpool.slot_lt hslot
  slot_inj hi hj := by
    rw [get_bind] at hi hj
    exact hpool.slot_inj hi hj
  settles id := by
    rw [hpool.boundCount_bind h.isHole h.free]
    exact hpool.settles_bind h (hpool.settles id)

/-- What stood for the hole stands for its target, and all else for what it stood for. -/
theorem Valid.resolve_bind (hpool : pool.Valid) (h : pool.Bindable hole target) (id : TypeId) :
    (pool.bind hole target).resolve id =
      if pool.resolve id = hole then target else pool.resolve id := by
  have hbinding := hpool.binding?_bind h.isHole target
  have hpool' := hpool.bind h
  induction id using hpool.induction with
  | root id hid =>
    rw [resolve_of_root hid]
    by_cases hhole : id = hole
    · have hnext : (pool.bind hole target).binding? id = some target := by
        rw [hbinding, if_pos hhole]
      have htarget : (pool.bind hole target).binding? target = none := by
        rw [hbinding, if_neg h.ne.symm, h.root]
      rw [if_pos hhole, hpool'.resolve_of_binding hnext, resolve_of_root htarget]
    · have hnext : (pool.bind hole target).binding? id = none := by
        rw [hbinding, if_neg hhole, hid]
      rw [if_neg hhole, resolve_of_root hnext]
  | step id next hid ih =>
    have hhole : id ≠ hole := by
      intro h
      subst h
      rw [h.free] at hid
      cases hid
    have hnext : (pool.bind hole target).binding? id = some next := by
      rw [hbinding, if_neg hhole, hid]
    rw [hpool'.resolve_of_binding hnext, hpool.resolve_of_binding hid, ih]

/-! ## Binding more holes -/

/-- One pool is another one with more holes bound. -/
inductive Refines (pool : TypePool) : TypePool → Prop
  | refl : Refines pool pool
  | bind {mid hole target} : Refines pool mid → mid.Bindable hole target →
      Refines pool (mid.bind hole target)

namespace Refines

/-- Bindings made after bindings are bindings of the first pool. -/
theorem trans {pool'' : TypePool} (h : pool.Refines pool') (h' : pool'.Refines pool'') :
    pool.Refines pool'' := by
  induction h' with
  | refl => exact h
  | bind _ hbind ih => exact .bind ih hbind

/-- Bindings keep a pool valid. -/
theorem valid (h : pool.Refines pool') (hpool : pool.Valid) : pool'.Valid := by
  induction h with
  | refl => exact hpool
  | bind _ hbind ih => exact ih.bind hbind

/-- Bindings leave the list of descriptions. -/
theorem data_eq (h : pool.Refines pool') : pool'.data = pool.data := by
  induction h with
  | refl => rfl
  | bind _ _ ih => rw [data_bind, ih]

/-- Bindings leave every description. -/
theorem get_eq (h : pool.Refines pool') (id : TypeId) : pool'.get id = pool.get id := by
  rw [TypePool.get, TypePool.get, h.data_eq]

/-- Bindings leave the holes as they are. -/
theorem isHole_eq (h : pool.Refines pool') (id : TypeId) : pool'.isHole id = pool.isHole id := by
  rw [isHole, isHole, h.get_eq]

/-- Bindings leave the number of holes. -/
theorem bindings_size_eq (h : pool.Refines pool') :
    pool'.bindings.size = pool.bindings.size := by
  induction h with
  | refl => rfl
  | bind _ _ ih => rw [bindings_size_bind, ih]

/-- Bindings leave the depth to which types are compared. -/
theorem compareDepth_eq (h : pool.Refines pool') : pool'.compareDepth = pool.compareDepth := by
  rw [compareDepth, compareDepth, size, size, h.data_eq, h.bindings_size_eq]

/-- What a type stands for later is what the type it stands for now stands for then. -/
theorem resolve_resolve (h : pool.Refines pool') (hpool : pool.Valid) (id : TypeId) :
    pool'.resolve (pool.resolve id) = pool'.resolve id := by
  induction h with
  | refl => exact hpool.resolve_resolve id
  | bind hrefines hbind ih =>
    have hvalid := hrefines.valid hpool
    rw [hvalid.resolve_bind hbind, hvalid.resolve_bind hbind, ih]

/-- Two types that stand for the same type do so from then on. -/
theorem resolve_congr (h : pool.Refines pool') (hpool : pool.Valid) {a b : TypeId}
    (heq : pool.resolve a = pool.resolve b) : pool'.resolve a = pool'.resolve b := by
  rw [← h.resolve_resolve hpool a, heq, h.resolve_resolve hpool]

/-- A type that stands for a type that is no hole stands for it from then on. -/
theorem resolve_eq (h : pool.Refines pool') (hpool : pool.Valid)
    (hbound : pool.isHole (pool.resolve id) = false) : pool'.resolve id = pool.resolve id := by
  have hhole : pool'.isHole (pool.resolve id) = false := by rw [h.isHole_eq, hbound]
  rw [← h.resolve_resolve hpool, resolve_of_root (binding?_of_isHole_eq_false hhole)]

/-- A type that is known stays known. -/
theorem isUnbound_eq_false (h : pool.Refines pool') (hpool : pool.Valid)
    (hbound : pool.isUnbound id = false) : pool'.isUnbound id = false := by
  rw [isUnbound, h.resolve_eq hpool hbound, h.isHole_eq]
  exact hbound

end Refines

/-- Two types that do not stand for the same type, the first one for a hole, may be bound. -/
theorem Valid.bindable (hpool : pool.Valid) {a b : TypeId} (hne : pool.resolve a ≠ pool.resolve b)
    (hhole : pool.isHole (pool.resolve a) = true) :
    pool.Bindable (pool.resolve a) (pool.resolve b) :=
  ⟨hhole, hpool.binding?_resolve a, hpool.binding?_resolve b, hne⟩

/-- A binding made only if the hole is unbound is a binding or none. -/
theorem Valid.refines_bindIfUnbound (hpool : pool.Valid) (hole target : TypeId) :
    pool.Refines (pool.bindIfUnbound hole target).2 := by
  simp only [bindIfUnbound]
  split
  · rename_i h
    exact .bind .refl (hpool.bindable h.1 h.2)
  · exact .refl

/-- A type that is bound to a known type is known. -/
theorem Valid.isUnbound_bindIfUnbound (hpool : pool.Valid)
    (htarget : pool.isUnbound target = false) :
    (pool.bindIfUnbound hole target).2.isUnbound hole = false := by
  simp only [bindIfUnbound]
  split
  · rename_i h
    rw [isUnbound, hpool.resolve_bind (hpool.bindable h.1 h.2), if_pos rfl, isHole_bind]
    exact htarget
  · rename_i h
    by_cases heq : pool.resolve hole = pool.resolve target
    · rw [isUnbound, heq]
      exact htarget
    · rw [isUnbound]
      simpa [heq] using h

/-- Where every hole is known, every type is. -/
theorem Valid.isUnbound_of_holes (hpool : pool.Valid)
    (h : ∀ id, pool.isHole id = true → pool.isUnbound id = false) (id : TypeId) :
    pool.isUnbound id = false := by
  rw [Bool.eq_false_iff]
  intro hunbound
  have hknown := h _ hunbound
  rw [isUnbound, hpool.resolve_resolve] at hknown
  rw [isUnbound, hknown] at hunbound
  cases hunbound

/-! ## Adding types -/

/-- The types of a pool with one more at the end. -/
theorem get_push (pool : TypePool) (d : TypeData) (bindings : Array (Option TypeId)) (id : TypeId) :
    (TypePool.mk (pool.data.push d) bindings).get id =
      if id = pool.size then d else pool.get id := by
  simp only [TypePool.get, Array.getD_eq_getD_getElem?, Array.getElem?_push, size]
  split <;> rfl

/-- A type at the end leaves the primitive types where they are. -/
theorem Valid.primitive_push (hpool : pool.Valid) (d : TypeData) (p : Primitive) :
    (pool.data.push d)[p.id]? = some (.primitive p) := by
  have hlt := (Array.getElem?_eq_some_iff.1 (hpool.primitive p)).1
  rw [Array.getElem?_push, if_neg (Nat.ne_of_lt hlt), hpool.primitive]

/-- An index beyond the pool is that of no type. -/
theorem get_of_size_le (h : pool.size ≤ id) : pool.get id = .primitive .invalid := by
  unfold size at h
  rw [TypePool.get, Array.getD, dif_neg (Nat.not_lt.2 h)]

/-- The index after the last type describes no type. -/
theorem get_size (pool : TypePool) : pool.get pool.size = .primitive .invalid :=
  get_of_size_le (Nat.le_refl _)

/-- Pools with the same bindings resolve every type alike. -/
theorem resolveWithin_congr (h : ∀ id, pool'.binding? id = pool.binding? id) (n : Nat)
    (id : TypeId) : pool'.resolveWithin n id = pool.resolveWithin n id := by
  induction n generalizing id with
  | zero => rfl
  | succ n ih =>
    rw [resolveWithin, resolveWithin, h]
    cases pool.binding? id with
    | none => rfl
    | some next => exact ih next

/-- A type at the end that is no hole is bound to nothing. -/
theorem binding?_push (pool : TypePool) {d : TypeData} (hd : ∀ slot, d ≠ .hole slot) (id : TypeId) :
    ({ pool with data := pool.data.push d } : TypePool).binding? id = pool.binding? id := by
  unfold binding?
  rw [pool.get_push d pool.bindings]
  by_cases hid : id = pool.size
  · rw [if_pos hid, hid, get_size]
    cases d with
    | hole slot => exact absurd rfl (hd slot)
    | _ => rfl
  · rw [if_neg hid]

/-- A pool with a type at its end that is no hole is as good as the pool before. -/
theorem Valid.push (hpool : pool.Valid) {d : TypeData} (hd : ∀ slot, d ≠ .hole slot) :
    ({ pool with data := pool.data.push d } : TypePool).Valid := by
  have hget := pool.get_push d pool.bindings
  have hbinding := pool.binding?_push hd
  refine ⟨hpool.primitive_push d, fun {id slot} h => ?_, fun {i j slot} hi hj => ?_, fun id => ?_⟩
  · rw [hget] at h
    split at h
    · exact absurd h (hd slot)
    · exact hpool.slot_lt h
  · rw [hget] at hi hj
    split at hi
    · exact absurd hi (hd slot)
    · split at hj
      · exact absurd hj (hd slot)
      · exact hpool.slot_inj hi hj
  · rw [resolveWithin_congr hbinding, hbinding]
    exact hpool.settles id

/-- Interning a description that is no hole keeps a pool valid. -/
theorem Valid.intern (hpool : pool.Valid) {d : TypeData} (hd : ∀ slot, d ≠ .hole slot) :
    (pool.intern d).2.Valid := by
  unfold TypePool.intern
  split
  · exact hpool
  · exact hpool.push hd

/-- Adding a type that is no hole adds no hole. -/
theorem isHole_intern {d : TypeData} (hd : ∀ slot, d ≠ .hole slot)
    (h : (pool.intern d).2.isHole id = true) : pool.isHole id = true := by
  unfold TypePool.intern at h
  split at h
  · exact h
  · obtain ⟨slot, hslot⟩ := isHole_iff.1 h
    rw [get_push] at hslot
    split at hslot
    · exact absurd hslot (hd slot)
    · exact isHole_iff.2 ⟨slot, hslot⟩

/-- A new hole is unbound and leaves every binding. -/
theorem Valid.binding?_newHole (hpool : pool.Valid) (id : TypeId) :
    pool.newHole.2.binding? id = pool.binding? id := by
  unfold binding? TypePool.newHole
  rw [pool.get_push]
  by_cases hid : id = pool.size
  · rw [if_pos hid, hid, get_size]
    simp [Array.getD]
  · rw [if_neg hid]
    split
    · rename_i slot hslot
      have hlt := hpool.slot_lt hslot
      simp only [Array.getD_eq_getD_getElem?, Array.getElem?_push, if_neg (Nat.ne_of_lt hlt)]
    · rfl

/-- A new hole is free and has a place of its own. -/
theorem Valid.newHole (hpool : pool.Valid) : pool.newHole.2.Valid := by
  have hget := pool.get_push (.hole pool.bindings.size) (pool.bindings.push none)
  have hbinding := hpool.binding?_newHole
  have hcount : pool.newHole.2.boundCount = pool.boundCount := by
    simp [boundCount, TypePool.newHole]
  refine ⟨hpool.primitive_push _, fun {id slot} h => ?_, fun {i j slot} hi hj => ?_,
    fun id => ?_⟩
  · unfold TypePool.newHole at h ⊢
    rw [hget] at h
    rw [Array.size_push]
    split at h
    · cases h
      exact Nat.lt_succ_self _
    · exact Nat.lt_succ_of_lt (hpool.slot_lt h)
  · unfold TypePool.newHole at hi hj
    rw [hget] at hi hj
    split at hi <;> split at hj
    · simp_all
    · cases hi
      exact absurd (hpool.slot_lt hj) (Nat.lt_irrefl _)
    · cases hj
      exact absurd (hpool.slot_lt hi) (Nat.lt_irrefl _)
    · exact hpool.slot_inj hi hj
  · rw [hcount, resolveWithin_congr hbinding, hbinding]
    exact hpool.settles id

/-- A new hole is the only hole that a pool gets. -/
theorem isHole_newHole (h : pool.newHole.2.isHole id = true) :
    id = pool.newHole.1 ∨ pool.isHole id = true := by
  obtain ⟨slot, hslot⟩ := isHole_iff.1 h
  unfold TypePool.newHole at hslot
  rw [get_push] at hslot
  split at hslot
  · rename_i hid
    exact .inl hid
  · exact .inr (isHole_iff.2 ⟨slot, hslot⟩)

/-- The types of a new compilation are primitive, but for one that takes others. -/
theorem get_initial (h : id < initial.size) :
    initial.get id = .generic "Iterable" ∨ ∃ p : Primitive, p.id = id ∧
      initial.get id = .primitive p := by
  have hall : ∀ id < 11, initial.get id = .generic "Iterable" ∨
      ∃ p ∈ Primitive.all, p.id = id ∧ initial.get id = .primitive p := by decide
  rcases hall id h with hgeneric | ⟨p, -, hp⟩
  · exact .inl hgeneric
  · exact .inr ⟨p, hp⟩

/-- A new compilation has no holes. -/
theorem isHole_initial (id : TypeId) : initial.isHole id = false := by
  rw [isHole]
  by_cases h : id < initial.size
  · rcases get_initial h with hget | ⟨p, -, hget⟩ <;> rw [hget]
  · rw [get_of_size_le (Nat.not_lt.1 h)]

/-- The first pool is valid. -/
theorem valid_initial : initial.Valid where
  primitive p := by cases p <;> rfl
  slot_lt {id slot} h := by
    have hhole := isHole_initial id
    rw [isHole, h] at hhole
    cases hhole
  slot_inj {i j slot} h := by
    have hhole := isHole_initial i
    rw [isHole, h] at hhole
    cases hhole
  settles id := binding?_of_isHole_eq_false (isHole_initial _)

end TypePool

end ExpLang
