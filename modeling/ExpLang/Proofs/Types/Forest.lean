import ExpLang.Proofs.Types.Operations

/-!
# The forest of holes

A hole may be bound to another hole, from either side and before either of them is known, so a chain
of bindings comes about from uses of a pool that do not see one another. Still no chain ever turns
back: a hole is bound while it is free, and to a type at the end of a chain that is not its own. So
holes stand in trees, and what a type stands for is the root of its tree. `TypePool.Retains` says
what no use of a pool takes back: bindings stay as they are, trees grow together and never fall
apart, and a root that is no hole stays the root.
-/

namespace ExpLang.TypePool

variable {pool pool' pool'' : TypePool} {id hole target a b : TypeId}

/-- A hole is bound to a type. -/
def BoundTo (pool : TypePool) (hole target : TypeId) : Prop := pool.binding? hole = some target

instance (pool : TypePool) : DecidableRel pool.BoundTo := fun hole target =>
  inferInstanceAs (Decidable (pool.binding? hole = some target))

/-! ## Trees -/

/-- Following bindings comes to an end from every type. -/
theorem Valid.wellFounded_boundTo (hpool : pool.Valid) :
    WellFounded fun target hole => pool.BoundTo hole target := by
  constructor
  intro id
  induction id using hpool.induction with
  | root id hroot =>
    refine .intro id fun next hnext => ?_
    rw [BoundTo, hroot] at hnext
    cases hnext
  | step id next hnext ih =>
    refine .intro id fun next' hnext' => ?_
    rw [BoundTo, hnext] at hnext'
    cases hnext'
    exact ih

/-- What a type stands for is found by following bindings. -/
theorem Valid.boundTo_resolve (hpool : pool.Valid) (id : TypeId) :
    Relation.ReflTransGen pool.BoundTo id (pool.resolve id) := by
  induction id using hpool.induction with
  | root id hroot => rw [resolve_of_root hroot]
  | step id next hnext ih =>
    rw [hpool.resolve_of_binding hnext]
    exact .head hnext ih

/-! ## What stays -/

/-- What is settled in one pool is settled in the same way in another one. -/
structure Retains (pool pool' : TypePool) : Prop where
  /-- No type is lost. -/
  size_le : pool.size ≤ pool'.size
  /-- What a hole is bound to it stays bound to. -/
  boundTo : ∀ hole target, pool.BoundTo hole target → pool'.BoundTo hole target
  /-- What stands for the same type goes on doing so. -/
  congr : ∀ a b, pool.resolve a = pool.resolve b → pool'.resolve a = pool'.resolve b
  /-- What stands for a type that is no hole goes on standing for it. -/
  known : ∀ id < pool.size, pool.isUnbound id = false →
    pool'.resolve id = pool.resolve id ∧ pool'.isUnbound id = false

namespace Retains

/-- A pool retains its types. -/
theorem refl (pool : TypePool) : pool.Retains pool :=
  ⟨Nat.le_refl _, fun _ _ h => h, fun _ _ h => h, fun _ _ h => ⟨rfl, h⟩⟩

/-- A pool that retains the types of a later one retains those of an earlier one. -/
theorem trans (h : pool.Retains pool') (h' : pool'.Retains pool'') : pool.Retains pool'' where
  size_le := Nat.le_trans h.size_le h'.size_le
  boundTo hole target hbound := h'.boundTo hole target (h.boundTo hole target hbound)
  congr a b heq := h'.congr a b (h.congr a b heq)
  known id hid hknown := by
    obtain ⟨hresolve, hknown'⟩ := h.known id hid hknown
    obtain ⟨hresolve', hknown''⟩ := h'.known id (Nat.lt_of_lt_of_le hid h.size_le) hknown'
    exact ⟨hresolve'.trans hresolve, hknown''⟩

end Retains

/-- A binding is made once: only what is free is bound. -/
theorem Refines.boundTo (h : pool.Refines pool') (hpool : pool.Valid)
    (hbound : pool.BoundTo hole target) : pool'.BoundTo hole target := by
  induction h with
  | refl => exact hbound
  | @bind mid other target' hrefines hbind ih =>
    have hne : hole ≠ other := by
      rintro rfl
      rw [BoundTo, hbind.free] at ih
      cases ih
    rw [BoundTo, (hrefines.valid hpool).binding?_bind hbind.isHole, if_neg hne]
    exact ih

/-- Bindings retain the types of a valid pool. -/
theorem Refines.retains (h : pool.Refines pool') (hpool : pool.Valid) : pool.Retains pool' where
  size_le := Nat.le_of_eq (congrArg Array.size h.data_eq.symm)
  boundTo _ _ hbound := h.boundTo hpool hbound
  congr _ _ heq := h.resolve_congr hpool heq
  known _ _ hknown := ⟨h.resolve_eq hpool hknown, h.isUnbound_eq_false hpool hknown⟩

/-- A type at the end leaves what types stand for as it was. -/
theorem Appends.retains (h : pool.Appends pool') (hpool : pool.Closed)
    (hbinding : ∀ id, pool'.binding? id = pool.binding? id) : pool.Retains pool' where
  size_le := h.size_le
  boundTo hole target hbound := by rwa [BoundTo, hbinding]
  congr a b heq := by rw [h.resolve_eq, h.resolve_eq, heq]
  known id hid hknown := by
    refine ⟨h.resolve_eq id, ?_⟩
    rw [isUnbound, h.resolve_eq, isHole, h.get_eq _ (hpool.resolve_lt hid)]
    exact hknown

/-- Every use of a closed pool retains its types. -/
theorem Step.retains (hstep : Step pool pool') (hpool : pool.Closed) : pool.Retains pool' := by
  cases hstep with
  | intern d hd hparts =>
    unfold TypePool.intern
    split
    · exact .refl pool
    · exact (pool.appends_push hd).retains hpool (pool.binding?_push hd)
  | newHole => exact hpool.valid.appends_newHole.retains hpool hpool.valid.binding?_newHole
  | bindIfUnbound hole target _ _ =>
    exact (hpool.valid.refines_bindIfUnbound hole target).retains hpool.valid
  | canAssign _ _ hverdict =>
    exact (stable_canAssign _ _ pool _ _ hpool.valid hverdict).1.retains hpool.valid

/-- No uses of a pool take back what is settled in it. -/
theorem Later.retains (hlater : Later pool pool') (hpool : pool.Closed) : pool.Retains pool' := by
  induction hlater with
  | refl => exact .refl pool
  | tail hlater hstep ih => exact ih.trans (hstep.retains (Later.closed hlater hpool))

/-! ## Binding a hole that may be bound already -/

/-- A binding is made exactly if the hole is unbound and the target is another type. -/
theorem bindIfUnbound_eq_true_iff (pool : TypePool) (hole target : TypeId) :
    (pool.bindIfUnbound hole target).1 = true ↔
      pool.isUnbound hole = true ∧ pool.resolve target ≠ pool.resolve hole := by
  have hcond : (pool.bindIfUnbound hole target).1 = true ↔
      pool.resolve hole ≠ pool.resolve target ∧ pool.isHole (pool.resolve hole) = true := by
    rw [bindIfUnbound]
    split
    · rename_i h
      exact iff_of_true rfl h
    · rename_i h
      exact iff_of_false Bool.false_ne_true h
  rw [hcond, isUnbound, ne_comm, and_comm]

/-- A binding that is not made changes nothing. -/
theorem bindIfUnbound_of_eq_false (h : (pool.bindIfUnbound hole target).1 = false) :
    (pool.bindIfUnbound hole target).2 = pool := by
  unfold bindIfUnbound at h ⊢
  dsimp only at h ⊢
  split at h
  · cases h
  · rename_i hnot
    rw [if_neg hnot]

/-- A hole that was bound stands for what its target stood for, and so does the target. -/
theorem Valid.resolve_bindIfUnbound (hpool : pool.Valid)
    (h : (pool.bindIfUnbound hole target).1 = true) :
    (pool.bindIfUnbound hole target).2.resolve hole = pool.resolve target ∧
      (pool.bindIfUnbound hole target).2.resolve target = pool.resolve target := by
  obtain ⟨hunbound, hne⟩ := (pool.bindIfUnbound_eq_true_iff hole target).1 h
  have hbind := hpool.bindable hne.symm hunbound
  have hpool' : (pool.bindIfUnbound hole target).2 =
      pool.bind (pool.resolve hole) (pool.resolve target) := by
    rw [bindIfUnbound, if_pos ⟨hne.symm, hunbound⟩]
  rw [hpool', hpool.resolve_bind hbind, hpool.resolve_bind hbind, if_pos rfl, if_neg hne]
  exact ⟨rfl, rfl⟩

/-! ## Whole runs -/

/-- In every pool that comes about by adding types and holes, binding holes and comparing types:
following bindings comes to an end from every type, and what the type stands for is this end, which
stands for itself. Later uses keep all bindings, what stands for the same type, and what stands for
a type that is no hole; comparing types binds one free hole after the other. A hole is bound on
request if and only if it is free and its target does not stand for it already; then both stand for
what the target stood for, and otherwise nothing is bound. -/
theorem holes_forest (hpool : Reachable pool) :
    WellFounded (fun target hole => pool.BoundTo hole target) ∧
    (∀ id, Relation.ReflTransGen pool.BoundTo id (pool.resolve id) ∧
      (∀ next, ¬ pool.BoundTo (pool.resolve id) next) ∧
      pool.resolve (pool.resolve id) = pool.resolve id) ∧
    (∀ final, Later pool final → pool.Retains final) ∧
    (∀ a b verdict pool', canAssign a b pool = some (verdict, pool') → pool.Refines pool') ∧
    ∀ hole target,
      ((pool.bindIfUnbound hole target).1 = true ↔
        pool.isUnbound hole = true ∧ pool.resolve target ≠ pool.resolve hole) ∧
      ((pool.bindIfUnbound hole target).1 = true →
        (pool.bindIfUnbound hole target).2.resolve hole = pool.resolve target ∧
        (pool.bindIfUnbound hole target).2.resolve target = pool.resolve target) ∧
      ((pool.bindIfUnbound hole target).1 = false → (pool.bindIfUnbound hole target).2 = pool) := by
  have hclosed := hpool.closed
  have hvalid := hclosed.valid
  refine ⟨hvalid.wellFounded_boundTo, fun id => ?_, fun final hlater => Later.retains hlater hclosed,
    fun a b verdict pool' h => (stable_canAssign a b pool verdict pool' hvalid h).1,
    fun hole target => ?_⟩
  · refine ⟨hvalid.boundTo_resolve id, fun next hnext => ?_, hvalid.resolve_resolve id⟩
    rw [BoundTo, hvalid.binding?_resolve] at hnext
    cases hnext
  · exact ⟨pool.bindIfUnbound_eq_true_iff hole target, hvalid.resolve_bindIfUnbound,
      bindIfUnbound_of_eq_false⟩

/-- Two holes, the first one bound to the second one before that is known. -/
def chainedHoles : TypePool := (initial.newHole.2.newHole.2.bindIfUnbound 11 12).2

/-- Two new holes, one bound to the other, are types of a compilation. -/
theorem reachable_chainedHoles : Reachable chainedHoles := by
  have hholes : Reachable initial.newHole.2.newHole.2 := .tail (.single .newHole) .newHole
  exact hholes.tail (.bindIfUnbound 11 12 (by decide +kernel) (by decide +kernel))

/-- The second hole is not bound back to the first one. When it is bound to the integers, the first
one stands for them and stays bound to the second one. -/
theorem holes_forest_chained :
    Reachable chainedHoles ∧ chainedHoles.BoundTo 11 12 ∧
      (chainedHoles.bindIfUnbound 12 11).1 = false ∧
      (chainedHoles.bindIfUnbound 12 2).1 = true ∧
      (chainedHoles.bindIfUnbound 12 2).2.BoundTo 11 12 ∧
      (chainedHoles.bindIfUnbound 12 2).2.resolve 11 = 2 := by
  obtain ⟨-, -, hretains, -, hbind⟩ := holes_forest reachable_chainedHoles
  have hbound : chainedHoles.BoundTo 11 12 := by decide +kernel
  have hback : (chainedHoles.bindIfUnbound 12 11).1 = false := by
    rw [Bool.eq_false_iff, Ne, (hbind 12 11).1]
    exact fun h => h.2 (by decide +kernel)
  have hforth : (chainedHoles.bindIfUnbound 12 2).1 = true := by
    rw [(hbind 12 2).1]
    exact ⟨by decide +kernel, by decide +kernel⟩
  have hlater : Later chainedHoles (chainedHoles.bindIfUnbound 12 2).2 :=
    .single (.bindIfUnbound 12 2 (by decide +kernel) (by decide +kernel))
  have hsame := (hretains _ hlater).congr 11 12 (by decide +kernel)
  exact ⟨reachable_chainedHoles, hbound, hback, hforth, (hretains _ hlater).boundTo 11 12 hbound,
    hsame.trans ((hbind 12 2).2.1 hforth).1⟩

end ExpLang.TypePool
