import ExpLang.Proofs.Types.Binding

/-!
# Verdicts about types are final

Comparing two types compares their parts. `TypePool.compareData_rel` says that what relates two ways
to compare the parts relates the comparisons of the whole, as long as it passes from two checks to
the check that both of them pass.

Comparing two types also binds the holes it meets. `TypePool.Stable` says of a check that it only
binds holes, and that it comes to the same verdict again, and binds nothing, in every pool with yet
more holes bound. Checks of this kind can be put one after the other, so that by induction on the
depth `TypePool.canAssign` is one.
-/

namespace ExpLang

/-- The types that a type is made of. -/
def TypeData.parts : TypeData → List TypeId
  | .array element => [element]
  | .function ret params => ret :: params
  | .specific base args => base :: args
  | .primitive _ | .ofClass _ | .generic _ | .hole _ => []

namespace TypePool

variable {α β : Type}

/-- No type of a new compilation is made of others. -/
theorem parts_get_initial (id : TypeId) : (initial.get id).parts = [] := by
  by_cases h : id < initial.size
  · rcases get_initial h with hget | ⟨p, -, hget⟩ <;> rw [hget] <;> rfl
  · rw [get_of_size_le (Nat.not_lt.1 h)]
    rfl

/-! ## Comparing part by part -/

section Parts

variable {R : Check Bool → Check Bool → Prop} {f g : TypeId → TypeId → Check Bool}
  (hpure : ∀ verdict, R (pure verdict) (pure verdict))
  (hand : ∀ {x x' y y'}, R x x' → R y y' →
    R (do if ← x then y else return false) (do if ← x' then y' else return false))

include hpure hand

/-- Comparing lists element by element is related if comparing elements is. -/
theorem sameAll_rel {as bs : List TypeId}
    (h : ∀ a ∈ as, ∀ b ∈ bs, R (same f a b) (same g a b)) :
    R (sameAll f as bs) (sameAll g as bs) := by
  induction as generalizing bs with
  | nil => exact hpure true
  | cons a as ih =>
    cases bs with
    | nil => exact hpure true
    | cons b bs =>
      rw [sameAll, sameAll]
      refine hand (h a List.mem_cons_self b List.mem_cons_self) (ih ?_)
      exact fun a ha b hb => h a (List.mem_cons_of_mem _ ha) b (List.mem_cons_of_mem _ hb)

/-- Two ways to compare the parts of types that are related compare the types in related ways. -/
theorem compareData_rel {x y : TypeData}
    (h : ∀ a ∈ x.parts, ∀ b ∈ y.parts, R (same f a b) (same g a b)) :
    R (compareData f x y) (compareData g x y) := by
  unfold compareData
  split
  · exact h _ List.mem_cons_self _ List.mem_cons_self
  · split
    · exact hpure false
    · refine hand (h _ List.mem_cons_self _ List.mem_cons_self) (sameAll_rel hpure hand ?_)
      exact fun a ha b hb => h a (List.mem_cons_of_mem _ ha) b (List.mem_cons_of_mem _ hb)
  · split
    · exact hpure false
    · refine sameAll_rel hpure hand ?_
      exact fun a ha b hb => h a (List.mem_cons_of_mem _ ha) b (List.mem_cons_of_mem _ hb)
  · exact hpure false

end Parts

/-! ## Checks that are final -/

/-- A check only binds holes, and once it has come to a verdict it comes to that verdict at any later
time without binding anything. -/
def Stable (x : Check α) : Prop :=
  ∀ pool a pool', pool.Valid → x pool = some (a, pool') →
    pool.Refines pool' ∧ ∀ final, pool'.Refines final → x final = some (a, final)

/-- A check that is decided already is stable. -/
theorem Stable.pure (a : α) : Stable (pure a : Check α) := by
  intro pool _ _ hpool h
  cases h
  exact ⟨.refl, fun _ _ => rfl⟩

/-- Stable checks one after the other are a stable check. -/
theorem Stable.bind {x : Check α} {f : α → Check β} (hx : Stable x) (hf : ∀ a, Stable (f a)) :
    Stable (x >>= f) := by
  intro pool b pool' hpool h
  obtain ⟨⟨a, mid⟩, hfirst, hsecond⟩ := Option.bind_eq_some_iff.1 h
  obtain ⟨hmid, hagain⟩ := hx pool a mid hpool hfirst
  obtain ⟨hlast, hagain'⟩ := hf a mid b pool' (hmid.valid hpool) hsecond
  refine ⟨hmid.trans hlast, fun final hfinal => ?_⟩
  have hx' := hagain final (hlast.trans hfinal)
  exact Option.bind_eq_some_iff.2 ⟨(a, final), hx', hagain' final hfinal⟩

/-- A check that passes where two checks do ends with the first one if that one fails. -/
theorem and_run {x y : Check Bool} {pool mid : TypePool} {verdict : Bool}
    (h : x pool = some (verdict, mid)) :
    (do if ← x then y else return false : Check Bool) pool =
      if verdict then y mid else some (false, mid) := by
  change (x pool).bind _ = _
  rw [h]
  cases verdict <;> rfl

/-- A check that passes where two stable checks do. -/
theorem Stable.and {x y : Check Bool} (hx : Stable x) (hy : Stable y) :
    Stable (do if ← x then y else return false) := by
  apply Stable.bind hx
  intro verdict
  cases verdict with
  | true => exact hy
  | false => exact .pure false

/-- Comparing descriptions is stable if comparing their parts is. -/
theorem stable_compareData {compare : TypeId → TypeId → Check Bool}
    (hcompare : ∀ a b, Stable (compare a b)) (x y : TypeData) :
    Stable (compareData compare x y) :=
  compareData_rel (R := fun x _ => Stable x) (g := compare) Stable.pure Stable.and
    fun a _ b _ => (hcompare a b).and (hcompare b a)

/-- One level of a comparison. -/
theorem canAssignWithin_succ (depth : Nat) (target given : TypeId) (pool : TypePool) :
    canAssignWithin (depth + 1) target given pool =
      if pool.resolve target = pool.resolve given then some (true, pool)
      else if pool.isHole (pool.resolve target) then
        some (true, pool.bind (pool.resolve target) (pool.resolve given))
      else if pool.isHole (pool.resolve given) then
        some (true, pool.bind (pool.resolve given) (pool.resolve target))
      else if isLenient (pool.resolve target) || isLenient (pool.resolve given) then
        some (true, pool)
      else compareData (canAssignWithin depth) (pool.get (pool.resolve target))
        (pool.get (pool.resolve given)) pool := by
  rw [canAssignWithin]
  simp only [Bind.bind, StateT.bind, MonadState.get, getThe, MonadStateOf.get, StateT.get,
    MonadStateOf.set, Pure.pure, Option.bind_some]
  split
  · rfl
  · split
    · rfl
    · split
      · rfl
      · split <;> rfl

/-- Types that stand for the same type go with one another, also later. -/
theorem canAssignWithin_of_resolve_eq {pool : TypePool} (depth : Nat) {target given : TypeId}
    (h : pool.resolve target = pool.resolve given) :
    canAssignWithin (depth + 1) target given pool = some (true, pool) := by
  rw [canAssignWithin_succ, if_pos h]

/-- The verdict of a comparison is final. A hole that it binds stands for the other type from then
on; all else it looks at are types that are known and stay what they are. -/
theorem stable_canAssignWithin (depth : Nat) (target given : TypeId) :
    Stable (canAssignWithin depth target given) := by
  induction depth generalizing target given with
  | zero =>
    intro pool a pool' _ h
    cases h
  | succ depth ih =>
    intro pool verdict pool' hpool h
    rw [canAssignWithin_succ] at h
    by_cases heq : pool.resolve target = pool.resolve given
    · rw [if_pos heq] at h
      cases h
      exact ⟨.refl, fun final hfinal =>
        canAssignWithin_of_resolve_eq depth (hfinal.resolve_congr hpool heq)⟩
    rw [if_neg heq] at h
    by_cases htarget : pool.isHole (pool.resolve target) = true
    · rw [if_pos htarget] at h
      cases h
      have hbind := hpool.bindable heq htarget
      have hsame : (pool.bind (pool.resolve target) (pool.resolve given)).resolve target =
          (pool.bind (pool.resolve target) (pool.resolve given)).resolve given := by
        rw [hpool.resolve_bind hbind, hpool.resolve_bind hbind, if_pos rfl, if_neg (Ne.symm heq)]
      exact ⟨.bind .refl hbind, fun final hfinal =>
        canAssignWithin_of_resolve_eq depth (hfinal.resolve_congr (hpool.bind hbind) hsame)⟩
    rw [if_neg htarget] at h
    by_cases hgiven : pool.isHole (pool.resolve given) = true
    · rw [if_pos hgiven] at h
      cases h
      have hbind := hpool.bindable (Ne.symm heq) hgiven
      have hsame : (pool.bind (pool.resolve given) (pool.resolve target)).resolve target =
          (pool.bind (pool.resolve given) (pool.resolve target)).resolve given := by
        rw [hpool.resolve_bind hbind, hpool.resolve_bind hbind, if_neg heq, if_pos rfl]
      exact ⟨.bind .refl hbind, fun final hfinal =>
        canAssignWithin_of_resolve_eq depth (hfinal.resolve_congr (hpool.bind hbind) hsame)⟩
    rw [if_neg hgiven] at h
    -- from here on both types are known, so they are the same in every later pool
    have hlater {final : TypePool} (hfinal : pool.Refines final) :
        canAssignWithin (depth + 1) target given final =
          if isLenient (pool.resolve target) || isLenient (pool.resolve given) then
            some (true, final)
          else compareData (canAssignWithin depth) (pool.get (pool.resolve target))
            (pool.get (pool.resolve given)) final := by
      rw [canAssignWithin_succ, hfinal.resolve_eq hpool (Bool.eq_false_iff.2 htarget),
        hfinal.resolve_eq hpool (Bool.eq_false_iff.2 hgiven), hfinal.isHole_eq, hfinal.isHole_eq,
        hfinal.get_eq, hfinal.get_eq, if_neg heq, if_neg htarget, if_neg hgiven]
    by_cases hlenient : (isLenient (pool.resolve target) || isLenient (pool.resolve given)) = true
    · rw [if_pos hlenient] at h
      cases h
      exact ⟨.refl, fun final hfinal => by rw [hlater hfinal, if_pos hlenient]⟩
    · rw [if_neg hlenient] at h
      obtain ⟨hrefines, hagain⟩ := stable_compareData ih _ _ pool verdict pool' hpool h
      refine ⟨hrefines, fun final hfinal => ?_⟩
      rw [hlater (hrefines.trans hfinal), if_neg hlenient]
      exact hagain final hfinal

/-- The verdict on whether a value of one type can stand where another one is wanted is final. -/
theorem stable_canAssign (target given : TypeId) : Stable (canAssign target given) := by
  intro pool verdict pool' hpool h
  change canAssignWithin pool.compareDepth target given pool = _ at h
  obtain ⟨hrefines, hagain⟩ := stable_canAssignWithin _ _ _ pool verdict pool' hpool h
  refine ⟨hrefines, fun final hfinal => ?_⟩
  change canAssignWithin final.compareDepth target given final = _
  rw [(hrefines.trans hfinal).compareDepth_eq]
  exact hagain final hfinal

end TypePool

end ExpLang
