import ExpLang.Proofs.Types.Operations

/-!
# Verdicts stay

A comparison that has come to a verdict comes to it again at any later time, whatever types were
added, holes bound and types compared in between, and binds nothing then. One that has passed passes
in the other direction too. The first step is that the comparison binds nothing when it is made
again; from then on a step that binds holes does it no harm because it is stable, and a type that is
added stands behind all that it looks at.
-/

namespace ExpLang.TypePool

variable {pool pool' final : TypePool} {a b : TypeId} {verdict : Bool} {x x' y y' : Check Bool}

/-! ## Checks that bind nothing -/

/-- Binding more holes binds no fewer. -/
theorem Refines.boundCount_le (h : pool.Refines pool') (hpool : pool.Valid) :
    pool.boundCount ≤ pool'.boundCount := by
  induction h with
  | refl => exact Nat.le_refl _
  | bind hrefines hbind ih =>
    rw [(hrefines.valid hpool).boundCount_bind hbind.isHole hbind.free]
    exact Nat.le_succ_of_le ih

/-- Bindings are never undone. -/
theorem Refines.antisymm (h : pool.Refines pool') (h' : pool'.Refines pool) (hpool : pool.Valid) :
    pool' = pool := by
  have hle := h'.boundCount_le (h.valid hpool)
  cases h with
  | refl => rfl
  | bind hrefines hbind =>
    rw [(hrefines.valid hpool).boundCount_bind hbind.isHole hbind.free] at hle
    exact absurd (hrefines.boundCount_le hpool) (Nat.not_le.2 hle)

/-- Binding a free hole makes another pool. -/
theorem Bindable.bind_ne {hole target : TypeId} (h : pool.Bindable hole target)
    (hpool : pool.Valid) : pool.bind hole target ≠ pool := by
  intro heq
  have hcount := hpool.boundCount_bind h.isHole h.free target
  rw [heq] at hcount
  exact Nat.succ_ne_self _ hcount.symm

/-- Where two checks one after the other bind nothing, neither of them does. -/
theorem and_eq_some (hx : Stable x) (hy : Stable y) (hpool : pool.Valid) :
    (do if ← x then y else return false : Check Bool) pool = some (verdict, pool) ↔
      (x pool = some (true, pool) ∧ y pool = some (verdict, pool)) ∨
      (x pool = some (false, pool) ∧ verdict = false) := by
  constructor
  · intro h
    obtain ⟨⟨first, mid⟩, hfirst, hsecond⟩ := Option.bind_eq_some_iff.1 h
    have hmid := (hx pool first mid hpool hfirst).1
    cases first with
    | true =>
      have hlast := (hy mid verdict pool (hmid.valid hpool) hsecond).1
      obtain rfl := hmid.antisymm hlast hpool
      exact .inl ⟨hfirst, hsecond⟩
    | false =>
      cases hsecond
      exact .inr ⟨hfirst, rfl⟩
  · rintro (⟨hpass, hsecond⟩ | ⟨hfail, rfl⟩)
    · rw [and_run hpass, if_pos rfl, hsecond]
    · rw [and_run hfail]
      rfl

/-- A comparison binds nothing and comes to a verdict: the types are the same, or both are known and
one of them goes with everything or their parts are compared without binding anything. -/
theorem canAssignWithin_eq_some (hpool : pool.Valid) (depth : Nat) :
    canAssignWithin (depth + 1) a b pool = some (verdict, pool) ↔
      (pool.resolve a = pool.resolve b ∧ verdict = true) ∨
      (pool.resolve a ≠ pool.resolve b ∧ pool.isUnbound a = false ∧ pool.isUnbound b = false ∧
        if isLenient (pool.resolve a) || isLenient (pool.resolve b) then verdict = true
        else compareData (canAssignWithin depth) (pool.get (pool.resolve a))
          (pool.get (pool.resolve b)) pool = some (verdict, pool)) := by
  rw [canAssignWithin_succ, isUnbound, isUnbound]
  by_cases hne : pool.resolve a = pool.resolve b
  · rw [if_pos hne]
    simp [hne, @eq_comm _ true]
  rw [if_neg hne]
  by_cases ha : pool.isHole (pool.resolve a) = true
  · rw [if_pos ha]
    have hbind := (hpool.bindable hne ha).bind_ne hpool
    simp [hne, ha, hbind]
  rw [if_neg ha]
  by_cases hb : pool.isHole (pool.resolve b) = true
  · rw [if_pos hb]
    have hbind := (hpool.bindable (Ne.symm hne) hb).bind_ne hpool
    simp [hne, hb, hbind]
  rw [if_neg hb]
  split
  · simp [hne, ha, hb, @eq_comm _ true]
  · simp [hne, ha, hb]

/-- The verdicts in `Q` that one check comes to in a pool without binding anything, another one comes
to in another pool without binding anything. -/
structure Carries (Q : Bool → Prop) (pool pool' : TypePool) (x x' : Check Bool) : Prop where
  stable : Stable x
  stable' : Stable x'
  again : ∀ verdict, Q verdict → x pool = some (verdict, pool) → x' pool' = some (verdict, pool')

variable {Q : Bool → Prop}

/-- A verdict that is given already carries over. -/
theorem carries_pure (verdict : Bool) : Carries Q pool pool' (pure verdict) (pure verdict) where
  stable := .pure verdict
  stable' := .pure verdict
  again := fun verdict' _ h => by
    cases h
    rfl

/-- The first one of two checks passes, or its verdict is that of both. -/
theorem Carries.and (hpass : Q true) (hpool : pool.Valid) (hpool' : pool'.Valid)
    (hx : Carries Q pool pool' x x') (hy : Carries Q pool pool' y y') :
    Carries Q pool pool' (do if ← x then y else return false)
      (do if ← x' then y' else return false) where
  stable := hx.stable.and hy.stable
  stable' := hx.stable'.and hy.stable'
  again verdict hverdict h := by
    rw [and_eq_some hx.stable' hy.stable' hpool']
    rcases (and_eq_some hx.stable hy.stable hpool).1 h with ⟨hfirst, hsecond⟩ | ⟨hfirst, rfl⟩
    · exact .inl ⟨hx.again true hpass hfirst, hy.again verdict hverdict hsecond⟩
    · exact .inr ⟨hx.again false hverdict hfirst, rfl⟩

/-! ## Adding types -/

/-- A comparison that binds nothing looks at types of the pool only, so it is the same in a pool with
one more type. -/
theorem carries_canAssignWithin (hpool : pool.Closed) (hpool' : pool'.Valid)
    (happends : pool.Appends pool') {depth depth' : Nat} (hle : depth ≤ depth')
    (ha : a < pool.size) (hb : b < pool.size) :
    Carries (fun _ => True) pool pool' (canAssignWithin depth a b) (canAssignWithin depth' a b) := by
  refine ⟨stable_canAssignWithin _ _ _, stable_canAssignWithin _ _ _, fun verdict _ h => ?_⟩
  induction depth generalizing a b depth' verdict with
  | zero => cases h
  | succ depth ih =>
    obtain ⟨depth', rfl⟩ := Nat.exists_eq_add_one_of_ne_zero (Nat.ne_zero_of_lt hle)
    have hle' : depth ≤ depth' := Nat.le_of_succ_le_succ hle
    have hcompare {a' b' : TypeId} (ha' : a' < pool.size) (hb' : b' < pool.size) :
        Carries (fun _ => True) pool pool' (canAssignWithin depth a' b')
          (canAssignWithin depth' a' b') :=
      ⟨stable_canAssignWithin _ _ _, stable_canAssignWithin _ _ _,
        fun verdict _ h => ih hle' ha' hb' verdict h⟩
    have hparts : Carries (fun _ => True) pool pool'
        (compareData (canAssignWithin depth) (pool.get (pool.resolve a)) (pool.get (pool.resolve b)))
        (compareData (canAssignWithin depth') (pool.get (pool.resolve a))
          (pool.get (pool.resolve b))) := by
      refine compareData_rel carries_pure (.and trivial hpool.valid hpool') fun a' ha' b' hb' => ?_
      have halt := hpool.part_lt _ a' ha'
      have hblt := hpool.part_lt _ b' hb'
      exact (hcompare halt hblt).and trivial hpool.valid hpool' (hcompare hblt halt)
    rw [canAssignWithin_eq_some hpool.valid, isUnbound, isUnbound, isHole, isHole] at h
    rw [canAssignWithin_eq_some hpool', isUnbound, isUnbound, isHole, isHole,
      happends.resolve_eq, happends.resolve_eq, happends.get_eq _ (hpool.resolve_lt ha),
      happends.get_eq _ (hpool.resolve_lt hb)]
    refine h.imp_right (.imp_right (.imp_right (.imp_right fun hlater => ?_)))
    split at hlater
    · rename_i hlenient
      rwa [if_pos hlenient]
    · rename_i hlenient
      rw [if_neg hlenient]
      exact hparts.again verdict trivial hlater

/-! ## The other direction -/

/-- To compare lists the other way round is to compare their elements the other way round. -/
theorem sameAll_flip (compare : TypeId → TypeId → Check Bool) (as bs : List TypeId) :
    sameAll compare bs as = sameAll (fun a b => compare b a) as bs := by
  induction as generalizing bs with
  | nil => cases bs <;> rfl
  | cons a as ih =>
    cases bs with
    | nil => rfl
    | cons b bs =>
      rw [sameAll, sameAll, ih]
      rfl

/-- To compare types the other way round is to compare their parts the other way round. -/
theorem compareData_flip (compare : TypeId → TypeId → Check Bool) (x y : TypeData) :
    compareData compare y x = compareData (fun a b => compare b a) x y := by
  cases x <;> cases y <;> try rfl
  case function.function r p r' p' =>
    simp only [compareData, sameAll_flip compare p p', ne_comm (a := p'.length)]
    rfl
  case specific.specific base args base' args' =>
    simp only [compareData, sameAll_flip compare args args', ne_comm (a := args'.length),
      ne_comm (a := base')]

/-- Parts are compared in both directions, so types that go with one another when nothing is bound go
with one another the other way round. -/
theorem canAssignWithin_symm (hpool : pool.Valid) {depth : Nat}
    (h : canAssignWithin depth a b pool = some (true, pool)) :
    canAssignWithin depth b a pool = some (true, pool) := by
  cases depth with
  | zero => cases h
  | succ depth =>
    have hparts (x y : TypeData) : Carries (· = true) pool pool
        (compareData (canAssignWithin depth) x y) (compareData (canAssignWithin depth) y x) := by
      rw [compareData_flip (canAssignWithin depth) x y]
      refine compareData_rel carries_pure (Carries.and (Q := (· = true)) rfl hpool hpool)
        fun a' _ b' _ => ?_
      have hforth := stable_canAssignWithin depth a' b'
      have hback := stable_canAssignWithin depth b' a'
      refine ⟨hforth.and hback, hback.and hforth, fun verdict hverdict hsame => ?_⟩
      subst hverdict
      rcases (and_eq_some hforth hback hpool).1 hsame with ⟨hpass, hpass'⟩ | ⟨-, hfalse⟩
      · exact (and_eq_some hback hforth hpool).2 (.inl ⟨hpass', hpass⟩)
      · cases hfalse
    rw [canAssignWithin_eq_some hpool] at h ⊢
    refine h.imp (.imp_left Eq.symm) fun hknown => ?_
    obtain ⟨hne, ha, hb, hlater⟩ := hknown
    refine ⟨Ne.symm hne, hb, ha, ?_⟩
    rw [Bool.or_comm]
    split at hlater
    · rename_i hlenient
      rw [if_pos hlenient]
    · rename_i hlenient
      rw [if_neg hlenient]
      exact (hparts _ _).again true rfl hlater

/-! ## Whole runs -/

/-- A verdict that was come to without binding anything is come to again after any uses. -/
theorem canAssign_later (hlater : Later pool final) (hpool : pool.Closed) (ha : a < pool.size)
    (hb : b < pool.size) (h : canAssign a b pool = some (verdict, pool)) :
    canAssign a b final = some (verdict, final) ∧ final.Closed ∧ pool.size ≤ final.size := by
  induction hlater with
  | refl => exact ⟨h, hpool, Nat.le_refl _⟩
  | @tail mid final _ hstep ih =>
    obtain ⟨hmid, hclosed, hle⟩ := ih
    obtain ⟨hclosed', hrefines | happends⟩ := hstep.cases hclosed
    · have hagain := (stable_canAssign a b mid verdict mid hclosed.valid hmid).2
      refine ⟨hagain final hrefines, hclosed', ?_⟩
      rwa [size, size, hrefines.data_eq]
    · have hcarries := carries_canAssignWithin hclosed hclosed'.valid happends
        happends.compareDepth_le (Nat.lt_of_lt_of_le ha hle) (Nat.lt_of_lt_of_le hb hle)
      exact ⟨hcarries.again verdict trivial hmid, hclosed', Nat.le_trans hle happends.size_le⟩

/-- In every pool that comes about by adding types and holes, binding holes and comparing types: once
two types were compared, they are compared to the same verdict after any further uses of the pool,
and nothing is bound then; if they go with one another, they do so in the other direction too. -/
theorem canAssign_final (hpool : Reachable pool) (ha : a < pool.size) (hb : b < pool.size)
    (h : canAssign a b pool = some (verdict, pool')) (hfinal : Later pool' final) :
    canAssign a b final = some (verdict, final) ∧
      (verdict = true → canAssign b a final = some (true, final)) := by
  have hclosed := hpool.closed
  obtain ⟨hrefines, hagain⟩ := stable_canAssign a b pool verdict pool' hclosed.valid h
  have hclosed' := ((Step.canAssign ha hb h).cases hclosed).1
  have hsize : pool'.size = pool.size := by rw [size, size, hrefines.data_eq]
  obtain ⟨hforth, hvalid, -⟩ := canAssign_later hfinal hclosed' (hsize ▸ ha) (hsize ▸ hb)
    (hagain pool' .refl)
  refine ⟨hforth, fun hpass => ?_⟩
  subst hpass
  exact canAssignWithin_symm hvalid.valid hforth

/-- Arrays of a hole, and arrays of integers. -/
def twoArrays : TypePool :=
  ((initial.newHole.2.intern (.array 11)).2.intern (.array Primitive.int.id)).2

/-- Arrays of a hole and of integers are types of a compilation. -/
theorem reachable_twoArrays : Reachable twoArrays := by
  have hhole : Reachable initial.newHole.2 := .single .newHole
  have harray := hhole.tail (.intern (.array 11) nofun (by decide +kernel))
  exact harray.tail (.intern (.array Primitive.int.id) nofun (by decide +kernel))

/-- Comparing the arrays binds the hole, and comparing them again binds nothing. -/
theorem canAssign_final_twoArrays : ∃ pool' final,
    canAssign 12 13 twoArrays = some (true, pool') ∧ pool' ≠ twoArrays ∧ Later pool' final ∧
      final ≠ pool' ∧ canAssign 12 13 final = some (true, final) ∧
      canAssign 13 12 final = some (true, final) := by
  have hbound : canAssign 12 13 twoArrays = some (true, twoArrays.bind 11 2) := by decide +kernel
  have hlater : Later (twoArrays.bind 11 2) (twoArrays.bind 11 2).newHole.2 := .single .newHole
  obtain ⟨hforth, hback⟩ := canAssign_final reachable_twoArrays (by decide +kernel)
    (by decide +kernel) hbound hlater
  exact ⟨_, _, hbound, by decide +kernel, hlater, by decide +kernel, hforth, hback rfl⟩

end ExpLang.TypePool
