import ExpLang.Proofs.Types.Interning

/-!
# Types found by a table

A register is a pool with a table that leads from descriptions to indices, so that a type is found
without a search. Types and holes are numbered by words of 32 bits, and what comes after the largest word
gets it once more (`TypeRegister.run_newHole_twice`). Holes are added behind the back of the table. Still
the table and the pool stay inverse to one another on the descriptions of all other types, and as long as
there are words for the types, a register answers as a pool without a table does. So equality of indices
is equality of types.

The bound is one on memory: a description takes dozens of bytes and stands in the pool and in the table, so
that a register with a type for each word takes hundreds of gigabytes.
-/

namespace ExpLang

/-- A pool with a table of the descriptions that were interned. -/
structure TypeRegister where
  /-- The types. -/
  pool : TypePool
  /-- The index of each description that was interned. -/
  table : List (TypeData × TypeId)

/-- A step of a register. -/
abbrev Registering := StateM TypeRegister

namespace TypeRegister

/-- The word for a position. Past the largest word, it is the largest word. -/
def word (position : Nat) : Nat := min position (UInt32.size - 1)

/-- Add a description at the end. -/
def push (d : TypeData) : Registering TypeId := do
  let id := word (← get).pool.size
  modify fun r => { r with pool.data := r.pool.data.push d }
  return id

/-- Look a description up, or add it and put it into the table. -/
def intern (d : TypeData) : Registering TypeId := do
  match (← get).table.lookup d with
  | some id => return id
  | none =>
    let id ← push d
    modify fun r => { r with table := (d, id) :: r.table }
    return id

/-- Add a hole. The table does not learn of it. -/
def newHole : Registering TypeId := do
  let slot := word (← get).pool.bindings.size
  modify fun r => { r with pool.bindings := r.pool.bindings.push none }
  push (.hole slot)

/-- Ask a register. -/
def answer (r : TypeRequest) : Registering TypeId :=
  match r.data? with
  | some d => intern d
  | none => newHole

/-- The descriptions that every compilation begins with. -/
def basics : List TypeData := Primitive.all.map .primitive ++ [.generic "Iterable"]

/-- The register of a new compilation, to which the basic types were added one after the other. -/
def initial : TypeRegister := ((basics.mapM intern).run ⟨⟨#[], #[]⟩, []⟩).2

variable {register : TypeRegister} {pool : TypePool} {d d' : TypeData} {id : TypeId}

/-- A position below the range of a word is its own word. -/
theorem word_of_lt {position : Nat} (h : position < UInt32.size) : word position = position :=
  Nat.min_eq_left (Nat.le_sub_one_of_lt h)

/-- Interning a description of the table gives its number and changes nothing. -/
theorem run_intern_of_some (h : register.table.lookup d = some id) :
    (intern d).run register = (id, register) := by
  simp only [intern, StateT.run_bind, StateT.run_get, pure_bind, h]
  rfl

/-- Interning a description that the table does not have adds it, with the word of its position. -/
theorem run_intern_of_none (h : register.table.lookup d = none) :
    (intern d).run register =
      (word register.pool.size,
        { pool := ⟨register.pool.data.push d, register.pool.bindings⟩
          table := (d, word register.pool.size) :: register.table }) := by
  simp only [intern, StateT.run_bind, StateT.run_get, pure_bind, h]
  rfl

/-- A new hole is added with the word of its position, and the table is left as it was. -/
theorem run_newHole (register : TypeRegister) :
    newHole.run register =
      (word register.pool.size,
        { register with pool :=
          ⟨register.pool.data.push (.hole (word register.pool.bindings.size)),
            register.pool.bindings.push none⟩ }) := rfl

/-- When there are no more words, two holes after one another have the same index. -/
theorem run_newHole_twice (h : UInt32.size - 1 ≤ register.pool.size) :
    (newHole.run register).1 = (newHole.run (newHole.run register).2).1 := by
  have hnext : (newHole.run register).2.pool.size = register.pool.size + 1 := Array.size_push _
  rw [run_newHole register, run_newHole]
  change word register.pool.size = word (newHole.run register).2.pool.size
  rw [hnext, word, word, Nat.min_eq_right h, Nat.min_eq_right (Nat.le_succ_of_le h)]

/-! ## Registers and pools -/

/-- The types of a register are those of a pool, which may have other holes bound, and its table leads to
them, but for the holes. -/
structure Agrees (register : TypeRegister) (pool : TypePool) : Prop where
  data : register.pool.data = pool.data
  holes : register.pool.bindings.size = pool.bindings.size
  lookup : ∀ d, (∀ slot, d ≠ .hole slot) →
    ∀ id, register.table.lookup d = some id ↔ pool.data[id]? = some d

/-- The first register agrees with the first pool. -/
theorem agrees_initial : initial.Agrees .initial where
  data := by decide
  holes := by decide
  lookup d _ id := by
    have hsound : ∀ entry ∈ initial.table,
        TypePool.initial.data[entry.2]? = some entry.1 := by decide
    have hcomplete : ∀ id < 11, initial.table.lookup (TypePool.initial.get id) = some id := by decide
    constructor
    · intro h
      obtain ⟨before, after, htable, -⟩ := List.lookup_eq_some_iff.1 h
      exact hsound (d, id) (htable ▸ List.mem_append_right before List.mem_cons_self)
    · intro h
      have hlookup := hcomplete id (TypePool.lt_size_of_getElem? h)
      rwa [TypePool.get_of_getElem? h] at hlookup

namespace Agrees

/-- A register has as many types as the pool that it agrees with. -/
theorem size_eq (h : register.Agrees pool) : register.pool.size = pool.size :=
  congrArg Array.size h.data

/-- A hole at the end leaves the table as it is. -/
theorem newHole (h : register.Agrees pool) (hsize : pool.size < UInt32.size)
    (hholes : pool.bindings.size ≤ pool.size) :
    ∃ register', TypeRegister.newHole.run register = (pool.size, register') ∧
      register'.Agrees pool.newHole.2 := by
  have hslot : word pool.bindings.size = pool.bindings.size :=
    word_of_lt (Nat.lt_of_le_of_lt hholes hsize)
  rw [run_newHole, h.holes, hslot, h.size_eq, h.data, word_of_lt hsize]
  refine ⟨_, rfl, rfl, ?_, fun d hd id => ?_⟩
  · change (register.pool.bindings.push none).size = (pool.bindings.push none).size
    rw [Array.size_push, Array.size_push, h.holes]
  · exact (h.lookup d hd id).trans (TypePool.getElem?_push_of_ne (hd _)).symm

/-- A description is found in the table if the pool has it, and otherwise the table learns of it. -/
theorem intern (h : register.Agrees pool) (hpool : pool.Canonical) (hd : ∀ slot, d ≠ .hole slot)
    (hsize : (pool.intern d).2.size ≤ UInt32.size) :
    ∃ register', (TypeRegister.intern d).run register = ((pool.intern d).1, register') ∧
      register'.Agrees (pool.intern d).2 := by
  cases hlookup : register.table.lookup d with
  | some id =>
    rw [run_intern_of_some hlookup, hpool.intern_of_getElem? ((h.lookup d hd id).1 hlookup)]
    exact ⟨register, rfl, h⟩
  | none =>
    have hmem : d ∉ pool.data := by
      intro hmem
      obtain ⟨id, hid⟩ := Array.mem_iff_getElem?.1 hmem
      rw [(h.lookup d hd id).2 hid] at hlookup
      cases hlookup
    rw [TypePool.intern_of_notMem hmem] at hsize ⊢
    have hlt : pool.size < UInt32.size := by rwa [TypePool.size, Array.size_push] at hsize
    rw [run_intern_of_none hlookup, h.size_eq, h.data, word_of_lt hlt]
    refine ⟨_, rfl, rfl, h.holes, fun d' hd' id => ?_⟩
    by_cases heq : d' = d
    · subst heq
      rw [List.lookup_cons_self, TypePool.getElem?_push_self_iff hmem, Option.some_inj]
    · rw [TypePool.getElem?_push_of_ne heq, ← h.lookup d' hd' id, List.lookup_cons,
        beq_eq_false_iff_ne.2 heq]

/-- A register answers as its pool does, as long as there are words for the types. -/
theorem answer (h : register.Agrees pool) (hpool : pool.Canonical) (r : TypeRequest)
    (hsize : (r.perform pool).2.size ≤ UInt32.size) :
    ∃ register', (TypeRegister.answer r).run register = ((r.perform pool).1, register') ∧
      register'.Agrees (r.perform pool).2 := by
  cases hdata : r.data? with
  | none =>
    obtain rfl := TypeRequest.eq_newHole hdata
    have hlt : pool.size < UInt32.size := by
      change (pool.data.push _).size ≤ UInt32.size at hsize
      rwa [Array.size_push] at hsize
    exact h.newHole hlt hpool.holes_le
  | some d =>
    rw [TypeRequest.perform_of_data? hdata] at hsize ⊢
    rw [TypeRegister.answer, hdata]
    exact h.intern hpool (TypeRequest.ne_hole_of_data? hdata) hsize

end Agrees

/-- Steps for a list and then for one more element are steps for the longer list. -/
theorem run_mapM_snoc {σ α β : Type} {f : α → StateM σ β} {xs : List α} {x : α} {ys : List β} {y : β}
    {s s' s'' : σ} (hxs : (xs.mapM f).run s = (ys, s')) (hx : (f x).run s' = (y, s'')) :
    ((xs ++ [x]).mapM f).run s = (ys ++ [y], s'') := by
  rw [List.mapM_append, StateT.run_bind, hxs]
  change (do let zs ← [x].mapM f; pure (ys ++ zs) : StateM σ (List β)).run s' = _
  rw [List.mapM_cons, List.mapM_nil, bind_assoc, StateT.run_bind, hx]
  rfl

/-- A register that is asked what a pool was asked gives the same answers and gets the same types, as long
as there are words for them. -/
theorem run_answers {log : List TypeRecord} (h : TypePool.History .initial log pool)
    (hsize : pool.size ≤ UInt32.size) :
    ∃ register, ((log.map (·.request)).mapM answer).run initial = (log.map (·.answer), register) ∧
      register.Agrees pool := by
  induction h with
  | start => exact ⟨initial, rfl, agrees_initial⟩
  | @request log pool r h ih =>
    have hpool := h.canonical TypePool.canonical_initial
    have hle := (hpool.extends_perform r).size_le
    obtain ⟨register, hrun, hagrees⟩ := ih (Nat.le_trans hle hsize)
    obtain ⟨register', hrun', hagrees'⟩ := hagrees.answer hpool r hsize
    refine ⟨register', ?_, hagrees'⟩
    rw [List.map_append, List.map_append]
    exact run_mapM_snoc hrun hrun'
  | @bind log pool pool' h hrefines ih =>
    have hle : pool.size ≤ UInt32.size := by rwa [TypePool.size, ← hrefines.data_eq]
    obtain ⟨register, hrun, hagrees⟩ := ih hle
    refine ⟨register, hrun, ?_, ?_, ?_⟩
    · rw [hagrees.data, hrefines.data_eq]
    · rw [hagrees.holes, hrefines.bindings_size_eq]
    · rw [hrefines.data_eq]
      exact hagrees.lookup

end TypeRegister

namespace TypePool

variable {log : List TypeRecord} {pool : TypePool}

end TypePool

end ExpLang
