import Mathlib.Data.List.Nodup
import ExpLang.Proofs.Types.Trees

/-!
# Interning

A pool is asked for types one after the other: for what has a description, or for a new hole. A log lists
the requests with the answers, and `TypePool.History` are the pools that requests lead to, where holes may
be bound in between. A description is searched for before it is added, and each hole has a number of its
own, so no such pool has a description twice (`TypePool.Canonical`). A request leaves every type at its
index. Hence every index of the pool was given as an answer, and it is that of the description that was
asked for, from then on.
-/

namespace ExpLang

/-- A request for a type. -/
inductive TypeRequest where
  /-- A type that is no hole, by its description. -/
  | intern (d : TypeData) (ne_hole : ∀ slot, d ≠ .hole slot)
  /-- Arrays of an element type. -/
  | array (element : TypeId)
  /-- Functions with a result and parameters. -/
  | function (ret : TypeId) (params : List TypeId)
  /-- The objects of a class. -/
  | ofClass (id : ClassId)
  /-- `Iterable` of an element type. -/
  | iterable (element : TypeId)
  /-- A new hole. -/
  | newHole

namespace TypeRequest

/-- The description of the type that is asked for, unless it is a new hole. -/
def data? : TypeRequest → Option TypeData
  | intern d _ => some d
  | array element => some (.array element)
  | function ret params => some (.function ret params)
  | ofClass id => some (.ofClass id)
  | iterable element => some (.specific TypePool.iterableBase [element])
  | newHole => none

/-- The types that the type is made of. -/
def parts (r : TypeRequest) : List TypeId := (r.data?.map TypeData.parts).getD []

/-- The description that a pool gives the type. A new hole has the next number. -/
def description (r : TypeRequest) (pool : TypePool) : TypeData :=
  r.data?.getD (.hole pool.bindings.size)

/-- Ask a pool. -/
def perform (r : TypeRequest) (pool : TypePool) : TypeId × TypePool :=
  match r with
  | intern d _ => pool.intern d
  | array element => pool.array element
  | function ret params => pool.function ret params
  | ofClass id => pool.ofClass id
  | iterable element => pool.iterable element
  | newHole => pool.newHole

variable {r : TypeRequest} {d : TypeData}

/-- The description of a request that has one is no hole. -/
theorem ne_hole_of_data? (h : r.data? = some d) (slot : Nat) : d ≠ .hole slot := by
  cases r with
  | intern d' ne_hole =>
    cases h
    exact ne_hole slot
  | array | function | ofClass | iterable =>
    cases h
    nofun
  | newHole => cases h

/-- All requests but those for holes are requests to intern a description. -/
theorem perform_of_data? (h : r.data? = some d) (pool : TypePool) :
    r.perform pool = pool.intern d := by
  cases r with
  | newHole => cases h
  | intern | array | function | ofClass | iterable =>
    cases h
    rfl

/-- A request without a description asks for a new hole. -/
theorem eq_newHole (h : r.data? = none) : r = newHole := by
  cases r with
  | newHole => rfl
  | intern | array | function | ofClass | iterable => cases h

/-- A request that has a description gives it in every pool. -/
theorem description_of_data? (h : r.data? = some d) (pool : TypePool) : r.description pool = d := by
  rw [description, h, Option.getD_some]

/-- The parts of the given description are the parts of the request, a hole having none. -/
theorem parts_description (r : TypeRequest) (pool : TypePool) :
    (r.description pool).parts = r.parts := by
  cases r <;> rfl

end TypeRequest

/-- A request and the answer to it. -/
structure TypeRecord where
  /-- What was asked for. -/
  request : TypeRequest
  /-- The index that was given. -/
  answer : TypeId

namespace TypePool

variable {pool pool' pool'' : TypePool} {id : TypeId} {d d' : TypeData}

/-! ## Descriptions at the end -/

/-- A description at an index is the one the pool reads there. -/
theorem get_of_getElem? (h : pool.data[id]? = some d) : pool.get id = d := by
  rw [TypePool.get, Array.getD_eq_getD_getElem?, h, Option.getD_some]

/-- An index with a description is below the size. -/
theorem lt_size_of_getElem? (h : pool.data[id]? = some d) : id < pool.size :=
  (Array.getElem?_eq_some_iff.1 h).1

/-- Adding another description changes nothing about where a description stands. -/
theorem getElem?_push_of_ne (h : d' ≠ d) :
    (pool.data.push d)[id]? = some d' ↔ pool.data[id]? = some d' := by
  rw [Array.getElem?_push]
  split
  · rename_i hid
    rw [hid, Array.getElem?_size]
    simp [Ne.symm h]
  · rfl

/-- A description added for the first time stands at the end only. -/
theorem getElem?_push_self_iff (h : d ∉ pool.data) :
    (pool.data.push d)[id]? = some d ↔ pool.size = id := by
  rw [Array.getElem?_push]
  split
  · rename_i hid
    exact iff_of_true rfl hid.symm
  · rename_i hid
    exact iff_of_false (fun hd => h (Array.mem_iff_getElem?.2 ⟨id, hd⟩)) (Ne.symm hid)

/-- What stands at an index of one pool stands there in another one. -/
def Extends (pool pool' : TypePool) : Prop :=
  ∀ (id : TypeId) (d : TypeData), pool.data[id]? = some d → pool'.data[id]? = some d

/-- A pool extends itself. -/
theorem Extends.refl (pool : TypePool) : pool.Extends pool := fun _ _ h => h

/-- Extending an extension extends the first pool. -/
theorem Extends.trans (h : pool.Extends pool') (h' : pool'.Extends pool'') : pool.Extends pool'' :=
  fun id d hd => h' id d (h id d hd)

/-- An extension has at least as many types. -/
theorem Extends.size_le (h : pool.Extends pool') : pool.size ≤ pool'.size := by
  by_contra hlt
  have hid : pool'.size < pool.size := Nat.not_le.1 hlt
  have hd := h pool'.size _ (Array.getElem?_eq_getElem hid)
  exact Nat.lt_irrefl _ (lt_size_of_getElem? hd)

/-- A description added at the end extends a pool, whatever its bindings. -/
theorem extends_push (pool : TypePool) (d : TypeData) (bindings : Array (Option TypeId)) :
    pool.Extends ⟨pool.data.push d, bindings⟩ := by
  intro id d' hd'
  have hlt : id < pool.data.size := lt_size_of_getElem? hd'
  rw [Array.getElem?_push, if_neg (Nat.ne_of_lt hlt), hd']

/-- No description stands twice, and the types of a new compilation stand where they belong. -/
structure Canonical (pool : TypePool) : Prop where
  valid : pool.Valid
  nodup : pool.data.toList.Nodup
  iterable : pool.data[iterableBase]? = some (.generic "Iterable")
  /-- There are no more holes than types. -/
  holes_le : pool.bindings.size ≤ pool.size

/-- The first pool has no description twice. -/
theorem canonical_initial : initial.Canonical where
  valid := valid_initial
  nodup := by decide
  iterable := rfl
  holes_le := Nat.zero_le _

namespace Canonical

variable (hpool : pool.Canonical)

include hpool

/-- Interning a description that is there gives its index and changes nothing. -/
theorem intern_of_getElem? (h : pool.data[id]? = some d) : pool.intern d = (id, pool) := by
  unfold TypePool.intern
  split
  · rename_i found hfound
    obtain ⟨hlt, heq, -⟩ := Array.findIdx?_eq_some_iff_getElem.1 hfound
    have hd : pool.data[found]? = some d := by
      rw [Array.getElem?_eq_getElem hlt, eq_of_beq heq]
    rw [index_unique hpool.nodup hd h]
  · rename_i hnone
    have hne := Array.findIdx?_eq_none_iff.1 hnone d (Array.mem_iff_getElem?.2 ⟨id, h⟩)
    rw [beq_self_eq_true] at hne
    cases hne

/-- The number of the next hole is new. -/
theorem newHole_notMem : .hole pool.bindings.size ∉ pool.data := by
  intro hmem
  obtain ⟨id, hid⟩ := Array.mem_iff_getElem?.1 hmem
  exact Nat.lt_irrefl _ (hpool.valid.slot_lt (get_of_getElem? hid))

/-- A new description at the end repeats nothing. -/
theorem push {bindings : Array (Option TypeId)} (hd : d ∉ pool.data)
    (hvalid : (TypePool.mk (pool.data.push d) bindings).Valid)
    (hsize : bindings.size ≤ pool.size + 1) : (TypePool.mk (pool.data.push d) bindings).Canonical where
  valid := hvalid
  nodup := by
    rw [Array.toList_push, ← List.concat_eq_append, List.nodup_concat]
    exact ⟨fun hmem => hd (Array.mem_def.2 hmem), hpool.nodup⟩
  iterable := pool.extends_push d bindings _ _ hpool.iterable
  holes_le := by rwa [size, Array.size_push]

/-- Bindings leave a canonical pool canonical. -/
theorem refines (h : pool.Refines pool') : pool'.Canonical where
  valid := h.valid hpool.valid
  nodup := h.data_eq ▸ hpool.nodup
  iterable := h.data_eq ▸ hpool.iterable
  holes_le := by
    rw [h.bindings_size_eq, size, h.data_eq]
    exact hpool.holes_le

end Canonical

/-- Interning a description that is not there adds it at the end. -/
theorem intern_of_notMem (h : d ∉ pool.data) :
    pool.intern d = (pool.size, { pool with data := pool.data.push d }) := by
  have hnone : pool.data.findIdx? (· == d) = none := by
    rw [Array.findIdx?_eq_none_iff]
    intro d' hd'
    exact beq_eq_false_iff_ne.2 (ne_of_mem_of_not_mem hd' h)
  rw [TypePool.intern, hnone]

/-! ## One request -/

/-- How a pool answers a request: with the index that the description has, or by adding the description,
which makes a pool without repetition again. -/
theorem Canonical.perform_cases (hpool : pool.Canonical) (r : TypeRequest) :
    (∃ id, pool.data[id]? = some (r.description pool) ∧ r.perform pool = (id, pool)) ∨
    ∃ bindings, r.perform pool = (pool.size, ⟨pool.data.push (r.description pool), bindings⟩) ∧
      (r.perform pool).2.Canonical := by
  cases hdata : r.data? with
  | none =>
    obtain rfl := TypeRequest.eq_newHole hdata
    refine .inr ⟨_, rfl, hpool.push hpool.newHole_notMem hpool.valid.newHole ?_⟩
    rw [Array.size_push]
    exact Nat.succ_le_succ hpool.holes_le
  | some d =>
    rw [TypeRequest.perform_of_data? hdata, TypeRequest.description_of_data? hdata]
    by_cases hmem : d ∈ pool.data
    · obtain ⟨id, hid⟩ := Array.mem_iff_getElem?.1 hmem
      exact .inl ⟨id, hid, hpool.intern_of_getElem? hid⟩
    · have hvalid := hpool.valid.push (TypeRequest.ne_hole_of_data? hdata)
      rw [intern_of_notMem hmem]
      exact .inr ⟨_, rfl, hpool.push hmem hvalid (Nat.le_succ_of_le hpool.holes_le)⟩

namespace Canonical

variable (hpool : pool.Canonical) (r : TypeRequest)

include hpool

/-- Every request leaves a canonical pool canonical. -/
theorem perform : (r.perform pool).2.Canonical := by
  rcases hpool.perform_cases r with ⟨id, -, hperform⟩ | ⟨-, -, hcanonical⟩
  · rwa [hperform]
  · exact hcanonical

/-- A request leaves every type at its index. -/
theorem extends_perform : pool.Extends (r.perform pool).2 := by
  rcases hpool.perform_cases r with ⟨id, -, hperform⟩ | ⟨bindings, hperform, -⟩
  · rw [hperform]
    exact .refl pool
  · rw [hperform]
    exact pool.extends_push _ bindings

/-- The pool has no other new index than the one that it gives. -/
theorem lt_size_perform_iff :
    id < (r.perform pool).2.size ↔ id < pool.size ∨ (r.perform pool).1 = id := by
  rcases hpool.perform_cases r with ⟨found, hid, hperform⟩ | ⟨bindings, hperform, -⟩
  · have hlt := lt_size_of_getElem? hid
    rw [hperform]
    refine ⟨.inl, ?_⟩
    rintro (h | rfl)
    · exact h
    · exact hlt
  · rw [hperform, size, Array.size_push, Nat.lt_succ_iff_lt_or_eq, eq_comm (a := pool.size)]
    rfl

end Canonical

/-! ## Histories -/

/-- The pools that requests lead to from a pool, with a log of the requests and the answers. Holes may be
bound at any time. -/
inductive History (start : TypePool) : List TypeRecord → TypePool → Prop
  | start : History start [] start
  | request {log : List TypeRecord} {pool : TypePool} (r : TypeRequest) :
      History start log pool →
      History start (log ++ [⟨r, (r.perform pool).1⟩]) (r.perform pool).2
  | bind {log : List TypeRecord} {pool pool' : TypePool} :
      History start log pool → pool.Refines pool' → History start log pool'

/-- An index was given as an answer, or is that of a type of a new compilation. -/
def Issued (log : List TypeRecord) (id : TypeId) : Prop :=
  id < initial.size ∨ ∃ r ∈ log, r.answer = id

instance (log : List TypeRecord) : DecidablePred (Issued log) := fun id =>
  inferInstanceAs (Decidable (id < initial.size ∨ ∃ r ∈ log, r.answer = id))

/-- Every request is for a type that is made of types with indices that were given before. -/
def Founded (log : List TypeRecord) : Prop :=
  ∀ before r after, log = before ++ r :: after → ∀ part ∈ r.request.parts, Issued before part

/-- A log is founded if it was before its last request and that request is made of answered types. -/
theorem founded_snoc {log : List TypeRecord} {r : TypeRecord} :
    Founded (log ++ [r]) ↔ Founded log ∧ ∀ part ∈ r.request.parts, Issued log part := by
  constructor
  · refine fun h => ⟨fun before r' after hlog => ?_, h log r [] rfl⟩
    exact h before r' (after ++ [r]) (by rw [hlog, List.append_assoc, List.cons_append])
  · rintro ⟨hlog, hlast⟩ before r' after heq
    rcases List.eq_nil_or_concat after with rfl | ⟨after', last, rfl⟩
    · obtain ⟨rfl, hr⟩ := List.append_inj' heq rfl
      cases hr
      exact hlast
    · rw [List.concat_eq_append, ← List.cons_append, ← List.append_assoc] at heq
      exact hlog before r' after' (List.append_inj' heq rfl).1

namespace History

variable {start : TypePool} {log : List TypeRecord}

/-- Every pool that a history reaches from a canonical one is canonical. -/
theorem canonical (h : History start log pool) (hstart : start.Canonical) : pool.Canonical := by
  induction h with
  | start => exact hstart
  | request r _ ih => exact ih.perform r
  | bind _ hrefines ih => exact ih.refines hrefines

/-- The pool has the types with the indices that were given, and no other ones. -/
theorem issued_iff (h : History initial log pool) : Issued log id ↔ id < pool.size := by
  induction h with
  | start => simp [Issued]
  | @request log pool r h ih =>
    rw [(h.canonical canonical_initial).lt_size_perform_iff, ← ih]
    simp only [Issued, List.mem_append, List.mem_singleton, or_assoc, or_and_right, exists_or,
      exists_eq_left]
  | bind _ hrefines ih => rw [ih, size, size, hrefines.data_eq]

/-- Types that are made of earlier ones stand behind them. -/
theorem ordered (h : History initial log pool) (hlog : Founded log) : pool.Ordered := by
  induction h with
  | start =>
    intro id d hd part hpart
    have hparts := parts_get_initial id
    rw [get_of_getElem? hd] at hparts
    rw [hparts] at hpart
    cases hpart
  | @request log pool r h ih =>
    obtain ⟨hbefore, hlast⟩ := founded_snoc.1 hlog
    have hold := ih hbefore
    have hnew : ∀ part ∈ (r.description pool).parts, part < pool.size := by
      rw [TypeRequest.parts_description]
      exact fun part hpart => h.issued_iff.1 (hlast part hpart)
    rcases (h.canonical canonical_initial).perform_cases r with
      ⟨id, -, hperform⟩ | ⟨bindings, hperform, -⟩
    · rwa [hperform]
    · rw [hperform]
      intro id d hd part hpart
      rw [Array.getElem?_push] at hd
      split at hd
      · rename_i hid
        cases hd
        exact hid ▸ hnew part hpart
      · exact hold id d hd part hpart
  | bind _ hrefines ih =>
    intro id d hd
    rw [hrefines.data_eq] at hd
    exact ih hlog id d hd

end History

end TypePool

end ExpLang
