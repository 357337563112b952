import ExpLang.Proofs.Resolved.Units
import ExpLang.Proofs.Types.Finite

/-!
# Types in layers

The types of a unit are made one after the other. An array, and a generic type with its arguments, are
made of plain types that were there before; the type of a function is that of a method, and besides
plain types it has the type of the method's result in it, which may be a hole. `CodeUnit.Layered` says
so, and holds of every unit that lowering works on. So a type can contain itself only where a method
returns one: `CodeUnit.Returns` is the relation between methods that decides.
-/

namespace ExpLang

/-- Whether a type is neither a hole nor a type of functions. -/
def TypeData.isPlain : TypeData → Bool
  | .hole _ | .function _ _ => false
  | _ => true

namespace TypePool

variable {pool pool' : TypePool} {id part : TypeId}

/-- A later pool has the types of an earlier one. -/
structure Keeps (pool pool' : TypePool) : Prop where
  size_le : pool.size ≤ pool'.size
  get_eq : ∀ id < pool.size, pool'.get id = pool.get id

/-- A pool has its own types. -/
theorem Keeps.refl (pool : TypePool) : pool.Keeps pool := ⟨Nat.le_refl _, fun _ _ => rfl⟩

/-- A pool that has the types of a later one has those of an earlier one. -/
theorem Keeps.trans {pool'' : TypePool} (h : pool.Keeps pool') (h' : pool'.Keeps pool'') :
    pool.Keeps pool'' where
  size_le := Nat.le_trans h.size_le h'.size_le
  get_eq id hid := (h'.get_eq id (Nat.lt_of_lt_of_le hid h.size_le)).trans (h.get_eq id hid)

/-- A binding made only if the hole is unbound leaves the list of descriptions. -/
@[simp] theorem data_bindIfUnbound (pool : TypePool) (hole target : TypeId) :
    (pool.bindIfUnbound hole target).2.data = pool.data := by
  simp only [bindIfUnbound]
  split
  · exact data_bind _ _ _
  · rfl

/-- A binding made only if the hole is unbound keeps the types. -/
theorem keeps_bindIfUnbound (pool : TypePool) (hole target : TypeId) :
    pool.Keeps (pool.bindIfUnbound hole target).2 where
  size_le := by rw [size, size, data_bindIfUnbound]
  get_eq id _ := by rw [TypePool.get, TypePool.get, data_bindIfUnbound]

/-- A description added at the end keeps the types before it. -/
theorem keeps_push (pool : TypePool) (d : TypeData) (bindings : Array (Option TypeId)) :
    pool.Keeps ⟨pool.data.push d, bindings⟩ where
  size_le := by simp [size]
  get_eq id hid := by rw [get_push, if_neg (Nat.ne_of_lt hid)]

/-- Interning keeps the types. -/
theorem keeps_intern (pool : TypePool) (d : TypeData) : pool.Keeps (pool.intern d).2 := by
  unfold intern
  split
  · exact .refl _
  · exact keeps_push pool d pool.bindings

/-- An interned description has an index of the pool. -/
theorem intern_fst_lt (pool : TypePool) (d : TypeData) :
    (pool.intern d).1 < (pool.intern d).2.size := by
  unfold intern
  split
  · rename_i id h
    exact (Array.findIdx?_eq_some_iff_getElem.1 h).1
  · simp [size]

/-- The only new type after interning is what was interned. -/
theorem intern_fst_eq {d : TypeData} (hle : pool.size ≤ id) (hlt : id < (pool.intern d).2.size) :
    (pool.intern d).1 = id := by
  unfold intern at hlt ⊢
  cases hfound : pool.data.findIdx? (· == d) with
  | some found =>
    rw [hfound] at hlt
    exact absurd hlt (Nat.not_lt.2 hle)
  | none =>
    simp only [hfound, size, Array.size_push] at hle hlt ⊢
    exact Nat.le_antisymm hle (Nat.le_of_lt_succ hlt)

/-- A type beyond the pool before is the one that was added. -/
theorem get_intern_of_le {d : TypeData} (hle : pool.size ≤ id) (hlt : id < (pool.intern d).2.size) :
    (pool.intern d).2.get id = d := by
  rw [← intern_fst_eq hle hlt, get_intern]

/-- A type with a part is a type of the pool. -/
theorem lt_of_mem_parts (h : part ∈ (pool.get id).parts) : id < pool.size := by
  by_contra hid
  rw [get_of_size_le (Nat.not_lt.1 hid)] at h
  cases h

/-- A function type is a type of the pool. -/
theorem lt_of_get_function {ret : TypeId} {params : List TypeId}
    (h : pool.get id = .function ret params) : id < pool.size := by
  refine lt_of_mem_parts (?_ : ret ∈ (pool.get id).parts)
  rw [h]
  exact List.mem_cons_self

end TypePool

namespace Resolved.CodeUnit

variable {u u' : CodeUnit} {id part : TypeId}

/-- The types of a unit were made in layers: what is not a function is made of older plain types, and
what is a function is the type of a method. -/
structure Layered (u : CodeUnit) : Prop where
  primitive : ∀ p : Primitive, u.types.data[p.id]? = some (.primitive p)
  primitive_eq : ∀ id < u.types.size, ∀ p, u.types.get id = .primitive p → id = p.id
  plain : ∀ id, (u.types.get id).isPlain = true → ∀ part ∈ (u.types.get id).parts,
    part < id ∧ (u.types.get part).isPlain = true
  function : ∀ id ret params, u.types.get id = .function ret params →
    (∀ param ∈ params, param < u.types.size ∧ (u.types.get param).isPlain = true) ∧
      ∃ i < u.methods.size, (u.getMethod i).ret = ret ∧ (u.getMethod i).type = id
  method_type : ∀ i < u.methods.size, ∃ params,
    u.types.get (u.getMethod i).type = .function (u.getMethod i).ret params
  class_type : ∀ c < u.classes.size, (u.getClass c).type < u.types.size ∧
    (u.types.get (u.getClass c).type).isPlain = true

namespace Layered

variable (hu : u.Layered)

include hu

/-- The primitive types are types of a layered unit. -/
theorem primitive_lt (p : Primitive) : p.id < u.types.size :=
  (Array.getElem?_eq_some_iff.1 (hu.primitive p)).1

/-- The index of a primitive describes it in a layered unit. -/
theorem get_primitive (p : Primitive) : u.types.get p.id = .primitive p := by
  rw [TypePool.get, Array.getD_eq_getD_getElem?, hu.primitive, Option.getD_some]

/-- Primitive types are plain. -/
theorem isPlain_primitive (p : Primitive) : (u.types.get p.id).isPlain = true := by
  rw [hu.get_primitive]
  rfl

/-- Types, methods and classes may be added, as long as a new type is a hole, is made of older plain
types, or is that of a method. -/
theorem grow (hkeeps : u.types.Keeps u'.types)
    (hmethods : u.methods.size ≤ u'.methods.size)
    (hsame : ∀ i < u.methods.size, (u'.getMethod i).ret = (u.getMethod i).ret ∧
      (u'.getMethod i).type = (u.getMethod i).type)
    (hadded : ∀ i < u'.methods.size, u.methods.size ≤ i → ∃ params,
      u'.types.get (u'.getMethod i).type = .function (u'.getMethod i).ret params)
    (hclass : ∀ c < u'.classes.size, (u'.getClass c).type < u'.types.size ∧
      (u'.types.get (u'.getClass c).type).isPlain = true)
    (hprimitive : ∀ id < u'.types.size, u.types.size ≤ id → ∀ p, u'.types.get id ≠ .primitive p)
    (hplain : ∀ id, u.types.size ≤ id → (u'.types.get id).isPlain = true →
      ∀ part ∈ (u'.types.get id).parts, part < u.types.size ∧ (u.types.get part).isPlain = true)
    (hfunction : ∀ id ret params, u.types.size ≤ id → u'.types.get id = .function ret params →
      (∀ param ∈ params, param < u.types.size ∧ (u.types.get param).isPlain = true) ∧
        ∃ i < u'.methods.size, (u'.getMethod i).ret = ret ∧ (u'.getMethod i).type = id) :
    u'.Layered := by
  have hold {id : TypeId} (hid : id < u.types.size) : u'.types.get id = u.types.get id :=
    hkeeps.get_eq id hid
  have hkept {id : TypeId} (h : id < u.types.size ∧ (u.types.get id).isPlain = true) :
      id < u'.types.size ∧ (u'.types.get id).isPlain = true :=
    ⟨Nat.lt_of_lt_of_le h.1 hkeeps.size_le, (hold h.1).symm ▸ h.2⟩
  refine ⟨fun p => ?_, fun id hid p hp => ?_, fun id hid part hpart => ?_,
    fun id ret params hget => ?_, fun i hi => ?_, hclass⟩
  · have hlt := Nat.lt_of_lt_of_le (hu.primitive_lt p) hkeeps.size_le
    have hget := (hold (hu.primitive_lt p)).trans (hu.get_primitive p)
    unfold TypePool.size at hlt
    rw [TypePool.get, Array.getD, dif_pos hlt] at hget
    exact Array.getElem?_eq_some_iff.2 ⟨hlt, hget⟩
  · by_cases hlt : id < u.types.size
    · exact hu.primitive_eq id hlt p ((hold hlt).symm.trans hp)
    · exact absurd hp (hprimitive id hid (Nat.not_lt.1 hlt) p)
  · by_cases hlt : id < u.types.size
    · rw [hold hlt] at hid hpart
      obtain ⟨hless, hpart⟩ := hu.plain id hid part hpart
      exact ⟨hless, (hkept ⟨hless.trans hlt, hpart⟩).2⟩
    · have hpart := hplain id (Nat.not_lt.1 hlt) hid part hpart
      exact ⟨Nat.lt_of_lt_of_le hpart.1 (Nat.not_lt.1 hlt), (hkept hpart).2⟩
  · by_cases hlt : id < u.types.size
    · obtain ⟨hparams, i, hi, hret, htype⟩ :=
        hu.function id ret params ((hold hlt).symm.trans hget)
      refine ⟨fun param hparam => hkept (hparams param hparam), i, hi.trans_le hmethods, ?_, ?_⟩
      · rw [(hsame i hi).1, hret]
      · rw [(hsame i hi).2, htype]
    · obtain ⟨hparams, hmethod⟩ := hfunction id ret params (Nat.not_lt.1 hlt) hget
      exact ⟨fun param hparam => hkept (hparams param hparam), hmethod⟩
  · by_cases hlt : i < u.methods.size
    · obtain ⟨params, hparams⟩ := hu.method_type i hlt
      have hid : (u.getMethod i).type < u.types.size := TypePool.lt_of_get_function hparams
      exact ⟨params, by rw [(hsame i hlt).1, (hsame i hlt).2, hold hid, hparams]⟩
    · exact hadded i hi (Nat.not_lt.1 hlt)

/-- Types may be added that are holes or made of older plain types. -/
theorem withTypes {types : TypePool} (hkeeps : u.types.Keeps types)
    (hnew : ∀ id < types.size, u.types.size ≤ id → (∀ p, types.get id ≠ .primitive p) ∧
      (∀ ret params, types.get id ≠ .function ret params) ∧
        ∀ part ∈ (types.get id).parts, part < u.types.size ∧ (u.types.get part).isPlain = true) :
    ({ u with types := types } : CodeUnit).Layered := by
  refine hu.grow hkeeps (Nat.le_refl _) (fun _ _ => ⟨rfl, rfl⟩)
    (fun i hi hle => absurd hi (Nat.not_lt.2 hle)) (fun c hc => ?_)
    (fun id hid hle => (hnew id hid hle).1) (fun id hle _ part hpart => ?_)
    fun id ret params hle hget => ?_
  · obtain ⟨hlt, hplain⟩ := hu.class_type c hc
    exact ⟨Nat.lt_of_lt_of_le hlt hkeeps.size_le, (hkeeps.get_eq _ hlt).symm ▸ hplain⟩
  · exact (hnew id (TypePool.lt_of_mem_parts hpart) hle).2.2 part hpart
  · have hlt : id < types.size := TypePool.lt_of_get_function hget
    exact absurd hget ((hnew id hlt hle).2.1 ret params)

/-- Binding a hole changes no type. -/
theorem bindIfUnbound (hole target : TypeId) :
    ({ u with types := (u.types.bindIfUnbound hole target).2 } : CodeUnit).Layered := by
  refine hu.withTypes (u.types.keeps_bindIfUnbound hole target) fun id hlt hle => ?_
  rw [TypePool.size, TypePool.data_bindIfUnbound] at hlt
  exact absurd hlt (Nat.not_lt.2 hle)

/-- A new hole keeps a unit layered. -/
theorem newHole : ({ u with types := u.types.newHole.2 } : CodeUnit).Layered := by
  refine hu.withTypes (TypePool.keeps_push _ _ _) fun id hlt hle => ?_
  have heq : id = u.types.size := by
    simp only [TypePool.newHole, TypePool.size, Array.size_push] at hle hlt ⊢
    omega
  rw [TypePool.newHole, TypePool.get_push, if_pos heq]
  refine ⟨fun p hp => ?_, fun ret params hget => ?_, fun part hpart => ?_⟩
  · cases hp
  · cases hget
  · cases hpart

/-- A new plain type made of plain types keeps a unit layered. -/
theorem intern {d : TypeData} (hprimitive : ∀ p, d ≠ .primitive p)
    (hfunction : ∀ ret params, d ≠ .function ret params)
    (hparts : ∀ part ∈ d.parts, part < u.types.size ∧ (u.types.get part).isPlain = true) :
    ({ u with types := (u.types.intern d).2 } : CodeUnit).Layered := by
  refine hu.withTypes (u.types.keeps_intern d) fun id hlt hle => ?_
  rw [TypePool.get_intern_of_le hle hlt]
  exact ⟨hprimitive, hfunction, hparts⟩

/-- Methods, fields and classes may change as long as their types do not. -/
theorem withMembers (htypes : u'.types = u.types) (hmethods : u'.methods.size = u.methods.size)
    (hsame : ∀ i, (u'.getMethod i).ret = (u.getMethod i).ret ∧
      (u'.getMethod i).type = (u.getMethod i).type)
    (hclasses : u'.classes.size = u.classes.size)
    (hclass : ∀ c, (u'.getClass c).type = (u.getClass c).type) : u'.Layered := by
  refine ⟨?_, ?_, ?_, ?_, ?_, ?_⟩
  all_goals simp only [htypes, hmethods, hclasses, hsame, hclass]
  · exact hu.primitive
  · exact hu.primitive_eq
  · exact hu.plain
  · exact hu.function
  · exact hu.method_type
  · exact hu.class_type

/-- A method may get locals, defaults and a body. -/
theorem modifyMethod {i : MethodId} {f : MethodDef → MethodDef}
    (hret : (f (u.getMethod i)).ret = (u.getMethod i).ret)
    (htype : (f (u.getMethod i)).type = (u.getMethod i).type) : (u.modifyMethod i f).Layered := by
  refine hu.withMembers rfl (by simp [CodeUnit.modifyMethod]) (fun k => ?_) rfl fun _ => rfl
  rw [getMethod_modifyMethod]
  split
  · rename_i h
    rw [← h.1]
    exact ⟨hret, htype⟩
  · exact ⟨rfl, rfl⟩

end Layered

/-! ## Declaring things -/

/-- What declaring a class adds to a unit. -/
theorem createClass_eq {name : String} {span : Span} {id : ClassId}
    (h : u.createClass name span = .ok (id, u')) :
    ∃ c : ClassDef, c.type = (u.types.intern (.ofClass id)).1 ∧
      u' = { u with
        types := (u.types.intern (.ofClass id)).2
        classes := u.classes.push c } := by
  unfold createClass at h
  split at h
  · cases h
  · cases h
    exact ⟨_, rfl, rfl⟩

/-- Creating a class keeps a unit layered. -/
theorem Layered.createClass (hu : u.Layered) {name : String} {span : Span} {id : ClassId}
    (h : u.createClass name span = .ok (id, u')) : u'.Layered := by
  obtain ⟨c, htype, rfl⟩ := createClass_eq h
  have htypes := hu.intern (d := .ofClass id) nofun nofun nofun
  have hclass (k : ClassId) : (u.classes.push c).getD k default =
      if k = u.classes.size then c else u.getClass k := getD_push u.classes c k
  refine ⟨htypes.primitive, htypes.primitive_eq, htypes.plain, htypes.function, htypes.method_type,
    fun k hk => ?_⟩
  change ((u.classes.push c).getD k default).type < (u.types.intern (.ofClass id)).2.size ∧
    ((u.types.intern (.ofClass id)).2.get ((u.classes.push c).getD k default).type).isPlain = true
  rw [hclass]
  split
  · rw [htype, TypePool.get_intern]
    exact ⟨TypePool.intern_fst_lt _ _, rfl⟩
  · rename_i hne
    simp only [Array.size_push] at hk
    exact htypes.class_type k (Nat.lt_of_le_of_ne (Nat.le_of_lt_succ hk) hne)

/-- Declaring a member in the list of its class changes no type of a class. -/
theorem getClass_modify_type (classes : Array ClassDef) {f : ClassDef → ClassDef}
    (hf : ∀ c, (f c).type = c.type) (owner c : ClassId) :
    ((classes.modify owner f).getD c default).type = (classes.getD c default).type := by
  simp only [Array.getD_eq_getD_getElem?, Array.getElem?_modify]
  by_cases howner : owner = c
  · cases classes[c]? <;> simp [howner, hf]
  · simp [howner]

/-- Creating a field keeps a unit layered. -/
theorem Layered.createField (hu : u.Layered) {owner : ClassId} {name : String} {type : TypeId}
    {modifiers : Modifiers} {span : Span} {id : FieldId}
    (h : u.createField owner name type modifiers span = .ok (id, u')) : u'.Layered := by
  obtain ⟨-, f, -, -, rfl⟩ := createField_eq_ok h
  refine hu.withMembers rfl rfl (fun _ => ⟨rfl, rfl⟩) (by simp) fun c => ?_
  exact getClass_modify_type _ (f := fun c => { c with fields := c.fields ++ [id] }) (fun _ => rfl) _ c

/-- Creating a method whose parameters have plain types keeps a unit layered. -/
theorem Layered.createMethod (hu : u.Layered) {owner : ClassId} {name : String} {ret : TypeId}
    {modifiers : Modifiers} {params : List (String × TypeId)} {span : Span} {id : MethodId}
    (hparams : ∀ p ∈ params, p.2 < u.types.size ∧ (u.types.get p.2).isPlain = true)
    (h : u.createMethod owner name ret modifiers params span = .ok (id, u')) : u'.Layered := by
  obtain ⟨-, m, hm, rfl⟩ := createMethod_eq_ok h
  have hret : m.ret = ret := congrArg MethodDef.ret hm
  have htype : m.type = (u.types.intern (.function ret (params.map (·.2)))).1 :=
    congrArg MethodDef.type hm
  have hmethod (i : MethodId) : (u.methods.push m).getD i default =
      if i = u.methods.size then m else u.getMethod i := getD_push u.methods m i
  have hkeeps := u.types.keeps_intern (.function ret (params.map (·.2)))
  have hget := u.types.get_intern (.function ret (params.map (·.2)))
  have hnew {type : TypeId} (hle : u.types.size ≤ type)
      (hlt : type < (u.types.intern (.function ret (params.map (·.2)))).2.size) :=
    TypePool.get_intern_of_le hle hlt
  refine hu.grow hkeeps (by simp) (fun i hi => ?_) (fun i hi hle => ?_) (fun c hc => ?_)
    (fun type hlt hle p hp => ?_) (fun type hle hplain part hpart => ?_)
    fun type ret' params' hle hfunction => ?_
  · change ((u.methods.push m).getD i default).ret = _ ∧ ((u.methods.push m).getD i default).type = _
    rw [hmethod, if_neg (Nat.ne_of_lt hi)]
    exact ⟨rfl, rfl⟩
  · have heq : i = u.methods.size := by
      simp only [Array.size_push] at hi
      omega
    refine ⟨params.map (·.2), ?_⟩
    change TypePool.get _ ((u.methods.push m).getD i default).type =
      .function ((u.methods.push m).getD i default).ret _
    rw [hmethod, if_pos heq, htype, hret]
    exact hget
  · have hold := getClass_modify_type u.classes
      (f := fun c => { c with methods := c.methods ++ [id] }) (fun _ => rfl) owner c
    obtain ⟨hlt, hplain⟩ := hu.class_type c (by simpa using hc)
    change ((u.classes.modify owner _).getD c default).type < _ ∧
      (TypePool.get _ ((u.classes.modify owner _).getD c default).type).isPlain = true
    rw [hold]
    exact ⟨Nat.lt_of_lt_of_le hlt hkeeps.size_le, (hkeeps.get_eq _ hlt).symm ▸ hplain⟩
  · rw [hnew hle hlt] at hp
    cases hp
  · rw [hnew hle (TypePool.lt_of_mem_parts hpart)] at hplain
    cases hplain
  · have hlt : type < (u.types.intern (.function ret (params.map (·.2)))).2.size :=
      TypePool.lt_of_get_function hfunction
    have heq := (hnew hle hlt).symm.trans hfunction
    cases heq
    refine ⟨fun param hparam => ?_, u.methods.size, by simp, ?_⟩
    · obtain ⟨p, hp, rfl⟩ := List.mem_map.1 hparam
      exact hparams p hp
    · change ((u.methods.push m).getD u.methods.size default).ret = _ ∧
        ((u.methods.push m).getD u.methods.size default).type = _
      rw [hmethod, if_pos rfl, htype]
      exact ⟨hret, TypePool.intern_fst_eq hle hlt⟩

/-! ## Methods that return methods -/

/-- The second method returns the first one. -/
def Returns (u : CodeUnit) (j i : MethodId) : Prop :=
  i < u.methods.size ∧ j < u.methods.size ∧
    u.types.resolve (u.getMethod i).ret = (u.getMethod j).type

section Returns

variable (hu : u.Layered)

include hu

/-- A method that returns another one has the result of the other one in its result. -/
theorem Layered.partOf_of_returns {j i : MethodId} (h : u.Returns j i) :
    u.types.PartOf (u.getMethod j).ret (u.getMethod i).ret := by
  obtain ⟨params, hparams⟩ := hu.method_type j h.2.1
  rw [TypePool.PartOf, h.2.2, hparams]
  exact List.mem_cons_self

/-- If no type is a part of itself, then no method returns itself through others. -/
theorem Layered.acyclic_returns (h : WellFounded u.types.PartOf) : Acyclic u.Returns := by
  have hpath : ∀ j i, Relation.TransGen u.Returns j i →
      Relation.TransGen u.types.PartOf (u.getMethod j).ret (u.getMethod i).ret := by
    intro j i hji
    induction hji with
    | single hstep => exact .single (hu.partOf_of_returns hstep)
    | tail _ hstep ih => exact ih.tail (hu.partOf_of_returns hstep)
  exact fun i hi => h.transGen.irrefl.irrefl _ (hpath i i hi)

omit hu in
/-- A plain type stands for itself. -/
theorem resolve_of_isPlain (h : (u.types.get id).isPlain = true) : u.types.resolve id = id := by
  refine TypePool.resolve_of_root (TypePool.binding?_of_isHole_eq_false ?_)
  unfold TypePool.isHole
  split
  · rename_i hget
    rw [hget] at h
    cases h
  · rfl

/-- A plain type is made of older types. -/
theorem Layered.acc_of_isPlain (h : (u.types.get id).isPlain = true) : Acc u.types.PartOf id := by
  induction id using Nat.strong_induction_on with
  | _ id ih =>
    refine ⟨_, fun part hpart => ?_⟩
    rw [TypePool.PartOf, resolve_of_isPlain h] at hpart
    obtain ⟨hlt, hplain⟩ := hu.plain id h part hpart
    exact ih part hlt hplain

/-- A type does not contain itself if no method does that it stands for. -/
theorem Layered.acc_of_methods (hvalid : u.types.Valid)
    (h : ∀ i < u.methods.size, u.types.resolve id = (u.getMethod i).type →
      Acc u.types.PartOf (u.getMethod i).type) : Acc u.types.PartOf id := by
  have hresolve : Acc u.types.PartOf (u.types.resolve id) → Acc u.types.PartOf id := by
    intro hacc
    refine ⟨_, fun part hpart => hacc.inv ?_⟩
    rwa [TypePool.PartOf, hvalid.resolve_resolve]
  apply hresolve
  cases hget : u.types.get (u.types.resolve id) with
  | hole slot =>
    refine ⟨_, fun part hpart => ?_⟩
    rw [TypePool.PartOf, hvalid.resolve_resolve, hget] at hpart
    cases hpart
  | function ret params =>
    obtain ⟨-, i, hi, -, htype⟩ := hu.function _ ret params hget
    rw [← htype]
    exact h i hi htype.symm
  | _ =>
    apply hu.acc_of_isPlain
    rw [hget]
    rfl

/-- If no method returns itself through others, then no type of a layered unit is a part of itself. -/
theorem Layered.wellFounded_of_acyclic (hvalid : u.types.Valid) (h : Acyclic u.Returns) :
    WellFounded u.types.PartOf := by
  obtain ⟨rank, -, hrank⟩ := h.exists_rank (Finset.range u.methods.size)
    fun _ _ hreturns => Finset.mem_range.2 hreturns.1
  -- a method returns methods of smaller ranks only
  have hmethods : ∀ n i, i < u.methods.size → rank i = n →
      Acc u.types.PartOf (u.getMethod i).type := by
    intro n
    induction n using Nat.strong_induction_on with
    | _ n ih =>
      intro i hi hn
      obtain ⟨params, hparams⟩ := hu.method_type i hi
      have hroot : u.types.resolve (u.getMethod i).type = (u.getMethod i).type := by
        refine TypePool.resolve_of_root (TypePool.binding?_of_isHole_eq_false ?_)
        rw [TypePool.isHole, hparams]
      refine ⟨_, fun part hpart => ?_⟩
      rw [TypePool.PartOf, hroot, hparams] at hpart
      rcases List.mem_cons.1 hpart with rfl | hparam
      · refine hu.acc_of_methods hvalid fun j hj hreturned => ?_
        exact ih _ (hn ▸ hrank j i ⟨hi, hj, hreturned⟩) j hj rfl
      · exact hu.acc_of_isPlain ((hu.function _ _ _ hparams).1 part hparam).2
  exact ⟨fun id => hu.acc_of_methods hvalid fun i hi _ => hmethods _ i hi rfl⟩

/-- The types of a unit are finite if no method returns itself through methods and every result is
known. -/
theorem Layered.finite (hvalid : u.types.Valid) (h : Acyclic u.Returns)
    (hret : ∀ i < u.methods.size, u.types.isUnbound (u.getMethod i).ret = false) :
    u.types.Finite := by
  have hplain {part : TypeId} (h : (u.types.get part).isPlain = true) :
      u.types.isUnbound part = false := by
    rw [TypePool.isUnbound, resolve_of_isPlain h, TypePool.isHole]
    split
    · rename_i hget
      rw [hget] at h
      cases h
    · rfl
  refine ⟨hvalid, hu.wellFounded_of_acyclic hvalid h, fun part id hpart => ?_⟩
  cases hget : u.types.get (u.types.resolve id) with
  | function ret params =>
    obtain ⟨hparams, i, hi, hi', -⟩ := hu.function _ ret params hget
    rw [TypePool.PartOf, hget] at hpart
    rcases List.mem_cons.1 hpart with rfl | hparam
    · rw [← hi']
      exact hret i hi
    · exact hplain (hparams part hparam).2
  | hole slot =>
    rw [TypePool.PartOf, hget] at hpart
    cases hpart
  | _ =>
    refine hplain (hu.plain (u.types.resolve id) ?_ part hpart).2
    rw [hget]
    rfl

end Returns

end Resolved.CodeUnit

end ExpLang
