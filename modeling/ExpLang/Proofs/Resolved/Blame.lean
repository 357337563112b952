import ExpLang.Proofs.Resolved.Layers
import ExpLang.Resolved.Visit

/-!
# Units that nothing was reported about

Where nothing was reported about a unit, no type in it is the one that stands for an error, and an
expression that stands for nothing has an excuse. `CodeUnit.Blameless` takes what counts as an excuse
as a parameter. As for units in order, each way to change a unit keeps it blameless if what is new in
it is.
-/

namespace ExpLang

namespace TypePool

variable {pool pool' : TypePool} {id hole target : TypeId}

/-- A type of the pool that does not stand for an error. -/
structure Proper (pool : TypePool) (id : TypeId) : Prop where
  lt : id < pool.size
  ne_invalid : id ≠ Primitive.invalid.id

/-- A proper type stays proper in a later pool. -/
theorem Proper.keeps (h : pool.Proper id) (hkeeps : pool.Keeps pool') : pool'.Proper id :=
  ⟨Nat.lt_of_lt_of_le h.lt hkeeps.size_le, h.ne_invalid⟩

/-- Where bindings lead to proper types, a proper type stands for one. -/
theorem Proper.resolve (h : pool.Proper id)
    (hbindings : ∀ id next, pool.binding? id = some next → pool.Proper next) :
    pool.Proper (pool.resolve id) := by
  have hwithin : ∀ n id, pool.Proper id → pool.Proper (pool.resolveWithin n id) := by
    intro n
    induction n with
    | zero => exact fun id h => h
    | succ n ih =>
      intro id h
      rw [resolveWithin]
      split
      · rename_i next hnext
        exact ih next (hbindings id next hnext)
      · exact h
  exact hwithin _ id h

/-- A type that was added with something that is not primitive is proper. -/
theorem proper_intern {u : Resolved.CodeUnit} (hu : u.Layered) {d : TypeData}
    (hd : ∀ p, d ≠ .primitive p) : (u.types.intern d).2.Proper (u.types.intern d).1 := by
  refine ⟨intern_fst_lt _ _, fun heq => ?_⟩
  have hget := u.types.get_intern d
  rw [heq, (u.types.keeps_intern d).get_eq _ (hu.primitive_lt _), hu.get_primitive] at hget
  exact hd _ hget.symm

/-- After a binding a hole is bound to the target or as it was before. -/
theorem binding?_bind_of_some {next : TypeId} (h : (pool.bind hole target).binding? id = some next) :
    next = target ∨ pool.binding? id = some next := by
  unfold binding? at h ⊢
  rw [get_bind] at h
  cases hid : pool.get id with
  | hole slot =>
    simp only [hid] at h ⊢
    unfold bind at h
    cases hhole : pool.get hole with
    | hole other =>
      simp only [hhole, Array.getD_eq_getD_getElem?, Array.getElem?_setIfInBounds] at h ⊢
      split at h
      · split at h
        · exact .inl (Option.some.inj h).symm
        · cases h
      · exact .inr h
    | _ =>
      simp only [hhole] at h
      exact .inr h
  | _ =>
    simp only [hid] at h
    cases h

/-- Adding a description binds no hole that was not bound. -/
theorem binding?_push_of_some {d : TypeData} {bindings : Array (Option TypeId)} {next : TypeId}
    (hd : ∀ slot, d = .hole slot → bindings.getD slot none = none)
    (hbindings : ∀ slot, bindings.getD slot none = pool.bindings.getD slot none)
    (h : (TypePool.mk (pool.data.push d) bindings).binding? id = some next) :
    pool.binding? id = some next := by
  unfold binding? at h ⊢
  rw [get_push] at h
  split at h
  · rename_i slot hslot
    split at hslot
    · rw [show bindings.getD slot none = none from hd slot hslot] at h
      cases h
    · rw [hslot]
      rwa [show bindings.getD slot none = _ from hbindings slot] at h
  · cases h

end TypePool

namespace Resolved

variable {P : Expr → Prop} {pool pool' : TypePool}

/-- Every expression in some code that stands for nothing has an excuse. -/
def Excused (P : Expr → Prop) (code : List Visit) : Prop :=
  ∀ name info, Visit.expr (.unknown name info) ∈ code → P (.unknown name info)

/-- Empty code needs no excuse. -/
theorem excused_nil : Excused P [] := fun _ _ h => by cases h

/-- Two pieces of code are excused if each is. -/
theorem excused_append {code code' : List Visit} :
    Excused P (code ++ code') ↔ Excused P code ∧ Excused P code' := by
  constructor
  · intro h
    exact ⟨fun name info hmem => h name info (List.mem_append_left _ hmem),
      fun name info hmem => h name info (List.mem_append_right _ hmem)⟩
  · intro h name info hmem
    rcases List.mem_append.1 hmem with hmem | hmem
    · exact h.1 name info hmem
    · exact h.2 name info hmem

/-- Whether a thing met on a walk is an expression that stands for nothing. -/
def Visit.isUnknown : Visit → Bool
  | .expr (.unknown _ _) => true
  | _ => false

/-- What stands for something needs no excuse. -/
theorem excused_cons {v : Visit} {code : List Visit} (hv : v.isUnknown = false)
    (h : Excused P code) : Excused P (v :: code) := by
  intro name info hmem
  rcases List.mem_cons.1 hmem with rfl | hmem
  · cases hv
  · exact h name info hmem

/-- An expression has a proper type, and what stands for nothing in it has an excuse. -/
structure Expr.Good (P : Expr → Prop) (pool : TypePool) (e : Expr) : Prop where
  type : pool.Proper e.type
  code : Excused P e.visits

/-- A good expression stays good in a later pool. -/
theorem Expr.Good.keeps {e : Expr} (h : e.Good P pool) (hkeeps : pool.Keeps pool') :
    e.Good P pool' := ⟨h.type.keeps hkeeps, h.code⟩

/-- The same of a field. -/
structure FieldDef.Good (P : Expr → Prop) (pool : TypePool) (f : FieldDef) : Prop where
  type : pool.Proper f.type
  init : ∀ e, f.init = some e → Excused P e.visits

/-- A good field stays good in a later pool. -/
theorem FieldDef.Good.keeps {f : FieldDef} (h : f.Good P pool) (hkeeps : pool.Keeps pool') :
    f.Good P pool' := ⟨h.type.keeps hkeeps, h.init⟩

/-- The same of a method. -/
structure MethodDef.Good (P : Expr → Prop) (pool : TypePool) (m : MethodDef) : Prop where
  ret : pool.Proper m.ret
  type : pool.Proper m.type
  param : ∀ p ∈ m.params, pool.Proper p.type
  default : ∀ p ∈ m.params, ∀ e, p.default = some e → Excused P e.visits
  localVar : ∀ l ∈ m.locals, pool.Proper l.type
  body : ∀ s, m.body = some s → Excused P s.visits

/-- A good method stays good in a later pool. -/
theorem MethodDef.Good.keeps {m : MethodDef} (h : m.Good P pool) (hkeeps : pool.Keeps pool') :
    m.Good P pool' where
  ret := h.ret.keeps hkeeps
  type := h.type.keeps hkeeps
  param p hp := (h.param p hp).keeps hkeeps
  default := h.default
  localVar l hl := (h.localVar l hl).keeps hkeeps
  body := h.body

namespace CodeUnit

variable {u u' : CodeUnit} {id : TypeId}

/-- No type of a unit stands for an error, and what stands for nothing in its code has an excuse. -/
structure Blameless (P : Expr → Prop) (u : CodeUnit) : Prop where
  part : ∀ id, ∀ part ∈ (u.types.get id).parts, u.types.Proper part
  binding : ∀ id next, u.types.binding? id = some next → u.types.Proper next
  operator : ∀ entry ∈ u.operators.entries, u.types.Proper entry.2
  classType : ∀ c, u.types.Proper (u.getClass c).type
  field : ∀ i, (u.getField i).Good P u.types
  method : ∀ i, (u.getMethod i).Good P u.types

namespace Blameless

variable (hu : u.Blameless P)

include hu

/-- What a proper type stands for is proper. -/
theorem resolve (h : u.types.Proper id) : u.types.Proper (u.types.resolve id) :=
  h.resolve hu.binding

/-- The type of a local is proper, also of one that is not there. -/
theorem localType (hvoid : u.types.Proper Primitive.void.id) (i : MethodId) (l : LocalId) :
    u.types.Proper ((u.getMethod i).locals.getD l default).type := by
  by_cases hl : l < (u.getMethod i).locals.size
  · rw [← Array.getElem_eq_getD (h := hl)]
    exact (hu.method i).localVar _ (Array.getElem_mem hl)
  · rw [Array.getD, dif_neg hl]
    exact hvoid

/-- The type of a parameter is proper, also of one that is not there. -/
theorem paramType (hvoid : u.types.Proper Primitive.void.id) (i : MethodId) (k : ParamId) :
    u.types.Proper ((u.getMethod i).params.getD k default).type := by
  by_cases hk : k < (u.getMethod i).params.size
  · rw [← Array.getElem_eq_getD (h := hk)]
    exact (hu.method i).param _ (Array.getElem_mem hk)
  · rw [Array.getD, dif_neg hk]
    exact hvoid

/-- The type of a member is proper. -/
theorem memberType (m : Member) : u.types.Proper (u.memberType m) := by
  cases m with
  | field i => exact (hu.field i).type
  | method i => exact (hu.method i).type

/-- Types may be added, and holes bound. -/
theorem withTypes {types : TypePool} (hkeeps : u.types.Keeps types)
    (hpart : ∀ id, u.types.size ≤ id → ∀ part ∈ (types.get id).parts, types.Proper part)
    (hbinding : ∀ id next, types.binding? id = some next → types.Proper next) :
    ({ u with types := types } : CodeUnit).Blameless P where
  part id part hmem := by
    by_cases hid : id < u.types.size
    · rw [show types.get id = u.types.get id from hkeeps.get_eq id hid] at hmem
      exact (hu.part id part hmem).keeps hkeeps
    · exact hpart id (Nat.not_lt.1 hid) part hmem
  binding := hbinding
  operator entry hentry := (hu.operator entry hentry).keeps hkeeps
  classType c := (hu.classType c).keeps hkeeps
  field i := (hu.field i).keeps hkeeps
  method i := (hu.method i).keeps hkeeps

/-- A hole may be bound to a proper type. -/
theorem bindIfUnbound {hole target : TypeId} (htarget : u.types.Proper target) :
    ({ u with types := (u.types.bindIfUnbound hole target).2 } : CodeUnit).Blameless P := by
  have hkeeps := u.types.keeps_bindIfUnbound hole target
  refine hu.withTypes hkeeps (fun id _ part hmem => ?_) fun id next hnext => ?_
  · rw [TypePool.get, TypePool.data_bindIfUnbound] at hmem
    exact (hu.part id part hmem).keeps hkeeps
  · have hold : next = u.types.resolve target ∨ u.types.binding? id = some next := by
      simp only [TypePool.bindIfUnbound] at hnext
      split at hnext
      · exact TypePool.binding?_bind_of_some hnext
      · exact .inr hnext
    rcases hold with rfl | hold
    · exact (htarget.resolve hu.binding).keeps hkeeps
    · exact (hu.binding id next hold).keeps hkeeps

/-- A new hole keeps a unit blameless. -/
theorem newHole : ({ u with types := u.types.newHole.2 } : CodeUnit).Blameless P := by
  have hkeeps := u.types.keeps_push (.hole u.types.bindings.size) (u.types.bindings.push none)
  refine hu.withTypes hkeeps (fun id hid part hmem => ?_) fun id next hnext => ?_
  · rw [TypePool.newHole, TypePool.get_push] at hmem
    split at hmem
    · cases hmem
    · rw [TypePool.get_of_size_le hid] at hmem
      cases hmem
  · refine (hu.binding id next (TypePool.binding?_push_of_some ?_ ?_ hnext)).keeps hkeeps
    · intro slot hslot
      cases hslot
      simp [Array.getD]
    · intro slot
      simp only [Array.getD_eq_getD_getElem?, Array.getElem?_push]
      split
      · rename_i heq
        simp [heq]
      · rfl

/-- A new type made of proper types keeps a unit blameless. -/
theorem intern {d : TypeData} (hd : ∀ slot, d ≠ .hole slot)
    (hparts : ∀ part ∈ d.parts, u.types.Proper part) :
    ({ u with types := (u.types.intern d).2 } : CodeUnit).Blameless P := by
  have hkeeps := u.types.keeps_intern d
  refine hu.withTypes hkeeps (fun id hid part hmem => ?_) fun id next hnext => ?_
  · rw [TypePool.get_intern_of_le hid (TypePool.lt_of_mem_parts hmem)] at hmem
    exact (hparts part hmem).keeps hkeeps
  · refine (hu.binding id next ?_).keeps hkeeps
    unfold TypePool.intern at hnext
    split at hnext
    · exact hnext
    · exact TypePool.binding?_push_of_some (fun slot h => absurd h (hd slot)) (fun _ => rfl) hnext

/-- Creating a class keeps a unit blameless. -/
theorem createClass {name : String} {span : Span} {c : ClassId} (hlayered : u.Layered)
    (h : u.createClass name span = .ok (c, u')) : u'.Blameless P := by
  obtain ⟨d, htype, rfl⟩ := createClass_eq h
  have htypes := hu.intern (d := .ofClass c) nofun nofun
  refine ⟨htypes.part, htypes.binding, htypes.operator, fun k => ?_, htypes.field, htypes.method⟩
  change TypePool.Proper _ ((u.classes.push d).getD k default).type
  rw [getD_push]
  split
  · rw [htype]
    exact TypePool.proper_intern hlayered nofun
  · exact htypes.classType k

/-- Creating a field with a proper type keeps a unit blameless. -/
theorem createField {owner : ClassId} {name : String} {type : TypeId} {modifiers : Modifiers}
    {span : Span} {f : FieldId} (htype : u.types.Proper type)
    (h : u.createField owner name type modifiers span = .ok (f, u')) : u'.Blameless P := by
  obtain ⟨-, d, hd, hinit, rfl⟩ := createField_eq_ok h
  refine ⟨hu.part, hu.binding, hu.operator, fun c => ?_, fun i => ?_, hu.method⟩
  · have hsame := getClass_modify_type u.classes
      (f := fun c => { c with fields := c.fields ++ [f] }) (fun _ => rfl) owner c
    change TypePool.Proper _ ((u.classes.modify owner _).getD c default).type
    rw [hsame]
    exact hu.classType c
  · change FieldDef.Good P _ ((u.fields.push d).getD i default)
    rw [getD_push]
    split
    · refine ⟨hd ▸ htype, fun e he => ?_⟩
      rw [hinit] at he
      cases he
    · exact hu.field i

/-- Creating a method of proper types keeps a unit blameless. -/
theorem createMethod {owner : ClassId} {name : String} {ret : TypeId} {modifiers : Modifiers}
    {params : List (String × TypeId)} {span : Span} {i : MethodId} (hlayered : u.Layered)
    (hret : u.types.Proper ret) (hparams : ∀ p ∈ params, u.types.Proper p.2)
    (h : u.createMethod owner name ret modifiers params span = .ok (i, u')) : u'.Blameless P := by
  obtain ⟨-, m, hm, rfl⟩ := createMethod_eq_ok h
  have hkeeps := u.types.keeps_intern (.function ret (params.map (·.2)))
  have hparts : ∀ part ∈ (TypeData.function ret (params.map (·.2))).parts,
      u.types.Proper part := by
    intro part hpart
    rcases List.mem_cons.1 hpart with rfl | hpart
    · exact hret
    · obtain ⟨p, hp, rfl⟩ := List.mem_map.1 hpart
      exact hparams p hp
  have htypes := hu.intern (d := .function ret (params.map (·.2))) nofun hparts
  refine ⟨htypes.part, htypes.binding, htypes.operator, fun c => ?_, htypes.field, fun k => ?_⟩
  · have hsame := getClass_modify_type u.classes
      (f := fun c => { c with methods := c.methods ++ [i] }) (fun _ => rfl) owner c
    change TypePool.Proper _ ((u.classes.modify owner _).getD c default).type
    rw [hsame]
    exact htypes.classType c
  · change MethodDef.Good P _ ((u.methods.push m).getD k default)
    rw [getD_push]
    split
    · subst hm
      refine ⟨hret.keeps hkeeps, TypePool.proper_intern hlayered nofun,
        fun p hp => ?_, fun p hp e he => ?_, fun l hl => ?_, fun s hs => ?_⟩
      · obtain ⟨q, hq, rfl⟩ := mem_declaredMethod_params hp
        exact (hparams q hq).keeps hkeeps
      · obtain ⟨q, -, rfl⟩ := mem_declaredMethod_params hp
        cases he
      · exact absurd hl (Array.not_mem_empty _)
      · cases hs
    · exact htypes.method k

/-- A method may change if it stays good. -/
theorem modifyMethod {i : MethodId} {f : MethodDef → MethodDef}
    (hf : (u.getMethod i).Good P u.types → (f (u.getMethod i)).Good P u.types) :
    (u.modifyMethod i f).Blameless P := by
  refine ⟨hu.part, hu.binding, hu.operator, hu.classType, hu.field, fun k => ?_⟩
  rw [getMethod_modifyMethod]
  split
  · rename_i h
    rw [← h.1]
    exact hf (hu.method i)
  · exact hu.method k

/-- A field may get its first value. -/
theorem setInit {i : FieldId} {value : Expr} (hvalue : Excused P value.visits) :
    (u.modifyField i fun f => { f with init := some value }).Blameless P := by
  refine ⟨hu.part, hu.binding, hu.operator, hu.classType, fun k => ?_, hu.method⟩
  rw [getField_modifyField]
  split
  · refine ⟨(hu.field k).type, fun e he => ?_⟩
    cases he
    exact hvalue
  · exact hu.field k

end Blameless

end CodeUnit

end Resolved

end ExpLang
