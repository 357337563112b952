import ExpLang.Proofs.Resolved.MethodNames
import ExpLang.Proofs.Types.Binding

/-!
# Units in order

A unit is in order if its types are, if every hole is the type of something that the unit declares,
if each method and field stands in the list of one class once and the lists name nothing else, if
code names methods of the unit only, and if every method has a body. While a unit is being made there are
exceptions: holes that were made for something not declared yet, and methods whose bodies are still
to come. `CodeUnit.Sound` takes them as parameters. Each way to change a unit keeps it in order, with
the exceptions that its lemma names.
-/

namespace ExpLang.Resolved

namespace CodeUnit

variable {u u' : CodeUnit}

/-- A type is that of something that the unit declares. -/
inductive Owns (u : CodeUnit) (type : TypeId) : Prop
  | ret (i : MethodId) : i < u.methods.size → (u.getMethod i).ret = type → Owns u type
  | localVar (i : MethodId) (l : LocalDef) : i < u.methods.size → l ∈ (u.getMethod i).locals →
      l.type = type → Owns u type
  | field (i : FieldId) : i < u.fields.size → (u.getField i).type = type → Owns u type

/-- A unit is in order, but for some holes that nothing has as its type and for some methods
without a body. -/
structure Sound (holes : TypeId → Prop) (bodies : MethodId → Prop) (u : CodeUnit) : Prop where
  types : u.types.Valid
  owned : ∀ id, u.types.isHole id = true → holes id ∨ u.Owns id
  methods_once : (u.classes.toList.flatMap (·.methods)).Perm (List.range u.methods.size)
  fields_once : (u.classes.toList.flatMap (·.fields)).Perm (List.range u.fields.size)
  method_names : ∀ i < u.methods.size, Below (u.getMethod i).methods u.methods.size
  field_names : ∀ i < u.fields.size, Below (u.getField i).methods u.methods.size
  has_body : ∀ i < u.methods.size, (u.getMethod i).body.isSome = true ∨ bodies i

/-- A unit is in order without exceptions, and all its types are known. -/
structure Complete (u : CodeUnit) : Prop where
  sound : u.Sound (fun _ => False) (fun _ => False)
  known : ∀ id, u.types.isUnbound id = false

/-- A later unit has the classes, fields and methods of an earlier one, with all that is fixed about
them. -/
structure Grows (u u' : CodeUnit) : Prop where
  classes_le : u.classes.size ≤ u'.classes.size
  methods_le : u.methods.size ≤ u'.methods.size
  fields_le : u.fields.size ≤ u'.fields.size
  ret_eq : ∀ i < u.methods.size, (u'.getMethod i).ret = (u.getMethod i).ret
  locals_mem : ∀ i < u.methods.size, ∀ l ∈ (u.getMethod i).locals, l ∈ (u'.getMethod i).locals
  type_eq : ∀ i < u.fields.size, (u'.getField i).type = (u.getField i).type

namespace Grows

/-- A unit has what it has. -/
theorem refl (u : CodeUnit) : u.Grows u :=
  ⟨Nat.le_refl _, Nat.le_refl _, Nat.le_refl _, fun _ _ => rfl, fun _ _ _ h => h, fun _ _ => rfl⟩

/-- A unit that has what a later one has, has what an earlier one has. -/
theorem trans {u'' : CodeUnit} (h : u.Grows u') (h' : u'.Grows u'') : u.Grows u'' where
  classes_le := Nat.le_trans h.classes_le h'.classes_le
  methods_le := Nat.le_trans h.methods_le h'.methods_le
  fields_le := Nat.le_trans h.fields_le h'.fields_le
  ret_eq i hi := (h'.ret_eq i (Nat.lt_of_lt_of_le hi h.methods_le)).trans (h.ret_eq i hi)
  locals_mem i hi l hl :=
    h'.locals_mem i (Nat.lt_of_lt_of_le hi h.methods_le) l (h.locals_mem i hi l hl)
  type_eq i hi := (h'.type_eq i (Nat.lt_of_lt_of_le hi h.fields_le)).trans (h.type_eq i hi)

/-- What is declared stays declared. -/
theorem owns (h : u.Grows u') {type : TypeId} (howns : u.Owns type) : u'.Owns type := by
  cases howns with
  | ret i hi htype =>
    exact .ret i (Nat.lt_of_lt_of_le hi h.methods_le) ((h.ret_eq i hi).trans htype)
  | localVar i l hi hl htype =>
    exact .localVar i l (Nat.lt_of_lt_of_le hi h.methods_le) (h.locals_mem i hi l hl) htype
  | field i hi htype =>
    exact .field i (Nat.lt_of_lt_of_le hi h.fields_le) ((h.type_eq i hi).trans htype)

end Grows

/-- More exceptions do no harm. -/
theorem Sound.mono {holes holes' : TypeId → Prop} {bodies bodies' : MethodId → Prop}
    (h : u.Sound holes bodies) (hholes : ∀ id, holes id → holes' id)
    (hbodies : ∀ i, bodies i → bodies' i) : u.Sound holes' bodies' :=
  { h with
    owned := fun id hid => (h.owned id hid).imp_left (hholes id)
    has_body := fun i hi => (h.has_body i hi).imp_right (hbodies i) }

/-- A number is listed by some class exactly if a class of the unit lists it. -/
theorem mem_flatMap_classes {members : ClassDef → List Nat} {i : Nat} :
    i ∈ u.classes.toList.flatMap members ↔ ∃ c < u.classes.size, i ∈ members (u.getClass c) := by
  simp only [List.mem_flatMap, Array.mem_toList_iff, Array.mem_iff_getElem, getClass]
  constructor
  · intro h
    obtain ⟨_, ⟨c, hc, rfl⟩, hi⟩ := h
    refine ⟨c, hc, ?_⟩
    rwa [Array.getD, dif_pos hc]
  · intro h
    obtain ⟨c, hc, hi⟩ := h
    rw [Array.getD, dif_pos hc] at hi
    exact ⟨_, ⟨c, hc, rfl⟩, hi⟩

section Listed

variable {holes : TypeId → Prop} {bodies : MethodId → Prop} (h : u.Sound holes bodies)

include h

/-- Every method of a sound unit is listed by a class. -/
theorem Sound.method_listed (i : MethodId) (hi : i < u.methods.size) :
    ∃ c < u.classes.size, i ∈ (u.getClass c).methods :=
  mem_flatMap_classes.1 (h.methods_once.mem_iff.2 (List.mem_range.2 hi))

/-- Every field of a sound unit is listed by a class. -/
theorem Sound.field_listed (i : FieldId) (hi : i < u.fields.size) :
    ∃ c < u.classes.size, i ∈ (u.getClass c).fields :=
  mem_flatMap_classes.1 (h.fields_once.mem_iff.2 (List.mem_range.2 hi))

/-- An index beyond the classes stands for a class without members. -/
theorem Sound.method_lt (c : ClassId) (i : MethodId) (hi : i ∈ (u.getClass c).methods) :
    i < u.methods.size := by
  by_cases hc : c < u.classes.size
  · exact List.mem_range.1 (h.methods_once.mem_iff.1 (mem_flatMap_classes.2 ⟨c, hc, hi⟩))
  · rw [getClass, Array.getD, dif_neg hc] at hi
    cases hi

end Listed

/-- An index beyond the fields stands for a field without a first value. -/
theorem Sound.field_names_all {holes : TypeId → Prop} {bodies : MethodId → Prop}
    (h : u.Sound holes bodies) (i : FieldId) : Below (u.getField i).methods u.methods.size := by
  by_cases hi : i < u.fields.size
  · exact h.field_names i hi
  · rw [getField, Array.getD, dif_neg hi]
    exact below_nil

/-! ## Reading a changed unit -/

/-- Changing one element changes what is read there and nothing else. -/
theorem getD_modify {α : Type} [Inhabited α] (xs : Array α) (f : α → α) (id i : Nat) :
    (xs.modify id f).getD i default =
      if id = i ∧ i < xs.size then f (xs.getD i default) else xs.getD i default := by
  simp only [Array.getD_eq_getD_getElem?, Array.getElem?_modify]
  by_cases hid : id = i
  · by_cases hi : i < xs.size
    · simp [hid, hi]
    · simp [hid, hi]
  · simp [hid]

/-- Changing one method changes what is read there and nothing else. -/
theorem getMethod_modifyMethod (u : CodeUnit) (id i : MethodId) (f : MethodDef → MethodDef) :
    (u.modifyMethod id f).getMethod i =
      if id = i ∧ i < u.methods.size then f (u.getMethod i) else u.getMethod i :=
  getD_modify u.methods f id i

/-- Changing one field changes what is read there and nothing else. -/
theorem getField_modifyField (u : CodeUnit) (id i : FieldId) (f : FieldDef → FieldDef) :
    (u.modifyField id f).getField i =
      if id = i ∧ i < u.fields.size then f (u.getField i) else u.getField i :=
  getD_modify u.fields f id i

/-- An added element is read at the old size, and the others where they were. -/
theorem getD_push {α : Type} [Inhabited α] (xs : Array α) (x : α) (i : Nat) :
    (xs.push x).getD i default = if i = xs.size then x else xs.getD i default := by
  simp only [Array.getD_eq_getD_getElem?, Array.getElem?_push]
  split <;> rfl

/-- A class that lists one more member. -/
theorem flatMap_modify_perm {members : ClassDef → List Nat} {f : ClassDef → ClassDef} {id : Nat}
    (hf : ∀ c, members (f c) = members c ++ [id]) (classes : List ClassDef) {owner : Nat}
    (howner : owner < classes.length) :
    ((classes.modify owner f).flatMap members).Perm (classes.flatMap members ++ [id]) := by
  induction classes generalizing owner with
  | nil => exact absurd howner (Nat.not_lt_zero _)
  | cons c rest ih =>
    cases owner with
    | zero =>
      rw [List.modify_zero_cons, List.flatMap_cons, List.flatMap_cons, hf, List.append_assoc,
        List.append_assoc]
      exact List.perm_append_comm.append_left (members c)
    | succ owner =>
      rw [List.modify_succ_cons, List.flatMap_cons, List.flatMap_cons, List.append_assoc]
      exact (ih (Nat.lt_of_succ_lt_succ howner)).append_left (members c)

/-- A change of a class that leaves a list of its members leaves that list over all classes. -/
theorem flatMap_modify_of_eq {members : ClassDef → List Nat} {f : ClassDef → ClassDef}
    (hf : ∀ c, members (f c) = members c) (classes : List ClassDef) (owner : Nat) :
    (classes.modify owner f).flatMap members = classes.flatMap members := by
  induction classes generalizing owner with
  | nil => cases owner <;> rfl
  | cons c rest ih =>
    cases owner with
    | zero => rw [List.modify_zero_cons, List.flatMap_cons, List.flatMap_cons, hf]
    | succ owner => rw [List.modify_succ_cons, List.flatMap_cons, List.flatMap_cons, ih]

/-! ## Changing types -/

/-- Other types leave all that is fixed about a unit. -/
theorem grows_withTypes (u : CodeUnit) (types : TypePool) : u.Grows { u with types := types } :=
  ⟨Nat.le_refl _, Nat.le_refl _, Nat.le_refl _, fun _ _ => rfl, fun _ _ _ h => h, fun _ _ => rfl⟩

/-- Types may be added and holes bound. -/
theorem Sound.withTypes {holes holes' : TypeId → Prop} {bodies : MethodId → Prop}
    (h : u.Sound holes bodies) {types : TypePool} (htypes : types.Valid)
    (hnew : ∀ id, types.isHole id = true → holes' id ∨ u.types.isHole id = true)
    (hholes : ∀ id, holes id → holes' id) :
    ({ u with types := types } : CodeUnit).Sound holes' bodies :=
  { h with
    types := htypes
    owned := by
      intro id hid
      rcases hnew id hid with hopen | hold
      · exact .inl hopen
      · rcases h.owned id hold with hopen | howns
        · exact .inl (hholes id hopen)
        · exact .inr ((grows_withTypes u types).owns howns) }

/-- Binding holes keeps a unit in order. -/
theorem Sound.refines {holes : TypeId → Prop} {bodies : MethodId → Prop}
    (h : u.Sound holes bodies) {types : TypePool} (htypes : u.types.Refines types) :
    ({ u with types := types } : CodeUnit).Sound holes bodies := by
  refine h.withTypes (htypes.valid h.types) (fun id hid => .inr ?_) (fun _ hid => hid)
  rwa [htypes.isHole_eq] at hid

/-- Adding a type that is no hole keeps a unit in order. -/
theorem Sound.intern {holes : TypeId → Prop} {bodies : MethodId → Prop}
    (h : u.Sound holes bodies) {d : TypeData} (hd : ∀ slot, d ≠ .hole slot) :
    ({ u with types := (u.types.intern d).2 } : CodeUnit).Sound holes bodies :=
  h.withTypes (h.types.intern hd) (fun _ hid => .inr (TypePool.isHole_intern hd hid))
    (fun _ hid => hid)

/-- A new hole is an exception until something is declared to have it. -/
theorem Sound.newHole {holes : TypeId → Prop} {bodies : MethodId → Prop}
    (h : u.Sound holes bodies) :
    ({ u with types := u.types.newHole.2 } : CodeUnit).Sound
      (fun id => id = u.types.newHole.1 ∨ holes id) bodies :=
  h.withTypes h.types.newHole (fun _ hid => (TypePool.isHole_newHole hid).imp_left .inl)
    (fun _ hid => .inr hid)

/-! ## Declaring things -/

/-- A class is created with the next number, its type, and no members. -/
theorem createClass_eq_ok {name : String} {span : Span} {id : ClassId}
    (h : u.createClass name span = .ok (id, u')) :
    id = u.classes.size ∧ ∃ c : ClassDef, c.methods = [] ∧ c.fields = [] ∧
      u' = { u with
        types := (u.types.intern (.ofClass id)).2
        classes := u.classes.push c } := by
  unfold createClass at h
  split at h
  · cases h
  · cases h
    exact ⟨rfl, _, rfl, rfl, rfl⟩

/-- A new class has no members yet. -/
theorem Sound.createClass {holes : TypeId → Prop} {bodies : MethodId → Prop}
    (hu : u.Sound holes bodies) {name : String} {span : Span} {id : ClassId}
    (h : u.createClass name span = .ok (id, u')) :
    u'.Sound holes bodies ∧ u.Grows u' ∧ id < u'.classes.size := by
  obtain ⟨rfl, c, hmethods, hfields, rfl⟩ := createClass_eq_ok h
  have hgrows : u.Grows { u with
      types := (u.types.intern (.ofClass u.classes.size)).2, classes := u.classes.push c } :=
    ⟨by simp, Nat.le_refl _, Nat.le_refl _, fun _ _ => rfl, fun _ _ _ h => h, fun _ _ => rfl⟩
  have htypes := hu.intern (d := .ofClass u.classes.size) nofun
  have hsound : Sound holes bodies { u with
      types := (u.types.intern (.ofClass u.classes.size)).2, classes := u.classes.push c } :=
    { htypes with
      owned := by
        intro id hid
        have hold := TypePool.isHole_intern (by nofun) hid
        exact (hu.owned id hold).imp_right hgrows.owns
      methods_once := by
        simp only [Array.toList_push, List.flatMap_append, List.flatMap_singleton, hmethods,
          List.append_nil]
        exact hu.methods_once
      fields_once := by
        simp only [Array.toList_push, List.flatMap_append, List.flatMap_singleton, hfields,
          List.append_nil]
        exact hu.fields_once }
  have hlt : u.classes.size < (u.classes.push c).size := by simp
  exact ⟨hsound, hgrows, hlt⟩

/-- A field is created with the next number, its type, and no initializer. -/
theorem createField_eq_ok {owner : ClassId} {name : String} {type : TypeId} {modifiers : Modifiers}
    {span : Span} {id : FieldId} (h : u.createField owner name type modifiers span = .ok (id, u')) :
    id = u.fields.size ∧ ∃ f : FieldDef, f.type = type ∧ f.init = none ∧
      u' = { u with
        fields := u.fields.push f
        classes := u.classes.modify owner fun c => { c with fields := c.fields ++ [id] } } := by
  unfold createField at h
  split at h
  · cases h
  · cases h
    exact ⟨rfl, _, rfl, rfl, rfl⟩

/-- A new field takes its type out of the exceptions. -/
theorem Sound.createField {holes : TypeId → Prop} {bodies : MethodId → Prop} {type : TypeId}
    (hu : u.Sound (fun id => id = type ∨ holes id) bodies) {owner : ClassId}
    (howner : owner < u.classes.size) {name : String} {modifiers : Modifiers} {span : Span}
    {id : FieldId} (h : u.createField owner name type modifiers span = .ok (id, u')) :
    u'.Sound holes bodies ∧ u.Grows u' := by
  obtain ⟨rfl, f, htype, hinit, rfl⟩ := createField_eq_ok h
  have hfield (i : FieldId) : (u.fields.push f).getD i default =
      if i = u.fields.size then f else u.getField i := getD_push u.fields f i
  have hgrows : u.Grows { u with
      fields := u.fields.push f
      classes := u.classes.modify owner fun c =>
        { c with fields := c.fields ++ [u.fields.size] } } := by
    have htypes : ∀ i < u.fields.size,
        ((u.fields.push f).getD i default).type = (u.getField i).type := by
      intro i hi
      rw [hfield, if_neg (Nat.ne_of_lt hi)]
    exact ⟨by simp, Nat.le_refl _, by simp, fun _ _ => rfl, fun _ _ _ h => h, htypes⟩
  have hsound : Sound holes bodies { u with
      fields := u.fields.push f
      classes := u.classes.modify owner fun c =>
        { c with fields := c.fields ++ [u.fields.size] } } :=
    { hu with
      owned := by
        intro id hid
        rcases hu.owned id hid with (rfl | hopen) | howns
        · have hnew : ((u.fields.push f).getD u.fields.size default).type = id := by
            rw [hfield, if_pos rfl, htype]
          exact .inr (.field u.fields.size (by simp) hnew)
        · exact .inl hopen
        · exact .inr (hgrows.owns howns)
      methods_once := by
        rw [Array.toList_modify, flatMap_modify_of_eq]
        · exact hu.methods_once
        · exact fun _ => rfl
      fields_once := by
        rw [Array.toList_modify, Array.size_push, List.range_succ]
        exact (flatMap_modify_perm (fun _ => rfl) _ howner).trans (hu.fields_once.append_right _)
      field_names := by
        intro i hi
        change Below ((u.fields.push f).getD i default).methods u.methods.size
        simp only [Array.size_push] at hi
        rw [hfield]
        split
        · rw [FieldDef.methods, hinit]
          exact below_nil
        · rename_i hnew
          exact hu.field_names i (Nat.lt_of_le_of_ne (Nat.le_of_lt_succ hi) hnew) }
  exact ⟨hsound, hgrows⟩

/-- The method that a declaration makes: it has no locals and awaits its body. -/
def declaredMethod (u : CodeUnit) (owner : ClassId) (name : String) (ret : TypeId)
    (modifiers : Modifiers) (params : List (String × TypeId)) (span : Span) : MethodDef where
  name := name
  owner := owner
  ret := ret
  type := (u.types.intern (.function ret (params.map (·.2)))).1
  modifiers := modifiers
  params := (params.map fun p => { name := p.1, type := p.2 }).toArray
  names := params.foldl (fun (names : NameSupply) p => (names.take p.1).2) {}
  span := span

/-- A method is created with the next number and its function type. -/
theorem createMethod_eq_ok {owner : ClassId} {name : String} {ret : TypeId} {modifiers : Modifiers}
    {params : List (String × TypeId)} {span : Span} {id : MethodId}
    (h : u.createMethod owner name ret modifiers params span = .ok (id, u')) :
    id = u.methods.size ∧ ∃ m, m = u.declaredMethod owner name ret modifiers params span ∧
      u' = { u with
        types := (u.types.intern (.function ret (params.map (·.2)))).2
        methods := u.methods.push m
        classes := u.classes.modify owner fun c => { c with methods := c.methods ++ [id] } } := by
  unfold createMethod at h
  split at h
  · cases h
  · cases h
    exact ⟨rfl, _, rfl, rfl⟩

/-- No part of a method just declared stands for another method. -/
theorem declaredMethod_methods (u : CodeUnit) (owner : ClassId) (name : String) (ret : TypeId)
    (modifiers : Modifiers) (params : List (String × TypeId)) (span : Span) :
    (u.declaredMethod owner name ret modifiers params span).methods = [] := by
  simp [declaredMethod, MethodDef.methods, ParamDef.methods, List.flatMap_map]

/-- The parameters of a method just declared have no default values. -/
theorem mem_declaredMethod_params {owner : ClassId} {name : String} {ret : TypeId}
    {modifiers : Modifiers} {params : List (String × TypeId)} {span : Span} {p : ParamDef}
    (h : p ∈ (u.declaredMethod owner name ret modifiers params span).params) :
    ∃ q ∈ params, p = { name := q.1, type := q.2 } := by
  rw [declaredMethod, List.mem_toArray, List.mem_map] at h
  obtain ⟨q, hq, rfl⟩ := h
  exact ⟨q, hq, rfl⟩

/-- A new method takes the type of its result out of the exceptions, and lacks a body. -/
theorem Sound.createMethod {holes : TypeId → Prop} {bodies : MethodId → Prop} {ret : TypeId}
    (hu : u.Sound (fun id => id = ret ∨ holes id) bodies) {owner : ClassId}
    (howner : owner < u.classes.size) {name : String} {modifiers : Modifiers}
    {params : List (String × TypeId)} {span : Span} {id : MethodId}
    (h : u.createMethod owner name ret modifiers params span = .ok (id, u')) :
    u'.Sound holes (fun i => i = id ∨ bodies i) ∧ u.Grows u' ∧ id < u'.methods.size := by
  obtain ⟨rfl, m, hm, rfl⟩ := createMethod_eq_ok h
  have hmethod (i : MethodId) : (u.methods.push m).getD i default =
      if i = u.methods.size then m else u.getMethod i := getD_push u.methods m i
  have htypes := hu.intern (d := .function ret (params.map (·.2))) nofun
  have hgrows : u.Grows { u with
      types := (u.types.intern (.function ret (params.map (·.2)))).2
      methods := u.methods.push m
      classes := u.classes.modify owner fun c =>
        { c with methods := c.methods ++ [u.methods.size] } } := by
    have hold : ∀ i < u.methods.size, (u.methods.push m).getD i default = u.getMethod i := by
      intro i hi
      rw [hmethod, if_neg (Nat.ne_of_lt hi)]
    have hlocals : ∀ i < u.methods.size, ∀ l ∈ (u.getMethod i).locals,
        l ∈ ((u.methods.push m).getD i default).locals := by
      intro i hi l hl
      rwa [hold i hi]
    exact ⟨by simp, by simp, Nat.le_refl _, fun i hi => congrArg MethodDef.ret (hold i hi), hlocals,
      fun _ _ => rfl⟩
  have hsound : Sound holes (fun i => i = u.methods.size ∨ bodies i) { u with
      types := (u.types.intern (.function ret (params.map (·.2)))).2
      methods := u.methods.push m
      classes := u.classes.modify owner fun c =>
        { c with methods := c.methods ++ [u.methods.size] } } :=
    { htypes with
      owned := by
        intro id hid
        rcases hu.owned id (TypePool.isHole_intern (by nofun) hid) with (rfl | hopen) | howns
        · have hnew : ((u.methods.push m).getD u.methods.size default).ret = id := by
            rw [hmethod, if_pos rfl, hm, declaredMethod]
          exact .inr (.ret u.methods.size (by simp) hnew)
        · exact .inl hopen
        · exact .inr (hgrows.owns howns)
      methods_once := by
        rw [Array.toList_modify, Array.size_push, List.range_succ]
        exact (flatMap_modify_perm (fun _ => rfl) _ howner).trans (hu.methods_once.append_right _)
      fields_once := by
        rw [Array.toList_modify, flatMap_modify_of_eq]
        · exact hu.fields_once
        · exact fun _ => rfl
      method_names := by
        intro i hi
        change Below ((u.methods.push m).getD i default).methods (u.methods.push m).size
        simp only [Array.size_push] at hi ⊢
        rw [hmethod]
        split
        · rw [hm, declaredMethod_methods]
          exact below_nil
        · rename_i hnew
          have hlt : i < u.methods.size := Nat.lt_of_le_of_ne (Nat.le_of_lt_succ hi) hnew
          exact (hu.method_names i hlt).mono (Nat.le_succ _)
      field_names := fun i hi => (hu.field_names i hi).mono (by simp)
      has_body := by
        intro i hi
        change ((u.methods.push m).getD i default).body.isSome = true ∨ _
        simp only [Array.size_push] at hi
        rw [hmethod]
        split
        · rename_i hnew
          exact .inr (.inl hnew)
        · rename_i hnew
          have hlt : i < u.methods.size := Nat.lt_of_le_of_ne (Nat.le_of_lt_succ hi) hnew
          exact (hu.has_body i hlt).imp_right .inr }
  exact ⟨hsound, hgrows, by simp⟩

/-! ## Completing methods and fields -/

section Modify

variable {holes holes' : TypeId → Prop} {bodies bodies' : MethodId → Prop} {id : MethodId}
  {f : MethodDef → MethodDef}

/-- A change that keeps the result type and the locals of a method keeps what is fixed about the unit. -/
theorem grows_modifyMethod (hret : (f (u.getMethod id)).ret = (u.getMethod id).ret)
    (hlocals : ∀ l ∈ (u.getMethod id).locals, l ∈ (f (u.getMethod id)).locals) :
    u.Grows (u.modifyMethod id f) := by
  refine ⟨Nat.le_refl _, by simp [CodeUnit.modifyMethod], Nat.le_refl _, fun i _ => ?_,
    fun i _ l hl => ?_, fun _ _ => rfl⟩
  · rw [getMethod_modifyMethod]
    split
    · rename_i h
      rw [← h.1, hret]
    · rfl
  · rw [getMethod_modifyMethod]
    split
    · rename_i h
      rw [← h.1] at hl ⊢
      exact hlocals l hl
    · exact hl

/-- A method may get more locals, defaults and a body. -/
theorem Sound.modifyMethod (hu : u.Sound holes bodies)
    (hgrows : u.Grows (u.modifyMethod id f))
    (hnames : Below (u.getMethod id).methods u.methods.size →
      Below (f (u.getMethod id)).methods u.methods.size)
    (hholes : ∀ type, holes type → holes' type ∨ (u.modifyMethod id f).Owns type)
    (hbodies : ∀ i < u.methods.size, (u.getMethod i).body.isSome = true ∨ bodies i →
      ((u.modifyMethod id f).getMethod i).body.isSome = true ∨ bodies' i) :
    (u.modifyMethod id f).Sound holes' bodies' := by
  have hsize : (u.modifyMethod id f).methods.size = u.methods.size := by
    simp [CodeUnit.modifyMethod]
  refine { hu with
    owned := fun type hhole => ?_
    methods_once := hsize ▸ hu.methods_once
    method_names := fun i hi => ?_
    field_names := fun i hi => hsize ▸ hu.field_names i hi
    has_body := fun i hi => hbodies i (hsize ▸ hi) (hu.has_body i (hsize ▸ hi)) }
  · rcases hu.owned type hhole with hopen | howns
    · exact hholes type hopen
    · exact .inr (hgrows.owns howns)
  · rw [hsize] at hi ⊢
    rw [getMethod_modifyMethod]
    split
    · rename_i h
      rw [← h.1] at hi ⊢
      exact hnames (hu.method_names id hi)
    · exact hu.method_names i hi

/-- A method gets its body. -/
theorem Sound.setBody (hu : u.Sound holes fun i => i = id ∨ bodies i) {body : Stmt}
    (hbody : Below body.methods u.methods.size) :
    (u.modifyMethod id fun m => { m with body := some body }).Sound holes bodies ∧
      u.Grows (u.modifyMethod id fun m => { m with body := some body }) := by
  have hgrows : u.Grows (u.modifyMethod id fun m => { m with body := some body }) :=
    grows_modifyMethod rfl fun _ hl => hl
  refine ⟨hu.modifyMethod hgrows (fun hnames => ?_) (fun _ h => .inl h) (fun i hi h => ?_), hgrows⟩
  · rw [MethodDef.methods, below_append] at hnames ⊢
    exact ⟨hnames.1, hbody⟩
  · rw [getMethod_modifyMethod]
    split
    · exact .inl rfl
    · rename_i hne
      rcases h with h | rfl | h
      · exact .inl h
      · exact absurd ⟨rfl, hi⟩ hne
      · exact .inr h

/-- A parameter gets its default. -/
theorem Sound.setDefault (hu : u.Sound holes bodies) {param : ParamId} {value : Expr}
    (hvalue : Below value.methods u.methods.size) :
    (u.modifyMethod id fun m =>
      { m with params := m.params.modify param fun p => { p with default := some value } }).Sound
        holes bodies ∧
      u.Grows (u.modifyMethod id fun m =>
        { m with params := m.params.modify param fun p => { p with default := some value } }) := by
  have hgrows : u.Grows (u.modifyMethod id fun m =>
      { m with params := m.params.modify param fun p => { p with default := some value } }) :=
    grows_modifyMethod rfl fun _ hl => hl
  refine ⟨hu.modifyMethod hgrows (fun hnames => ?_) (fun _ h => .inl h) (fun i hi h => ?_), hgrows⟩
  · rw [MethodDef.methods, below_append] at hnames ⊢
    refine ⟨fun j hj => ?_, hnames.2⟩
    obtain ⟨p, hp, hj⟩ := List.mem_flatMap.1 hj
    obtain ⟨k, hk⟩ := List.getElem?_of_mem hp
    simp only [Array.getElem?_toList, Array.getElem?_modify] at hk
    split at hk
    · obtain ⟨q, -, rfl⟩ := Option.map_eq_some_iff.1 hk
      exact hvalue j hj
    · refine hnames.1 j (List.mem_flatMap.2 ⟨p, ?_, hj⟩)
      rw [Array.mem_toList_iff]
      exact Array.mem_of_getElem? hk
  · rw [getMethod_modifyMethod]
    split <;> exact h

/-- A new local takes its type out of the exceptions. -/
theorem Sound.addLocal {type : TypeId} (hu : u.Sound (fun t => t = type ∨ holes t) bodies)
    (hid : id < u.methods.size) (name : String) (span : Span) :
    (u.modifyMethod id fun _ => ((u.getMethod id).addLocal name type span).2).Sound holes bodies ∧
      u.Grows (u.modifyMethod id fun _ => ((u.getMethod id).addLocal name type span).2) := by
  have hgrows : u.Grows (u.modifyMethod id fun _ =>
      ((u.getMethod id).addLocal name type span).2) :=
    grows_modifyMethod rfl fun _ hl => Array.mem_push_of_mem _ hl
  have hmethod := getMethod_modifyMethod u id id fun _ =>
    ((u.getMethod id).addLocal name type span).2
  rw [if_pos ⟨rfl, hid⟩] at hmethod
  refine ⟨hu.modifyMethod hgrows (fun hnames => hnames) (fun t ht => ?_) (fun i _ h => ?_), hgrows⟩
  · rcases ht with rfl | hopen
    · refine .inr (.localVar id ⟨name, t, ((u.getMethod id).names.take name).1, span⟩
        (by simpa [CodeUnit.modifyMethod] using hid) ?_ rfl)
      rw [hmethod]
      exact Array.mem_push_self
    · exact .inl hopen
  · rw [getMethod_modifyMethod]
    split
    · rename_i h'
      rw [← h'.1] at h ⊢
      exact h
    · exact h

/-- A field gets its first value. -/
theorem Sound.setInit (hu : u.Sound holes bodies) {field : FieldId} {value : Expr}
    (hvalue : Below value.methods u.methods.size) :
    (u.modifyField field fun f => { f with init := some value }).Sound holes bodies ∧
      u.Grows (u.modifyField field fun f => { f with init := some value }) := by
  have hsize : (u.modifyField field fun f => { f with init := some value }).fields.size =
      u.fields.size := by simp [CodeUnit.modifyField]
  have hgrows : u.Grows (u.modifyField field fun f => { f with init := some value }) := by
    refine ⟨Nat.le_refl _, Nat.le_refl _, Nat.le_of_eq hsize.symm, fun _ _ => rfl,
      fun _ _ _ h => h, fun i _ => ?_⟩
    rw [getField_modifyField]
    split <;> rfl
  refine ⟨{ hu with
    owned := fun type hhole => (hu.owned type hhole).imp_right hgrows.owns
    fields_once := hsize ▸ hu.fields_once
    field_names := fun i hi => ?_ }, hgrows⟩
  rw [hsize] at hi
  rw [getField_modifyField]
  split
  · exact hvalue
  · exact hu.field_names i hi

end Modify

end CodeUnit

end ExpLang.Resolved
