import ExpLang.Proofs.Resolved.Units
import Mathlib.Data.List.Find
import Mathlib.Data.List.Nodup

/-!
# Namespaces

The classes of a unit share one namespace, and the fields and methods of a class share another one.
A log lists declarations with the answers to them. A unit agrees with a log, `Recorded`, if every name
stands for the first thing that was accepted under it, and the lists of the classes name each member
once, in the order of the log. A declaration and its answer keep this: a name that stands for something
is refused with the place of that, and any other name is declared.
-/

namespace ExpLang.Resolved

/-- Something that has a name of its own in a unit. -/
inductive Entity where
  /-- A class. -/
  | ofClass (id : ClassId)
  /-- A field or a method. -/
  | member (m : Member)
  deriving DecidableEq, Repr

/-- The index of a field. -/
def Entity.field? : Entity → Option FieldId
  | .member (.field i) => some i
  | _ => none

/-- The index of a method. -/
def Entity.method? : Entity → Option MethodId
  | .member (.method i) => some i
  | _ => none

/-- A declaration that a unit is asked for. -/
inductive Declaration where
  /-- A class. -/
  | ofClass (name : String) (span : Span)
  /-- A field of a class. -/
  | field (owner : ClassId) (name : String) (type : TypeId) (modifiers : Modifiers) (span : Span)
  /-- A method of a class. -/
  | method (owner : ClassId) (name : String) (ret : TypeId) (modifiers : Modifiers)
      (params : List (String × TypeId)) (span : Span)

namespace CodeUnit

/-- What a name stands for: in a class, or among the classes. -/
def entity? (u : CodeUnit) : Option ClassId → String → Option Entity
  | none, name => (u.classNamed? name).map .ofClass
  | some c, name => (u.member? c name).map .member

/-- Where something is declared. -/
def entitySpan (u : CodeUnit) : Entity → Span
  | .ofClass c => (u.getClass c).span
  | .member m => u.memberSpan m

/-- The unit has something. -/
def HasEntity (u : CodeUnit) : Entity → Prop
  | .ofClass c => c < u.classes.size
  | .member (.field i) => i < u.fields.size
  | .member (.method i) => i < u.methods.size

/-- What refusals call a namespace. -/
def scopeName (u : CodeUnit) : Option ClassId → String
  | none => "module"
  | some c => (u.getClass c).name

/-- The names of the fields and methods of a class. -/
def memberNames (u : CodeUnit) (c : ClassId) : List String :=
  (u.getClass c).fields.map (fun i => (u.getField i).name)
    ++ (u.getClass c).methods.map fun i => (u.getMethod i).name

end CodeUnit

namespace Declaration

/-- The class whose namespace the name belongs to; none for the namespace of the classes. -/
def owner? : Declaration → Option ClassId
  | ofClass .. => none
  | field owner .. | method owner .. => some owner

/-- The name to be declared. -/
def name : Declaration → String
  | ofClass name _ | field _ name _ _ _ | method _ name _ _ _ _ => name

/-- Where the declaration stands. -/
def span : Declaration → Span
  | ofClass _ span | field _ _ _ _ span | method _ _ _ _ _ span => span

/-- The answer to a declaration and the unit after it. A refused declaration makes no unit, so the
unit stays. -/
def answered (u : CodeUnit) (entity : Nat → Entity) :
    Except DuplicateName (Nat × CodeUnit) → Except DuplicateName Entity × CodeUnit
  | .ok (id, u') => (.ok (entity id), u')
  | .error clash => (.error clash, u)

/-- Ask a unit for a declaration. -/
def perform (d : Declaration) (u : CodeUnit) : Except DuplicateName Entity × CodeUnit :=
  match d with
  | ofClass name span => answered u .ofClass (u.createClass name span)
  | field owner name type modifiers span =>
    answered u (.member <| .field ·) (u.createField owner name type modifiers span)
  | method owner name ret modifiers params span =>
    answered u (.member <| .method ·) (u.createMethod owner name ret modifiers params span)

end Declaration

/-- A declaration and the answer to it. -/
structure Record where
  /-- What was asked for. -/
  declaration : Declaration
  /-- What came back. -/
  answer : Except DuplicateName Entity

namespace Record

/-- What a declaration made, if it was accepted. -/
def entity? (r : Record) : Option Entity := r.answer.toOption

/-- A declaration that was accepted under a name. -/
def declares (owner? : Option ClassId) (name : String) (r : Record) : Bool :=
  r.entity?.isSome && r.declaration.owner? == owner? && r.declaration.name == name

/-- The field that a declaration made. -/
def field? (r : Record) : Option FieldId := r.entity?.bind Entity.field?

/-- The method that a declaration made. -/
def method? (r : Record) : Option MethodId := r.entity?.bind Entity.method?

end Record

/-- The first declaration that was accepted under a name. -/
def firstDeclared? (log : List Record) (owner? : Option ClassId) (name : String) : Option Record :=
  log.find? (·.declares owner? name)

/-- What the first declaration made that was accepted under a name. -/
def firstEntity? (log : List Record) (owner? : Option ClassId) (name : String) : Option Entity :=
  (firstDeclared? log owner? name).bind Record.entity?

/-- A class that an earlier declaration made. -/
def Issued (log : List Record) (c : ClassId) : Prop :=
  ∃ r ∈ log, r.entity? = some (.ofClass c)

namespace CodeUnit

variable {u u' : CodeUnit}

/-! ## Accepted declarations -/

/-- A unit with one more class. -/
def addClass (u : CodeUnit) (name : String) (span : Span) : CodeUnit :=
  let (type, types) := u.types.ofClass u.classes.size
  { u with
    types := types
    classes := u.classes.push { name := name, type := type, span := span } }

/-- A unit with one more field. -/
def addField (u : CodeUnit) (f : FieldDef) : CodeUnit :=
  { u with
    fields := u.fields.push f
    classes := u.classes.modify f.owner fun c => { c with fields := c.fields ++ [u.fields.size] } }

/-- A unit with one more method. -/
def addMethod (u : CodeUnit) (types : TypePool) (m : MethodDef) : CodeUnit :=
  { u with
    types := types
    methods := u.methods.push m
    classes := u.classes.modify m.owner fun c =>
      { c with methods := c.methods ++ [u.methods.size] } }

/-- A class with a free name is added behind the others. -/
theorem createClass_of_free {name : String} (h : u.classNamed? name = none) (span : Span) :
    u.createClass name span = .ok (u.classes.size, u.addClass name span) := by
  rw [createClass, h]
  rfl

/-- A field with a name that is free in its class is added behind the others. -/
theorem createField_of_free {owner : ClassId} {name : String} (h : u.member? owner name = none)
    (type : TypeId) (modifiers : Modifiers) (span : Span) :
    u.createField owner name type modifiers span = .ok (u.fields.size, u.addField
      { name := name, type := type, modifiers := modifiers, owner := owner, span := span }) := by
  rw [createField, memberClash?, h]
  rfl

/-- The method that a declaration makes. -/
def newMethod (u : CodeUnit) (owner : ClassId) (name : String) (ret : TypeId) (modifiers : Modifiers)
    (params : List (String × TypeId)) (span : Span) : MethodDef where
  name := name
  owner := owner
  ret := ret
  type := (u.types.function ret (params.map (·.2))).1
  modifiers := modifiers
  params := (params.map fun p => { name := p.1, type := p.2 }).toArray
  names := params.foldl (fun (names : NameSupply) p => (names.take p.1).2) {}
  span := span

/-- A method with a name that is free in its class is added behind the others. -/
theorem createMethod_of_free {owner : ClassId} {name : String} (h : u.member? owner name = none)
    (ret : TypeId) (modifiers : Modifiers) (params : List (String × TypeId)) (span : Span) :
    u.createMethod owner name ret modifiers params span =
      .ok (u.methods.size, u.addMethod (u.types.function ret (params.map (·.2))).2
        (u.newMethod owner name ret modifiers params span)) := by
  rw [createMethod, memberClash?, h]
  rfl

/-- A class that is added has the next index, and no other class changes. -/
theorem getClass_addClass (u : CodeUnit) (name : String) (span : Span) (c : ClassId) :
    (u.addClass name span).getClass c =
      if c = u.classes.size then
        { name := name, type := (u.types.ofClass u.classes.size).1, span := span }
      else u.getClass c :=
  getD_push u.classes _ c

/-- A class that is new, or that there is not, has no members. -/
theorem getClass_size (u : CodeUnit) : u.getClass u.classes.size = default := by
  simp [getClass]

/-- A class that is added brings no fields. -/
theorem fields_addClass (u : CodeUnit) (name : String) (span : Span) (c : ClassId) :
    ((u.addClass name span).getClass c).fields = (u.getClass c).fields := by
  rw [getClass_addClass]
  split
  · rename_i hc
    rw [hc, getClass_size]
    rfl
  · rfl

/-- A class that is added brings no methods. -/
theorem methods_addClass (u : CodeUnit) (name : String) (span : Span) (c : ClassId) :
    ((u.addClass name span).getClass c).methods = (u.getClass c).methods := by
  rw [getClass_addClass]
  split
  · rename_i hc
    rw [hc, getClass_size]
    rfl
  · rfl

/-- A field that is added has the next index, and no other field changes. -/
theorem getField_addField (u : CodeUnit) (f : FieldDef) (i : FieldId) :
    (u.addField f).getField i = if i = u.fields.size then f else u.getField i :=
  getD_push u.fields f i

/-- Only the class of a field that is added changes: it lists the field. -/
theorem getClass_addField (u : CodeUnit) (f : FieldDef) (c : ClassId) :
    (u.addField f).getClass c =
      if f.owner = c ∧ c < u.classes.size then
        { u.getClass c with fields := (u.getClass c).fields ++ [u.fields.size] }
      else u.getClass c :=
  getD_modify u.classes _ f.owner c

/-- A method that is added has the next index, and no other method changes. -/
theorem getMethod_addMethod (u : CodeUnit) (types : TypePool) (m : MethodDef) (i : MethodId) :
    (u.addMethod types m).getMethod i = if i = u.methods.size then m else u.getMethod i :=
  getD_push u.methods m i

/-- Only the class of a method that is added changes: it lists the method. -/
theorem getClass_addMethod (u : CodeUnit) (types : TypePool) (m : MethodDef) (c : ClassId) :
    (u.addMethod types m).getClass c =
      if m.owner = c ∧ c < u.classes.size then
        { u.getClass c with methods := (u.getClass c).methods ++ [u.methods.size] }
      else u.getClass c :=
  getD_modify u.classes _ m.owner c

/-- The fields of a class after a field was added. -/
theorem fields_addField {f : FieldDef} (howner : f.owner < u.classes.size) (c : ClassId) :
    ((u.addField f).getClass c).fields =
      if f.owner = c then (u.getClass c).fields ++ [u.fields.size] else (u.getClass c).fields := by
  rw [getClass_addField]
  by_cases hc : f.owner = c
  · rw [if_pos ⟨hc, hc ▸ howner⟩, if_pos hc]
  · rw [if_neg fun hboth => hc hboth.1, if_neg hc]

/-- No methods come with a field. -/
theorem methods_addField (u : CodeUnit) (f : FieldDef) (c : ClassId) :
    ((u.addField f).getClass c).methods = (u.getClass c).methods := by
  rw [getClass_addField]
  split <;> rfl

/-- The methods of a class after a method was added. -/
theorem methods_addMethod {types : TypePool} {m : MethodDef} (howner : m.owner < u.classes.size)
    (c : ClassId) : ((u.addMethod types m).getClass c).methods =
      if m.owner = c then (u.getClass c).methods ++ [u.methods.size]
      else (u.getClass c).methods := by
  rw [getClass_addMethod]
  by_cases hc : m.owner = c
  · rw [if_pos ⟨hc, hc ▸ howner⟩, if_pos hc]
  · rw [if_neg fun hboth => hc hboth.1, if_neg hc]

/-- No fields come with a method. -/
theorem fields_addMethod (u : CodeUnit) (types : TypePool) (m : MethodDef) (c : ClassId) :
    ((u.addMethod types m).getClass c).fields = (u.getClass c).fields := by
  rw [getClass_addMethod]
  split <;> rfl

/-- Members are declared in a class without a change of where the classes stand. -/
theorem getClass_span_addField (u : CodeUnit) (f : FieldDef) (c : ClassId) :
    ((u.addField f).getClass c).span = (u.getClass c).span := by
  rw [getClass_addField]
  split <;> rfl

/-- A method leaves classes where they are declared. -/
theorem getClass_span_addMethod (u : CodeUnit) (types : TypePool) (m : MethodDef) (c : ClassId) :
    ((u.addMethod types m).getClass c).span = (u.getClass c).span := by
  rw [getClass_addMethod]
  split <;> rfl

/-- Declaring a member in the list of its class changes no name of a class. -/
theorem classNamed?_modify {f : ClassDef → ClassDef} (hf : ∀ c, (f c).name = c.name)
    (classes : Array ClassDef) (owner : ClassId) (name : String) :
    (classes.modify owner f).findIdx? (·.name == name) = classes.findIdx? (·.name == name) := by
  have hmap (xs : Array ClassDef) :
      xs.findIdx? (·.name == name) = (xs.map (·.name)).findIdx? (· == name) := by
    rw [Array.findIdx?_map]
    rfl
  have hnames : (classes.modify owner f).map (·.name) = classes.map (·.name) := by
    apply Array.ext
    · simp
    · intro i hi hi'
      simp only [Array.getElem_map, Array.getElem_modify]
      split
      · rw [hf]
      · rfl
  rw [hmap, hnames, ← hmap]

/-- After a class was added its name is found, unless it was found before. -/
theorem classNamed?_addClass (u : CodeUnit) (name : String) (span : Span) (n : String) :
    (u.addClass name span).classNamed? n =
      (u.classNamed? n).or (if name = n then some u.classes.size else none) := by
  simp only [classNamed?, addClass, Array.findIdx?_push]
  cases u.classes.findIdx? (·.name == n) <;> simp

/-- Fields are found by their names as before when a class is added. -/
theorem fieldNamed?_addClass (u : CodeUnit) (name : String) (span : Span) (c : ClassId) (n : String) :
    (u.addClass name span).fieldNamed? c n = u.fieldNamed? c n := by
  rw [fieldNamed?, fields_addClass]
  rfl

/-- Methods are found by their names as before when a class is added. -/
theorem methodNamed?_addClass (u : CodeUnit) (name : String) (span : Span) (c : ClassId)
    (n : String) : (u.addClass name span).methodNamed? c n = u.methodNamed? c n := by
  rw [methodNamed?, methods_addClass]
  rfl

/-- Classes are found by their names as before when a field is added. -/
theorem classNamed?_addField (u : CodeUnit) (f : FieldDef) (n : String) :
    (u.addField f).classNamed? n = u.classNamed? n :=
  classNamed?_modify (f := fun c => { c with fields := c.fields ++ [u.fields.size] })
    (fun _ => rfl) _ _ _

/-- Methods are found by their names as before when a field is added. -/
theorem methodNamed?_addField (u : CodeUnit) (f : FieldDef) (c : ClassId) (n : String) :
    (u.addField f).methodNamed? c n = u.methodNamed? c n := by
  rw [methodNamed?, methods_addField]
  rfl

/-- Classes are found by their names as before when a method is added. -/
theorem classNamed?_addMethod (u : CodeUnit) (types : TypePool) (m : MethodDef) (n : String) :
    (u.addMethod types m).classNamed? n = u.classNamed? n :=
  classNamed?_modify (f := fun c => { c with methods := c.methods ++ [u.methods.size] })
    (fun _ => rfl) _ _ _

/-- Fields are found by their names as before when a method is added. -/
theorem fieldNamed?_addMethod (u : CodeUnit) (types : TypePool) (m : MethodDef) (c : ClassId)
    (n : String) : (u.addMethod types m).fieldNamed? c n = u.fieldNamed? c n := by
  rw [fieldNamed?, fields_addMethod]
  rfl

/-! ## The lists of the classes -/

/-- The list of a class has the members that say that they belong to it, in the order in which they
were made, and no two of them share a name. -/
structure Listed (u : CodeUnit) : Prop where
  fields : ∀ c, (u.getClass c).fields =
    (List.range u.fields.size).filter fun i => (u.getField i).owner == c
  methods : ∀ c, (u.getClass c).methods =
    (List.range u.methods.size).filter fun i => (u.getMethod i).owner == c
  field_owner : ∀ i < u.fields.size, (u.getField i).owner < u.classes.size
  method_owner : ∀ i < u.methods.size, (u.getMethod i).owner < u.classes.size
  names : ∀ c, (u.memberNames c).Nodup

/-- The members that belong to a class, after one more member was made. -/
theorem filter_range_succ {owner owner' : Nat → ClassId} {n : Nat}
    (hold : ∀ i < n, owner' i = owner i) (c : ClassId) :
    (List.range (n + 1)).filter (fun i => owner' i == c) =
      if owner' n = c then (List.range n).filter (fun i => owner i == c) ++ [n]
      else (List.range n).filter fun i => owner i == c := by
  have hbelow : (List.range n).filter (fun i => owner' i == c) =
      (List.range n).filter fun i => owner i == c :=
    List.filter_congr fun i hi => by rw [hold i (List.mem_range.1 hi)]
  rw [List.range_succ, List.filter_append, hbelow]
  by_cases hc : owner' n = c
  · simp [hc]
  · simp [hc]

/-- The first member with a name, after one more member was listed. -/
theorem find?_append_new {label label' : Nat → String} {ids : List Nat}
    (hold : ∀ i ∈ ids, label' i = label i) (new : Nat) (name : String) :
    (ids ++ [new]).find? (fun i => label' i == name) =
      (ids.find? fun i => label i == name).or (if label' new = name then some new else none) := by
  have hbefore : ids.find? (fun i => label' i == name) = ids.find? fun i => label i == name :=
    List.find?_congr fun i hi => by rw [hold i hi]
  rw [List.find?_append, hbefore, List.find?_singleton]
  simp

/-- A class has no member of a name exactly if it has neither a field nor a method of that name. -/
theorem member?_eq_none_iff {c : ClassId} {name : String} :
    u.member? c name = none ↔ u.fieldNamed? c name = none ∧ u.methodNamed? c name = none := by
  simp [member?]

/-- A class has no member of a name exactly if the name is not among those of its members. -/
theorem member?_eq_none_iff_notMem {c : ClassId} {name : String} :
    u.member? c name = none ↔ name ∉ u.memberNames c := by
  rw [member?_eq_none_iff]
  simp [fieldNamed?, methodNamed?, memberNames]

namespace Listed

variable (h : u.Listed)

include h

/-- The fields that a class lists are fields of the unit. -/
theorem field_lt {c : ClassId} {i : FieldId} (hi : i ∈ (u.getClass c).fields) :
    i < u.fields.size := by
  rw [h.fields c, List.mem_filter] at hi
  exact List.mem_range.1 hi.1

/-- The methods that a class lists are methods of the unit. -/
theorem method_lt {c : ClassId} {i : MethodId} (hi : i ∈ (u.getClass c).methods) :
    i < u.methods.size := by
  rw [h.methods c, List.mem_filter] at hi
  exact List.mem_range.1 hi.1

/-- A unit lists its members also after a class was added. -/
theorem addClass (name : String) (span : Span) : (u.addClass name span).Listed where
  fields c := (fields_addClass u name span c).trans (h.fields c)
  methods c := (methods_addClass u name span c).trans (h.methods c)
  field_owner i hi := by
    refine Nat.lt_of_lt_of_le (h.field_owner i hi) ?_
    simp [CodeUnit.addClass]
  method_owner i hi := by
    refine Nat.lt_of_lt_of_le (h.method_owner i hi) ?_
    simp [CodeUnit.addClass]
  names c := by
    rw [memberNames, fields_addClass, methods_addClass]
    exact h.names c

section Fields

variable {f : FieldDef}

/-- The fields that a class lists keep their names when a field is added. -/
theorem getField_name_addField {c : ClassId} :
    ∀ i ∈ (u.getClass c).fields, ((u.addField f).getField i).name = (u.getField i).name := by
  intro i hi
  rw [getField_addField, if_neg (Nat.ne_of_lt (h.field_lt hi))]

variable (howner : f.owner < u.classes.size)

include howner

/-- After a field was added its name is found in its class, unless it was found before. -/
theorem fieldNamed?_addField (c : ClassId) (name : String) :
    (u.addField f).fieldNamed? c name = (u.fieldNamed? c name).or
      (if f.owner = c ∧ f.name = name then some u.fields.size else none) := by
  have hold := h.getField_name_addField (f := f) (c := c)
  rw [fieldNamed?, fields_addField howner]
  by_cases hc : f.owner = c
  · rw [if_pos hc, find?_append_new hold]
    simp [fieldNamed?, getField_addField, hc]
  · rw [if_neg hc, List.find?_congr fun i hi => by rw [hold i hi]]
    simp [fieldNamed?, hc]

/-- The names of the members of a class after a field was added, up to their order. -/
theorem memberNames_addField (c : ClassId) : ((u.addField f).memberNames c).Perm
    (if f.owner = c then f.name :: u.memberNames c else u.memberNames c) := by
  have hold : (u.getClass c).fields.map (fun i => ((u.addField f).getField i).name) =
      (u.getClass c).fields.map fun i => (u.getField i).name :=
    List.map_congr_left h.getField_name_addField
  rw [memberNames, fields_addField howner, methods_addField]
  by_cases hc : f.owner = c
  · rw [if_pos hc, if_pos hc, List.map_append, hold, List.append_assoc]
    simp only [List.map_cons, List.map_nil, getField_addField, if_pos]
    exact List.perm_middle
  · rw [if_neg hc, if_neg hc, hold]
    exact .refl _

variable (hfree : u.member? f.owner f.name = none)

include hfree

/-- After a field was added its name stands for it as a member of its class, unless the name was taken. -/
theorem member?_addField (c : ClassId) (name : String) :
    (u.addField f).member? c name = (u.member? c name).or
      (if f.owner = c ∧ f.name = name then some (.field u.fields.size) else none) := by
  rw [member?, h.fieldNamed?_addField howner, methodNamed?_addField]
  by_cases hnew : f.owner = c ∧ f.name = name
  · obtain ⟨rfl, rfl⟩ := hnew
    obtain ⟨hfield, hmethod⟩ := member?_eq_none_iff.1 hfree
    simp [member?, hfield, hmethod]
  · simp [member?, hnew]

/-- A unit lists its members also after a field was added. -/
theorem addField : (u.addField f).Listed where
  fields c := by
    rw [fields_addField howner, h.fields c]
    have hold : ∀ i < u.fields.size,
        ((u.addField f).getField i).owner = (u.getField i).owner := by
      intro i hi
      rw [getField_addField, if_neg (Nat.ne_of_lt hi)]
    have hsize : (u.addField f).fields.size = u.fields.size + 1 := by simp [CodeUnit.addField]
    rw [hsize, filter_range_succ hold, getField_addField, if_pos rfl]
  methods c := (methods_addField u f c).trans (h.methods c)
  field_owner i hi := by
    have hsize : (u.addField f).classes.size = u.classes.size := by simp [CodeUnit.addField]
    have hle : i < u.fields.size + 1 := by simpa [CodeUnit.addField] using hi
    rw [getField_addField, hsize]
    split
    · exact howner
    · rename_i hne
      exact h.field_owner i (Nat.lt_of_le_of_ne (Nat.le_of_lt_succ hle) hne)
  method_owner i hi := by
    refine Nat.lt_of_lt_of_eq (h.method_owner i hi) ?_
    simp [CodeUnit.addField]
  names c := by
    rw [(h.memberNames_addField howner c).nodup_iff]
    by_cases hc : f.owner = c
    · subst hc
      rw [if_pos rfl]
      exact List.nodup_cons.2 ⟨member?_eq_none_iff_notMem.1 hfree, h.names _⟩
    · rw [if_neg hc]
      exact h.names c

end Fields

section Methods

variable {types : TypePool} {m : MethodDef}

/-- The methods that a class lists keep their names when a method is added. -/
theorem getMethod_name_addMethod {c : ClassId} : ∀ i ∈ (u.getClass c).methods,
    ((u.addMethod types m).getMethod i).name = (u.getMethod i).name := by
  intro i hi
  rw [getMethod_addMethod, if_neg (Nat.ne_of_lt (h.method_lt hi))]

variable (howner : m.owner < u.classes.size)

include howner

/-- After a method was added its name is found in its class, unless it was found before. -/
theorem methodNamed?_addMethod (c : ClassId) (name : String) :
    (u.addMethod types m).methodNamed? c name = (u.methodNamed? c name).or
      (if m.owner = c ∧ m.name = name then some u.methods.size else none) := by
  have hold : ∀ i ∈ (u.getClass c).methods,
      ((u.addMethod types m).getMethod i).name = (u.getMethod i).name := h.getMethod_name_addMethod
  rw [methodNamed?, methods_addMethod howner]
  by_cases hc : m.owner = c
  · rw [if_pos hc, find?_append_new hold]
    simp [methodNamed?, getMethod_addMethod, hc]
  · rw [if_neg hc, List.find?_congr fun i hi => by rw [hold i hi]]
    simp [methodNamed?, hc]

/-- The names of the members of a class after a method was added. -/
theorem memberNames_addMethod (c : ClassId) : (u.addMethod types m).memberNames c =
    if m.owner = c then u.memberNames c ++ [m.name] else u.memberNames c := by
  have hold : (u.getClass c).methods.map (fun i => ((u.addMethod types m).getMethod i).name) =
      (u.getClass c).methods.map fun i => (u.getMethod i).name :=
    List.map_congr_left h.getMethod_name_addMethod
  rw [memberNames, methods_addMethod howner, fields_addMethod]
  by_cases hc : m.owner = c
  · rw [if_pos hc, if_pos hc, List.map_append, hold, memberNames, List.append_assoc]
    simp only [List.map_cons, List.map_nil, getMethod_addMethod, if_pos]
    rfl
  · rw [if_neg hc, if_neg hc, hold]
    rfl

variable (hfree : u.member? m.owner m.name = none)

include hfree

/-- After a method was added its name stands for it as a member of its class, unless the name was taken.
-/
theorem member?_addMethod (c : ClassId) (name : String) :
    (u.addMethod types m).member? c name = (u.member? c name).or
      (if m.owner = c ∧ m.name = name then some (.method u.methods.size) else none) := by
  rw [member?, h.methodNamed?_addMethod howner, fieldNamed?_addMethod]
  by_cases hnew : m.owner = c ∧ m.name = name
  · obtain ⟨rfl, rfl⟩ := hnew
    obtain ⟨hfield, hmethod⟩ := member?_eq_none_iff.1 hfree
    simp [member?, hfield, hmethod]
  · simp [member?, hnew]

/-- A unit lists its members also after a method was added. -/
theorem addMethod : (u.addMethod types m).Listed where
  fields c := (fields_addMethod u types m c).trans (h.fields c)
  methods c := by
    rw [methods_addMethod howner, h.methods c]
    have hold : ∀ i < u.methods.size,
        ((u.addMethod types m).getMethod i).owner = (u.getMethod i).owner := by
      intro i hi
      rw [getMethod_addMethod, if_neg (Nat.ne_of_lt hi)]
    have hsize : (u.addMethod types m).methods.size = u.methods.size + 1 := by
      simp [CodeUnit.addMethod]
    rw [hsize, filter_range_succ hold, getMethod_addMethod, if_pos rfl]
  field_owner i hi := by
    refine Nat.lt_of_lt_of_eq (h.field_owner i hi) ?_
    simp [CodeUnit.addMethod]
  method_owner i hi := by
    have hsize : (u.addMethod types m).classes.size = u.classes.size := by
      simp [CodeUnit.addMethod]
    have hle : i < u.methods.size + 1 := by simpa [CodeUnit.addMethod] using hi
    rw [getMethod_addMethod, hsize]
    split
    · exact howner
    · rename_i hne
      exact h.method_owner i (Nat.lt_of_le_of_ne (Nat.le_of_lt_succ hle) hne)
  names c := by
    rw [h.memberNames_addMethod howner]
    by_cases hc : m.owner = c
    · subst hc
      rw [if_pos rfl, ← List.concat_eq_append]
      exact (h.names _).concat (member?_eq_none_iff_notMem.1 hfree)
    · rw [if_neg hc]
      exact h.names c

end Methods

end Listed

/-! ## One declaration -/

/-- What accepting a declaration does to the names of a unit: the name stands for something new with
the next index of its kind, and all else stands for what it did. -/
structure Adds (u u' : CodeUnit) (owner? : Option ClassId) (name : String) (span : Span)
    (e : Entity) : Prop where
  entity : ∀ o n, u'.entity? o n =
    (u.entity? o n).or (if owner? = o ∧ name = n then some e else none)
  has : u'.HasEntity e
  span_eq : u'.entitySpan e = span
  keeps : ∀ e', u.HasEntity e' → u'.HasEntity e' ∧ u'.entitySpan e' = u.entitySpan e'
  fields : List.range u'.fields.size = List.range u.fields.size ++ e.field?.toList
  methods : List.range u'.methods.size = List.range u.methods.size ++ e.method?.toList

/-- A class that is added is all that its declaration adds. -/
theorem adds_addClass (u : CodeUnit) (name : String) (span : Span) :
    u.Adds (u.addClass name span) none name span (.ofClass u.classes.size) where
  entity o n := by
    cases o with
    | none =>
      rw [entity?, entity?, classNamed?_addClass, Option.map_or]
      simp only [true_and]
      split <;> rfl
    | some c =>
      rw [entity?, entity?, member?, fieldNamed?_addClass, methodNamed?_addClass]
      simp [member?]
  has := by simp [HasEntity, addClass]
  span_eq := by rw [entitySpan, getClass_addClass, if_pos rfl]
  keeps e' he' := by
    cases e' with
    | ofClass c =>
      have hlt : c < u.classes.size := he'
      refine ⟨by simpa [HasEntity, addClass] using Nat.lt_succ_of_lt hlt, ?_⟩
      rw [entitySpan, getClass_addClass, if_neg (Nat.ne_of_lt hlt), entitySpan]
    | member m => cases m <;> exact ⟨he', rfl⟩
  fields := (List.append_nil _).symm
  methods := (List.append_nil _).symm

/-- A field that is added under a free name is all that its declaration adds. -/
theorem Listed.adds_addField (h : u.Listed) {f : FieldDef} (howner : f.owner < u.classes.size)
    (hfree : u.member? f.owner f.name = none) :
    u.Adds (u.addField f) (some f.owner) f.name f.span (.member (.field u.fields.size)) where
  entity o n := by
    cases o with
    | none => simp [entity?, classNamed?_addField]
    | some c =>
      rw [entity?, entity?, h.member?_addField howner hfree, Option.map_or]
      simp only [Option.some_inj]
      split <;> rfl
  has := by simp [HasEntity, CodeUnit.addField]
  span_eq := by
    change ((u.addField f).getField u.fields.size).span = f.span
    rw [getField_addField, if_pos rfl]
  keeps e' he' := by
    cases e' with
    | ofClass c =>
      exact ⟨by simpa [HasEntity, CodeUnit.addField] using he', getClass_span_addField u f c⟩
    | member m =>
      cases m with
      | field i =>
        have hlt : i < u.fields.size := he'
        refine ⟨by simpa [HasEntity, CodeUnit.addField] using Nat.lt_succ_of_lt hlt, ?_⟩
        change ((u.addField f).getField i).span = (u.getField i).span
        rw [getField_addField, if_neg (Nat.ne_of_lt hlt)]
      | method i => exact ⟨he', rfl⟩
  fields := by
    rw [CodeUnit.addField, Array.size_push, List.range_succ]
    rfl
  methods := (List.append_nil _).symm

/-- A method that is added under a free name is all that its declaration adds. -/
theorem Listed.adds_addMethod (h : u.Listed) {types : TypePool} {m : MethodDef}
    (howner : m.owner < u.classes.size) (hfree : u.member? m.owner m.name = none) :
    u.Adds (u.addMethod types m) (some m.owner) m.name m.span
      (.member (.method u.methods.size)) where
  entity o n := by
    cases o with
    | none => simp [entity?, classNamed?_addMethod]
    | some c =>
      rw [entity?, entity?, h.member?_addMethod howner hfree, Option.map_or]
      simp only [Option.some_inj]
      split <;> rfl
  has := by simp [HasEntity, CodeUnit.addMethod]
  span_eq := by
    change ((u.addMethod types m).getMethod u.methods.size).span = m.span
    rw [getMethod_addMethod, if_pos rfl]
  keeps e' he' := by
    cases e' with
    | ofClass c =>
      exact ⟨by simpa [HasEntity, CodeUnit.addMethod] using he',
        getClass_span_addMethod u types m c⟩
    | member member =>
      cases member with
      | field i => exact ⟨he', rfl⟩
      | method i =>
        have hlt : i < u.methods.size := he'
        refine ⟨by simpa [HasEntity, CodeUnit.addMethod] using Nat.lt_succ_of_lt hlt, ?_⟩
        change ((u.addMethod types m).getMethod i).span = (u.getMethod i).span
        rw [getMethod_addMethod, if_neg (Nat.ne_of_lt hlt)]
  fields := (List.append_nil _).symm
  methods := by
    rw [CodeUnit.addMethod, Array.size_push, List.range_succ]
    rfl

end CodeUnit

namespace Declaration

variable {u : CodeUnit} {d : Declaration} {e : Entity}

/-- A name that stands for something is refused, with the place of that and without a change. -/
theorem perform_of_taken (h : u.entity? d.owner? d.name = some e) :
    d.perform u = (.error ⟨u.scopeName d.owner?, d.name, u.entitySpan e⟩, u) := by
  cases d with
  | ofClass name span =>
    obtain ⟨c, hc, rfl⟩ := Option.map_eq_some_iff.1 h
    have hc : u.classNamed? name = some c := hc
    rw [perform, CodeUnit.createClass, hc]
    rfl
  | field owner name type modifiers span =>
    obtain ⟨m, hm, rfl⟩ := Option.map_eq_some_iff.1 h
    have hm : u.member? owner name = some m := hm
    rw [perform, CodeUnit.createField, CodeUnit.memberClash?, hm]
    rfl
  | method owner name ret modifiers params span =>
    obtain ⟨m, hm, rfl⟩ := Option.map_eq_some_iff.1 h
    have hm : u.member? owner name = some m := hm
    rw [perform, CodeUnit.createMethod, CodeUnit.memberClash?, hm]
    rfl

/-- A name that stands for nothing is declared. -/
theorem perform_of_free (hu : u.Listed) (howner : ∀ c, d.owner? = some c → c < u.classes.size)
    (hfree : u.entity? d.owner? d.name = none) :
    ∃ e u', d.perform u = (.ok e, u') ∧ u'.Listed ∧ u.Adds u' d.owner? d.name d.span e := by
  cases d with
  | ofClass name span =>
    have hname : u.classNamed? name = none := Option.map_eq_none_iff.1 hfree
    refine ⟨.ofClass u.classes.size, u.addClass name span, ?_, hu.addClass name span,
      u.adds_addClass name span⟩
    rw [perform, CodeUnit.createClass_of_free hname]
    rfl
  | field owner name type modifiers span =>
    have hname : u.member? owner name = none := Option.map_eq_none_iff.1 hfree
    let f : FieldDef :=
      { name := name, type := type, modifiers := modifiers, owner := owner, span := span }
    have hlt : f.owner < u.classes.size := howner owner rfl
    refine ⟨.member (.field u.fields.size), u.addField f, ?_, hu.addField hlt hname,
      hu.adds_addField hlt hname⟩
    rw [perform, CodeUnit.createField_of_free hname]
    rfl
  | method owner name ret modifiers params span =>
    have hname : u.member? owner name = none := Option.map_eq_none_iff.1 hfree
    let m := u.newMethod owner name ret modifiers params span
    have hlt : m.owner < u.classes.size := howner owner rfl
    refine ⟨.member (.method u.methods.size),
      u.addMethod (u.types.function ret (params.map (·.2))).2 m, ?_, hu.addMethod hlt hname,
      hu.adds_addMethod hlt hname⟩
    rw [perform, CodeUnit.createMethod_of_free hname]
    rfl

end Declaration

/-! ## Logs -/

/-- A unit agrees with the declarations that made it. -/
structure Recorded (log : List Record) (u : CodeUnit) : Prop where
  listed : u.Listed
  entity : ∀ o n, u.entity? o n = firstEntity? log o n
  made : ∀ r ∈ log, ∀ e, r.entity? = some e →
    u.HasEntity e ∧ u.entitySpan e = r.declaration.span
  fields : log.filterMap Record.field? = List.range u.fields.size
  methods : log.filterMap Record.method? = List.range u.methods.size

/-- A record declares a name in a scope exactly if its declaration was accepted and is one of that name
there. -/
theorem Record.declares_iff {o : Option ClassId} {n : String} {r : Record} :
    r.declares o n = true ↔
      r.entity?.isSome = true ∧ r.declaration.owner? = o ∧ r.declaration.name = n := by
  simp [declares, and_assoc]

/-- A later declaration counts for a name that nothing was accepted under. -/
theorem firstEntity?_append (log : List Record) (r : Record) (o : Option ClassId) (n : String) :
    firstEntity? (log ++ [r]) o n =
      (firstEntity? log o n).or (if r.declares o n then r.entity? else none) := by
  rw [firstEntity?, firstDeclared?, List.find?_append, List.find?_singleton, firstEntity?,
    firstDeclared?]
  cases hfirst : log.find? (·.declares o n) with
  | none =>
    rw [Option.none_or, Option.bind_none, Option.none_or]
    split <;> rfl
  | some first =>
    obtain ⟨e, he⟩ := Option.isSome_iff_exists.1
      (Record.declares_iff.1 (List.find?_some hfirst)).1
    rw [Option.some_or, Option.bind_some, he, Option.some_or]

namespace Recorded

variable {log : List Record} {u u' : CodeUnit} {d : Declaration}

/-- Nothing is recorded about an empty unit. -/
theorem empty : Recorded [] .empty where
  listed :=
    { fields := fun _ => rfl
      methods := fun _ => rfl
      field_owner := fun _ h => absurd h (Nat.not_lt_zero _)
      method_owner := fun _ h => absurd h (Nat.not_lt_zero _)
      names := fun _ => List.nodup_nil }
  entity o n := by
    cases o with
    | none =>
      simp [CodeUnit.entity?, CodeUnit.classNamed?, CodeUnit.empty, firstEntity?, firstDeclared?]
    | some c => rfl
  made _ hr := absurd hr List.not_mem_nil
  fields := rfl
  methods := rfl

variable (h : Recorded log u)

include h

/-- A class that was issued is there. -/
theorem issued_lt {c : ClassId} (hc : Issued log c) : c < u.classes.size := by
  obtain ⟨r, hr, he⟩ := hc
  exact (h.made r hr _ he).1

/-- A refused declaration leaves no trace. -/
theorem refused (clash : DuplicateName) : Recorded (log ++ [⟨d, .error clash⟩]) u where
  listed := h.listed
  entity o n := by
    rw [h.entity, firstEntity?_append]
    split <;> simp [Record.entity?, Except.toOption]
  made r hr e he := by
    rcases List.mem_append.1 hr with hold | hnew
    · exact h.made r hold e he
    · rw [List.mem_singleton.1 hnew] at he
      cases he
  fields := by
    rw [List.filterMap_append, h.fields]
    exact List.append_nil _
  methods := by
    rw [List.filterMap_append, h.methods]
    exact List.append_nil _

/-- An accepted declaration is there from then on. -/
theorem accepted {e : Entity} (hlisted : u'.Listed)
    (hadds : u.Adds u' d.owner? d.name d.span e) : Recorded (log ++ [⟨d, .ok e⟩]) u' where
  listed := hlisted
  entity o n := by
    rw [hadds.entity, h.entity, firstEntity?_append]
    congr 1
    simp [Record.declares_iff, Record.entity?, Except.toOption]
  made r hr e' he' := by
    rcases List.mem_append.1 hr with hold | hnew
    · obtain ⟨hhas, hspan⟩ := h.made r hold e' he'
      obtain ⟨hhas', hspan'⟩ := hadds.keeps e' hhas
      exact ⟨hhas', hspan'.trans hspan⟩
    · rw [List.mem_singleton.1 hnew] at he' ⊢
      obtain rfl : e = e' := Option.some_inj.1 he'
      exact ⟨hadds.has, hadds.span_eq⟩
  fields := by
    rw [List.filterMap_append, h.fields, hadds.fields]
    cases hfield : e.field? <;> simp [Record.field?, Record.entity?, Except.toOption, hfield]
  methods := by
    rw [List.filterMap_append, h.methods, hadds.methods]
    cases hmethod : e.method? <;> simp [Record.method?, Record.entity?, Except.toOption, hmethod]

/-- A declaration is recorded with its answer, whether it is accepted or refused. -/
theorem perform (howner : ∀ c, d.owner? = some c → Issued log c) :
    Recorded (log ++ [⟨d, (d.perform u).1⟩]) (d.perform u).2 := by
  cases htaken : u.entity? d.owner? d.name with
  | some e =>
    rw [Declaration.perform_of_taken htaken]
    exact h.refused _
  | none =>
    obtain ⟨e, u', hperform, hlisted, hadds⟩ := Declaration.perform_of_free h.listed
      (fun c hc => h.issued_lt (howner c hc)) htaken
    rw [hperform]
    exact h.accepted hlisted hadds

end Recorded

end ExpLang.Resolved
