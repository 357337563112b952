import ExpLang.Proofs.Resolved.Layers
import ExpLang.Resolved.Visit

/-!
# Code that names only what there is

Code names locals, parameters, members and classes by their numbers. `Bounds` says how many there are
of each at a place: locals and parameters are those of the method around, and code outside of all
methods has none. A unit is in range if all of its code stays within the bounds of its place, and if
the other numbers in it are those of classes, fields and methods that it has. A unit only grows while
it is made: `CodeUnit.Extends` says that bounds never shrink, and each way to change a unit keeps it in
range.
-/

namespace ExpLang

namespace TypePool

variable {pool : TypePool} {d : TypeData} {c : ClassId}

/-- A type that is not the type of a class brings no class. -/
theorem ofClass_mem_intern (h : .ofClass c ∈ (pool.intern d).2.data) (hd : d ≠ .ofClass c) :
    .ofClass c ∈ pool.data := by
  unfold intern at h
  split at h
  · exact h
  · exact (Array.mem_push.1 h).resolve_right hd.symm

/-- A class type of a pool with a new hole was there before. -/
theorem ofClass_mem_newHole (h : .ofClass c ∈ pool.newHole.2.data) : .ofClass c ∈ pool.data :=
  (Array.mem_push.1 (show _ ∈ pool.data.push _ from h)).resolve_right fun heq => by cases heq

end TypePool

namespace Resolved

/-- How many things of each kind code at a place can name. -/
structure Bounds where
  /-- The locals of the method around. -/
  locals : Nat
  /-- Its parameters. -/
  params : Nat
  /-- The methods of the unit. -/
  methods : Nat
  /-- The fields of the unit. -/
  fields : Nat
  /-- The classes of the unit. -/
  classes : Nat

/-- There is no less of anything. -/
structure Bounds.Le (b b' : Bounds) : Prop where
  locals : b.locals ≤ b'.locals
  params : b.params ≤ b'.params
  methods : b.methods ≤ b'.methods
  fields : b.fields ≤ b'.fields
  classes : b.classes ≤ b'.classes

/-- A member is there. -/
def Member.Within (b : Bounds) : Member → Prop
  | .field id => id < b.fields
  | .method id => id < b.methods

/-- What a thing met on a walk names by itself is there. -/
def Visit.Within (b : Bounds) : Visit → Prop
  | .stmt (.forIn var _ _ _) | .stmt (.forConst var _ _ _ _) | .stmt (.forRange var _ _ _ _) =>
    var < b.locals
  | .expr (.localVar id _) => id < b.locals
  | .expr (.argument id _) => id < b.params
  | .expr (.member m _) | .expr (.access _ m _) => m.Within b
  | .expr (.classRef id _) | .expr (.new id _ _) => id < b.classes
  | _ => True

/-- All that some code names is there. -/
def CodeWithin (b : Bounds) (code : List Visit) : Prop := ∀ v ∈ code, v.Within b

section Bounds

variable {b b' : Bounds} {code code' : List Visit} {v : Visit}

/-- A member that is there in some bounds is there in larger ones. -/
theorem Member.Within.mono {m : Member} (h : m.Within b) (hle : b.Le b') : m.Within b' := by
  cases m with
  | field id => exact Nat.lt_of_lt_of_le h hle.fields
  | method id => exact Nat.lt_of_lt_of_le h hle.methods

/-- What a walk meets within some bounds is within larger ones. -/
theorem Visit.Within.mono (h : v.Within b) (hle : b.Le b') : v.Within b' := by
  cases v with
  | stmt s =>
    cases s with
    | forIn var _ _ _ => exact Nat.lt_of_lt_of_le h hle.locals
    | forConst var _ _ _ _ => exact Nat.lt_of_lt_of_le h hle.locals
    | forRange var _ _ _ _ => exact Nat.lt_of_lt_of_le h hle.locals
    | _ => trivial
  | expr e =>
    cases e with
    | localVar id _ => exact Nat.lt_of_lt_of_le h hle.locals
    | argument id _ => exact Nat.lt_of_lt_of_le h hle.params
    | member m _ => exact Member.Within.mono h hle
    | access _ m _ => exact Member.Within.mono h hle
    | classRef id _ => exact Nat.lt_of_lt_of_le h hle.classes
    | new id _ _ => exact Nat.lt_of_lt_of_le h hle.classes
    | _ => trivial
  | _ => trivial

/-- Empty code is within all bounds. -/
theorem codeWithin_nil : CodeWithin b [] := fun _ h => by cases h

/-- Code is within bounds if what it visits first is, and the rest. -/
theorem codeWithin_cons : CodeWithin b (v :: code) ↔ v.Within b ∧ CodeWithin b code :=
  List.forall_mem_cons

/-- Two pieces of code are within bounds if each is. -/
theorem codeWithin_append :
    CodeWithin b (code ++ code') ↔ CodeWithin b code ∧ CodeWithin b code' :=
  List.forall_mem_append

/-- Code within some bounds is within larger ones. -/
theorem CodeWithin.mono (h : CodeWithin b code) (hle : b.Le b') : CodeWithin b' code :=
  fun v hv => (h v hv).mono hle

end Bounds

/-- The bounds inside of a method, given those outside of all methods. -/
def MethodDef.bounds (b : Bounds) (m : MethodDef) : Bounds :=
  { b with locals := m.locals.size, params := m.params.size }

/-- A field belongs to a class, and its first value stays within bounds. -/
structure FieldDef.Within (b : Bounds) (f : FieldDef) : Prop where
  owner : f.owner < b.classes
  init : ∀ e, f.init = some e → CodeWithin b e.visits

/-- A method belongs to a class, its body stays within the bounds of its frame, and the defaults of its
parameters within those outside of it. -/
structure MethodDef.Within (b : Bounds) (m : MethodDef) : Prop where
  owner : m.owner < b.classes
  default : ∀ p ∈ m.params, ∀ e, p.default = some e → CodeWithin b e.visits
  body : ∀ s, m.body = some s → CodeWithin (m.bounds b) s.visits

/-- A field within some bounds is within larger ones. -/
theorem FieldDef.Within.mono {b b' : Bounds} {f : FieldDef} (h : f.Within b) (hle : b.Le b') :
    f.Within b' :=
  ⟨Nat.lt_of_lt_of_le h.owner hle.classes, fun e he => (h.init e he).mono hle⟩

/-- A method within some bounds is within larger ones. -/
theorem MethodDef.Within.mono {b b' : Bounds} {m : MethodDef} (h : m.Within b) (hle : b.Le b') :
    m.Within b' where
  owner := Nat.lt_of_lt_of_le h.owner hle.classes
  default p hp e he := (h.default p hp e he).mono hle
  body s hs := (h.body s hs).mono
    ⟨Nat.le_refl _, Nat.le_refl _, hle.methods, hle.fields, hle.classes⟩

namespace CodeUnit

variable {u u' : CodeUnit}

/-- The bounds of code outside of all methods: it has no frame. -/
def bareBounds (u : CodeUnit) : Bounds := ⟨0, 0, u.methods.size, u.fields.size, u.classes.size⟩

/-- The bounds of code in a method or in none. -/
def bounds (u : CodeUnit) : Option MethodId → Bounds
  | none => u.bareBounds
  | some i => (u.getMethod i).bounds u.bareBounds

/-- Every number in a unit is that of something it has. -/
structure InRange (u : CodeUnit) : Prop where
  method : ∀ i < u.methods.size, (u.getMethod i).Within u.bareBounds
  field : ∀ i < u.fields.size, (u.getField i).Within u.bareBounds
  method_listed : ∀ c, ∀ i ∈ (u.getClass c).methods, i < u.methods.size
  field_listed : ∀ c, ∀ i ∈ (u.getClass c).fields, i < u.fields.size
  class_type : ∀ c, .ofClass c ∈ u.types.data → c < u.classes.size

/-- A later unit has the classes, fields and methods of an earlier one, and methods keep their locals
and parameters. -/
structure Extends (u u' : CodeUnit) : Prop where
  classes : u.classes.size ≤ u'.classes.size
  methods : u.methods.size ≤ u'.methods.size
  fields : u.fields.size ≤ u'.fields.size
  locals : ∀ i < u.methods.size, (u.getMethod i).locals.size ≤ (u'.getMethod i).locals.size
  params : ∀ i < u.methods.size, (u.getMethod i).params.size = (u'.getMethod i).params.size

namespace Extends

/-- A unit extends itself. -/
theorem refl (u : CodeUnit) : u.Extends u :=
  ⟨Nat.le_refl _, Nat.le_refl _, Nat.le_refl _, fun _ _ => Nat.le_refl _, fun _ _ => rfl⟩

/-- A unit that extends a later one extends an earlier one. -/
theorem trans {u'' : CodeUnit} (h : u.Extends u') (h' : u'.Extends u'') : u.Extends u'' where
  classes := Nat.le_trans h.classes h'.classes
  methods := Nat.le_trans h.methods h'.methods
  fields := Nat.le_trans h.fields h'.fields
  locals i hi :=
    Nat.le_trans (h.locals i hi) (h'.locals i (Nat.lt_of_lt_of_le hi h.methods))
  params i hi := (h.params i hi).trans (h'.params i (Nat.lt_of_lt_of_le hi h.methods))

/-- Outside of methods the bounds of a later unit are larger. -/
theorem bareBounds_le (h : u.Extends u') : u.bareBounds.Le u'.bareBounds :=
  ⟨Nat.le_refl _, Nat.le_refl _, h.methods, h.fields, h.classes⟩

/-- Bounds never shrink. -/
theorem bounds_le (h : u.Extends u') {method : Option MethodId}
    (hmethod : ∀ i, method = some i → i < u.methods.size) :
    (u.bounds method).Le (u'.bounds method) := by
  cases method with
  | none => exact h.bareBounds_le
  | some i =>
    have hi := hmethod i rfl
    exact ⟨h.locals i hi, Nat.le_of_eq (h.params i hi), h.methods, h.fields, h.classes⟩

end Extends

/-- What stands in the list of a class after one of them changed. -/
theorem mem_getD_modify (members : ClassDef → List Nat) (New : Nat → Prop)
    {change : ClassDef → ClassDef} (hchange : ∀ c, ∀ i ∈ members (change c), i ∈ members c ∨ New i)
    {owner c : ClassId} {i : Nat}
    (hi : i ∈ members ((u.classes.modify owner change).getD c default)) :
    i ∈ members (u.getClass c) ∨ New i := by
  rw [getClass, Array.getD_eq_getD_getElem?]
  rw [Array.getD_eq_getD_getElem?, Array.getElem?_modify] at hi
  split at hi
  · cases hc : u.classes[c]? with
    | none =>
      rw [hc] at hi
      exact .inl hi
    | some d =>
      rw [hc] at hi
      exact hchange d i hi
  · exact .inl hi

/-- A list with one more member. -/
theorem mem_append_new (xs : List Nat) (new : Nat) : ∀ i ∈ xs ++ [new], i ∈ xs ∨ i = new :=
  fun _ hi => (List.mem_append.1 hi).imp_right List.mem_singleton.1

namespace InRange

variable (hu : u.InRange)

include hu

/-- An index beyond the methods stands for a method without code. -/
theorem body_within {i : MethodId} {s : Stmt} (hs : (u.getMethod i).body = some s) :
    CodeWithin (u.bounds (some i)) s.visits := by
  by_cases hi : i < u.methods.size
  · exact (hu.method i hi).body s hs
  · rw [getMethod, Array.getD, dif_neg hi] at hs
    cases hs

/-- The default of a parameter is within the bounds outside of methods. -/
theorem default_within {i : MethodId} {p : ParamDef} (hp : p ∈ (u.getMethod i).params) {e : Expr}
    (he : p.default = some e) : CodeWithin (u.bounds none) e.visits := by
  by_cases hi : i < u.methods.size
  · exact (hu.method i hi).default p hp e he
  · rw [getMethod, Array.getD, dif_neg hi] at hp
    exact absurd hp (Array.not_mem_empty _)

/-- An index beyond the fields stands for a field without a first value. -/
theorem init_within {i : FieldId} {e : Expr} (he : (u.getField i).init = some e) :
    CodeWithin (u.bounds none) e.visits := by
  by_cases hi : i < u.fields.size
  · exact (hu.field i hi).init e he
  · rw [getField, Array.getD, dif_neg hi] at he
    cases he

/-- The types may change, as long as they are those of classes of the unit. -/
theorem withTypes {types : TypePool}
    (htypes : ∀ c, .ofClass c ∈ types.data → .ofClass c ∈ u.types.data) :
    ({ u with types := types } : CodeUnit).InRange :=
  { hu with class_type := fun c hc => hu.class_type c (htypes c hc) }

/-! ## Declaring things -/

/-- Creating a class keeps a unit in range, and the new number is one of its classes. -/
theorem createClass {name : String} {span : Span} {id : ClassId}
    (h : u.createClass name span = .ok (id, u')) :
    u'.InRange ∧ u.Extends u' ∧ id < u'.classes.size := by
  obtain ⟨rfl, c, hmethods, hfields, rfl⟩ := createClass_eq_ok h
  have hextends : u.Extends { u with
      types := (u.types.intern (.ofClass u.classes.size)).2, classes := u.classes.push c } :=
    ⟨by simp, Nat.le_refl _, Nat.le_refl _, fun _ _ => Nat.le_refl _, fun _ _ => rfl⟩
  have hlt : u.classes.size < (u.classes.push c).size := by simp
  have hclass (k : ClassId) : (u.classes.push c).getD k default =
      if k = u.classes.size then c else u.getClass k := getD_push u.classes c k
  refine ⟨⟨fun i hi => (hu.method i hi).mono hextends.bareBounds_le,
    fun i hi => (hu.field i hi).mono hextends.bareBounds_le, fun k i hi => ?_, fun k i hi => ?_,
    fun k hk => ?_⟩, hextends, hlt⟩
  · change i ∈ ((u.classes.push c).getD k default).methods at hi
    rw [hclass] at hi
    split at hi
    · rw [hmethods] at hi
      cases hi
    · exact hu.method_listed k i hi
  · change i ∈ ((u.classes.push c).getD k default).fields at hi
    rw [hclass] at hi
    split at hi
    · rw [hfields] at hi
      cases hi
    · exact hu.field_listed k i hi
  · by_cases hnew : k = u.classes.size
    · rw [hnew]
      exact hlt
    · have hold := TypePool.ofClass_mem_intern hk fun heq => hnew (TypeData.ofClass.inj heq).symm
      exact Nat.lt_trans (hu.class_type k hold) hlt

/-- Creating a field of a class of the unit keeps the unit in range. -/
theorem createField {owner : ClassId} (howner : owner < u.classes.size) {name : String}
    {type : TypeId} {modifiers : Modifiers} {span : Span} {id : FieldId}
    (h : u.createField owner name type modifiers span = .ok (id, u')) :
    u'.InRange ∧ u.Extends u' := by
  unfold CodeUnit.createField at h
  split at h
  · cases h
  cases h
  have hfield (f : FieldDef) (i : FieldId) : (u.fields.push f).getD i default =
      if i = u.fields.size then f else u.getField i := getD_push u.fields f i
  have hextends (f : FieldDef) : u.Extends { u with
      fields := u.fields.push f
      classes := u.classes.modify owner fun c =>
        { c with fields := c.fields ++ [u.fields.size] } } :=
    ⟨by simp, Nat.le_refl _, by simp, fun _ _ => Nat.le_refl _, fun _ _ => rfl⟩
  refine ⟨⟨fun i hi => (hu.method i hi).mono (hextends _).bareBounds_le, fun i hi => ?_,
    fun c i hi => ?_, fun c i hi => ?_, fun c hc => ?_⟩, hextends _⟩
  · refine FieldDef.Within.mono (b := u.bareBounds) ?_ (hextends _).bareBounds_le
    change FieldDef.Within _ ((u.fields.push _).getD i default)
    rw [hfield]
    split
    · exact ⟨howner, fun e he => by cases he⟩
    · rename_i hne
      simp only [Array.size_push] at hi
      exact hu.field i (Nat.lt_of_le_of_ne (Nat.le_of_lt_succ hi) hne)
  · have hold : i ∈ (u.getClass c).methods ∨ False := by
      refine mem_getD_modify ClassDef.methods (fun _ => False) ?_ hi
      exact fun _ _ => .inl
    exact hu.method_listed c i (hold.resolve_right id)
  · simp only [Array.size_push]
    rcases mem_getD_modify ClassDef.fields (· = _) (fun c => mem_append_new c.fields _) hi with hold | rfl
    · exact Nat.lt_succ_of_lt (hu.field_listed c i hold)
    · exact Nat.lt_succ_self _
  · simpa using hu.class_type c hc

/-- Creating a method of a class of the unit keeps the unit in range, and the new number is one of its
methods. -/
theorem createMethod {owner : ClassId} (howner : owner < u.classes.size) {name : String}
    {ret : TypeId} {modifiers : Modifiers} {params : List (String × TypeId)} {span : Span}
    {id : MethodId} (h : u.createMethod owner name ret modifiers params span = .ok (id, u')) :
    u'.InRange ∧ u.Extends u' ∧ id < u'.methods.size := by
  obtain ⟨rfl, m, hm, rfl⟩ := createMethod_eq_ok h
  have hmethod (i : MethodId) : (u.methods.push m).getD i default =
      if i = u.methods.size then m else u.getMethod i := getD_push u.methods m i
  have hextends : u.Extends { u with
      types := (u.types.intern (.function ret (params.map (·.2)))).2
      methods := u.methods.push m
      classes := u.classes.modify owner fun c =>
        { c with methods := c.methods ++ [u.methods.size] } } := by
    have hold : ∀ i < u.methods.size, (u.methods.push m).getD i default = u.getMethod i := by
      intro i hi
      rw [hmethod, if_neg (Nat.ne_of_lt hi)]
    exact ⟨by simp, by simp, Nat.le_refl _,
      fun i hi => Nat.le_of_eq (congrArg (·.locals.size) (hold i hi).symm),
      fun i hi => congrArg (·.params.size) (hold i hi).symm⟩
  refine ⟨⟨fun i hi => ?_, fun i hi => (hu.field i hi).mono hextends.bareBounds_le,
    fun c i hi => ?_, fun c i hi => ?_, fun c hc => ?_⟩, hextends, by simp⟩
  · refine MethodDef.Within.mono (b := u.bareBounds) ?_ hextends.bareBounds_le
    change MethodDef.Within _ ((u.methods.push m).getD i default)
    rw [hmethod]
    split
    · subst hm
      refine ⟨howner, fun p hp e he => ?_, fun s hs => by cases hs⟩
      obtain ⟨q, -, rfl⟩ := mem_declaredMethod_params hp
      cases he
    · rename_i hne
      simp only [Array.size_push] at hi
      exact hu.method i (Nat.lt_of_le_of_ne (Nat.le_of_lt_succ hi) hne)
  · simp only [Array.size_push]
    rcases mem_getD_modify ClassDef.methods (· = _) (fun c => mem_append_new c.methods _) hi with hold | rfl
    · exact Nat.lt_succ_of_lt (hu.method_listed c i hold)
    · exact Nat.lt_succ_self _
  · have hold : i ∈ (u.getClass c).fields ∨ False := by
      refine mem_getD_modify ClassDef.fields (fun _ => False) ?_ hi
      exact fun _ _ => .inl
    exact hu.field_listed c i (hold.resolve_right id)
  · simp only [Array.size_modify]
    exact hu.class_type c (TypePool.ofClass_mem_intern hc fun heq => by cases heq)

/-! ## Completing methods and fields -/

/-- A method may change if it stays within bounds and keeps its locals and parameters. -/
theorem modifyMethod {i : MethodId} {f : MethodDef → MethodDef}
    (hlocals : (u.getMethod i).locals.size ≤ (f (u.getMethod i)).locals.size)
    (hparams : (u.getMethod i).params.size = (f (u.getMethod i)).params.size)
    (hf : (u.getMethod i).Within u.bareBounds → (f (u.getMethod i)).Within u.bareBounds) :
    (u.modifyMethod i f).InRange ∧ u.Extends (u.modifyMethod i f) := by
  have hsize : (u.modifyMethod i f).methods.size = u.methods.size := by
    simp [CodeUnit.modifyMethod]
  have hextends : u.Extends (u.modifyMethod i f) := by
    refine ⟨Nat.le_refl _, Nat.le_of_eq hsize.symm, Nat.le_refl _, fun k _ => ?_, fun k _ => ?_⟩
    · rw [getMethod_modifyMethod]
      split
      · rename_i h
        rw [← h.1]
        exact hlocals
      · exact Nat.le_refl _
    · rw [getMethod_modifyMethod]
      split
      · rename_i h
        rw [← h.1]
        exact hparams
      · rfl
  refine ⟨⟨fun k hk => ?_, fun k hk => (hu.field k hk).mono hextends.bareBounds_le,
    fun c k hk => hsize ▸ hu.method_listed c k hk, hu.field_listed, hu.class_type⟩, hextends⟩
  refine MethodDef.Within.mono (b := u.bareBounds) ?_ hextends.bareBounds_le
  rw [hsize] at hk
  rw [getMethod_modifyMethod]
  split
  · rename_i h
    rw [← h.1] at hk ⊢
    exact hf (hu.method i hk)
  · exact hu.method k hk

/-- Setting a body within the bounds of its method keeps a unit in range. -/
theorem setBody {i : MethodId} {body : Stmt} (hbody : CodeWithin (u.bounds (some i)) body.visits) :
    (u.modifyMethod i fun m => { m with body := some body }).InRange ∧
      u.Extends (u.modifyMethod i fun m => { m with body := some body }) := by
  refine hu.modifyMethod (Nat.le_refl _) rfl fun hm => { hm with body := fun s hs => ?_ }
  cases hs
  exact hbody

/-- Setting a default within the bounds outside of methods keeps a unit in range. -/
theorem setDefault {i : MethodId} {param : ParamId} {value : Expr}
    (hvalue : CodeWithin (u.bounds none) value.visits) :
    (u.modifyMethod i fun m =>
      { m with params := m.params.modify param fun p => { p with default := some value } }).InRange ∧
      u.Extends (u.modifyMethod i fun m =>
        { m with params := m.params.modify param fun p => { p with default := some value } }) := by
  refine hu.modifyMethod (Nat.le_refl _) (by simp) fun hm => ?_
  refine ⟨hm.owner, fun p hp e he => ?_, fun s hs => ?_⟩
  · obtain ⟨k, hk⟩ := Array.getElem?_of_mem hp
    rw [Array.getElem?_modify] at hk
    split at hk
    · obtain ⟨q, -, rfl⟩ := Option.map_eq_some_iff.1 hk
      cases he
      exact hvalue
    · exact hm.default p (Array.mem_of_getElem? hk) e he
  · refine (hm.body s hs).mono ⟨Nat.le_refl _, ?_, Nat.le_refl _, Nat.le_refl _, Nat.le_refl _⟩
    simp [MethodDef.bounds]

/-- Adding a local keeps a unit in range. -/
theorem addLocal {i : MethodId} (name : String) (type : TypeId) (span : Span) :
    (u.modifyMethod i fun _ => ((u.getMethod i).addLocal name type span).2).InRange ∧
      u.Extends (u.modifyMethod i fun _ => ((u.getMethod i).addLocal name type span).2) := by
  have hgrown : (u.getMethod i).locals.size ≤
      ((u.getMethod i).addLocal name type span).2.locals.size := by
    simp [MethodDef.addLocal]
  refine hu.modifyMethod hgrown rfl fun hm => ⟨hm.owner, hm.default, fun s hs => ?_⟩
  exact (hm.body s hs).mono
    ⟨hgrown, Nat.le_refl _, Nat.le_refl _, Nat.le_refl _, Nat.le_refl _⟩

/-- Setting an initializer within the bounds outside of methods keeps a unit in range. -/
theorem setInit {i : FieldId} {value : Expr} (hvalue : CodeWithin (u.bounds none) value.visits) :
    (u.modifyField i fun f => { f with init := some value }).InRange ∧
      u.Extends (u.modifyField i fun f => { f with init := some value }) := by
  have hsize : (u.modifyField i fun f => { f with init := some value }).fields.size =
      u.fields.size := by simp [CodeUnit.modifyField]
  have hextends : u.Extends (u.modifyField i fun f => { f with init := some value }) :=
    ⟨Nat.le_refl _, Nat.le_refl _, Nat.le_of_eq hsize.symm, fun _ _ => Nat.le_refl _,
      fun _ _ => rfl⟩
  refine ⟨⟨fun k hk => (hu.method k hk).mono hextends.bareBounds_le, fun k hk => ?_,
    hu.method_listed, fun c k hk => hsize ▸ hu.field_listed c k hk, hu.class_type⟩, hextends⟩
  refine FieldDef.Within.mono (b := u.bareBounds) ?_ hextends.bareBounds_le
  rw [hsize] at hk
  rw [getField_modifyField]
  split
  · refine ⟨(hu.field k hk).owner, fun e he => ?_⟩
    cases he
    exact hvalue
  · exact hu.field k hk

end InRange

end CodeUnit

end Resolved

end ExpLang
