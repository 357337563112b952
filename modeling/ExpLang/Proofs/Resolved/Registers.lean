import ExpLang.Proofs.Resolved.Namespaces

/-!
# Registers

A register is a unit with tables of its names: one of the classes, and two for each class, of its fields
and of its methods. A declaration is carried out on a register in steps. It looks a name up in the
tables, and goes on to change the types, the unit, the lists of the class and the tables, each in a step
of its own, and a refusal undoes no step before it. The tables find what a search of the unit finds, so
that a register answers as its unit does, and every refusal comes before the first change.
-/

namespace ExpLang.Resolved

/-- A table of names. What is put under a name hides what was under it before. -/
abbrev NameTable (ι : Type) := List (String × ι)

/-- The names of the members of a class. -/
structure MemberTables where
  /-- The names of its fields. -/
  fields : NameTable FieldId := []
  /-- The names of its methods. -/
  methods : NameTable MethodId := []
  deriving Inhabited

/-- A unit and tables of its names. -/
structure Register where
  /-- The unit. -/
  unit : CodeUnit
  /-- The names of the classes. -/
  classNames : NameTable ClassId := []
  /-- The names of the members, class by class. -/
  tables : Array MemberTables := #[]

/-- A declaration that is carried out in steps. -/
abbrev Declaring := ExceptT DuplicateName (StateM Register)

namespace Register

/-- The register of the unit without classes. -/
def empty : Register := { unit := .empty }

/-- The tables of a class. -/
def tablesOf (r : Register) (c : ClassId) : MemberTables := r.tables.getD c default

/-- The class that the table has under a name. -/
def classNamed? (r : Register) (name : String) : Option ClassId := r.classNames.lookup name

/-- The member that the tables of a class have under a name. -/
def member? (r : Register) (c : ClassId) (name : String) : Option Member :=
  ((r.tablesOf c).fields.lookup name).map .field <|>
    ((r.tablesOf c).methods.lookup name).map .method

/-- Refuse the name of a member that its class has. -/
def checkFree (owner : ClassId) (name : String) : Declaring Unit := do
  let r ← get
  match r.member? owner name with
  | none => return
  | some existing => throw ⟨(r.unit.getClass owner).name, name, r.unit.memberSpan existing⟩

/-- Add to the types. -/
def addType (f : TypePool → TypeId × TypePool) : Declaring TypeId :=
  modifyGet fun r => ((f r.unit.types).1, { r with unit.types := (f r.unit.types).2 })

/-- Declare a class. -/
def createClass (name : String) (span : Span) : Declaring ClassId := do
  let r ← get
  match r.classNamed? name with
  | some existing => throw ⟨"module", name, (r.unit.getClass existing).span⟩
  | none =>
    let id := r.unit.classes.size
    let type ← addType (·.ofClass id)
    modify fun r => { r with
      unit.classes := r.unit.classes.push { name := name, type := type, span := span }
      tables := r.tables.push {} }
    modify fun r => { r with classNames := (name, id) :: r.classNames }
    return id

/-- Declare a field. -/
def createField (owner : ClassId) (name : String) (type : TypeId) (modifiers : Modifiers)
    (span : Span) : Declaring FieldId := do
  checkFree owner name
  let id := (← get).unit.fields.size
  modify fun r => { r with
    unit.fields := r.unit.fields.push
      { name := name, type := type, modifiers := modifiers, owner := owner, span := span } }
  modify fun r => { r with
    unit.classes := r.unit.classes.modify owner fun c => { c with fields := c.fields ++ [id] } }
  modify fun r => { r with
    tables := r.tables.modify owner fun t => { t with fields := (name, id) :: t.fields } }
  return id

/-- Declare a method. -/
def createMethod (owner : ClassId) (name : String) (ret : TypeId) (modifiers : Modifiers)
    (params : List (String × TypeId)) (span : Span) : Declaring MethodId := do
  checkFree owner name
  let id := (← get).unit.methods.size
  let type ← addType (·.function ret (params.map (·.2)))
  modify fun r => { r with
    unit.methods := r.unit.methods.push {
      name := name, owner := owner, ret := ret, type := type, modifiers := modifiers
      params := (params.map fun p => { name := p.1, type := p.2 }).toArray
      names := params.foldl (fun (names : NameSupply) p => (names.take p.1).2) {}
      span := span } }
  modify fun r => { r with
    unit.classes := r.unit.classes.modify owner fun c => { c with methods := c.methods ++ [id] } }
  modify fun r => { r with
    tables := r.tables.modify owner fun t => { t with methods := (name, id) :: t.methods } }
  return id

end Register

/-- Carry a declaration out on a register. -/
def Declaration.declare : Declaration → Declaring Entity
  | ofClass name span => .ofClass <$> Register.createClass name span
  | field owner name type modifiers span =>
    (.member <| .field ·) <$> Register.createField owner name type modifiers span
  | method owner name ret modifiers params span =>
    (.member <| .method ·) <$> Register.createMethod owner name ret modifiers params span

/-- The registers that declarations lead to from the register of the unit without classes, where members
are declared in classes that earlier declarations made. -/
inductive History : List Record → Register → Prop
  | start : History [] .empty
  | step {log : List Record} {r : Register} (d : Declaration) :
      History log r → (∀ c, d.owner? = some c → Issued log c) →
      History (log ++ [⟨d, (d.declare r).1⟩]) (d.declare r).2

/-! ## Accepted declarations -/

namespace Register

/-- A register with one more class. -/
def addClass (r : Register) (name : String) (span : Span) : Register where
  unit := r.unit.addClass name span
  classNames := (name, r.unit.classes.size) :: r.classNames
  tables := r.tables.push {}

/-- A register with one more field. -/
def addField (r : Register) (f : FieldDef) : Register :=
  { r with
    unit := r.unit.addField f
    tables := r.tables.modify f.owner fun t =>
      { t with fields := (f.name, r.unit.fields.size) :: t.fields } }

/-- A register with one more method. -/
def addMethod (r : Register) (types : TypePool) (m : MethodDef) : Register :=
  { r with
    unit := r.unit.addMethod types m
    tables := r.tables.modify m.owner fun t =>
      { t with methods := (m.name, r.unit.methods.size) :: t.methods } }

end Register

namespace Declaring

variable {α β : Type} {x : Declaring α} {r r' : Register}

/-- Reading the register and going on is going on with it. -/
theorem get_bind (f : Register → Declaring α) (r : Register) : (get >>= f) r = f r r := rfl

/-- After a declaration that succeeds the rest goes on in the register it leaves. -/
theorem bind_of_ok {f : α → Declaring β} {a : α} (h : x r = (.ok a, r')) :
    (x >>= f) r = f a r' := by
  change ExceptT.bindCont f (x r).1 (x r).2 = _
  rw [h]
  rfl

/-- After a declaration that clashes nothing more happens. -/
theorem bind_of_error {f : α → Declaring β} {clash : DuplicateName}
    (h : x r = (.error clash, r')) : (x >>= f) r = (.error clash, r') := by
  change ExceptT.bindCont f (x r).1 (x r).2 = _
  rw [h]
  rfl

/-- Mapping a declaration that succeeds maps what it gives. -/
theorem map_of_ok {f : α → β} {a : α} (h : x r = (.ok a, r')) : (f <$> x) r = (.ok (f a), r') := by
  rw [← bind_pure_comp, bind_of_ok h]
  rfl

/-- Mapping a declaration that clashes leaves the clash. -/
theorem map_of_error {f : α → β} {clash : DuplicateName} (h : x r = (.error clash, r')) :
    (f <$> x) r = (.error clash, r') := by
  rw [← bind_pure_comp, bind_of_error h]

end Declaring

/-- A name that is free in a table is put in it. -/
theorem lookup_cons_of_free {ι : Type} {table : NameTable ι} {name : String}
    (h : table.lookup name = none) (id : ι) (n : String) :
    ((name, id) :: table : NameTable ι).lookup n =
      (table.lookup n).or (if name = n then some id else none) := by
  rw [List.lookup_cons]
  by_cases hn : name = n
  · subst hn
    simp [h]
  · have hne : (n == name) = false := beq_eq_false_iff_ne.2 (Ne.symm hn)
    simp [hn, hne]

namespace Register

variable {r : Register} {owner : ClassId} {name : String}

/-- A name that no member has is free, and checking it changes nothing. -/
theorem checkFree_of_free (h : r.member? owner name = none) :
    checkFree owner name r = (.ok (), r) := by
  rw [checkFree, Declaring.get_bind, h]
  rfl

/-- A name that a member has is refused with the place of that member. -/
theorem checkFree_of_taken {m : Member} (h : r.member? owner name = some m) :
    checkFree owner name r =
      (.error ⟨(r.unit.getClass owner).name, name, r.unit.memberSpan m⟩, r) := by
  rw [checkFree, Declaring.get_bind, h]
  rfl

/-- A class with a free name is added with the next number. -/
theorem createClass_of_free (h : r.classNamed? name = none) (span : Span) :
    createClass name span r = (.ok r.unit.classes.size, r.addClass name span) := by
  rw [createClass, Declaring.get_bind, h]
  rfl

/-- A class with the name of another one is refused, and nothing changes. -/
theorem createClass_of_taken {c : ClassId} (h : r.classNamed? name = some c) (span : Span) :
    createClass name span r = (.error ⟨"module", name, (r.unit.getClass c).span⟩, r) := by
  rw [createClass, Declaring.get_bind, h]
  rfl

/-- A field with a free name is added with the next number. -/
theorem createField_of_free (h : r.member? owner name = none) (type : TypeId)
    (modifiers : Modifiers) (span : Span) :
    createField owner name type modifiers span r = (.ok r.unit.fields.size, r.addField
      { name := name, type := type, modifiers := modifiers, owner := owner, span := span }) := by
  rw [createField, Declaring.bind_of_ok (checkFree_of_free h)]
  rfl

/-- A method with a free name is added with the next number and its function type. -/
theorem createMethod_of_free (h : r.member? owner name = none) (ret : TypeId)
    (modifiers : Modifiers) (params : List (String × TypeId)) (span : Span) :
    createMethod owner name ret modifiers params span r = (.ok r.unit.methods.size,
      r.addMethod (r.unit.types.function ret (params.map (·.2))).2
        (r.unit.newMethod owner name ret modifiers params span)) := by
  rw [createMethod, Declaring.bind_of_ok (checkFree_of_free h)]
  rfl

/-! ## Tables and units -/

/-- The tables have what a search of the unit finds. -/
structure Agrees (r : Register) : Prop where
  classes : ∀ name, r.classNamed? name = r.unit.classNamed? name
  size : r.tables.size = r.unit.classes.size
  fields : ∀ c name, (r.tablesOf c).fields.lookup name = r.unit.fieldNamed? c name
  methods : ∀ c name, (r.tablesOf c).methods.lookup name = r.unit.methodNamed? c name

/-- The tables of the empty register agree with the empty unit. -/
theorem agrees_empty : empty.Agrees where
  classes name := by
    simp [classNamed?, empty, CodeUnit.classNamed?, CodeUnit.empty]
  size := rfl
  fields _ _ := rfl
  methods _ _ := rfl

/-- A new class has empty tables and leaves those of the others. -/
theorem tablesOf_addClass (r : Register) (name : String) (span : Span) (c : ClassId) :
    (r.addClass name span).tablesOf c = r.tablesOf c := by
  refine (CodeUnit.getD_push r.tables {} c).trans ?_
  split
  · rename_i hc
    rw [hc, tablesOf, Array.getD_eq_getD_getElem?, Array.getElem?_size]
    rfl
  · rfl

/-- A new field is entered in the tables of its owner and in no others. -/
theorem tablesOf_addField {f : FieldDef} (howner : f.owner < r.tables.size) (c : ClassId) :
    (r.addField f).tablesOf c =
      if f.owner = c then
        { r.tablesOf c with fields := (f.name, r.unit.fields.size) :: (r.tablesOf c).fields }
      else r.tablesOf c := by
  refine (CodeUnit.getD_modify r.tables _ f.owner c).trans ?_
  by_cases hc : f.owner = c
  · rw [if_pos ⟨hc, hc ▸ howner⟩, if_pos hc]
    rfl
  · rw [if_neg fun hboth => hc hboth.1, if_neg hc]
    rfl

/-- A new method is entered in the tables of its owner and in no others. -/
theorem tablesOf_addMethod {types : TypePool} {m : MethodDef} (howner : m.owner < r.tables.size)
    (c : ClassId) : (r.addMethod types m).tablesOf c =
      if m.owner = c then
        { r.tablesOf c with methods := (m.name, r.unit.methods.size) :: (r.tablesOf c).methods }
      else r.tablesOf c := by
  refine (CodeUnit.getD_modify r.tables _ m.owner c).trans ?_
  by_cases hc : m.owner = c
  · rw [if_pos ⟨hc, hc ▸ howner⟩, if_pos hc]
    rfl
  · rw [if_neg fun hboth => hc hboth.1, if_neg hc]
    rfl

namespace Agrees

variable (h : r.Agrees)

include h

/-- The tables find the member that a search of the unit finds. -/
theorem member?_eq (c : ClassId) (name : String) : r.member? c name = r.unit.member? c name := by
  rw [member?, h.fields, h.methods, CodeUnit.member?]

/-- The tables agree with the unit after a class with a free name is added. -/
theorem addClass (hfree : r.unit.classNamed? name = none) (span : Span) :
    (r.addClass name span).Agrees where
  classes n := by
    have htable : r.classNames.lookup name = none := (h.classes name).trans hfree
    have hold : r.classNames.lookup n = r.unit.classNamed? n := h.classes n
    exact (lookup_cons_of_free htable _ n).trans
      (hold ▸ (r.unit.classNamed?_addClass name span n).symm)
  size := by
    rw [Register.addClass, Array.size_push, h.size, CodeUnit.addClass, Array.size_push]
  fields c n := by
    rw [tablesOf_addClass, h.fields]
    exact (r.unit.fieldNamed?_addClass name span c n).symm
  methods c n := by
    rw [tablesOf_addClass, h.methods]
    exact (r.unit.methodNamed?_addClass name span c n).symm

/-- The tables agree with the unit after a field with a free name is added. -/
theorem addField (hu : r.unit.Listed) {f : FieldDef} (howner : f.owner < r.unit.classes.size)
    (hfree : r.unit.member? f.owner f.name = none) : (r.addField f).Agrees where
  classes n := (h.classes n).trans (r.unit.classNamed?_addField f n).symm
  size := by
    rw [Register.addField, Array.size_modify, h.size, CodeUnit.addField, Array.size_modify]
  fields c n := by
    refine Eq.trans ?_ (hu.fieldNamed?_addField howner c n).symm
    rw [tablesOf_addField (h.size ▸ howner)]
    by_cases hc : f.owner = c
    · subst hc
      have hfield := (h.fields _ _).trans (CodeUnit.member?_eq_none_iff.1 hfree).1
      simp [lookup_cons_of_free hfield, h.fields]
    · simp [hc, h.fields]
  methods c n := by
    refine Eq.trans ?_ (r.unit.methodNamed?_addField f c n).symm
    rw [tablesOf_addField (h.size ▸ howner), ← h.methods]
    split <;> rfl

/-- The tables agree with the unit after a method with a free name is added. -/
theorem addMethod (hu : r.unit.Listed) {types : TypePool} {m : MethodDef}
    (howner : m.owner < r.unit.classes.size) (hfree : r.unit.member? m.owner m.name = none) :
    (r.addMethod types m).Agrees where
  classes n := (h.classes n).trans (r.unit.classNamed?_addMethod types m n).symm
  size := by
    rw [Register.addMethod, Array.size_modify, h.size, CodeUnit.addMethod, Array.size_modify]
  fields c n := by
    refine Eq.trans ?_ (r.unit.fieldNamed?_addMethod types m c n).symm
    rw [tablesOf_addMethod (h.size ▸ howner), ← h.fields]
    split <;> rfl
  methods c n := by
    refine Eq.trans ?_ (hu.methodNamed?_addMethod howner c n).symm
    rw [tablesOf_addMethod (h.size ▸ howner)]
    by_cases hc : m.owner = c
    · subst hc
      have hmethod := (h.methods _ _).trans (CodeUnit.member?_eq_none_iff.1 hfree).2
      simp [lookup_cons_of_free hmethod, h.methods]
    · simp [hc, h.methods]

end Agrees

end Register

namespace Declaration

variable {r : Register} {d : Declaration} {e : Entity}

/-- A refusal comes before the first change. -/
theorem declare_of_taken (h : r.Agrees) (htaken : r.unit.entity? d.owner? d.name = some e) :
    d.declare r = (.error ⟨r.unit.scopeName d.owner?, d.name, r.unit.entitySpan e⟩, r) := by
  cases d with
  | ofClass name span =>
    obtain ⟨c, hc, rfl⟩ := Option.map_eq_some_iff.1 htaken
    exact Declaring.map_of_error (Register.createClass_of_taken ((h.classes name).trans hc) span)
  | field owner name type modifiers span =>
    obtain ⟨m, hm, rfl⟩ := Option.map_eq_some_iff.1 htaken
    have hcheck := Register.checkFree_of_taken ((h.member?_eq owner name).trans hm)
    exact Declaring.map_of_error (Declaring.bind_of_error hcheck)
  | method owner name ret modifiers params span =>
    obtain ⟨m, hm, rfl⟩ := Option.map_eq_some_iff.1 htaken
    have hcheck := Register.checkFree_of_taken ((h.member?_eq owner name).trans hm)
    exact Declaring.map_of_error (Declaring.bind_of_error hcheck)

/-- A declaration that is accepted leaves what the unit alone makes of it, with tables for that. -/
theorem declare_of_free (h : r.Agrees) (hu : r.unit.Listed)
    (howner : ∀ c, d.owner? = some c → c < r.unit.classes.size)
    (hfree : r.unit.entity? d.owner? d.name = none) :
    ∃ e r', d.declare r = (.ok e, r') ∧ r'.Agrees ∧ d.perform r.unit = (.ok e, r'.unit) := by
  cases d with
  | ofClass name span =>
    have hname : r.unit.classNamed? name = none := Option.map_eq_none_iff.1 hfree
    refine ⟨_, _, Declaring.map_of_ok (Register.createClass_of_free
      ((h.classes name).trans hname) span), h.addClass hname span, ?_⟩
    rw [perform, CodeUnit.createClass_of_free hname]
    rfl
  | field owner name type modifiers span =>
    have hname : r.unit.member? owner name = none := Option.map_eq_none_iff.1 hfree
    let f : FieldDef :=
      { name := name, type := type, modifiers := modifiers, owner := owner, span := span }
    have hlt : f.owner < r.unit.classes.size := howner owner rfl
    refine ⟨_, _, Declaring.map_of_ok (Register.createField_of_free
      ((h.member?_eq owner name).trans hname) type modifiers span), h.addField hu hlt hname, ?_⟩
    rw [perform, CodeUnit.createField_of_free hname]
    rfl
  | method owner name ret modifiers params span =>
    have hname : r.unit.member? owner name = none := Option.map_eq_none_iff.1 hfree
    let m := r.unit.newMethod owner name ret modifiers params span
    have hlt : m.owner < r.unit.classes.size := howner owner rfl
    refine ⟨_, _, Declaring.map_of_ok (Register.createMethod_of_free
      ((h.member?_eq owner name).trans hname) ret modifiers params span),
      h.addMethod hu hlt hname, ?_⟩
    rw [perform, CodeUnit.createMethod_of_free hname]
    rfl

/-- A declaration does to a register what it does to its unit, and the tables follow. -/
theorem declare_eq (h : r.Agrees) (hu : r.unit.Listed)
    (howner : ∀ c, d.owner? = some c → c < r.unit.classes.size) :
    ∃ r', d.declare r = ((d.perform r.unit).1, r') ∧ r'.unit = (d.perform r.unit).2 ∧
      r'.Agrees := by
  cases htaken : r.unit.entity? d.owner? d.name with
  | some e =>
    rw [perform_of_taken htaken]
    exact ⟨r, declare_of_taken h htaken, rfl, h⟩
  | none =>
    obtain ⟨e, r', hdeclare, hagrees, hperform⟩ := declare_of_free h hu howner htaken
    rw [hperform]
    exact ⟨r', hdeclare, rfl, hagrees⟩

end Declaration

/-! ## Whole histories -/

/-- Every history is recorded in its unit, and the tables agree with that unit. -/
theorem History.recorded {log : List Record} {r : Register} (h : History log r) :
    Recorded log r.unit ∧ r.Agrees := by
  induction h with
  | start => exact ⟨.empty, Register.agrees_empty⟩
  | step d _ howner ih =>
    obtain ⟨hrecorded, hagrees⟩ := ih
    obtain ⟨r', hdeclare, hunit, hagrees'⟩ := Declaration.declare_eq hagrees hrecorded.listed
      fun c hc => hrecorded.issued_lt (howner c hc)
    rw [hdeclare]
    exact ⟨hunit ▸ hrecorded.perform howner, hagrees'⟩

/-- After every history of declarations: no two members of a class share a name; the tables have under a
name the first member, or the first class, that was accepted under it, and a search of the unit finds
the same; the fields and methods have their indices in the order in which they were accepted, and each
stands in the list of the class that it belongs to, and in no other, in that order; a further
declaration under a name that was accepted before is refused with the place of the first one and leaves
the register as it was, the types of the unit included; under any other name it is accepted; and either
way it does to the unit what it does to a unit without tables. -/
theorem namespaces_of_history {log : List Record} {r : Register} (h : History log r) :
    (∀ c, (r.unit.memberNames c).Nodup) ∧
    (∀ c name, (r.member? c name).map .member = firstEntity? log (some c) name) ∧
    (∀ name, (r.classNamed? name).map .ofClass = firstEntity? log none name) ∧
    ((∀ c name, r.unit.member? c name = r.member? c name) ∧
      ∀ name, r.unit.classNamed? name = r.classNamed? name) ∧
    (log.filterMap Record.field? = List.range r.unit.fields.size ∧
      (∀ c, (r.unit.getClass c).fields =
        (List.range r.unit.fields.size).filter fun i => (r.unit.getField i).owner == c) ∧
      ∀ i < r.unit.fields.size, (r.unit.getField i).owner < r.unit.classes.size) ∧
    (log.filterMap Record.method? = List.range r.unit.methods.size ∧
      (∀ c, (r.unit.getClass c).methods =
        (List.range r.unit.methods.size).filter fun i => (r.unit.getMethod i).owner == c) ∧
      ∀ i < r.unit.methods.size, (r.unit.getMethod i).owner < r.unit.classes.size) ∧
    ∀ d : Declaration, (∀ c, d.owner? = some c → Issued log c) →
      (∀ first, firstDeclared? log d.owner? d.name = some first →
        d.declare r =
          (.error ⟨r.unit.scopeName d.owner?, d.name, first.declaration.span⟩, r)) ∧
      (firstDeclared? log d.owner? d.name = none → ∃ e, (d.declare r).1 = .ok e) ∧
      ((d.declare r).1, (d.declare r).2.unit) = d.perform r.unit := by
  obtain ⟨hrecorded, hagrees⟩ := h.recorded
  have hlisted := hrecorded.listed
  refine ⟨hlisted.names, fun c name => ?_, fun name => ?_,
    ⟨fun c name => (hagrees.member?_eq c name).symm, fun name => (hagrees.classes name).symm⟩,
    ⟨hrecorded.fields, hlisted.fields, hlisted.field_owner⟩,
    ⟨hrecorded.methods, hlisted.methods, hlisted.method_owner⟩, ?_⟩
  · rw [hagrees.member?_eq]
    exact hrecorded.entity (some c) name
  · rw [hagrees.classes]
    exact hrecorded.entity none name
  intro d howner
  have hknown (c : ClassId) (hc : d.owner? = some c) : c < r.unit.classes.size :=
    hrecorded.issued_lt (howner c hc)
  have hentity := hrecorded.entity d.owner? d.name
  rw [firstEntity?] at hentity
  refine ⟨fun first hfirst => ?_, fun hfirst => ?_, ?_⟩
  · rw [hfirst, Option.bind_some] at hentity
    obtain ⟨e, he⟩ := Option.isSome_iff_exists.1
      (Record.declares_iff.1 (List.find?_some hfirst)).1
    have hspan := (hrecorded.made first (List.mem_of_find?_eq_some hfirst) e he).2
    rw [← hspan]
    exact Declaration.declare_of_taken hagrees (hentity.trans he)
  · rw [hfirst, Option.bind_none] at hentity
    obtain ⟨e, r', hdeclare, -⟩ := Declaration.declare_of_free hagrees hlisted hknown hentity
    exact ⟨e, congrArg Prod.fst hdeclare⟩
  · obtain ⟨r', hdeclare, hunit, -⟩ := Declaration.declare_eq hagrees hlisted hknown
    rw [hdeclare, hunit]

/-- A class. -/
def boxClass : Declaration := .ofClass "Box" ⟨0, 1⟩

/-- A field of it. -/
def sizeField : Declaration := .field 0 "size" Primitive.int.id .ofObject ⟨10, 14⟩

/-- A method that asks for the name of the field. -/
def sizeMethod : Declaration := .method 0 "size" Primitive.int.id .ofObject [] ⟨20, 24⟩

/-- A method named like a field of its class is refused at the field's place. -/
theorem namespaces_of_history_sizeMethod : ∃ log r, History log r ∧
    log.map Record.declaration = [boxClass, sizeField] ∧
    sizeMethod.declare r = (.error ⟨"Box", "size", ⟨10, 14⟩⟩, r) := by
  let boxed := boxClass.declare .empty
  let sized := sizeField.declare boxed.2
  let log : List Record := [⟨boxClass, boxed.1⟩, ⟨sizeField, sized.1⟩]
  have hissued : Issued [⟨boxClass, boxed.1⟩] 0 :=
    ⟨_, List.mem_singleton.2 rfl, by decide +kernel⟩
  have hboxed : History [⟨boxClass, boxed.1⟩] boxed.2 := .step boxClass .start nofun
  have hsized : History log sized.2 := .step sizeField hboxed fun c hc =>
    Option.some_inj.1 hc ▸ hissued
  have hfirst : firstDeclared? log (some 0) "size" = some ⟨sizeField, sized.1⟩ := by
    rw [firstDeclared?, List.find?_cons_of_neg (by decide +kernel),
      List.find?_cons_of_pos (by decide +kernel)]
  have hscope : sized.2.unit.scopeName (some 0) = "Box" := by decide +kernel
  have hknown : ∀ c, sizeMethod.owner? = some c → Issued log c := fun c hc =>
    Option.some_inj.1 hc ▸ ⟨_, List.mem_cons_self, by decide +kernel⟩
  have hrefused := ((namespaces_of_history hsized).2.2.2.2.2.2 sizeMethod hknown).1 _ hfirst
  rw [← hscope]
  exact ⟨log, sized.2, hsized, rfl, hrefused⟩

end ExpLang.Resolved
