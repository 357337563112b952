import ExpLang.Proofs.Lowering.Declarations
import ExpLang.Proofs.Scoping.Names
import ExpLang.Proofs.Slots.Declarations

/-!
# Methods and the functions they come from

Each method of a unit comes from a function of the program, or is the one that the program starts in. Its
`Outline` says which: it holds what the method is declared as, which never changes, and its locals, which
are declared while its body is lowered and at no other time. While a program is lowered, each method is
settled, or its body waits, or it is the method that is lowered at the moment. `State.Accounted` says so
of a state, and that a method whose body waits has no locals yet.
-/

namespace ExpLang

open Syntax (View Declarator Occurrence MethodCode)

namespace Resolved

/-- What a method is declared as, and its locals so far. -/
structure Outline where
  name : String
  owner : ClassId
  span : Span
  params : List String
  locals : List Syntax.Ident
  deriving DecidableEq, Repr

namespace Outline

/-- The outline with more locals. -/
def declare (o : Outline) (ids : List Syntax.Ident) : Outline := { o with locals := o.locals ++ ids }

/-- Declaring no names changes nothing. -/
theorem declare_nil (o : Outline) : o.declare [] = o := by
  rw [declare, List.append_nil]

/-- Declaring names and then more is declaring all of them. -/
theorem declare_declare (o : Outline) (ids ids' : List Syntax.Ident) :
    (o.declare ids).declare ids' = o.declare (ids ++ ids') := by
  simp only [declare, List.append_assoc]

/-- The outline of a function that is declared in a class. -/
def ofDecl (owner : ClassId) (decl : Syntax.FunctionDecl Syntax.Stmt) : Outline where
  name := decl.name.name
  owner := owner
  span := decl.name.span
  params := decl.params.map (·.name.name)
  locals := []

end Outline

/-- The outline of a method. -/
def MethodDef.outline (m : MethodDef) : Outline where
  name := m.name
  owner := m.owner
  span := m.span
  params := m.params.toList.map (·.name)
  locals := m.locals.toList.map fun l => ⟨l.name, l.span⟩

/-- Adding a local to a method declares its name in the outline. -/
theorem MethodDef.outline_addLocal (m : MethodDef) (id : Syntax.Ident) (type : TypeId) :
    (m.addLocal id.name type id.span).2.outline = m.outline.declare [id] := by
  simp [MethodDef.addLocal, outline, Outline.declare]

/-- A default changes no name of a parameter. -/
theorem MethodDef.outline_setDefault (m : MethodDef) (param : ParamId) (value : Expr) :
    { m with params := m.params.modify param fun q => { q with default := some value } }.outline =
      m.outline := by
  have hnames : (m.params.modify param fun q => { q with default := some value }).toList.map
      (·.name) = m.params.toList.map (·.name) := by
    refine List.ext_getElem? fun k => ?_
    rw [List.getElem?_map, List.getElem?_map, Array.getElem?_toList, Array.getElem?_toList,
      Array.getElem?_modify]
    split
    · rw [Option.map_map]
      rfl
    · rfl
  rw [outline, hnames]
  rfl

/-- The number of locals is what the outline says. -/
theorem MethodDef.length_locals_outline (m : MethodDef) : m.outline.locals.length = m.locals.size := by
  simp [outline]

/-- A later unit has the methods of an earlier one as they were declared, and no locals more than the
new ones of one method. -/
structure CodeUnit.AddsLocals (here : Option MethodId) (ids : List Syntax.Ident) (u u' : CodeUnit) :
    Prop where
  size_le : u.methods.size ≤ u'.methods.size
  outline_eq : ∀ i < u.methods.size, (u'.getMethod i).outline =
    if here = some i then (u.getMethod i).outline.declare ids else (u.getMethod i).outline

namespace CodeUnit.AddsLocals

variable {here : Option MethodId} {ids ids' : List Syntax.Ident} {u u' u'' : CodeUnit}

/-- Nothing is declared in a method that has its outline still. -/
theorem of_outline_eq (hsize : u.methods.size ≤ u'.methods.size)
    (h : ∀ i < u.methods.size, (u'.getMethod i).outline = (u.getMethod i).outline) :
    u.AddsLocals here [] u' := by
  refine ⟨hsize, fun i hi => ?_⟩
  rw [Outline.declare_nil, ite_self]
  exact h i hi

/-- A unit adds no locals to itself. -/
theorem refl (u : CodeUnit) : u.AddsLocals here [] u := of_outline_eq le_rfl fun _ _ => rfl

/-- Locals added one after the other are added together. -/
theorem trans (h : u.AddsLocals here ids u') (h' : u'.AddsLocals here ids' u'') :
    u.AddsLocals here (ids ++ ids') u'' := by
  refine ⟨h.size_le.trans h'.size_le, fun i hi => ?_⟩
  rw [h'.outline_eq i (hi.trans_le h.size_le), h.outline_eq i hi]
  split
  · exact Outline.declare_declare _ ids ids'
  · rfl

/-- A method that no locals are added to keeps its outline. -/
theorem of_ne (h : u.AddsLocals here ids u') {i : MethodId} (hi : i < u.methods.size)
    (hne : here ≠ some i) : (u'.getMethod i).outline = (u.getMethod i).outline := by
  rw [h.outline_eq i hi, if_neg hne]

/-- The method that locals are added to declares them in its outline. -/
theorem of_eq {i : MethodId} (h : u.AddsLocals (some i) ids u') (hi : i < u.methods.size) :
    (u'.getMethod i).outline = (u.getMethod i).outline.declare ids := by
  rw [h.outline_eq i hi, if_pos rfl]

/-- Where nothing is declared at all, nothing is declared in a method either. -/
theorem weaken (h : u.AddsLocals none [] u') : u.AddsLocals here [] u' :=
  of_outline_eq h.size_le fun _ hi => h.of_ne hi nofun

/-- A unit with the same methods has no locals more. -/
theorem of_methods_eq (h : u'.methods = u.methods) : u.AddsLocals here [] u' :=
  of_outline_eq (by rw [h]) fun i _ => by rw [getMethod, getMethod, h]

/-- A unit with one method more has no locals more in the others. -/
theorem of_methods_push {m : MethodDef} (h : u'.methods = u.methods.push m) :
    u.AddsLocals here [] u' := by
  refine of_outline_eq (by simp [h]) fun i hi => ?_
  rw [getMethod, getMethod, h, getD_push, if_neg (Nat.ne_of_lt hi)]

end CodeUnit.AddsLocals

end Resolved

namespace Lowering

open Resolved

variable {α : Type} {p : Syntax.Program} {policy : QueuePolicy} {s s' : State}
  {here : Option MethodId} {opened : MethodId → Prop} {owner : ClassId} {u u' : CodeUnit}

/-! ## Methods of a program -/

/-- The code that a method is declared with, where its locals are those that the code declares: the code
outside of all functions, or the code of a function of the program. -/
inductive BodyOf (p : Syntax.Program) : Outline → MethodCode → Prop
  | main {owner : ClassId} :
      BodyOf p ⟨mainMethod, owner, p.span, ["argv"], Syntax.declaratorsAll (plainStmts p.body)⟩
        (.stmts (plainStmts p.body))
  | function {owner : ClassId} {decl : Syntax.FunctionDecl Syntax.Stmt} :
      decl ∈ Syntax.functionsAll p.body →
      BodyOf p ((Outline.ofDecl owner decl).declare decl.body.code.declarators) decl.body.code

/-- A method has the locals of its code, and each name that its code uses is lowered to what it stands
for. -/
def Settled (p : Syntax.Program) (policy : QueuePolicy) (i : MethodId) (o : Outline) : Prop :=
  ∃ code, BodyOf p o code ∧ AllScoped p policy o.owner i code.occurrences

/-- A method of the unit is declared as a function of the program and has no locals yet. -/
def Awaits (p : Syntax.Program) (u : CodeUnit) (owner : ClassId) (i : MethodId)
    (body : Syntax.FunctionBody Syntax.Stmt) : Prop :=
  i < u.methods.size ∧ ∃ decl ∈ Syntax.functionsAll p.body, decl.body = body ∧
    (u.getMethod i).outline = .ofDecl owner decl

/-- A body that waits still waits when locals are added to another method. -/
theorem Awaits.keep {ids : List Syntax.Ident} {i : MethodId}
    {body : Syntax.FunctionBody Syntax.Stmt} (h : Awaits p u owner i body)
    (hu : u.AddsLocals here ids u') (hne : here ≠ some i) : Awaits p u' owner i body := by
  obtain ⟨hi, decl, hdecl, hbody, houtline⟩ := h
  exact ⟨hi.trans_le hu.size_le, decl, hdecl, hbody, (hu.of_ne hi hne).trans houtline⟩

/-- A method is settled once its code is lowered. -/
theorem Awaits.settled {i : MethodId} {body : Syntax.FunctionBody Syntax.Stmt}
    (h : Awaits p u owner i body) (hu : u.AddsLocals (some i) body.code.declarators u')
    (hscoped : AllScoped p policy owner i body.code.occurrences) :
    Settled p policy i (u'.getMethod i).outline := by
  obtain ⟨hi, decl, hdecl, rfl, houtline⟩ := h
  rw [hu.of_eq hi, houtline]
  exact ⟨decl.body.code, .function hdecl, hscoped⟩

/-- Each method of the unit is lowered at the moment, is left open, has a body that waits, or is
settled. -/
structure State.Accounted (p : Syntax.Program) (policy : QueuePolicy) (here : Option MethodId)
    (opened : MethodId → Prop) (s : State) : Prop where
  inRange : s.InRange
  here_lt : ∀ m, here = some m → m < s.unit.methods.size
  covered : ∀ i < s.unit.methods.size, here = some i ∨ opened i ∨ (∃ d ∈ s.deferred, d.method = i) ∨
    Settled p policy i (s.unit.getMethod i).outline
  waits : ∀ d ∈ s.deferred, here ≠ some d.method ∧ Awaits p s.unit d.owner d.method (.stmt d.body)
  once : (s.deferred.map (·.method)).Nodup

namespace State.Accounted

/-- A state is accounted for when more is left open. -/
theorem mono {opened' : MethodId → Prop} (hs : s.Accounted p policy here opened)
    (h : ∀ i, opened i → opened' i) : s.Accounted p policy here opened' where
  inRange := hs.inRange
  here_lt := hs.here_lt
  covered i hi := (hs.covered i hi).imp_right fun hcase => hcase.imp_left (h i)
  waits := hs.waits
  once := hs.once

/-- No method is added, and no method but the one that is lowered gets locals. -/
theorem keep {ids : List Syntax.Ident} (hs : s.Accounted p policy here opened) (hr : s'.InRange)
    (hu : s.unit.AddsLocals here ids s'.unit) (hsize : s'.unit.methods.size = s.unit.methods.size)
    (hdeferred : s'.deferred = s.deferred) : s'.Accounted p policy here opened where
  inRange := hr
  here_lt m hm := hsize ▸ hs.here_lt m hm
  covered i hi := by
    rw [hsize] at hi
    rw [hdeferred]
    by_cases hhere : here = some i
    · exact .inl hhere
    · rw [hu.of_ne hi hhere]
      exact hs.covered i hi
  waits d hd := by
    rw [hdeferred] at hd
    obtain ⟨hne, hawaits⟩ := hs.waits d hd
    exact ⟨hne, hawaits.keep hu hne⟩
  once := hdeferred ▸ hs.once

end State.Accounted

/-- The methods are the same, and the bodies that wait. -/
structure State.SameMethods (s s' : State) : Prop where
  methods : s'.unit.methods = s.unit.methods
  deferred : s'.deferred = s.deferred

/-- A state has its own methods. -/
theorem State.SameMethods.refl (s : State) : s.SameMethods s := ⟨rfl, rfl⟩

/-- The same methods as those of a state with the same methods are the same. -/
theorem State.SameMethods.trans {s'' : State} (h : s.SameMethods s') (h' : s'.SameMethods s'') :
    s.SameMethods s'' := ⟨h'.methods.trans h.methods, h'.deferred.trans h.deferred⟩

/-- New types leave the methods and the bodies that wait. -/
theorem State.Retyped.sameMethods (h : s.Retyped s') : s.SameMethods s' := by
  obtain ⟨types, queue, -, rfl⟩ := h
  exact ⟨rfl, rfl⟩

/-- The same methods have no locals more. -/
theorem State.SameMethods.addsLocals (h : s.SameMethods s') : s.unit.AddsLocals here [] s'.unit :=
  .of_methods_eq h.methods

/-- A state with the same methods is accounted for. -/
theorem State.Accounted.same (hs : s.Accounted p policy here opened) (hr : s'.InRange)
    (h : s.SameMethods s') : s'.Accounted p policy here opened :=
  hs.keep hr h.addsLocals (congrArg Array.size h.methods) h.deferred

end Lowering

end ExpLang
