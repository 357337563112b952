import ExpLang.Lowering.Program
import ExpLang.Proofs.Resolved.Blame

/-!
# Where operators in code come from

Every unit starts with the types and the operators of the language, and lowering adds types and binds
holes but takes nothing away: the unit stays standard. An operator in code is what lowering made of it
in a standard unit, out of the very operands that it has. A unit is traced if that holds of all of its
code, and each way to change a unit keeps it traced if the code that comes in is traced.
-/

namespace ExpLang

open Lowering

namespace Resolved

/-- A unit has the types and the operators that every unit starts with. -/
structure CodeUnit.Standard (u : CodeUnit) : Prop where
  types : CodeUnit.empty.types.Keeps u.types
  operators : u.operators = CodeUnit.empty.operators

/-- The empty unit is standard. -/
theorem CodeUnit.standard_empty : CodeUnit.empty.Standard := ⟨.refl _, rfl⟩

/-- An operator between two operands is what lowering made of the operands in a standard unit. -/
def Visit.HasOrigin : Visit → Prop
  | .expr (.binary op left right info) => ∃ s s' : State, s.unit.Standard ∧
      lowerBinary op left right info.span s = .ok (.binary op left right info, s')
  | _ => True

/-- Every operator in some code has an origin. -/
def Traced (code : List Visit) : Prop := ∀ v ∈ code, v.HasOrigin

/-- Empty code is traced. -/
theorem traced_nil : Traced [] := fun _ h => by cases h

/-- Code is traced if what it visits first has an origin and the rest is traced. -/
theorem traced_cons {v : Visit} {code : List Visit} :
    Traced (v :: code) ↔ v.HasOrigin ∧ Traced code := List.forall_mem_cons

/-- Two pieces of code are traced if each is. -/
theorem traced_append {code code' : List Visit} :
    Traced (code ++ code') ↔ Traced code ∧ Traced code' := List.forall_mem_append

/-- A field with traced code. -/
def FieldDef.Traced (f : FieldDef) : Prop := Resolved.Traced (f.init.elim [] Expr.visits)

/-- A method with traced code. -/
structure MethodDef.Traced (m : MethodDef) : Prop where
  default : ∀ p ∈ m.params, Resolved.Traced (p.default.elim [] Expr.visits)
  body : Resolved.Traced (m.body.elim [] Stmt.visits)

namespace CodeUnit

variable {u u' : CodeUnit}

/-- A standard unit all of whose code is traced. -/
structure Traced (u : CodeUnit) : Prop extends u.Standard where
  field : ∀ i, (u.getField i).Traced
  method : ∀ i, (u.getMethod i).Traced

/-- The empty unit is traced. -/
theorem traced_empty : CodeUnit.empty.Traced where
  toStandard := standard_empty
  field _ := traced_nil
  method _ := ⟨fun _ hp => absurd hp (Array.not_mem_empty _), traced_nil⟩

/-- The walk over a traced unit meets operators with an origin only. -/
theorem Traced.visits (hu : u.Traced) : Resolved.Traced u.visits := by
  intro v hv
  obtain ⟨c, -, hv⟩ := List.mem_flatMap.1 hv
  rcases List.mem_append.1 hv with hv | hv
  · rcases List.mem_cons.1 hv with rfl | hv
    · trivial
    obtain ⟨i, -, hv⟩ := List.mem_flatMap.1 hv
    rcases List.mem_cons.1 hv with rfl | hv
    · trivial
    · exact hu.field i v hv
  · obtain ⟨i, -, hv⟩ := List.mem_flatMap.1 hv
    rcases List.mem_append.1 hv with hv | hv
    · rcases List.mem_cons.1 hv with rfl | hv
      · trivial
      obtain ⟨p, hp, hv⟩ := List.mem_flatMap.1 hv
      exact (hu.method i).default p (Array.mem_toList_iff.1 hp) v hv
    · exact (hu.method i).body v hv

namespace Traced

variable (hu : u.Traced)

include hu

/-- Types may be added, and holes bound. -/
theorem withTypes {types : TypePool} (hkeeps : u.types.Keeps types) :
    ({ u with types := types } : CodeUnit).Traced where
  types := hu.types.trans hkeeps
  operators := hu.operators
  field := hu.field
  method := hu.method

/-- A binding keeps a unit traced. -/
theorem bindIfUnbound (hole target : TypeId) :
    ({ u with types := (u.types.bindIfUnbound hole target).2 } : CodeUnit).Traced :=
  hu.withTypes (u.types.keeps_bindIfUnbound hole target)

/-- Creating a class keeps a unit traced. -/
theorem createClass {name : String} {span : Span} {c : ClassId}
    (h : u.createClass name span = .ok (c, u')) : u'.Traced := by
  obtain ⟨d, -, rfl⟩ := createClass_eq h
  exact { hu.withTypes (u.types.keeps_intern (.ofClass c)) with }

/-- Creating a field keeps a unit traced. -/
theorem createField {owner : ClassId} {name : String} {type : TypeId} {modifiers : Modifiers}
    {span : Span} {i : FieldId} (h : u.createField owner name type modifiers span = .ok (i, u')) :
    u'.Traced := by
  obtain ⟨-, f, -, hinit, rfl⟩ := createField_eq_ok h
  refine { hu with field := fun k => ?_ }
  change FieldDef.Traced ((u.fields.push f).getD k default)
  rw [getD_push]
  split
  · rw [FieldDef.Traced, hinit]
    exact traced_nil
  · exact hu.field k

/-- Creating a method keeps a unit traced. -/
theorem createMethod {owner : ClassId} {name : String} {ret : TypeId} {modifiers : Modifiers}
    {params : List (String × TypeId)} {span : Span} {i : MethodId}
    (h : u.createMethod owner name ret modifiers params span = .ok (i, u')) : u'.Traced := by
  obtain ⟨-, m, hm, rfl⟩ := createMethod_eq_ok h
  refine { hu.withTypes (u.types.keeps_intern (.function ret (params.map (·.2)))) with
    method := fun k => ?_ }
  change MethodDef.Traced ((u.methods.push m).getD k default)
  rw [getD_push]
  split
  · subst hm
    refine ⟨fun p hp => ?_, traced_nil⟩
    obtain ⟨q, -, rfl⟩ := mem_declaredMethod_params hp
    exact traced_nil
  · exact hu.method k

/-- A method may change if its code stays traced. -/
theorem modifyMethod {i : MethodId} {f : MethodDef → MethodDef}
    (hf : (u.getMethod i).Traced → (f (u.getMethod i)).Traced) : (u.modifyMethod i f).Traced := by
  refine { hu with method := fun k => ?_ }
  rw [getMethod_modifyMethod]
  split
  · rename_i h
    rw [← h.1]
    exact hf (hu.method i)
  · exact hu.method k

/-- Setting a traced body keeps a unit traced. -/
theorem setBody (i : MethodId) {body : Stmt} (hbody : Resolved.Traced body.visits) :
    (u.modifyMethod i fun m => { m with body := some body }).Traced :=
  hu.modifyMethod fun hm => ⟨hm.default, hbody⟩

/-- Setting a traced default keeps a unit traced. -/
theorem setDefault (i : MethodId) (param : ParamId) {value : Expr}
    (hvalue : Resolved.Traced value.visits) :
    (u.modifyMethod i fun m =>
      { m with params := m.params.modify param fun p => { p with default := some value } }).Traced := by
  refine hu.modifyMethod fun hm => ⟨fun p hp => ?_, hm.body⟩
  obtain ⟨k, hk⟩ := Array.mem_iff_getElem?.1 hp
  rw [Array.getElem?_modify] at hk
  split at hk
  · obtain ⟨q, -, rfl⟩ := Option.map_eq_some_iff.1 hk
    exact hvalue
  · exact hm.default p (Array.mem_of_getElem? hk)

/-- Setting a traced initializer keeps a unit traced. -/
theorem setInit (i : FieldId) {value : Expr} (hvalue : Resolved.Traced value.visits) :
    (u.modifyField i fun f => { f with init := some value }).Traced := by
  refine { hu with field := fun k => ?_ }
  rw [getField_modifyField]
  split
  · exact hvalue
  · exact hu.field k

/-- Results whose type is not known may become those of methods that return nothing. -/
theorem closeResults : (Lowering.closeResults u).Traced := by
  have hclose : ∀ (ids : List TypeId) {u : CodeUnit}, u.Traced →
      { u with
        types := ids.foldl (fun types ret => (types.bindIfUnbound ret Primitive.void.id).2)
          u.types : CodeUnit }.Traced := by
    intro ids
    induction ids with
    | nil => exact fun hu => hu
    | cons first rest ih => exact fun hu => ih (hu.bindIfUnbound first _)
  exact hclose _ hu

end Traced

end CodeUnit

end Resolved

end ExpLang
