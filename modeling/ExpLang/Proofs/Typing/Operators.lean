import ExpLang.Proofs.Lowering.Jobs
import ExpLang.Proofs.Origins.Code
import ExpLang.Proofs.Types.Binding

/-!
# What an operator is lowered to

The type of the result of an operator is looked up for its operands, after a hole among them stands for
the type of the other one. There are two cases: the table knows the operands and nothing is reported, or
it does not and the result is of the type that goes with everything. In a standard unit the types that
every unit starts with are no holes and have texts, so that an operator on them changes no type and is
always lowered.
-/

namespace ExpLang

open Resolved Lowering

namespace Lowering

variable {s : State}

/-- The state in which a hole among two types stands for the other one. -/
def State.joined (s : State) (left right : TypeId) : State :=
  let types := s.unit.types
  { s with unit := { s.unit with
      types := if types.isUnbound left then (types.bindIfUnbound left right).2
        else (types.bindIfUnbound right left).2 } }

/-- The type of the result of an operator, once a hole among the types of the operands is bound. -/
def State.result? (s : State) (op : BinaryOp) (left right : TypeId) : Option TypeId :=
  let s := s.joined left right
  s.unit.operators.resultType? s.unit.types op left right

/-- Lowering a binary operator gives an expression of the result type, or reports operands without one. -/
theorem lowerBinary_eq (op : BinaryOp) (left right : Expr) (span : Span) :
    lowerBinary op left right span s =
      (match s.result? op left.type right.type with
        | some type => pure (Expr.binary op left right ⟨type, span⟩)
        | none => do
          report (.undefinedOperator span op.symbol (← typeName left.type) (← typeName right.type))
          pure (.binary op left right ⟨Primitive.invalid.id, span⟩) : Lower Expr)
        (s.joined left.type right.type) := by
  have hask : ask (·.types.isUnbound left.type) s = .ok (s.unit.types.isUnbound left.type, s) := rfl
  unfold lowerBinary
  rw [bind_of_ok hask]
  have hjoin (hole target : TypeId) : unify hole target s = .ok ((), { s with unit := { s.unit with
      types := (s.unit.types.bindIfUnbound hole target).2 } }) := rfl
  unfold State.result? State.joined
  dsimp only
  split
  · rw [bind_of_ok (hjoin _ _)]
    rfl
  · rw [bind_of_ok (hjoin _ _)]
    rfl

/-- An operator that the table knows for its operands is lowered without a report. -/
theorem lowerBinary_of_some {op : BinaryOp} {left right : Expr} {type : TypeId}
    (h : s.result? op left.type right.type = some type) (span : Span) :
    lowerBinary op left right span s =
      .ok (.binary op left right ⟨type, span⟩, s.joined left.type right.type) := by
  rw [lowerBinary_eq, h]
  rfl

/-- An operator that the table does not know is reported, if the types of its operands have texts. -/
theorem lowerBinary_of_none {op : BinaryOp} {left right : Expr} {l r : String}
    (h : s.result? op left.type right.type = none)
    (hleft : (s.joined left.type right.type).unit.typeName? left.type = some l)
    (hright : (s.joined left.type right.type).unit.typeName? right.type = some r) (span : Span) :
    lowerBinary op left right span s =
      .ok (.binary op left right ⟨Primitive.invalid.id, span⟩,
        let s := s.joined left.type right.type
        { s with queue := s.queue.add (.undefinedOperator span op.symbol l r) }) := by
  rw [lowerBinary_eq, h]
  dsimp only
  rw [bind_of_ok (typeName_of_some hleft), bind_of_ok (typeName_of_some hright)]
  rfl

end Lowering

/-! ## The types of the language -/

/-- The types that every unit starts with: the primitive types, the generic `Iterable`, and the type of
ranges of integers. -/
def TypePool.basic : TypePool :=
  ⟨(Primitive.all.map TypeData.primitive ++
    [TypeData.generic "Iterable", .specific TypePool.iterableBase [Primitive.int.id]]).toArray, #[]⟩

/-- The types of the empty unit are the basic ones. -/
theorem types_empty : CodeUnit.empty.types = .basic := by decide +kernel

/-- A type that every unit starts with. -/
def IsBasicType (id : TypeId) : Prop := id < TypePool.basic.size

instance (id : TypeId) : Decidable (IsBasicType id) :=
  inferInstanceAs (Decidable (id < TypePool.basic.size))

/-- Every primitive is a basic type. -/
theorem isBasicType_primitive (p : Primitive) : IsBasicType p.id := by
  cases p <;> decide

namespace Resolved.CodeUnit.Standard

variable {u : CodeUnit} {id other : TypeId} (hu : u.Standard)

include hu

/-- A standard unit has the basic types. -/
theorem keeps_basic : TypePool.basic.Keeps u.types := types_empty ▸ hu.types

/-- A basic type of a standard unit has its description. -/
theorem get_basic (hid : IsBasicType id) : u.types.get id = TypePool.basic.get id :=
  hu.keeps_basic.get_eq id hid

/-- No basic type of a standard unit is a hole. -/
theorem isHole_basic (hid : IsBasicType id) : u.types.isHole id = false := by
  have hbasic : ∀ id < TypePool.basic.size, TypePool.basic.isHole id = false := by decide
  rw [TypePool.isHole, hu.get_basic hid]
  exact hbasic id hid

/-- A basic type of a standard unit stands for itself. -/
theorem resolve_basic (hid : IsBasicType id) : u.types.resolve id = id :=
  TypePool.resolve_of_root (TypePool.binding?_of_isHole_eq_false (hu.isHole_basic hid))

/-- Every basic type of a standard unit is known. -/
theorem isUnbound_basic (hid : IsBasicType id) : u.types.isUnbound id = false := by
  rw [TypePool.isUnbound, hu.resolve_basic hid, hu.isHole_basic hid]

/-- A type that is no hole is not bound. -/
theorem bindIfUnbound_basic (hid : IsBasicType id) (other : TypeId) :
    u.types.bindIfUnbound id other = (false, u.types) := by
  have hhole : u.types.isHole (u.types.resolve id) = false := hu.isUnbound_basic hid
  simp [TypePool.bindIfUnbound, hhole]

/-- The types of the language have texts. Only the type of ranges has parts. -/
theorem typeName?_basic (hid : IsBasicType id) : ∃ name, u.typeName? id = some name := by
  have hget (part : TypeId) (hpart : IsBasicType part) :
      u.types.get (u.types.resolve part) = TypePool.basic.get part := by
    rw [hu.resolve_basic hpart, hu.get_basic hpart]
  have hform : ∀ id < TypePool.basic.size, (∃ p ∈ Primitive.all,
      TypePool.basic.get id = .primitive p) ∨ TypePool.basic.get id = .generic "Iterable" ∨
      TypePool.basic.get id = .specific TypePool.iterableBase [Primitive.int.id] := by
    decide
  obtain ⟨depth, hdepth⟩ : ∃ depth, u.types.size = depth + 1 :=
    Nat.exists_eq_succ_of_ne_zero (Nat.ne_of_gt (Nat.lt_of_lt_of_le (by decide)
      hu.keeps_basic.size_le))
  unfold typeName?
  rw [hdepth, typeNameWithin, hget id hid]
  rcases hform id hid with ⟨p, -, hform⟩ | hform | hform
  · exact ⟨p.name, by rw [hform]⟩
  · exact ⟨"Iterable", by rw [hform]⟩
  · have hbase : u.typeNameWithin (depth + 1) TypePool.iterableBase = some "Iterable" := by
      rw [typeNameWithin, hget _ (by decide)]
      rfl
    have hint : u.typeNameWithin (depth + 1) Primitive.int.id = some "Int" := by
      rw [typeNameWithin, hget _ (by decide)]
      rfl
    refine ⟨"Iterable<Int>", ?_⟩
    rw [hform]
    simp only [List.mapM_cons, List.mapM_nil, hbase, hint]
    rfl

/-- For types of the language the table of every unit is that of the unit without classes. -/
theorem resultType?_basic (op : BinaryOp) (hid : IsBasicType id) (hother : IsBasicType other) :
    u.operators.resultType? u.types op id other =
      CodeUnit.empty.operators.resultType? .basic op id other := by
  have hresolve {id : TypeId} (hid : IsBasicType id) : TypePool.basic.resolve id = id :=
    types_empty ▸ standard_empty.resolve_basic hid
  rw [OperatorTable.resultType?, OperatorTable.resultType?, hu.operators, hu.resolve_basic hid,
    hu.resolve_basic hother, hresolve hid, hresolve hother]

/-- The type of the result of an operator on types of the language is one of them. -/
theorem isBasicType_of_resultType? {op : BinaryOp} {left right type : TypeId}
    (hright : IsBasicType right)
    (h : u.operators.resultType? u.types op left right = some type) : IsBasicType type := by
  unfold OperatorTable.resultType? at h
  dsimp only at h
  split at h
  · cases h
    rwa [hu.resolve_basic hright]
  split at h
  · cases h
    exact isBasicType_primitive .bool
  split at h
  · cases h
    exact isBasicType_primitive .unknown
  split at h
  · cases h
    exact isBasicType_primitive .dynamic
  · have hentries : ∀ entry ∈ CodeUnit.empty.operators.entries, IsBasicType entry.2 := by
      decide +kernel
    obtain ⟨before, after, hsplit, -⟩ := List.lookup_eq_some_iff.1 h
    rw [hu.operators] at hsplit
    exact hentries _ (hsplit ▸ List.mem_append_right before List.mem_cons_self)

end Resolved.CodeUnit.Standard

end ExpLang
