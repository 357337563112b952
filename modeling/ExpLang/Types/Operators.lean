import ExpLang.Syntax.Operator
import ExpLang.Types.Pool

/-!
# Types of operators

A table gives the type of the result of an operator for the types of its operands. An assignment
has the type of its right operand and a comparison is always a truth value, whatever the operands;
what is wrong about them is reported elsewhere.
-/

namespace ExpLang

/-- The types of results, the latest entry first. -/
structure OperatorTable where
  /-- An operator with the types of its operands, and the type of the result. -/
  entries : List ((BinaryOp × TypeId × TypeId) × TypeId)
  deriving DecidableEq, Repr, Inhabited

namespace OperatorTable

/-- The operators on integers that give an integer. -/
def intOps : List BinaryOp :=
  [.add, .sub, .mul, .div, .mod, .pow, .cmp, .shl, .shr, .uShr, .bitOr, .bitAnd, .bitXor]

/-- The operators on fractions that give a fraction. -/
def floatOps : List BinaryOp := [.add, .sub, .mul, .div, .mod, .pow]

/-- Add an entry; it takes the place of one for the same operands. -/
def add (table : OperatorTable) (op : BinaryOp) (left right result : TypeId) : OperatorTable :=
  ⟨((op, left, right), result) :: table.entries⟩

/-- The entries that the language starts with, but for compound assignments and ranges. -/
def basic : List ((BinaryOp × TypeId × TypeId) × TypeId) :=
  intOps.map (fun op => ((op, Primitive.int.id, Primitive.int.id), Primitive.int.id))
    ++ floatOps.map (fun op => ((op, Primitive.float.id, Primitive.float.id), Primitive.float.id))
    ++ [((.cmp, Primitive.float.id, Primitive.float.id), Primitive.int.id),
        ((.add, Primitive.string.id, Primitive.string.id), Primitive.string.id)]

/-- The entries of compound assignments: each has those of its base. -/
def compound : List ((BinaryOp × TypeId × TypeId) × TypeId) :=
  BinaryOp.all.flatMap fun op => match op.base? with
    | none => []
    | some base => basic.filterMap fun ((o, l, r), result) =>
        if o = base then some ((op, l, r), result) else none

/-- The table that the language starts with, and the pool with the type of ranges. -/
def initial (pool : TypePool) : OperatorTable × TypePool :=
  let (range, pool) := pool.iterable Primitive.int.id
  (⟨((.range, Primitive.int.id, Primitive.int.id), range) :: basic ++ compound⟩, pool)

/-- The type of the result of an operator on two types, if the operator takes them. -/
def resultType? (table : OperatorTable) (pool : TypePool) (op : BinaryOp) (left right : TypeId) :
    Option TypeId :=
  let left := pool.resolve left
  let right := pool.resolve right
  let either (p : Primitive) : Bool := left == p.id || right == p.id
  if op = .assign then some right
  else if op.isBoolean then some Primitive.bool.id
  else if either .unknown || either .invalid then some Primitive.unknown.id
  else if either .dynamic then some Primitive.dynamic.id
  else table.entries.lookup (op, left, right)

end OperatorTable

end ExpLang
