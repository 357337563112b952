/-!
# The type pool

Types are named by their index in a pool. A type that is made of others is interned: equal
descriptions get one index. The primitive types and the generic `Iterable` have fixed indices.

A *hole* is a type that is not known yet. The first check that compares it with another type binds
it to that type, and from then on it stands for it; two holes can be bound to one another. This is
how a variable without a type takes the type of its value, and a method without a type of result
the type of what it returns first.

Indices are numbers here and 32-bit words in the programs that are described, where every index past the
largest word is that word; `TypeRegister` has such indices. The two are the same for pools of at most
2 ^ 32 types.

Holes can tie a type into itself, so comparing types need not come to an end: `TypePool.canAssign`
says nothing then.
-/

namespace ExpLang

/-- The index of a class. -/
abbrev ClassId := Nat

/-- The index of a type. -/
abbrev TypeId := Nat

/-- The types that are not made of others. -/
inductive Primitive where
  | void
  | bool
  | int
  | long
  | float
  | double
  | string
  | dynamic
  | unknown
  | invalid
  deriving DecidableEq, Repr, Inhabited

namespace Primitive

/-- The primitive types in the order of their indices. -/
def all : List Primitive :=
  [void, bool, int, long, float, double, string, dynamic, unknown, invalid]

/-- The name of a primitive type. -/
def name : Primitive → String
  | void => "Void"
  | bool => "Bool"
  | int => "Int"
  | long => "Long"
  | float => "Float"
  | double => "Double"
  | string => "String"
  | dynamic => "Dynamic"
  | unknown => "Unknown"
  | invalid => "Invalid"

/-- The index of a primitive type. -/
def id : Primitive → TypeId
  | void => 0
  | bool => 1
  | int => 2
  | long => 3
  | float => 4
  | double => 5
  | string => 6
  | dynamic => 7
  | unknown => 8
  | invalid => 9

/-- The primitive type of an index. -/
def ofId? (id : TypeId) : Option Primitive := all[id]?

/-- The index of a primitive leads back to it. -/
theorem ofId?_id (p : Primitive) : ofId? p.id = some p := by
  cases p <;> rfl

/-- Whether a primitive type can be written in a source. -/
def isWritable (p : Primitive) : Bool := p != unknown && p != invalid

/-- The primitive type that a name in a source stands for. -/
def ofName? (name : String) : Option Primitive := all.find? fun p => p.name == name && p.isWritable

end Primitive

/-- What a type is. -/
inductive TypeData where
  /-- A primitive type. -/
  | primitive (p : Primitive)
  /-- The type of the objects of a class. -/
  | ofClass (id : ClassId)
  /-- Arrays of an element type. -/
  | array (element : TypeId)
  /-- Functions, by the type of their result and the types of their parameters. -/
  | function (ret : TypeId) (params : List TypeId)
  /-- A type that takes other types. -/
  | generic (name : String)
  /-- A generic type with the types that it is given. -/
  | specific (base : TypeId) (args : List TypeId)
  /-- A hole, by its number. -/
  | hole (slot : Nat)
  deriving DecidableEq, Repr, Inhabited

/-- All types of a compilation. -/
structure TypePool where
  /-- What each type is. -/
  data : Array TypeData
  /-- What each hole is bound to. -/
  bindings : Array (Option TypeId)
  deriving DecidableEq, Repr, Inhabited

namespace TypePool

/-- The index of the generic `Iterable`. -/
def iterableBase : TypeId := 10

/-- The pool of a new compilation: the primitive types and `Iterable`. -/
def initial : TypePool :=
  ⟨(Primitive.all.map TypeData.primitive ++ [TypeData.generic "Iterable"]).toArray, #[]⟩

/-- Number of types. -/
def size (pool : TypePool) : Nat := pool.data.size

/-- Whether an index is that of a primitive type. -/
def isPrimitive (id : TypeId) : Bool := id < iterableBase

/-- What a type is; an index without a type counts as invalid. -/
def get (pool : TypePool) (id : TypeId) : TypeData := pool.data.getD id (.primitive .invalid)

/-- Add a type, unless the pool has it. -/
def intern (pool : TypePool) (d : TypeData) : TypeId × TypePool :=
  match pool.data.findIdx? (· == d) with
  | some id => (id, pool)
  | none => (pool.size, { pool with data := pool.data.push d })

/-- An interned description stands at the index that is given for it. -/
theorem get_intern (pool : TypePool) (d : TypeData) :
    (pool.intern d).2.get (pool.intern d).1 = d := by
  unfold intern
  split
  · rename_i id h
    obtain ⟨hlt, heq, _⟩ := Array.findIdx?_eq_some_iff_getElem.1 h
    simpa [TypePool.get, Array.getD, hlt] using heq
  · simp [TypePool.get, TypePool.size, Array.getD]

/-- Add a hole. It differs from all holes before it. -/
def newHole (pool : TypePool) : TypeId × TypePool :=
  (pool.size, ⟨pool.data.push (.hole pool.bindings.size), pool.bindings.push none⟩)

/-- The type of arrays of an element type. -/
def array (pool : TypePool) (element : TypeId) : TypeId × TypePool := pool.intern (.array element)

/-- The type of functions with a result and parameters. -/
def function (pool : TypePool) (ret : TypeId) (params : List TypeId) : TypeId × TypePool :=
  pool.intern (.function ret params)

/-- The type of the objects of a class. -/
def ofClass (pool : TypePool) (id : ClassId) : TypeId × TypePool := pool.intern (.ofClass id)

/-- The type `Iterable` of an element type. -/
def iterable (pool : TypePool) (element : TypeId) : TypeId × TypePool :=
  pool.intern (.specific iterableBase [element])

/-- What a type is bound to, if it is a hole that is bound. -/
def binding? (pool : TypePool) (id : TypeId) : Option TypeId :=
  match pool.get id with
  | .hole slot => pool.bindings.getD slot none
  | _ => none

/-- Follow the bindings of holes, at most a number of them. -/
def resolveWithin (pool : TypePool) : Nat → TypeId → TypeId
  | 0, id => id
  | n + 1, id => match pool.binding? id with
    | some next => resolveWithin pool n next
    | none => id

/-- The type that a type stands for. A hole that is not bound stands for itself. -/
def resolve (pool : TypePool) (id : TypeId) : TypeId := pool.resolveWithin pool.bindings.size id

/-- Whether a type is a hole, bound or not. -/
def isHole (pool : TypePool) (id : TypeId) : Bool :=
  match pool.get id with
  | .hole _ => true
  | _ => false

/-- Whether a type stands for a hole that is not bound. -/
def isUnbound (pool : TypePool) (id : TypeId) : Bool := pool.isHole (pool.resolve id)

/-- Bind a hole. -/
def bind (pool : TypePool) (hole target : TypeId) : TypePool :=
  match pool.get hole with
  | .hole slot => { pool with bindings := pool.bindings.setIfInBounds slot (some target) }
  | _ => pool

/-- Bind what a type stands for to what another one stands for, if it is a hole and another one. The
truth value says whether it was. -/
def bindIfUnbound (pool : TypePool) (hole target : TypeId) : Bool × TypePool :=
  let hole := pool.resolve hole
  let target := pool.resolve target
  if hole ≠ target ∧ pool.isHole hole then (true, pool.bind hole target) else (false, pool)

/-- Whether a type goes with every other one: it is dynamic, or an error was reported already. -/
def isLenient (id : TypeId) : Bool :=
  id == Primitive.dynamic.id || id == Primitive.unknown.id || id == Primitive.invalid.id

/-- A check that may bind holes and may not come to an end. -/
abbrev Check := StateT TypePool Option

/-- Whether two types go with one another in both directions. -/
def same (compare : TypeId → TypeId → Check Bool) (a b : TypeId) : Check Bool := do
  if ← compare a b then compare b a else return false

/-- Whether the types of two lists go with one another, up to the first that do not. -/
def sameAll (compare : TypeId → TypeId → Check Bool) : List TypeId → List TypeId → Check Bool
  | a :: as, b :: bs => do
    if ← same compare a b then sameAll compare as bs else return false
  | _, _ => return true

/-- Compare what two types are, where `compare` compares their parts. -/
def compareData (compare : TypeId → TypeId → Check Bool) : TypeData → TypeData → Check Bool
  | .array a, .array b => same compare a b
  | .function r1 p1, .function r2 p2 => do
    if p1.length ≠ p2.length then return false
    if ← same compare r1 r2 then sameAll compare p1 p2 else return false
  | .specific b1 a1, .specific b2 a2 => do
    if b1 ≠ b2 ∨ a1.length ≠ a2.length then return false
    sameAll compare a1 a2
  | _, _ => return false

/-- Whether a value of one type can stand where another one is wanted, where `depth` bounds how deep
the types are compared. -/
def canAssignWithin : Nat → TypeId → TypeId → Check Bool
  | 0, _, _ => failure
  | depth + 1, target, given => do
    let pool ← MonadState.get
    let target := pool.resolve target
    let given := pool.resolve given
    if target = given then return true
    if pool.isHole target then
      set (pool.bind target given)
      return true
    if pool.isHole given then
      set (pool.bind given target)
      return true
    if isLenient target || isLenient given then return true
    compareData (canAssignWithin depth) (pool.get target) (pool.get given)

/-- A depth beyond which a comparison must have met one pair of types twice with the same bindings,
so that it never ends. -/
def compareDepth (pool : TypePool) : Nat :=
  pool.size * pool.size * (pool.bindings.size + 1) + 1

/-- Whether a value of one type can stand where another one is wanted. A hole is bound to the other
type and goes with it; nothing is said about types on which the comparison never ends. -/
def canAssign (target given : TypeId) : Check Bool := do
  canAssignWithin (← MonadState.get).compareDepth target given

/-- The type of the elements of a type. -/
def elementOf (pool : TypePool) (id : TypeId) : TypeId :=
  match pool.get (pool.resolve id) with
  | .array element => element
  | .specific base args =>
    if base = iterableBase then args.headD Primitive.unknown.id else Primitive.unknown.id
  | .primitive .dynamic => Primitive.dynamic.id
  | _ => Primitive.unknown.id

/-- The type of the result of calling a value of a type. -/
def returnTypeOf (pool : TypePool) (id : TypeId) : TypeId :=
  match pool.get (pool.resolve id) with
  | .function ret _ => ret
  | .primitive .dynamic => Primitive.dynamic.id
  | _ => Primitive.unknown.id

end TypePool

end ExpLang
