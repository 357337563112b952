import ExpLang.Resolved.Code
import ExpLang.Diagnostic.Fault
import ExpLang.Types.Inspect
import ExpLang.Types.Operators

/-!
# Compilation units

A unit holds the classes of a program with their fields and methods, the types and the types of
operators. Classes, fields and methods are named by their index. A name is declared once in its
scope: of the classes of a unit, or of the fields and methods of a class taken together. A second
declaration is refused and changes nothing.

Indices are numbers here and 32-bit words in the programs that are described, where every index past the
largest word is that word. The two are the same for units with at most 2 ^ 32 classes, fields, methods,
parameters and locals each; more of them take about a terabyte.
-/

namespace ExpLang.Resolved

/-- How a member can be used. -/
structure Modifiers where
  /-- Everybody can use it. -/
  isPublic : Bool
  /-- Only its class can use it. -/
  isPrivate : Bool
  /-- It belongs to the class itself and not to its objects. -/
  isStatic : Bool
  deriving DecidableEq, Repr, Inhabited

namespace Modifiers

/-- For members of objects. -/
def ofObject : Modifiers := ⟨true, false, false⟩

/-- For members of classes. -/
def ofClass : Modifiers := ⟨true, false, true⟩

/-- Modifiers as a sum of powers of two. -/
def bits (m : Modifiers) : Nat :=
  m.isPublic.toNat + 2 * m.isPrivate.toNat + 4 * m.isStatic.toNat

/-- Modifiers from a sum of powers of two; other powers do not count. -/
def ofBits (n : Nat) : Modifiers := ⟨n.testBit 0, n.testBit 1, n.testBit 2⟩

/-- The bits of modifiers lead back to them. -/
theorem ofBits_bits (m : Modifiers) : ofBits m.bits = m := by
  rcases m with ⟨_ | _, _ | _, _ | _⟩ <;> rfl

/-- The text of modifiers. -/
def text (m : Modifiers) : String :=
  let words := (if m.isPublic then ["PUBLIC"] else []) ++ (if m.isPrivate then ["PRIVATE"] else [])
    ++ (if m.isStatic then ["STATIC"] else [])
  "Modifiers(" ++ (if words.isEmpty then "0x0" else " | ".intercalate words) ++ ")"

end Modifiers

/-- The names that generated code uses already. -/
structure NameSupply where
  /-- The names, latest first. -/
  used : List String := []
  deriving DecidableEq, Repr, Inhabited

namespace NameSupply

/-- The first name that is not used among the base with a number from `n` on. There are more numbers
than names to try. -/
def firstFree (used : List String) (base : String) : Nat → Nat → String
  | 0, n => base ++ toString n
  | bound + 1, n =>
    let candidate := base ++ toString n
    if used.contains candidate then firstFree used base bound (n + 1) else candidate

/-- Take a name: the base if it is not used, else the base with the least number that makes a name
which is not used. -/
def take (names : NameSupply) (base : String) : String × NameSupply :=
  let name :=
    if names.used.contains base then firstFree names.used base names.used.length 1 else base
  (name, ⟨name :: names.used⟩)

end NameSupply

/-- A parameter of a method. -/
structure ParamDef where
  /-- Its name. -/
  name : String
  /-- Its type. -/
  type : TypeId
  /-- Its value where an argument is missing. -/
  default : Option Expr := none
  deriving Inhabited

/-- A local of a method. -/
structure LocalDef where
  /-- Its name. -/
  name : String
  /-- Its type. -/
  type : TypeId
  /-- Its name in generated code, which no other local or parameter of the method has. -/
  codegenName : String
  /-- Where it is declared. -/
  span : Span
  deriving DecidableEq, Repr, Inhabited

/-- A field of a class. -/
structure FieldDef where
  /-- Its name. -/
  name : String
  /-- Its type. -/
  type : TypeId
  /-- How it can be used. -/
  modifiers : Modifiers
  /-- Its first value. -/
  init : Option Expr := none
  /-- The class it belongs to. -/
  owner : ClassId
  /-- Where it is declared. -/
  span : Span
  deriving Inhabited

/-- A method of a class. -/
structure MethodDef where
  /-- Its name. -/
  name : String
  /-- The class it belongs to. -/
  owner : ClassId
  /-- The type of its result. -/
  ret : TypeId
  /-- Its type as a function. -/
  type : TypeId
  /-- How it can be used. -/
  modifiers : Modifiers
  /-- Its parameters. -/
  params : Array ParamDef
  /-- Its locals. -/
  locals : Array LocalDef := #[]
  /-- The names that its generated code uses. -/
  names : NameSupply := {}
  /-- What it does, once that is known. -/
  body : Option Stmt := none
  /-- Where it is declared. -/
  span : Span
  deriving Inhabited

/-- Whether a method belongs to the class itself. -/
def MethodDef.isStatic (m : MethodDef) : Bool := m.modifiers.isStatic

/-- Add a local. -/
def MethodDef.addLocal (m : MethodDef) (name : String) (type : TypeId) (span : Span) :
    LocalId × MethodDef :=
  let (codegenName, names) := m.names.take name
  (m.locals.size,
    { m with locals := m.locals.push ⟨name, type, codegenName, span⟩, names := names })

/-- A class. -/
structure ClassDef where
  /-- Its name. -/
  name : String
  /-- The type of its objects. -/
  type : TypeId
  /-- Its fields in the order of their declaration. -/
  fields : List FieldId := []
  /-- Its methods in the order of their declaration. -/
  methods : List MethodId := []
  /-- Where it is declared. -/
  span : Span
  deriving DecidableEq, Repr, Inhabited

/-- A compiled program. -/
structure CodeUnit where
  /-- The types. -/
  types : TypePool
  /-- The types of operators. -/
  operators : OperatorTable
  /-- The classes. -/
  classes : Array ClassDef := #[]
  /-- The methods of all classes. -/
  methods : Array MethodDef := #[]
  /-- The fields of all classes. -/
  fields : Array FieldDef := #[]
  deriving Inhabited

namespace CodeUnit

/-- The unit without classes. -/
def empty : CodeUnit :=
  let (operators, types) := OperatorTable.initial .initial
  { types := types, operators := operators }

/-- The class of an index. -/
def getClass (u : CodeUnit) (id : ClassId) : ClassDef := u.classes.getD id default

/-- The method of an index. -/
def getMethod (u : CodeUnit) (id : MethodId) : MethodDef := u.methods.getD id default

/-- The field of an index. -/
def getField (u : CodeUnit) (id : FieldId) : FieldDef := u.fields.getD id default

/-- Change a method. -/
def modifyMethod (u : CodeUnit) (id : MethodId) (f : MethodDef → MethodDef) : CodeUnit :=
  { u with methods := u.methods.modify id f }

/-- Change a field. -/
def modifyField (u : CodeUnit) (id : FieldId) (f : FieldDef → FieldDef) : CodeUnit :=
  { u with fields := u.fields.modify id f }

/-- The class of a name. -/
def classNamed? (u : CodeUnit) (name : String) : Option ClassId :=
  u.classes.findIdx? (·.name == name)

/-- The method of a class with a name. -/
def methodNamed? (u : CodeUnit) (id : ClassId) (name : String) : Option MethodId :=
  (u.getClass id).methods.find? fun m => (u.getMethod m).name == name

/-- The field of a class with a name. -/
def fieldNamed? (u : CodeUnit) (id : ClassId) (name : String) : Option FieldId :=
  (u.getClass id).fields.find? fun f => (u.getField f).name == name

/-- The member of a class with a name. -/
def member? (u : CodeUnit) (id : ClassId) (name : String) : Option Member :=
  (u.fieldNamed? id name).map .field <|> (u.methodNamed? id name).map .method

/-- The type of a member. -/
def memberType (u : CodeUnit) : Member → TypeId
  | .field id => (u.getField id).type
  | .method id => (u.getMethod id).type

/-- The name of a member. -/
def memberName (u : CodeUnit) : Member → String
  | .field id => (u.getField id).name
  | .method id => (u.getMethod id).name

/-- Where a member is declared. -/
def memberSpan (u : CodeUnit) : Member → Span
  | .field id => (u.getField id).span
  | .method id => (u.getMethod id).span

/-- Declare a class. -/
def createClass (u : CodeUnit) (name : String) (span : Span) :
    Except DuplicateName (ClassId × CodeUnit) :=
  match u.classNamed? name with
  | some existing => .error ⟨"module", name, (u.getClass existing).span⟩
  | none =>
    let id := u.classes.size
    let (type, types) := u.types.ofClass id
    .ok (id, { u with
      types := types
      classes := u.classes.push { name := name, type := type, span := span } })

/-- The refusal of a member whose name its class declares already. -/
def memberClash? (u : CodeUnit) (owner : ClassId) (name : String) : Option DuplicateName :=
  (u.member? owner name).map fun existing =>
    ⟨(u.getClass owner).name, name, u.memberSpan existing⟩

/-- Declare a field. -/
def createField (u : CodeUnit) (owner : ClassId) (name : String) (type : TypeId)
    (modifiers : Modifiers) (span : Span) : Except DuplicateName (FieldId × CodeUnit) :=
  match u.memberClash? owner name with
  | some clash => .error clash
  | none =>
    let id := u.fields.size
    .ok (id, { u with
      fields := u.fields.push
        { name := name, type := type, modifiers := modifiers, owner := owner, span := span }
      classes := u.classes.modify owner fun c => { c with fields := c.fields ++ [id] } })

/-- Declare a method. -/
def createMethod (u : CodeUnit) (owner : ClassId) (name : String) (ret : TypeId)
    (modifiers : Modifiers) (params : List (String × TypeId)) (span : Span) :
    Except DuplicateName (MethodId × CodeUnit) :=
  match u.memberClash? owner name with
  | some clash => .error clash
  | none =>
    let id := u.methods.size
    let (type, types) := u.types.function ret (params.map (·.2))
    let names := params.foldl (fun (names : NameSupply) p => (names.take p.1).2) {}
    .ok (id, { u with
      types := types
      methods := u.methods.push {
        name := name, owner := owner, ret := ret, type := type, modifiers := modifiers
        params := (params.map fun (name, type) => { name := name, type := type }).toArray
        names := names, span := span }
      classes := u.classes.modify owner fun c => { c with methods := c.methods ++ [id] } })

/-- The type that a name in a source stands for: a primitive type or a class. -/
def namedType? (u : CodeUnit) (name : String) : Option TypeId :=
  match Primitive.ofName? name with
  | some p => some p.id
  | none => (u.classNamed? name).map fun id => (u.getClass id).type

/-- The text of a type, where `depth` bounds how deep it is taken apart. -/
def typeNameWithin (u : CodeUnit) : Nat → TypeId → Option String
  | 0, _ => none
  | depth + 1, id => match u.types.get (u.types.resolve id) with
    | .primitive p => some p.name
    | .ofClass c => some (u.getClass c).name
    | .array element => (typeNameWithin u depth element).map (· ++ "[]")
    | .function ret params => do
      let params ← params.mapM (typeNameWithin u depth)
      let ret ← typeNameWithin u depth ret
      return "(" ++ ", ".intercalate params ++ ") -> " ++ ret
    | .generic name => some name
    | .specific base args => do
      let args ← args.mapM (typeNameWithin u depth)
      let base ← typeNameWithin u depth base
      return base ++ "<" ++ ", ".intercalate args ++ ">"
    | .hole _ => some "?"

/-- The text of a type; none if the type contains itself. A type that is deeper than there are types
does. -/
def typeName? (u : CodeUnit) (id : TypeId) : Option String := u.typeNameWithin (u.types.size + 1) id

/-- The text of a type for inspection. -/
def typeText (u : CodeUnit) (id : TypeId) : String := (u.typeName? id).getD "<cyclic>"

/-- What a member name means on a type. -/
inductive AccessResult where
  /-- The type has such a member, or it is a class without one. -/
  | found (m : Option Member)
  /-- Nothing is known about the members of the type. -/
  | lenient
  /-- The type has no members. -/
  | unsupported
  deriving DecidableEq, Repr, Inhabited

/-- Look a member name up on a type. -/
def access (u : CodeUnit) (type : TypeId) (name : String) : AccessResult :=
  match u.types.get (u.types.resolve type) with
  | .ofClass id => .found (u.member? id name)
  | .primitive .unknown | .primitive .invalid | .primitive .dynamic => .lenient
  | _ => .unsupported

end CodeUnit

end ExpLang.Resolved
