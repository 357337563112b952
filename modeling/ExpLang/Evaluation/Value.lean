import ExpLang.Resolved.Code
import ExpLang.Decimal.Shortest

/-!
# Values

Numbers, truth values, texts, ranges and methods are values by themselves. Arrays and objects live
in a store, and a value refers to one by its index there: to copy the value is to share the array or
object, and two references are the same value exactly if they refer to the same place.
-/

namespace ExpLang.Evaluation

open Resolved

/-- The index of an array in a store. -/
abbrev ArrayRef := Nat

/-- The index of an object in a store. -/
abbrev ObjectRef := Nat

/-- A value of a running program. -/
inductive Value where
  /-- No value. -/
  | void
  /-- The value of a variable for an array, an object or a text that was never assigned. -/
  | null
  /-- An integer. -/
  | int (value : Int64)
  /-- A fraction. -/
  | float (value : Float)
  /-- A truth value. -/
  | bool (value : Bool)
  /-- A text. -/
  | str (value : String)
  /-- The integers from `low` on that are below `high`. -/
  | range (low high : Int64)
  /-- An array. -/
  | array (ref : ArrayRef)
  /-- An object. -/
  | object (ref : ObjectRef)
  /-- A method with its receiver. -/
  | method (id : MethodId) (receiver : Option ObjectRef)
  deriving Repr, Inhabited

namespace Value

/-- The word for the kind of a value. -/
def kind : Value → String
  | void => "Void"
  | null => "null"
  | int _ => "Int"
  | float _ => "Float"
  | bool _ => "Bool"
  | str _ => "String"
  | range _ _ => "Range"
  | array _ => "array"
  | object _ => "object"
  | method _ _ => "method"

/-- Whether two values are the same for the program. Fractions compare as numbers, so that both
zeros are the same and no number that is not a number is the same as itself. -/
def same : Value → Value → Bool
  | void, void | null, null => true
  | int a, int b => a == b
  | float a, float b => a == b
  | bool a, bool b => a == b
  | str a, str b => a == b
  | range a b, range c d => a == c && b == d
  | array a, array b => a == b
  | object a, object b => a == b
  | method m a, method n b => m == n && a == b
  | _, _ => false

end Value

/-- The values of fields. -/
abbrev FieldValues := List (FieldId × Value)

/-- Set the value of a field. -/
def FieldValues.set (field : FieldId) (value : Value) : FieldValues → FieldValues
  | [] => [(field, value)]
  | (id, old) :: rest =>
    if id = field then (field, value) :: rest else (id, old) :: FieldValues.set field value rest

/-- A field that is set has its value. -/
theorem FieldValues.lookup_set_self (field : FieldId) (value : Value) (fields : FieldValues) :
    (fields.set field value).lookup field = some value := by
  induction fields with
  | nil => simp [FieldValues.set]
  | cons head rest ih =>
    obtain ⟨id, old⟩ := head
    by_cases h : id = field
    · simp [FieldValues.set, h]
    · have : (field == id) = false := by simpa using Ne.symm h
      simp [FieldValues.set, h, List.lookup_cons, this, ih]

/-- Setting a field leaves the others. -/
theorem FieldValues.lookup_set_of_ne {field other : FieldId} (hne : other ≠ field) (value : Value)
    (fields : FieldValues) : (fields.set field value).lookup other = fields.lookup other := by
  have hbeq : (other == field) = false := by simpa using hne
  induction fields with
  | nil => simp [FieldValues.set, List.lookup_cons, hbeq]
  | cons head rest ih =>
    obtain ⟨id, old⟩ := head
    by_cases h : id = field
    · simp [FieldValues.set, h, List.lookup_cons, hbeq]
    · simp [FieldValues.set, h, List.lookup_cons, ih]

/-- An object. -/
structure Instance where
  /-- Its class. -/
  owner : ClassId
  /-- The values of its fields. -/
  fields : FieldValues := []
  deriving Repr, Inhabited

/-- The arrays and objects of a running program. -/
structure Store where
  /-- The elements of each array. -/
  arrays : Array (Array Value) := #[]
  /-- The objects. -/
  objects : Array Instance := #[]
  deriving Repr, Inhabited

namespace Store

/-- Add an array. -/
def newArray (s : Store) (items : List Value) : ArrayRef × Store :=
  (s.arrays.size, { s with arrays := s.arrays.push items.toArray })

/-- Add an object without fields. -/
def newObject (s : Store) (owner : ClassId) : ObjectRef × Store :=
  (s.objects.size, { s with objects := s.objects.push { owner := owner } })

/-- The elements of an array. -/
def items (s : Store) (ref : ArrayRef) : Array Value := s.arrays.getD ref #[]

/-- Change an element of an array. -/
def setItem (s : Store) (ref : ArrayRef) (index : Nat) (value : Value) : Store :=
  { s with arrays := s.arrays.modify ref (·.setIfInBounds index value) }

/-- An object. -/
def getObject (s : Store) (ref : ObjectRef) : Instance := s.objects.getD ref default

/-- The value of a field of an object, if the object has one. -/
def field? (s : Store) (ref : ObjectRef) (field : FieldId) : Option Value :=
  (s.getObject ref).fields.lookup field

/-- Set a field of an object. -/
def setField (s : Store) (ref : ObjectRef) (field : FieldId) (value : Value) : Store :=
  { s with objects := s.objects.modify ref fun o => { o with fields := o.fields.set field value } }

/-- The text of a value, where `depth` bounds how deep arrays are nested. -/
def textWithin (s : Store) : Nat → Value → Option String
  | _, .void => some "void"
  | _, .null => some "null"
  | _, .int n => some (toString n.toInt)
  | _, .float x => some (Shortest.positional x)
  | _, .bool b => some (if b then "true" else "false")
  | _, .str text => some text
  | _, .range low high => some (toString low.toInt ++ "..." ++ toString high.toInt)
  | 0, .array _ => none
  | depth + 1, .array ref => do
    let items ← (s.items ref).toList.mapM (textWithin s depth)
    return "[" ++ ", ".intercalate items ++ "]"
  | _, .object ref => some s!"<object ClassId({(s.getObject ref).owner})>"
  | _, .method id _ => some s!"<method MethodId({id})>"

/-- The text of a value; none if it is an array that contains itself. An array that is nested deeper
than there are arrays does. -/
def text? (s : Store) (value : Value) : Option String := s.textWithin s.arrays.size value

end Store

end ExpLang.Evaluation
