import ExpLang.Resolved.CodeUnit

/-!
# Scopes

A name in a method is looked up from the inside out: in the blocks around it, then among the
parameters of the method, the members of its class and the classes of the unit. Each block has a
layer of its own, so that what it declares hides outer declarations and leaves them as they are.
-/

namespace ExpLang.Resolved

/-- What a name stands for. -/
inductive Item where
  /-- A local of the method. -/
  | localVar (id : LocalId)
  /-- A parameter of the method. -/
  | param (id : ParamId)
  /-- A member of the class. -/
  | member (m : Member)
  /-- A class of the unit. -/
  | classRef (id : ClassId)
  /-- Nothing. -/
  | unknown
  deriving DecidableEq, Repr, Inhabited

/-- A place outside of all blocks where names are looked up. -/
inductive Realm where
  /-- The classes of the unit. -/
  | classes
  /-- The members of a class. -/
  | members (owner : ClassId)
  /-- The parameters of a method. -/
  | params (method : MethodId)
  /-- All that a method sees: its parameters, the members of its class, the classes of the unit. -/
  | method (owner : ClassId) (method : MethodId)
  deriving DecidableEq, Repr, Inhabited

/-- The last parameter of a method with a name. -/
def paramNamed? (u : CodeUnit) (method : MethodId) (name : String) : Option ParamId :=
  let params := (u.getMethod method).params.toList
  (params.reverse.findIdx? (·.name == name)).map (params.length - 1 - ·)

/-- Look a name up in a realm. -/
def Realm.lookup (u : CodeUnit) (name : String) : Realm → Option Item
  | classes => (u.classNamed? name).map .classRef
  | members owner => (u.member? owner name).map .member
  | params id => (paramNamed? u id name).map .param
  | method owner id => (paramNamed? u id name).map .param
    <|> (u.member? owner name).map .member
    <|> (u.classNamed? name).map .classRef

/-- What a name stands for in the first of several realms that knows it. -/
def Realm.find (u : CodeUnit) (realms : List Realm) (name : String) : Item :=
  (realms.findSome? (·.lookup u name)).getD .unknown

/-- What names stand for at a place. -/
structure Scope where
  /-- What the blocks around declare, innermost block and latest declaration first. -/
  layers : List (List (String × Item))
  /-- Where names are looked up that no block declares, the first realm first. -/
  realms : List Realm
  deriving DecidableEq, Repr, Inhabited

namespace Scope

/-- The scope of the body of a method. -/
def ofMethod (owner : ClassId) (method : MethodId) : Scope := ⟨[[]], [.method owner method]⟩

/-- The scope of code that belongs to a class and to none of its methods. -/
def ofClass (owner : ClassId) : Scope := ⟨[[]], [.members owner, .classes]⟩

/-- The scope of a block inside of another one. -/
def child (s : Scope) : Scope := { s with layers := [] :: s.layers }

/-- What the innermost block says of a name. -/
def declared? (s : Scope) (name : String) : Option Item := (s.layers.headD []).lookup name

/-- Declare a name in the innermost block. -/
def add (s : Scope) (name : String) (item : Item) : Scope :=
  { s with layers := ((name, item) :: s.layers.headD []) :: s.layers.tail }

/-- What a name stands for, if it stands for something. -/
def lookup (s : Scope) (u : CodeUnit) (name : String) : Option Item :=
  match s.layers.findSome? (·.lookup name) with
  | some item => some item
  | none => s.realms.findSome? (·.lookup u name)

/-- What a name stands for. -/
def find (s : Scope) (u : CodeUnit) (name : String) : Item := (s.lookup u name).getD .unknown

/-- The latest declaration of the innermost block counts. -/
theorem lookup_add_self (s : Scope) (u : CodeUnit) (name : String) (item : Item) :
    (s.add name item).lookup u name = some item := by
  simp [lookup, add]

/-- Adding a name leaves what other names stand for. -/
theorem lookup_add_of_ne (s : Scope) (u : CodeUnit) {name other : String} (hne : other ≠ name)
    (item : Item) : (s.add name item).lookup u other = s.lookup u other := by
  obtain ⟨layers, realms⟩ := s
  have hbeq : (other == name) = false := by simpa using hne
  cases layers <;> simp [lookup, add, List.findSome?_cons, List.lookup_cons, hbeq]

/-- A block without declarations sees what stands around it. -/
theorem lookup_child (s : Scope) (u : CodeUnit) (name : String) :
    s.child.lookup u name = s.lookup u name := by
  simp [lookup, child, List.findSome?_cons]

end Scope

end ExpLang.Resolved
