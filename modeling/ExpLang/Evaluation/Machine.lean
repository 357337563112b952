import ExpLang.Resolved.CodeUnit
import ExpLang.Evaluation.Operators

/-!
# The state of a running program

A machine holds the arrays and objects, the fields of classes that were read or written so far, how
deep calls are nested, and the frame of the code that runs: its receiver, its arguments and its
locals. A step changes the machine and gives a value or stops. It stops with an error of the
program, or because the fuel is used up that bounds how often code of other members is entered and
how often a loop goes round; what the machine was then is kept.
-/

namespace ExpLang.Evaluation

open Resolved

/-- What the code of a method works on. -/
structure Frame where
  /-- The receiver. -/
  this : Option ObjectRef := none
  /-- The arguments. -/
  args : Array Value := #[]
  /-- The locals. -/
  locals : Array Value := #[]
  deriving Repr, Inhabited

/-- The state of a running program. -/
structure Machine where
  /-- The arrays and objects. -/
  store : Store := {}
  /-- The fields of classes that have a value already. -/
  statics : FieldValues := []
  /-- How deep calls are nested. -/
  depth : Nat := 0
  /-- The frame of the code that runs. -/
  frame : Frame := {}
  deriving Repr, Inhabited

/-- Why a step stops. -/
inductive Stop where
  /-- The program made an error. -/
  | error (e : EvalError)
  /-- The fuel is used up. -/
  | outOfFuel
  deriving DecidableEq, Repr, Inhabited

/-- A step of a running program. -/
abbrev Eval := ExceptT Stop (StateM Machine)

/-- How a step ends decides how its sequel goes on, in the machine that the step leaves. -/
theorem bind_of_run {α β : Type} {x : Eval α} {f : α → Eval β} {r : Except Stop α} {m m' : Machine}
    (h : x m = (r, m')) : (x >>= f) m = ExceptT.bindCont f r m' := by
  change ExceptT.bindCont f (x m).1 (x m).2 = _
  rw [h]

/-- After a step that goes through the rest goes on in the machine it leaves. -/
theorem bind_of_ok {α β : Type} {x : Eval α} {f : α → Eval β} {a : α} {m m' : Machine}
    (h : x m = (.ok a, m')) : (x >>= f) m = f a m' :=
  bind_of_run h

/-- What a statement does to the statements after it. -/
inductive Flow where
  /-- They run. -/
  | normal
  /-- They do not run, and the method gives a value. -/
  | ret (value : Value)
  deriving Repr, Inhabited

/-- What a program runs in. -/
structure Env where
  /-- Its code. -/
  unit : CodeUnit
  /-- How deep calls may be nested. -/
  maxDepth : Nat := 1000
  deriving Inhabited

/-- Stop with an error. -/
def fail {α : Type} (e : EvalError) : Eval α := throw (.error e)

/-- The result of an operation as a step. -/
def ofResult {α : Type} : Except EvalError α → Eval α
  | .ok a => return a
  | .error e => fail e

/-- Change the store. -/
def onStore {α : Type} (f : Store → α × Store) : Eval α :=
  modifyGet fun m =>
    let (a, store) := f m.store
    (a, { m with store := store })

/-- Run a step in another frame, and go back to the frame before however it ends. -/
def inFrame {α : Type} (frame : Frame) (x : Eval α) : Eval α := fun m =>
  let (r, m') := x { m with frame := frame }
  (r, { m' with frame := m.frame })

/-- Run a step one call deeper, and take one from the depth that it leaves however it ends. -/
def deeper {α : Type} (x : Eval α) : Eval α := fun m =>
  let (r, m') := x { m with depth := m.depth + 1 }
  (r, { m' with depth := m'.depth - 1 })

/-- The value of a truth value. -/
def asBool : Value → Eval Bool
  | .bool b => return b
  | value => fail (.typeMismatch "Bool" value.kind)

/-- The value of an integer. -/
def asInt : Value → Eval Int64
  | .int n => return n
  | value => fail (.typeMismatch "Int" value.kind)

/-- The value in a slot of a frame. -/
def readSlot (slots : Array Value) (id : Nat) : Eval Value :=
  match slots[id]? with
  | some value => return value
  | none => fail (.missingSlot id slots.size)

/-- The slots of a frame with another value in one of them. -/
def writeSlot (slots : Array Value) (id : Nat) (value : Value) : Eval (Array Value) :=
  if id < slots.size then return slots.setIfInBounds id value
  else fail (.missingSlot id slots.size)

/-- The value of a local. -/
def getLocal (id : LocalId) : Eval Value := do readSlot (← get).frame.locals id

/-- Set a local. -/
def setLocal (id : LocalId) (value : Value) : Eval Unit := do
  let locals ← writeSlot (← get).frame.locals id value
  modify fun m => { m with frame := { m.frame with locals := locals } }

/-- The value of an argument. -/
def getArg (id : ParamId) : Eval Value := do readSlot (← get).frame.args id

/-- Set an argument. -/
def setArg (id : ParamId) (value : Value) : Eval Unit := do
  let args ← writeSlot (← get).frame.args id value
  modify fun m => { m with frame := { m.frame with args := args } }

/-- The value of a variable of a type before anything is assigned to it. -/
def Env.initialValue (env : Env) (type : TypeId) : Value :=
  match env.unit.types.get (env.unit.types.resolve type) with
  | .primitive .int | .primitive .long => .int 0
  | .primitive .float | .primitive .double => .float 0
  | .primitive .bool => .bool false
  | _ => .null

/-- Whether a member belongs to its class itself. -/
def Env.isStatic (env : Env) : Member → Bool
  | .field id => (env.unit.getField id).modifiers.isStatic
  | .method id => (env.unit.getMethod id).isStatic

/-- Something that can be assigned to. -/
inductive Place where
  /-- A local. -/
  | localVar (id : LocalId)
  /-- An argument. -/
  | argument (id : ParamId)
  /-- A field of an object or of a class. -/
  | field (receiver : Option ObjectRef) (id : FieldId)
  /-- An element of an array. -/
  | element (ref : ArrayRef) (index : Nat)
  deriving DecidableEq, Repr, Inhabited

end ExpLang.Evaluation
