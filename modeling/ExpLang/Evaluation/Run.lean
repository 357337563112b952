import ExpLang.Evaluation.Machine

/-!
# Running code

Code is run by recursion on it. What is not part of the code that runs is entered through an
`Entry`: the body of a method that is called, the default of a parameter, the first value of a
field. An entry has fuel, each entry inside of it has less, and so each run comes to an end; with
more fuel a run that was not out of fuel ends in the same way. A field of a class gets its first
value when it is read first.
-/

namespace ExpLang.Evaluation

open Resolved

/-- How code of other members is entered, each time in a frame of its own. -/
structure Entry where
  /-- Find the value of an expression. -/
  value : Frame → Expr → Eval Value
  /-- Run a body. -/
  body : Frame → Stmt → Eval Flow

/-- The entry without fuel. -/
def Entry.closed : Entry := ⟨fun _ _ => throw .outOfFuel, fun _ _ => throw .outOfFuel⟩

section Members

variable (env : Env) (entry : Entry)

/-- Read a field of a class, which gets its first value if it has none. -/
def readStatic (id : FieldId) : Eval Value := do
  match (← get).statics.lookup id with
  | some value => return value
  | none =>
    let field := env.unit.getField id
    let value ← match field.init with
      | some init => entry.value {} init
      | none => pure (env.initialValue field.type)
    modify fun m => { m with statics := m.statics.set id value }
    return value

/-- Read a field. -/
def readField (receiver : Option ObjectRef) (id : FieldId) : Eval Value := do
  if env.isStatic (.field id) then readStatic env entry id
  else
    let store := (← get).store
    match receiver.bind (store.field? · id) with
    | some value => return value
    | none => fail (.nullReference (env.unit.getField id).name)

/-- Set a field. -/
def writeField (receiver : Option ObjectRef) (id : FieldId) (value : Value) : Eval Unit := do
  if env.isStatic (.field id) then modify fun m => { m with statics := m.statics.set id value }
  else match receiver with
    | some ref => onStore fun s => ((), s.setField ref id value)
    | none => fail (.nullReference (env.unit.getField id).name)

/-- Read a member: the value of a field, or a method with its receiver. -/
def readMember (receiver : Option ObjectRef) : Member → Eval Value
  | .field id => readField env entry receiver id
  | .method id => return .method id (if env.isStatic (.method id) then none else receiver)

/-- The receiver of a member, given the expression before the point and how to find its value. A
member of a class needs none, and its class has no value. -/
def receiverOf (target : Expr) (value : Eval Value) (m : Member) : Eval (Option ObjectRef) := do
  if let .classRef _ _ := target then
    if env.isStatic m then return none
  match ← value with
  | .object ref => return some ref
  | value =>
    if env.isStatic m then return none
    if let .null := value then fail (.nullReference (env.unit.memberName m))
    fail (.typeMismatch "object" value.kind)

/-- The place of an element, given how to find the array and the index. -/
def elementOf (array index : Eval Value) : Eval Place := do
  match ← array with
  | .array ref =>
    let index ← asInt (← index)
    let length := ((← get).store.items ref).size
    if 0 ≤ index.toInt ∧ index.toInt < length then return .element ref index.toInt.toNat
    fail (.indexOutOfBounds index length)
  | value => fail (.typeMismatch "array" value.kind)

/-- Read a place. -/
def Place.read : Place → Eval Value
  | .localVar id => getLocal id
  | .argument id => getArg id
  | .field receiver id => readField env entry receiver id
  | .element ref index => return ((← get).store.items ref).getD index .null

/-- Write to a place. -/
def Place.write : Place → Value → Eval Unit
  | .localVar id, value => setLocal id value
  | .argument id, value => setArg id value
  | .field receiver id, value => writeField env receiver id value
  | .element ref index, value => onStore fun s => ((), s.setItem ref index value)

/-- Refuse a method some of whose types were never found. -/
def checkBound (m : MethodDef) : Eval Unit := do
  let isUnbound := env.unit.types.isUnbound
  if isUnbound m.ret then fail (.internal (.unboundHolder s!"return type of `{m.name}`"))
  if let some l := m.locals.toList.find? (isUnbound ·.type) then
    fail (.internal (.unboundHolder s!"local `{l.name}` of `{m.name}`"))

/-- The values of parameters that no argument is given for. -/
def defaultArgs (m : MethodDef) (given : Nat) (this : Option ObjectRef) :
    List ParamDef → Eval (List Value)
  | [] => return []
  | p :: rest => match p.default with
    | none => fail (.wrongArgCount m.name m.params.size given)
    | some e => do
      let value ← entry.value { this := this } e
      return value :: (← defaultArgs m given this rest)

/-- The arguments of a method with those that are left out. -/
def bindArgs (m : MethodDef) (this : Option ObjectRef) (args : List Value) : Eval (List Value) := do
  if m.params.size < args.length then fail (.wrongArgCount m.name m.params.size args.length)
  return args ++ (← defaultArgs entry m args.length this (m.params.toList.drop args.length))

/-- Call a method. -/
def call (id : MethodId) (receiver : Option ObjectRef) (args : List Value) : Eval Value := do
  let m := env.unit.getMethod id
  if env.maxDepth ≤ (← get).depth then fail (.callDepthExceeded env.maxDepth)
  checkBound env m
  match m.body with
  | none => fail (.internal (.missingBody m.name))
  | some body =>
    let this := if m.isStatic then none else receiver
    let args ← bindArgs entry m this args
    let locals := m.locals.map fun l => env.initialValue l.type
    match ← deeper (entry.body ⟨this, args.toArray, locals⟩ body) with
    | .ret value => return value
    | .normal => return .void

/-- Give the fields of a new object their first values. -/
def initFields (ref : ObjectRef) : List FieldId → Eval Unit
  | [] => return ()
  | id :: rest => do
    let field := env.unit.getField id
    unless field.modifiers.isStatic do
      let value ← match field.init with
        | some init => entry.value { this := some ref } init
        | none => pure (env.initialValue field.type)
      onStore fun s => ((), s.setField ref id value)
    initFields ref rest

/-- Make an object of a class. -/
def newObject (owner : ClassId) : Eval ObjectRef := do
  let ref ← onStore (·.newObject owner)
  initFields env entry ref (env.unit.getClass owner).fields
  return ref

end Members

section Expressions

variable (env : Env) (entry : Entry)

mutual

/-- Find the value of an expression. -/
def eval : Expr → Eval Value
  | .literal (.int n) _ => return .int n
  | .literal (.float x) _ => return .float x
  | .literal (.bool b) _ => return .bool b
  | .localVar id _ => getLocal id
  | .argument id _ => getArg id
  | .member m _ => do readMember env entry (← get).frame.this m
  | .access target m _ => do readMember env entry (← receiverOf env target (eval target) m) m
  | .this _ => do
    match (← get).frame.this with
    | some ref => return .object ref
    | none => fail (.nullReference "this")
  | .classRef id _ => fail (.classAsValue (env.unit.getClass id).name)
  | .index target index _ => do (← elementOf (eval target) (eval index)).read env entry
  | .call callee args _ => do
    let callee ← eval callee
    let args ← evalAll args
    match callee with
    | .method id receiver => call env entry id receiver args
    | value => fail (.notCallable value.kind)
  | .new owner args _ => do
    let _ ← evalAll args
    return .object (← newObject env entry owner)
  | .pre op operand _ => do
    if op = .inc ∨ op = .dec then
      let place ← placeOf operand
      let value ← ofResult (evalPrefix op (← place.read env entry))
      place.write env value
      return value
    ofResult (evalPrefix op (← eval operand))
  | .post op operand _ => do
    let place ← placeOf operand
    let old ← place.read env entry
    place.write env (← ofResult (evalPostfix op old))
    return old
  | .binary op left right _ => do
    match op with
    | .and =>
      if ← asBool (← eval left) then return .bool (← asBool (← eval right))
      else return .bool false
    | .or =>
      if ← asBool (← eval left) then return .bool true
      else return .bool (← asBool (← eval right))
    | .assign =>
      let place ← placeOf left
      let value ← eval right
      place.write env value
      return value
    | op =>
      if op.isAssignment then
        let place ← placeOf left
        let old ← place.read env entry
        let given ← eval right
        let value ← ofResult (evalBinary op old given)
        place.write env value
        return value
      let left ← eval left
      let right ← eval right
      ofResult (evalBinary op left right)
  | .unknown name _ => fail (.unresolved name)

/-- Find the values of expressions from left to right. -/
def evalAll : List Expr → Eval (List Value)
  | [] => return []
  | e :: rest => do
    let value ← eval e
    return value :: (← evalAll rest)

/-- Find the place that an expression stands for. -/
def placeOf : Expr → Eval Place
  | .localVar id _ => return .localVar id
  | .argument id _ => return .argument id
  | .member (.field id) _ => return .field (← get).frame.this id
  | .access target (.field id) _ =>
    return .field (← receiverOf env target (eval target) (.field id)) id
  | .index target index _ => elementOf (eval target) (eval index)
  | .unknown name _ => fail (.unresolved name)
  | _ => fail .invalidAssignmentTarget

end

end Expressions

/-- Run a body once for each of some values of a local. -/
def forEach (var : LocalId) (body : Eval Flow) : List Value → Eval Flow
  | [] => return .normal
  | value :: rest => do
    setLocal var value
    match ← body with
    | .normal => forEach var body rest
    | flow => return flow

/-- Run a body once for each of a number of integers from one on. -/
def countUp (var : LocalId) (body : Eval Flow) : Nat → Int → Eval Flow
  | 0, _ => return .normal
  | n + 1, i => do
    setLocal var (.int (Int64.ofInt i))
    match ← body with
    | .normal => countUp var body n (i + 1)
    | flow => return flow

/-- Run a body once for each integer from `low` on that is below `high`. -/
def forBetween (var : LocalId) (body : Eval Flow) (low high : Int64) : Eval Flow :=
  countUp var body (high.toInt - low.toInt).toNat low.toInt

/-- Run a body as long as a condition holds. -/
def repeatWhile (cond : Eval Bool) (body : Eval Flow) : Nat → Eval Flow
  | 0 => throw .outOfFuel
  | fuel + 1 => do
    if ← cond then
      match ← body with
      | .normal => repeatWhile cond body fuel
      | flow => return flow
    else return .normal

/-- Run a body once for each element of a value. -/
def forValue (var : LocalId) (body : Eval Flow) : Value → Eval Flow
  | .range low high => forBetween var body low high
  | .array ref => do forEach var body ((← get).store.items ref).toList
  | .str text => forEach var body (text.toList.map fun c => .str (String.singleton c))
  | value => fail (.notIterable value.kind)

section Statements

variable (env : Env) (entry : Entry) (fuel : Nat)

mutual

/-- Run a statement. -/
def exec : Stmt → Eval Flow
  | .seq body _ => execAll body
  | .expr e _ => do
    let _ ← eval env entry e
    return .normal
  | .ifElse cond thenBranch none _ => do
    if ← asBool (← eval env entry cond) then exec thenBranch else return .normal
  | .ifElse cond thenBranch (some elseBranch) _ => do
    if ← asBool (← eval env entry cond) then exec thenBranch else exec elseBranch
  | .whileLoop cond body _ =>
    repeatWhile (do asBool (← eval env entry cond)) (exec body) fuel
  | .forConst var low high body _ => forBetween var (exec body) low high
  | .forRange var low high body _ => do
    let low ← asInt (← eval env entry low)
    let high ← asInt (← eval env entry high)
    forBetween var (exec body) low high
  | .forIn var iterable body _ => do forValue var (exec body) (← eval env entry iterable)
  | .ret none _ => return .ret .void
  | .ret (some e) _ => return .ret (← eval env entry e)

/-- Run statements one after the other. -/
def execAll : List Stmt → Eval Flow
  | [] => return .normal
  | s :: rest => do
    match ← exec s with
    | .normal => execAll rest
    | flow => return flow

end

end Statements

/-- The entry with some fuel. -/
def Entry.fuelled (env : Env) : Nat → Entry
  | 0 => .closed
  | fuel + 1 => {
      value := fun frame e => inFrame frame (eval env (fuelled env fuel) e)
      body := fun frame s => inFrame frame (exec env (fuelled env fuel) fuel s) }

end ExpLang.Evaluation
