import ExpLang.Proofs.Lowering.Jobs

/-!
# Parameters, variables and loops as sequences of steps

Lowering branches in the middle of a parameter, of a variable and of the head of a loop: over a name
that is taken, a type that is left out, a first value, a range. What follows does not depend on the
branch. So each branch is a step of its own here, and a parameter, a variable and the head of a loop are
these steps one after the other: `declareParams_cons`, `lowerVars_singleton` and `loopHead_eq`. A
property of lowering then has one lemma for each step, and none for each way through the branches.
-/

namespace ExpLang.Lowering

open Resolved

/-- Report something about a type by its name, unless the type goes with everything. To `refuse` is to
report that something is not defined for the type. -/
def reportFirm (type : TypeId) (d : String → Diagnostic) : Lower Unit := do
  unless ← isLenient type do report (d (← typeName type))

/-! ## Parameters -/

/-- Report a name that is among those seen. -/
def reportSeen (method : String) (seen : List (String × Span)) (name : Syntax.Ident) : Lower Unit :=
  match seen.lookup name.name with
  | some previous => report (.duplicateName name.span previous method name.name)
  | none => pure ()

/-- The type of a parameter, which is an integer if no type is written. -/
def paramType : Option Syntax.TypeRef → Lower TypeId
  | some type => writtenType type
  | none => pure Primitive.int.id

/-- Declaring parameters declares the first one and then the others. -/
theorem declareParams_cons (method : String) (seen : List (String × Span)) (p : Syntax.Param)
    (rest : List Syntax.Param) :
    declareParams method seen (p :: rest) = (do
      reportSeen method seen p.name
      let type ← paramType p.type
      let others ← declareParams method ((p.name.name, p.name.span) :: seen) rest
      return (p.name.name, type) :: others) := by
  rw [declareParams, reportSeen]
  cases seen.lookup p.name.name <;> cases p.type <;> rfl

/-! ## Variables -/

/-- A variable has the type of its first value if no type is written. -/
def settleType (written : Option Syntax.TypeRef) (type : TypeId) (init : Option Expr) : Lower Unit :=
  match written, init with
  | none, some value => unify type value.type
  | _, _ => pure ()

/-- Assign its first value to a variable, if it has one. -/
def assignFirst (id : LocalId) (type : TypeId) (decl : Syntax.VarDecl) :
    Option Expr → Lower (List Stmt)
  | none => pure []
  | some value => do
    let assignment ← lowerBinary .assign (.localVar id ⟨type, decl.name.span⟩) value decl.span
    return [.expr assignment decl.span]

/-- Lowering one declarator lowers its value, settles its type, binds it and assigns to it. -/
theorem lowerVars_singleton (site : Site) (method : MethodId) (scope : Scope)
    (decl : Syntax.VarDecl) :
    lowerVars site method scope [decl] = (do
      let init ← decl.init.mapM (lowerExpr site scope)
      let type ← declaredType decl.type
      settleType decl.type type init
      let (id, inner) ← bindLocal method scope decl.name type
      let here ← assignFirst id type decl init
      return (here, inner)) := by
  simp only [lowerVars, pure_bind]
  refine bind_congr fun init => bind_congr fun type => ?_
  cases decl.type <;> cases init <;> simp [settleType, assignFirst]

/-! ## Loops -/

/-- The type of what a value is iterated over. A value that cannot be iterated is reported. -/
def elementType (iterable : Expr) : Lower TypeId := do
  let element ← ask (·.types.elementOf iterable.type)
  if element = Primitive.unknown.id then reportFirm iterable.type (notIterable iterable.span)
  return element

/-- The type of the variable of a loop. -/
def loopElement (iterable : Expr) : Lower TypeId :=
  match iterable with
  | .binary .range _ _ _ => pure Primitive.int.id
  | _ => elementType iterable

/-- The loop over an expression, around a body. -/
def loopAround (var : LocalId) (iterable : Expr) (span : Span) (body : Stmt) : Stmt :=
  match iterable with
  | .binary .range low high _ =>
    match low.int?, high.int? with
    | some low, some high => .forConst var low high body span
    | _, _ => .forRange var low high body span
  | _ => .forIn var iterable body span

variable {iterable : Expr} (hother : ∀ low high info, iterable ≠ .binary .range low high info)

include hother

/-- A loop over what is no range has elements of the iterated type. -/
theorem loopElement_of_not_range : loopElement iterable = elementType iterable := by
  unfold loopElement
  split
  · exact (hother _ _ _ rfl).elim
  · rfl

/-- A loop over what is no range is lowered as one over a value. -/
theorem loopAround_of_not_range (var : LocalId) (span : Span) :
    loopAround var iterable span = fun body => .forIn var iterable body span := by
  funext body
  unfold loopAround
  split
  · exact (hother _ _ _ rfl).elim
  · rfl

omit hother

/-- The head of a loop is lowered in the scope around it, and binds the variable within a new one. -/
theorem loopHead_eq (site : Site) (scope : Scope) (name : Syntax.Ident) (iterable : Syntax.Expr)
    (span : Span) :
    loopHead site scope name iterable span = (do
      let iterable ← lowerExpr site scope iterable
      let method ← site.currentMethod "for loop" span
      let element ← loopElement iterable
      let (var, inner) ← bindLocal method scope.child name element
      return (inner, loopAround var iterable span)) := by
  unfold loopHead
  refine bind_congr fun iterable => bind_congr fun method => ?_
  by_cases hrange : ∃ low high info, iterable = .binary .range low high info
  · obtain ⟨low, high, info, rfl⟩ := hrange
    rfl
  · have hother (low high : Expr) (info : Info) (h : iterable = .binary .range low high info) :=
      hrange ⟨low, high, info, h⟩
    rw [loopElement_of_not_range hother]
    simp only [loopAround_of_not_range hother, elementType, reportFirm, bind_assoc]
    refine bind_congr fun element => ?_
    split
    · rw [bind_assoc]
      refine bind_congr fun lenient => ?_
      cases lenient <;> simp
    · rfl

end ExpLang.Lowering
