import ExpLang.Lowering.Expr

/-!
# Declarations

A class, a field or a method is declared before any code of it is lowered. What is lowered next,
once all declarations of a group are known, are the short pieces of code that belong to them: first
values of fields, defaults of parameters and bodies that are one expression. They are kept as tasks
in the order of the source. Bodies that are statements wait until the whole unit is declared.
-/

namespace ExpLang.Lowering

open Resolved

/-- A piece of code that is lowered right after a group of declarations. -/
inductive Task where
  /-- The first value of a field. -/
  | fieldInit (owner : ClassId) (field : FieldId) (init : Syntax.Expr)
  /-- The default of a parameter. -/
  | paramDefault (owner : ClassId) (method : MethodId) (param : ParamId) (value : Syntax.Expr)
  /-- The body of a method that is one expression. -/
  | exprBody (owner : ClassId) (method : MethodId) (body : Syntax.Expr)
  deriving Inhabited

/-- Declare a class without its members. -/
def declareClass (decl : Syntax.ClassDecl Syntax.Stmt) : Lower (Option ClassId) :=
  declare decl.name.span (·.createClass decl.name.name decl.name.span)

/-- Declare a field. -/
def declareField (owner : ClassId) (modifiers : Modifiers) (decl : Syntax.VarDecl) :
    Lower (List Task) := do
  let type ← declaredType decl.type
  match ← declare decl.name.span
      (·.createField owner decl.name.name type modifiers decl.name.span), decl.init with
  | some field, some init => return [.fieldInit owner field init]
  | _, _ => return []

/-- The names and types of parameters. A parameter without a type is an integer; one that has the
name of an earlier one is reported and kept. `seen` holds the names before, the latest first. -/
def declareParams (method : String) :
    List (String × Span) → List Syntax.Param → Lower (List (String × TypeId))
  | _, [] => return []
  | seen, p :: rest => do
    if let some previous := seen.lookup p.name.name then
      report (.duplicateName p.name.span previous method p.name.name)
    let type ← match p.type with
      | some type => writtenType type
      | none => pure Primitive.int.id
    return (p.name.name, type) :: (← declareParams method ((p.name.name, p.name.span) :: seen) rest)

/-- The defaults of parameters, where `index` is the position of the first. -/
def defaultTasks (owner : ClassId) (method : MethodId) : ParamId → List Syntax.Param → List Task
  | _, [] => []
  | index, p :: rest =>
    (p.default.map (.paramDefault owner method index)).toList
      ++ defaultTasks owner method (index + 1) rest

/-- Declare a method. Without a written type of its result it gets a hole, which the first value
that it returns binds. -/
def declareMethod (owner : ClassId) (modifiers : Modifiers)
    (decl : Syntax.FunctionDecl Syntax.Stmt) : Lower (List Task) := do
  let ret ← declaredType decl.ret
  let params ← declareParams decl.name.name [] decl.params
  match ← declare decl.name.span
      (·.createMethod owner decl.name.name ret modifiers params decl.name.span) with
  | none => return []
  | some method =>
    let defaults := defaultTasks owner method 0 decl.params
    match decl.body with
    | .expr body => return defaults ++ [.exprBody owner method body]
    | .stmt body =>
      modify fun s => { s with deferred := s.deferred ++ [⟨owner, method, body⟩] }
      return defaults

/-- Declare things one after the other. -/
def declareAll {α : Type} (f : α → Lower (List Task)) : List α → Lower (List Task)
  | [] => return []
  | a :: rest => do
    let tasks ← f a
    return tasks ++ (← declareAll f rest)

/-- Declare the members of a class. -/
def declareMembers (owner : ClassId) (decl : Syntax.ClassDecl Syntax.Stmt) : Lower (List Task) :=
  declareAll (fun member =>
    let modifiers := if member.isStatic then Modifiers.ofClass else .ofObject
    match member.kind with
    | .fields vars => declareAll (declareField owner modifiers) vars.decls
    | .method function => declareMethod owner modifiers function) decl.members

/-- Lower the code of a task and put it where it belongs. -/
def runTask : Task → Lower Unit
  | .fieldInit owner field init => do
    let isStatic ← ask fun u => (u.getField field).modifiers.isStatic
    let value ← lowerExpr ⟨owner, none, isStatic⟩ (.ofClass owner) init
    unify (← ask fun u => (u.getField field).type) value.type
    modifyUnit (·.modifyField field fun f => { f with init := some value })
  | .paramDefault owner method param value => do
    let isStatic ← ask fun u => (u.getMethod method).isStatic
    let value ← lowerExpr ⟨owner, none, isStatic⟩ (.ofClass owner) value
    modifyUnit (·.modifyMethod method fun m =>
      { m with params := m.params.modify param fun p => { p with default := some value } })
  | .exprBody owner method body => do
    let isStatic ← ask fun u => (u.getMethod method).isStatic
    let value ← lowerExpr ⟨owner, some method, isStatic⟩ (.ofMethod owner method) body
    unify (← ask fun u => (u.getMethod method).ret) value.type
    let body : Stmt := .ret (some value) value.span
    modifyUnit (·.modifyMethod method fun m => { m with body := some body })

/-- Declare the members of a class inside of a function, and lower their short pieces of code. -/
def lowerClass (decl : Syntax.ClassDecl Syntax.Stmt) : Lower Stmt := do
  if let some owner ← declareClass decl then
    (← declareMembers owner decl).forM runTask
  return .skip decl.span

/-- Declare a function inside of another one. It is a method of the class around and has a receiver
if the code around has one. -/
def lowerFunction (site : Site) (decl : Syntax.FunctionDecl Syntax.Stmt) : Lower Stmt := do
  let modifiers := if site.isStatic then Modifiers.ofClass else .ofObject
  (← declareMethod site.owner modifiers decl).forM runTask
  return .skip decl.span

end ExpLang.Lowering
