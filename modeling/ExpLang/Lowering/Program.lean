import ExpLang.Lowering.Stmt
import ExpLang.Syntax.Nesting

/-!
# Lowering of programs

A unit has a class `Main` with a method `main` that the statements outside of all functions and
classes make up, and the functions outside of all classes are methods of `Main` too. All classes of
the program are declared before their members, then the functions, so that code sees every one of
them wherever it stands. Statements outside of functions are lowered first, bodies of functions
after them in the order in which they were declared. In the end, a method that returns nothing has
a result of type `Void`.
-/

namespace ExpLang.Lowering

open Resolved

/-- The class of the code outside of all classes. -/
def mainClass : String := "Main"

/-- The method of the code outside of all functions. -/
def mainMethod : String := "main"

/-- Declare the class and the method that a program starts in. -/
def declareMain (span : Span) : Lower (ClassId × MethodId) := do
  let created := do
    let (owner, u) ← CodeUnit.empty.createClass mainClass span
    let (ret, types) := u.types.newHole
    let (argv, types) := types.array Primitive.string.id
    let (method, u) ← CodeUnit.createMethod { u with types := types } owner mainMethod ret .ofClass
      [("argv", argv)] span
    return (owner, method, u)
  match created with
  | .ok (owner, method, u) =>
    modifyUnit fun _ => u
    return (owner, method)
  | .error (clash : DuplicateName) => raise (.entryPoint clash)

/-- The classes of a program. -/
def classDecls (body : List Syntax.Stmt) : List (Syntax.ClassDecl Syntax.Stmt) :=
  body.filterMap fun
    | .classDecl decl => some decl
    | _ => none

/-- The functions of a program. -/
def functionDecls (body : List Syntax.Stmt) : List (Syntax.FunctionDecl Syntax.Stmt) :=
  body.filterMap fun
    | .function decl => some decl
    | _ => none

/-- The statements of a program that declare neither a class nor a function. -/
def plainStmts (body : List Syntax.Stmt) : List Syntax.Stmt :=
  body.filter fun
    | .classDecl _ | .function _ => false
    | _ => true

/-- Declare classes without their members. A class whose name is taken is left out. -/
def declareClasses : List (Syntax.ClassDecl Syntax.Stmt) →
    Lower (List (ClassId × Syntax.ClassDecl Syntax.Stmt))
  | [] => return []
  | decl :: rest => do
    let owner ← declareClass decl
    let others ← declareClasses rest
    return (owner.map (·, decl)).toList ++ others

/-- Declare the classes and functions of a program. -/
def declareProgram (main : ClassId) (body : List Syntax.Stmt) : Lower (List Task) := do
  let declared ← declareClasses (classDecls body)
  let ofClasses ← declareAll (fun (owner, decl) => declareMembers owner decl) declared
  let ofFunctions ← declareAll (declareMethod main .ofClass) (functionDecls body)
  return ofClasses ++ ofFunctions

/-- Lower the statements outside of all functions. -/
def lowerMain (owner : ClassId) (method : MethodId) (p : Syntax.Program) : Lower Unit := do
  let (body, _) ← lowerStmts ⟨owner, some method, true⟩ (.ofMethod owner method) (plainStmts p.body)
  modifyUnit (·.modifyMethod method fun m => { m with body := some (.seq body p.span) })

/-- Lower the body of a method. -/
def lowerBody (d : Deferred) : Lower Unit := do
  let isStatic ← ask fun u => (u.getMethod d.method).isStatic
  let (body, _) ← lowerStmt ⟨d.owner, some d.method, isStatic⟩ (.ofMethod d.owner d.method) d.body
  modifyUnit (·.modifyMethod d.method fun m => { m with body := some body })

/-- Lower the bodies that wait, those too that come to wait meanwhile, at most a number of them. -/
def lowerDeferred : Nat → Lower Unit
  | 0 => do
    unless (← get).deferred.isEmpty do throw .endless
  | n + 1 => do
    match (← get).deferred with
    | [] => return ()
    | d :: rest =>
      modify fun s => { s with deferred := rest }
      lowerBody d
      lowerDeferred n

/-- Let every method whose result has no type return nothing. -/
def closeResults (u : CodeUnit) : CodeUnit :=
  let results := (u.methods.toList.map (·.ret)).filter u.types.isUnbound
  let close (types : TypePool) (ret : TypeId) : TypePool :=
    (types.bindIfUnbound ret Primitive.void.id).2
  { u with types := results.foldl close u.types }

/-- Lower a program in the state before it, with at most a number of bodies that wait. -/
def lowerWithin (bound : Nat) (p : Syntax.Program) : Lower Unit := do
  let (owner, method) ← declareMain p.span
  (← declareProgram owner p.body).forM runTask
  lowerMain owner method p
  lowerDeferred bound
  modifyUnit closeResults

/-- Lower a program in the state before it. No more bodies come to wait than it has functions. -/
def lowerAll (p : Syntax.Program) : Lower Unit := lowerWithin (Syntax.functionCounts p.body) p

/-- Lower a program: the unit, and what was found about the program. -/
def lowerProgram (p : Syntax.Program) (policy : QueuePolicy) :
    Except Halt (CodeUnit × DiagnosticQueue) :=
  (lowerAll p).run { unit := .empty, queue := { policy := policy } } |>.map fun (_, s) =>
    (s.unit, s.queue)

end ExpLang.Lowering
