import ExpLang.Lowering.Program

/-!
# What lowering a program comes to

Lowering works its way down from a program to the expressions in it, and what an expression is lowered
to depends on the state in which lowering gets there. A `Job` is a piece of a program with the place
where it stands, and `Comes p policy job s` says that lowering `p` gets to a job in the state `s`. There
is one rule for each piece that lowering a job goes on with: the first one begins in the state of the
job, and the others in the state that the piece before ends with.
-/

namespace ExpLang

namespace Syntax

/-- The parts of an expression, from left to right. -/
def Expr.parts : Expr → List Expr
  | .int _ _ | .float _ _ | .bool _ _ | .ident _ => []
  | .unary _ operand _ | .post _ operand _ => [operand]
  | .binary _ left right _ => [left, right]
  | .field target _ _ => [target]
  | .index target key _ => [target, key]
  | .call callee args _ => callee :: args

/-- The expression that a statement begins with. -/
def Stmt.head? : Stmt → Option Expr
  | .expr e _ | .ifElse e _ _ _ | .forIn _ e _ _ | .whileLoop e _ _ | .ret (some e) _ => some e
  | .empty _ | .block _ _ | .ret none _ | .vars _ | .function _ | .classDecl _ => none

end Syntax

namespace Lowering

open Resolved

/-- A piece of a program that is lowered, and where it stands. -/
inductive Job where
  /-- An expression. -/
  | expr (site : Site) (scope : Scope) (e : Syntax.Expr)
  /-- A statement. -/
  | stmt (site : Site) (scope : Scope) (stmt : Syntax.Stmt)
  /-- Statements one after the other. -/
  | stmts (site : Site) (scope : Scope) (body : List Syntax.Stmt)
  /-- The variables of a declaration. -/
  | vars (site : Site) (method : MethodId) (scope : Scope) (decls : List Syntax.VarDecl)
  /-- The tasks of declarations. -/
  | tasks (tasks : List Task)
  /-- The bodies that wait, at most a number of them. -/
  | bodies (bound : Nat)

/-- The expression of a task. -/
def Task.job (u : CodeUnit) : Task → Job
  | .fieldInit owner field init =>
    .expr ⟨owner, none, (u.getField field).modifiers.isStatic⟩ (.ofClass owner) init
  | .paramDefault owner method _ value =>
    .expr ⟨owner, none, (u.getMethod method).isStatic⟩ (.ofClass owner) value
  | .exprBody owner method body =>
    .expr ⟨owner, some method, (u.getMethod method).isStatic⟩ (.ofMethod owner method) body

/-- The statement of a body that waits. -/
def Deferred.job (u : CodeUnit) (d : Deferred) : Job :=
  .stmt ⟨d.owner, some d.method, (u.getMethod d.method).isStatic⟩ (.ofMethod d.owner d.method) d.body

/-- The state that lowering a program begins in. -/
def State.start (policy : QueuePolicy) : State := { unit := .empty, queue := { policy := policy } }

/-- The classes and functions of a program are declared: what its `main` is, and the tasks. -/
structure Declared (p : Syntax.Program) (policy : QueuePolicy) (owner : ClassId) (method : MethodId)
    (tasks : List Task) (s : State) : Prop where
  of_runs : ∃ s₁, declareMain p.span (.start policy) = .ok ((owner, method), s₁) ∧
    declareProgram owner p.body s₁ = .ok (tasks, s)

/-- What lowering a loop does before it comes to the body: the scope of the body, and the loop around
it. -/
def loopHead (site : Site) (scope : Scope) (name : Syntax.Ident) (iterable : Syntax.Expr)
    (span : Span) : Lower (Scope × (Stmt → Stmt)) := do
  let iterable ← lowerExpr site scope iterable
  let method ← site.currentMethod "for loop" span
  match iterable with
  | .binary .range low high _ =>
    let (id, inner) ← bindLocal method scope.child name Primitive.int.id
    return (inner, fun body => match low.int?, high.int? with
      | some low, some high => .forConst id low high body span
      | _, _ => .forRange id low high body span)
  | _ =>
    let element ← ask (·.types.elementOf iterable.type)
    if element = Primitive.unknown.id then
      unless ← isLenient iterable.type do
        report (notIterable iterable.span (← typeName iterable.type))
    let (id, inner) ← bindLocal method scope.child name element
    return (inner, fun body => .forIn id iterable body span)

/-- Lowering a loop lowers its head and then its body in the scope of the head. -/
theorem lowerFor_eq (site : Site) (scope : Scope) (name : Syntax.Ident) (iterable : Syntax.Expr)
    (body : Scope → Lower Stmt) (span : Span) :
    lowerFor site scope name iterable body span = (do
      let (inner, loop) ← loopHead site scope name iterable span
      return loop (← body inner)) := by
  unfold lowerFor loopHead
  simp only [bind_assoc]
  refine bind_congr fun iterable => bind_congr fun method => ?_
  by_cases hrange : ∃ low high info, iterable = .binary .range low high info
  · obtain ⟨low, high, info, rfl⟩ := hrange
    dsimp only
    cases low.int? with
    | none => simp
    | some low => cases high.int? <;> simp
  · have hother (low high : Expr) (info : Info) (h : iterable = .binary .range low high info) :=
      hrange ⟨low, high, info, h⟩
    simp only [bind_assoc]
    refine bind_congr fun element => ?_
    split
    · rw [bind_assoc]
      refine bind_congr fun lenient => ?_
      cases lenient <;> simp
    · simp

/-- Lowering a program comes to a job in a state. -/
inductive Comes (p : Syntax.Program) (policy : QueuePolicy) : Job → State → Prop
  | tasks {owner method tasks s} : Declared p policy owner method tasks s →
      Comes p policy (.tasks tasks) s
  | main {owner method tasks s s'} : Declared p policy owner method tasks s →
      tasks.forM runTask s = .ok ((), s') →
      Comes p policy (.stmts ⟨owner, some method, true⟩ (.ofMethod owner method)
        (plainStmts p.body)) s'
  | bodies {owner method tasks s s' s''} : Declared p policy owner method tasks s →
      tasks.forM runTask s = .ok ((), s') → lowerMain owner method p s' = .ok ((), s'') →
      Comes p policy (.bodies (Syntax.functionCounts p.body)) s''
  | task {task rest s} : Comes p policy (.tasks (task :: rest)) s →
      Comes p policy (task.job s.unit) s
  | moreTasks {task rest s s'} : Comes p policy (.tasks (task :: rest)) s →
      runTask task s = .ok ((), s') → Comes p policy (.tasks rest) s'
  | body {n d rest s} : Comes p policy (.bodies (n + 1)) s → s.deferred = d :: rest →
      Comes p policy (d.job s.unit) { s with deferred := rest }
  | moreBodies {n d rest s s'} : Comes p policy (.bodies (n + 1)) s → s.deferred = d :: rest →
      lowerBody d { s with deferred := rest } = .ok ((), s') → Comes p policy (.bodies n) s'
  | stmt {site scope stmt rest s} : Comes p policy (.stmts site scope (stmt :: rest)) s →
      Comes p policy (.stmt site scope stmt) s
  | moreStmts {site scope stmt rest stmt' scope' s s'} :
      Comes p policy (.stmts site scope (stmt :: rest)) s →
      lowerStmt site scope stmt s = .ok ((stmt', scope'), s') →
      Comes p policy (.stmts site scope' rest) s'
  | head {site scope stmt e s} : Comes p policy (.stmt site scope stmt) s → stmt.head? = some e →
      Comes p policy (.expr site scope e) s
  | block {site scope body span s} : Comes p policy (.stmt site scope (.block body span)) s →
      Comes p policy (.stmts site scope.child body) s
  | thenBranch {site scope cond yes no span cond' s s'} :
      Comes p policy (.stmt site scope (.ifElse cond yes no span)) s →
      lowerExpr site scope cond s = .ok (cond', s') →
      Comes p policy (.stmt site scope.child yes) s'
  | elseBranch {site scope cond yes no span cond' yes' s s' s''} :
      Comes p policy (.stmt site scope (.ifElse cond yes (some no) span)) s →
      lowerExpr site scope cond s = .ok (cond', s') →
      lowerStmt site scope.child yes s' = .ok (yes', s'') →
      Comes p policy (.stmt site scope.child no) s''
  | whileBody {site scope cond body span cond' s s'} :
      Comes p policy (.stmt site scope (.whileLoop cond body span)) s →
      lowerExpr site scope cond s = .ok (cond', s') →
      Comes p policy (.stmt site scope.child body) s'
  | forBody {site scope name iterable body span inner loop s s'} :
      Comes p policy (.stmt site scope (.forIn name iterable body span)) s →
      loopHead site scope name iterable span s = .ok ((inner, loop), s') →
      Comes p policy (.stmt site inner body) s'
  | vars {site scope decl method s} : Comes p policy (.stmt site scope (.vars decl)) s →
      site.method = some method → Comes p policy (.vars site method scope decl.decls) s
  | varInit {site method scope decl rest e s} :
      Comes p policy (.vars site method scope (decl :: rest)) s → decl.init = some e →
      Comes p policy (.expr site scope e) s
  | moreVars {site method scope decl rest here scope' s s'} :
      Comes p policy (.vars site method scope (decl :: rest)) s →
      lowerVars site method scope [decl] s = .ok ((here, scope'), s') →
      Comes p policy (.vars site method scope' rest) s'
  | function {site scope decl tasks s s'} : Comes p policy (.stmt site scope (.function decl)) s →
      declareMethod site.owner (if site.isStatic then .ofClass else .ofObject) decl s =
        .ok (tasks, s') →
      Comes p policy (.tasks tasks) s'
  | classMembers {site scope decl owner tasks s s' s''} :
      Comes p policy (.stmt site scope (.classDecl decl)) s →
      declareClass decl s = .ok (some owner, s') →
      declareMembers owner decl s' = .ok (tasks, s'') → Comes p policy (.tasks tasks) s''
  | part {site scope e before part after before' s s'} : Comes p policy (.expr site scope e) s →
      e.parts = before ++ part :: after → lowerExprs site scope before s = .ok (before', s') →
      Comes p policy (.expr site scope part) s'

/-- A type says nothing about the members of a value: it is a hole that is not bound yet, or one of
the two types that every member is looked up on without a report. -/
def Unsettled (types : TypePool) (type : TypeId) : Prop :=
  types.isUnbound type = true ∨ types.resolve type = Primitive.dynamic.id ∨
    types.resolve type = Primitive.unknown.id

/-- An expression is what lowering a program makes of a member access on a receiver whose type says
nothing about its members. -/
inductive FromAccess (p : Syntax.Program) (policy : QueuePolicy) : Expr → Prop
  | intro {site scope target name span receiver s s'} :
      Comes p policy (.expr site scope (.field target name span)) s →
      lowerExpr site scope target s = .ok (receiver, s') →
      Unsettled s'.unit.types receiver.type →
      FromAccess p policy (unknownExpr name.name span)

/-! ## Pieces one after the other -/

variable {α β : Type} {s s' s'' : State}

/-- A step that goes through goes on with what is after it. -/
theorem bind_of_ok {x : Lower α} {f : α → Lower β} {a : α} (h : x s = .ok (a, s')) :
    (x >>= f) s = f a s' := by
  change (x s >>= fun r => f r.1 r.2) = _
  rw [h]
  rfl

/-- The text of a type, where it has one. -/
theorem typeName_of_some {id : TypeId} {name : String} (h : s.unit.typeName? id = some name) :
    typeName id s = .ok (name, s) := by
  unfold typeName
  rw [bind_of_ok (show (get : Lower State) s = .ok (s, s) from rfl), h]
  rfl

/-- A step that stops does not go on. -/
theorem bind_of_error {x : Lower α} {f : α → Lower β} {halt : Halt} (h : x s = .error halt) :
    (x >>= f) s = .error halt := by
  change (x s >>= fun r => f r.1 r.2) = _
  rw [h]
  rfl

/-- A run goes through if a look at its result finds something. -/
theorem of_toOption_bind {x : Except Halt α} {f : α → Option β} {b : β}
    (h : x.toOption.bind f = some b) : ∃ a, x = .ok a ∧ f a = some b := by
  cases x with
  | error halt => cases h
  | ok a => exact ⟨a, rfl, h⟩

/-- Lowering expressions and then one more is lowering the longer list. -/
theorem lowerExprs_snoc {site : Site} {scope : Scope} {es : List Syntax.Expr} {e : Syntax.Expr}
    {es' : List Expr} {e' : Expr} (hes : lowerExprs site scope es s = .ok (es', s'))
    (he : lowerExpr site scope e s' = .ok (e', s'')) :
    lowerExprs site scope (es ++ [e]) s = .ok (es' ++ [e'], s'') := by
  induction es generalizing s es' with
  | nil =>
    rw [lowerExprs] at hes
    cases hes
    rw [List.nil_append, lowerExprs, bind_of_ok he, lowerExprs]
    rfl
  | cons first rest ih =>
    rw [lowerExprs] at hes
    cases hfirst : lowerExpr site scope first s with
    | error halt =>
      rw [bind_of_error hfirst] at hes
      cases hes
    | ok r =>
      obtain ⟨first', s₁⟩ := r
      rw [bind_of_ok hfirst] at hes
      cases hrest : lowerExprs site scope rest s₁ with
      | error halt =>
        rw [bind_of_error hrest] at hes
        cases hes
      | ok r =>
        obtain ⟨rest', s₂⟩ := r
        rw [bind_of_ok hrest] at hes
        cases hes
        rw [List.cons_append, lowerExprs, bind_of_ok hfirst, bind_of_ok (ih hrest)]
        rfl

/-- Declaring where a program starts makes its class, the types of its method, and the method. -/
theorem declareMain_eq_ok {span : Span} {r : ClassId × MethodId}
    (hrun : declareMain span s = .ok (r, s')) :
    ∃ u u', CodeUnit.empty.createClass mainClass span = .ok (r.1, u) ∧
      CodeUnit.createMethod { u with types := (u.types.newHole.2.array Primitive.string.id).2 } r.1
        mainMethod u.types.newHole.1 .ofClass
        [("argv", (u.types.newHole.2.array Primitive.string.id).1)] span = .ok (r.2, u') ∧
      s' = { s with unit := u' } := by
  unfold declareMain at hrun
  dsimp only at hrun
  cases hclass : CodeUnit.empty.createClass mainClass span with
  | error clash =>
    rw [hclass] at hrun
    cases hrun
  | ok created =>
    obtain ⟨owner, u⟩ := created
    rw [hclass] at hrun
    cases hmethod : CodeUnit.createMethod
        { u with types := (u.types.newHole.2.array Primitive.string.id).2 } owner mainMethod
        u.types.newHole.1 .ofClass [("argv", (u.types.newHole.2.array Primitive.string.id).1)] span with
    | error clash =>
      simp only [Bind.bind, Except.bind, hmethod] at hrun
      cases hrun
    | ok made =>
      simp only [Bind.bind, Except.bind, hmethod] at hrun
      cases hrun
      exact ⟨u, _, rfl, hmethod, rfl⟩

/-- What a program is lowered to is what lowering all of it ends with. -/
theorem lowerProgram_eq_ok {p : Syntax.Program} {policy : QueuePolicy} {u : CodeUnit}
    {queue : DiagnosticQueue} (h : lowerProgram p policy = .ok (u, queue)) :
    ∃ s, lowerAll p (.start policy) = .ok ((), s) ∧ s.unit = u ∧ s.queue = queue := by
  change (lowerAll p (.start policy)).map (fun r => (r.2.unit, r.2.queue)) = _ at h
  cases hrun : lowerAll p (.start policy) with
  | error halt =>
    rw [hrun] at h
    cases h
  | ok r =>
    rw [hrun] at h
    cases h
    exact ⟨r.2, rfl, rfl, rfl⟩

/-- The variables of a declaration are lowered one by one. -/
theorem lowerVars_cons (site : Site) (method : MethodId) (scope : Scope) (decl : Syntax.VarDecl)
    (rest : List Syntax.VarDecl) :
    lowerVars site method scope (decl :: rest) = (do
      let (here, scope) ← lowerVars site method scope [decl]
      let (others, scope) ← lowerVars site method scope rest
      return (here ++ others, scope)) := by
  simp only [lowerVars, bind_assoc, pure_bind]
  refine bind_congr fun init => bind_congr fun type => ?_
  cases decl.type <;> cases init <;> simp

end Lowering

end ExpLang
