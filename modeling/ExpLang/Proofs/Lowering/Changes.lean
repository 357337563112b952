import ExpLang.Proofs.Lowering.Sequences
import ExpLang.Proofs.Lowering.Steps
import Mathlib.Logic.Relation
import Mathlib.Tactic.ByCases

/-!
# What lowering does to a unit

Lowering works on a unit by a few kinds of changes: types are added or holes bound, a class, a field or a
method is declared, a method gets a local, and code is put where it belongs. `CodeUnit.Change` lists
them. A step of lowering that goes through has made some of these changes one after the other, which is
what `Changing` says, with one lemma for each step, and the unit of a program is made by changes of the
empty unit (`lowerProgram_changes`). So what every single change keeps is kept by lowering, as the locals
of a method are: more of them come, and those that there are stay what they are.
-/

namespace ExpLang

namespace Resolved.CodeUnit

/-- A change of a unit. -/
inductive Change (u : CodeUnit) : CodeUnit → Prop
  | types (pool : TypePool) : Change u { u with types := pool }
  | newClass {name span id u'} : u.createClass name span = .ok (id, u') → Change u u'
  | newField {owner name type modifiers span id u'} :
      u.createField owner name type modifiers span = .ok (id, u') → Change u u'
  | newMethod {owner name ret modifiers params span id u'} :
      u.createMethod owner name ret modifiers params span = .ok (id, u') → Change u u'
  | firstValue (id : FieldId) (value : Expr) :
      Change u (u.modifyField id fun f => { f with init := some value })
  | paramDefault (id : MethodId) (param : ParamId) (value : Expr) :
      Change u (u.modifyMethod id fun m =>
        { m with params := m.params.modify param fun p => { p with default := some value } })
  | body (id : MethodId) (body : Stmt) :
      Change u (u.modifyMethod id fun m => { m with body := some body })
  | newLocal (id : MethodId) (name : String) (type : TypeId) (span : Span) :
      Change u (u.modifyMethod id fun _ => ((u.getMethod id).addLocal name type span).2)

/-- Changes of a unit one after the other. -/
abbrev Changes : CodeUnit → CodeUnit → Prop := Relation.ReflTransGen Change

variable {u u' : CodeUnit} {i : MethodId} {l : LocalId} {d : LocalDef}

/-- A method that may get other locals keeps what it has if none of them is changed. -/
theorem local_modifyMethod {id : MethodId} {f : MethodDef → MethodDef}
    (hf : ∀ d, (u.getMethod id).locals[l]? = some d → (f (u.getMethod id)).locals[l]? = some d)
    (h : (u.getMethod i).locals[l]? = some d) :
    ((u.modifyMethod id f).getMethod i).locals[l]? = some d := by
  rw [getMethod_modifyMethod]
  split
  · rename_i hid
    rw [← hid.1] at h ⊢
    exact hf d h
  · exact h

/-- A local of a method stays what it is. -/
theorem Change.local_eq (hchange : u.Change u') (h : (u.getMethod i).locals[l]? = some d) :
    (u'.getMethod i).locals[l]? = some d := by
  cases hchange with
  | types pool | firstValue id value => exact h
  | newClass hcreate =>
    obtain ⟨-, c, -, -, rfl⟩ := createClass_eq_ok hcreate
    exact h
  | newField hcreate =>
    obtain ⟨-, f, -, -, rfl⟩ := createField_eq_ok hcreate
    exact h
  | newMethod hcreate =>
    obtain ⟨-, m, -, rfl⟩ := createMethod_eq_ok hcreate
    change ((u.methods.push m).getD i default).locals[l]? = some d
    rw [getD_push, if_neg]
    · exact h
    · rintro rfl
      rw [getMethod, Array.getD, dif_neg (Nat.lt_irrefl _)] at h
      cases h
  | paramDefault id param value => exact local_modifyMethod (fun _ h => h) h
  | body id body => exact local_modifyMethod (fun _ h => h) h
  | newLocal id name type span =>
    refine local_modifyMethod (fun d hd => ?_) h
    have hlt : l < (u.getMethod id).locals.size := (Array.getElem?_eq_some_iff.1 hd).1
    change ((u.getMethod id).locals.push _)[l]? = some d
    rw [Array.getElem?_push, if_neg (Nat.ne_of_lt hlt), hd]

/-- No method goes. -/
theorem Change.methods_le (hchange : u.Change u') : u.methods.size ≤ u'.methods.size := by
  cases hchange with
  | types pool | firstValue id value => exact Nat.le_refl _
  | newClass hcreate =>
    obtain ⟨-, c, -, -, rfl⟩ := createClass_eq_ok hcreate
    exact Nat.le_refl _
  | newField hcreate =>
    obtain ⟨-, f, -, -, rfl⟩ := createField_eq_ok hcreate
    exact Nat.le_refl _
  | newMethod hcreate =>
    obtain ⟨-, m, -, rfl⟩ := createMethod_eq_ok hcreate
    exact Nat.le_of_lt (Nat.lt_of_lt_of_eq (Nat.lt_succ_self _) (Array.size_push _).symm)
  | paramDefault id param value => exact Nat.le_of_eq Array.size_modify.symm
  | body id body => exact Nat.le_of_eq Array.size_modify.symm
  | newLocal id name type span => exact Nat.le_of_eq Array.size_modify.symm

/-- No change takes a method away. -/
theorem Changes.methods_le (hchanges : u.Changes u') : u.methods.size ≤ u'.methods.size := by
  induction hchanges with
  | refl => exact Nat.le_refl _
  | tail _ hchange ih => exact Nat.le_trans ih hchange.methods_le

/-- A local that a method has once keeps its name and its type through all changes. -/
theorem Changes.local_eq (hchanges : u.Changes u') (h : (u.getMethod i).locals[l]? = some d) :
    (u'.getMethod i).locals[l]? = some d := by
  induction hchanges with
  | refl => exact h
  | tail _ hchange ih => exact hchange.local_eq ih

end Resolved.CodeUnit

namespace Lowering

open Resolved

variable {α β : Type}

/-- A step that goes through has made changes to the unit. -/
structure Changing (x : Lower α) : Prop where
  of_run : ∀ {s s' : State} {a : α}, x s = .ok (a, s') → s.unit.Changes s'.unit

/-- Doing nothing changes nothing. -/
theorem changing_pure (a : α) : Changing (pure a) := by
  constructor
  intro s s' a hrun
  cases hrun
  exact .refl

/-- Two steps that make changes do so one after the other. -/
theorem Changing.bind {x : Lower α} {f : α → Lower β} (hx : Changing x) (hf : ∀ a, Changing (f a)) :
    Changing (x >>= f) := by
  constructor
  intro s s'' b hrun
  cases hfirst : x s with
  | error halt =>
    rw [bind_of_error hfirst] at hrun
    cases hrun
  | ok r =>
    rw [bind_of_ok hfirst] at hrun
    exact (hx.of_run hfirst).trans ((hf r.1).of_run hrun)

/-! ## Looking, reporting, and changing types -/

/-- A step that stops lowering has nothing to show. -/
theorem changing_halt (halt : Halt) : Changing (throw halt : Lower α) := ⟨fun hrun => by cases hrun⟩

/-- Looking at the state changes nothing. -/
theorem changing_get : Changing (get : Lower State) := by
  constructor
  intro s s' a hrun
  cases hrun
  exact .refl

/-- Asking the unit changes nothing. -/
theorem changing_ask (f : CodeUnit → α) : Changing (ask f) := changing_get.bind fun _ => changing_pure _

/-- A step that modifies the unit makes a change if each of its modifications is one. -/
theorem changing_modifyUnit {f : CodeUnit → CodeUnit} (h : ∀ u : CodeUnit, u.Change (f u)) :
    Changing (modifyUnit f) := by
  constructor
  intro s s' a hrun
  cases hrun
  exact .single (h _)

/-- Whatever is done to the types is a change. -/
theorem changing_onTypes (f : TypePool → α × TypePool) : Changing (onTypes f) := by
  constructor
  intro s s' a hrun
  cases hrun
  exact .single (.types _)

/-- A report leaves the unit as it is. -/
theorem changing_report (d : Diagnostic) : Changing (report d) := by
  constructor
  intro s s' a hrun
  cases hrun
  exact .refl

/-- A report before a result. -/
theorem changing_report_pure (d : Diagnostic) (a : α) : Changing (report d >>= fun _ => pure a) :=
  (changing_report d).bind fun _ => changing_pure a

/-- Binding a hole is a change of the types. -/
theorem changing_unify (hole target : TypeId) : Changing (unify hole target) :=
  (changing_onTypes _).bind fun _ => changing_pure _

/-- Writing a type out changes nothing. -/
theorem changing_typeName (id : TypeId) : Changing (typeName id) := by
  refine changing_get.bind fun s => ?_
  split
  · exact changing_pure _
  · exact changing_halt _

/-- Asking whether a type is lenient changes nothing. -/
theorem changing_isLenient (id : TypeId) : Changing (isLenient id) := changing_ask _

/-- Asking for the method at a site changes nothing. -/
theorem changing_currentMethod (site : Site) (what : String) (span : Span) :
    Changing (site.currentMethod what span) := by
  unfold Site.currentMethod
  split
  · exact changing_pure _
  · exact changing_halt _

/-- Finding the type that a program writes makes changes only. -/
theorem changing_writtenType (type : Syntax.TypeRef) : Changing (writtenType type) := by
  have harrays : ∀ (dims : List Nat) (id : TypeId),
      Changing (dims.foldlM (fun id _ => onTypes (·.array id)) id) := by
    intro dims
    induction dims with
    | nil => exact fun id => changing_pure id
    | cons _ dims ih =>
      intro id
      rw [List.foldlM_cons]
      exact (changing_onTypes _).bind fun next => ih next
  refine (changing_ask _).bind fun named => ?_
  cases named with
  | some id => exact harrays _ id
  | none => exact changing_report_pure _ _

/-- Finding the type of a declaration makes changes only, also where none is written. -/
theorem changing_declaredType (type : Option Syntax.TypeRef) : Changing (declaredType type) := by
  cases type with
  | some type => exact changing_writtenType type
  | none =>
    change Changing (onTypes (·.newHole))
    exact changing_onTypes _

/-- A declaration makes the changes that its creation makes, or a report. -/
theorem changing_declare {create : CodeUnit → Except DuplicateName (α × CodeUnit)} (span : Span)
    (h : ∀ {u a u'}, create u = .ok (a, u') → u.Change u') : Changing (declare span create) := by
  constructor
  intro s s' a hrun
  have hsteps : Ensures (declare span create) s fun _ s' => s.unit.Changes s'.unit :=
    declare_ensures span (fun _ _ hcreate => .single (h hcreate)) fun _ _ => .refl
  exact hsteps.of_run a s' hrun

/-! ## Expressions -/

/-- Lowering a name makes changes only. -/
theorem changing_lowerIdent (site : Site) (scope : Scope) (id : Syntax.Ident) :
    Changing (lowerIdent site scope id) := by
  unfold lowerIdent
  split
  · split
    · exact changing_report_pure _ _
    · exact (changing_ask _).bind fun _ => changing_pure _
  · refine (changing_ask _).bind fun item => ?_
    cases item with
    | localVar l =>
      exact (changing_currentMethod site _ _).bind fun m =>
        (changing_ask _).bind fun _ => changing_pure _
    | param k =>
      exact (changing_currentMethod site _ _).bind fun m =>
        (changing_ask _).bind fun _ => changing_pure _
    | member m => exact (changing_ask _).bind fun _ => changing_pure _
    | classRef c => exact (changing_ask _).bind fun _ => changing_pure _
    | unknown => exact changing_report_pure _ _

/-- Lowering the access to a member makes changes only. -/
theorem changing_lowerAccess (target : Expr) (name : Syntax.Ident) (span : Span) :
    Changing (lowerAccess target name span) := by
  refine (changing_ask _).bind fun unbound => ?_
  split
  · exact changing_pure _
  refine (changing_ask _).bind fun result => ?_
  cases result with
  | found m =>
    cases m with
    | some m => exact (changing_ask _).bind fun _ => changing_pure _
    | none => exact (changing_typeName _).bind fun _ => changing_report_pure _ _
  | lenient => exact changing_pure _
  | unsupported => exact (changing_typeName _).bind fun _ => changing_halt _

/-- Lowering an operator between two operands makes changes only. -/
theorem changing_lowerBinary (op : BinaryOp) (left right : Expr) (span : Span) :
    Changing (lowerBinary op left right span) := by
  refine (changing_ask _).bind fun unbound => ?_
  -- Which operand is given the type of the other makes no difference.
  split
  all_goals
    refine (changing_unify _ _).bind fun _ => (changing_ask _).bind fun type? => ?_
    cases type? with
    | some type => exact changing_pure _
    | none =>
      exact (changing_typeName _).bind fun _ => (changing_typeName _).bind fun _ =>
        changing_report_pure _ _

/-- Checking the operand of an operator makes changes only. -/
theorem changing_operandType (allowed : List Primitive) (symbol : String) (operand : Expr)
    (span : Span) : Changing (operandType allowed symbol operand span) := by
  refine (changing_unify _ _).bind fun _ => (changing_ask _).bind fun type => ?_
  split
  · exact changing_pure _
  · exact (changing_typeName _).bind fun _ => changing_report_pure _ _

/-- Finding the type of a prefix operator makes changes only. -/
theorem changing_prefixType (op : PrefixOp) (operand : Expr) (span : Span) :
    Changing (prefixType op operand span) := by
  unfold prefixType
  split
  · exact (changing_unify _ _).bind fun _ => changing_pure _
  · exact changing_operandType _ _ _ _
  · exact changing_operandType _ _ _ _

/-- Reporting a type that is firm makes changes only. -/
theorem changing_reportFirm (type : TypeId) (d : String → Diagnostic) :
    Changing (reportFirm type d) := by
  refine (changing_isLenient type).bind fun lenient => ?_
  split
  · exact changing_pure _
  · exact (changing_typeName _).bind fun _ => changing_report _

/-- Lowering an index makes changes only. -/
theorem changing_lowerIndex (target key : Expr) (span : Span) :
    Changing (lowerIndex target key span) := by
  refine (changing_ask _).bind fun type => ?_
  split
  · exact (changing_reportFirm _ _).bind fun _ => changing_pure _
  · exact changing_pure _

/-- Lowering a call makes changes only. -/
theorem changing_lowerCall (callee : Expr) (args : List Expr) (span : Span) :
    Changing (lowerCall callee args span) := by
  unfold lowerCall
  split
  · exact (changing_ask _).bind fun _ => changing_pure _
  · refine (changing_ask _).bind fun type => ?_
    split
    · exact (changing_reportFirm _ _).bind fun _ => changing_pure _
    · exact changing_pure _

mutual

/-- Lowering an expression makes changes only, by recursion on the expression. -/
theorem changing_lowerExpr (site : Site) (scope : Scope) :
    ∀ e : Syntax.Expr, Changing (lowerExpr site scope e)
  | .int _ _ | .float _ _ | .bool _ _ => by
    rw [lowerExpr]
    exact changing_pure _
  | .ident id => by
    rw [lowerExpr]
    exact changing_lowerIdent site scope id
  | .unary op operand span => by
    rw [lowerExpr]
    exact (changing_lowerExpr site scope operand).bind fun operand =>
      (changing_prefixType op operand span).bind fun _ => changing_pure _
  | .post op operand span => by
    rw [lowerExpr]
    exact (changing_lowerExpr site scope operand).bind fun operand =>
      (changing_operandType _ op.symbol operand span).bind fun _ => changing_pure _
  | .binary op left right span => by
    rw [lowerExpr]
    exact (changing_lowerExpr site scope left).bind fun left =>
      (changing_lowerExpr site scope right).bind fun right => changing_lowerBinary op left right span
  | .field target name span => by
    rw [lowerExpr]
    exact (changing_lowerExpr site scope target).bind fun target =>
      changing_lowerAccess target name span
  | .index target key span => by
    rw [lowerExpr]
    exact (changing_lowerExpr site scope target).bind fun target =>
      (changing_lowerExpr site scope key).bind fun key => changing_lowerIndex target key span
  | .call callee args span => by
    rw [lowerExpr]
    exact (changing_lowerExpr site scope callee).bind fun callee =>
      (changing_lowerExprs site scope args).bind fun args => changing_lowerCall callee args span

/-- Lowering the expressions of a list makes changes only. -/
theorem changing_lowerExprs (site : Site) (scope : Scope) :
    ∀ es : List Syntax.Expr, Changing (lowerExprs site scope es)
  | [] => by
    rw [lowerExprs]
    exact changing_pure _
  | e :: rest => by
    rw [lowerExprs]
    exact (changing_lowerExpr site scope e).bind fun e =>
      (changing_lowerExprs site scope rest).bind fun rest => changing_pure _

end

/-- An expression that may be missing. -/
theorem changing_mapM_lowerExpr (site : Site) (scope : Scope) (e : Option Syntax.Expr) :
    Changing (e.mapM (lowerExpr site scope)) := by
  cases e with
  | none => exact changing_pure _
  | some e =>
    change Changing (lowerExpr site scope e >>= fun e' => pure (some e'))
    exact (changing_lowerExpr site scope e).bind fun _ => changing_pure _

/-! ## Declarations -/

/-- Declaring a class makes changes only. -/
theorem changing_declareClass (decl : Syntax.ClassDecl Syntax.Stmt) : Changing (declareClass decl) :=
  changing_declare _ .newClass

/-- Declaring a field makes changes only. -/
theorem changing_declareField (owner : ClassId) (modifiers : Modifiers) (decl : Syntax.VarDecl) :
    Changing (declareField owner modifiers decl) := by
  refine (changing_declaredType decl.type).bind fun type => ?_
  refine (changing_declare _ .newField).bind fun field => ?_
  split <;> exact changing_pure _

/-- Reporting a parameter that was seen before makes changes only. -/
theorem changing_reportSeen (method : String) (seen : List (String × Span)) (name : Syntax.Ident) :
    Changing (reportSeen method seen name) := by
  unfold reportSeen
  split
  · exact changing_report _
  · exact changing_pure _

/-- Finding the type of a parameter makes changes only. -/
theorem changing_paramType (written : Option Syntax.TypeRef) : Changing (paramType written) := by
  cases written with
  | some type => exact changing_writtenType type
  | none => exact changing_pure _

/-- Declaring the parameters of a method makes changes only. -/
theorem changing_declareParams (method : String) (params : List Syntax.Param)
    (seen : List (String × Span)) : Changing (declareParams method seen params) := by
  induction params generalizing seen with
  | nil => exact changing_pure _
  | cons param rest ih =>
    rw [declareParams_cons]
    exact (changing_reportSeen method seen param.name).bind fun _ =>
      (changing_paramType param.type).bind fun _ => (ih _).bind fun _ => changing_pure _

/-- Declaring a method makes changes only. -/
theorem changing_declareMethod (owner : ClassId) (modifiers : Modifiers)
    (decl : Syntax.FunctionDecl Syntax.Stmt) : Changing (declareMethod owner modifiers decl) := by
  refine (changing_declaredType decl.ret).bind fun ret => ?_
  refine (changing_declareParams _ _ _).bind fun params => ?_
  refine (changing_declare _ .newMethod).bind fun method => ?_
  cases method with
  | none => exact changing_pure _
  | some method =>
    dsimp only
    split
    · exact changing_pure _
    · constructor
      intro s s' a hrun
      cases hrun
      exact .refl

/-- Declaring one thing after the other makes changes only if declaring each of them does. -/
theorem changing_declareAll {f : α → Lower (List Task)} (hf : ∀ a, Changing (f a)) (as : List α) :
    Changing (declareAll f as) := by
  induction as with
  | nil => exact changing_pure _
  | cons a rest ih => exact (hf a).bind fun _ => ih.bind fun _ => changing_pure _

/-- Declaring the members of a class makes changes only. -/
theorem changing_declareMembers (owner : ClassId) (decl : Syntax.ClassDecl Syntax.Stmt) :
    Changing (declareMembers owner decl) := by
  refine changing_declareAll (fun member => ?_) _
  dsimp only
  split
  · exact changing_declareAll (changing_declareField owner _) _
  · exact changing_declareMethod owner _ _

/-- Running a task that a declaration left makes changes only. -/
theorem changing_runTask (task : Task) : Changing (runTask task) := by
  cases task with
  | fieldInit owner field init =>
    refine (changing_ask _).bind fun _ => (changing_lowerExpr _ _ init).bind fun value => ?_
    refine (changing_ask _).bind fun _ => (changing_unify _ _).bind fun _ => ?_
    exact changing_modifyUnit fun _ => .firstValue field value
  | paramDefault owner method param value =>
    refine (changing_ask _).bind fun _ => (changing_lowerExpr _ _ value).bind fun value => ?_
    exact changing_modifyUnit fun _ => .paramDefault method param value
  | exprBody owner method body =>
    refine (changing_ask _).bind fun _ => (changing_lowerExpr _ _ body).bind fun value => ?_
    refine (changing_ask _).bind fun _ => (changing_unify _ _).bind fun _ => ?_
    exact changing_modifyUnit fun _ => .body method _

/-- Running tasks one after the other makes changes only. -/
theorem changing_runTasks (tasks : List Task) : Changing (tasks.forM runTask) := by
  induction tasks with
  | nil => exact changing_pure _
  | cons task rest ih =>
    change Changing (runTask task >>= fun _ => rest.forM runTask)
    exact (changing_runTask task).bind fun _ => ih

/-- Lowering a class within a body makes changes only. -/
theorem changing_lowerClass (decl : Syntax.ClassDecl Syntax.Stmt) : Changing (lowerClass decl) := by
  refine (changing_declareClass decl).bind fun owner => ?_
  cases owner with
  | none => exact changing_pure _
  | some owner =>
    exact (changing_declareMembers owner decl).bind fun tasks =>
      (changing_runTasks tasks).bind fun _ => changing_pure _

/-- Lowering a function within a body makes changes only. -/
theorem changing_lowerFunction (site : Site) (decl : Syntax.FunctionDecl Syntax.Stmt) :
    Changing (lowerFunction site decl) :=
  (changing_declareMethod _ _ decl).bind fun tasks =>
    (changing_runTasks tasks).bind fun _ => changing_pure _

/-! ## Statements -/

/-- Bringing a variable into scope makes changes only. -/
theorem changing_bindLocal (method : MethodId) (scope : Scope) (name : Syntax.Ident) (type : TypeId) :
    Changing (bindLocal method scope name type) := by
  constructor
  intro s s' r hrun
  cases hrun
  exact .single (.newLocal method name.name type name.span)

/-- Settling the type of a variable makes changes only. -/
theorem changing_settleType (written : Option Syntax.TypeRef) (type : TypeId) (init : Option Expr) :
    Changing (settleType written type init) := by
  unfold settleType
  split
  · exact changing_unify _ _
  · exact changing_pure _

/-- Assigning the first value of a variable makes changes only. -/
theorem changing_assignFirst (id : LocalId) (type : TypeId) (decl : Syntax.VarDecl)
    (init : Option Expr) : Changing (assignFirst id type decl init) := by
  cases init with
  | none => exact changing_pure _
  | some value => exact (changing_lowerBinary .assign _ value decl.span).bind fun _ => changing_pure _

/-- One variable of a declaration. -/
theorem changing_lowerVar (site : Site) (method : MethodId) (decl : Syntax.VarDecl) (scope : Scope) :
    Changing (lowerVars site method scope [decl]) := by
  rw [lowerVars_singleton]
  exact (changing_mapM_lowerExpr site scope decl.init).bind fun init =>
    (changing_declaredType decl.type).bind fun type =>
      (changing_settleType decl.type type init).bind fun _ =>
        (changing_bindLocal method scope decl.name type).bind fun r =>
          (changing_assignFirst r.1 type decl init).bind fun _ => changing_pure _

/-- The variables of a declaration. -/
theorem changing_lowerVars (site : Site) (method : MethodId) (decls : List Syntax.VarDecl)
    (scope : Scope) : Changing (lowerVars site method scope decls) := by
  induction decls generalizing scope with
  | nil => exact changing_pure _
  | cons decl rest ih =>
    rw [lowerVars_cons]
    exact (changing_lowerVar site method decl scope).bind fun r =>
      (ih r.2).bind fun _ => changing_pure _

/-- Finding the type of what a loop goes over makes changes only. -/
theorem changing_loopElement (iterable : Expr) : Changing (loopElement iterable) := by
  unfold loopElement elementType
  split
  · exact changing_pure _
  · refine (changing_ask _).bind fun element => ?_
    dsimp only
    split
    · exact (changing_reportFirm _ _).bind fun _ => changing_pure _
    · exact changing_pure _

/-- Lowering what comes before the body of a loop makes changes only. -/
theorem changing_loopHead (site : Site) (scope : Scope) (name : Syntax.Ident)
    (iterable : Syntax.Expr) (span : Span) : Changing (loopHead site scope name iterable span) := by
  rw [loopHead_eq]
  exact (changing_lowerExpr site scope iterable).bind fun iterable =>
    (changing_currentMethod site _ _).bind fun method =>
      (changing_loopElement iterable).bind fun element =>
        (changing_bindLocal method _ name element).bind fun _ => changing_pure _

mutual

/-- Lowering a statement makes changes only, by recursion on the statement. -/
theorem changing_lowerStmt (site : Site) :
    ∀ (stmt : Syntax.Stmt) (scope : Scope), Changing (lowerStmt site scope stmt)
  | .empty span, _ => by
    rw [lowerStmt]
    exact changing_pure _
  | .expr e span, scope => by
    rw [lowerStmt]
    exact (changing_lowerExpr site scope e).bind fun _ => changing_pure _
  | .block body span, scope => by
    rw [lowerStmt]
    exact (changing_lowerStmts site body scope.child).bind fun _ => changing_pure _
  | .ifElse cond yes none span, scope => by
    rw [lowerStmt]
    exact (changing_lowerExpr site scope cond).bind fun _ =>
      (changing_lowerStmt site yes scope.child).bind fun _ => changing_pure _
  | .ifElse cond yes (some no) span, scope => by
    rw [lowerStmt]
    exact (changing_lowerExpr site scope cond).bind fun _ =>
      (changing_lowerStmt site yes scope.child).bind fun _ =>
        (changing_lowerStmt site no scope.child).bind fun _ => changing_pure _
  | .whileLoop cond body span, scope => by
    rw [lowerStmt]
    exact (changing_lowerExpr site scope cond).bind fun _ =>
      (changing_lowerStmt site body scope.child).bind fun _ => changing_pure _
  | .forIn name iterable body span, scope => by
    rw [lowerStmt, lowerFor_eq, bind_assoc]
    refine (changing_loopHead site scope name iterable span).bind fun r => ?_
    simp only [bind_assoc, pure_bind]
    exact (changing_lowerStmt site body r.1).bind fun _ => changing_pure _
  | .ret value span, scope => by
    rw [lowerStmt]
    refine (changing_mapM_lowerExpr site scope value).bind fun value => ?_
    refine (changing_currentMethod site _ _).bind fun method => ?_
    exact (changing_ask _).bind fun ret => (changing_unify _ _).bind fun _ => changing_pure _
  | .vars decl, scope => by
    rw [lowerStmt]
    exact (changing_currentMethod site _ _).bind fun method =>
      (changing_lowerVars site method decl.decls scope).bind fun _ => changing_pure _
  | .function decl, scope => by
    rw [lowerStmt]
    exact (changing_lowerFunction site decl).bind fun _ => changing_pure _
  | .classDecl decl, scope => by
    rw [lowerStmt]
    exact (changing_lowerClass decl).bind fun _ => changing_pure _

/-- Lowering the statements of a list makes changes only. -/
theorem changing_lowerStmts (site : Site) :
    ∀ (stmts : List Syntax.Stmt) (scope : Scope), Changing (lowerStmts site scope stmts)
  | [], _ => by
    rw [lowerStmts]
    exact changing_pure _
  | stmt :: rest, scope => by
    rw [lowerStmts]
    exact (changing_lowerStmt site stmt scope).bind fun r =>
      (changing_lowerStmts site rest r.2).bind fun _ => changing_pure _

end

/-! ## Programs -/

/-- The class and the method that a program starts in are the first changes of the empty unit. -/
theorem changes_declareMain {span : Span} {s s' : State} {r : ClassId × MethodId}
    (hrun : declareMain span s = .ok (r, s')) : CodeUnit.empty.Changes s'.unit := by
  obtain ⟨u, u', hclass, hmethod, rfl⟩ := declareMain_eq_ok hrun
  exact ((Relation.ReflTransGen.single (.newClass hclass)).tail (.types _)).tail
    (.newMethod hmethod)

/-- Declaring the classes of a program makes changes only. -/
theorem changing_declareClasses (decls : List (Syntax.ClassDecl Syntax.Stmt)) :
    Changing (declareClasses decls) := by
  induction decls with
  | nil => exact changing_pure _
  | cons decl rest ih => exact (changing_declareClass decl).bind fun _ => ih.bind fun _ => changing_pure _

/-- Declaring what a program declares makes changes only. -/
theorem changing_declareProgram (main : ClassId) (body : List Syntax.Stmt) :
    Changing (declareProgram main body) :=
  (changing_declareClasses _).bind fun _ =>
    (changing_declareAll (fun _ => changing_declareMembers _ _) _).bind fun _ =>
      (changing_declareAll (changing_declareMethod main .ofClass) _).bind fun _ => changing_pure _

/-- Lowering the statements outside of functions makes changes only. -/
theorem changing_lowerMain (owner : ClassId) (method : MethodId) (p : Syntax.Program) :
    Changing (lowerMain owner method p) :=
  (changing_lowerStmts _ _ _).bind fun _ => changing_modifyUnit fun _ => .body method _

/-- Lowering a body that was put off makes changes only. -/
theorem changing_lowerBody (d : Deferred) : Changing (lowerBody d) :=
  (changing_ask _).bind fun _ => (changing_lowerStmt _ d.body _).bind fun _ =>
    changing_modifyUnit fun _ => .body d.method _

/-- Lowering the bodies that were put off makes changes only, however many of them there are. -/
theorem changing_lowerDeferred (n : Nat) : Changing (lowerDeferred n) := by
  induction n with
  | zero =>
    refine changing_get.bind fun s => ?_
    cases s.deferred.isEmpty with
    | true => exact changing_pure _
    | false => exact changing_halt _
  | succ n ih =>
    refine changing_get.bind fun s => ?_
    cases s.deferred with
    | nil => exact changing_pure _
    | cons d rest =>
      have hnext : Changing (modify fun s => { s with deferred := rest } : Lower PUnit) := by
        constructor
        intro s s' a hrun
        cases hrun
        exact .refl
      exact hnext.bind fun _ => (changing_lowerBody d).bind fun _ => ih

/-- The unit of a program is made by changes of the empty unit. -/
theorem lowerProgram_changes {p : Syntax.Program} {policy : QueuePolicy} {u : CodeUnit}
    {queue : DiagnosticQueue} (h : lowerProgram p policy = .ok (u, queue)) :
    CodeUnit.empty.Changes u := by
  have hafter (r : ClassId × MethodId) : Changing (do
      (← declareProgram r.1 p.body).forM runTask
      lowerMain r.1 r.2 p
      lowerDeferred (Syntax.functionCounts p.body)
      modifyUnit closeResults) :=
    (changing_declareProgram _ _).bind fun _ => (changing_runTasks _).bind fun _ =>
      (changing_lowerMain _ _ _).bind fun _ => (changing_lowerDeferred _).bind fun _ =>
        changing_modifyUnit fun _ => .types _
  obtain ⟨s, hrun, rfl, -⟩ := lowerProgram_eq_ok h
  unfold lowerAll lowerWithin at hrun
  cases hmain : declareMain p.span (.start policy) with
  | error halt =>
    rw [bind_of_error hmain] at hrun
    cases hrun
  | ok started =>
    rw [bind_of_ok hmain] at hrun
    exact (changes_declareMain hmain).trans ((hafter started.1).of_run hrun)

end Lowering

end ExpLang
