import ExpLang.Proofs.Reports.Looks
import ExpLang.Proofs.Tidying.Expressions

/-!
# What lowering code reports

Whatever was found before, lowering a piece of code does the same, and each finding about types that it
reports is reported by a look that it comes to. Expressions take looks, and so do loops; declarations
report nothing about types.
-/

namespace ExpLang.Lowering

open Resolved

variable {α β : Type} {p : Syntax.Program} {policy : QueuePolicy} {s : State}

/-- A step after another one begins in the state in which that one ends. -/
theorem Steady.andThen {x : Lower α} {f : α → Lower β} (hx : Accounts p policy s x)
    (hf : ∀ a s', x s = .ok (a, s') → Accounts p policy s' (f a)) :
    Accounts p policy s (x >>= f) := by
  cases hx with
  | stops hstop => exact .stops fun q => bind_of_error (hstop q)
  | @tells a s' ds htells hds =>
    cases hf a _ (htells.of_queue s.queue) with
    | stops hstop => exact .stops fun q => (bind_of_ok (htells.of_queue q)).trans (hstop _)
    | @tells b s'' ds' htells' hds' =>
      have hboth : Tells (x >>= f) s b s'' (ds ++ ds') := by
        constructor
        intro q
        rw [bind_of_ok (htells.of_queue q), DiagnosticQueue.addAll_append]
        exact htells'.of_queue _
      exact .tells hboth fun d hd => (List.mem_append.1 hd).elim (hds d) (hds' d)

/-! ## Steps that report nothing about types -/

/-- A step that does nothing reports nothing. -/
theorem accounts_pure {a : α} : Accounts p policy s (pure a : Lower α) := steady_pure nofun

/-- A finding that is not about types. -/
theorem accounted_of_code {d : Diagnostic} (hd : d.code.isAboutTypes = false) :
    ∀ d' ∈ [d], Accounted p policy d' := by
  intro d' hd' habout
  rw [List.mem_singleton.1 hd', hd] at habout
  cases habout

/-- A step that needs a method to be lowered accounts for its findings if it does in each method of the
site. -/
theorem accounts_currentMethod_bind {site : Site} {what : String} {span : Span}
    {f : MethodId → Lower α} (h : ∀ m, site.method = some m → Accounts p policy s (f m)) :
    Accounts p policy s (site.currentMethod what span >>= f) := by
  unfold Site.currentMethod
  cases hmethod : site.method with
  | some m =>
    rw [pure_bind]
    exact h m hmethod
  | none => exact .stops fun _ => rfl

/-- Lowering a written type accounts for its findings. -/
theorem writtenType_accounts (type : Syntax.TypeRef) : Accounts p policy s (writtenType type) := by
  have harrays : ∀ (dims : List Nat) (id : TypeId) {s : State},
      Accounts p policy s (dims.foldlM (fun id _ => onTypes (·.array id)) id) := by
    intro dims
    induction dims with
    | nil => exact fun _ _ => accounts_pure
    | cons _ dims ih =>
      intro id s
      rw [List.foldlM_cons]
      exact Steady.andThen (steady_onTypes nofun) fun next _ _ => ih next
  apply steady_ask_bind
  split
  · exact harrays _ _
  · exact steady_report_bind (accounted_of_code rfl)

/-- Lowering the type of a declaration accounts for its findings. -/
theorem declaredType_accounts (type : Option Syntax.TypeRef) :
    Accounts p policy s (declaredType type) := by
  cases type with
  | some type => exact writtenType_accounts type
  | none =>
    rw [declaredType]
    exact steady_onTypes fun _ h => absurd h List.not_mem_nil

/-- Declaring something accounts for a taken name. -/
theorem declare_accounts (span : Span) (create : CodeUnit → Except DuplicateName (α × CodeUnit)) :
    Accounts p policy s (declare span create) := by
  refine steady_get_bind (fun _ => rfl) ?_
  split
  · exact (steady_modifyUnit (Q := fun _ _ ds => ds = []) rfl).bind_pure
      fun _ _ _ h => h ▸ nofun
  · exact steady_report_bind (accounted_of_code rfl)

/-- A first value is assigned without a look at its type. -/
theorem lowerBinary_assign_accounts (left right : Expr) (span : Span) :
    Accounts p policy s (lowerBinary .assign left right span) := by
  unfold lowerBinary
  apply steady_ask_bind
  dsimp only
  split
  all_goals exact steady_unify_bind (steady_ask_bind accounts_pure)

/-! ## Expressions -/

/-- Lowering an identifier accounts for its findings. -/
theorem lowerIdent_accounts (site : Site) (scope : Scope) (id : Syntax.Ident) :
    Accounts p policy s (lowerIdent site scope id) := by
  unfold lowerIdent
  dsimp only
  split
  · split
    · exact steady_report_bind (accounted_of_code rfl)
    · exact steady_ask_bind accounts_pure
  · apply steady_ask_bind
    split
    · exact accounts_currentMethod_bind fun _ _ => steady_ask_bind accounts_pure
    · exact accounts_currentMethod_bind fun _ _ => steady_ask_bind accounts_pure
    · exact steady_ask_bind accounts_pure
    · exact steady_ask_bind accounts_pure
    · exact steady_report_bind (accounted_of_code rfl)

mutual

/-- What is reported about types while an expression is lowered is reported by looks. -/
theorem lowerExpr_accounts (site : Site) (scope : Scope) :
    ∀ (e : Syntax.Expr) {s : State}, Comes p policy (.expr site scope e) s →
      Accounts p policy s (lowerExpr site scope e)
  | .int _ _, _, _ | .float _ _, _, _ | .bool _ _, _, _ => by
    rw [lowerExpr]
    exact accounts_pure
  | .ident id, _, _ => by
    rw [lowerExpr]
    exact lowerIdent_accounts site scope id
  | .unary op operand span, _, hjob => by
    rw [lowerExpr]
    refine (lowerExpr_accounts site scope operand (hjob.firstPart rfl)).andThen
      fun operand' s' hoperand => ?_
    have hlook : Looks p policy (.prefixed op operand' span) s' := .prefixed hjob hoperand
    exact (hlook.accounts rfl (prefixType_justified _ _ _)).bind_pure fun _ _ _ h => h
  | .post op operand span, _, hjob => by
    rw [lowerExpr]
    refine (lowerExpr_accounts site scope operand (hjob.firstPart rfl)).andThen
      fun operand' s' hoperand => ?_
    have hlook : Looks p policy (.postfixed op operand' span) s' := .postfixed hjob hoperand
    exact (hlook.accounts rfl (numericType_justified _ _ _)).bind_pure fun _ _ _ h => h
  | .binary op left right span, _, hjob => by
    rw [lowerExpr]
    refine (lowerExpr_accounts site scope left (hjob.firstPart rfl)).andThen fun left' s₁ hleft => ?_
    refine (lowerExpr_accounts site scope right (hjob.secondPart rfl hleft)).andThen
      fun right' s₂ hright => ?_
    have hlook : Looks p policy (.binary op left' right' span) s₂ := .binary hjob hleft hright
    exact hlook.accounts rfl (lowerBinary_justified _ _ _ _)
  | .field target name span, _, hjob => by
    rw [lowerExpr]
    refine (lowerExpr_accounts site scope target (hjob.firstPart rfl)).andThen
      fun target' s' htarget => ?_
    have hlook : Looks p policy (.access target' name span) s' := .access hjob htarget
    exact hlook.accounts rfl (lowerAccess_justified _ _ _)
  | .index target key span, _, hjob => by
    rw [lowerExpr]
    refine (lowerExpr_accounts site scope target (hjob.firstPart rfl)).andThen
      fun target' s₁ htarget => ?_
    refine (lowerExpr_accounts site scope key (hjob.secondPart rfl htarget)).andThen
      fun key' s₂ hkey => ?_
    have hlook : Looks p policy (.index target' key' span) s₂ := .index hjob htarget hkey
    exact hlook.accounts rfl (lowerIndex_justified _ _ _)
  | .call callee args span, s, hjob => by
    rw [lowerExpr]
    refine (lowerExpr_accounts site scope callee (hjob.firstPart rfl)).andThen
      fun callee' s₁ hcallee => ?_
    have hbefore : lowerExprs site scope [callee] s = .ok ([callee'], s₁) := by
      rw [lowerExprs, bind_of_ok hcallee, lowerExprs]
      rfl
    have hparts : (Syntax.Expr.call callee args span).parts = [callee] ++ args := rfl
    refine (lowerExprs_accounts site scope args hjob hparts hbefore).andThen fun args' s₂ hargs => ?_
    have hlook : Looks p policy (.call callee' args' span) s₂ := .call hjob hcallee hargs
    exact hlook.accounts rfl (lowerCall_justified _ _ _)

/-- The same of the parts of an expression from one on. -/
theorem lowerExprs_accounts (site : Site) (scope : Scope) :
    ∀ (es : List Syntax.Expr) {e : Syntax.Expr} {before : List Syntax.Expr} {before' : List Expr}
      {s₀ s : State}, Comes p policy (.expr site scope e) s₀ → e.parts = before ++ es →
      lowerExprs site scope before s₀ = .ok (before', s) →
      Accounts p policy s (lowerExprs site scope es)
  | [], _, _, _, _, _, _, _, _ => by
    rw [lowerExprs]
    exact accounts_pure
  | first :: rest, _, before, _, _, _, hjob, hparts, hbefore => by
    rw [lowerExprs]
    refine (lowerExpr_accounts site scope first (hjob.part hparts hbefore)).andThen
      fun first' s₁ hfirst => ?_
    have hparts' := hparts.trans (List.append_cons before first rest)
    exact (lowerExprs_accounts site scope rest hjob hparts' (lowerExprs_snoc hbefore hfirst)).bind_pure
      fun _ _ _ h => h

end

/-- An expression that may be missing. -/
theorem mapM_lowerExpr_accounts {site : Site} {scope : Scope} (e : Option Syntax.Expr)
    (hjob : ∀ e', e = some e' → Comes p policy (.expr site scope e') s) :
    Accounts p policy s (e.mapM (lowerExpr site scope)) := by
  cases e with
  | none => exact accounts_pure
  | some e =>
    change Accounts p policy s (lowerExpr site scope e >>= fun e' => pure (some e'))
    exact (lowerExpr_accounts site scope e (hjob e rfl)).bind_pure fun _ _ _ h => h

/-! ## Declarations -/

/-- Declaring a field accounts for its findings. -/
theorem declareField_accounts (owner : ClassId) (modifiers : Modifiers) (decl : Syntax.VarDecl) :
    Accounts p policy s (declareField owner modifiers decl) := by
  refine (declaredType_accounts decl.type).andThen fun type s₁ _ => ?_
  refine (declare_accounts _ _).andThen fun field s₂ _ => ?_
  split <;> exact accounts_pure

/-- Reporting a parameter name that was seen before accounts for the finding. -/
theorem reportSeen_accounts (method : String) (seen : List (String × Span)) (name : Syntax.Ident) :
    Accounts p policy s (reportSeen method seen name) := by
  unfold reportSeen
  split
  · exact steady_report (accounted_of_code rfl)
  · exact accounts_pure

/-- Lowering the type of a parameter accounts for its findings. -/
theorem paramType_accounts (written : Option Syntax.TypeRef) :
    Accounts p policy s (paramType written) := by
  cases written with
  | some type => exact writtenType_accounts type
  | none => exact accounts_pure

/-- Declaring parameters accounts for the findings about each. -/
theorem declareParams_accounts (method : String) (params : List Syntax.Param)
    (seen : List (String × Span)) {s : State} :
    Accounts p policy s (declareParams method seen params) := by
  induction params generalizing seen s with
  | nil => exact accounts_pure
  | cons param rest ih =>
    rw [declareParams_cons]
    exact (reportSeen_accounts method seen param.name).andThen fun _ _ _ =>
      (paramType_accounts param.type).andThen fun _ _ _ => (ih _).bind_pure fun _ _ _ h => h

/-- Declaring a method accounts for its findings. -/
theorem declareMethod_accounts (owner : ClassId) (modifiers : Modifiers)
    (decl : Syntax.FunctionDecl Syntax.Stmt) :
    Accounts p policy s (declareMethod owner modifiers decl) := by
  refine (declaredType_accounts decl.ret).andThen fun ret _ _ => ?_
  refine (declareParams_accounts _ _ _).andThen fun params _ _ => ?_
  refine (declare_accounts _ _).andThen fun method _ _ => ?_
  cases method with
  | none => exact accounts_pure
  | some method =>
    dsimp only
    split
    · exact accounts_pure
    · exact Steady.andThen (steady_modify (fun _ => rfl) nofun) fun _ _ _ => accounts_pure

/-- Declaring one after the other accounts for the findings if each declaration does. -/
theorem declareAll_accounts {f : α → Lower (List Task)}
    (hf : ∀ a {s : State}, Accounts p policy s (f a)) (as : List α) {s : State} :
    Accounts p policy s (declareAll f as) := by
  induction as generalizing s with
  | nil => exact accounts_pure
  | cons a rest ih => exact (hf a).andThen fun _ _ _ => ih.bind_pure fun _ _ _ h => h

/-- Declaring the members of a class accounts for their findings. -/
theorem declareMembers_accounts (owner : ClassId) (decl : Syntax.ClassDecl Syntax.Stmt) :
    Accounts p policy s (declareMembers owner decl) := by
  refine declareAll_accounts (fun member {s} => ?_) _
  dsimp only
  split
  · exact declareAll_accounts (fun var {_} => declareField_accounts owner _ var) _
  · exact declareMethod_accounts owner _ _

/-- The code of a task. -/
theorem runTask_accounts (task : Task) (hjob : Comes p policy (task.job s.unit) s) :
    Accounts p policy s (runTask task) := by
  cases task with
  | fieldInit owner field init =>
    apply steady_ask_bind
    refine (lowerExpr_accounts _ _ init hjob).andThen fun value s₁ _ => ?_
    exact steady_ask_bind (steady_unify_bind (steady_modifyUnit nofun))
  | paramDefault owner method param value =>
    apply steady_ask_bind
    exact (lowerExpr_accounts _ _ value hjob).andThen fun _ _ _ => steady_modifyUnit nofun
  | exprBody owner method body =>
    apply steady_ask_bind
    refine (lowerExpr_accounts _ _ body hjob).andThen fun value s₁ _ => ?_
    exact steady_ask_bind (steady_unify_bind (steady_modifyUnit nofun))

/-- The tasks of a job account for their findings, each as a job that lowering comes to. -/
theorem runTasks_accounts (tasks : List Task) {s : State} (hjob : Comes p policy (.tasks tasks) s) :
    Accounts p policy s (tasks.forM runTask) := by
  induction tasks generalizing s with
  | nil => exact accounts_pure
  | cons task rest ih =>
    change Accounts p policy s (runTask task >>= fun _ => rest.forM runTask)
    exact (runTask_accounts task hjob.task).andThen fun _ _ hrun => ih (hjob.moreTasks hrun)

/-- Lowering a class accounts for its findings, its members being a job of its own. -/
theorem lowerClass_accounts {site : Site} {scope : Scope} {decl : Syntax.ClassDecl Syntax.Stmt}
    (hjob : Comes p policy (.stmt site scope (.classDecl decl)) s) :
    Accounts p policy s (lowerClass decl) := by
  refine Steady.andThen (declare_accounts _ _) fun owner s₁ hclass => ?_
  cases owner with
  | none => exact accounts_pure
  | some owner =>
    refine (declareMembers_accounts owner decl).andThen fun tasks s₂ hmembers => ?_
    exact (runTasks_accounts tasks (hjob.classMembers hclass hmembers)).bind_pure fun _ _ _ h => h

/-- Lowering a function accounts for its findings, its body being a job of its own. -/
theorem lowerFunction_accounts {site : Site} {scope : Scope}
    {decl : Syntax.FunctionDecl Syntax.Stmt}
    (hjob : Comes p policy (.stmt site scope (.function decl)) s) :
    Accounts p policy s (lowerFunction site decl) :=
  (declareMethod_accounts site.owner _ decl).andThen fun tasks _ hdeclare =>
    (runTasks_accounts tasks (hjob.function hdeclare)).bind_pure fun _ _ _ h => h

/-! ## Statements -/

/-- Binding a local accounts for its findings. -/
theorem bindLocal_accounts (method : MethodId) (scope : Scope) (name : Syntax.Ident)
    (type : TypeId) : Accounts p policy s (bindLocal method scope name type) :=
  steady_ask_bind (Steady.andThen (steady_modifyUnit nofun) fun _ _ _ => accounts_pure)

/-- Settling the type of a local accounts for its findings. -/
theorem settleType_accounts (written : Option Syntax.TypeRef) (type : TypeId)
    (init : Option Expr) : Accounts p policy s (settleType written type init) := by
  unfold settleType
  split
  · exact steady_unify nofun
  · exact accounts_pure

/-- Assigning the first value of a local accounts for its findings. -/
theorem assignFirst_accounts (id : LocalId) (type : TypeId) (decl : Syntax.VarDecl)
    (init : Option Expr) : Accounts p policy s (assignFirst id type decl init) := by
  cases init with
  | none => exact accounts_pure
  | some value => exact (lowerBinary_assign_accounts _ _ _).bind_pure fun _ _ _ h => h

/-- One variable of a declaration. -/
theorem lowerVar_accounts {site : Site} {method : MethodId} {scope : Scope}
    {decl : Syntax.VarDecl} {rest : List Syntax.VarDecl}
    (hjob : Comes p policy (.vars site method scope (decl :: rest)) s) :
    Accounts p policy s (lowerVars site method scope [decl]) := by
  rw [lowerVars_singleton]
  refine (mapM_lowerExpr_accounts decl.init fun e he => hjob.varInit he).andThen fun init _ _ => ?_
  refine (declaredType_accounts decl.type).andThen fun type _ _ => ?_
  refine (settleType_accounts decl.type type init).andThen fun _ _ _ => ?_
  refine (bindLocal_accounts method scope decl.name type).andThen fun r _ _ => ?_
  exact (assignFirst_accounts r.1 type decl init).bind_pure fun _ _ _ h => h

/-- Lowering declarators accounts for their findings, each being a job of its own. -/
theorem lowerVars_accounts {site : Site} {method : MethodId} (decls : List Syntax.VarDecl)
    {scope : Scope} {s : State} (hjob : Comes p policy (.vars site method scope decls) s) :
    Accounts p policy s (lowerVars site method scope decls) := by
  induction decls generalizing s scope with
  | nil => exact accounts_pure
  | cons decl rest ih =>
    rw [lowerVars_cons]
    exact (lowerVar_accounts hjob).andThen fun _ _ hrun =>
      (ih (hjob.moreVars hrun)).bind_pure fun _ _ _ h => h

/-- What a loop goes over is looked at if it is no range. -/
theorem loopElement_accounts {iterable : Expr}
    (hlook : (∀ low high info, iterable ≠ .binary .range low high info) →
      Looks p policy (.iteration iterable) s) :
    Accounts p policy s (loopElement iterable) := by
  unfold loopElement
  split
  · exact accounts_pure
  · rename_i hrange
    exact (hlook hrange).accounts (Look.run_iteration _) (elementType_justified _)

/-- What a loop does before its body. -/
theorem loopHead_accounts {site : Site} {scope : Scope} {name : Syntax.Ident}
    {iterable : Syntax.Expr} {body : Syntax.Stmt} {span : Span}
    (hjob : Comes p policy (.stmt site scope (.forIn name iterable body span)) s) :
    Accounts p policy s (loopHead site scope name iterable span) := by
  rw [loopHead_eq]
  refine (lowerExpr_accounts site scope iterable (hjob.head rfl)).andThen
    fun iterable' s₁ hiterable => ?_
  apply accounts_currentMethod_bind
  intro method _
  refine (loopElement_accounts (.iteration hjob hiterable)).andThen fun element _ _ => ?_
  exact (bindLocal_accounts method _ name element).bind_pure fun _ _ _ h => h

mutual

/-- What is reported about types while a statement is lowered is reported by looks. -/
theorem lowerStmt_accounts (site : Site) :
    ∀ (stmt : Syntax.Stmt) {scope : Scope} {s : State}, Comes p policy (.stmt site scope stmt) s →
      Accounts p policy s (lowerStmt site scope stmt)
  | .empty _, _, _, _ => by
    rw [lowerStmt]
    exact accounts_pure
  | .expr e _, scope, _, hjob => by
    rw [lowerStmt]
    exact (lowerExpr_accounts site scope e (hjob.head rfl)).bind_pure fun _ _ _ h => h
  | .block body _, _, _, hjob => by
    rw [lowerStmt]
    exact (lowerStmts_accounts site body hjob.block).bind_pure fun _ _ _ h => h
  | .ifElse cond yes none _, scope, _, hjob => by
    rw [lowerStmt]
    refine (lowerExpr_accounts site scope cond (hjob.head rfl)).andThen fun _ _ hcond => ?_
    exact (lowerStmt_accounts site yes (hjob.thenBranch hcond)).bind_pure fun _ _ _ h => h
  | .ifElse cond yes (some no) _, scope, _, hjob => by
    rw [lowerStmt]
    refine (lowerExpr_accounts site scope cond (hjob.head rfl)).andThen fun _ _ hcond => ?_
    refine (lowerStmt_accounts site yes (hjob.thenBranch hcond)).andThen fun _ _ hyes => ?_
    exact (lowerStmt_accounts site no (hjob.elseBranch hcond hyes)).bind_pure fun _ _ _ h => h
  | .whileLoop cond body _, scope, _, hjob => by
    rw [lowerStmt]
    refine (lowerExpr_accounts site scope cond (hjob.head rfl)).andThen fun _ _ hcond => ?_
    exact (lowerStmt_accounts site body (hjob.whileBody hcond)).bind_pure fun _ _ _ h => h
  | .forIn name iterable body span, _, _, hjob => by
    rw [lowerStmt, lowerFor_eq, bind_assoc]
    refine (loopHead_accounts hjob).andThen fun r _ hhead => ?_
    simp only [bind_assoc, pure_bind]
    exact (lowerStmt_accounts site body (hjob.forBody hhead)).bind_pure fun _ _ _ h => h
  | .ret value _, scope, s, hjob => by
    rw [lowerStmt]
    have hvalue : ∀ e, value = some e → Comes p policy (.expr site scope e) s := by
      intro e he
      exact hjob.head (by rw [he]; rfl)
    refine (mapM_lowerExpr_accounts value hvalue).andThen fun _ _ _ => ?_
    exact accounts_currentMethod_bind fun _ _ =>
      steady_ask_bind (steady_unify_bind accounts_pure)
  | .vars decl, _, _, hjob => by
    rw [lowerStmt]
    exact accounts_currentMethod_bind fun method hmethod =>
      (lowerVars_accounts decl.decls (hjob.vars hmethod)).bind_pure fun _ _ _ h => h
  | .function decl, _, _, hjob => by
    rw [lowerStmt]
    exact (lowerFunction_accounts hjob).bind_pure fun _ _ _ h => h
  | .classDecl decl, _, _, hjob => by
    rw [lowerStmt]
    exact (lowerClass_accounts hjob).bind_pure fun _ _ _ h => h

/-- The same of statements one after the other. -/
theorem lowerStmts_accounts (site : Site) :
    ∀ (stmts : List Syntax.Stmt) {scope : Scope} {s : State},
      Comes p policy (.stmts site scope stmts) s →
      Accounts p policy s (lowerStmts site scope stmts)
  | [], _, _, _ => by
    rw [lowerStmts]
    exact accounts_pure
  | stmt :: rest, _, _, hjob => by
    rw [lowerStmts]
    refine (lowerStmt_accounts site stmt hjob.stmt).andThen fun _ _ hrun => ?_
    exact (lowerStmts_accounts site rest (hjob.moreStmts hrun)).bind_pure fun _ _ _ h => h

end

end ExpLang.Lowering
