import ExpLang.Proofs.Lowering.Sequences
import ExpLang.Proofs.Lowering.Steps
import ExpLang.Proofs.Origins.Code

/-!
# Lowering keeps units traced

`Gives x Q` says that a step which goes through from a traced unit ends with a traced unit, and with a
result that `Q` holds of. What is known of the code that a step gives does not depend on the state
after it, so that the rules for steps one after the other mention no state. Each step of lowering has
one lemma here.
-/

namespace ExpLang.Lowering

open Resolved

variable {α β : Type} {Q R : α → Prop}

/-- From a traced unit, a step that goes through ends with a traced unit, and something holds of its
result. -/
structure Gives (x : Lower α) (Q : α → Prop) : Prop where
  of_run : ∀ {s s' : State} {a : α}, s.unit.Traced → x s = .ok (a, s') → s'.unit.Traced ∧ Q a

/-- A step after which the unit is traced. -/
abbrev KeepsTraced (x : Lower α) : Prop := Gives x fun _ => True

/-- Doing nothing keeps the unit and gives its result. -/
theorem gives_pure {a : α} (h : Q a) : Gives (pure a) Q := by
  constructor
  intro s s' a hs hrun
  cases hrun
  exact ⟨hs, h⟩

/-- A step after another one starts from what the first one gives. -/
theorem Gives.bind {x : Lower α} {f : α → Lower β} {Q : β → Prop} (hx : Gives x R)
    (hf : ∀ a, R a → Gives (f a) Q) : Gives (x >>= f) Q := by
  constructor
  intro s s'' b hs hrun
  cases hfirst : x s with
  | error halt =>
    rw [bind_of_error hfirst] at hrun
    cases hrun
  | ok r =>
    rw [bind_of_ok hfirst] at hrun
    obtain ⟨hs', ha⟩ := hx.of_run hs hfirst
    exact (hf r.1 ha).of_run hs' hrun

/-! ## Looking, reporting, and changing types -/

/-- A step that stops lowering gives nothing. -/
theorem gives_halt {halt : Halt} : Gives (throw halt : Lower α) Q := ⟨fun _ hrun => by cases hrun⟩

/-- Looking at the state keeps the unit traced. -/
theorem keepsTraced_get : KeepsTraced (get : Lower State) := by
  constructor
  intro s s' a hs hrun
  cases hrun
  exact ⟨hs, trivial⟩

/-- Asking the unit keeps it traced. -/
theorem keepsTraced_ask (f : CodeUnit → α) : KeepsTraced (ask f) :=
  keepsTraced_get.bind fun _ _ => gives_pure trivial

/-- A step that modifies the unit keeps it traced if each of its modifications does. -/
theorem keepsTraced_modifyUnit {f : CodeUnit → CodeUnit}
    (h : ∀ {u : CodeUnit}, u.Traced → (f u).Traced) : KeepsTraced (modifyUnit f) := by
  constructor
  intro s s' a hs hrun
  cases hrun
  exact ⟨h hs, trivial⟩

/-- Types can be added to a traced unit, as long as those that it has stay. -/
theorem keepsTraced_onTypes {f : TypePool → α × TypePool}
    (h : ∀ types : TypePool, types.Keeps (f types).2) : KeepsTraced (onTypes f) := by
  constructor
  intro s s' a hs hrun
  cases hrun
  exact ⟨hs.withTypes (h _), trivial⟩

/-- A report keeps the unit traced. -/
theorem report_keepsTraced (d : Diagnostic) : KeepsTraced (report d) := by
  constructor
  intro s s' a hs hrun
  cases hrun
  exact ⟨hs, trivial⟩

/-- A report before a result. -/
theorem gives_report {d : Diagnostic} {a : α} (h : Q a) : Gives (report d >>= fun _ => pure a) Q :=
  (report_keepsTraced d).bind fun _ _ => gives_pure h

/-- Binding a hole keeps the unit traced. -/
theorem unify_keepsTraced (hole target : TypeId) : KeepsTraced (unify hole target) :=
  (keepsTraced_onTypes fun types => types.keeps_bindIfUnbound hole target).bind
    fun _ _ => gives_pure trivial

/-- Writing a type out keeps the unit traced. -/
theorem typeName_keepsTraced (id : TypeId) : KeepsTraced (typeName id) := by
  refine keepsTraced_get.bind fun s _ => ?_
  split
  · exact gives_pure trivial
  · exact gives_halt

/-- Asking whether a type is lenient keeps the unit traced. -/
theorem isLenient_keepsTraced (id : TypeId) : KeepsTraced (isLenient id) := keepsTraced_ask _

/-- Asking for the method at a site keeps the unit traced. -/
theorem currentMethod_keepsTraced (site : Site) (what : String) (span : Span) :
    KeepsTraced (site.currentMethod what span) := by
  unfold Site.currentMethod
  split
  · exact gives_pure trivial
  · exact gives_halt

/-- Finding the type that a program writes keeps the unit traced. -/
theorem writtenType_keepsTraced (type : Syntax.TypeRef) : KeepsTraced (writtenType type) := by
  have harrays : ∀ (dims : List Nat) (id : TypeId),
      KeepsTraced (dims.foldlM (fun id _ => onTypes (·.array id)) id) := by
    intro dims
    induction dims with
    | nil => exact fun id => gives_pure trivial
    | cons _ dims ih =>
      intro id
      rw [List.foldlM_cons]
      exact (keepsTraced_onTypes fun types => types.keeps_intern _).bind fun next _ => ih next
  refine (keepsTraced_ask _).bind fun named _ => ?_
  cases named with
  | some id => exact harrays _ id
  | none => exact gives_report trivial

/-- Finding the type of a declaration keeps the unit traced. -/
theorem declaredType_keepsTraced (type : Option Syntax.TypeRef) :
    KeepsTraced (declaredType type) := by
  cases type with
  | some type => exact writtenType_keepsTraced type
  | none =>
    have hhole (types : TypePool) : types.Keeps types.newHole.2 := types.keeps_push _ _
    exact keepsTraced_onTypes hhole

/-- A declaration keeps the unit traced if its creation does. -/
theorem declare_keepsTraced {create : CodeUnit → Except DuplicateName (α × CodeUnit)} (span : Span)
    (h : ∀ {u a u'}, u.Traced → create u = .ok (a, u') → u'.Traced) :
    KeepsTraced (declare span create) := by
  constructor
  intro s s' a hs hrun
  have hsteps : Ensures (declare span create) s fun _ s' => s'.unit.Traced :=
    declare_ensures span (fun _ _ hcreate => h hs hcreate) fun _ _ => hs
  exact ⟨hsteps.of_run a s' hrun, trivial⟩

/-! ## Expressions -/

/-- A step that gives an expression, all of it traced. -/
abbrev GivesTraced (x : Lower Expr) : Prop := Gives x fun e => Traced e.visits

/-- An expression without parts that is no operator is traced. -/
theorem lowerIdent_traced (site : Site) (scope : Scope) (id : Syntax.Ident) :
    GivesTraced (lowerIdent site scope id) := by
  have hleaf {v : Visit} (hv : v.HasOrigin) : Traced [v] := traced_cons.2 ⟨hv, traced_nil⟩
  unfold lowerIdent
  split
  · split
    · exact gives_report (hleaf trivial)
    · exact (keepsTraced_ask _).bind fun _ _ => gives_pure (hleaf trivial)
  · refine (keepsTraced_ask _).bind fun item _ => ?_
    cases item with
    | localVar l =>
      exact (currentMethod_keepsTraced site _ _).bind fun m _ =>
        (keepsTraced_ask _).bind fun _ _ => gives_pure (hleaf trivial)
    | param k =>
      exact (currentMethod_keepsTraced site _ _).bind fun m _ =>
        (keepsTraced_ask _).bind fun _ _ => gives_pure (hleaf trivial)
    | member m => exact (keepsTraced_ask _).bind fun _ _ => gives_pure (hleaf trivial)
    | classRef c => exact (keepsTraced_ask _).bind fun _ _ => gives_pure (hleaf trivial)
    | unknown => exact gives_report (hleaf trivial)

/-- The access to a member of something traced is traced. -/
theorem lowerAccess_traced {target : Expr} (htarget : Traced target.visits) (name : Syntax.Ident)
    (span : Span) : GivesTraced (lowerAccess target name span) := by
  have hunknown : Traced (unknownExpr name.name span).visits := traced_cons.2 ⟨trivial, traced_nil⟩
  refine (keepsTraced_ask _).bind fun unbound _ => ?_
  split
  · exact gives_pure hunknown
  refine (keepsTraced_ask _).bind fun result _ => ?_
  cases result with
  | found m =>
    cases m with
    | some m =>
      exact (keepsTraced_ask _).bind fun _ _ => gives_pure (traced_cons.2 ⟨trivial, htarget⟩)
    | none => exact (typeName_keepsTraced _).bind fun _ _ => gives_report hunknown
  | lenient => exact gives_pure hunknown
  | unsupported => exact (typeName_keepsTraced _).bind fun _ _ => gives_halt

/-- Whatever the types of its operands, an operator is lowered to one on these operands. -/
theorem lowerBinary_form (op : BinaryOp) (left right : Expr) (span : Span) :
    Gives (lowerBinary op left right span) fun e => ∃ type, e = .binary op left right ⟨type, span⟩ := by
  refine (keepsTraced_ask _).bind fun unbound _ => ?_
  -- Which operand is given the type of the other makes no difference.
  split
  all_goals
    refine (unify_keepsTraced _ _).bind fun _ _ => (keepsTraced_ask _).bind fun type? _ => ?_
    cases type? with
    | some type => exact gives_pure ⟨type, rfl⟩
    | none =>
      exact (typeName_keepsTraced _).bind fun _ _ => (typeName_keepsTraced _).bind fun _ _ =>
        gives_report ⟨_, rfl⟩

/-- An operator has its origin in the unit in which it is lowered. -/
theorem lowerBinary_traced (op : BinaryOp) {left right : Expr} (hleft : Traced left.visits)
    (hright : Traced right.visits) (span : Span) :
    GivesTraced (lowerBinary op left right span) := by
  constructor
  intro s s' e hs hrun
  obtain ⟨hs', type, rfl⟩ := (lowerBinary_form op left right span).of_run hs hrun
  exact ⟨hs', traced_cons.2 ⟨⟨s, s', hs.toStandard, hrun⟩, traced_append.2 ⟨hleft, hright⟩⟩⟩

/-- Checking the operand of an operator keeps the unit traced. -/
theorem operandType_keepsTraced (allowed : List Primitive) (symbol : String) (operand : Expr)
    (span : Span) : KeepsTraced (operandType allowed symbol operand span) := by
  refine (unify_keepsTraced _ _).bind fun _ _ => (keepsTraced_ask _).bind fun type _ => ?_
  split
  · exact gives_pure trivial
  · exact (typeName_keepsTraced _).bind fun _ _ => gives_report trivial

/-- Finding the type of a prefix operator keeps the unit traced. -/
theorem prefixType_keepsTraced (op : PrefixOp) (operand : Expr) (span : Span) :
    KeepsTraced (prefixType op operand span) := by
  unfold prefixType
  split
  · exact (unify_keepsTraced _ _).bind fun _ _ => gives_pure trivial
  · exact operandType_keepsTraced _ _ _ _
  · exact operandType_keepsTraced _ _ _ _

/-- Reporting a type that is firm keeps the unit traced. -/
theorem reportFirm_keepsTraced (type : TypeId) (d : String → Diagnostic) :
    KeepsTraced (reportFirm type d) := by
  refine (isLenient_keepsTraced type).bind fun lenient _ => ?_
  split
  · exact gives_pure trivial
  · exact (typeName_keepsTraced _).bind fun _ _ => report_keepsTraced _

/-- An index into something traced, by something traced, is traced. -/
theorem lowerIndex_traced {target key : Expr} (htarget : Traced target.visits)
    (hkey : Traced key.visits) (span : Span) : GivesTraced (lowerIndex target key span) := by
  have hresult (type : TypeId) : Traced (Expr.index target key ⟨type, span⟩).visits :=
    traced_cons.2 ⟨trivial, traced_append.2 ⟨htarget, hkey⟩⟩
  refine (keepsTraced_ask _).bind fun type _ => ?_
  split
  · exact (reportFirm_keepsTraced _ _).bind fun _ _ => gives_pure (hresult type)
  · exact gives_pure (hresult type)

/-- A call of something traced with traced arguments is traced. -/
theorem lowerCall_traced {callee : Expr} {args : List Expr} (hcallee : Traced callee.visits)
    (hargs : Traced (Expr.visitsAll args)) (span : Span) :
    GivesTraced (lowerCall callee args span) := by
  have hresult (type : TypeId) : Traced (Expr.call callee args ⟨type, span⟩).visits :=
    traced_cons.2 ⟨trivial, traced_append.2 ⟨hcallee, hargs⟩⟩
  unfold lowerCall
  split
  · exact (keepsTraced_ask _).bind fun _ _ => gives_pure (traced_cons.2 ⟨trivial, hargs⟩)
  · refine (keepsTraced_ask _).bind fun type _ => ?_
    split
    · exact (reportFirm_keepsTraced _ _).bind fun _ _ => gives_pure (hresult type)
    · exact gives_pure (hresult type)

mutual

/-- All operators in a lowered expression have an origin. -/
theorem lowerExpr_traced (site : Site) (scope : Scope) :
    ∀ e : Syntax.Expr, GivesTraced (lowerExpr site scope e)
  | .int _ _ | .float _ _ | .bool _ _ => by
    rw [lowerExpr]
    exact gives_pure (traced_cons.2 ⟨trivial, traced_nil⟩)
  | .ident id => by
    rw [lowerExpr]
    exact lowerIdent_traced site scope id
  | .unary op operand span => by
    rw [lowerExpr]
    exact (lowerExpr_traced site scope operand).bind fun operand h =>
      (prefixType_keepsTraced op operand span).bind fun _ _ =>
        gives_pure (traced_cons.2 ⟨trivial, h⟩)
  | .post op operand span => by
    rw [lowerExpr]
    exact (lowerExpr_traced site scope operand).bind fun operand h =>
      (operandType_keepsTraced _ op.symbol operand span).bind fun _ _ =>
        gives_pure (traced_cons.2 ⟨trivial, h⟩)
  | .binary op left right span => by
    rw [lowerExpr]
    exact (lowerExpr_traced site scope left).bind fun left hleft =>
      (lowerExpr_traced site scope right).bind fun right hright =>
        lowerBinary_traced op hleft hright span
  | .field target name span => by
    rw [lowerExpr]
    exact (lowerExpr_traced site scope target).bind fun target h => lowerAccess_traced h name span
  | .index target key span => by
    rw [lowerExpr]
    exact (lowerExpr_traced site scope target).bind fun target htarget =>
      (lowerExpr_traced site scope key).bind fun key hkey => lowerIndex_traced htarget hkey span
  | .call callee args span => by
    rw [lowerExpr]
    exact (lowerExpr_traced site scope callee).bind fun callee hcallee =>
      (lowerExprs_traced site scope args).bind fun args hargs => lowerCall_traced hcallee hargs span

/-- The expressions of a list are lowered to traced ones. -/
theorem lowerExprs_traced (site : Site) (scope : Scope) :
    ∀ es : List Syntax.Expr,
      Gives (lowerExprs site scope es) fun es' => Traced (Expr.visitsAll es')
  | [] => by
    rw [lowerExprs]
    exact gives_pure traced_nil
  | e :: rest => by
    rw [lowerExprs]
    exact (lowerExpr_traced site scope e).bind fun e he =>
      (lowerExprs_traced site scope rest).bind fun rest hrest =>
        gives_pure (traced_append.2 ⟨he, hrest⟩)

end

/-- An expression that may be missing. -/
theorem mapM_lowerExpr_traced (site : Site) (scope : Scope) (e : Option Syntax.Expr) :
    Gives (e.mapM (lowerExpr site scope)) fun e' => Traced (e'.elim [] Expr.visits) := by
  cases e with
  | none => exact gives_pure traced_nil
  | some e =>
    change Gives (lowerExpr site scope e >>= fun e' => pure (some e')) _
    exact (lowerExpr_traced site scope e).bind fun value h => gives_pure h

/-! ## Declarations -/

/-- Declaring a class keeps the unit traced. -/
theorem declareClass_keepsTraced (decl : Syntax.ClassDecl Syntax.Stmt) :
    KeepsTraced (declareClass decl) := declare_keepsTraced _ fun hu h => hu.createClass h

/-- Declaring a field keeps the unit traced. -/
theorem declareField_keepsTraced (owner : ClassId) (modifiers : Modifiers) (decl : Syntax.VarDecl) :
    KeepsTraced (declareField owner modifiers decl) := by
  refine (declaredType_keepsTraced decl.type).bind fun type _ => ?_
  refine (declare_keepsTraced _ fun hu h => hu.createField h).bind fun field _ => ?_
  split <;> exact gives_pure trivial

/-- Reporting a parameter that was seen before keeps the unit traced. -/
theorem reportSeen_keepsTraced (method : String) (seen : List (String × Span))
    (name : Syntax.Ident) : KeepsTraced (reportSeen method seen name) := by
  unfold reportSeen
  split
  · exact report_keepsTraced _
  · exact gives_pure trivial

/-- Finding the type of a parameter keeps the unit traced. -/
theorem paramType_keepsTraced (written : Option Syntax.TypeRef) :
    KeepsTraced (paramType written) := by
  cases written with
  | some type => exact writtenType_keepsTraced type
  | none => exact gives_pure trivial

/-- Declaring the parameters of a method keeps the unit traced. -/
theorem declareParams_keepsTraced (method : String) (params : List Syntax.Param)
    (seen : List (String × Span)) : KeepsTraced (declareParams method seen params) := by
  induction params generalizing seen with
  | nil => exact gives_pure trivial
  | cons param rest ih =>
    rw [declareParams_cons]
    exact (reportSeen_keepsTraced method seen param.name).bind fun _ _ =>
      (paramType_keepsTraced param.type).bind fun _ _ => (ih _).bind fun _ _ => gives_pure trivial

/-- Declaring a method keeps the unit traced. -/
theorem declareMethod_keepsTraced (owner : ClassId) (modifiers : Modifiers)
    (decl : Syntax.FunctionDecl Syntax.Stmt) : KeepsTraced (declareMethod owner modifiers decl) := by
  refine (declaredType_keepsTraced decl.ret).bind fun ret _ => ?_
  refine (declareParams_keepsTraced _ _ _).bind fun params _ => ?_
  refine (declare_keepsTraced _ fun hu h => hu.createMethod h).bind fun method _ => ?_
  cases method with
  | none => exact gives_pure trivial
  | some method =>
    dsimp only
    split
    · exact gives_pure trivial
    · refine ⟨fun hs hrun => ?_⟩
      cases hrun
      exact ⟨hs, trivial⟩

/-- Declaring one thing after the other keeps the unit traced if declaring each of them does. -/
theorem declareAll_keepsTraced {f : α → Lower (List Task)} (hf : ∀ a, KeepsTraced (f a))
    (as : List α) : KeepsTraced (declareAll f as) := by
  induction as with
  | nil => exact gives_pure trivial
  | cons a rest ih => exact (hf a).bind fun _ _ => ih.bind fun _ _ => gives_pure trivial

/-- Declaring the members of a class keeps the unit traced. -/
theorem declareMembers_keepsTraced (owner : ClassId) (decl : Syntax.ClassDecl Syntax.Stmt) :
    KeepsTraced (declareMembers owner decl) := by
  refine declareAll_keepsTraced (fun member => ?_) _
  dsimp only
  split
  · exact declareAll_keepsTraced (declareField_keepsTraced owner _) _
  · exact declareMethod_keepsTraced owner _ _

/-- Running a task that a declaration left keeps the unit traced. -/
theorem runTask_keepsTraced (task : Task) : KeepsTraced (runTask task) := by
  cases task with
  | fieldInit owner field init =>
    refine (keepsTraced_ask _).bind fun _ _ => (lowerExpr_traced _ _ init).bind fun value h => ?_
    refine (keepsTraced_ask _).bind fun _ _ => (unify_keepsTraced _ _).bind fun _ _ => ?_
    exact keepsTraced_modifyUnit fun hu => hu.setInit field h
  | paramDefault owner method param value =>
    refine (keepsTraced_ask _).bind fun _ _ => (lowerExpr_traced _ _ value).bind fun value h => ?_
    exact keepsTraced_modifyUnit fun hu => hu.setDefault method param h
  | exprBody owner method body =>
    refine (keepsTraced_ask _).bind fun _ _ => (lowerExpr_traced _ _ body).bind fun value h => ?_
    refine (keepsTraced_ask _).bind fun _ _ => (unify_keepsTraced _ _).bind fun _ _ => ?_
    exact keepsTraced_modifyUnit fun hu => hu.setBody method (traced_cons.2 ⟨trivial, h⟩)

/-- Running tasks one after the other keeps the unit traced. -/
theorem runTasks_keepsTraced (tasks : List Task) : KeepsTraced (tasks.forM runTask) := by
  induction tasks with
  | nil => exact gives_pure trivial
  | cons task rest ih =>
    change KeepsTraced (runTask task >>= fun _ => rest.forM runTask)
    exact (runTask_keepsTraced task).bind fun _ _ => ih

/-- A class within a body is lowered to a traced statement. -/
theorem lowerClass_traced (decl : Syntax.ClassDecl Syntax.Stmt) :
    Gives (lowerClass decl) fun stmt => Traced stmt.visits := by
  have hskip : Traced (Stmt.skip decl.span).visits := traced_cons.2 ⟨trivial, traced_nil⟩
  refine (declareClass_keepsTraced decl).bind fun owner _ => ?_
  cases owner with
  | none => exact gives_pure hskip
  | some owner =>
    exact (declareMembers_keepsTraced owner decl).bind fun tasks _ =>
      (runTasks_keepsTraced tasks).bind fun _ _ => gives_pure hskip

/-- A function within a body is lowered to a traced statement. -/
theorem lowerFunction_traced (site : Site) (decl : Syntax.FunctionDecl Syntax.Stmt) :
    Gives (lowerFunction site decl) fun stmt => Traced stmt.visits :=
  (declareMethod_keepsTraced _ _ decl).bind fun tasks _ =>
    (runTasks_keepsTraced tasks).bind fun _ _ => gives_pure (traced_cons.2 ⟨trivial, traced_nil⟩)

/-! ## Statements -/

/-- Bringing a variable into scope keeps the unit traced. -/
theorem bindLocal_keepsTraced (method : MethodId) (scope : Scope) (name : Syntax.Ident)
    (type : TypeId) : KeepsTraced (bindLocal method scope name type) := by
  constructor
  intro s s' r hs hrun
  cases hrun
  exact ⟨hs.modifyMethod fun hm => ⟨hm.default, hm.body⟩, trivial⟩

/-- Settling the type of a variable keeps the unit traced. -/
theorem settleType_keepsTraced (written : Option Syntax.TypeRef) (type : TypeId)
    (init : Option Expr) : KeepsTraced (settleType written type init) := by
  unfold settleType
  split
  · exact unify_keepsTraced _ _
  · exact gives_pure trivial

/-- The assignment of a traced first value is traced. -/
theorem assignFirst_traced (id : LocalId) (type : TypeId) (decl : Syntax.VarDecl)
    {init : Option Expr} (hinit : Traced (init.elim [] Expr.visits)) :
    Gives (assignFirst id type decl init) fun here => Traced (Stmt.visitsAll here) := by
  cases init with
  | none => exact gives_pure traced_nil
  | some value =>
    have htarget : Traced (Expr.localVar id ⟨type, decl.name.span⟩).visits :=
      traced_cons.2 ⟨trivial, traced_nil⟩
    exact (lowerBinary_traced .assign htarget hinit decl.span).bind fun assignment h =>
      gives_pure (traced_append.2 ⟨traced_cons.2 ⟨trivial, h⟩, traced_nil⟩)

/-- One variable of a declaration. -/
theorem lowerVar_traced (site : Site) (method : MethodId) (decl : Syntax.VarDecl) (scope : Scope) :
    Gives (lowerVars site method scope [decl]) fun r => Traced (Stmt.visitsAll r.1) := by
  rw [lowerVars_singleton]
  exact (mapM_lowerExpr_traced site scope decl.init).bind fun init hinit =>
    (declaredType_keepsTraced decl.type).bind fun type _ =>
      (settleType_keepsTraced decl.type type init).bind fun _ _ =>
        (bindLocal_keepsTraced method scope decl.name type).bind fun r _ =>
          (assignFirst_traced r.1 type decl hinit).bind fun _ hhere => gives_pure hhere

/-- The variables of a declaration. -/
theorem lowerVars_traced (site : Site) (method : MethodId) (decls : List Syntax.VarDecl)
    (scope : Scope) :
    Gives (lowerVars site method scope decls) fun r => Traced (Stmt.visitsAll r.1) := by
  induction decls generalizing scope with
  | nil => exact gives_pure traced_nil
  | cons decl rest ih =>
    rw [lowerVars_cons]
    refine (lowerVar_traced site method decl scope).bind fun r hhere =>
      (ih r.2).bind fun others hothers => gives_pure ?_
    rw [Stmt.visitsAll_append]
    exact traced_append.2 ⟨hhere, hothers⟩

/-- Finding the type of what a loop goes over keeps the unit traced. -/
theorem loopElement_keepsTraced (iterable : Expr) : KeepsTraced (loopElement iterable) := by
  unfold loopElement elementType
  split
  · exact gives_pure trivial
  · refine (keepsTraced_ask _).bind fun element _ => ?_
    dsimp only
    split
    · exact (reportFirm_keepsTraced _ _).bind fun _ _ => gives_pure trivial
    · exact gives_pure trivial

/-- A loop over a traced expression around a traced body is traced. -/
theorem loopAround_traced {iterable : Expr} {body : Stmt} (var : LocalId) (span : Span)
    (hiterable : Traced iterable.visits) (hbody : Traced body.visits) :
    Traced (loopAround var iterable span body).visits := by
  unfold loopAround
  split
  · split
    · exact traced_cons.2 ⟨trivial, hbody⟩
    · have hbounds := (traced_cons.1 hiterable).2
      exact traced_cons.2 ⟨trivial, traced_append.2 ⟨hbounds, hbody⟩⟩
  · exact traced_cons.2 ⟨trivial, traced_append.2 ⟨hiterable, hbody⟩⟩

/-- What a loop does before its body. -/
theorem loopHead_traced (site : Site) (scope : Scope) (name : Syntax.Ident)
    (iterable : Syntax.Expr) (span : Span) :
    Gives (loopHead site scope name iterable span) fun r =>
      ∀ body : Stmt, Traced body.visits → Traced (r.2 body).visits := by
  rw [loopHead_eq]
  exact (lowerExpr_traced site scope iterable).bind fun iterable hiterable =>
    (currentMethod_keepsTraced site _ _).bind fun method _ =>
      (loopElement_keepsTraced iterable).bind fun element _ =>
        (bindLocal_keepsTraced method _ name element).bind fun r _ =>
          gives_pure fun _ hbody => loopAround_traced r.1 span hiterable hbody

mutual

/-- All operators in a lowered statement have an origin. -/
theorem lowerStmt_traced (site : Site) :
    ∀ (stmt : Syntax.Stmt) (scope : Scope),
      Gives (lowerStmt site scope stmt) fun r => Traced r.1.visits
  | .empty span, _ => by
    rw [lowerStmt]
    exact gives_pure (traced_cons.2 ⟨trivial, traced_nil⟩)
  | .expr e span, scope => by
    rw [lowerStmt]
    exact (lowerExpr_traced site scope e).bind fun e h => gives_pure (traced_cons.2 ⟨trivial, h⟩)
  | .block body span, scope => by
    rw [lowerStmt]
    exact (lowerStmts_traced site body scope.child).bind fun r h =>
      gives_pure (traced_cons.2 ⟨trivial, h⟩)
  | .ifElse cond yes none span, scope => by
    rw [lowerStmt]
    exact (lowerExpr_traced site scope cond).bind fun cond hcond =>
      (lowerStmt_traced site yes scope.child).bind fun yes hyes =>
        gives_pure (traced_cons.2 ⟨trivial, traced_append.2 ⟨hcond, hyes⟩⟩)
  | .ifElse cond yes (some no) span, scope => by
    rw [lowerStmt]
    exact (lowerExpr_traced site scope cond).bind fun cond hcond =>
      (lowerStmt_traced site yes scope.child).bind fun yes hyes =>
        (lowerStmt_traced site no scope.child).bind fun no hno => gives_pure
          (traced_cons.2 ⟨trivial, traced_append.2 ⟨traced_append.2 ⟨hcond, hyes⟩, hno⟩⟩)
  | .whileLoop cond body span, scope => by
    rw [lowerStmt]
    exact (lowerExpr_traced site scope cond).bind fun cond hcond =>
      (lowerStmt_traced site body scope.child).bind fun body hbody =>
        gives_pure (traced_cons.2 ⟨trivial, traced_append.2 ⟨hcond, hbody⟩⟩)
  | .forIn name iterable body span, scope => by
    rw [lowerStmt, lowerFor_eq, bind_assoc]
    refine (loopHead_traced site scope name iterable span).bind fun r hloop => ?_
    simp only [bind_assoc, pure_bind]
    exact (lowerStmt_traced site body r.1).bind fun body hbody => gives_pure (hloop _ hbody)
  | .ret value span, scope => by
    rw [lowerStmt]
    refine (mapM_lowerExpr_traced site scope value).bind fun value hvalue => ?_
    refine (currentMethod_keepsTraced site _ _).bind fun method _ => ?_
    refine (keepsTraced_ask _).bind fun ret _ => (unify_keepsTraced _ _).bind fun _ _ => ?_
    cases value with
    | none => exact gives_pure (traced_cons.2 ⟨trivial, traced_nil⟩)
    | some value => exact gives_pure (traced_cons.2 ⟨trivial, hvalue⟩)
  | .vars decl, scope => by
    rw [lowerStmt]
    exact (currentMethod_keepsTraced site _ _).bind fun method _ =>
      (lowerVars_traced site method decl.decls scope).bind fun r h =>
        gives_pure (traced_cons.2 ⟨trivial, h⟩)
  | .function decl, scope => by
    rw [lowerStmt]
    exact (lowerFunction_traced site decl).bind fun stmt h => gives_pure h
  | .classDecl decl, scope => by
    rw [lowerStmt]
    exact (lowerClass_traced decl).bind fun stmt h => gives_pure h

/-- The statements of a list are lowered to traced ones. -/
theorem lowerStmts_traced (site : Site) :
    ∀ (stmts : List Syntax.Stmt) (scope : Scope),
      Gives (lowerStmts site scope stmts) fun r => Traced (Stmt.visitsAll r.1)
  | [], _ => by
    rw [lowerStmts]
    exact gives_pure traced_nil
  | stmt :: rest, scope => by
    rw [lowerStmts]
    exact (lowerStmt_traced site stmt scope).bind fun r hstmt =>
      (lowerStmts_traced site rest r.2).bind fun r hrest =>
        gives_pure (traced_append.2 ⟨hstmt, hrest⟩)

end

end ExpLang.Lowering
