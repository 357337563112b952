import ExpLang.Proofs.Scoping.Declarations
import ExpLang.Proofs.Slots.Statements
import ExpLang.Proofs.Tidying.Statements

/-!
# Statements are lowered by lexical scoping

A statement in a method is lowered in the scope that has the layers of its view. What it declares becomes
the next locals of the method, in the order of the source, so that the index of a declarator in the source
is the index of its local. Functions and classes inside of the statement have no part in this: the scope
around does not reach into them, and they declare nothing in the method around.
-/

namespace ExpLang.Lowering

open Resolved
open Syntax (View Declarator Occurrence)

variable {α : Type} {p : Syntax.Program} {policy : QueuePolicy} {s s' : State}
  {opened : MethodId → Prop} {m : MethodId} {site : Site} {view : View} {n : Nat}

/-! ## Where statements stand -/

/-- What is lowered stands in a method that has a number of locals so far, and a view is in scope. -/
structure Stands (p : Syntax.Program) (policy : QueuePolicy) (opened : MethodId → Prop)
    (m : MethodId) (site : Site) (view : View) (n : Nat) (s : State) : Prop where
  accounted : s.Accounted p policy (some m) opened
  fits : SiteFits m s.unit site
  scope : ScopeFits (some m) s.unit (viewScope site.owner m view)
  locals : (s.unit.getMethod m).locals.size = n

/-- A later state, where the method has some more locals, another view is in scope, and the uses of some
names are lowered. -/
structure Gains (p : Syntax.Program) (policy : QueuePolicy) (opened : MethodId → Prop)
    (m : MethodId) (site : Site) (view : View) (n : Nat) (ids : List Syntax.Ident)
    (uses : List Occurrence) (s s' : State) : Prop where
  stands : Stands p policy opened m site view (n + ids.length) s'
  adds : s.unit.AddsLocals (some m) ids s'.unit
  extends_unit : s.unit.Extends s'.unit
  names : AllScoped p policy site.owner m uses

variable {ids ids' : List Syntax.Ident} {uses uses' : List Occurrence} {view' : View} {s'' : State}

/-- What stands in a scope stands in a scope within it. -/
theorem Stands.inner (h : Stands p policy opened m site view n s) :
    Stands p policy opened m site view.inner n s := { h with scope := h.scope.child }

/-- The view before is still in scope in a later state, after what is in scope there. -/
theorem Gains.outer (h : Gains p policy opened m site view' n ids uses s s')
    (hs : Stands p policy opened m site view n s) :
    Gains p policy opened m site view n ids uses s s' where
  stands := { h.stands with scope := hs.scope.mono (hs.fits.bounds_le h.extends_unit) }
  adds := h.adds
  extends_unit := h.extends_unit
  names := h.names

/-- Gains made one after the other are gains together. -/
theorem Gains.trans (h : Gains p policy opened m site view n ids uses s s')
    (h' : Gains p policy opened m site view' (n + ids.length) ids' uses' s' s'') :
    Gains p policy opened m site view' n (ids ++ ids') (uses ++ uses') s s'' where
  stands := by
    rw [List.length_append, ← Nat.add_assoc]
    exact h'.stands
  adds := h.adds.trans h'.adds
  extends_unit := h.extends_unit.trans h'.extends_unit
  names := allScoped_append.2 ⟨h.names, h'.names⟩

/-- A step that makes no local. -/
theorem Stands.gains_nil (hs : Stands p policy opened m site view n s)
    (hacc : s'.Accounted p policy (some m) opened) (hadds : s.unit.AddsLocals (some m) [] s'.unit)
    (hextends : s.unit.Extends s'.unit) (hscoped : AllScoped p policy site.owner m uses) :
    Gains p policy opened m site view n [] uses s s' where
  stands := {
    accounted := hacc
    fits := hs.fits.extends hextends
    scope := hs.scope.mono (hs.fits.bounds_le hextends)
    locals := by
      have houtline := hadds.of_eq hs.fits.lt
      rw [Outline.declare_nil] at houtline
      rw [← MethodDef.length_locals_outline, houtline, MethodDef.length_locals_outline, hs.locals]
      rfl }
  adds := hadds
  extends_unit := hextends
  names := hscoped

/-- A step that changes types and findings only gains the uses that are scoped. -/
theorem Stands.retyped (hs : Stands p policy opened m site view n s) (h : s.Retyped s')
    (hscoped : AllScoped p policy site.owner m uses) :
    Gains p policy opened m site view n [] uses s s' := by
  have hfollows := h.follows hs.accounted.inRange
  exact hs.gains_nil (hs.accounted.same hfollows.inRange h.sameMethods) h.sameMethods.addsLocals
    hfollows.unit hscoped

/-- Types may change after a step. -/
theorem Gains.retyped (h : Gains p policy opened m site view n ids uses s s')
    (h' : s'.Retyped s'') : Gains p policy opened m site view n ids uses s s'' := by
  have hlater := h.trans (h.stands.retyped h' allScoped_nil)
  rwa [List.append_nil, List.append_nil] at hlater

/-- Standing still gains nothing. -/
theorem Stands.refl (hs : Stands p policy opened m site view n s) :
    Gains p policy opened m site view n [] [] s s := hs.retyped (.refl s) allScoped_nil

/-- An expression makes no local. -/
theorem lowerExpr_gains {e : Syntax.Expr}
    (hjob : Comes p policy (.expr site (viewScope site.owner m view) e) s)
    (hs : Stands p policy opened m site view n s) :
    Ensures (lowerExpr site (viewScope site.owner m view) e) s fun _ s' =>
      Gains p policy opened m site view n [] (e.occurrences view) s s' := by
  have hscope := hs.scope
  rw [← hs.fits.method] at hscope
  refine ((lowerExpr_within site e hs.accounted.inRange.unit hscope).toEnsures.and
    (lowerExpr_scoped hs.fits.method view e hjob)).mono ?_
  exact fun _ _ h => hs.retyped h.1.1 h.2

/-- An expression that may be missing. -/
theorem mapM_lowerExpr_gains (e : Option Syntax.Expr)
    (hjob : ∀ e', e = some e' → Comes p policy (.expr site (viewScope site.owner m view) e') s)
    (hs : Stands p policy opened m site view n s) :
    Ensures (e.mapM (lowerExpr site (viewScope site.owner m view))) s fun _ s' =>
      Gains p policy opened m site view n [] (e.elim [] (·.occurrences view)) s s' := by
  cases e with
  | none => exact ensures_pure hs.refl
  | some e =>
    change Ensures (lowerExpr site (viewScope site.owner m view) e >>= fun e' => pure (some e')) s _
    apply Ensures.bind (lowerExpr_gains (hjob e rfl) hs)
    exact fun _ _ h => ensures_pure h

/-! ## Variables -/

/-- Binding a local gives the next slot, declares it in the scope and adds it to the method. -/
theorem bindLocal_eq (m : MethodId) (scope : Scope) (id : Syntax.Ident) (type : TypeId) (s : State) :
    bindLocal m scope id type s = .ok (((s.unit.getMethod m).locals.size,
      scope.add id.name (.localVar (s.unit.getMethod m).locals.size)),
      { s with unit := s.unit.modifyMethod m fun _ =>
        ((s.unit.getMethod m).addLocal id.name type id.span).2 }) := rfl

/-- The local of a declarator has the index of the declarator, which is in scope from then on. -/
theorem bindLocal_gains (hs : Stands p policy opened m site view n s) (id : Syntax.Ident)
    (type : TypeId) :
    Ensures (bindLocal m (viewScope site.owner m view) id type) s fun r s' =>
      r = (n, viewScope site.owner m (view.add ⟨id, n⟩)) ∧
        Gains p policy opened m site (view.add ⟨id, n⟩) n [id] [] s s' := by
  refine ⟨fun r s' hrun => ?_⟩
  obtain ⟨hfollows, -, hscope⟩ :=
    (bindLocal_within hs.fits.lt hs.accounted.inRange hs.scope id type).of_run r s' hrun
  rw [bindLocal_eq] at hrun
  obtain ⟨rfl, rfl⟩ := Prod.mk.inj (Except.ok.inj hrun)
  have hadded := CodeUnit.getMethod_modifyMethod s.unit m m fun _ =>
    ((s.unit.getMethod m).addLocal id.name type id.span).2
  rw [if_pos ⟨rfl, hs.fits.lt⟩] at hadded
  have hadds : s.unit.AddsLocals (some m) [id] (s.unit.modifyMethod m fun _ =>
      ((s.unit.getMethod m).addLocal id.name type id.span).2) := by
    refine ⟨by simp [CodeUnit.modifyMethod], fun i hi => ?_⟩
    split
    · rename_i heq
      cases heq
      rw [hadded, MethodDef.outline_addLocal]
    · rename_i hne
      rw [CodeUnit.getMethod_modifyMethod, if_neg fun h => hne (congrArg some h.1)]
  have hsize : (s.unit.modifyMethod m fun _ =>
      ((s.unit.getMethod m).addLocal id.name type id.span).2).methods.size = s.unit.methods.size := by
    simp [CodeUnit.modifyMethod]
  rw [hs.locals] at hscope ⊢
  rw [viewScope_add]
  refine ⟨rfl, ⟨hs.accounted.keep hfollows.inRange hadds hsize rfl, hs.fits.extends hfollows.unit,
    viewScope_add _ ▸ hscope, ?_⟩, hadds, hfollows.unit, allScoped_nil⟩
  change ((s.unit.modifyMethod m _).getMethod m).locals.size = n + 1
  rw [hadded, MethodDef.addLocal, Array.size_push, hs.locals]

/-- An operator changes types only. -/
theorem lowerBinary_retyped (op : BinaryOp) (left right : Expr) (span : Span) :
    Ensures (lowerBinary op left right span) s fun _ s' => s.Retyped s' := by
  unfold lowerBinary
  apply ensures_ask_bind
  dsimp only
  -- which operand is bound makes no difference to what follows
  split
  all_goals
    apply Ensures.bind (unify_retyped _ _).toEnsures
    intro _ s₁ h₁
    apply ensures_ask_bind
    split
    · exact ensures_pure h₁
    · apply Ensures.bind (typeName_tidy _)
      rintro _ _ rfl
      apply Ensures.bind (typeName_tidy _)
      rintro _ _ rfl
      apply Ensures.bind (report_retyped _).toEnsures
      exact fun _ _ h₂ => ensures_pure (h₁.trans h₂)

/-- Assigning the first value of a local changes types and findings only. -/
theorem assignFirst_retyped (id : LocalId) (type : TypeId) (decl : Syntax.VarDecl)
    (init : Option Expr) :
    Ensures (assignFirst id type decl init) s fun _ s' => s.Retyped s' := by
  cases init with
  | none => exact ensures_pure (.refl s)
  | some value =>
    apply Ensures.bind (lowerBinary_retyped _ _ _ _)
    exact fun _ _ h => ensures_pure h

/-- A local that is bound after code which uses some names. -/
theorem Gains.bindLocal (h : Gains p policy opened m site view n [] uses s s')
    (hs : Stands p policy opened m site view' n s') (id : Syntax.Ident) (type : TypeId) :
    Ensures (bindLocal m (viewScope site.owner m view') id type) s' fun r s'' =>
      r = (n, viewScope site.owner m (view'.add ⟨id, n⟩)) ∧
        Gains p policy opened m site (view'.add ⟨id, n⟩) n [id] uses s s'' := by
  refine (bindLocal_gains hs id type).mono fun r s'' hstep => ⟨hstep.1, ?_⟩
  have hboth := h.trans hstep.2
  rwa [List.append_nil] at hboth

/-- One variable of a declaration. Its first value does not see it. -/
theorem lowerVar_gains {decl : Syntax.VarDecl} {rest : List Syntax.VarDecl}
    (hjob : Comes p policy (.vars site m (viewScope site.owner m view) (decl :: rest)) s)
    (hs : Stands p policy opened m site view n s) :
    Ensures (lowerVars site m (viewScope site.owner m view) [decl]) s fun r s' =>
      r.2 = viewScope site.owner m (view.add ⟨decl.name, n⟩) ∧
        Gains p policy opened m site (view.add ⟨decl.name, n⟩) n [decl.name]
          (decl.init.elim [] (·.occurrences view)) s s' := by
  rw [lowerVars_singleton]
  apply Ensures.bind (mapM_lowerExpr_gains decl.init (fun e he => hjob.varInit he) hs)
  intro init s₁ h₁
  apply Ensures.bind (declaredType_retyped decl.type).toEnsures
  intro type s₂ h₂
  apply Ensures.bind (settleType_retyped decl.type type init).toEnsures
  intro _ s₃ h₃
  have h₁₃ := h₁.retyped (h₂.trans h₃)
  apply Ensures.bind (h₁₃.bindLocal h₁₃.stands decl.name type)
  rintro _ s₄ ⟨rfl, h₄⟩
  apply Ensures.bind (assignFirst_retyped n type decl init)
  exact fun _ _ h₅ => ensures_pure ⟨rfl, h₄.retyped h₅⟩

/-- The variables of a declaration, each in scope after its declarator. -/
theorem lowerVars_gains (decls : List Syntax.VarDecl) {view : View} {n : Nat} {s : State}
    (hjob : Comes p policy (.vars site m (viewScope site.owner m view) decls) s)
    (hs : Stands p policy opened m site view n s) :
    Ensures (lowerVars site m (viewScope site.owner m view) decls) s fun r s' =>
      r.2 = viewScope site.owner m (view.declare n (decls.map (·.name))) ∧
        Gains p policy opened m site (view.declare n (decls.map (·.name))) n (decls.map (·.name))
          (Syntax.initOccurrences view n decls) s s' := by
  induction decls generalizing view n s with
  | nil => exact ensures_pure ⟨rfl, hs.refl⟩
  | cons decl rest ih =>
    rw [lowerVars_cons]
    apply Ensures.bind (lowerVar_gains hjob hs).ran
    rintro ⟨here, scope₁⟩ s₁ ⟨⟨hscope₁, h₁⟩, hrun⟩
    obtain rfl : scope₁ = _ := hscope₁
    apply Ensures.bind (ih (hjob.moreVars hrun) h₁.stands)
    rintro ⟨others, scope₂⟩ s₂ ⟨hscope₂, h₂⟩
    exact ensures_pure ⟨hscope₂, h₁.trans h₂⟩

/-- What a loop does before its body: the body sees the variable of the loop. -/
theorem loopHead_gains {name : Syntax.Ident} {iterable : Syntax.Expr} {span : Span}
    (hjob : Comes p policy (.expr site (viewScope site.owner m view) iterable) s)
    (hs : Stands p policy opened m site view n s) :
    Ensures (loopHead site (viewScope site.owner m view) name iterable span) s fun r s' =>
      r.1 = viewScope site.owner m (view.inner.add ⟨name, n⟩) ∧
        Gains p policy opened m site (view.inner.add ⟨name, n⟩) n [name]
          (iterable.occurrences view) s s' := by
  rw [loopHead_eq, Site.currentMethod, hs.fits.method]
  apply Ensures.bind (lowerExpr_gains hjob hs)
  intro iterable' s₁ h₁
  rw [pure_bind]
  apply Ensures.bind (loopElement_retyped iterable').toEnsures
  intro element s₂ h₂
  have h₁₂ := h₁.retyped h₂
  apply Ensures.bind (h₁₂.bindLocal h₁₂.stands.inner name element)
  rintro _ s₃ ⟨rfl, h₃⟩
  exact ensures_pure ⟨rfl, h₃⟩

/-! ## Statements -/

mutual

/-- The names that a statement uses are lowered to what they stand for, and what it declares becomes the
next locals. -/
theorem lowerStmt_gains :
    ∀ (stmt : Syntax.Stmt) {view : View} {n : Nat} {s : State},
      Stands p policy opened m site view n s →
      Comes p policy (.stmt site (viewScope site.owner m view) stmt) s →
      stmt.functions ⊆ Syntax.functionsAll p.body →
      Ensures (lowerStmt site (viewScope site.owner m view) stmt) s fun r s' =>
        r.2 = viewScope site.owner m (stmt.after view n) ∧
          Gains p policy opened m site (stmt.after view n) n stmt.declarators
            (stmt.occurrences view n) s s'
  | .empty span, _, _, _, hs, _, _ => by
    rw [lowerStmt]
    exact ensures_pure ⟨rfl, hs.refl⟩
  | .expr e span, _, _, _, hs, hjob, _ => by
    rw [lowerStmt]
    apply Ensures.bind (lowerExpr_gains (hjob.head rfl) hs)
    exact fun _ _ h => ensures_pure ⟨rfl, h⟩
  | .block body span, _, _, _, hs, hjob, hp => by
    rw [lowerStmt]
    rw [Syntax.Stmt.functions] at hp
    apply Ensures.bind (lowerStmts_gains body hs.inner hjob.block hp)
    rintro _ _ ⟨view', h⟩
    exact ensures_pure ⟨rfl, h.outer hs⟩
  | .ifElse cond thenBranch none span, _, _, _, hs, hjob, hp => by
    rw [lowerStmt]
    rw [Syntax.Stmt.functions] at hp
    apply Ensures.bind (lowerExpr_gains (hjob.head rfl) hs).ran
    rintro cond s₁ ⟨h₁, hrun⟩
    apply Ensures.bind (lowerStmt_gains thenBranch h₁.stands.inner (hjob.thenBranch hrun) hp)
    intro r s₂ hstep
    exact ensures_pure ⟨rfl, (h₁.trans hstep.2).outer hs⟩
  | .ifElse cond thenBranch (some elseBranch) span, _, _, _, hs, hjob, hp => by
    rw [lowerStmt]
    rw [Syntax.Stmt.functions, List.append_subset] at hp
    apply Ensures.bind (lowerExpr_gains (hjob.head rfl) hs).ran
    rintro cond s₁ ⟨h₁, hrun⟩
    apply Ensures.bind
      (lowerStmt_gains thenBranch h₁.stands.inner (hjob.thenBranch hrun) hp.1).ran
    rintro r s₂ ⟨⟨-, h₂⟩, hrunThen⟩
    have h₁₂ := (h₁.trans h₂).outer hs
    apply Ensures.bind
      (lowerStmt_gains elseBranch h₁₂.stands.inner (hjob.elseBranch hrun hrunThen) hp.2)
    intro r s₃ hstep
    exact ensures_pure ⟨rfl, (h₁₂.trans hstep.2).outer hs⟩
  | .whileLoop cond body span, _, _, _, hs, hjob, hp => by
    rw [lowerStmt]
    rw [Syntax.Stmt.functions] at hp
    apply Ensures.bind (lowerExpr_gains (hjob.head rfl) hs).ran
    rintro cond s₁ ⟨h₁, hrun⟩
    apply Ensures.bind (lowerStmt_gains body h₁.stands.inner (hjob.whileBody hrun) hp)
    intro r s₂ hstep
    exact ensures_pure ⟨rfl, (h₁.trans hstep.2).outer hs⟩
  | .forIn name iterable body span, _, _, _, hs, hjob, hp => by
    rw [lowerStmt, lowerFor_eq, bind_assoc]
    rw [Syntax.Stmt.functions] at hp
    apply Ensures.bind (loopHead_gains (hjob.head rfl) hs).ran
    rintro ⟨inner, loop⟩ s₁ ⟨⟨hinner, h₁⟩, hrun⟩
    obtain rfl : inner = _ := hinner
    simp only [bind_assoc, pure_bind]
    apply Ensures.bind (lowerStmt_gains body h₁.stands (hjob.forBody hrun) hp)
    intro r s₂ hstep
    exact ensures_pure ⟨rfl, (h₁.trans hstep.2).outer hs⟩
  | .ret value span, view, n, s, hs, hjob, _ => by
    rw [lowerStmt]
    have hvalues : ∀ e, value = some e →
        Comes p policy (.expr site (viewScope site.owner m view) e) s := by
      intro e he
      exact hjob.head (by rw [he]; rfl)
    apply Ensures.bind (mapM_lowerExpr_gains value hvalues hs)
    intro value' s₁ h₁
    apply ensures_currentMethod_bind
    intro method _
    apply ensures_ask_bind
    apply Ensures.bind (unify_retyped _ _).toEnsures
    intro _ s₂ h₂
    refine ensures_pure ⟨rfl, ?_⟩
    cases value with
    | none => exact h₁.retyped h₂
    | some e => exact h₁.retyped h₂
  | .vars decl, _, _, _, hs, hjob, _ => by
    rw [lowerStmt, Site.currentMethod, hs.fits.method]
    dsimp only
    rw [pure_bind]
    apply Ensures.bind (lowerVars_gains decl.decls (hjob.vars hs.fits.method) hs)
    rintro ⟨body, scope⟩ s₁ ⟨hscope, h₁⟩
    exact ensures_pure ⟨hscope, h₁⟩
  | .function decl, _, _, _, hs, hjob, hp => by
    rw [lowerStmt]
    have hdecl := hp (Syntax.mem_functions decl)
    apply Ensures.bind ((lowerFunction_follows hs.accounted.inRange hs.fits.owner decl).toEnsures.and
      (lowerFunction_accounted hjob hs.accounted hs.fits.owner hdecl))
    rintro stmt s₁ ⟨⟨hfollows, -⟩, hadds, h₁⟩
    exact ensures_pure ⟨rfl, hs.gains_nil h₁ hadds.weaken hfollows.unit allScoped_nil⟩
  | .classDecl decl, _, _, _, hs, hjob, hp => by
    rw [lowerStmt]
    have hdecl : Syntax.memberFunctions decl.members ⊆ Syntax.functionsAll p.body := by
      obtain ⟨name, members, span⟩ := decl
      rwa [Syntax.Stmt.functions] at hp
    apply Ensures.bind ((lowerClass_follows hs.accounted.inRange decl).toEnsures.and
      (lowerClass_accounted hjob hs.accounted hdecl))
    rintro stmt s₁ ⟨⟨hfollows, -⟩, hadds, h₁⟩
    exact ensures_pure ⟨rfl, hs.gains_nil h₁ hadds.weaken hfollows.unit allScoped_nil⟩

/-- The same of statements one after the other. -/
theorem lowerStmts_gains :
    ∀ (stmts : List Syntax.Stmt) {view : View} {n : Nat} {s : State},
      Stands p policy opened m site view n s →
      Comes p policy (.stmts site (viewScope site.owner m view) stmts) s →
      Syntax.functionsAll stmts ⊆ Syntax.functionsAll p.body →
      Ensures (lowerStmts site (viewScope site.owner m view) stmts) s fun _ s' =>
        ∃ view', Gains p policy opened m site view' n (Syntax.declaratorsAll stmts)
          (Syntax.occurrencesAll view n stmts) s s'
  | [], view, _, _, hs, _, _ => by
    rw [lowerStmts]
    exact ensures_pure ⟨view, hs.refl⟩
  | stmt :: rest, _, _, _, hs, hjob, hp => by
    rw [lowerStmts]
    rw [Syntax.functionsAll, List.append_subset] at hp
    apply Ensures.bind (lowerStmt_gains stmt hs hjob.stmt hp.1).ran
    rintro ⟨stmt', scope⟩ s₁ ⟨⟨hscope, h₁⟩, hrun⟩
    obtain rfl : scope = _ := hscope
    apply Ensures.bind (lowerStmts_gains rest h₁.stands (hjob.moreStmts hrun) hp.2)
    rintro r s₂ ⟨view', h₂⟩
    exact ensures_pure ⟨view', h₁.trans h₂⟩

end

end ExpLang.Lowering
