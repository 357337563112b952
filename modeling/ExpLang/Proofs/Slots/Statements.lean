import ExpLang.Proofs.Lowering.Jobs
import ExpLang.Proofs.Slots.Declarations

/-!
# Lowered statements name only what there is

A statement stands in a method. Each variable that it declares gets the next local of that method, and
the scope after it knows this local. A function or a class inside of it is declared and lowered with a
frame of its own, and leaves the locals of the method around as they are.
-/

namespace ExpLang.Lowering

open Resolved

variable {s s' : State}

/-- Statements stand in a class and in a method of the unit. -/
structure SiteFits (m : MethodId) (u : CodeUnit) (site : Site) : Prop where
  owner : site.owner < u.classes.size
  method : site.method = some m
  lt : m < u.methods.size

section Sites

variable {m : MethodId} {u u' : CodeUnit} {site : Site} {scope : Scope} {code : List Visit}

/-- A site that fits a unit fits a later one. -/
theorem SiteFits.extends (h : SiteFits m u site) (hextends : u.Extends u') : SiteFits m u' site :=
  ⟨Nat.lt_of_lt_of_le h.owner hextends.classes, h.method, Nat.lt_of_lt_of_le h.lt hextends.methods⟩

/-- The bounds at a site grow with the unit. -/
theorem SiteFits.bounds_le (h : SiteFits m u site) (hextends : u.Extends u') :
    (u.bounds (some m)).Le (u'.bounds (some m)) := by
  refine hextends.bounds_le fun i hi => ?_
  cases hi
  exact h.lt

/-- An expression at the place of a statement. -/
theorem SiteFits.lowerExpr (h : SiteFits m s.unit site) (hs : s.InRange)
    (hscope : ScopeFits (some m) s.unit scope) (e : Syntax.Expr) :
    Meets (lowerExpr site scope e) s fun e' s' =>
      s.Follows 0 s' ∧ CodeWithin (s'.unit.bounds (some m)) e'.visits := by
  have hexpr := lowerExpr_within site e hs.unit (h.method ▸ hscope)
  rw [h.method] at hexpr
  exact hexpr.mono fun _ _ h' => ⟨h'.1.follows hs, h'.1.bounds_eq _ ▸ h'.2⟩

/-- An expression that may be missing. -/
theorem SiteFits.mapM_lowerExpr (h : SiteFits m s.unit site) (hs : s.InRange)
    (hscope : ScopeFits (some m) s.unit scope) (e : Option Syntax.Expr) :
    Meets (e.mapM (Lowering.lowerExpr site scope)) s fun e' s' => s.Follows 0 s' ∧
      CodeWithin (s'.unit.bounds (some m)) (e'.elim [] Expr.visits) := by
  cases e with
  | none => exact meets_pure ⟨hs.follows, codeWithin_nil⟩
  | some e =>
    change Meets (Lowering.lowerExpr site scope e >>= fun e' => pure (some e')) s _
    apply Meets.bind (h.lowerExpr hs hscope e)
    exact fun _ _ h => meets_pure h

end Sites

/-- A new local is the last one of its method, and its name is in scope. -/
theorem bindLocal_within {m : MethodId} (hm : m < s.unit.methods.size) (hs : s.InRange)
    {scope : Scope} (hscope : ScopeFits (some m) s.unit scope) (name : Syntax.Ident) (type : TypeId) :
    Meets (bindLocal m scope name type) s fun r s' => s.Follows 0 s' ∧
      r.1 < (s'.unit.bounds (some m)).locals ∧ ScopeFits (some m) s'.unit r.2 := by
  have hunit := hs.unit.addLocal (i := m) name.name type name.span
  have hadded := CodeUnit.getMethod_modifyMethod s.unit m m fun _ =>
    ((s.unit.getMethod m).addLocal name.name type name.span).2
  rw [if_pos ⟨rfl, hm⟩] at hadded
  have hlocal : (s.unit.getMethod m).locals.size < ((s.unit.modifyMethod m fun _ =>
      ((s.unit.getMethod m).addLocal name.name type name.span).2).bounds (some m)).locals := by
    rw [CodeUnit.bounds, hadded]
    simp [MethodDef.bounds, MethodDef.addLocal]
  have hle : (s.unit.bounds (some m)).Le ((s.unit.modifyMethod m fun _ =>
      ((s.unit.getMethod m).addLocal name.name type name.span).2).bounds (some m)) := by
    refine hunit.2.bounds_le fun i hi => ?_
    cases hi
    exact hm
  refine ⟨⟨fun r s' hrun => ?_⟩, fun halt hrun => by cases hrun⟩
  cases hrun
  exact ⟨hs.withUnit hunit, hlocal, (hscope.mono hle).add _ hlocal⟩

/-- A step that gives statements makes at most `n` more functions wait, and all that the statements
name is there. -/
def GivesStmtsWithin (m : MethodId) (n : Nat) (s : State) (x : Lower (List Stmt × Scope)) : Prop :=
  Meets x s fun r s' => s.Follows n s' ∧
    CodeWithin (s'.unit.bounds (some m)) (Stmt.visitsAll r.1) ∧ ScopeFits (some m) s'.unit r.2

/-- Settling the type of a local changes types and findings only. -/
theorem settleType_retyped (written : Option Syntax.TypeRef) (type : TypeId) (init : Option Expr) :
    Meets (settleType written type init) s fun _ s' => s.Retyped s' := by
  unfold settleType
  split
  · exact unify_retyped _ _
  · exact meets_pure (.refl s)

/-- The assignment of its first value to a local. -/
theorem assignFirst_within {m : MethodId} {id : LocalId}
    (hid : id < (s.unit.bounds (some m)).locals) (type : TypeId) (decl : Syntax.VarDecl)
    {init : Option Expr} (hinit : CodeWithin (s.unit.bounds (some m)) (init.elim [] Expr.visits)) :
    Meets (assignFirst id type decl init) s fun here s' =>
      s.Retyped s' ∧ CodeWithin (s.unit.bounds (some m)) (Stmt.visitsAll here) := by
  cases init with
  | none => exact meets_pure ⟨.refl s, codeWithin_nil⟩
  | some value =>
    have htarget : CodeWithin (s.unit.bounds (some m))
        (Expr.localVar id ⟨type, decl.name.span⟩).visits :=
      codeWithin_cons.2 ⟨hid, codeWithin_nil⟩
    apply Meets.bind (lowerBinary_within .assign htarget hinit decl.span)
    intro assignment s₁ hstep
    obtain ⟨h₁, hassignment⟩ := hstep
    exact meets_pure ⟨h₁,
      codeWithin_append.2 ⟨codeWithin_cons.2 ⟨trivial, hassignment⟩, codeWithin_nil⟩⟩

/-- One variable of a declaration. -/
theorem lowerVar_within {m : MethodId} {site : Site} (hs : s.InRange)
    (hsite : SiteFits m s.unit site) {scope : Scope} (hscope : ScopeFits (some m) s.unit scope)
    (decl : Syntax.VarDecl) : GivesStmtsWithin m 0 s (lowerVars site m scope [decl]) := by
  rw [lowerVars_singleton]
  apply Meets.bind (hsite.mapM_lowerExpr hs hscope decl.init)
  intro init s₁ hstep
  obtain ⟨h₁, hinit⟩ := hstep
  apply Meets.bind (declaredType_retyped decl.type)
  intro type s₂ h₂
  apply Meets.bind (settleType_retyped decl.type type init)
  intro _ s₃ h₃
  have h₁₃ := (h₂.trans h₃).follows h₁.inRange
  have hsite₁ := hsite.extends h₁.unit
  have hscope₃ := (h₂.trans h₃).scopeFits (hscope.mono (hsite.bounds_le h₁.unit))
  apply Meets.bind
    (bindLocal_within (hsite₁.extends h₁₃.unit).lt h₁₃.inRange hscope₃ decl.name type)
  intro r s₄ hstep
  obtain ⟨id, inner⟩ := r
  obtain ⟨h₄, hid, hinner⟩ := hstep
  have hinit₄ := hinit.mono (hsite₁.bounds_le (h₁₃.unit.trans h₄.unit))
  apply Meets.bind (assignFirst_within hid type decl hinit₄)
  intro here s₅ hstep
  obtain ⟨h₅, hhere⟩ := hstep
  refine meets_pure ⟨h₁.trans (h₁₃.trans (h₄.trans (h₅.follows h₄.inRange))), ?_,
    h₅.scopeFits hinner⟩
  rw [h₅.bounds_eq]
  exact hhere

/-- The variables of a declaration. -/
theorem lowerVars_within {m : MethodId} {site : Site} (decls : List Syntax.VarDecl)
    {s : State} (hs : s.InRange) (hsite : SiteFits m s.unit site) {scope : Scope}
    (hscope : ScopeFits (some m) s.unit scope) :
    GivesStmtsWithin m 0 s (lowerVars site m scope decls) := by
  induction decls generalizing s scope with
  | nil => exact meets_pure ⟨hs.follows, codeWithin_nil, hscope⟩
  | cons decl rest ih =>
    rw [lowerVars_cons]
    apply Meets.bind (lowerVar_within hs hsite hscope decl)
    intro r s₁ hstep
    obtain ⟨here, scope₁⟩ := r
    obtain ⟨h₁, hhere, hscope₁⟩ := hstep
    have hsite₁ := hsite.extends h₁.unit
    apply Meets.bind (ih h₁.inRange hsite₁ hscope₁)
    intro r s₂ hstep
    obtain ⟨others, scope₂⟩ := r
    obtain ⟨h₂, hothers, hscope₂⟩ := hstep
    refine meets_pure ⟨h₁.trans h₂, ?_, hscope₂⟩
    rw [Stmt.visitsAll_append, codeWithin_append]
    exact ⟨hhere.mono (hsite₁.bounds_le h₂.unit), hothers⟩

/-- Finding the type of an element changes types and findings only. -/
theorem loopElement_retyped (iterable : Expr) :
    Meets (loopElement iterable) s fun _ s' => s.Retyped s' := by
  unfold loopElement elementType
  split
  · exact meets_pure (.refl s)
  · apply meets_ask_bind
    dsimp only
    split
    · apply Meets.bind (reportFirm_retyped _ _)
      exact fun _ _ h => meets_pure h
    · exact meets_pure (.refl s)

/-- A loop names its local, and what its expression and its body name. -/
theorem loopAround_within {b : Bounds} {var : LocalId} {iterable : Expr} {body : Stmt} (span : Span)
    (hvar : var < b.locals) (hiterable : CodeWithin b iterable.visits)
    (hbody : CodeWithin b body.visits) :
    CodeWithin b (loopAround var iterable span body).visits := by
  unfold loopAround
  split
  · split
    · exact codeWithin_cons.2 ⟨hvar, hbody⟩
    · have hrange := (codeWithin_cons.1 hiterable).2
      exact codeWithin_cons.2 ⟨hvar, codeWithin_append.2 ⟨hrange, hbody⟩⟩
  · exact codeWithin_cons.2 ⟨hvar, codeWithin_append.2 ⟨hiterable, hbody⟩⟩

/-- What a loop does before its body: the body sees the local of the loop. -/
theorem loopHead_within {m : MethodId} {site : Site} (hs : s.InRange)
    (hsite : SiteFits m s.unit site) {scope : Scope} (hscope : ScopeFits (some m) s.unit scope)
    (name : Syntax.Ident) (iterable : Syntax.Expr) (span : Span) :
    Meets (loopHead site scope name iterable span) s fun r s' => s.Follows 0 s' ∧
      ScopeFits (some m) s'.unit r.1 ∧ ∀ b body, (s'.unit.bounds (some m)).Le b →
        CodeWithin b body.visits → CodeWithin b (r.2 body).visits := by
  rw [loopHead_eq]
  apply Meets.bind (hsite.lowerExpr hs hscope iterable)
  intro iterable s₁ hstep
  obtain ⟨h₁, hiterable⟩ := hstep
  apply meets_currentMethod_bind hsite.method
  apply Meets.bind (loopElement_retyped iterable)
  intro element s₂ h₂
  have h₁₂ := h₂.follows h₁.inRange
  have hsite₁ := hsite.extends h₁.unit
  have hscope₂ := h₂.scopeFits (hscope.mono (hsite.bounds_le h₁.unit)).child
  apply Meets.bind
    (bindLocal_within (hsite₁.extends h₁₂.unit).lt h₁₂.inRange hscope₂ name element)
  intro r s₃ hstep
  obtain ⟨var, inner⟩ := r
  obtain ⟨h₃, hvar, hinner⟩ := hstep
  refine meets_pure ⟨h₁.trans (h₁₂.trans h₃), hinner, fun b body hle hbody => ?_⟩
  have hiterable₃ := hiterable.mono (hsite₁.bounds_le (h₁₂.unit.trans h₃.unit))
  exact loopAround_within span (Nat.lt_of_lt_of_le hvar hle.locals) (hiterable₃.mono hle) hbody

/-! ## Statements -/

/-- A statement under a condition, in a scope of its own. What comes after it is at the same place, with
the scope from before the condition. -/
theorem SiteFits.guarded {m : MethodId} {site : Site} {scope : Scope} {n : Nat} {β : Type}
    {x : Lower (Stmt × Scope)} {f : Expr → Stmt × Scope → Lower β} {Q : β → State → Prop}
    (hsite : SiteFits m s.unit site) (hs : s.InRange) (hscope : ScopeFits (some m) s.unit scope)
    (cond : Syntax.Expr)
    (hx : ∀ {s' : State}, s'.InRange → SiteFits m s'.unit site →
      ScopeFits (some m) s'.unit scope.child → Meets x s' fun r s'' => s'.Follows n s'' ∧
        CodeWithin (s''.unit.bounds (some m)) r.1.visits ∧ ScopeFits (some m) s''.unit r.2)
    (hf : ∀ cond r s', s.Follows n s' →
      CodeWithin (s'.unit.bounds (some m)) (cond.visits ++ r.1.visits) → SiteFits m s'.unit site →
      ScopeFits (some m) s'.unit scope → Meets (f cond r) s' Q) :
    Meets (Lowering.lowerExpr site scope cond >>= fun cond => x >>= f cond) s Q := by
  apply Meets.bind (hsite.lowerExpr hs hscope cond)
  intro cond s₁ hstep
  obtain ⟨h₁, hcond⟩ := hstep
  have hsite₁ := hsite.extends h₁.unit
  have hscope₁ := hscope.mono (hsite.bounds_le h₁.unit)
  apply Meets.bind (hx h₁.inRange hsite₁ hscope₁.child)
  intro r s₂ hstep
  obtain ⟨h₂, hr, -⟩ := hstep
  have hle := hsite₁.bounds_le h₂.unit
  exact hf cond r s₂ ((h₁.trans h₂).weaken (Nat.le_of_eq (Nat.zero_add _)))
    (codeWithin_append.2 ⟨hcond.mono hle, hr⟩) (hsite₁.extends h₂.unit) (hscope₁.mono hle)

mutual

/-- All that a lowered statement names is there, and at most its functions come to wait. -/
theorem lowerStmt_within {m : MethodId} (site : Site) :
    ∀ (stmt : Syntax.Stmt) {s : State} {scope : Scope}, s.InRange → SiteFits m s.unit site →
      ScopeFits (some m) s.unit scope →
      Meets (lowerStmt site scope stmt) s fun r s' => s.Follows stmt.functionCount s' ∧
        CodeWithin (s'.unit.bounds (some m)) r.1.visits ∧ ScopeFits (some m) s'.unit r.2
  | .empty span, _, _, hs, _, hscope => by
    rw [lowerStmt]
    exact meets_pure ⟨hs.follows, codeWithin_cons.2 ⟨trivial, codeWithin_nil⟩, hscope⟩
  | .expr e span, _, _, hs, hsite, hscope => by
    rw [lowerStmt]
    apply Meets.bind (hsite.lowerExpr hs hscope e)
    intro e s₁ hstep
    obtain ⟨h₁, he⟩ := hstep
    exact meets_pure ⟨h₁, codeWithin_cons.2 ⟨trivial, he⟩, hscope.mono (hsite.bounds_le h₁.unit)⟩
  | .block body span, _, _, hs, hsite, hscope => by
    rw [lowerStmt]
    apply Meets.bind (lowerStmts_within site body hs hsite hscope.child)
    intro r s₁ hstep
    obtain ⟨h₁, hbody, -⟩ := hstep
    rw [Syntax.Stmt.functionCount]
    exact meets_pure ⟨h₁, codeWithin_cons.2 ⟨trivial, hbody⟩,
      hscope.mono (hsite.bounds_le h₁.unit)⟩
  | .ifElse cond thenBranch none span, _, _, hs, hsite, hscope => by
    rw [lowerStmt, Syntax.Stmt.functionCount]
    refine hsite.guarded hs hscope cond (lowerStmt_within site thenBranch) ?_
    intro cond r s₁ h₁ hcode _ hscope₁
    exact meets_pure ⟨h₁, codeWithin_cons.2 ⟨trivial, hcode⟩, hscope₁⟩
  | .ifElse cond thenBranch (some elseBranch) span, _, _, hs, hsite, hscope => by
    rw [lowerStmt, Syntax.Stmt.functionCount]
    refine hsite.guarded hs hscope cond (lowerStmt_within site thenBranch) ?_
    intro cond r s₁ h₁ hcode hsite₁ hscope₁
    apply Meets.bind (lowerStmt_within site elseBranch h₁.inRange hsite₁ hscope₁.child)
    intro r s₂ hstep
    obtain ⟨h₂, helse, -⟩ := hstep
    have hle := hsite₁.bounds_le h₂.unit
    refine meets_pure ⟨h₁.trans h₂, ?_, hscope₁.mono hle⟩
    exact codeWithin_cons.2 ⟨trivial, codeWithin_append.2 ⟨hcode.mono hle, helse⟩⟩
  | .whileLoop cond body span, _, _, hs, hsite, hscope => by
    rw [lowerStmt, Syntax.Stmt.functionCount]
    refine hsite.guarded hs hscope cond (lowerStmt_within site body) ?_
    intro cond r s₁ h₁ hcode _ hscope₁
    exact meets_pure ⟨h₁, codeWithin_cons.2 ⟨trivial, hcode⟩, hscope₁⟩
  | .forIn name iterable body span, _, _, hs, hsite, hscope => by
    rw [lowerStmt, lowerFor_eq, bind_assoc]
    apply Meets.bind (loopHead_within hs hsite hscope name iterable span)
    intro r s₁ hstep
    obtain ⟨inner, loop⟩ := r
    obtain ⟨h₁, hinner, hloop⟩ := hstep
    have hsite₁ := hsite.extends h₁.unit
    simp only [bind_assoc, pure_bind]
    apply Meets.bind (lowerStmt_within site body h₁.inRange hsite₁ hinner)
    intro r s₂ hstep
    obtain ⟨h₂, hbody, -⟩ := hstep
    have hle := hsite₁.bounds_le h₂.unit
    rw [Syntax.Stmt.functionCount]
    exact meets_pure ⟨(h₁.trans h₂).weaken (Nat.le_of_eq (Nat.zero_add _)), hloop _ _ hle hbody,
      (hscope.mono (hsite.bounds_le h₁.unit)).mono hle⟩
  | .ret value span, _, _, hs, hsite, hscope => by
    rw [lowerStmt]
    apply Meets.bind (hsite.mapM_lowerExpr hs hscope value)
    intro value s₁ hstep
    obtain ⟨h₁, hvalue⟩ := hstep
    apply meets_currentMethod_bind hsite.method
    apply meets_ask_bind
    apply Meets.bind (unify_retyped _ _)
    intro _ s₂ h₂
    refine meets_pure ⟨h₁.trans (h₂.follows h₁.inRange), ?_,
      h₂.scopeFits (hscope.mono (hsite.bounds_le h₁.unit))⟩
    rw [h₂.bounds_eq]
    cases value with
    | none => exact codeWithin_cons.2 ⟨trivial, codeWithin_nil⟩
    | some value => exact codeWithin_cons.2 ⟨trivial, hvalue⟩
  | .vars decl, _, _, hs, hsite, hscope => by
    rw [lowerStmt]
    apply meets_currentMethod_bind hsite.method
    apply Meets.bind (lowerVars_within decl.decls hs hsite hscope)
    intro r s₁ hstep
    obtain ⟨h₁, hbody, hscope₁⟩ := hstep
    exact meets_pure ⟨h₁, codeWithin_cons.2 ⟨trivial, hbody⟩, hscope₁⟩
  | .function decl, _, _, hs, hsite, hscope => by
    rw [lowerStmt]
    apply Meets.bind (lowerFunction_follows hs hsite.owner decl)
    intro stmt s₁ hstep
    obtain ⟨h₁, rfl⟩ := hstep
    exact meets_pure ⟨h₁, codeWithin_cons.2 ⟨trivial, codeWithin_nil⟩,
      hscope.mono (hsite.bounds_le h₁.unit)⟩
  | .classDecl decl, _, _, hs, hsite, hscope => by
    rw [lowerStmt]
    apply Meets.bind (lowerClass_follows hs decl)
    intro stmt s₁ hstep
    obtain ⟨h₁, rfl⟩ := hstep
    exact meets_pure ⟨h₁, codeWithin_cons.2 ⟨trivial, codeWithin_nil⟩,
      hscope.mono (hsite.bounds_le h₁.unit)⟩

/-- The same of statements one after the other. -/
theorem lowerStmts_within {m : MethodId} (site : Site) :
    ∀ (stmts : List Syntax.Stmt) {s : State} {scope : Scope}, s.InRange → SiteFits m s.unit site →
      ScopeFits (some m) s.unit scope →
      GivesStmtsWithin m (Syntax.functionCounts stmts) s (lowerStmts site scope stmts)
  | [], _, _, hs, _, hscope => by
    rw [lowerStmts]
    exact meets_pure ⟨hs.follows, codeWithin_nil, hscope⟩
  | stmt :: rest, _, _, hs, hsite, hscope => by
    rw [lowerStmts]
    apply Meets.bind (lowerStmt_within site stmt hs hsite hscope)
    intro r s₁ hstep
    obtain ⟨stmt, scope₁⟩ := r
    obtain ⟨h₁, hstmt, hscope₁⟩ := hstep
    have hsite₁ := hsite.extends h₁.unit
    apply Meets.bind (lowerStmts_within site rest h₁.inRange hsite₁ hscope₁)
    intro r s₂ hstep
    obtain ⟨rest, scope₂⟩ := r
    obtain ⟨h₂, hrest, hscope₂⟩ := hstep
    rw [Syntax.functionCounts]
    exact meets_pure ⟨h₁.trans h₂,
      codeWithin_append.2 ⟨hstmt.mono (hsite₁.bounds_le h₂.unit), hrest⟩, hscope₂⟩

end

end ExpLang.Lowering
