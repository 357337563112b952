import ExpLang.Lowering.Stmt
import ExpLang.Proofs.Lowering.Declarations

/-!
# Lowering of statements keeps a unit in order

A variable without a type takes an open hole, which its local then has. Statements only bring locals
into scope, so that the members that names stand for are still those of the unit.
-/

namespace ExpLang.Lowering

open Resolved

variable {holes : TypeId → Prop} {bodies : MethodId → Prop} {s s' : State}

/-- Code stands in a class and in a method of the unit. -/
structure Site.Valid (site : Site) (u : CodeUnit) : Prop where
  owner : site.owner < u.classes.size
  method : ∀ m, site.method = some m → m < u.methods.size

/-- A site of a unit is one of a later unit. -/
theorem Site.Valid.grows {site : Site} {u u' : CodeUnit} (h : site.Valid u) (hgrows : u.Grows u') :
    site.Valid u' :=
  ⟨Nat.lt_of_lt_of_le h.owner hgrows.classes_le,
    fun m hm => Nat.lt_of_lt_of_le (h.method m hm) hgrows.methods_le⟩

/-- A new local has its type, which is open no longer. -/
theorem bindLocal_ensures {type : TypeId} (hs : s.Sound (fun t => t = type ∨ holes t) bodies)
    {method : MethodId} (hmethod : method < s.unit.methods.size) {scope : Scope}
    (hscope : LocalScope scope) (name : Syntax.Ident) :
    Ensures (bindLocal method scope name type) s
      fun r s' => s.Reaches holes bodies s' ∧ LocalScope r.2 := by
  unfold bindLocal
  apply ensures_ask_bind
  have hu := hs.unit.mono (fun _ => or_assoc.1) (fun _ h => h)
  obtain ⟨hu, hgrows⟩ := hu.addLocal hmethod name.name name.span
  apply Ensures.bind (R := fun _ s' => s.Reaches holes bodies s')
  · exact ensures_modifyUnit (hs.withUnit hgrows hu)
  · exact fun _ _ h => ensures_pure ⟨h, hscope.add _ _⟩

/-- An expression that may be missing. -/
theorem mapM_lowerExpr_ensures (hs : s.Sound holes bodies) (site : Site) {scope : Scope}
    (hscope : LocalScope scope) (e : Option Syntax.Expr) :
    Ensures (e.mapM (lowerExpr site scope)) s fun e' s' =>
      s.Reaches holes bodies s' ∧ Below (e'.elim [] Expr.methods) s'.unit.methods.size := by
  cases e with
  | none => exact ensures_pure ⟨hs.reaches, below_nil⟩
  | some e =>
    change Ensures (lowerExpr site scope e >>= fun e' => pure (some e')) s _
    apply Ensures.bind (lowerExpr_gives site hscope e hs)
    exact fun _ _ h => ensures_pure h

/-- A step that gives statements reaches a sound state in which they are in order, and brings only
locals into scope. -/
def GivesStmts (holes : TypeId → Prop) (bodies : MethodId → Prop) (s : State)
    (x : Lower (List Stmt × Scope)) : Prop :=
  Ensures x s fun r s' => s.Reaches holes bodies s' ∧
    Below (Stmt.methodsAll r.1) s'.unit.methods.size ∧ LocalScope r.2

/-- The methods named in two lists of statements are those of the first and then those of the second. -/
theorem Stmt.methodsAll_append (body rest : List Stmt) :
    Stmt.methodsAll (body ++ rest) = Stmt.methodsAll body ++ Stmt.methodsAll rest := by
  induction body with
  | nil => rfl
  | cons s body ih =>
    rw [List.cons_append, Stmt.methodsAll, Stmt.methodsAll, ih, List.append_assoc]

/-- A variable gets the type of its first value. -/
theorem settleType_ensures (hs : s.Sound holes bodies) (written : Option Syntax.TypeRef)
    (type : TypeId) (init : Option Expr) :
    Ensures (settleType written type init) s fun _ s' => s.Reaches holes bodies s' := by
  unfold settleType
  split
  · exact unify_ensures hs _ _
  · exact ensures_pure hs.reaches

/-- The assignment of a first value. -/
theorem assignFirst_ensures (hs : s.Sound holes bodies) (id : LocalId) (type : TypeId)
    (decl : Syntax.VarDecl) {init : Option Expr}
    (hinit : Below (init.elim [] Expr.methods) s.unit.methods.size) :
    Ensures (assignFirst id type decl init) s fun here s' =>
      s.Reaches holes bodies s' ∧ Below (Stmt.methodsAll here) s'.unit.methods.size := by
  cases init with
  | none => exact ensures_pure ⟨hs.reaches, below_nil⟩
  | some value =>
    have hlocal : Below (Expr.localVar id ⟨type, decl.name.span⟩).methods s.unit.methods.size :=
      below_nil
    apply Ensures.bind (lowerBinary_gives hs .assign hlocal hinit decl.span)
    intro assignment s₁ hstep
    obtain ⟨h₁, hassignment⟩ := hstep
    exact ensures_pure ⟨h₁, below_append.2 ⟨hassignment, below_nil⟩⟩

/-- One variable of a declaration. -/
theorem lowerVar_gives (site : Site) {method : MethodId} (decl : Syntax.VarDecl) {scope : Scope}
    (hscope : LocalScope scope) (hs : s.Sound holes bodies)
    (hmethod : method < s.unit.methods.size) :
    GivesStmts holes bodies s (lowerVars site method scope [decl]) := by
  rw [lowerVars_singleton]
  apply Ensures.bind (mapM_lowerExpr_ensures hs site hscope decl.init)
  intro init s₁ hstep
  obtain ⟨h₁, hinit⟩ := hstep
  apply Ensures.bind (declaredType_ensures h₁.sound decl.type)
  intro type s₂ h₂
  apply Ensures.bind (settleType_ensures h₂.sound decl.type type init)
  intro _ s₃ h₃
  have hgrows := h₂.grows.trans h₃.grows
  have hmethod₃ := Nat.lt_of_lt_of_le hmethod (h₁.grows.trans hgrows).methods_le
  apply Ensures.bind (bindLocal_ensures h₃.sound hmethod₃ hscope decl.name)
  intro r s₄ hstep
  obtain ⟨id, inner⟩ := r
  obtain ⟨h₄, hinner⟩ := hstep
  apply Ensures.bind
    (assignFirst_ensures h₄.sound id type decl (hinit.mono (hgrows.trans h₄.grows).methods_le))
  intro here s₅ hstep
  obtain ⟨h₅, hhere⟩ := hstep
  exact ensures_pure ⟨h₁.trans ((h₂.trans h₃).trans h₄ |>.trans h₅), hhere, hinner⟩

/-- The variables of a declaration. -/
theorem lowerVars_gives (site : Site) {method : MethodId} (decls : List Syntax.VarDecl)
    {scope : Scope} (hscope : LocalScope scope) {s : State} (hs : s.Sound holes bodies)
    (hmethod : method < s.unit.methods.size) :
    GivesStmts holes bodies s (lowerVars site method scope decls) := by
  induction decls generalizing s scope with
  | nil => exact ensures_pure ⟨hs.reaches, below_nil, hscope⟩
  | cons decl rest ih =>
    rw [lowerVars_cons]
    apply Ensures.bind (lowerVar_gives site decl hscope hs hmethod)
    intro r s₁ hstep
    obtain ⟨here, scope₁⟩ := r
    obtain ⟨h₁, hhere, hscope₁⟩ := hstep
    apply Ensures.bind (ih hscope₁ h₁.sound (Nat.lt_of_lt_of_le hmethod h₁.grows.methods_le))
    intro r s₂ hstep
    obtain ⟨others, scope₂⟩ := r
    obtain ⟨h₂, hothers, hscope₂⟩ := hstep
    refine ensures_pure ⟨h₁.trans h₂, ?_, hscope₂⟩
    rw [Stmt.methodsAll_append, below_append]
    exact ⟨hhere.mono h₂.grows.methods_le, hothers⟩

/-- The type of the variable of a loop. -/
theorem loopElement_ensures (hs : s.Sound holes bodies) (iterable : Expr) :
    Ensures (loopElement iterable) s fun _ s' => s.Reaches holes bodies s' := by
  unfold loopElement elementType
  split
  · exact ensures_pure hs.reaches
  · apply ensures_ask_bind
    dsimp only
    split
    · apply Ensures.bind (reportFirm_ensures hs _ _)
      exact fun _ _ h => ensures_pure h
    · exact ensures_pure hs.reaches

/-- A loop names the methods of its expression and of its body. -/
theorem loopAround_below {n : Nat} {iterable : Expr} {body : Stmt} (var : LocalId) (span : Span)
    (hiterable : Below iterable.methods n) (hbody : Below body.methods n) :
    Below (loopAround var iterable span body).methods n := by
  unfold loopAround
  split
  · split
    · exact hbody
    · exact below_append.2 ⟨hiterable, hbody⟩
  · exact below_append.2 ⟨hiterable, hbody⟩

/-- What a loop does before its body. -/
theorem loopHead_ensures (hs : s.Sound holes bodies) {site : Site} (hsite : site.Valid s.unit)
    {scope : Scope} (hscope : LocalScope scope) (name : Syntax.Ident) (iterable : Syntax.Expr)
    (span : Span) :
    Ensures (loopHead site scope name iterable span) s fun r s' => s.Reaches holes bodies s' ∧
      LocalScope r.1 ∧ ∀ {n : Nat} {body : Stmt}, s'.unit.methods.size ≤ n →
        Below body.methods n → Below (r.2 body).methods n := by
  rw [loopHead_eq]
  apply Ensures.bind (lowerExpr_gives site hscope iterable hs)
  intro iterable s₁ hstep
  obtain ⟨h₁, hiterable⟩ := hstep
  apply ensures_currentMethod_bind
  intro method hmethod
  apply Ensures.bind (loopElement_ensures h₁.sound iterable)
  intro element s₂ h₂
  have hopen : s₂.Sound (fun t => t = element ∨ holes t) bodies :=
    h₂.sound.mono (fun _ => .inr) (fun _ h => h)
  have hmethod₂ := (hsite.grows (h₁.grows.trans h₂.grows)).method method hmethod
  apply Ensures.bind (bindLocal_ensures hopen hmethod₂ hscope.child name)
  intro r s₃ hstep
  obtain ⟨var, inner⟩ := r
  obtain ⟨h₃, hinner⟩ := hstep
  refine ensures_pure ⟨h₁.trans (h₂.trans h₃), hinner, fun hle hbody => ?_⟩
  have hmethods := Nat.le_trans (h₂.grows.trans h₃.grows).methods_le hle
  exact loopAround_below var span (hiterable.mono hmethods) hbody

/-! ## Statements -/

mutual

/-- Lowering a statement gives one in which all methods are those of the unit. -/
theorem lowerStmt_ensures (site : Site) {scope : Scope} (hscope : LocalScope scope) :
    ∀ (stmt : Syntax.Stmt) {s : State}, s.Sound holes bodies → site.Valid s.unit →
      Ensures (lowerStmt site scope stmt) s fun r s' => s.Reaches holes bodies s' ∧
        Below r.1.methods s'.unit.methods.size ∧ LocalScope r.2
  | .empty span, _, hs, _ => by
    rw [lowerStmt]
    exact ensures_pure ⟨hs.reaches, below_nil, hscope⟩
  | .expr e span, _, hs, _ => by
    rw [lowerStmt]
    apply Ensures.bind (lowerExpr_gives site hscope e hs)
    exact fun _ _ h => ensures_pure ⟨h.1, h.2, hscope⟩
  | .block body span, _, hs, hsite => by
    rw [lowerStmt]
    apply Ensures.bind (lowerStmts_gives site hscope.child body hs hsite)
    exact fun _ _ h => ensures_pure ⟨h.1, h.2.1, hscope⟩
  | .ifElse cond thenBranch none span, _, hs, hsite => by
    rw [lowerStmt]
    apply Ensures.bind (lowerExpr_gives site hscope cond hs)
    intro cond s₁ hstep
    obtain ⟨h₁, hcond⟩ := hstep
    apply Ensures.bind
      (lowerStmt_ensures site hscope.child thenBranch h₁.sound (hsite.grows h₁.grows))
    intro thenBranch s₂ hstep
    obtain ⟨h₂, hthen, -⟩ := hstep
    exact ensures_pure
      ⟨h₁.trans h₂, below_append.2 ⟨hcond.mono h₂.grows.methods_le, hthen⟩, hscope⟩
  | .ifElse cond thenBranch (some elseBranch) span, _, hs, hsite => by
    rw [lowerStmt]
    apply Ensures.bind (lowerExpr_gives site hscope cond hs)
    intro cond s₁ hstep
    obtain ⟨h₁, hcond⟩ := hstep
    apply Ensures.bind
      (lowerStmt_ensures site hscope.child thenBranch h₁.sound (hsite.grows h₁.grows))
    intro thenBranch s₂ hstep
    obtain ⟨h₂, hthen, -⟩ := hstep
    have h₁₂ := h₁.trans h₂
    apply Ensures.bind
      (lowerStmt_ensures site hscope.child elseBranch h₂.sound (hsite.grows h₁₂.grows))
    intro elseBranch s₃ hstep
    obtain ⟨h₃, helse, -⟩ := hstep
    have hboth := below_append.2 ⟨hcond.mono h₂.grows.methods_le, hthen⟩
    exact ensures_pure
      ⟨h₁₂.trans h₃, below_append.2 ⟨hboth.mono h₃.grows.methods_le, helse⟩, hscope⟩
  | .whileLoop cond body span, _, hs, hsite => by
    rw [lowerStmt]
    apply Ensures.bind (lowerExpr_gives site hscope cond hs)
    intro cond s₁ hstep
    obtain ⟨h₁, hcond⟩ := hstep
    apply Ensures.bind (lowerStmt_ensures site hscope.child body h₁.sound (hsite.grows h₁.grows))
    intro body s₂ hstep
    obtain ⟨h₂, hbody, -⟩ := hstep
    exact ensures_pure
      ⟨h₁.trans h₂, below_append.2 ⟨hcond.mono h₂.grows.methods_le, hbody⟩, hscope⟩
  | .forIn name iterable body span, _, hs, hsite => by
    rw [lowerStmt, lowerFor_eq, bind_assoc]
    apply Ensures.bind (loopHead_ensures hs hsite hscope name iterable span)
    intro r s₁ hstep
    obtain ⟨inner, loop⟩ := r
    obtain ⟨h₁, hinner, hloop⟩ := hstep
    simp only [bind_assoc, pure_bind]
    apply Ensures.bind (lowerStmt_ensures site hinner body h₁.sound (hsite.grows h₁.grows))
    intro body s₂ hstep
    obtain ⟨h₂, hbody, -⟩ := hstep
    exact ensures_pure ⟨h₁.trans h₂, hloop h₂.grows.methods_le hbody, hscope⟩
  | .ret value span, _, hs, _ => by
    rw [lowerStmt]
    apply Ensures.bind (mapM_lowerExpr_ensures hs site hscope value)
    intro value s₁ hstep
    obtain ⟨h₁, hvalue⟩ := hstep
    apply ensures_currentMethod_bind
    intro method _
    apply ensures_ask_bind
    apply Ensures.bind (unify_ensures h₁.sound _ _)
    intro _ s₂ h₂
    refine ensures_pure ⟨h₁.trans h₂, ?_, hscope⟩
    cases value with
    | none => exact below_nil
    | some value => exact hvalue.mono h₂.grows.methods_le
  | .vars decl, _, hs, hsite => by
    rw [lowerStmt]
    apply ensures_currentMethod_bind
    intro method hmethod
    apply Ensures.bind (lowerVars_gives site decl.decls hscope hs (hsite.method method hmethod))
    exact fun _ _ h => ensures_pure h
  | .function decl, _, hs, hsite => by
    rw [lowerStmt]
    apply Ensures.bind (lowerFunction_ensures hs hsite.owner decl)
    intro stmt s₁ hstep
    obtain ⟨h₁, rfl⟩ := hstep
    exact ensures_pure ⟨h₁, below_nil, hscope⟩
  | .classDecl decl, _, hs, hsite => by
    rw [lowerStmt]
    apply Ensures.bind (lowerClass_ensures hs decl)
    intro stmt s₁ hstep
    obtain ⟨h₁, rfl⟩ := hstep
    exact ensures_pure ⟨h₁, below_nil, hscope⟩

/-- The same of statements one after the other. -/
theorem lowerStmts_gives (site : Site) {scope : Scope} (hscope : LocalScope scope) :
    ∀ (stmts : List Syntax.Stmt) {s : State}, s.Sound holes bodies → site.Valid s.unit →
      GivesStmts holes bodies s (lowerStmts site scope stmts)
  | [], _, hs, _ => by
    rw [lowerStmts]
    exact ensures_pure ⟨hs.reaches, below_nil, hscope⟩
  | stmt :: rest, _, hs, hsite => by
    rw [lowerStmts]
    apply Ensures.bind (lowerStmt_ensures site hscope stmt hs hsite)
    intro r s₁ hstep
    obtain ⟨stmt, scope₁⟩ := r
    obtain ⟨h₁, hstmt, hscope₁⟩ := hstep
    apply Ensures.bind (lowerStmts_gives site hscope₁ rest h₁.sound (hsite.grows h₁.grows))
    intro r s₂ hstep
    obtain ⟨rest, scope₂⟩ := r
    obtain ⟨h₂, hrest, hscope₂⟩ := hstep
    exact ensures_pure
      ⟨h₁.trans h₂, below_append.2 ⟨hstmt.mono h₂.grows.methods_le, hrest⟩, hscope₂⟩

end

end ExpLang.Lowering
