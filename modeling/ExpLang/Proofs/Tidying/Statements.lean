import ExpLang.Proofs.Lowering.Statements
import ExpLang.Proofs.Tidying.Declarations

/-!
# Lowering of statements keeps states tidy

The parts of a statement are lowered one after the other, each in the state that the one before ends
with. A variable has the type that is written, or a hole that its first value binds; the variable of a
loop has the type of the elements. All of them are proper as long as nothing is reported.
-/

namespace ExpLang.Lowering

open Resolved

variable {p : Syntax.Program} {policy : QueuePolicy} {P : Expr → Prop} {s s' : State}

/-- A new local of a proper type. -/
theorem bindLocal_tidy (hs : s.Tidy P) (method : MethodId) (scope : Scope) (name : Syntax.Ident)
    {type : TypeId} (htype : s.Quiet → s.unit.types.Proper type) :
    Steps P s (bindLocal method scope name type) := by
  unfold bindLocal
  apply ensures_ask_bind
  have hadd : s.Advances P { s with unit := s.unit.modifyMethod method fun _ =>
      ((s.unit.getMethod method).addLocal name.name type name.span).2 } := by
    refine hs.modifyMethod rfl rfl fun hquiet hm => ⟨hm.ret, hm.type, hm.param, hm.default, ?_,
      hm.body⟩
    intro l hl
    rcases Array.mem_push.1 hl with hl | rfl
    · exact hm.localVar l hl
    · exact htype hquiet
  exact Ensures.bind (ensures_modifyUnit hadd) fun _ _ h => ensures_pure h

/-- An expression that may be missing. -/
theorem mapM_lowerExpr_good {site : Site} {scope : Scope} (e : Option Syntax.Expr)
    (hjob : ∀ e', e = some e' → Comes p policy (.expr site scope e') s)
    (hs : s.Tidy (FromAccess p policy)) :
    Ensures (e.mapM (lowerExpr site scope)) s fun e' s' => s.Advances (FromAccess p policy) s' ∧
      ∀ value, e' = some value → s'.Quiet → value.Good (FromAccess p policy) s'.unit.types := by
  cases e with
  | none => exact ensures_pure ⟨hs.advances, nofun⟩
  | some e =>
    change Ensures (lowerExpr site scope e >>= fun e' => pure (some e')) s _
    apply Ensures.bind (lowerExpr_good site scope e (hjob e rfl) hs)
    intro value s₁ hstep
    refine ensures_pure ⟨hstep.1, ?_⟩
    intro value' heq
    cases heq
    exact hstep.2

/-- A step that gives statements advances, and what stands for nothing in them has an excuse if
nothing was reported. -/
def GivesExcused (P : Expr → Prop) (s : State) (x : Lower (List Stmt × Scope)) : Prop :=
  Ensures x s fun r s' => s.Advances P s' ∧ (s'.Quiet → Excused P (Stmt.visitsAll r.1))

/-- A variable gets the type of its first value. -/
theorem settleType_tidy (hs : s.Tidy P) (written : Option Syntax.TypeRef) (type : TypeId)
    {init : Option Expr}
    (hinit : ∀ value, init = some value → s.Quiet → s.unit.types.Proper value.type) :
    Steps P s (settleType written type init) := by
  unfold settleType
  split
  · exact unify_tidy hs _ (hinit _ rfl)
  · exact ensures_pure hs.advances

/-- The assignment of a first value to a local of a proper type. -/
theorem assignFirst_good (hs : s.Tidy P) (id : LocalId) {type : TypeId}
    (htype : s.Quiet → s.unit.types.Proper type) (decl : Syntax.VarDecl) {init : Option Expr}
    (hinit : ∀ value, init = some value → s.Quiet → value.Good P s.unit.types) :
    Ensures (assignFirst id type decl init) s fun here s' => s.Advances P s' ∧
      (s'.Quiet → Excused P (Stmt.visitsAll here)) := by
  cases init with
  | none => exact ensures_pure ⟨hs.advances, fun _ => excused_nil⟩
  | some value =>
    have hlocal (hquiet : s.Quiet) :
        (Expr.localVar id ⟨type, decl.name.span⟩).Good P s.unit.types :=
      ⟨htype hquiet, excused_cons rfl excused_nil⟩
    apply Ensures.bind (lowerBinary_good hs .assign hlocal (hinit value rfl) decl.span)
    intro assignment s₁ hstep
    obtain ⟨h₁, hassignment⟩ := hstep
    refine ensures_pure ⟨h₁, fun hquiet => ?_⟩
    exact excused_append.2 ⟨excused_cons rfl (hassignment hquiet).code, excused_nil⟩

/-- One variable of a declaration. -/
theorem lowerVar_good {site : Site} {method : MethodId} {scope : Scope} {decl : Syntax.VarDecl}
    {rest : List Syntax.VarDecl} (hjob : Comes p policy (.vars site method scope (decl :: rest)) s)
    (hs : s.Tidy (FromAccess p policy)) :
    GivesExcused (FromAccess p policy) s (lowerVars site method scope [decl]) := by
  rw [lowerVars_singleton]
  apply Ensures.bind (mapM_lowerExpr_good decl.init (fun e he => hjob.varInit he) hs)
  intro init s₁ hstep
  obtain ⟨h₁, hinit⟩ := hstep
  apply Ensures.bind (declaredType_tidy h₁.tidy decl.type)
  intro type s₂ hstep
  obtain ⟨h₂, htype⟩ := hstep
  have hinit₂ (value : Expr) (hvalue : init = some value) (hquiet : s₂.Quiet) :=
    (hinit value hvalue (h₂.quiet hquiet)).keeps h₂.keeps
  apply Ensures.bind (settleType_tidy h₂.tidy decl.type type fun value hvalue hquiet =>
    (hinit₂ value hvalue hquiet).type)
  intro _ s₃ h₃
  apply Ensures.bind (bindLocal_tidy h₃.tidy method scope decl.name fun hquiet =>
    (htype (h₃.quiet hquiet)).keeps h₃.keeps)
  intro r s₄ h₄
  obtain ⟨id, inner⟩ := r
  have h₃₄ := h₃.trans h₄
  apply Ensures.bind (assignFirst_good h₄.tidy id
    (fun hquiet => (htype (h₃₄.quiet hquiet)).keeps h₃₄.keeps) decl fun value hvalue hquiet =>
      (hinit₂ value hvalue (h₃₄.quiet hquiet)).keeps h₃₄.keeps)
  intro here s₅ hstep
  obtain ⟨h₅, hhere⟩ := hstep
  exact ensures_pure ⟨h₁.trans (h₂.trans (h₃₄.trans h₅)), hhere⟩

/-- The variables of a declaration. -/
theorem lowerVars_good {site : Site} {method : MethodId} (decls : List Syntax.VarDecl)
    {scope : Scope} {s : State} (hjob : Comes p policy (.vars site method scope decls) s)
    (hs : s.Tidy (FromAccess p policy)) :
    GivesExcused (FromAccess p policy) s (lowerVars site method scope decls) := by
  induction decls generalizing s scope with
  | nil => exact ensures_pure ⟨hs.advances, fun _ => excused_nil⟩
  | cons decl rest ih =>
    rw [lowerVars_cons]
    apply Ensures.bind (lowerVar_good hjob hs).ran
    intro r s₁ hstep
    obtain ⟨here, scope₁⟩ := r
    obtain ⟨⟨h₁, hhere⟩, hrun⟩ := hstep
    apply Ensures.bind (ih (hjob.moreVars hrun) h₁.tidy)
    intro r s₂ hstep
    obtain ⟨others, scope₂⟩ := r
    obtain ⟨h₂, hothers⟩ := hstep
    refine ensures_pure ⟨h₁.trans h₂, fun hquiet => ?_⟩
    rw [Stmt.visitsAll_append, excused_append]
    exact ⟨hhere (h₂.quiet hquiet), hothers hquiet⟩

/-- The variable of a loop has a proper type. -/
theorem loopElement_tidy (hs : s.Tidy P) (iterable : Expr) :
    Ensures (loopElement iterable) s fun element s' => s.Advances P s' ∧
      (s'.Quiet → s'.unit.types.Proper element) := by
  unfold loopElement elementType
  split
  · exact ensures_pure ⟨hs.advances, (hs.primitive .int (by decide)).proper⟩
  · apply ensures_ask_bind
    have helement (hquiet : s.Quiet) := proper_elementOf hs hquiet iterable.type
    dsimp only
    split
    · apply Ensures.bind (reportFirm_tidy hs _ _)
      exact fun _ _ h => ensures_pure ⟨h, fun hquiet => (helement (h.quiet hquiet)).keeps h.keeps⟩
    · exact ensures_pure ⟨hs.advances, helement⟩

/-- What stands for nothing in a loop stands in its expression or in its body. -/
theorem loopAround_excused {iterable : Expr} {body : Stmt} (var : LocalId) (span : Span)
    (hiterable : Excused P iterable.visits) (hbody : Excused P body.visits) :
    Excused P (loopAround var iterable span body).visits := by
  unfold loopAround
  split
  · split
    · exact excused_cons rfl hbody
    · rename_i low high _ _ _ _
      have hrange : Excused P (low.visits ++ high.visits) := fun name info hmem =>
        hiterable name info (List.mem_cons_of_mem _ hmem)
      exact excused_cons rfl (excused_append.2 ⟨hrange, hbody⟩)
  · exact excused_cons rfl (excused_append.2 ⟨hiterable, hbody⟩)

/-- What a loop does before its body. -/
theorem loopHead_good {site : Site} {scope : Scope} {name : Syntax.Ident} {iterable : Syntax.Expr}
    {span : Span} (hjob : Comes p policy (.expr site scope iterable) s)
    (hs : s.Tidy (FromAccess p policy)) :
    Ensures (loopHead site scope name iterable span) s fun r s' =>
      s.Advances (FromAccess p policy) s' ∧ (s'.Quiet → ∀ body : Stmt,
        Excused (FromAccess p policy) body.visits →
          Excused (FromAccess p policy) (r.2 body).visits) := by
  rw [loopHead_eq]
  apply Ensures.bind (lowerExpr_good site scope iterable hjob hs)
  intro iterable s₁ hstep
  obtain ⟨h₁, hiterable⟩ := hstep
  apply ensures_currentMethod_bind
  intro method _
  apply Ensures.bind (loopElement_tidy h₁.tidy iterable)
  intro element s₂ hstep
  obtain ⟨h₂, helement⟩ := hstep
  apply Ensures.bind (bindLocal_tidy h₂.tidy method scope.child name helement)
  intro r s₃ h₃
  obtain ⟨var, inner⟩ := r
  refine ensures_pure ⟨h₁.trans (h₂.trans h₃), fun hquiet body hbody => ?_⟩
  exact loopAround_excused var span (hiterable (h₂.quiet (h₃.quiet hquiet))).code hbody

/-! ## Statements -/

mutual

/-- What stands for nothing in a statement that lowering comes to has an excuse. -/
theorem lowerStmt_good (site : Site) :
    ∀ (stmt : Syntax.Stmt) {scope : Scope} {s : State}, Comes p policy (.stmt site scope stmt) s →
      s.Tidy (FromAccess p policy) →
      Ensures (lowerStmt site scope stmt) s fun r s' => s.Advances (FromAccess p policy) s' ∧
        (s'.Quiet → Excused (FromAccess p policy) r.1.visits)
  | .empty span, _, _, _, hs => by
    rw [lowerStmt]
    exact ensures_pure ⟨hs.advances, fun _ => excused_cons rfl excused_nil⟩
  | .expr e span, scope, _, hjob, hs => by
    rw [lowerStmt]
    apply Ensures.bind (lowerExpr_good site scope e (hjob.head rfl) hs)
    exact fun _ _ h => ensures_pure ⟨h.1, fun hquiet => excused_cons rfl (h.2 hquiet).code⟩
  | .block body span, _, _, hjob, hs => by
    rw [lowerStmt]
    apply Ensures.bind (lowerStmts_good site body hjob.block hs)
    exact fun _ _ h => ensures_pure ⟨h.1, fun hquiet => excused_cons rfl (h.2 hquiet)⟩
  | .ifElse cond yes none span, scope, _, hjob, hs => by
    rw [lowerStmt]
    apply Ensures.bind (lowerExpr_good site scope cond (hjob.head rfl) hs).ran
    intro cond s₁ hstep
    obtain ⟨⟨h₁, hcond⟩, hrun⟩ := hstep
    apply Ensures.bind (lowerStmt_good site yes (hjob.thenBranch hrun) h₁.tidy)
    intro yes s₂ hstep
    obtain ⟨h₂, hyes⟩ := hstep
    refine ensures_pure ⟨h₁.trans h₂, fun hquiet => excused_cons rfl (excused_append.2 ?_)⟩
    exact ⟨(hcond (h₂.quiet hquiet)).code, hyes hquiet⟩
  | .ifElse cond yes (some no) span, scope, _, hjob, hs => by
    rw [lowerStmt]
    apply Ensures.bind (lowerExpr_good site scope cond (hjob.head rfl) hs).ran
    intro cond s₁ hstep
    obtain ⟨⟨h₁, hcond⟩, hrun⟩ := hstep
    apply Ensures.bind (lowerStmt_good site yes (hjob.thenBranch hrun) h₁.tidy).ran
    intro yes s₂ hstep
    obtain ⟨⟨h₂, hyes⟩, hrunYes⟩ := hstep
    apply Ensures.bind (lowerStmt_good site no (hjob.elseBranch hrun hrunYes) h₂.tidy)
    intro no s₃ hstep
    obtain ⟨h₃, hno⟩ := hstep
    refine ensures_pure ⟨h₁.trans (h₂.trans h₃), fun hquiet => excused_cons rfl (excused_append.2 ?_)⟩
    have hquiet₂ := h₃.quiet hquiet
    exact ⟨excused_append.2 ⟨(hcond (h₂.quiet hquiet₂)).code, hyes hquiet₂⟩, hno hquiet⟩
  | .whileLoop cond body span, scope, _, hjob, hs => by
    rw [lowerStmt]
    apply Ensures.bind (lowerExpr_good site scope cond (hjob.head rfl) hs).ran
    intro cond s₁ hstep
    obtain ⟨⟨h₁, hcond⟩, hrun⟩ := hstep
    apply Ensures.bind (lowerStmt_good site body (hjob.whileBody hrun) h₁.tidy)
    intro body s₂ hstep
    obtain ⟨h₂, hbody⟩ := hstep
    refine ensures_pure ⟨h₁.trans h₂, fun hquiet => excused_cons rfl (excused_append.2 ?_)⟩
    exact ⟨(hcond (h₂.quiet hquiet)).code, hbody hquiet⟩
  | .forIn name iterable body span, scope, _, hjob, hs => by
    rw [lowerStmt, lowerFor_eq, bind_assoc]
    apply Ensures.bind (loopHead_good (hjob.head rfl) hs).ran
    intro r s₁ hstep
    obtain ⟨inner, loop⟩ := r
    obtain ⟨⟨h₁, hloop⟩, hrun⟩ := hstep
    simp only [bind_assoc, pure_bind]
    apply Ensures.bind (lowerStmt_good site body (hjob.forBody hrun) h₁.tidy)
    intro body s₂ hstep
    obtain ⟨h₂, hbody⟩ := hstep
    exact ensures_pure ⟨h₁.trans h₂, fun hquiet => hloop (h₂.quiet hquiet) _ (hbody hquiet)⟩
  | .ret value span, scope, s, hjob, hs => by
    rw [lowerStmt]
    have hvalues : ∀ e, value = some e → Comes p policy (.expr site scope e) s := by
      intro e he
      exact hjob.head (by rw [he]; rfl)
    apply Ensures.bind (mapM_lowerExpr_good value hvalues hs)
    intro value s₁ hstep
    obtain ⟨h₁, hvalue⟩ := hstep
    apply ensures_currentMethod_bind
    intro method _
    apply ensures_ask_bind
    have htype (hquiet : s₁.Quiet) :
        s₁.unit.types.Proper (value.elim Primitive.void.id (·.type)) := by
      cases value with
      | none => exact h₁.tidy.void hquiet
      | some value => exact (hvalue value rfl hquiet).type
    apply Ensures.bind (unify_tidy h₁.tidy _ htype)
    intro _ s₂ h₂
    refine ensures_pure ⟨h₁.trans h₂, fun hquiet => ?_⟩
    cases value with
    | none => exact excused_cons rfl excused_nil
    | some value => exact excused_cons rfl (hvalue value rfl (h₂.quiet hquiet)).code
  | .vars decl, _, _, hjob, hs => by
    rw [lowerStmt]
    apply ensures_currentMethod_bind
    intro method hmethod
    apply Ensures.bind (lowerVars_good decl.decls (hjob.vars hmethod) hs)
    exact fun _ _ h => ensures_pure ⟨h.1, fun hquiet => excused_cons rfl (h.2 hquiet)⟩
  | .function decl, _, _, hjob, hs => by
    rw [lowerStmt]
    apply Ensures.bind (lowerFunction_tidy hjob hs)
    intro stmt s₁ hstep
    obtain ⟨h₁, rfl⟩ := hstep
    exact ensures_pure ⟨h₁, fun _ => excused_cons rfl excused_nil⟩
  | .classDecl decl, _, _, hjob, hs => by
    rw [lowerStmt]
    apply Ensures.bind (lowerClass_tidy hjob hs)
    intro stmt s₁ hstep
    obtain ⟨h₁, rfl⟩ := hstep
    exact ensures_pure ⟨h₁, fun _ => excused_cons rfl excused_nil⟩

/-- The same of statements one after the other. -/
theorem lowerStmts_good (site : Site) :
    ∀ (stmts : List Syntax.Stmt) {scope : Scope} {s : State},
      Comes p policy (.stmts site scope stmts) s → s.Tidy (FromAccess p policy) →
      GivesExcused (FromAccess p policy) s (lowerStmts site scope stmts)
  | [], _, _, _, hs => by
    rw [lowerStmts]
    exact ensures_pure ⟨hs.advances, fun _ => excused_nil⟩
  | stmt :: rest, _, _, hjob, hs => by
    rw [lowerStmts]
    apply Ensures.bind (lowerStmt_good site stmt hjob.stmt hs).ran
    intro r s₁ hstep
    obtain ⟨stmt, scope₁⟩ := r
    obtain ⟨⟨h₁, hstmt⟩, hrun⟩ := hstep
    apply Ensures.bind (lowerStmts_good site rest (hjob.moreStmts hrun) h₁.tidy)
    intro r s₂ hstep
    obtain ⟨rest, scope₂⟩ := r
    obtain ⟨h₂, hrest⟩ := hstep
    exact ensures_pure ⟨h₁.trans h₂, fun hquiet =>
      excused_append.2 ⟨hstmt (h₂.quiet hquiet), hrest hquiet⟩⟩

end

end ExpLang.Lowering
