import ExpLang.Proofs.Tidying.Expressions

/-!
# Declarations keep states tidy

A parameter has a plain type, so that the type of a method is one of plain types and the type of its
result. A class, a field or a method whose name is taken is reported. The code of a task is lowered in
the state in which lowering comes to the task.
-/

namespace ExpLang.Lowering

open Resolved

variable {α : Type} {p : Syntax.Program} {policy : QueuePolicy} {P : Expr → Prop} {s s' : State}

/-- A step advances. -/
def Steps (P : Expr → Prop) (s : State) (x : Lower α) : Prop :=
  Ensures x s fun _ s' => s.Advances P s'

/-- Declaring something advances if the unit with it is tidy. -/
theorem declare_tidy (hs : s.Tidy P) {create : CodeUnit → Except DuplicateName (α × CodeUnit)}
    (span : Span) (hcreate : ∀ a u, create s.unit = .ok (a, u) → s.Advances P { s with unit := u }) :
    Steps P s (declare span create) :=
  declare_ensures span hcreate fun d _ => (hs.report d).1

/-- Adding a class. -/
theorem State.Tidy.createClass (hs : s.Tidy P) {name : String} {span : Span} {c : ClassId}
    {u : CodeUnit} (h : s.unit.createClass name span = .ok (c, u)) :
    s.Advances P { s with unit := u } := by
  have hkeeps : s.unit.types.Keeps u.types := by
    obtain ⟨_, -, rfl⟩ := CodeUnit.createClass_eq h
    exact s.unit.types.keeps_intern _
  exact hs.withUnit hkeeps (hs.layered.createClass h) fun _ hunit => hunit.createClass hs.layered h

/-- A declaration of a class. -/
theorem declareClass_tidy (hs : s.Tidy P) (decl : Syntax.ClassDecl Syntax.Stmt) :
    Steps P s (declareClass decl) :=
  declare_tidy hs _ fun _ _ hcreate => hs.createClass hcreate

/-- A declaration of a field. -/
theorem declareField_tidy (hs : s.Tidy P) (owner : ClassId) (modifiers : Modifiers)
    (decl : Syntax.VarDecl) : Steps P s (declareField owner modifiers decl) := by
  apply Ensures.bind (declaredType_tidy hs decl.type)
  intro type s₁ hstep
  obtain ⟨h₁, htype⟩ := hstep
  have hdeclare : Steps P s₁ (declare decl.name.span
      (·.createField owner decl.name.name type modifiers decl.name.span)) := by
    refine declare_tidy h₁.tidy _ fun i u hcreate => ?_
    have hkeeps : s₁.unit.types.Keeps u.types := by
      obtain ⟨-, _, -, -, rfl⟩ := CodeUnit.createField_eq_ok hcreate
      exact .refl _
    exact h₁.tidy.withUnit hkeeps (h₁.tidy.layered.createField hcreate) fun hquiet hunit =>
      hunit.createField (htype hquiet) hcreate
  apply Ensures.bind hdeclare
  intro field s₂ h₂
  split <;> exact ensures_pure (h₁.trans h₂)

/-- A name that is taken is reported. -/
theorem reportSeen_tidy (hs : s.Tidy P) (method : String) (seen : List (String × Span))
    (name : Syntax.Ident) : Steps P s (reportSeen method seen name) := by
  unfold reportSeen
  split
  · exact (report_tidy hs _).mono fun _ _ h => h.1
  · exact ensures_pure hs.advances

/-- The type of a parameter is plain. -/
theorem paramType_tidy (hs : s.Tidy P) (written : Option Syntax.TypeRef) :
    Ensures (paramType written) s fun id s' => s.Advances P s' ∧ s'.Plain id := by
  cases written with
  | some type => exact writtenType_tidy hs type
  | none => exact ensures_pure ⟨hs.advances, hs.primitive .int (by decide)⟩

/-- The declarations of parameters give plain types. -/
theorem declareParams_tidy (method : String) (params : List Syntax.Param)
    (seen : List (String × Span)) {s : State} (hs : s.Tidy P) :
    Ensures (declareParams method seen params) s fun declared s' =>
      s.Advances P s' ∧ ∀ r ∈ declared, s'.Plain r.2 := by
  induction params generalizing s seen with
  | nil => exact ensures_pure ⟨hs.advances, fun _ h => by cases h⟩
  | cons param rest ih =>
    rw [declareParams_cons]
    apply Ensures.bind (reportSeen_tidy hs method seen param.name)
    intro _ s₁ h₁
    apply Ensures.bind (paramType_tidy h₁.tidy param.type)
    intro type s₂ hstep
    obtain ⟨h₂, htype⟩ := hstep
    apply Ensures.bind (ih _ h₂.tidy)
    intro others s₃ hstep
    obtain ⟨h₃, hothers⟩ := hstep
    refine ensures_pure ⟨h₁.trans (h₂.trans h₃), fun r hr => ?_⟩
    rcases List.mem_cons.1 hr with rfl | hr
    · exact htype.advances h₃
    · exact hothers r hr

/-- Adding a method whose parameters have plain types. -/
theorem State.Tidy.createMethod (hs : s.Tidy P) {owner : ClassId} {name : String} {ret : TypeId}
    {modifiers : Modifiers} {params : List (String × TypeId)} {span : Span} {i : MethodId}
    {u : CodeUnit} (hret : s.Quiet → s.unit.types.Proper ret) (hparams : ∀ r ∈ params, s.Plain r.2)
    (h : s.unit.createMethod owner name ret modifiers params span = .ok (i, u)) :
    s.Advances P { s with unit := u } := by
  have hkeeps : s.unit.types.Keeps u.types := by
    obtain ⟨-, _, -, rfl⟩ := CodeUnit.createMethod_eq_ok h
    exact s.unit.types.keeps_intern _
  have hlayered := hs.layered.createMethod
    (fun r hr => ⟨(hparams r hr).lt, (hparams r hr).plain⟩) h
  exact hs.withUnit hkeeps hlayered fun hquiet hunit =>
    hunit.createMethod hs.layered (hret hquiet) (fun r hr => (hparams r hr).proper hquiet) h

/-- A declaration of a method. -/
theorem declareMethod_tidy (hs : s.Tidy P) (owner : ClassId) (modifiers : Modifiers)
    (decl : Syntax.FunctionDecl Syntax.Stmt) :
    Steps P s (declareMethod owner modifiers decl) := by
  apply Ensures.bind (declaredType_tidy hs decl.ret)
  intro ret s₁ hstep
  obtain ⟨h₁, hret⟩ := hstep
  apply Ensures.bind (declareParams_tidy _ _ _ h₁.tidy)
  intro params s₂ hstep
  obtain ⟨h₂, hparams⟩ := hstep
  have hret₂ (hquiet : s₂.Quiet) := (hret (h₂.quiet hquiet)).keeps h₂.keeps
  have hdeclare : Steps P s₂ (declare decl.name.span
      (·.createMethod owner decl.name.name ret modifiers params decl.name.span)) :=
    declare_tidy h₂.tidy _ fun _ _ hcreate => h₂.tidy.createMethod hret₂ hparams hcreate
  apply Ensures.bind hdeclare
  intro method s₃ h₃
  have h := h₁.trans (h₂.trans h₃)
  cases method with
  | none => exact ensures_pure h
  | some method =>
    dsimp only
    split
    · exact ensures_pure h
    · refine ⟨fun tasks s' hrun => ?_⟩
      cases hrun
      exact ⟨⟨h.tidy.layered, h.tidy.blameless⟩, h.keeps, h.quiet⟩

/-- Declarations one after the other. -/
theorem declareAll_tidy {f : α → Lower (List Task)}
    (hf : ∀ a {s : State}, s.Tidy P → Steps P s (f a)) (as : List α) {s : State} (hs : s.Tidy P) :
    Steps P s (declareAll f as) := by
  induction as generalizing s with
  | nil => exact ensures_pure hs.advances
  | cons a rest ih =>
    apply Ensures.bind (hf a hs)
    intro tasks s₁ h₁
    apply Ensures.bind (ih h₁.tidy)
    exact fun _ _ h₂ => ensures_pure (h₁.trans h₂)

/-- The declarations of the members of a class. -/
theorem declareMembers_tidy (hs : s.Tidy P) (owner : ClassId)
    (decl : Syntax.ClassDecl Syntax.Stmt) : Steps P s (declareMembers owner decl) := by
  refine declareAll_tidy (fun member {s} hs => ?_) _ hs
  dsimp only
  split
  · exact declareAll_tidy (fun var {_} hs => declareField_tidy hs owner _ var) _ hs
  · exact declareMethod_tidy hs owner _ _

/-! ## Running tasks -/

/-- A parameter may get its default. -/
theorem State.Tidy.setDefault (hs : s.Tidy P) (i : MethodId) (param : ParamId) {value : Expr}
    (hvalue : s.Quiet → Excused P value.visits) :
    s.Advances P { s with unit := s.unit.modifyMethod i fun m =>
      { m with params := m.params.modify param fun p => { p with default := some value } } } := by
  refine hs.modifyMethod rfl rfl fun hquiet hm => { hm with param := ?_, default := ?_ }
  all_goals
    intro q hq
    obtain ⟨k, hk⟩ := Array.mem_iff_getElem?.1 hq
    rw [Array.getElem?_modify] at hk
    split at hk
  · obtain ⟨q', hq', rfl⟩ := Option.map_eq_some_iff.1 hk
    exact hm.param q' (Array.mem_of_getElem? hq')
  · exact hm.param q (Array.mem_of_getElem? hk)
  · obtain ⟨q', -, rfl⟩ := Option.map_eq_some_iff.1 hk
    intro e he
    cases he
    exact hvalue hquiet
  · exact hm.default q (Array.mem_of_getElem? hk)

/-- The code of a task. -/
theorem runTask_tidy (task : Task) (hjob : Comes p policy (task.job s.unit) s)
    (hs : s.Tidy (FromAccess p policy)) : Steps (FromAccess p policy) s (runTask task) := by
  cases task with
  | fieldInit owner field init =>
    unfold runTask
    apply ensures_ask_bind
    apply Ensures.bind (lowerExpr_good _ _ init hjob hs)
    intro value s₁ hstep
    obtain ⟨h₁, hvalue⟩ := hstep
    apply ensures_ask_bind
    apply Ensures.bind (unify_tidy h₁.tidy _ fun hquiet => (hvalue hquiet).type)
    intro _ s₂ h₂
    apply ensures_modifyUnit
    have hlayered : (s₂.unit.modifyField field fun f => { f with init := some value }).Layered :=
      h₂.tidy.layered.withMembers rfl rfl (fun _ => ⟨rfl, rfl⟩) rfl fun _ => rfl
    exact (h₁.trans h₂).trans (h₂.tidy.withUnit (.refl _) hlayered fun hquiet hunit =>
      hunit.setInit (hvalue (h₂.quiet hquiet)).code)
  | paramDefault owner method param value =>
    unfold runTask
    apply ensures_ask_bind
    apply Ensures.bind (lowerExpr_good _ _ value hjob hs)
    intro value s₁ hstep
    obtain ⟨h₁, hvalue⟩ := hstep
    apply ensures_modifyUnit
    exact h₁.trans (h₁.tidy.setDefault method param fun hquiet => (hvalue hquiet).code)
  | exprBody owner method body =>
    unfold runTask
    apply ensures_ask_bind
    apply Ensures.bind (lowerExpr_good _ _ body hjob hs)
    intro value s₁ hstep
    obtain ⟨h₁, hvalue⟩ := hstep
    apply ensures_ask_bind
    apply Ensures.bind (unify_tidy h₁.tidy _ fun hquiet => (hvalue hquiet).type)
    intro _ s₂ h₂
    apply ensures_modifyUnit
    exact (h₁.trans h₂).trans (h₂.tidy.setBody method fun hquiet =>
      excused_cons rfl (hvalue (h₂.quiet hquiet)).code)

/-- The tasks of declarations. -/
theorem runTasks_tidy (tasks : List Task) {s : State} (hjob : Comes p policy (.tasks tasks) s)
    (hs : s.Tidy (FromAccess p policy)) :
    Steps (FromAccess p policy) s (tasks.forM runTask) := by
  induction tasks generalizing s with
  | nil => exact ensures_pure hs.advances
  | cons task rest ih =>
    change Ensures (runTask task >>= fun _ => rest.forM runTask) s _
    apply Ensures.bind (runTask_tidy task hjob.task hs).ran
    intro _ s₁ hstep
    obtain ⟨h₁, hrun⟩ := hstep
    exact (ih (hjob.moreTasks hrun) h₁.tidy).mono fun _ _ h₂ => h₁.trans h₂

/-- A class inside of a function. -/
theorem lowerClass_tidy {site : Site} {scope : Scope} {decl : Syntax.ClassDecl Syntax.Stmt}
    (hjob : Comes p policy (.stmt site scope (.classDecl decl)) s)
    (hs : s.Tidy (FromAccess p policy)) :
    Ensures (lowerClass decl) s fun stmt s' =>
      s.Advances (FromAccess p policy) s' ∧ stmt = .skip decl.span := by
  apply Ensures.bind (declareClass_tidy hs decl).ran
  intro owner s₁ hstep
  obtain ⟨h₁, hclass⟩ := hstep
  cases owner with
  | none => exact ensures_pure ⟨h₁, rfl⟩
  | some owner =>
    apply Ensures.bind (declareMembers_tidy h₁.tidy owner decl).ran
    intro tasks s₂ hstep
    obtain ⟨h₂, hmembers⟩ := hstep
    apply Ensures.bind (runTasks_tidy tasks (hjob.classMembers hclass hmembers) h₂.tidy)
    exact fun _ _ h₃ => ensures_pure ⟨h₁.trans (h₂.trans h₃), rfl⟩

/-- A function inside of another one. -/
theorem lowerFunction_tidy {site : Site} {scope : Scope} {decl : Syntax.FunctionDecl Syntax.Stmt}
    (hjob : Comes p policy (.stmt site scope (.function decl)) s)
    (hs : s.Tidy (FromAccess p policy)) :
    Ensures (lowerFunction site decl) s fun stmt s' =>
      s.Advances (FromAccess p policy) s' ∧ stmt = .skip decl.span := by
  apply Ensures.bind (declareMethod_tidy hs site.owner _ decl).ran
  intro tasks s₁ hstep
  obtain ⟨h₁, hdeclare⟩ := hstep
  apply Ensures.bind (runTasks_tidy tasks (hjob.function hdeclare) h₁.tidy)
  exact fun _ _ h₂ => ensures_pure ⟨h₁.trans h₂, rfl⟩

end ExpLang.Lowering
