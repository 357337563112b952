import ExpLang.Proofs.Scoping.Outlines
import ExpLang.Proofs.Tidying.Declarations

/-!
# Methods that are declared are accounted for

A declaration of a method is refused and adds nothing, or it adds a method as the function is declared,
without locals: `declareMethod_cases`. Its body is then one of the tasks, which are run next, or it waits.
A body that is one expression declares nothing and is lowered in a scope of its own, so that running the
tasks settles the methods that have such a body and leaves all others as they are.
-/

namespace ExpLang.Lowering

open Resolved

variable {α : Type} {p : Syntax.Program} {policy : QueuePolicy} {s s' : State}
  {here : Option MethodId} {opened : MethodId → Prop} {owner : ClassId}

/-! ## What declarations do -/

/-- Two facts about what a step ends with. -/
theorem Ensures.and {x : Lower α} {Q R : α → State → Prop} (h : Ensures x s Q)
    (h' : Ensures x s R) : Ensures x s fun a s' => Q a s' ∧ R a s' :=
  ⟨fun a s' hrun => ⟨h.of_run a s' hrun, h'.of_run a s' hrun⟩⟩

/-- The parameters are declared under their names. -/
theorem declareParams_names (method : String) (params : List Syntax.Param)
    (seen : List (String × Span)) {s : State} :
    Ensures (declareParams method seen params) s fun declared _ =>
      declared.map (·.1) = params.map (·.name.name) := by
  induction params generalizing s seen with
  | nil => exact ensures_pure rfl
  | cons param rest ih =>
    rw [declareParams_cons]
    apply Ensures.bind (ensures_of trivial)
    intro _ s₁ _
    apply Ensures.bind (ensures_of trivial)
    intro type s₂ _
    apply Ensures.bind (ih _)
    exact fun _ _ hothers => ensures_pure (congrArg (param.name.name :: ·) hothers)

/-- A declaration of a class adds no method. -/
theorem declareClass_same (decl : Syntax.ClassDecl Syntax.Stmt) :
    Ensures (declareClass decl) s fun _ s' => s.SameMethods s' := by
  refine declare_ensures _ (fun id u hcreate => ?_) fun d _ => ⟨rfl, rfl⟩
  obtain ⟨-, c, -, -, rfl⟩ := CodeUnit.createClass_eq_ok hcreate
  exact ⟨rfl, rfl⟩

/-- A declaration of a field adds no method, and its task brings no body. -/
theorem declareField_same (owner : ClassId) (modifiers : Modifiers) (decl : Syntax.VarDecl) :
    Ensures (declareField owner modifiers decl) s fun tasks s' =>
      s.SameMethods s' ∧ ∀ owner i body, Task.exprBody owner i body ∉ tasks := by
  apply Ensures.bind (declaredType_retyped decl.type).toEnsures
  intro type s₁ h₁
  apply Ensures.bind (R := fun _ s' => s.SameMethods s')
  · refine declare_ensures _ (fun id u hcreate => ?_) fun d _ => h₁.sameMethods.trans ⟨rfl, rfl⟩
    obtain ⟨-, f, -, -, rfl⟩ := CodeUnit.createField_eq_ok hcreate
    exact h₁.sameMethods.trans ⟨rfl, rfl⟩
  · intro field s₂ h₂
    split
    · refine ensures_pure ⟨h₂, fun owner i body hmem => ?_⟩
      cases List.mem_singleton.1 hmem
    · exact ensures_pure ⟨h₂, fun _ _ _ => List.not_mem_nil⟩

/-- No default of a parameter is a body. -/
theorem exprBody_not_mem_defaultTasks {owner' : ClassId} {i method : MethodId} {index : ParamId}
    {params : List Syntax.Param} {body : Syntax.Expr} :
    Task.exprBody owner' i body ∉ defaultTasks owner method index params := by
  induction params generalizing index with
  | nil => exact List.not_mem_nil
  | cons param rest ih =>
    rw [defaultTasks, List.mem_append, not_or]
    refine ⟨?_, ih⟩
    cases param.default with
    | none => exact List.not_mem_nil
    | some value =>
      intro hmem
      cases List.mem_singleton.1 hmem

/-- A declaration of a method is refused, or it adds a method without locals whose body is a task or
waits. -/
theorem declareMethod_cases (owner : ClassId) (modifiers : Modifiers)
    (decl : Syntax.FunctionDecl Syntax.Stmt) :
    Ensures (declareMethod owner modifiers decl) s fun tasks s' =>
      (tasks = [] ∧ s.SameMethods s') ∨
      ∃ m : MethodDef, s'.unit.methods = s.unit.methods.push m ∧ m.outline = .ofDecl owner decl ∧
        match decl.body with
        | .expr body => s'.deferred = s.deferred ∧
          tasks = defaultTasks owner s.unit.methods.size 0 decl.params ++
            [.exprBody owner s.unit.methods.size body]
        | .stmt body => s'.deferred = s.deferred ++ [⟨owner, s.unit.methods.size, body⟩] ∧
          tasks = defaultTasks owner s.unit.methods.size 0 decl.params := by
  apply Ensures.bind (declaredType_retyped decl.ret).toEnsures
  intro ret s₁ h₁
  apply Ensures.bind ((declareParams_retyped _ _ _).toEnsures.and (declareParams_names _ _ _))
  intro params s₂ hstep
  obtain ⟨h₂, hnames⟩ := hstep
  have h := (h₁.trans h₂).sameMethods
  apply Ensures.bind (R := fun id s' => (id = none ∧ s.SameMethods s') ∨
    ∃ m : MethodDef, id = some s.unit.methods.size ∧ s'.unit.methods = s.unit.methods.push m ∧
      s'.deferred = s.deferred ∧ m.outline = .ofDecl owner decl)
  · refine declare_ensures _ (fun id u hcreate => ?_) fun d _ => .inl ⟨rfl, h.trans ⟨rfl, rfl⟩⟩
    refine .inr ?_
    obtain ⟨rfl, m, hm, rfl⟩ := CodeUnit.createMethod_eq_ok hcreate
    refine ⟨m, by rw [h.methods], by rw [h.methods], h.deferred, ?_⟩
    simp [hm, CodeUnit.declaredMethod, MethodDef.outline, Outline.ofDecl, ← hnames]
  · intro id s₃ hcases
    rcases hcases with ⟨rfl, hsame⟩ | ⟨m, rfl, hmethods, hdeferred, houtline⟩
    · exact ensures_pure (.inl ⟨rfl, hsame⟩)
    · cases decl.body with
      | expr body => exact ensures_pure (.inr ⟨m, hmethods, houtline, hdeferred, rfl⟩)
      | stmt body =>
        refine ⟨fun tasks s' hrun => ?_⟩
        cases hrun
        exact .inr ⟨m, hmethods, houtline, congrArg (· ++ _) hdeferred, rfl⟩

/-! ## Accounts of what is declared -/

/-- A task that brings a body brings it to a method that awaits it. -/
def Task.Ready (p : Syntax.Program) (u : CodeUnit) : Task → Prop
  | .exprBody owner i body => Awaits p u owner i (.expr body)
  | .fieldInit _ _ _ | .paramDefault _ _ _ _ => True

/-- A task that is ready stays so as locals are added to another method. -/
theorem Task.Ready.keep {u u' : CodeUnit} {task : Task} (h : task.Ready p u)
    (hu : u.AddsLocals none [] u') : task.Ready p u' := by
  cases task with
  | exprBody owner i body => exact Awaits.keep h hu nofun
  | fieldInit | paramDefault => trivial

/-- Tasks without a body of an expression are ready. -/
theorem ready_of_not_mem {u : CodeUnit} {tasks : List Task}
    (h : ∀ owner i body, Task.exprBody owner i body ∉ tasks) : ∀ task ∈ tasks, task.Ready p u := by
  intro task htask
  cases task with
  | exprBody owner i body => exact absurd htask (h owner i body)
  | fieldInit | paramDefault => trivial

/-- A step that declares things accounts for the methods it adds, but for those whose bodies its tasks
bring. -/
def GivesReady (p : Syntax.Program) (policy : QueuePolicy) (here : Option MethodId)
    (opened : MethodId → Prop) (s : State) (x : Lower (List Task)) : Prop :=
  Ensures x s fun tasks s' => s.unit.AddsLocals none [] s'.unit ∧
    s.unit.classes.size ≤ s'.unit.classes.size ∧ (∀ task ∈ tasks, task.Ready p s'.unit) ∧
    s'.Accounted p policy here fun i => Pending tasks i ∨ opened i

/-- A method is added that is left open or whose body waits. -/
theorem State.Accounted.push {opened' : MethodId → Prop} {m : MethodDef} {waiting : Option Deferred}
    (hs : s.Accounted p policy here opened) (hr : s'.InRange)
    (hmethods : s'.unit.methods = s.unit.methods.push m)
    (hdeferred : s'.deferred = s.deferred ++ waiting.toList)
    (hwaiting : ∀ d ∈ waiting, d.method = s.unit.methods.size ∧
      Awaits p s'.unit d.owner d.method (.stmt d.body))
    (hopened : ∀ i, opened i → opened' i)
    (hnew : opened' s.unit.methods.size ∨ ∃ d ∈ waiting, d.method = s.unit.methods.size) :
    s'.Accounted p policy here opened' := by
  have hu : s.unit.AddsLocals here [] s'.unit := .of_methods_push hmethods
  have hsize : s'.unit.methods.size = s.unit.methods.size + 1 := by simp [hmethods]
  have hhere : here ≠ some s.unit.methods.size := fun h => Nat.lt_irrefl _ (hs.here_lt _ h)
  refine ⟨hr, fun k hk => (hs.here_lt k hk).trans_le hu.size_le, fun i hi => ?_, fun d hd => ?_, ?_⟩
  · rw [hdeferred]
    rcases Nat.lt_succ_iff_lt_or_eq.1 (hsize ▸ hi) with hi | rfl
    · by_cases hne : here = some i
      · exact .inl hne
      rw [hu.of_ne hi hne]
      rcases hs.covered i hi with h | h | ⟨d, hd, hdi⟩ | h
      · exact .inl h
      · exact .inr (.inl (hopened i h))
      · exact .inr (.inr (.inl ⟨d, List.mem_append_left _ hd, hdi⟩))
      · exact .inr (.inr (.inr h))
    · rcases hnew with h | ⟨d, hd, hdi⟩
      · exact .inr (.inl h)
      · exact .inr (.inr (.inl ⟨d, List.mem_append_right _ (Option.mem_toList.2 hd), hdi⟩))
  · rw [hdeferred] at hd
    rcases List.mem_append.1 hd with hd | hd
    · obtain ⟨hne, hawaits⟩ := hs.waits d hd
      exact ⟨hne, hawaits.keep hu hne⟩
    · obtain ⟨hdm, hawaits⟩ := hwaiting d (Option.mem_toList.1 hd)
      exact ⟨hdm ▸ hhere, hawaits⟩
  · rw [hdeferred, List.map_append, List.nodup_append']
    refine ⟨hs.once, ?_, ?_⟩
    · cases waiting <;> simp
    · intro i hold hnew
      obtain ⟨d, hd, rfl⟩ := List.mem_map.1 hold
      obtain ⟨d', hd', heq⟩ := List.mem_map.1 hnew
      have hlt := (hs.waits d hd).2.1
      rw [← heq, (hwaiting d' (Option.mem_toList.1 hd')).1] at hlt
      exact Nat.lt_irrefl _ hlt

/-- A declaration of a method. -/
theorem declareMethod_ready (hs : s.Accounted p policy here opened)
    (howner : owner < s.unit.classes.size) (modifiers : Modifiers)
    {decl : Syntax.FunctionDecl Syntax.Stmt} (hdecl : decl ∈ Syntax.functionsAll p.body) :
    GivesReady p policy here opened s (declareMethod owner modifiers decl) := by
  refine ((declareMethod_follows hs.inRange howner modifiers decl).toEnsures.and
    (declareMethod_cases owner modifiers decl)).mono ?_
  rintro tasks s' ⟨hfollows, ⟨rfl, hsame⟩ | ⟨m, hmethods, houtline, hbody⟩⟩
  · exact ⟨hsame.addsLocals, hfollows.unit.classes, fun _ h => absurd h List.not_mem_nil,
      (hs.same hfollows.inRange hsame).mono fun _ => .inr⟩
  · have hmethod : s'.unit.getMethod s.unit.methods.size = m := by
      rw [CodeUnit.getMethod, hmethods, CodeUnit.getD_push, if_pos rfl]
    have hawaits : Awaits p s'.unit owner s.unit.methods.size decl.body :=
      ⟨by simp [hmethods], decl, hdecl, rfl, hmethod ▸ houtline⟩
    refine ⟨.of_methods_push hmethods, hfollows.unit.classes, ?_⟩
    cases hkind : decl.body with
    | expr body =>
      rw [hkind] at hbody hawaits
      obtain ⟨hdeferred, rfl⟩ := hbody
      refine ⟨fun task htask => ?_, ?_⟩
      · rcases List.mem_append.1 htask with htask | htask
        · exact ready_of_not_mem (fun _ _ _ => exprBody_not_mem_defaultTasks) task htask
        · obtain rfl := List.mem_singleton.1 htask
          exact hawaits
      · have hnone : s'.deferred = s.deferred ++ (none : Option Deferred).toList := by
          rw [hdeferred, Option.toList_none, List.append_nil]
        refine hs.push hfollows.inRange hmethods hnone (fun d hd => absurd hd (Option.not_mem_none d))
          (fun _ => .inr) (.inl (.inl ?_))
        exact ⟨owner, body, List.mem_append_right _ (List.mem_singleton_self _)⟩
    | stmt body =>
      rw [hkind] at hbody hawaits
      obtain ⟨hdeferred, rfl⟩ := hbody
      refine ⟨ready_of_not_mem fun _ _ _ => exprBody_not_mem_defaultTasks, ?_⟩
      have hone : s'.deferred = s.deferred ++
          (some (⟨owner, s.unit.methods.size, body⟩ : Deferred)).toList := hdeferred
      refine hs.push hfollows.inRange hmethods hone ?_ (fun _ => .inr) (.inr ⟨_, rfl, rfl⟩)
      rintro d ⟨⟩
      exact ⟨rfl, hawaits⟩

/-- A declaration of a field. -/
theorem declareField_ready (hs : s.Accounted p policy here opened)
    (howner : owner < s.unit.classes.size) (modifiers : Modifiers) (decl : Syntax.VarDecl) :
    GivesReady p policy here opened s (declareField owner modifiers decl) := by
  refine ((declareField_follows hs.inRange howner modifiers decl).toEnsures.and
    (declareField_same owner modifiers decl)).mono ?_
  rintro tasks s' ⟨hfollows, hsame, htasks⟩
  exact ⟨hsame.addsLocals, hfollows.unit.classes, ready_of_not_mem htasks,
    (hs.same hfollows.inRange hsame).mono fun _ => .inr⟩

/-- Declarations one after the other, each in a class of the unit. -/
theorem declareAll_ready {f : α → Lower (List Task)} (owner : α → ClassId) (as : List α)
    (hf : ∀ a ∈ as, ∀ (opened : MethodId → Prop) {s : State}, s.Accounted p policy here opened →
      owner a < s.unit.classes.size → GivesReady p policy here opened s (f a))
    {opened : MethodId → Prop} {s : State} (hs : s.Accounted p policy here opened)
    (howner : ∀ a ∈ as, owner a < s.unit.classes.size) :
    GivesReady p policy here opened s (declareAll f as) := by
  induction as generalizing opened s with
  | nil =>
    exact ensures_pure ⟨.refl _, le_rfl, fun _ h => absurd h List.not_mem_nil, hs.mono fun _ => .inr⟩
  | cons a rest ih =>
    rw [List.forall_mem_cons] at hf howner
    apply Ensures.bind (hf.1 opened hs howner.1)
    intro tasks s₁ hstep
    obtain ⟨hu₁, hclasses₁, htasks, h₁⟩ := hstep
    apply Ensures.bind (ih hf.2 h₁ fun a ha => (howner.2 a ha).trans_le hclasses₁)
    intro others s₂ hstep
    obtain ⟨hu₂, hclasses₂, hothers, h₂⟩ := hstep
    refine ensures_pure ⟨hu₁.trans hu₂, hclasses₁.trans hclasses₂, fun task htask => ?_, ?_⟩
    · rcases List.mem_append.1 htask with htask | htask
      · exact (htasks task htask).keep hu₂
      · exact hothers task htask
    · refine h₂.mono fun i h => ?_
      rw [pending_append]
      grind

/-- The declarations of the members of a class. -/
theorem declareMembers_ready (hs : s.Accounted p policy here opened)
    (howner : owner < s.unit.classes.size) {decl : Syntax.ClassDecl Syntax.Stmt}
    (hdecl : Syntax.memberFunctions decl.members ⊆ Syntax.functionsAll p.body) :
    GivesReady p policy here opened s (declareMembers owner decl) := by
  refine declareAll_ready (fun _ => owner) _ ?_ hs fun _ _ => howner
  intro member hmember opened s hs howner
  dsimp only
  split
  · refine declareAll_ready (fun _ => owner) _ ?_ hs fun _ _ => howner
    exact fun var _ _ _ hs howner => declareField_ready hs howner _ var
  · rename_i function hkind
    exact declareMethod_ready hs howner _ (hdecl (Syntax.mem_memberFunctions hmember hkind))

/-! ## Running tasks -/

/-- The methods have their outlines still, and the same bodies wait. -/
structure State.SameOutlines (s s' : State) : Prop where
  size : s'.unit.methods.size = s.unit.methods.size
  outline : ∀ i, (s'.unit.getMethod i).outline = (s.unit.getMethod i).outline
  deferred : s'.deferred = s.deferred

/-- The same methods have the same outlines. -/
theorem State.SameMethods.sameOutlines (h : s.SameMethods s') : s.SameOutlines s' where
  size := congrArg Array.size h.methods
  outline i := by rw [CodeUnit.getMethod, CodeUnit.getMethod, h.methods]
  deferred := h.deferred

/-- Outlines that are the same twice over are the same. -/
theorem State.SameOutlines.trans {s'' : State} (h : s.SameOutlines s') (h' : s'.SameOutlines s'') :
    s.SameOutlines s'' :=
  ⟨h'.size.trans h.size, fun i => (h'.outline i).trans (h.outline i), h'.deferred.trans h.deferred⟩

/-- The same outlines have no locals more. -/
theorem State.SameOutlines.addsLocals (h : s.SameOutlines s') : s.unit.AddsLocals here [] s'.unit :=
  .of_outline_eq h.size.ge fun i _ => h.outline i

/-- A method may get a body or a default. -/
theorem State.sameOutlines_modifyMethod (s : State) (i : MethodId) {f : MethodDef → MethodDef}
    (hf : (f (s.unit.getMethod i)).outline = (s.unit.getMethod i).outline) :
    s.SameOutlines { s with unit := s.unit.modifyMethod i f } := by
  refine ⟨by simp [CodeUnit.modifyMethod], fun k => ?_, rfl⟩
  change ((s.unit.modifyMethod i f).getMethod k).outline = _
  rw [CodeUnit.getMethod_modifyMethod]
  split
  · rename_i h
    rw [← h.1]
    exact hf
  · rfl

/-- A task declares nothing, and the names in a body that it brings are lowered to what they stand
for. -/
theorem runTask_scoped {task : Task} (hjob : Comes p policy (task.job s.unit) s) (hs : s.InRange) :
    Ensures (runTask task) s fun _ s' => s.SameOutlines s' ∧ ∀ owner i body,
      task = .exprBody owner i body → AllScoped p policy owner i (body.occurrences .start) := by
  cases task with
  | fieldInit owner field init =>
    unfold runTask
    apply ensures_ask_bind
    apply Ensures.bind (lowerExpr_within _ init hs.unit (scopeFits_ofClass _ owner)).toEnsures
    intro value s₁ hstep
    apply ensures_ask_bind
    apply Ensures.bind (unify_retyped _ _).toEnsures
    intro _ s₂ h₂
    apply ensures_modifyUnit
    exact ⟨(hstep.1.trans h₂).sameMethods.sameOutlines.trans ⟨rfl, fun _ => rfl, rfl⟩, nofun⟩
  | paramDefault owner method param value =>
    unfold runTask
    apply ensures_ask_bind
    apply Ensures.bind (lowerExpr_within _ value hs.unit (scopeFits_ofClass _ owner)).toEnsures
    intro value s₁ hstep
    apply ensures_modifyUnit
    exact ⟨hstep.1.sameMethods.sameOutlines.trans
      (s₁.sameOutlines_modifyMethod method (MethodDef.outline_setDefault _ param value)), nofun⟩
  | exprBody owner method body =>
    unfold runTask
    apply ensures_ask_bind
    have hscoped := lowerExpr_scoped rfl .start body hjob
    apply Ensures.bind ((lowerExpr_within _ body hs.unit
      (scopeFits_ofMethod _ owner method)).toEnsures.and hscoped)
    intro value s₁ hstep
    obtain ⟨⟨h₁, -⟩, hscoped⟩ := hstep
    apply ensures_ask_bind
    apply Ensures.bind (unify_retyped _ _).toEnsures
    intro _ s₂ h₂
    apply ensures_modifyUnit
    refine ⟨(h₁.trans h₂).sameMethods.sameOutlines.trans
      (s₂.sameOutlines_modifyMethod method rfl), ?_⟩
    rintro owner' i body' ⟨⟩
    exact hscoped

/-- A method that was left open is settled. -/
theorem State.Accounted.settle {opened' : MethodId → Prop} (hs : s.Accounted p policy here opened')
    (hr : s'.InRange) (h : s.SameOutlines s')
    (hopened : ∀ i < s.unit.methods.size, opened' i →
      opened i ∨ Settled p policy i (s.unit.getMethod i).outline) :
    s'.Accounted p policy here opened := by
  have hkept := hs.keep hr h.addsLocals h.size h.deferred
  refine ⟨hr, hkept.here_lt, fun i hi => ?_, hkept.waits, hkept.once⟩
  rcases hkept.covered i hi with hcase | hcase | hcase
  · exact .inl hcase
  · rw [h.outline]
    exact .inr ((hopened i (h.size ▸ hi) hcase).imp_right .inr)
  · exact .inr (.inr hcase)

/-- A task that brings a body settles its method. -/
theorem runTask_accounted {task : Task} (hjob : Comes p policy (task.job s.unit) s)
    (hready : task.Ready p s.unit)
    (hs : s.Accounted p policy here fun i => Pending [task] i ∨ opened i) :
    Ensures (runTask task) s fun _ s' => s.SameOutlines s' ∧ s'.Accounted p policy here opened := by
  refine ((runTask_follows hs.inRange task).toEnsures.and (runTask_scoped hjob hs.inRange)).mono ?_
  rintro - s' ⟨hfollows, hsame, hscoped⟩
  refine ⟨hsame, hs.settle hfollows.inRange hsame ?_⟩
  rintro i - (⟨owner, body, hmem⟩ | h)
  · obtain rfl := List.mem_singleton.1 hmem
    exact .inr (Awaits.settled hready (.refl _) (hscoped owner i body rfl))
  · exact .inl h

/-- Running tasks settles the methods that get their bodies from them. -/
theorem runTasks_accounted (tasks : List Task) {s : State} (hjob : Comes p policy (.tasks tasks) s)
    (hready : ∀ task ∈ tasks, task.Ready p s.unit)
    (hs : s.Accounted p policy here fun i => Pending tasks i ∨ opened i) :
    Ensures (tasks.forM runTask) s fun _ s' =>
      s.SameOutlines s' ∧ s'.Accounted p policy here opened := by
  induction tasks generalizing s with
  | nil =>
    refine ensures_pure ⟨⟨rfl, fun _ => rfl, rfl⟩, hs.mono ?_⟩
    rintro i (⟨_, _, h⟩ | h)
    · cases h
    · exact h
  | cons task rest ih =>
    change Ensures (runTask task >>= fun _ => rest.forM runTask) s _
    rw [List.forall_mem_cons] at hready
    have hfirst : s.Accounted p policy here fun i => Pending [task] i ∨ Pending rest i ∨ opened i := by
      refine hs.mono fun i h => ?_
      rw [← List.singleton_append, pending_append, or_assoc] at h
      exact h
    apply Ensures.bind (runTask_accounted hjob.task hready.1 hfirst).ran
    intro _ s₁ hstep
    obtain ⟨⟨hsame, h₁⟩, hrun⟩ := hstep
    have hready₁ : ∀ task ∈ rest, task.Ready p s₁.unit := fun task htask =>
      (hready.2 task htask).keep hsame.addsLocals
    exact (ih (hjob.moreTasks hrun) hready₁ h₁).mono fun _ _ h₂ => ⟨hsame.trans h₂.1, h₂.2⟩

/-- A function inside of another one gets a method of its own, and the method around keeps its
locals. -/
theorem lowerFunction_accounted {site : Site} {scope : Scope}
    {decl : Syntax.FunctionDecl Syntax.Stmt}
    (hjob : Comes p policy (.stmt site scope (.function decl)) s)
    (hs : s.Accounted p policy here opened) (howner : site.owner < s.unit.classes.size)
    (hdecl : decl ∈ Syntax.functionsAll p.body) :
    Ensures (lowerFunction site decl) s fun _ s' =>
      s.unit.AddsLocals none [] s'.unit ∧ s'.Accounted p policy here opened := by
  apply Ensures.bind (declareMethod_ready hs howner _ hdecl).ran
  intro tasks s₁ hstep
  obtain ⟨⟨hu₁, -, hready, h₁⟩, hdeclare⟩ := hstep
  apply Ensures.bind (runTasks_accounted tasks (hjob.function hdeclare) hready h₁)
  intro _ s₂ hstep
  exact ensures_pure ⟨hu₁.trans hstep.1.addsLocals, hstep.2⟩

/-- So do the methods of a class inside of a function. -/
theorem lowerClass_accounted {site : Site} {scope : Scope} {decl : Syntax.ClassDecl Syntax.Stmt}
    (hjob : Comes p policy (.stmt site scope (.classDecl decl)) s)
    (hs : s.Accounted p policy here opened)
    (hdecl : Syntax.memberFunctions decl.members ⊆ Syntax.functionsAll p.body) :
    Ensures (lowerClass decl) s fun _ s' =>
      s.unit.AddsLocals none [] s'.unit ∧ s'.Accounted p policy here opened := by
  apply Ensures.bind ((declareClass_follows hs.inRange decl).toEnsures.and
    (declareClass_same decl)).ran
  intro owner s₁ hstep
  obtain ⟨⟨⟨hfollows, howner⟩, hsame⟩, hclass⟩ := hstep
  have h₁ := hs.same hfollows.inRange hsame
  cases owner with
  | none => exact ensures_pure ⟨hsame.addsLocals, h₁⟩
  | some owner =>
    apply Ensures.bind (declareMembers_ready h₁ (howner owner rfl) hdecl).ran
    intro tasks s₂ hstep
    obtain ⟨⟨hu₂, -, hready, h₂⟩, hmembers⟩ := hstep
    apply Ensures.bind (runTasks_accounted tasks (hjob.classMembers hclass hmembers) hready h₂)
    intro _ s₃ hstep
    exact ensures_pure ⟨hsame.addsLocals.trans (hu₂.trans hstep.1.addsLocals), hstep.2⟩

end ExpLang.Lowering
