import ExpLang.Lowering.Declaration
import ExpLang.Proofs.Lowering.Expressions

/-!
# Declarations keep a unit in order

A hole that stands for a type which is not written is open until the field or method is declared that
it was made for; where the declaration is refused an error is reported. A method that is declared gets
its body from a task or from the bodies that wait, and running the tasks gives it to those that have
one.
-/

namespace ExpLang.Lowering

open Resolved

variable {α : Type} {holes : TypeId → Prop} {bodies : MethodId → Prop} {s s' : State}

/-- A method gets its body from one of some tasks. -/
def Pending (tasks : List Task) (i : MethodId) : Prop :=
  ∃ owner body, Task.exprBody owner i body ∈ tasks

/-- A method waits for one of two lists of tasks if it waits for one in either. -/
theorem pending_append {tasks tasks' : List Task} {i : MethodId} :
    Pending (tasks ++ tasks') i ↔ Pending tasks i ∨ Pending tasks' i := by
  constructor
  · intro h
    obtain ⟨owner, body, h⟩ := h
    rcases List.mem_append.1 h with h | h
    · exact .inl ⟨owner, body, h⟩
    · exact .inr ⟨owner, body, h⟩
  · intro h
    rcases h with ⟨owner, body, h⟩ | ⟨owner, body, h⟩
    · exact ⟨owner, body, List.mem_append_left _ h⟩
    · exact ⟨owner, body, List.mem_append_right _ h⟩

/-- A step that declares things reaches a sound state, but for the bodies that its tasks bring. -/
def GivesTasks (holes : TypeId → Prop) (bodies : MethodId → Prop) (s : State)
    (x : Lower (List Task)) : Prop :=
  Ensures x s fun tasks s' => s.Reaches holes (fun i => Pending tasks i ∨ bodies i) s'

/-- A reached state is reached with more bodies waiting. -/
theorem State.Reaches.pending {tasks : List Task} (h : s.Reaches holes bodies s') :
    s.Reaches holes (fun i => Pending tasks i ∨ bodies i) s' :=
  ⟨h.sound.mono (fun _ h => h) (fun _ => .inr), h.grows⟩

/-- A declaration of a class. -/
theorem declareClass_ensures (hs : s.Sound holes bodies) (decl : Syntax.ClassDecl Syntax.Stmt) :
    Ensures (declareClass decl) s fun id s' => s.Reaches holes bodies s' ∧
      ∀ c, id = some c → c < s'.unit.classes.size := by
  apply declare_ensures
  · intro id u hcreate
    obtain ⟨hu, hgrows, hlt⟩ := hs.unit.createClass hcreate
    refine ⟨hs.withUnit hgrows hu, ?_⟩
    intro c h
    cases h
    exact hlt
  · exact fun d _ => ⟨hs.report d, nofun⟩

/-- A declaration of a field. -/
theorem declareField_gives (hs : s.Sound holes bodies) {owner : ClassId}
    (howner : owner < s.unit.classes.size) (modifiers : Modifiers) (decl : Syntax.VarDecl) :
    GivesTasks holes bodies s (declareField owner modifiers decl) := by
  apply Ensures.bind (declaredType_ensures hs decl.type)
  intro type s₁ h₁
  apply Ensures.bind (R := fun _ s' => s.Reaches holes bodies s')
  · apply declare_ensures
    · intro id u hcreate
      have hu₁ : s₁.unit.Sound (fun t => t = type ∨ holes t ∨ s₁.queue.hasErrors = true)
          (fun i => bodies i ∨ ∃ d ∈ s₁.deferred, d.method = i) :=
        h₁.sound.unit.mono (fun _ => or_assoc.1) (fun _ h => h)
      obtain ⟨hu, hgrows⟩ :=
        hu₁.createField (Nat.lt_of_lt_of_le howner h₁.grows.classes_le) hcreate
      exact h₁.trans (h₁.sound.withUnit hgrows hu)
    · exact fun d hd => h₁.trans (h₁.sound.reportError hd)
  · intro field s₂ h₂
    split <;> exact ensures_pure h₂.pending

/-- A name that is taken is reported. -/
theorem reportSeen_ensures (hs : s.Sound holes bodies) (method : String)
    (seen : List (String × Span)) (name : Syntax.Ident) :
    Ensures (reportSeen method seen name) s fun _ s' => s.Reaches holes bodies s' := by
  unfold reportSeen
  split
  · exact report_ensures hs _
  · exact ensures_pure hs.reaches

/-- The type of a parameter. -/
theorem paramType_ensures (hs : s.Sound holes bodies) (written : Option Syntax.TypeRef) :
    Ensures (paramType written) s fun _ s' => s.Reaches holes bodies s' := by
  cases written with
  | some type => exact writtenType_ensures hs type
  | none => exact ensures_pure hs.reaches

/-- The declarations of parameters. -/
theorem declareParams_ensures (method : String) (params : List Syntax.Param)
    (seen : List (String × Span)) {s : State} (hs : s.Sound holes bodies) :
    Ensures (declareParams method seen params) s fun _ s' => s.Reaches holes bodies s' := by
  induction params generalizing s seen with
  | nil => exact ensures_pure hs.reaches
  | cons p rest ih =>
    rw [declareParams_cons]
    apply Ensures.bind (reportSeen_ensures hs method seen p.name)
    intro _ s₁ h₁
    apply Ensures.bind (paramType_ensures h₁.sound p.type)
    intro type s₂ h₂
    apply Ensures.bind (ih _ h₂.sound)
    exact fun _ _ h₃ => ensures_pure (h₁.trans (h₂.trans h₃))

/-- A declaration of a method. Its body is a task or waits. -/
theorem declareMethod_gives (hs : s.Sound holes bodies) {owner : ClassId}
    (howner : owner < s.unit.classes.size) (modifiers : Modifiers)
    (decl : Syntax.FunctionDecl Syntax.Stmt) :
    GivesTasks holes bodies s (declareMethod owner modifiers decl) := by
  apply Ensures.bind (declaredType_ensures hs decl.ret)
  intro ret s₁ h₁
  apply Ensures.bind (declareParams_ensures _ _ _ h₁.sound)
  intro params s₂ h₂
  have hgrows₂ := h₁.grows.trans h₂.grows
  apply Ensures.bind (R := fun id s' => (id = none → s.Reaches holes bodies s') ∧
    ∀ m, id = some m → s.Reaches holes (fun i => i = m ∨ bodies i) s' ∧
      m < s'.unit.methods.size ∧ owner < s'.unit.classes.size)
  · apply declare_ensures
    · intro id u hcreate
      have howner₂ := Nat.lt_of_lt_of_le howner hgrows₂.classes_le
      have hu₂ : s₂.unit.Sound (fun t => t = ret ∨ holes t ∨ s₂.queue.hasErrors = true)
          (fun i => bodies i ∨ ∃ d ∈ s₂.deferred, d.method = i) :=
        h₂.sound.unit.mono (fun _ => or_assoc.1) (fun _ h => h)
      obtain ⟨hu, hgrows, hlt⟩ := hu₂.createMethod howner₂ hcreate
      have hu' := hu.mono (fun _ h => h) (fun _ => or_assoc.2)
      refine ⟨nofun, ?_⟩
      intro m h
      cases h
      exact ⟨(h₁.trans h₂).trans (h₂.sound.withUnit hgrows hu'), hlt,
        Nat.lt_of_lt_of_le howner₂ hgrows.classes_le⟩
    · exact fun d hd => ⟨fun _ => (h₁.trans h₂).trans (h₂.sound.reportError hd),
        nofun⟩
  · intro id s₃ h₃
    cases id with
    | none => exact ensures_pure (h₃.1 rfl).pending
    | some method =>
      obtain ⟨h₃, hmethod, howner₃⟩ := h₃.2 method rfl
      dsimp only
      split
      · rename_i body _
        refine ensures_pure ⟨h₃.sound.mono (fun _ h => h) ?_, h₃.grows⟩
        intro i h
        rcases h with rfl | h
        · refine .inl (pending_append.2 (.inr ⟨owner, body, List.mem_singleton_self _⟩))
        · exact .inr h
      · rename_i body _
        refine ⟨fun tasks s' hrun => ?_⟩
        cases hrun
        refine ⟨⟨h₃.sound.unit.mono (fun _ h => h) ?_, ?_⟩, h₃.grows⟩
        · intro i h
          rcases h with (rfl | h) | ⟨d, hd, rfl⟩
          · exact .inr ⟨⟨owner, i, body⟩, List.mem_append_right _ (List.mem_singleton_self _), rfl⟩
          · exact .inl (.inr h)
          · exact .inr ⟨d, List.mem_append_left _ hd, rfl⟩
        · intro d hd
          rcases List.mem_append.1 hd with hd | hd
          · exact h₃.sound.deferred d hd
          · rw [List.mem_singleton.1 hd]
            exact ⟨howner₃, hmethod⟩

/-- Declarations one after the other, each in a class of the unit. -/
theorem declareAll_gives {f : α → Lower (List Task)} (owner : α → ClassId)
    (hf : ∀ a (bodies : MethodId → Prop) {s : State}, s.Sound holes bodies →
      owner a < s.unit.classes.size → GivesTasks holes bodies s (f a))
    (as : List α) {bodies : MethodId → Prop} {s : State} (hs : s.Sound holes bodies)
    (howner : ∀ a ∈ as, owner a < s.unit.classes.size) :
    GivesTasks holes bodies s (declareAll f as) := by
  induction as generalizing bodies s with
  | nil => exact ensures_pure hs.reaches.pending
  | cons a rest ih =>
    apply Ensures.bind (hf a bodies hs (howner a List.mem_cons_self))
    intro tasks s₁ h₁
    have howner₁ : ∀ a ∈ rest, owner a < s₁.unit.classes.size := fun a ha =>
      Nat.lt_of_lt_of_le (howner a (List.mem_cons_of_mem _ ha)) h₁.grows.classes_le
    apply Ensures.bind (ih h₁.sound howner₁)
    intro others s₂ h₂
    refine ensures_pure ⟨h₂.sound.mono (fun _ h => h) fun i h => ?_, h₁.grows.trans h₂.grows⟩
    rw [pending_append]
    grind

/-- The declarations of the members of a class. -/
theorem declareMembers_gives (hs : s.Sound holes bodies) {owner : ClassId}
    (howner : owner < s.unit.classes.size) (decl : Syntax.ClassDecl Syntax.Stmt) :
    GivesTasks holes bodies s (declareMembers owner decl) := by
  refine declareAll_gives (fun _ => owner) ?_ _ hs (fun _ _ => howner)
  intro member bodies s hs howner
  dsimp only
  split
  · refine declareAll_gives (fun _ => owner) ?_ _ hs (fun _ _ => howner)
    exact fun var _ _ hs howner => declareField_gives hs howner _ var
  · exact declareMethod_gives hs howner _ _

/-! ## Running tasks -/

/-- A task that brings a body gives it to its method. -/
theorem runTask_ensures (task : Task) (hs : s.Sound holes fun i => Pending [task] i ∨ bodies i) :
    Ensures (runTask task) s fun _ s' => s.Reaches holes bodies s' := by
  cases task with
  | fieldInit owner field init =>
    have hs : s.Sound holes bodies := by
      refine hs.mono (fun _ h => h) ?_
      intro i h
      rcases h with ⟨_, _, h⟩ | h
      · cases List.mem_singleton.1 h
      · exact h
    unfold runTask
    apply ensures_ask_bind
    apply Ensures.bind (lowerExpr_gives _ (localScope_ofClass owner) init hs)
    intro value s₁ hstep
    obtain ⟨h₁, hvalue⟩ := hstep
    apply ensures_ask_bind
    apply Ensures.bind (unify_ensures h₁.sound _ _)
    intro _ s₂ h₂
    apply ensures_modifyUnit
    obtain ⟨hu, hgrows⟩ := h₂.sound.unit.setInit (hvalue.mono h₂.grows.methods_le)
    exact (h₁.trans h₂).trans (h₂.sound.withUnit hgrows hu)
  | paramDefault owner method param value =>
    have hs : s.Sound holes bodies := by
      refine hs.mono (fun _ h => h) ?_
      intro i h
      rcases h with ⟨_, _, h⟩ | h
      · cases List.mem_singleton.1 h
      · exact h
    unfold runTask
    apply ensures_ask_bind
    apply Ensures.bind (lowerExpr_gives _ (localScope_ofClass owner) value hs)
    intro value s₁ hstep
    obtain ⟨h₁, hvalue⟩ := hstep
    apply ensures_modifyUnit
    obtain ⟨hu, hgrows⟩ := h₁.sound.unit.setDefault hvalue
    exact h₁.trans (h₁.sound.withUnit hgrows hu)
  | exprBody owner method body =>
    have hs : s.Sound holes fun i => i = method ∨ bodies i := by
      refine hs.mono (fun _ h => h) ?_
      intro i h
      rcases h with ⟨_, _, h⟩ | h
      · cases List.mem_singleton.1 h
        exact .inl rfl
      · exact .inr h
    unfold runTask
    apply ensures_ask_bind
    apply Ensures.bind (lowerExpr_gives _ (localScope_ofMethod owner method) body hs)
    intro value s₁ hstep
    obtain ⟨h₁, hvalue⟩ := hstep
    apply ensures_ask_bind
    apply Ensures.bind (unify_ensures h₁.sound _ _)
    intro _ s₂ h₂
    apply ensures_modifyUnit
    have hu₂ := h₂.sound.unit.mono (fun _ h => h) (fun _ => or_assoc.1)
    have hbody : Below (Resolved.Stmt.ret (some value) value.span).methods s₂.unit.methods.size :=
      hvalue.mono h₂.grows.methods_le
    obtain ⟨hu, hgrows⟩ := hu₂.setBody hbody
    exact (h₁.trans h₂).trans (h₂.sound.withUnit hgrows hu)

/-- Running tasks gives all methods their bodies that are to get them from these tasks. -/
theorem runTasks_ensures (tasks : List Task) {bodies : MethodId → Prop} {s : State}
    (hs : s.Sound holes fun i => Pending tasks i ∨ bodies i) :
    Ensures (tasks.forM runTask) s fun _ s' => s.Reaches holes bodies s' := by
  induction tasks generalizing s with
  | nil =>
    refine ensures_pure (State.Sound.reaches (hs.mono (fun _ h => h) ?_))
    intro i h
    rcases h with ⟨_, _, h⟩ | h
    · cases h
    · exact h
  | cons task rest ih =>
    change Ensures (runTask task >>= fun _ => rest.forM runTask) s _
    have hfirst : s.Sound holes fun i => Pending [task] i ∨ Pending rest i ∨ bodies i := by
      refine hs.mono (fun _ h => h) fun i h => ?_
      rw [← List.singleton_append, pending_append, or_assoc] at h
      exact h
    apply Ensures.bind (runTask_ensures task hfirst)
    intro _ s₁ h₁
    exact (ih h₁.sound).mono fun _ _ h₂ => h₁.trans h₂

/-- Declaring things and running their tasks at once. -/
theorem declareAndRun_ensures {x : Lower (List Task)} (hx : GivesTasks holes bodies s x) (a : α) :
    Ensures (do
        let tasks ← x
        tasks.forM runTask
        return a) s fun r s' => s.Reaches holes bodies s' ∧ r = a := by
  apply Ensures.bind hx
  intro tasks s₁ h₁
  apply Ensures.bind (runTasks_ensures tasks h₁.sound)
  exact fun _ _ h₂ => ensures_pure ⟨h₁.trans h₂, rfl⟩

/-- A class inside of a function. -/
theorem lowerClass_ensures (hs : s.Sound holes bodies) (decl : Syntax.ClassDecl Syntax.Stmt) :
    Ensures (lowerClass decl) s
      fun stmt s' => s.Reaches holes bodies s' ∧ stmt = .skip decl.span := by
  apply Ensures.bind (declareClass_ensures hs decl)
  intro owner s₁ hstep
  obtain ⟨h₁, howner⟩ := hstep
  cases owner with
  | none => exact ensures_pure ⟨h₁, rfl⟩
  | some owner =>
    have hmembers := declareMembers_gives h₁.sound (howner owner rfl) decl
    refine (declareAndRun_ensures hmembers _).mono ?_
    exact fun _ _ h₂ => ⟨h₁.trans h₂.1, h₂.2⟩

/-- A function inside of another one. -/
theorem lowerFunction_ensures (hs : s.Sound holes bodies) {site : Site}
    (howner : site.owner < s.unit.classes.size) (decl : Syntax.FunctionDecl Syntax.Stmt) :
    Ensures (lowerFunction site decl) s
      fun stmt s' => s.Reaches holes bodies s' ∧ stmt = .skip decl.span :=
  declareAndRun_ensures (declareMethod_gives hs howner _ decl) _

end ExpLang.Lowering
