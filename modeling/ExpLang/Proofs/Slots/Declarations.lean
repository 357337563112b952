import ExpLang.Lowering.Declaration
import ExpLang.Proofs.Slots.Expressions
import ExpLang.Syntax.Nesting
import Mathlib.Algebra.GroupWithZero.Nat

/-!
# Declarations keep a unit in range

What is lowered right after a declaration is lowered outside of the method around: first values and
defaults stand in no method, and a body that is one expression stands in its own. So nothing of the
frame around leaks into it. `State.Follows n` says of a later state that its unit is in range, that it
has all that the unit had before, and that the bodies that wait have at most `n` more functions in them.
-/

namespace ExpLang.Lowering

open Resolved

variable {α : Type} {s s' s'' : State}

/-- The number of functions in the bodies that wait, which are functions themselves. -/
def State.waiting (s : State) : Nat := (s.deferred.map fun d => d.body.functionCount + 1).sum

/-- The unit is in range, and what waits belongs to it. -/
structure State.InRange (s : State) : Prop where
  unit : s.unit.InRange
  deferred : ∀ d ∈ s.deferred, d.owner < s.unit.classes.size ∧ d.method < s.unit.methods.size

/-- A later state is in range, has all that there was, and makes at most `n` more functions wait. -/
structure State.Follows (n : Nat) (s s' : State) : Prop where
  inRange : s'.InRange
  unit : s.unit.Extends s'.unit
  waiting_le : s'.waiting ≤ s.waiting + n

namespace State

/-- A state in range follows itself. -/
theorem InRange.follows (hs : s.InRange) : s.Follows 0 s := ⟨hs, .refl _, Nat.le_refl _⟩

/-- A state that follows a later one follows an earlier one, with all functions that wait. -/
theorem Follows.trans {n n' : Nat} (h : s.Follows n s') (h' : s'.Follows n' s'') :
    s.Follows (n + n') s'' := by
  refine ⟨h'.inRange, h.unit.trans h'.unit, ?_⟩
  have hfirst := h.waiting_le
  have hsecond := h'.waiting_le
  omega

/-- A state that makes some functions wait makes at most more wait. -/
theorem Follows.weaken {n n' : Nat} (h : s.Follows n s') (hle : n ≤ n') : s.Follows n' s' :=
  ⟨h.inRange, h.unit, Nat.le_trans h.waiting_le (Nat.add_le_add_left hle _)⟩

/-- Another unit in the place of a unit that it extends. -/
theorem InRange.withUnit (hs : s.InRange) {u : CodeUnit} (hu : u.InRange ∧ s.unit.Extends u) :
    s.Follows 0 { s with unit := u } := by
  refine ⟨⟨hu.1, fun d hd => ?_⟩, hu.2, Nat.le_refl _⟩
  obtain ⟨howner, hmethod⟩ := hs.deferred d hd
  exact ⟨Nat.lt_of_lt_of_le howner hu.2.classes, Nat.lt_of_lt_of_le hmethod hu.2.methods⟩

/-- A state with other types only makes no function wait. -/
theorem Retyped.follows (h : s.Retyped s') (hs : s.InRange) : s.Follows 0 s' := by
  have hunit := h.inRange hs.unit
  obtain ⟨types, queue, -, rfl⟩ := h
  refine ⟨⟨hunit, hs.deferred⟩, ⟨Nat.le_refl _, Nat.le_refl _, Nat.le_refl _,
    fun _ _ => Nat.le_refl _, fun _ _ => rfl⟩, Nat.le_refl _⟩

end State

/-! ## Declaring things -/

/-- Declaring ends with what was created, or with a taken name and nothing created. -/
theorem declare_meets {create : CodeUnit → Except DuplicateName (α × CodeUnit)} (span : Span)
    {Q : Option α → State → Prop}
    (hok : ∀ id u, create s.unit = .ok (id, u) → Q (some id) { s with unit := u })
    (hclash : ∀ d : Diagnostic, Q none { s with queue := s.queue.add d }) :
    Meets (declare span create) s Q := by
  apply meets_get_bind
  split
  · rename_i id u hcreate
    exact Meets.bind (R := fun _ s' => Q (some id) s') (meets_modifyUnit (hok id u hcreate))
      fun _ _ h => meets_pure h
  · exact Meets.bind (R := fun _ s' => Q none s') (meets_report (hclash _)) fun _ _ h => meets_pure h

/-- Declaring a class keeps a state in range and gives a class of the unit. -/
theorem declareClass_follows (hs : s.InRange) (decl : Syntax.ClassDecl Syntax.Stmt) :
    Meets (declareClass decl) s fun id s' => s.Follows 0 s' ∧
      ∀ c, id = some c → c < s'.unit.classes.size := by
  apply declare_meets
  · intro id u hcreate
    obtain ⟨hu, hextends, hlt⟩ := hs.unit.createClass hcreate
    refine ⟨hs.withUnit ⟨hu, hextends⟩, fun c h => ?_⟩
    cases h
    exact hlt
  · intro d
    have hreport : s.Retyped { s with queue := s.queue.add d } := ⟨_, _, fun _ h => h, rfl⟩
    exact ⟨hreport.follows hs, fun _ h => by cases h⟩

/-- Declaring a field of a class of the unit keeps a state in range. -/
theorem declareField_follows (hs : s.InRange) {owner : ClassId}
    (howner : owner < s.unit.classes.size) (modifiers : Modifiers) (decl : Syntax.VarDecl) :
    Meets (declareField owner modifiers decl) s fun _ s' => s.Follows 0 s' := by
  apply Meets.bind (declaredType_retyped decl.type)
  intro type s₁ h₁
  have hs₁ := h₁.follows hs
  apply Meets.bind (R := fun _ s' => s.Follows 0 s')
  · apply declare_meets
    · intro id u hcreate
      have howner₁ := Nat.lt_of_lt_of_le howner hs₁.unit.classes
      exact hs₁.trans (hs₁.inRange.withUnit (hs₁.inRange.unit.createField howner₁ hcreate))
    · exact fun d => (h₁.trans ⟨_, _, fun _ h => h, rfl⟩).follows hs
  · intro field s₂ h₂
    split <;> exact meets_pure h₂

/-- Reporting a parameter name that was seen before changes findings at most. -/
theorem reportSeen_retyped (method : String) (seen : List (String × Span)) (name : Syntax.Ident) :
    Meets (reportSeen method seen name) s fun _ s' => s.Retyped s' := by
  unfold reportSeen
  split
  · exact report_retyped _
  · exact meets_pure (.refl s)

/-- Lowering the type of a parameter changes types and findings at most. -/
theorem paramType_retyped (written : Option Syntax.TypeRef) :
    Meets (paramType written) s fun _ s' => s.Retyped s' := by
  cases written with
  | some type => exact writtenType_retyped type
  | none => exact meets_pure (.refl s)

/-- Declaring parameters changes types and findings at most. -/
theorem declareParams_retyped (method : String) (params : List Syntax.Param)
    (seen : List (String × Span)) {s : State} :
    Meets (declareParams method seen params) s fun _ s' => s.Retyped s' := by
  induction params generalizing s seen with
  | nil => exact meets_pure (.refl s)
  | cons p rest ih =>
    rw [declareParams_cons]
    apply Meets.bind (reportSeen_retyped method seen p.name)
    intro _ s₁ h₁
    apply Meets.bind (paramType_retyped p.type)
    intro type s₂ h₂
    apply Meets.bind (ih _)
    exact fun _ _ h₃ => meets_pure (h₁.trans (h₂.trans h₃))

/-- A method that is declared waits for its body together with the functions in it. -/
theorem declareMethod_follows (hs : s.InRange) {owner : ClassId}
    (howner : owner < s.unit.classes.size) (modifiers : Modifiers)
    (decl : Syntax.FunctionDecl Syntax.Stmt) :
    Meets (declareMethod owner modifiers decl) s fun _ s' =>
      s.Follows (Syntax.Stmt.function decl).functionCount s' := by
  apply Meets.bind (declaredType_retyped decl.ret)
  intro ret s₁ h₁
  apply Meets.bind (declareParams_retyped _ _ _)
  intro params s₂ h₂
  have h₁₂ := h₁.trans h₂
  have hs₂ := h₁₂.follows hs
  have howner₂ := Nat.lt_of_lt_of_le howner hs₂.unit.classes
  apply Meets.bind (R := fun id s' => s.Follows 0 s' ∧
    ∀ m, id = some m → m < s'.unit.methods.size)
  · apply declare_meets
    · intro id u hcreate
      obtain ⟨hu, hextends, hlt⟩ := hs₂.inRange.unit.createMethod howner₂ hcreate
      refine ⟨hs₂.trans (hs₂.inRange.withUnit ⟨hu, hextends⟩), fun m h => ?_⟩
      cases h
      exact hlt
    · exact fun d => ⟨(h₁₂.trans ⟨_, _, fun _ h => h, rfl⟩).follows hs, fun _ h => by cases h⟩
  · intro id s₃ hstep
    obtain ⟨h₃, hmethod⟩ := hstep
    cases id with
    | none => exact meets_pure (h₃.weaken (Nat.zero_le _))
    | some method =>
      obtain ⟨name, declParams, declRet, body, span⟩ := decl
      cases body with
      | expr body => exact meets_pure h₃
      | stmt body =>
        refine ⟨⟨fun tasks s' hrun => ?_⟩, fun halt hrun => by cases hrun⟩
        cases hrun
        refine ⟨⟨h₃.inRange.unit, fun d hd => ?_⟩, h₃.unit, ?_⟩
        · rcases List.mem_append.1 hd with hd | hd
          · exact h₃.inRange.deferred d hd
          · rw [List.mem_singleton.1 hd]
            exact ⟨Nat.lt_of_lt_of_le howner h₃.unit.classes, hmethod method rfl⟩
        · have hwaiting := h₃.waiting_le
          simp only [State.waiting, List.map_append, List.map_cons, List.map_nil, List.sum_append,
            List.sum_cons, List.sum_nil, Nat.add_zero, Syntax.Stmt.functionCount] at hwaiting ⊢
          omega

/-- Declarations one after the other, each in a class of the unit. -/
theorem declareAll_follows {f : α → Lower (List Task)} (owner : α → ClassId) (count : α → Nat)
    (hf : ∀ a {s : State}, s.InRange → owner a < s.unit.classes.size →
      Meets (f a) s fun _ s' => s.Follows (count a) s')
    (as : List α) {s : State} (hs : s.InRange) (howner : ∀ a ∈ as, owner a < s.unit.classes.size) :
    Meets (declareAll f as) s fun _ s' => s.Follows (as.map count).sum s' := by
  induction as generalizing s with
  | nil => exact meets_pure hs.follows
  | cons a rest ih =>
    apply Meets.bind (hf a hs (howner a List.mem_cons_self))
    intro tasks s₁ h₁
    have howner₁ : ∀ a ∈ rest, owner a < s₁.unit.classes.size := fun a ha =>
      Nat.lt_of_lt_of_le (howner a (List.mem_cons_of_mem _ ha)) h₁.unit.classes
    apply Meets.bind (ih h₁.inRange howner₁)
    intro others s₂ h₂
    rw [List.map_cons, List.sum_cons]
    exact meets_pure (h₁.trans h₂)

/-- The functions of the members of a class, member by member. -/
theorem memberFunctionCounts_eq_sum (members : List (Syntax.MemberDecl Syntax.Stmt)) :
    Syntax.memberFunctionCounts members =
      (members.map fun member => Syntax.memberFunctionCounts [member]).sum := by
  induction members with
  | nil => rfl
  | cons member rest ih =>
    rw [List.map_cons, List.sum_cons, ← ih]
    obtain ⟨isStatic, kind, span⟩ := member
    cases kind with
    | fields vars => simp [Syntax.memberFunctionCounts]
    | method function =>
      obtain ⟨name, params, ret, body, span⟩ := function
      cases body <;> simp [Syntax.memberFunctionCounts]

/-- Declaring the members of a class makes at most as many functions wait as there are in them. -/
theorem declareMembers_follows (hs : s.InRange) {owner : ClassId}
    (howner : owner < s.unit.classes.size) (decl : Syntax.ClassDecl Syntax.Stmt) :
    Meets (declareMembers owner decl) s fun _ s' =>
      s.Follows (Syntax.memberFunctionCounts decl.members) s' := by
  rw [memberFunctionCounts_eq_sum]
  refine declareAll_follows (fun _ => owner) _ ?_ _ hs (fun _ _ => howner)
  intro member s hs howner
  obtain ⟨isStatic, kind, span⟩ := member
  cases kind with
  | fields vars =>
    have hfields := declareAll_follows (fun _ => owner) (fun _ => 0)
      (fun var _ hs howner => declareField_follows hs howner
        (if isStatic then Modifiers.ofClass else .ofObject) var) vars.decls hs (fun _ _ => howner)
    exact hfields.mono fun _ _ h => h.weaken (by simp)
  | method function =>
    refine (declareMethod_follows hs howner _ function).mono fun _ _ h => h.weaken ?_
    obtain ⟨name, params, ret, body, span⟩ := function
    cases body <;> simp [Syntax.memberFunctionCounts, Syntax.Stmt.functionCount]

/-! ## Running tasks -/

/-- A task keeps a state in range and makes no function wait. -/
theorem runTask_follows (hs : s.InRange) (task : Task) :
    Meets (runTask task) s fun _ s' => s.Follows 0 s' := by
  cases task with
  | fieldInit owner field init =>
    unfold runTask
    apply meets_ask_bind
    apply Meets.bind (lowerExpr_within _ init hs.unit (scopeFits_ofClass _ owner))
    intro value s₁ hstep
    obtain ⟨h₁, hvalue⟩ := hstep
    apply meets_ask_bind
    apply Meets.bind (unify_retyped _ _)
    intro _ s₂ h₂
    have h₁₂ := h₁.trans h₂
    have hs₂ := h₁₂.follows hs
    apply meets_modifyUnit
    exact hs₂.trans (hs₂.inRange.withUnit (hs₂.inRange.unit.setInit (h₁₂.bounds_eq none ▸ hvalue)))
  | paramDefault owner method param value =>
    unfold runTask
    apply meets_ask_bind
    apply Meets.bind (lowerExpr_within _ value hs.unit (scopeFits_ofClass _ owner))
    intro value s₁ hstep
    obtain ⟨h₁, hvalue⟩ := hstep
    have hs₁ := h₁.follows hs
    apply meets_modifyUnit
    exact hs₁.trans (hs₁.inRange.withUnit (hs₁.inRange.unit.setDefault (h₁.bounds_eq none ▸ hvalue)))
  | exprBody owner method body =>
    unfold runTask
    apply meets_ask_bind
    apply Meets.bind (lowerExpr_within _ body hs.unit (scopeFits_ofMethod _ owner method))
    intro value s₁ hstep
    obtain ⟨h₁, hvalue⟩ := hstep
    apply meets_ask_bind
    apply Meets.bind (unify_retyped _ _)
    intro _ s₂ h₂
    have h₁₂ := h₁.trans h₂
    have hs₂ := h₁₂.follows hs
    have hbody : CodeWithin (s₂.unit.bounds (some method))
        (Resolved.Stmt.ret (some value) value.span).visits :=
      codeWithin_cons.2 ⟨trivial, h₁₂.bounds_eq (some method) ▸ hvalue⟩
    apply meets_modifyUnit
    exact hs₂.trans (hs₂.inRange.withUnit (hs₂.inRange.unit.setBody hbody))

/-- Tasks one after the other keep a state in range and make no function wait. -/
theorem runTasks_follows (tasks : List Task) {s : State} (hs : s.InRange) :
    Meets (tasks.forM runTask) s fun _ s' => s.Follows 0 s' := by
  induction tasks generalizing s with
  | nil => exact meets_pure hs.follows
  | cons task rest ih =>
    change Meets (runTask task >>= fun _ => rest.forM runTask) s _
    apply Meets.bind (runTask_follows hs task)
    exact fun _ s₁ h₁ => (ih h₁.inRange).mono fun _ _ h₂ => h₁.trans h₂

/-- Declaring things and running their tasks at once. -/
theorem declareAndRun_follows {n : Nat} {x : Lower (List Task)}
    (hx : Meets x s fun _ s' => s.Follows n s') (a : α) :
    Meets (do
        let tasks ← x
        tasks.forM runTask
        return a) s fun r s' => s.Follows n s' ∧ r = a := by
  apply Meets.bind hx
  intro tasks s₁ h₁
  apply Meets.bind (runTasks_follows tasks h₁.inRange)
  exact fun _ _ h₂ => meets_pure ⟨h₁.trans h₂, rfl⟩

/-- A class inside of a function. -/
theorem lowerClass_follows (hs : s.InRange) (decl : Syntax.ClassDecl Syntax.Stmt) :
    Meets (lowerClass decl) s fun stmt s' =>
      s.Follows (Syntax.Stmt.classDecl decl).functionCount s' ∧ stmt = .skip decl.span := by
  apply Meets.bind (declareClass_follows hs decl)
  intro owner s₁ hstep
  obtain ⟨h₁, howner⟩ := hstep
  cases owner with
  | none => exact meets_pure ⟨h₁.weaken (Nat.zero_le _), rfl⟩
  | some owner =>
    have hmembers := declareMembers_follows h₁.inRange (howner owner rfl) decl
    refine (declareAndRun_follows hmembers _).mono fun _ _ h₂ => ⟨?_, h₂.2⟩
    obtain ⟨name, members, span⟩ := decl
    exact (h₁.trans h₂.1).weaken (by simp [Syntax.Stmt.functionCount])

/-- A function inside of another one. -/
theorem lowerFunction_follows (hs : s.InRange) {site : Site}
    (howner : site.owner < s.unit.classes.size) (decl : Syntax.FunctionDecl Syntax.Stmt) :
    Meets (lowerFunction site decl) s fun stmt s' =>
      s.Follows (Syntax.Stmt.function decl).functionCount s' ∧ stmt = .skip decl.span :=
  declareAndRun_follows (declareMethod_follows hs howner _ decl) _

end ExpLang.Lowering
