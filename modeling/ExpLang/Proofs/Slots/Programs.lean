import ExpLang.Lowering.Program
import ExpLang.Proofs.Resolved.Namespaces
import ExpLang.Proofs.Slots.Statements

/-!
# Lowered programs are in range

The class and the method that a program starts in are declared in an empty unit, so that they clash
with nothing. From there on every state of lowering is in range, and lowering stops for an expected
reason only. Each body that is lowered takes one function off those that wait and adds at most those
inside of it, so that the number of functions of a program bounds how many bodies are lowered; a larger
bound makes no difference.
-/

namespace ExpLang.Lowering

open Resolved

variable {α β : Type} {s s' : State}

/-! ## The start -/

/-- The empty unit is in range. -/
theorem inRange_empty : CodeUnit.empty.InRange where
  method _ hi := absurd hi (Nat.not_lt_zero _)
  field _ hi := absurd hi (Nat.not_lt_zero _)
  method_listed c i hi := by cases hi
  field_listed c i hi := by cases hi
  class_type c hc := by
    have hinitial := TypePool.ofClass_mem_intern hc fun heq => by cases heq
    simp [TypePool.initial] at hinitial

/-- The class and the method that a program starts in. -/
theorem declareMain_within (hdeferred : s.deferred = []) (span : Span) :
    Meets (declareMain span) s fun r s' => s'.InRange ∧ s'.waiting = 0 ∧
      SiteFits r.2 s'.unit ⟨r.1, some r.2, true⟩ := by
  have hfresh : CodeUnit.empty.classNamed? mainClass = none := by
    simp [CodeUnit.classNamed?, CodeUnit.empty]
  obtain ⟨⟨owner, u⟩, hclass⟩ : ∃ r, CodeUnit.empty.createClass mainClass span = .ok r :=
    ⟨_, CodeUnit.createClass_of_free hfresh span⟩
  obtain ⟨hu, -, howner⟩ := inRange_empty.createClass hclass
  have hbare (types : TypePool) : ({ u with types := types } : CodeUnit).member? owner mainMethod =
      none := by
    obtain ⟨rfl, c, hmethods, hfields, rfl⟩ := CodeUnit.createClass_eq_ok hclass
    simp [CodeUnit.member?, CodeUnit.fieldNamed?, CodeUnit.methodNamed?, CodeUnit.getClass,
      hmethods, hfields]
  have hmethod := CodeUnit.createMethod_of_free
    (hbare (u.types.newHole.2.array Primitive.string.id).2) u.types.newHole.1 .ofClass
    [("argv", (u.types.newHole.2.array Primitive.string.id).1)] span
  have htyped : CodeUnit.InRange
      { u with types := (u.types.newHole.2.array Primitive.string.id).2 } := hu.withTypes fun c hc =>
    TypePool.ofClass_mem_newHole (TypePool.ofClass_mem_intern hc fun heq => by cases heq)
  obtain ⟨hu', hextends, hlt⟩ := htyped.createMethod howner hmethod
  unfold declareMain
  dsimp only
  rw [hclass]
  dsimp only [Bind.bind, Except.bind]
  rw [hmethod]
  refine ⟨⟨fun r s' hrun => ?_⟩, fun halt hrun => by cases hrun⟩
  cases hrun
  refine ⟨⟨hu', fun d hd => ?_⟩, ?_, Nat.lt_of_lt_of_le howner hextends.classes, rfl, hlt⟩
  · change d ∈ s.deferred at hd
    rw [hdeferred] at hd
    cases hd
  · change (s.deferred.map _).sum = 0
    rw [hdeferred]
    rfl

/-- Classes without their members. -/
theorem declareClasses_follows (decls : List (Syntax.ClassDecl Syntax.Stmt)) {s : State}
    (hs : s.InRange) :
    Meets (declareClasses decls) s fun declared s' => s.Follows 0 s' ∧
      (∀ r ∈ declared, r.1 < s'.unit.classes.size) ∧
      (declared.map fun r => Syntax.memberFunctionCounts r.2.members).sum ≤
        (decls.map fun decl => Syntax.memberFunctionCounts decl.members).sum := by
  induction decls generalizing s with
  | nil => exact meets_pure ⟨hs.follows, (fun _ h => by cases h), Nat.le_refl _⟩
  | cons decl rest ih =>
    apply Meets.bind (declareClass_follows hs decl)
    intro owner s₁ hstep
    obtain ⟨h₁, howner⟩ := hstep
    apply Meets.bind (ih h₁.inRange)
    intro others s₂ hstep
    obtain ⟨h₂, hothers, hsum⟩ := hstep
    rw [List.map_cons, List.sum_cons]
    refine meets_pure ⟨h₁.trans h₂, fun r hr => ?_, ?_⟩
    · rcases List.mem_append.1 hr with hr | hr
      · cases owner with
        | none => cases hr
        | some owner =>
          rw [List.mem_singleton.1 hr]
          exact Nat.lt_of_lt_of_le (howner owner rfl) h₂.unit.classes
      · exact hothers r hr
    · cases owner with
      | none => exact Nat.le_trans hsum (Nat.le_add_left _ _)
      | some owner => exact Nat.add_le_add_left hsum _

/-- The functions of a program are those of its classes, its functions and its other statements. -/
theorem functionCounts_eq (body : List Syntax.Stmt) :
    Syntax.functionCounts body =
      ((classDecls body).map fun decl => Syntax.memberFunctionCounts decl.members).sum +
        ((functionDecls body).map fun decl => (Syntax.Stmt.function decl).functionCount).sum +
        Syntax.functionCounts (plainStmts body) := by
  induction body with
  | nil => rfl
  | cons stmt rest ih =>
    rw [Syntax.functionCounts, ih]
    cases stmt with
    | classDecl decl =>
      simp [classDecls, functionDecls, plainStmts, Syntax.Stmt.functionCount]
      omega
    | function decl =>
      simp [classDecls, functionDecls, plainStmts]
      omega
    | _ =>
      simp [classDecls, functionDecls, plainStmts, Syntax.functionCounts]
      omega

/-- The classes and functions of a program. -/
theorem declareProgram_follows (hs : s.InRange) {main : ClassId}
    (hmain : main < s.unit.classes.size) (body : List Syntax.Stmt) :
    Meets (declareProgram main body) s fun _ s' => s.Follows
      (((classDecls body).map fun decl => Syntax.memberFunctionCounts decl.members).sum +
        ((functionDecls body).map fun decl => (Syntax.Stmt.function decl).functionCount).sum) s' := by
  apply Meets.bind (declareClasses_follows _ hs)
  intro declared s₁ hstep
  obtain ⟨h₁, hdeclared, hsum⟩ := hstep
  have hmembers := declareAll_follows (·.1)
    (fun r : ClassId × Syntax.ClassDecl Syntax.Stmt => Syntax.memberFunctionCounts r.2.members)
    (fun r _ hs howner => declareMembers_follows hs howner r.2) declared h₁.inRange hdeclared
  apply Meets.bind hmembers
  intro ofClasses s₂ h₂
  have h₁₂ := h₁.trans h₂
  have hfunctions := declareAll_follows (fun _ => main)
    (fun decl => (Syntax.Stmt.function decl).functionCount)
    (fun decl _ hs hmain => declareMethod_follows hs hmain .ofClass decl) (functionDecls body)
    h₂.inRange (fun _ _ => Nat.lt_of_lt_of_le hmain h₁₂.unit.classes)
  apply Meets.bind hfunctions
  intro ofFunctions s₃ h₃
  exact meets_pure ((h₁₂.trans h₃).weaken (Nat.add_le_add_right ((Nat.zero_add _).symm ▸ hsum) _))

/-- The statements outside of all functions. -/
theorem lowerMain_follows {owner : ClassId} {method : MethodId} (hs : s.InRange)
    (hsite : SiteFits method s.unit ⟨owner, some method, true⟩) (p : Syntax.Program) :
    Meets (lowerMain owner method p) s fun _ s' =>
      s.Follows (Syntax.functionCounts (plainStmts p.body)) s' := by
  unfold lowerMain
  apply Meets.bind (lowerStmts_within _ _ hs hsite (scopeFits_ofMethod _ owner method))
  intro r s₁ hstep
  obtain ⟨h₁, hbody, -⟩ := hstep
  apply meets_modifyUnit
  have hseq : CodeWithin (s₁.unit.bounds (some method)) (Stmt.seq r.1 p.span).visits :=
    codeWithin_cons.2 ⟨trivial, hbody⟩
  exact h₁.trans (h₁.inRange.withUnit (h₁.inRange.unit.setBody hseq))

/-! ## Bodies that wait -/

/-- The body of a method that waited. -/
theorem lowerBody_follows {d : Deferred} (hs : s.InRange) (howner : d.owner < s.unit.classes.size)
    (hmethod : d.method < s.unit.methods.size) :
    Meets (lowerBody d) s fun _ s' => s.Follows d.body.functionCount s' := by
  unfold lowerBody
  apply meets_ask_bind
  apply Meets.bind (lowerStmt_within _ d.body hs ⟨howner, rfl, hmethod⟩
    (scopeFits_ofMethod _ d.owner d.method))
  intro r s₁ hstep
  obtain ⟨h₁, hbody, -⟩ := hstep
  apply meets_modifyUnit
  exact h₁.trans (h₁.inRange.withUnit (h₁.inRange.unit.setBody hbody))

/-- Taking the first body off those that wait. -/
theorem State.InRange.pop (hs : s.InRange) {d : Deferred} {rest : List Deferred}
    (hwaits : s.deferred = d :: rest) :
    State.InRange { s with deferred := rest } ∧
      s.waiting = State.waiting { s with deferred := rest } + (d.body.functionCount + 1) := by
  refine ⟨⟨hs.unit, fun d' hd' => hs.deferred d' ?_⟩, ?_⟩
  · rw [hwaits]
    exact List.mem_cons_of_mem _ hd'
  · rw [State.waiting, hwaits, List.map_cons, List.sum_cons, Nat.add_comm]
    rfl

/-- All bodies that wait, also those that come to wait meanwhile. -/
theorem lowerDeferred_inRange (bound : Nat) {s : State} (hs : s.InRange) :
    Meets (lowerDeferred bound) s fun _ s' => s'.InRange := by
  induction bound generalizing s with
  | zero =>
    apply meets_get_bind
    split
    · exact meets_pure hs
    · refine ⟨⟨fun _ _ hrun => by cases hrun⟩, fun halt hrun => ?_⟩
      cases hrun
      trivial
  | succ bound ih =>
    apply meets_get_bind
    split
    · exact meets_pure hs
    · rename_i d rest hwaits
      have hd := hs.deferred d (by rw [hwaits]; exact List.mem_cons_self)
      have hrest := Meets.bind (lowerBody_follows (hs.pop hwaits).1 hd.1 hd.2)
        (fun _ s₁ h₁ => ih h₁.inRange)
      exact ⟨⟨fun a s' hrun => hrest.of_run a s' hrun⟩, fun halt hrun => hrest.of_halt halt hrun⟩

/-- What comes after a step counts only where the step ends. -/
theorem Ensures.bind_congr {x : Lower α} {f g : α → Lower β} {Q : α → State → Prop}
    (hx : Ensures x s Q) (h : ∀ a s', Q a s' → f a s' = g a s') : (x >>= f) s = (x >>= g) s := by
  cases hrun : x s with
  | error halt => rw [bind_of_error hrun, bind_of_error hrun]
  | ok r =>
    rw [bind_of_ok hrun, bind_of_ok hrun]
    exact h r.1 r.2 (hx.of_run r.1 r.2 hrun)

/-- Nothing is left to do where no body waits. -/
theorem lowerDeferred_of_nil (h : s.deferred = []) (bound : Nat) :
    lowerDeferred bound s = .ok ((), s) := by
  obtain ⟨unit, queue, deferred⟩ := s
  cases h
  cases bound <;> rfl

/-- The body that waits first is lowered first. -/
theorem lowerDeferred_of_cons {d : Deferred} {rest : List Deferred} (h : s.deferred = d :: rest)
    (bound : Nat) : lowerDeferred (bound + 1) s =
      (lowerBody d >>= fun _ => lowerDeferred bound) { s with deferred := rest } := by
  obtain ⟨unit, queue, deferred⟩ := s
  cases h
  rfl

/-- A bound that is no less than the number of functions that wait makes no difference. -/
theorem lowerDeferred_eq_of_le {bound bound' : Nat} (hle : bound ≤ bound') {s : State}
    (hs : s.InRange) (hwaiting : s.waiting ≤ bound) :
    lowerDeferred bound' s = lowerDeferred bound s := by
  induction bound generalizing s bound' with
  | zero =>
    cases hdeferred : s.deferred with
    | nil => rw [lowerDeferred_of_nil hdeferred, lowerDeferred_of_nil hdeferred]
    | cons d rest =>
      have hmore := (hs.pop hdeferred).2
      omega
  | succ bound ih =>
    obtain ⟨bound', rfl⟩ : ∃ k, bound' = k + 1 := ⟨bound' - 1, by omega⟩
    cases hdeferred : s.deferred with
    | nil => rw [lowerDeferred_of_nil hdeferred, lowerDeferred_of_nil hdeferred]
    | cons d rest =>
      obtain ⟨hpopped, hfewer⟩ := hs.pop hdeferred
      have hd := hs.deferred d (by rw [hdeferred]; exact List.mem_cons_self)
      rw [lowerDeferred_of_cons hdeferred, lowerDeferred_of_cons hdeferred]
      apply (lowerBody_follows hpopped hd.1 hd.2).toEnsures.bind_congr
      intro _ s₁ h₁
      have hadded := h₁.waiting_le
      exact ih (by omega) h₁.inRange (by omega)

/-! ## Programs -/

/-- Closing the results keeps a unit in range. -/
theorem closeResults_inRange {u : CodeUnit} (hu : u.InRange) : (closeResults u).InRange := by
  have hdata (ids : List TypeId) (pool : TypePool) :
      (ids.foldl (fun types ret => (types.bindIfUnbound ret Primitive.void.id).2) pool).data =
        pool.data := by
    induction ids generalizing pool with
    | nil => rfl
    | cons id rest ih => rw [List.foldl_cons, ih, TypePool.data_bindIfUnbound]
  exact hu.withTypes fun c hc => hdata _ u.types ▸ hc

/-- What lowering a program does before it comes to the bodies that wait. -/
def lowerUpToBodies (p : Syntax.Program) : Lower Unit := do
  let (owner, method) ← declareMain p.span
  (← declareProgram owner p.body).forM runTask
  lowerMain owner method p

/-- Lowering a program is lowering what stands outside of functions, then the bodies that wait, then
closing the results. -/
theorem lowerWithin_eq (bound : Nat) (p : Syntax.Program) :
    lowerWithin bound p =
      (do lowerUpToBodies p; lowerDeferred bound; modifyUnit closeResults) := by
  simp only [lowerWithin, lowerUpToBodies, bind_assoc]

/-- No more functions wait than the program has. -/
theorem lowerUpToBodies_inRange (p : Syntax.Program) (hdeferred : s.deferred = []) :
    Meets (lowerUpToBodies p) s fun _ s' =>
      s'.InRange ∧ s'.waiting ≤ Syntax.functionCounts p.body := by
  apply Meets.bind (declareMain_within hdeferred p.span)
  intro r s₁ hstep
  obtain ⟨owner, method⟩ := r
  obtain ⟨h₁, hnone, hsite⟩ := hstep
  apply Meets.bind (declareProgram_follows h₁ hsite.owner p.body)
  intro tasks s₂ h₂
  apply Meets.bind (runTasks_follows tasks h₂.inRange)
  intro _ s₃ h₃
  have h₂₃ := h₂.trans h₃
  refine (lowerMain_follows h₃.inRange (hsite.extends h₂₃.unit) p).mono fun _ s₄ h₄ => ?_
  refine ⟨h₄.inRange, ?_⟩
  have hwaiting := (h₂₃.trans h₄).waiting_le
  rw [functionCounts_eq]
  omega

/-- Lowering a program ends in range, or stops for an expected reason. -/
theorem lowerWithin_inRange (bound : Nat) (p : Syntax.Program) (hdeferred : s.deferred = []) :
    Meets (lowerWithin bound p) s fun _ s' => s'.unit.InRange := by
  rw [lowerWithin_eq]
  apply Meets.bind (lowerUpToBodies_inRange p hdeferred)
  intro _ s₁ h₁
  apply Meets.bind (lowerDeferred_inRange bound h₁.1)
  exact fun _ s₂ h₂ => meets_modifyUnit (closeResults_inRange h₂.unit)

/-- A bound that is no less than the number of functions of a program makes no difference. -/
theorem lowerWithin_eq_lowerAll {bound : Nat} {p : Syntax.Program}
    (hbound : Syntax.functionCounts p.body ≤ bound) (hdeferred : s.deferred = []) :
    lowerWithin bound p s = lowerAll p s := by
  rw [lowerAll, lowerWithin_eq, lowerWithin_eq]
  apply (lowerUpToBodies_inRange p hdeferred).toEnsures.bind_congr
  intro _ s₁ h₁
  have hsame := lowerDeferred_eq_of_le hbound h₁.1 h₁.2
  change (lowerDeferred bound s₁ >>= fun r => modifyUnit closeResults r.2) =
    (lowerDeferred _ s₁ >>= fun r => modifyUnit closeResults r.2)
  rw [hsame]

/-! ## How lowering ends -/

/-- What is known of every lowered unit. -/
theorem lowerProgram_inRange {p : Syntax.Program} {policy : QueuePolicy} {u : CodeUnit}
    {queue : DiagnosticQueue} (h : lowerProgram p policy = .ok (u, queue)) : u.InRange := by
  obtain ⟨s, hrun, rfl, -⟩ := lowerProgram_eq_ok h
  exact (lowerWithin_inRange _ p rfl).of_run () s hrun

/-- Lowering a program gives a unit, or it stops. The one fault that stops it is that a member is asked
of a type that has no members, and all else that stops it is a type whose text has no end: how many
bodies may be lowered makes no difference. -/
theorem lowerProgram_outcome (p : Syntax.Program) (policy : QueuePolicy) :
    ((∃ u queue, lowerProgram p policy = .ok (u, queue)) ∨
      (∃ name type span, lowerProgram p policy =
        .error (.fault (.unsupportedMemberTarget name type span))) ∨
      lowerProgram p policy = .error .endless) ∧
    ∀ more, lowerWithin (Syntax.functionCounts p.body + more) p (.start policy) =
      lowerAll p (.start policy) := by
  refine ⟨?_, fun more => lowerWithin_eq_lowerAll (Nat.le_add_right _ _) rfl⟩
  have hmeets := lowerWithin_inRange (s := .start policy) (Syntax.functionCounts p.body) p rfl
  have heq : lowerProgram p policy = (lowerAll p (.start policy)).map fun r =>
      (r.2.unit, r.2.queue) := rfl
  cases hrun : lowerAll p (.start policy) with
  | ok r =>
    left
    rw [heq, hrun]
    exact ⟨_, _, rfl⟩
  | error halt =>
    right
    have hexpected := hmeets.of_halt halt hrun
    rw [heq, hrun]
    cases halt with
    | endless => exact .inr rfl
    | fault f =>
      cases f with
      | unsupportedMemberTarget name type span => exact .inl ⟨name, type, span, rfl⟩
      | _ => exact hexpected.elim

/-- A function that returns itself, in a sum: `function f()=>f;f+1;` -/
def returnsItselfInSum : Syntax.Program where
  body := [
    .function ⟨⟨"f", ⟨9, 10⟩⟩, [], none, .expr (.ident ⟨"f", ⟨14, 15⟩⟩), ⟨0, 16⟩⟩,
    .expr (.binary .add (.ident ⟨"f", ⟨16, 17⟩⟩) (.int 1 ⟨18, 19⟩) ⟨16, 19⟩) ⟨16, 20⟩]
  span := ⟨0, 20⟩

/-- The types that an operator is not defined for cannot be told where one of them contains itself. -/
theorem lowerProgram_returnsItselfInSum :
    lowerProgram returnsItselfInSum {} = .error .endless := by
  have hendless : (match lowerProgram returnsItselfInSum {} with
      | .error halt => some halt
      | .ok _ => none) = some .endless := by
    decide +kernel
  split at hendless
  · rename_i halt h
    rw [h, Option.some.inj hendless]
  · cases hendless

end ExpLang.Lowering
