import ExpLang.Proofs.Lowering.Programs
import ExpLang.Proofs.Tidying.Statements

/-!
# Lowering a program ends in a tidy state

The unit without classes is tidy, and each stage of lowering a program leads from a tidy state to a
tidy one. So the types of every unit are in layers, and what stands for nothing in a unit that nothing
was reported about comes from a member access.
-/

namespace ExpLang

namespace Lowering

open Resolved

variable {p : Syntax.Program} {policy : QueuePolicy} {P : Expr → Prop} {s s' : State}

/-- The unit with no class and no operator. -/
def bareUnit : CodeUnit := { types := .initial, operators := ⟨[]⟩ }

/-- The unit with the types alone is layered. -/
theorem layered_bareUnit : bareUnit.Layered where
  primitive p := by cases p <;> rfl
  primitive_eq id hid p hp := by
    rcases TypePool.get_initial hid with hget | ⟨q, rfl, hget⟩
    · cases hget.symm.trans hp
    · cases hget.symm.trans hp
      rfl
  plain id _ part hpart := by
    rw [show (bareUnit.types.get id).parts = [] from TypePool.parts_get_initial id] at hpart
    cases hpart
  function id ret params hget := by
    have hparts : (bareUnit.types.get id).parts = [] := TypePool.parts_get_initial id
    rw [hget] at hparts
    cases hparts
  method_type _ hi := absurd hi (Nat.not_lt_zero _)
  class_type _ hc := absurd hc (Nat.not_lt_zero _)

/-- The unit with the types alone is blameless. -/
theorem blameless_bareUnit : bareUnit.Blameless P := by
  have hvoid : bareUnit.types.Proper Primitive.void.id := by constructor <;> decide
  refine ⟨fun id part hpart => ?_, fun id next hnext => ?_, fun _ hentry => ?_, fun _ => hvoid,
    fun _ => ⟨hvoid, nofun⟩, fun _ => ⟨hvoid, hvoid, ?_, ?_, ?_, nofun⟩⟩
  · rw [show (bareUnit.types.get id).parts = [] from TypePool.parts_get_initial id] at hpart
    cases hpart
  · unfold TypePool.binding? at hnext
    split at hnext <;> cases hnext
  · cases hentry
  all_goals exact fun _ h => absurd h (Array.not_mem_empty _)

/-- The types that ranges are made of. -/
theorem mem_parts_range {part : TypeId}
    (h : part ∈ (TypeData.specific TypePool.iterableBase [Primitive.int.id]).parts) :
    part = TypePool.iterableBase ∨ part = Primitive.int.id := by
  simpa [TypeData.parts] using h

/-- The empty unit is layered. -/
theorem layered_empty : CodeUnit.empty.Layered := by
  have htypes := layered_bareUnit.intern (d := .specific TypePool.iterableBase [Primitive.int.id])
    nofun nofun fun part hpart => by rcases mem_parts_range hpart with rfl | rfl <;> decide
  exact htypes.withMembers rfl rfl (fun _ => ⟨rfl, rfl⟩) rfl fun _ => rfl

/-- The empty unit is blameless. -/
theorem blameless_empty : CodeUnit.empty.Blameless P := by
  have htypes := blameless_bareUnit.intern (P := P)
    (d := .specific TypePool.iterableBase [Primitive.int.id]) nofun fun part hpart => by
      rcases mem_parts_range hpart with rfl | rfl <;> constructor <;> decide
  refine ⟨htypes.part, htypes.binding, fun entry hentry => ?_, htypes.classType, htypes.field,
    htypes.method⟩
  have hresult : ∀ entry ∈ OperatorTable.basic ++ OperatorTable.compound,
      entry.2 < Primitive.invalid.id := by decide
  rcases List.mem_cons.1 hentry with rfl | hentry
  · exact TypePool.proper_intern layered_bareUnit nofun
  · have hlt := hresult entry hentry
    exact ⟨hlt.trans (layered_empty.primitive_lt .invalid), Nat.ne_of_lt hlt⟩

/-! ## The stages of lowering -/

/-- The class and the method that a program starts in. -/
theorem declareMain_tidy (span : Span) :
    Ensures (declareMain span) s fun _ s' => s'.Tidy P := by
  have hempty : State.Tidy P { s with unit := .empty } := ⟨layered_empty, fun _ => blameless_empty⟩
  refine ⟨fun r s' hrun => ?_⟩
  obtain ⟨u, u', hclass, hmethod, rfl⟩ := declareMain_eq_ok hrun
  have h₁ := hempty.createClass hclass
  obtain ⟨h₂, hret⟩ := (declaredType_tidy h₁.tidy none).of_run _ _ rfl
  obtain ⟨h₃, hargv⟩ := (array_tidy h₂.tidy (h₂.tidy.primitive .string (by decide))).of_run _ _ rfl
  have h₄ := h₃.tidy.createMethod (fun hquiet => (hret (h₃.quiet hquiet)).keeps h₃.keeps)
    (fun r hr => by rw [List.mem_singleton.1 hr]; exact hargv) hmethod
  exact h₄.tidy

/-- Classes without their members. -/
theorem declareClasses_tidy (decls : List (Syntax.ClassDecl Syntax.Stmt)) {s : State}
    (hs : s.Tidy P) : Steps P s (declareClasses decls) := by
  induction decls generalizing s with
  | nil => exact ensures_pure hs.advances
  | cons decl rest ih =>
    apply Ensures.bind (declareClass_tidy hs decl)
    intro owner s₁ h₁
    apply Ensures.bind (ih h₁.tidy)
    exact fun _ _ h₂ => ensures_pure (h₁.trans h₂)

/-- The classes and functions of a program. -/
theorem declareProgram_tidy (hs : s.Tidy P) (main : ClassId) (body : List Syntax.Stmt) :
    Steps P s (declareProgram main body) := by
  apply Ensures.bind (declareClasses_tidy _ hs)
  intro declared s₁ h₁
  have hmembers : Steps P s₁ (declareAll (fun r => declareMembers r.1 r.2) declared) :=
    declareAll_tidy (fun r {_} hs => declareMembers_tidy hs r.1 r.2) _ h₁.tidy
  apply Ensures.bind hmembers
  intro ofClasses s₂ h₂
  have hfunctions : Steps P s₂ (declareAll (declareMethod main .ofClass) (functionDecls body)) :=
    declareAll_tidy (fun decl {_} hs => declareMethod_tidy hs main _ decl) _ h₂.tidy
  apply Ensures.bind hfunctions
  exact fun _ _ h₃ => ensures_pure (h₁.trans (h₂.trans h₃))

/-- The statements outside of all functions. -/
theorem lowerMain_tidy {owner : ClassId} {method : MethodId}
    (hjob : Comes p policy (.stmts ⟨owner, some method, true⟩ (.ofMethod owner method)
      (plainStmts p.body)) s) (hs : s.Tidy (FromAccess p policy)) :
    Steps (FromAccess p policy) s (lowerMain owner method p) := by
  unfold lowerMain
  apply Ensures.bind (lowerStmts_good _ _ hjob hs)
  intro r s₁ hstep
  obtain ⟨body, scope⟩ := r
  obtain ⟨h₁, hbody⟩ := hstep
  apply ensures_modifyUnit
  exact h₁.trans (h₁.tidy.setBody method fun hquiet => excused_cons rfl (hbody hquiet))

/-- The body of a method that waited. -/
theorem lowerBody_tidy {d : Deferred} (hjob : Comes p policy (d.job s.unit) s)
    (hs : s.Tidy (FromAccess p policy)) : Steps (FromAccess p policy) s (lowerBody d) := by
  unfold lowerBody
  apply ensures_ask_bind
  apply Ensures.bind (lowerStmt_good _ d.body hjob hs)
  intro r s₁ hstep
  obtain ⟨body, scope⟩ := r
  obtain ⟨h₁, hbody⟩ := hstep
  apply ensures_modifyUnit
  exact h₁.trans (h₁.tidy.setBody d.method hbody)

/-- All bodies that wait, also those that come to wait meanwhile. -/
theorem lowerDeferred_tidy (n : Nat) {s : State} (hjob : Comes p policy (.bodies n) s)
    (hs : s.Tidy (FromAccess p policy)) :
    Steps (FromAccess p policy) s (lowerDeferred n) := by
  induction n generalizing s with
  | zero =>
    apply ensures_get_bind
    split
    · exact ensures_pure hs.advances
    · exact ⟨fun _ _ hrun => by cases hrun⟩
  | succ n ih =>
    apply ensures_get_bind
    split
    · exact ensures_pure hs.advances
    · rename_i d rest hwaits
      have hpopped : State.Tidy (FromAccess p policy) { s with deferred := rest } :=
        ⟨hs.layered, hs.blameless⟩
      have hrest : Steps (FromAccess p policy) { s with deferred := rest }
          (lowerBody d >>= fun _ => lowerDeferred n) := by
        have hbody : Steps (FromAccess p policy) { s with deferred := rest } (lowerBody d) :=
          lowerBody_tidy (hjob.body hwaits) hpopped
        apply Ensures.bind hbody.ran
        intro _ s₁ hstep
        obtain ⟨h₁, hrun⟩ := hstep
        exact (ih (hjob.moreBodies hwaits hrun) h₁.tidy).mono fun _ _ h₂ => h₁.trans h₂
      refine ⟨fun a s' hrun => ?_⟩
      have h := hrest.of_run a s' hrun
      exact ⟨h.tidy, h.keeps, h.quiet⟩

/-- Every result whose type is not known becomes that of a method that returns nothing. -/
theorem State.Tidy.closeResults (hs : s.Tidy P) :
    State.Tidy P { s with unit := Lowering.closeResults s.unit } := by
  have hclose : ∀ (ids : List TypeId) {u : CodeUnit}, State.Tidy P { s with unit := u } →
      State.Tidy P { s with unit := { u with
        types := ids.foldl (fun types ret => (types.bindIfUnbound ret Primitive.void.id).2)
          u.types } } := by
    intro ids
    induction ids with
    | nil => exact fun hu => hu
    | cons first rest ih =>
      intro u hu
      have hfirst := (unify_tidy hu first fun hquiet => hu.void hquiet).of_run () _ rfl
      exact ih hfirst.tidy
  exact hclose _ hs

/-- Lowering a whole program ends in a tidy state. -/
theorem lowerAll_tidy (p : Syntax.Program) (policy : QueuePolicy) :
    Ensures (lowerAll p) (.start policy) fun _ s' => s'.Tidy (FromAccess p policy) := by
  apply Ensures.bind (declareMain_tidy p.span).ran
  intro r s₁ hstep
  obtain ⟨owner, method⟩ := r
  obtain ⟨h₁, hmain⟩ := hstep
  apply Ensures.bind (declareProgram_tidy h₁ owner p.body).ran
  intro tasks s₂ hstep
  obtain ⟨h₂, hprogram⟩ := hstep
  have hdeclared : Declared p policy owner method tasks s₂ := ⟨s₁, hmain, hprogram⟩
  apply Ensures.bind (runTasks_tidy tasks (.tasks hdeclared) h₂.tidy).ran
  intro _ s₃ hstep
  obtain ⟨h₃, htasks⟩ := hstep
  apply Ensures.bind (lowerMain_tidy (.main hdeclared htasks) h₃.tidy).ran
  intro _ s₄ hstep
  obtain ⟨h₄, hbody⟩ := hstep
  apply Ensures.bind (lowerDeferred_tidy _ (.bodies hdeclared htasks hbody) h₄.tidy)
  intro _ s₅ h₅
  exact ensures_modifyUnit h₅.tidy.closeResults

/-- The types of every unit are in layers, and a unit that nothing was reported about is blameless. -/
theorem lowerProgram_tidy {u : CodeUnit} {queue : DiagnosticQueue}
    (h : lowerProgram p policy = .ok (u, queue)) :
    u.Layered ∧ (queue.entries = [] → u.Blameless (FromAccess p policy)) := by
  obtain ⟨s, hrun, rfl, rfl⟩ := lowerProgram_eq_ok h
  have htidy := (lowerAll_tidy p policy).of_run () s hrun
  exact ⟨htidy.layered, htidy.blameless⟩

end Lowering

end ExpLang
