import ExpLang.Lowering.Program
import ExpLang.Proofs.Lowering.Statements

/-!
# Lowered programs are in order

The unit of a program that is lowered without errors is in order without exceptions: each hole is the
type of something, and each method has a body, which it got from a task, from the statements outside
of all functions or from the bodies that wait. In the end every result has a type.
-/

namespace ExpLang.Lowering

open Resolved

variable {holes : TypeId → Prop} {bodies : MethodId → Prop} {s s' : State}

/-- The unit without classes is in order. -/
theorem sound_empty : CodeUnit.empty.Sound (fun _ => False) (fun _ => False) where
  types := TypePool.valid_initial.intern nofun
  owned id hid := by
    have hinitial := TypePool.isHole_intern (by nofun) hid
    rw [TypePool.isHole_initial] at hinitial
    cases hinitial
  methods_once := .refl _
  fields_once := .refl _
  method_names _ hi := absurd hi (Nat.not_lt_zero _)
  field_names _ hi := absurd hi (Nat.not_lt_zero _)
  has_body _ hi := absurd hi (Nat.not_lt_zero _)

/-- The class and the method that a program starts in. -/
theorem declareMain_ensures (hdeferred : s.deferred = []) (span : Span) :
    Ensures (declareMain span) s fun r s' =>
      s'.Sound (fun _ => False) (fun i => i = r.2) ∧ r.1 < s'.unit.classes.size ∧
        r.2 < s'.unit.methods.size := by
  refine ⟨fun r s' hrun => ?_⟩
  obtain ⟨u, u', hclass, hmethod, rfl⟩ := declareMain_eq_ok hrun
  obtain ⟨hu, -, howner⟩ := sound_empty.createClass hclass
  have htyped := hu.newHole.intern (d := .array Primitive.string.id) nofun
  obtain ⟨hmain, hgrows, hlt⟩ := htyped.createMethod howner hmethod
  refine ⟨⟨hmain.mono (fun _ h => .inl h) fun i h => ?_, fun d hd => ?_⟩,
    Nat.lt_of_lt_of_le howner hgrows.classes_le, hlt⟩
  · rcases h with rfl | h
    · exact .inl rfl
    · exact h.elim
  · change d ∈ s.deferred at hd
    rw [hdeferred] at hd
    cases hd

/-- Classes without their members. -/
theorem declareClasses_ensures (decls : List (Syntax.ClassDecl Syntax.Stmt)) {s : State}
    (hs : s.Sound holes bodies) :
    Ensures (declareClasses decls) s fun declared s' => s.Reaches holes bodies s' ∧
      ∀ r ∈ declared, r.1 < s'.unit.classes.size := by
  induction decls generalizing s with
  | nil => exact ensures_pure ⟨hs.reaches, fun _ h => by cases h⟩
  | cons decl rest ih =>
    apply Ensures.bind (declareClass_ensures hs decl)
    intro owner s₁ hstep
    obtain ⟨h₁, howner⟩ := hstep
    apply Ensures.bind (ih h₁.sound)
    intro others s₂ hstep
    obtain ⟨h₂, hothers⟩ := hstep
    refine ensures_pure ⟨h₁.trans h₂, fun r hr => ?_⟩
    rcases List.mem_append.1 hr with hr | hr
    · cases owner with
      | none => cases hr
      | some owner =>
        rw [List.mem_singleton.1 hr]
        exact Nat.lt_of_lt_of_le (howner owner rfl) h₂.grows.classes_le
    · exact hothers r hr

/-- The classes and functions of a program. -/
theorem declareProgram_gives (hs : s.Sound holes bodies) {main : ClassId}
    (hmain : main < s.unit.classes.size) (body : List Syntax.Stmt) :
    GivesTasks holes bodies s (declareProgram main body) := by
  apply Ensures.bind (declareClasses_ensures _ hs)
  intro declared s₁ hstep
  obtain ⟨h₁, hdeclared⟩ := hstep
  have hmembers : GivesTasks holes bodies s₁
      (declareAll (fun r => declareMembers r.1 r.2) declared) :=
    declareAll_gives (·.1) (fun r _ _ hs howner => declareMembers_gives hs howner r.2) _ h₁.sound
      hdeclared
  apply Ensures.bind hmembers
  intro ofClasses s₂ h₂
  have hgrows := h₁.grows.trans h₂.grows
  have hfunctions : GivesTasks holes _ s₂
      (declareAll (declareMethod main .ofClass) (functionDecls body)) :=
    declareAll_gives (fun _ => main) (fun decl _ _ hs hmain => declareMethod_gives hs hmain _ decl)
      _ h₂.sound (fun _ _ => Nat.lt_of_lt_of_le hmain hgrows.classes_le)
  apply Ensures.bind hfunctions
  intro ofFunctions s₃ h₃
  refine ensures_pure ⟨h₃.sound.mono (fun _ h => h) fun i h => ?_, hgrows.trans h₃.grows⟩
  rw [pending_append]
  grind

/-- The statements outside of all functions. -/
theorem lowerMain_ensures {owner : ClassId} {method : MethodId}
    (hs : s.Sound holes fun i => i = method ∨ bodies i) (howner : owner < s.unit.classes.size)
    (hmethod : method < s.unit.methods.size) (p : Syntax.Program) :
    Ensures (lowerMain owner method p) s fun _ s' => s.Reaches holes bodies s' := by
  have hsite : Site.Valid ⟨owner, some method, true⟩ s.unit := by
    refine ⟨howner, ?_⟩
    intro m h
    cases h
    exact hmethod
  unfold lowerMain
  apply Ensures.bind (lowerStmts_gives _ (localScope_ofMethod owner method) _ hs hsite)
  intro r s₁ hstep
  obtain ⟨body, scope⟩ := r
  obtain ⟨h₁, hbody, -⟩ := hstep
  apply ensures_modifyUnit
  have hu₁ := h₁.sound.unit.mono (fun _ h => h) (fun _ => or_assoc.1)
  have hseq : Below (Stmt.seq body p.span).methods s₁.unit.methods.size := hbody
  obtain ⟨hu, hgrows⟩ := hu₁.setBody hseq
  exact h₁.trans (h₁.sound.withUnit hgrows hu)

/-- The body of a method that waited. -/
theorem lowerBody_ensures {d : Deferred} (hs : s.Sound holes fun i => i = d.method ∨ bodies i)
    (howner : d.owner < s.unit.classes.size) (hmethod : d.method < s.unit.methods.size) :
    Ensures (lowerBody d) s fun _ s' => s.Reaches holes bodies s' := by
  unfold lowerBody
  apply ensures_ask_bind
  have hsite : Site.Valid ⟨d.owner, some d.method, (s.unit.getMethod d.method).isStatic⟩
      s.unit := by
    refine ⟨howner, ?_⟩
    intro m h
    cases h
    exact hmethod
  apply Ensures.bind (lowerStmt_ensures _ (localScope_ofMethod d.owner d.method) d.body hs hsite)
  intro r s₁ hstep
  obtain ⟨body, scope⟩ := r
  obtain ⟨h₁, hbody, -⟩ := hstep
  apply ensures_modifyUnit
  have hu₁ := h₁.sound.unit.mono (fun _ h => h) (fun _ => or_assoc.1)
  obtain ⟨hu, hgrows⟩ := hu₁.setBody hbody
  exact h₁.trans (h₁.sound.withUnit hgrows hu)

/-- All bodies that wait, also those that come to wait meanwhile. -/
theorem lowerDeferred_ensures (n : Nat) {s : State} (hs : s.Sound holes bodies) :
    Ensures (lowerDeferred n) s fun _ s' => s.Reaches holes bodies s' ∧ s'.deferred = [] := by
  induction n generalizing s with
  | zero =>
    apply ensures_get_bind
    split
    · rename_i hempty
      exact ensures_pure ⟨hs.reaches, List.isEmpty_iff.1 hempty⟩
    · exact ⟨fun _ _ hrun => by cases hrun⟩
  | succ n ih =>
    apply ensures_get_bind
    split
    · rename_i hwaits
      exact ensures_pure ⟨hs.reaches, hwaits⟩
    · rename_i d rest hwaits
      have hpopped : State.Sound holes (fun i => i = d.method ∨ bodies i)
          { s with deferred := rest } := by
        refine ⟨hs.unit.mono (fun _ h => h) ?_, fun d' hd' => hs.deferred d' ?_⟩
        · intro i h
          rcases h with h | ⟨d', hd', rfl⟩
          · exact .inl (.inr h)
          · rw [hwaits] at hd'
            rcases List.mem_cons.1 hd' with rfl | hd'
            · exact .inl (.inl rfl)
            · exact .inr ⟨d', hd', rfl⟩
        · rw [hwaits]
          exact List.mem_cons_of_mem _ hd'
      have hd := hs.deferred d (by rw [hwaits]; exact List.mem_cons_self)
      have hrest := Ensures.bind (lowerBody_ensures hpopped hd.1 hd.2) (fun _ s₁ h₁ =>
        (ih h₁.sound).mono (R := fun _ s' => s.Reaches holes bodies s' ∧ s'.deferred = [])
          fun _ _ h₂ => ⟨State.Reaches.trans ⟨h₁.sound, h₁.grows⟩ h₂.1, h₂.2⟩)
      exact ⟨fun a s' hrun => hrest.of_run a s' hrun⟩

/-- Binding types one after the other to `Void` binds holes only, and the types are known in the
end. -/
theorem closeTypes_refines {pool : TypePool} (hpool : pool.Valid) (ids : List TypeId) :
    pool.Refines (ids.foldl (fun types ret => (types.bindIfUnbound ret Primitive.void.id).2) pool) ∧
      ∀ id ∈ ids, (ids.foldl (fun types ret => (types.bindIfUnbound ret Primitive.void.id).2)
        pool).isUnbound id = false := by
  induction ids generalizing pool with
  | nil => exact ⟨.refl, fun _ h => by cases h⟩
  | cons first rest ih =>
    have hrefines := hpool.refines_bindIfUnbound first Primitive.void.id
    have hvalid := hrefines.valid hpool
    obtain ⟨hrest, hknown⟩ := ih hvalid
    refine ⟨hrefines.trans hrest, fun id hid => ?_⟩
    rcases List.mem_cons.1 hid with rfl | hid
    · exact hrest.isUnbound_eq_false hvalid
        (hpool.isUnbound_bindIfUnbound (hpool.isUnbound_primitive .void))
    · exact hknown id hid

/-- After the results are closed, the result of every method has a type. -/
theorem closeResults_sound {u : CodeUnit} (hu : u.Sound holes bodies) :
    (closeResults u).Sound holes bodies ∧ u.types.Refines (closeResults u).types ∧
      ∀ i < u.methods.size,
        (closeResults u).types.isUnbound ((closeResults u).getMethod i).ret = false := by
  obtain ⟨hrefines, hknown⟩ :=
    closeTypes_refines hu.types ((u.methods.toList.map (·.ret)).filter u.types.isUnbound)
  refine ⟨hu.refines hrefines, hrefines, fun i hi => ?_⟩
  change (closeResults u).types.isUnbound (u.getMethod i).ret = false
  cases hunbound : u.types.isUnbound (u.getMethod i).ret with
  | false => exact hrefines.isUnbound_eq_false hu.types hunbound
  | true =>
    refine hknown _ (List.mem_filter.2 ⟨List.mem_map.2 ⟨u.getMethod i, ?_, rfl⟩, hunbound⟩)
    rw [CodeUnit.getMethod, Array.getD, dif_pos hi]
    exact Array.getElem_mem_toList hi

/-- A unit that lowering ends with: each hole is the type of something unless an error was reported,
each method has a body, and each result has a type. -/
structure Lowered (u : CodeUnit) (queue : DiagnosticQueue) : Prop where
  sound : u.Sound (fun _ => queue.hasErrors = true) (fun _ => False)
  ret_known : ∀ i < u.methods.size, u.types.isUnbound (u.getMethod i).ret = false

/-- Lowering a program with no body waiting ends in a lowered unit. -/
theorem lowerAll_ensures (p : Syntax.Program) (hdeferred : s.deferred = []) :
    Ensures (lowerAll p) s fun _ s' => Lowered s'.unit s'.queue := by
  apply Ensures.bind (declareMain_ensures hdeferred p.span)
  intro r s₁ hstep
  obtain ⟨owner, method⟩ := r
  obtain ⟨h₁, howner, hmethod⟩ := hstep
  apply Ensures.bind (declareProgram_gives h₁ howner p.body)
  intro tasks s₂ h₂
  apply Ensures.bind (runTasks_ensures tasks h₂.sound)
  intro _ s₃ h₃
  have hgrows := h₂.grows.trans h₃.grows
  have hmain : s₃.Sound (fun _ => False) (fun i => i = method ∨ False) :=
    h₃.sound.mono (fun _ h => h) (fun _ h => .inl h)
  apply Ensures.bind (lowerMain_ensures hmain (Nat.lt_of_lt_of_le howner hgrows.classes_le)
    (Nat.lt_of_lt_of_le hmethod hgrows.methods_le) p)
  intro _ s₄ h₄
  apply Ensures.bind (lowerDeferred_ensures _ h₄.sound)
  intro _ s₅ hstep
  obtain ⟨h₅, hempty⟩ := hstep
  apply ensures_modifyUnit
  have hsound : s₅.unit.Sound (fun _ => s₅.queue.hasErrors = true) (fun _ => False) := by
    refine h₅.sound.unit.mono (fun _ h => h.resolve_left id) ?_
    intro i h
    rcases h with h | ⟨d, hd, -⟩
    · exact h
    · rw [hempty] at hd
      cases hd
  obtain ⟨hclosed, -, hknown⟩ := closeResults_sound hsound
  exact ⟨hclosed, hknown⟩

/-- What lowering ends with. -/
theorem lowerProgram_lowered {p : Syntax.Program} {policy : QueuePolicy} {u : CodeUnit}
    {queue : DiagnosticQueue} (h : lowerProgram p policy = .ok (u, queue)) : Lowered u queue := by
  obtain ⟨s, hrun, rfl, rfl⟩ := lowerProgram_eq_ok h
  exact (lowerAll_ensures p rfl).of_run () s hrun

end ExpLang.Lowering
