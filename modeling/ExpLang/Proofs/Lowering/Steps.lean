import ExpLang.Lowering.Basic
import ExpLang.Proofs.Diagnostic.Errors
import ExpLang.Proofs.Resolved.Units

/-!
# Steps of lowering keep a unit in order

`Ensures x s Q` says that a step which goes through from a state `s` ends with a result and a state
that `Q` holds of. What holds of all states of lowering is `State.Sound`: the unit is in order, but
for holes when an error was reported, and for methods whose bodies wait. Each step of lowering has
one lemma here or in the modules after this one: it reaches a later state that is sound again.
-/

namespace ExpLang.Lowering

open Resolved

variable {α β : Type} {s s' : State}

/-! ## What a step ends with -/

/-- A step that goes through ends with a result and a state of which something holds. -/
structure Ensures (x : Lower α) (s : State) (Q : α → State → Prop) : Prop where
  of_run : ∀ a s', x s = .ok (a, s') → Q a s'

/-- A step that does nothing ensures what holds already. -/
theorem ensures_pure {a : α} {Q : α → State → Prop} (h : Q a s) :
    Ensures (pure a : Lower α) s Q := by
  constructor
  intro a s' hrun
  cases hrun
  exact h

/-- Two steps one after the other ensure what the second does after the first. -/
theorem Ensures.bind {x : Lower α} {f : α → Lower β} {R : α → State → Prop}
    {Q : β → State → Prop} (hx : Ensures x s R) (hf : ∀ a s', R a s' → Ensures (f a) s' Q) :
    Ensures (x >>= f) s Q := by
  constructor
  intro b s'' h
  change (x s >>= fun r => f r.1 r.2) = .ok (b, s'') at h
  cases hfirst : x s with
  | error e =>
    rw [hfirst] at h
    cases h
  | ok r =>
    rw [hfirst] at h
    exact (hf r.1 r.2 (hx.of_run r.1 r.2 hfirst)).of_run b s'' h

/-- What a step ensures may be weakened. -/
theorem Ensures.mono {x : Lower α} {Q R : α → State → Prop} (hx : Ensures x s Q)
    (h : ∀ a s', Q a s' → R a s') : Ensures x s R :=
  ⟨fun a s' hrun => h a s' (hx.of_run a s' hrun)⟩

/-- A step that raises a fault ensures anything. -/
theorem ensures_raise {f : Fault} {Q : α → State → Prop} : Ensures (raise f : Lower α) s Q :=
  ⟨fun _ _ hrun => by cases hrun⟩

/-- Looking at the state changes nothing. -/
theorem ensures_get_bind {f : State → Lower β} {Q : β → State → Prop} (h : Ensures (f s) s Q) :
    Ensures (get >>= f) s Q :=
  ⟨fun b s' hrun => h.of_run b s' hrun⟩

/-- Asking something of the unit changes nothing. -/
theorem ensures_ask_bind {g : CodeUnit → α} {f : α → Lower β} {Q : β → State → Prop}
    (h : Ensures (f (g s.unit)) s Q) : Ensures (ask g >>= f) s Q :=
  ⟨fun b s' hrun => h.of_run b s' hrun⟩

/-- Reporting ensures what holds with one finding more. -/
theorem ensures_report {d : Diagnostic} {Q : Unit → State → Prop}
    (h : Q () { s with queue := s.queue.add d }) : Ensures (report d) s Q := by
  constructor
  intro a s' hrun
  cases hrun
  exact h

/-- A change of the unit ensures what holds of the changed unit. -/
theorem ensures_modifyUnit {f : CodeUnit → CodeUnit} {Q : Unit → State → Prop}
    (h : Q () { s with unit := f s.unit }) : Ensures (modifyUnit f) s Q := by
  constructor
  intro a s' hrun
  cases hrun
  exact h

/-- An operation of the types ensures what holds with the types it leaves. -/
theorem ensures_onTypes {f : TypePool → α × TypePool} {Q : α → State → Prop}
    (h : Q (f s.unit.types).1 { s with unit := { s.unit with types := (f s.unit.types).2 } }) :
    Ensures (onTypes f) s Q := by
  constructor
  intro a s' hrun
  cases hrun
  exact h

/-- The text of a type changes nothing. -/
theorem ensures_typeName {id : TypeId} {Q : String → State → Prop} (h : ∀ name, Q name s) :
    Ensures (typeName id) s Q := by
  apply ensures_get_bind
  split
  · exact ensures_pure (h _)
  · exact ⟨fun _ _ hrun => by cases hrun⟩

/-! ## Sound states -/

/-- The unit is in order, but for holes if an error was reported, and for methods whose bodies wait;
and what waits belongs to the unit. -/
structure State.Sound (holes : TypeId → Prop) (bodies : MethodId → Prop) (s : State) : Prop where
  unit : s.unit.Sound (fun id => holes id ∨ s.queue.hasErrors = true)
    (fun i => bodies i ∨ ∃ d ∈ s.deferred, d.method = i)
  deferred : ∀ d ∈ s.deferred, d.owner < s.unit.classes.size ∧ d.method < s.unit.methods.size

/-- A later state is sound. -/
structure State.Reaches (holes : TypeId → Prop) (bodies : MethodId → Prop) (s s' : State) :
    Prop where
  sound : s'.Sound holes bodies
  grows : s.unit.Grows s'.unit

variable {holes : TypeId → Prop} {bodies : MethodId → Prop}

/-- A sound state reaches itself. -/
theorem State.Sound.reaches (hs : s.Sound holes bodies) : s.Reaches holes bodies s :=
  ⟨hs, .refl _⟩

/-- A state that is reached from a reached one is reached. -/
theorem State.Reaches.trans {holes' : TypeId → Prop} {bodies' : MethodId → Prop} {s'' : State}
    (h : s.Reaches holes' bodies' s') (h' : s'.Reaches holes bodies s'') :
    s.Reaches holes bodies s'' := ⟨h'.sound, h.grows.trans h'.grows⟩

/-- A sound state is sound when more holes and bodies are left open. -/
theorem State.Sound.mono {holes' : TypeId → Prop} {bodies' : MethodId → Prop}
    (hs : s.Sound holes bodies) (hholes : ∀ id, holes id → holes' id)
    (hbodies : ∀ i, bodies i → bodies' i) : s.Sound holes' bodies' where
  unit := hs.unit.mono (fun id h => h.imp_left (hholes id)) (fun i h => h.imp_left (hbodies i))
  deferred := hs.deferred

/-- Another unit in the place of a unit that it grows out of. -/
theorem State.Sound.withUnit (hs : s.Sound holes bodies) {u : CodeUnit}
    {holes' : TypeId → Prop} {bodies' : MethodId → Prop} (hgrows : s.unit.Grows u)
    (hu : u.Sound (fun id => holes' id ∨ s.queue.hasErrors = true)
      (fun i => bodies' i ∨ ∃ d ∈ s.deferred, d.method = i)) :
    s.Reaches holes' bodies' { s with unit := u } := by
  refine ⟨⟨hu, fun d hd => ?_⟩, hgrows⟩
  obtain ⟨howner, hmethod⟩ := hs.deferred d hd
  exact ⟨Nat.lt_of_lt_of_le howner hgrows.classes_le, Nat.lt_of_lt_of_le hmethod hgrows.methods_le⟩

/-- A report changes no unit, and once an error is reported holes may stay open. -/
theorem State.Sound.report (hs : s.Sound holes bodies) (d : Diagnostic) :
    s.Reaches holes bodies { s with queue := s.queue.add d } where
  sound := {
    unit := hs.unit.mono (fun _ h => h.imp_right DiagnosticQueue.hasErrors_add) (fun _ h => h)
    deferred := hs.deferred }
  grows := .refl _

/-- After an error there are no open holes to care for. -/
theorem State.Sound.reportError {holes' : TypeId → Prop} (hs : s.Sound holes bodies)
    {d : Diagnostic} (hd : d.isError = true) :
    s.Reaches holes' bodies { s with queue := s.queue.add d } where
  sound := {
    unit := hs.unit.mono (fun _ _ => .inr (DiagnosticQueue.hasErrors_add_of_isError hd))
      (fun _ h => h)
    deferred := hs.deferred }
  grows := .refl _

/-- Reporting keeps a state sound. -/
theorem report_ensures (hs : s.Sound holes bodies) (d : Diagnostic) :
    Ensures (report d) s fun _ s' => s.Reaches holes bodies s' :=
  ensures_report (hs.report d)

/-- Letting a hole stand for another type. -/
theorem unify_ensures (hs : s.Sound holes bodies) (hole target : TypeId) :
    Ensures (unify hole target) s fun _ s' => s.Reaches holes bodies s' := by
  have hbind := hs.withUnit (CodeUnit.grows_withTypes _ _)
    (hs.unit.refines (hs.unit.types.refines_bindIfUnbound hole target))
  apply Ensures.bind (R := fun _ s' => s.Reaches holes bodies s') (ensures_onTypes hbind)
  exact fun _ _ h => ensures_pure h

/-- Adding a type of arrays. -/
theorem array_ensures (hs : s.Sound holes bodies) (element : TypeId) :
    Ensures (onTypes (·.array element)) s fun _ s' => s.Reaches holes bodies s' :=
  ensures_onTypes (hs.withUnit (CodeUnit.grows_withTypes _ _) (hs.unit.intern nofun))

/-- The type that is written at a place. -/
theorem writtenType_ensures (hs : s.Sound holes bodies) (type : Syntax.TypeRef) :
    Ensures (writtenType type) s fun _ s' => s.Reaches holes bodies s' := by
  have harrays : ∀ (dims : List Nat) (id : TypeId) {s : State}, s.Sound holes bodies →
      Ensures (dims.foldlM (fun id _ => onTypes (·.array id)) id) s
        fun _ s' => s.Reaches holes bodies s' := by
    intro dims
    induction dims with
    | nil => exact fun id s hs => ensures_pure hs.reaches
    | cons _ dims ih =>
      intro id s hs
      rw [List.foldlM_cons]
      apply Ensures.bind (array_ensures hs id)
      intro next s' h
      exact (ih next h.sound).mono fun _ _ h' => h.trans h'
  unfold writtenType
  apply ensures_ask_bind
  cases s.unit.namedType? type.name.name with
  | some id => exact harrays _ id hs
  | none =>
    apply Ensures.bind (report_ensures hs _)
    exact fun _ _ h => ensures_pure h

/-- The type of a declaration is an open hole where none is written. -/
theorem declaredType_ensures (hs : s.Sound holes bodies) (type : Option Syntax.TypeRef) :
    Ensures (declaredType type) s
      fun id s' => s.Reaches (fun t => t = id ∨ holes t) bodies s' := by
  cases type with
  | some type =>
    refine (writtenType_ensures hs type).mono fun id s' h => ⟨?_, h.grows⟩
    exact h.sound.mono (fun _ => .inr) (fun _ h => h)
  | none =>
    rw [declaredType]
    apply ensures_onTypes
    refine hs.withUnit (CodeUnit.grows_withTypes _ _) (hs.unit.newHole.mono ?_ fun _ h => h)
    intro t h
    rcases h with rfl | hopen | herror
    · exact .inl (.inl rfl)
    · exact .inl (.inr hopen)
    · exact .inr herror

/-- Declaring something, or reporting that its name is taken. -/
theorem declare_ensures {create : CodeUnit → Except DuplicateName (α × CodeUnit)} (span : Span)
    {Q : Option α → State → Prop}
    (hok : ∀ id u, create s.unit = .ok (id, u) → Q (some id) { s with unit := u })
    (hclash : ∀ d : Diagnostic, d.isError = true → Q none { s with queue := s.queue.add d }) :
    Ensures (declare span create) s Q := by
  apply ensures_get_bind
  split
  · rename_i id u hcreate
    refine ⟨fun r s' hrun => ?_⟩
    cases hrun
    exact hok id u hcreate
  · refine ⟨fun r s' hrun => ?_⟩
    cases hrun
    exact hclash _ rfl

end ExpLang.Lowering
