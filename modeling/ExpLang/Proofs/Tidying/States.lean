import ExpLang.Proofs.Lowering.Jobs
import ExpLang.Proofs.Lowering.Steps
import ExpLang.Proofs.Resolved.Blame

/-!
# Tidy states

A state of lowering is tidy if the types of its unit are in layers and, as long as nothing was
reported, the unit is blameless. Each step of lowering advances from a tidy state to a tidy one:
`State.Advances`. What a step makes is good as long as nothing was reported by then, so that a report
settles what comes after it.
-/

namespace ExpLang

/-- What is reported first is kept. -/
theorem DiagnosticQueue.entries_add_ne_nil (q : DiagnosticQueue) (d : Diagnostic) :
    (q.add d).entries ≠ [] := by
  unfold add
  split
  · simp
  · rename_i hrefused
    intro hempty
    simp [accepts, limitReached, errorCount, hempty] at hrefused

namespace Lowering

open Resolved

variable {α : Type} {P : Expr → Prop} {s s' s'' : State}

/-- Nothing was reported so far. -/
def State.Quiet (s : State) : Prop := s.queue.entries = []

/-- The types of the unit are in layers, and nothing is wrong with it that was not reported. -/
structure State.Tidy (P : Expr → Prop) (s : State) : Prop where
  layered : s.unit.Layered
  blameless : s.Quiet → s.unit.Blameless P

/-- A later state is tidy. -/
structure State.Advances (P : Expr → Prop) (s s' : State) : Prop where
  tidy : s'.Tidy P
  keeps : s.unit.types.Keeps s'.unit.types
  quiet : s'.Quiet → s.Quiet

/-- A tidy state advances to itself. -/
theorem State.Tidy.advances (hs : s.Tidy P) : s.Advances P s := ⟨hs, .refl _, id⟩

/-- A state advances to one that it advances to in two steps. -/
theorem State.Advances.trans (h : s.Advances P s') (h' : s'.Advances P s'') : s.Advances P s'' :=
  ⟨h'.tidy, h.keeps.trans h'.keeps, fun hquiet => h.quiet (h'.quiet hquiet)⟩

/-- Another unit in the place of a unit whose types it keeps. -/
theorem State.Tidy.withUnit (hs : s.Tidy P) {u : CodeUnit} (hkeeps : s.unit.types.Keeps u.types)
    (hlayered : u.Layered) (hblameless : s.Quiet → s.unit.Blameless P → u.Blameless P) :
    s.Advances P { s with unit := u } :=
  ⟨⟨hlayered, fun hquiet => hblameless hquiet (hs.blameless hquiet)⟩, hkeeps, id⟩

/-- A method may get locals, defaults and a body. -/
theorem State.Tidy.modifyMethod (hs : s.Tidy P) {i : MethodId} {f : MethodDef → MethodDef}
    (hret : (f (s.unit.getMethod i)).ret = (s.unit.getMethod i).ret)
    (htype : (f (s.unit.getMethod i)).type = (s.unit.getMethod i).type)
    (hf : s.Quiet → (s.unit.getMethod i).Good P s.unit.types →
      (f (s.unit.getMethod i)).Good P s.unit.types) :
    s.Advances P { s with unit := s.unit.modifyMethod i f } :=
  hs.withUnit (.refl _) (hs.layered.modifyMethod hret htype) fun hquiet hunit =>
    hunit.modifyMethod (hf hquiet)

/-- A method gets its body. -/
theorem State.Tidy.setBody (hs : s.Tidy P) (i : MethodId) {body : Stmt}
    (hbody : s.Quiet → Excused P body.visits) :
    s.Advances P { s with unit := s.unit.modifyMethod i fun m => { m with body := some body } } := by
  refine hs.modifyMethod rfl rfl fun hquiet hm => { hm with body := ?_ }
  intro stmt hstmt
  cases hstmt
  exact hbody hquiet

/-- After a report the state is not quiet. -/
theorem State.Tidy.report (hs : s.Tidy P) (d : Diagnostic) :
    s.Advances P { s with queue := s.queue.add d } ∧
      ¬ State.Quiet { s with queue := s.queue.add d } := by
  have hloud : ¬ State.Quiet { s with queue := s.queue.add d } := s.queue.entries_add_ne_nil d
  exact ⟨⟨⟨hs.layered, fun hquiet => absurd hquiet hloud⟩, .refl _, fun hquiet => absurd hquiet hloud⟩,
    hloud⟩

/-- What a step ends with comes from running it. -/
theorem Ensures.ran {x : Lower α} {Q : α → State → Prop} (h : Ensures x s Q) :
    Ensures x s fun a s' => Q a s' ∧ x s = .ok (a, s') :=
  ⟨fun a s' hrun => ⟨h.of_run a s' hrun, hrun⟩⟩

/-- Reporting keeps a state tidy, and it is not quiet any more. -/
theorem report_tidy (hs : s.Tidy P) (d : Diagnostic) :
    Ensures (report d) s fun _ s' => s.Advances P s' ∧ ¬ s'.Quiet :=
  ensures_report (hs.report d)

/-- The text of a type changes nothing. -/
theorem typeName_tidy (id : TypeId) : Ensures (typeName id) s fun _ s' => s' = s :=
  ensures_typeName fun _ => rfl

/-- Letting a hole stand for a proper type. -/
theorem unify_tidy (hs : s.Tidy P) (hole : TypeId) {target : TypeId}
    (htarget : s.Quiet → s.unit.types.Proper target) :
    Ensures (unify hole target) s fun _ s' => s.Advances P s' := by
  have hbind := hs.withUnit (u := { s.unit with types := (s.unit.types.bindIfUnbound hole target).2 })
    (s.unit.types.keeps_bindIfUnbound hole target) (hs.layered.bindIfUnbound hole target)
    fun hquiet hunit => hunit.bindIfUnbound (htarget hquiet)
  apply Ensures.bind (R := fun _ s' => s.Advances P s') (ensures_onTypes hbind)
  exact fun _ _ h => ensures_pure h

/-! ## Types -/

/-- A plain type of a unit, which no error made if nothing was reported. -/
structure State.Plain (s : State) (id : TypeId) : Prop where
  lt : id < s.unit.types.size
  plain : (s.unit.types.get id).isPlain = true
  proper : s.Quiet → s.unit.types.Proper id

/-- A plain type stays plain as a state advances. -/
theorem State.Plain.advances {id : TypeId} (h : s.Plain id) (hs : s.Advances P s') :
    s'.Plain id where
  lt := Nat.lt_of_lt_of_le h.lt hs.keeps.size_le
  plain := (hs.keeps.get_eq id h.lt).symm ▸ h.plain
  proper hquiet := (h.proper (hs.quiet hquiet)).keeps hs.keeps

/-- A primitive type other than that of errors is plain. -/
theorem State.Tidy.primitive (hs : s.Tidy P) (p : Primitive) (hp : p ≠ .invalid) :
    s.Plain p.id where
  lt := hs.layered.primitive_lt p
  plain := hs.layered.isPlain_primitive p
  proper _ := ⟨hs.layered.primitive_lt p, by cases p <;> first | exact absurd rfl hp | decide⟩

/-- The type of an object of a class. -/
theorem State.Tidy.classType (hs : s.Tidy P) {c : ClassId} (hc : c < s.unit.classes.size) :
    s.Plain (s.unit.getClass c).type where
  lt := (hs.layered.class_type c hc).1
  plain := (hs.layered.class_type c hc).2
  proper hquiet := (hs.blameless hquiet).classType c

/-- A type of arrays of plain types is plain. -/
theorem array_tidy (hs : s.Tidy P) {element : TypeId} (helement : s.Plain element) :
    Ensures (onTypes (·.array element)) s fun id s' => s.Advances P s' ∧ s'.Plain id := by
  apply ensures_onTypes
  have hparts : ∀ part ∈ (TypeData.array element).parts, part = element :=
    fun part hpart => List.mem_singleton.1 hpart
  have hlayered := hs.layered.intern (d := .array element) nofun nofun fun part hpart =>
    hparts part hpart ▸ ⟨helement.lt, helement.plain⟩
  refine ⟨hs.withUnit (s.unit.types.keeps_intern _) hlayered fun hquiet hunit => ?_,
    TypePool.intern_fst_lt _ _, ?_, fun _ => TypePool.proper_intern hs.layered nofun⟩
  · exact hunit.intern nofun fun part hpart => hparts part hpart ▸ helement.proper hquiet
  · have hget := s.unit.types.get_intern (.array element)
    exact hget.symm ▸ rfl

/-- A written name stands for a plain type. -/
theorem State.Tidy.namedType? (hs : s.Tidy P) {name : String} {id : TypeId}
    (h : s.unit.namedType? name = some id) : s.Plain id := by
  unfold CodeUnit.namedType? at h
  split at h
  · rename_i p hp
    cases h
    have hwritable := List.find?_some hp
    refine hs.primitive p ?_
    rintro rfl
    simp [Primitive.isWritable] at hwritable
  · obtain ⟨c, hc, rfl⟩ := Option.map_eq_some_iff.1 h
    exact hs.classType (Array.findIdx?_eq_some_iff_getElem.1 hc).1

/-- A written type is plain, or an error was reported. -/
theorem writtenType_tidy (hs : s.Tidy P) (type : Syntax.TypeRef) :
    Ensures (writtenType type) s fun id s' => s.Advances P s' ∧ s'.Plain id := by
  have harrays : ∀ (dims : List Nat) (id : TypeId) {s : State}, s.Tidy P → s.Plain id →
      Ensures (dims.foldlM (fun id _ => onTypes (·.array id)) id) s
        fun id s' => s.Advances P s' ∧ s'.Plain id := by
    intro dims
    induction dims with
    | nil => exact fun id s hs hid => ensures_pure ⟨hs.advances, hid⟩
    | cons _ dims ih =>
      intro id s hs hid
      rw [List.foldlM_cons]
      apply Ensures.bind (array_tidy hs hid)
      intro next s' hstep
      obtain ⟨h, hnext⟩ := hstep
      exact (ih next h.tidy hnext).mono fun _ _ h' => ⟨h.trans h'.1, h'.2⟩
  unfold writtenType
  apply ensures_ask_bind
  cases hnamed : s.unit.namedType? type.name.name with
  | some id => exact harrays _ id hs (hs.namedType? hnamed)
  | none =>
    apply Ensures.bind (report_tidy hs _)
    intro _ s' hstep
    obtain ⟨h, hloud⟩ := hstep
    exact ensures_pure ⟨h, h.tidy.layered.primitive_lt _, h.tidy.layered.isPlain_primitive _,
      fun hquiet => absurd hquiet hloud⟩

/-- The type of a declaration is proper, a new hole where none is written. -/
theorem declaredType_tidy (hs : s.Tidy P) (type : Option Syntax.TypeRef) :
    Ensures (declaredType type) s fun id s' =>
      s.Advances P s' ∧ (s'.Quiet → s'.unit.types.Proper id) := by
  cases type with
  | some type => exact (writtenType_tidy hs type).mono fun _ _ h => ⟨h.1, h.2.proper⟩
  | none =>
    rw [declaredType]
    apply ensures_onTypes
    refine ⟨hs.withUnit (TypePool.keeps_push _ _ _) hs.layered.newHole fun _ hunit => hunit.newHole,
      fun _ => ⟨?_, ?_⟩⟩
    · simp [TypePool.newHole, TypePool.size]
    · have hlt := hs.layered.primitive_lt .invalid
      exact Nat.ne_of_gt hlt

end Lowering

end ExpLang
