import ExpLang.Proofs.Checking.Steps
import ExpLang.Proofs.Lowering.Programs

/-!
# All types are known after a check without errors

Each local and each field is looked at once on the walk, and a type that is not known by then is
reported. Nothing takes a type away again. So after a walk without errors the types of all locals and
fields are known, the results of all methods were before, and there are no other holes.
-/

namespace ExpLang.Checking

open Resolved Lowering

variable {u u' : CodeUnit} {queue queue' : DiagnosticQueue}

/-! ## What is looked at -/

/-- What a method of a class owes is owed by the unit. -/
theorem mem_obligations_of_method {o : Obligation} {i : MethodId} {c : ClassId}
    (hc : c < u.classes.size) (hi : i ∈ (u.getClass c).methods) (ho : o ∈ methodObligations u i) :
    o ∈ obligations u := by
  refine List.mem_flatMap.2 ⟨c, List.mem_range.2 hc, ?_⟩
  exact List.mem_append_right _ (List.mem_flatMap.2 ⟨i, hi, ho⟩)

/-- What a field of a class owes is owed by the unit. -/
theorem mem_obligations_of_field {o : Obligation} {i : FieldId} {c : ClassId}
    (hc : c < u.classes.size) (hi : i ∈ (u.getClass c).fields) (ho : o ∈ fieldObligations u i) :
    o ∈ obligations u := by
  refine List.mem_flatMap.2 ⟨c, List.mem_range.2 hc, ?_⟩
  exact List.mem_append_left _ (List.mem_flatMap.2 ⟨i, hi, ho⟩)

/-- Every local is looked at. -/
theorem inferred_local_mem {holes : TypeId → Prop} {bodies : MethodId → Prop}
    (hu : u.Sound holes bodies) {i : MethodId} (hi : i < u.methods.size) {l : LocalDef}
    (hl : l ∈ (u.getMethod i).locals) : .inferred l.type l.span l.name ∈ obligations u := by
  obtain ⟨c, hc, hlisted⟩ := hu.method_listed i hi
  refine mem_obligations_of_method hc hlisted (List.mem_append_right _ ?_)
  exact List.mem_map.2 ⟨l, Array.mem_toList_iff.2 hl, rfl⟩

/-- Every field is looked at. -/
theorem inferred_field_mem {holes : TypeId → Prop} {bodies : MethodId → Prop}
    (hu : u.Sound holes bodies) {i : FieldId} (hi : i < u.fields.size) :
    .inferred (u.getField i).type (u.getField i).span (u.getField i).name ∈ obligations u := by
  obtain ⟨c, hc, hlisted⟩ := hu.field_listed i hi
  refine mem_obligations_of_field hc hlisted (List.mem_append_left _ ?_)
  exact List.mem_append_right _ List.mem_cons_self

/-! ## What is known in the end -/

/-- Checking a unit is a walk over its obligations. -/
theorem check_eq_some (h : check u queue = some (u', queue')) :
    (obligations u).forM checkObligation ⟨u, queue⟩ = some ((), ⟨u', queue'⟩) := by
  unfold check at h
  obtain ⟨⟨_, s⟩, hrun, hs⟩ := Option.map_eq_some_iff.1 h
  cases hs
  exact hrun

/-- A type that is not known when it is looked at is an error. -/
theorem checkObligation_inferred {s s' : State} {type : TypeId} {span : Span} {name : String}
    (h : checkObligation (.inferred type span name) s = some ((), s')) :
    s'.queue.hasErrors = true ∨ s.unit.types.isUnbound type = false := by
  change (if s.unit.types.isUnbound type = true then report (.cannotInfer span name)
    else pure () : Check Unit) s = some ((), s') at h
  split at h
  · cases h
    exact .inl (DiagnosticQueue.hasErrors_add_of_isError rfl)
  · rename_i hknown
    exact .inr (Bool.eq_false_iff.2 hknown)

/-- After a walk without errors all types are known that were looked at. -/
theorem isUnbound_of_inferred (hu : u.types.Valid) (h : check u queue = some (u', queue'))
    (hqueue : queue'.hasErrors = false) {type : TypeId} {span : Span} {name : String}
    (hmem : .inferred type span name ∈ obligations u) : u'.types.isUnbound type = false := by
  obtain ⟨before, after, hsplit⟩ := List.append_of_mem hmem
  have hrun := check_eq_some h
  rw [hsplit] at hrun
  obtain ⟨s, s', _, _, _, -, hlook, -, hfirst, hstep, hlast, -⟩ := forM_split hu hrun
  rcases checkObligation_inferred hlook with herror | hknown
  · have hfinal : queue'.hasErrors = true := by
      have hqueue_eq := hlast.queue_eq
      change queue' = _ at hqueue_eq
      rw [hqueue_eq]
      exact DiagnosticQueue.hasErrors_addAll herror
    rw [hqueue] at hfinal
    cases hfinal
  · exact (hstep.refines.trans hlast.refines).isUnbound_eq_false (hfirst.valid hu) hknown

/-- A check without errors leaves no hole open. -/
theorem check_complete (hu : Lowered u queue) (h : check u queue = some (u', queue'))
    (hqueue : queue'.hasErrors = false) : u'.Complete := by
  obtain ⟨ds, hextends⟩ := forM_extends _ hu.sound.types (check_eq_some h)
  have hunit : u' = { u with types := u'.types } := hextends.unit_eq
  have hrefines : u.types.Refines u'.types := hextends.refines
  have hclean : queue.hasErrors = false := by
    rw [Bool.eq_false_iff]
    intro herror
    have hfinal : queue' = queue.addAll ds := hextends.queue_eq
    rw [hfinal, DiagnosticQueue.hasErrors_addAll herror] at hqueue
    cases hqueue
  have hsound : u.Sound (fun _ => False) (fun _ => False) :=
    hu.sound.mono (fun _ herror => by rw [hclean] at herror; cases herror) (fun _ h => h)
  refine ⟨hunit ▸ hsound.refines hrefines, ?_⟩
  apply (hextends.valid hu.sound.types).isUnbound_of_holes
  intro id hhole
  rw [hrefines.isHole_eq] at hhole
  cases (hsound.owned id hhole).resolve_left not_false with
  | ret i hi htype =>
    rw [← htype]
    exact hrefines.isUnbound_eq_false hu.sound.types (hu.ret_known i hi)
  | localVar i l hi hl htype =>
    rw [← htype]
    exact isUnbound_of_inferred hu.sound.types h hqueue (inferred_local_mem hsound hi hl)
  | field i hi htype =>
    rw [← htype]
    exact isUnbound_of_inferred hu.sound.types h hqueue (inferred_field_mem hsound hi)

end ExpLang.Checking
