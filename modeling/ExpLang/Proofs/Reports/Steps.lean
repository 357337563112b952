import ExpLang.Proofs.Diagnostic.Histories
import ExpLang.Proofs.Lowering.Jobs

/-!
# What a step of lowering reports

Lowering reports findings and never looks at those before: from states that differ in their queues only,
a step stops in the same way or ends with the same result, the same unit and the same reports. `Tells`
says what a step reports, and `Steady x s Q` that it does so whatever the queue is, and that `Q` holds
of what it ends with. There is one rule for each way to put steps together.
-/

namespace ExpLang.Lowering

open Resolved

variable {α β : Type} {s s' : State} {ds : List Diagnostic}

/-- A state with other findings so far. -/
def State.withQueue (s : State) (q : DiagnosticQueue) : State := { s with queue := q }

/-- Whatever was found before, a step from a state ends with a result in a state and reports some
findings. -/
structure Tells (x : Lower α) (s : State) (a : α) (s' : State) (ds : List Diagnostic) : Prop where
  of_queue : ∀ q, x (s.withQueue q) = .ok (a, s'.withQueue (q.addAll ds))

/-- What a step does is the same whatever was found before, and something holds of what it ends with
and reports. -/
inductive Steady (x : Lower α) (s : State) (Q : α → State → List Diagnostic → Prop) : Prop
  | stops {halt : Halt} : (∀ q, x (s.withQueue q) = .error halt) → Steady x s Q
  | tells {a s' ds} : Tells x s a s' ds → Q a s' ds → Steady x s Q

variable {Q : α → State → List Diagnostic → Prop}

/-- A step that does nothing is steady. -/
theorem steady_pure {a : α} (h : Q a s []) : Steady (pure a) s Q := .tells ⟨fun _ => rfl⟩ h

/-- A step that stops is steady. -/
theorem steady_throw {halt : Halt} : Steady (throw halt) s Q := .stops fun _ => rfl

/-- A step after another one begins in the state in which that one ends, and reports after it. -/
theorem Steady.bind {R : β → State → List Diagnostic → Prop} {x : Lower α} {f : α → Lower β}
    (hx : Steady x s Q)
    (hf : ∀ a s' ds, Q a s' ds → Steady (f a) s' fun b s'' ds' => R b s'' (ds ++ ds')) :
    Steady (x >>= f) s R := by
  cases hx with
  | stops hstop => exact .stops fun q => bind_of_error (hstop q)
  | tells htells hq =>
    cases hf _ _ _ hq with
    | stops hstop => exact .stops fun q => (bind_of_ok (htells.of_queue q)).trans (hstop _)
    | tells htells' hr =>
      refine .tells ⟨fun q => ?_⟩ hr
      rw [bind_of_ok (htells.of_queue q), htells'.of_queue, ← DiagnosticQueue.addAll_append]

/-- Making something of a result reports nothing. -/
theorem Steady.bind_pure {R : β → State → List Diagnostic → Prop} {x : Lower α} {g : α → β}
    (hx : Steady x s Q) (h : ∀ a s' ds, Q a s' ds → R (g a) s' ds) :
    Steady (x >>= fun a => pure (g a)) s R :=
  hx.bind fun _ _ _ hq => steady_pure ((List.append_nil _).symm ▸ h _ _ _ hq)

/-- Looking at the state changes nothing, and what is done with it must not depend on the findings. -/
theorem steady_get_bind {f : State → Lower α} (hf : ∀ q, f (s.withQueue q) = f s)
    (h : Steady (f s) s Q) : Steady (get >>= f) s Q := by
  have hrun (q : DiagnosticQueue) : (get >>= f) (s.withQueue q) = f s (s.withQueue q) :=
    congrFun (hf q) (s.withQueue q)
  cases h with
  | stops hstop => exact .stops fun q => (hrun q).trans (hstop q)
  | tells htells hq => exact .tells ⟨fun q => (hrun q).trans (htells.of_queue q)⟩ hq

/-- A question about the unit and a steady step are a steady step. -/
theorem steady_ask_bind {g : CodeUnit → β} {f : β → Lower α} (h : Steady (f (g s.unit)) s Q) :
    Steady (ask g >>= f) s Q :=
  steady_get_bind (f := fun s => f (g s.unit)) (fun _ => rfl) h

/-- A report is steady, with its finding. -/
theorem steady_report {d : Diagnostic} {Q : Unit → State → List Diagnostic → Prop}
    (h : Q () s [d]) : Steady (report d) s Q := .tells ⟨fun _ => rfl⟩ h

/-- A report before a result. -/
theorem steady_report_bind {d : Diagnostic} {a : α} (h : Q a s [d]) :
    Steady (report d >>= fun _ => pure a) s Q := .tells ⟨fun _ => rfl⟩ h

/-- A change of the state that leaves the findings alone. -/
theorem steady_modify {f : State → State} {Q : Unit → State → List Diagnostic → Prop}
    (hf : ∀ q, f (s.withQueue q) = (f s).withQueue q) (h : Q () (f s) []) :
    Steady (modify f) s Q :=
  .tells ⟨fun q => congrArg (fun s' => Except.ok ((), s')) (hf q)⟩ h

/-- A change of the unit is steady and reports nothing. -/
theorem steady_modifyUnit {f : CodeUnit → CodeUnit} {Q : Unit → State → List Diagnostic → Prop}
    (h : Q () { s with unit := f s.unit } []) : Steady (modifyUnit f) s Q :=
  steady_modify (fun _ => rfl) h

/-- An operation of the types is steady and reports nothing. -/
theorem steady_onTypes {f : TypePool → α × TypePool}
    (h : Q (f s.unit.types).1 { s with unit := { s.unit with types := (f s.unit.types).2 } } []) :
    Steady (onTypes f) s Q := .tells ⟨fun _ => rfl⟩ h

/-- The text of a type. -/
theorem steady_typeName_bind {id : TypeId} {f : String → Lower α}
    (h : ∀ name, s.unit.typeName? id = some name → Steady (f name) s Q) :
    Steady (typeName id >>= f) s Q := by
  rw [typeName, bind_assoc]
  refine steady_get_bind (fun _ => rfl) ?_
  cases hname : s.unit.typeName? id with
  | some name =>
    rw [pure_bind]
    exact h name hname
  | none => exact .stops fun _ => rfl

/-- Unifying two types is steady and reports nothing. -/
theorem steady_unify {hole target : TypeId} {Q : Unit → State → List Diagnostic → Prop}
    (h : Q () { s with unit := { s.unit with
      types := (s.unit.types.bindIfUnbound hole target).2 } } []) :
    Steady (unify hole target) s Q := .tells ⟨fun _ => rfl⟩ h

/-- Letting a hole stand for another type reports nothing. -/
theorem steady_unify_bind {hole target : TypeId} {f : Unit → Lower α}
    (h : Steady (f ()) { s with unit := { s.unit with
      types := (s.unit.types.bindIfUnbound hole target).2 } } Q) :
    Steady (unify hole target >>= f) s Q := by
  cases h with
  | stops hstop => exact .stops hstop
  | tells htells hq => exact .tells ⟨htells.of_queue⟩ hq

/-- What a step ends with and reports is determined by the state. -/
theorem Tells.unique {x : Lower α} {a a' : α} {s₁ s₂ : State} {ds₁ ds₂ : List Diagnostic}
    (h₁ : Tells x s a s₁ ds₁) (h₂ : Tells x s a' s₂ ds₂) :
    a = a' ∧ s₁.unit = s₂.unit ∧ ds₁ = ds₂ := by
  have heq := (h₁.of_queue { policy := .unlimited }).symm.trans
    (h₂.of_queue { policy := .unlimited })
  obtain ⟨ha, hs⟩ := Prod.mk.inj (Except.ok.inj heq)
  have hentries := congrArg (fun s => s.queue.entries) hs
  simp only [State.withQueue, DiagnosticQueue.entries_addAll, List.nil_append] at hentries
  have hunit := congrArg (fun s => s.unit) hs
  exact ⟨ha, hunit, hentries⟩

end ExpLang.Lowering
