import ExpLang.Compilation
import ExpLang.Proofs.Checking.Finiteness
import ExpLang.Proofs.Tidying.Programs

/-!
# Which types contain themselves

A hole is bound without a look at what it is bound to. The only holes that are parts of types are those
of the results of methods, so a type contains itself exactly where methods return methods in a circle.
Where they do not, every type has a text, any two types can be compared, and checking comes to an end.
Where they do, the text of a type or a comparison may have no end.
-/

namespace ExpLang

open Resolved Lowering

/-- No type of a lowered unit contains itself if and only if no method returns itself, on its own or
through other methods. Then every type has a text, every two types are compared, and checking the unit
comes to an end without making a type that contains itself. -/
theorem types_finite_iff {p : Syntax.Program} {policy : QueuePolicy} {u : CodeUnit}
    {queue : DiagnosticQueue} (h : lowerProgram p policy = .ok (u, queue)) :
    (WellFounded u.types.PartOf ↔ Acyclic u.Returns) ∧
    ((∀ id, (u.typeName? id).isSome = true) ↔ Acyclic u.Returns) ∧
    (Acyclic u.Returns →
      (∀ target given, (TypePool.canAssign target given u.types).isSome = true) ∧
      ∃ u' queue', Checking.check u queue = some (u', queue') ∧
        WellFounded u'.types.PartOf ∧ ∀ id, (u'.typeName? id).isSome = true) := by
  have hlayered := (lowerProgram_tidy h).1
  have hlowered := lowerProgram_lowered h
  have hiff : WellFounded u.types.PartOf ↔ Acyclic u.Returns :=
    ⟨hlayered.acyclic_returns, hlayered.wellFounded_of_acyclic hlowered.sound.types⟩
  refine ⟨hiff, CodeUnit.isSome_typeName?_iff.trans hiff, fun hacyclic => ?_⟩
  have hfinite := hlayered.finite hlowered.sound.types hacyclic hlowered.ret_known
  constructor
  · intro target given
    obtain ⟨verdict, types, hcompare, -⟩ := hfinite.canAssign target given
    rw [hcompare]
    rfl
  · obtain ⟨u', queue', hcheck, hfinite'⟩ := Checking.check_ends hfinite queue
    exact ⟨u', queue', hcheck, hfinite'.wellFounded,
      CodeUnit.isSome_typeName?_iff.2 hfinite'.wellFounded⟩

/-- A function that returns one which is declared after it. -/
def returnsOther : Syntax.Program where
  body := [
    .function ⟨⟨"f", ⟨9, 10⟩⟩, [], none, .expr (.ident ⟨"g", ⟨14, 15⟩⟩), ⟨0, 16⟩⟩,
    .function ⟨⟨"g", ⟨26, 27⟩⟩, [], none, .expr (.int 1 ⟨31, 32⟩), ⟨17, 33⟩⟩]
  span := ⟨0, 33⟩

/-- A function that returns another one has a finite type, and checking the program ends. -/
theorem types_finite_iff_returnsOther :
    ∃ u queue, lowerProgram returnsOther {} = .ok (u, queue) ∧ u.Returns 2 1 ∧
      WellFounded u.types.PartOf ∧ (Checking.check u queue).isSome = true := by
  have hshape : (lowerProgram returnsOther {}).toOption.map (fun r =>
      decide (r.1.methods.size = 3 ∧
        r.1.types.resolve (r.1.getMethod 1).ret = (r.1.getMethod 2).type ∧
        ∀ i : Nat, i < 3 → ∀ j : Nat, j < 3 →
          r.1.types.resolve (r.1.getMethod i).ret = (r.1.getMethod j).type → i < j)) =
      some true := by
    decide +kernel
  cases h : lowerProgram returnsOther {} with
  | error halt =>
    rw [h] at hshape
    cases hshape
  | ok r =>
    obtain ⟨u, queue⟩ := r
    rw [h] at hshape
    obtain ⟨hsize, hreturns, hlater⟩ := of_decide_eq_true (Option.some.inj hshape)
    have hacyclic : Acyclic u.Returns := by
      refine Acyclic.of_rank (3 - ·) fun j i hji => ?_
      obtain ⟨hi, hj, hji⟩ := hji
      rw [hsize] at hi hj
      exact Nat.sub_lt_sub_left hi (hlater i hi j hj hji)
    obtain ⟨hiff, -, hends⟩ := types_finite_iff h
    obtain ⟨-, u', queue', hcheck, -⟩ := hends hacyclic
    refine ⟨u, queue, rfl, ⟨?_, ?_, hreturns⟩, hiff.2 hacyclic, by rw [hcheck]; rfl⟩
    · rw [hsize]
      decide
    · rw [hsize]
      decide

/-- A function that returns itself. -/
def returnsItself : Source := .ofText "itself" "function f()=>f;"

/-- A function that returns itself, in the place of a number. -/
def returnsItselfAsNumber : Source := .ofText "number" "function f()=>f;var x:Int=f;"

/-- A source that compiles with no finding to a unit with a type that contains itself, and one whose
error cannot be told because the text of such a type has no end. -/
theorem compile_returnsItself :
    (∃ c, compile returnsItself 1000 {} = .ok c ∧ c.findings = [] ∧
      ¬ WellFounded c.unit.types.PartOf) ∧
    compile returnsItselfAsNumber 1000 {} = .error .endless := by
  constructor
  · have hshape : (compile returnsItself 1000 {}).toOption.map (fun c =>
        c.findings = [] ∧ c.unit.typeName? (c.unit.getMethod 1).type = none :
          Compilation → Bool) = some true := by
      decide +kernel
    cases h : compile returnsItself 1000 {} with
    | error e =>
      rw [h] at hshape
      cases hshape
    | ok c =>
      rw [h] at hshape
      obtain ⟨hfindings, hname⟩ := of_decide_eq_true (Option.some.inj hshape)
      refine ⟨c, rfl, hfindings, fun hfinite => ?_⟩
      have hsome := CodeUnit.isSome_typeName?_iff.2 hfinite (c.unit.getMethod 1).type
      rw [hname] at hsome
      cases hsome
  · have hendless : (match compile returnsItselfAsNumber 1000 {} with
        | .error e => some e
        | .ok _ => none) = some .endless := by
      decide +kernel
    split at hendless
    · rename_i e h
      rw [h, Option.some.inj hendless]
    · cases hendless

end ExpLang
