import ExpLang.Proofs.Reports.Checks
import ExpLang.Proofs.Reports.Programs
import ExpLang.Proofs.Tidying.Programs
import ExpLang.Syntax.Parse

/-!
# Reported errors do not cascade

A finding about types is about types that are settled when it is reported, so an expression that stands
for nothing, or whose operator is not defined, has a type about which nothing more is reported. That
holds of every look that lowering comes to and of every comparison that checking comes to, and nothing
else reports anything about types.
-/

namespace ExpLang

open Resolved

/-- A primitive type stands for itself. -/
theorem TypePool.resolve_primitive {types : TypePool} {prim : Primitive}
    (h : types.get prim.id = .primitive prim) : types.resolve prim.id = prim.id :=
  resolve_of_root (by rw [binding?, h])

/-- The two types that stand for an error that was reported are not firm. -/
theorem TypePool.not_firm_of_error {types : TypePool} {prim : Primitive}
    (h : types.get prim.id = .primitive prim) (herror : prim = .unknown ∨ prim = .invalid) :
    ¬ types.Firm prim.id := by
  rw [Firm, resolve_primitive h]
  rcases herror with rfl | rfl <;> decide

namespace Lowering

variable {p : Syntax.Program} {policy : QueuePolicy} {s s' : State} {ds : List Diagnostic}

/-- The states before and after a look have traced units. -/
theorem Looks.traced {look : Look} (h : Looks p policy look s) :
    s.unit.Traced ∧ KeepsTraced look.run := by
  have hunit {α : Type} {Q : α → Prop} {x : Lower α} (hx : Gives x Q) :
      KeepsTraced (x >>= fun _ => pure ()) := hx.bind fun _ _ => gives_pure trivial
  cases h with
  | prefixed hjob hoperand =>
    obtain ⟨hs, -⟩ := (lowerExpr_traced _ _ _).of_run hjob.traced hoperand
    exact ⟨hs, hunit (prefixType_keepsTraced _ _ _)⟩
  | postfixed hjob hoperand =>
    obtain ⟨hs, -⟩ := (lowerExpr_traced _ _ _).of_run hjob.traced hoperand
    exact ⟨hs, hunit (operandType_keepsTraced _ _ _ _)⟩
  | binary hjob hleft hright =>
    obtain ⟨hs', -⟩ := (lowerExpr_traced _ _ _).of_run hjob.traced hleft
    obtain ⟨hs, -⟩ := (lowerExpr_traced _ _ _).of_run hs' hright
    exact ⟨hs, hunit (lowerBinary_form _ _ _ _)⟩
  | access hjob htarget =>
    obtain ⟨hs, htraced⟩ := (lowerExpr_traced _ _ _).of_run hjob.traced htarget
    exact ⟨hs, hunit (lowerAccess_traced htraced _ _)⟩
  | index hjob htarget hkey =>
    obtain ⟨hs', htraced⟩ := (lowerExpr_traced _ _ _).of_run hjob.traced htarget
    obtain ⟨hs, htraced'⟩ := (lowerExpr_traced _ _ _).of_run hs' hkey
    exact ⟨hs, hunit (lowerIndex_traced htraced htraced' _)⟩
  | call hjob hcallee hargs =>
    obtain ⟨hs', htraced⟩ := (lowerExpr_traced _ _ _).of_run hjob.traced hcallee
    obtain ⟨hs, htraced'⟩ := (lowerExprs_traced _ _ _).of_run hs' hargs
    exact ⟨hs, hunit (lowerCall_traced htraced htraced' _)⟩
  | iteration hjob hiterable _ =>
    obtain ⟨hs, -⟩ := (lowerExpr_traced _ _ _).of_run hjob.traced hiterable
    refine ⟨hs, (keepsTraced_ask _).bind fun element _ => ?_⟩
    split
    · refine (isLenient_keepsTraced _).bind fun lenient _ => ?_
      split
      · exact gives_pure trivial
      · exact (typeName_keepsTraced _).bind fun _ _ => report_keepsTraced _
    · exact gives_pure trivial

/-- What a look reports in the end: findings justified by the unit at that moment, and none about an
expression that stands for nothing or has the type of an error. -/
structure Look.Answers (look : Look) (s' : State) (ds : List Diagnostic) : Prop where
  justified : ∀ d ∈ ds, look.Justifies s'.unit d
  quiet : Primitive.unknown.id ∈ look.subjects ∨ Primitive.invalid.id ∈ look.subjects → ds = []

/-- A look at a type of an earlier error reports nothing. -/
theorem Looks.quiet {look : Look} (h : Looks p policy look s) (htells : Tells look.run s () s' ds)
    (herror : Primitive.unknown.id ∈ look.subjects ∨ Primitive.invalid.id ∈ look.subjects) :
    ds = [] := by
  obtain ⟨hs, hkeeps⟩ := h.traced
  have hs' : s'.unit.Traced := (hkeeps.of_run hs (htells.of_queue s.queue)).1
  have hget (prim : Primitive) : s'.unit.types.get prim.id = .primitive prim := by
    rw [hs'.types.get_eq _ (layered_empty.primitive_lt prim), layered_empty.get_primitive]
  refine List.eq_nil_iff_forall_not_mem.2 fun d hd => ?_
  have hjustified := (look.justifies_of_tells htells d hd).settled
  obtain ⟨prim, hprim, hmem⟩ : ∃ prim : Primitive, (prim = .unknown ∨ prim = .invalid) ∧
      prim.id ∈ look.subjects := by
    rcases herror with hmem | hmem
    · exact ⟨.unknown, .inl rfl, hmem⟩
    · exact ⟨.invalid, .inr rfl, hmem⟩
  have hnot := TypePool.not_firm_of_error (hget prim) hprim
  cases look with
  | access target name span =>
    obtain ⟨c, hc⟩ := hjustified
    rw [← List.mem_singleton.1 hmem, TypePool.resolve_primitive (hget prim), hget] at hc
    cases hc
  | _ => exact hnot (hjustified _ hmem)

end Lowering

namespace Checking

variable {u : CodeUnit} {queue : DiagnosticQueue} {s s' : State} {ds : List Diagnostic}

/-- What a comparison reports in the end: findings justified by the unit at that moment, and none where
one of the types is that of an expression that stands for nothing or of an error. -/
structure Use.Answers (use : Use) (s' : State) (ds : List Diagnostic) : Prop where
  justified : ∀ d ∈ ds, use.Justifies s'.unit d
  quiet : (use.target = Primitive.unknown.id ∨ use.target = Primitive.invalid.id) ∨
    use.given = Primitive.unknown.id ∨ use.given = Primitive.invalid.id → ds = []

/-- A comparison with a type of an earlier error reports nothing. -/
theorem Compares.quiet {use : Use} (hu : u.types.Valid) (h : Compares u queue use s)
    (htells : Tells use.check s () s' ds)
    (herror : (use.target = Primitive.unknown.id ∨ use.target = Primitive.invalid.id) ∨
      use.given = Primitive.unknown.id ∨ use.given = Primitive.invalid.id) : ds = [] := by
  obtain ⟨_, hextends, -⟩ := checkAssignable_extends (h.valid hu) (htells.of_queue s.queue)
  have hget := (hextends.valid (h.valid hu)).get_primitive
  have hnot {type : TypeId} (htype : type = Primitive.unknown.id ∨ type = Primitive.invalid.id) :
      ¬ s'.unit.types.Firm type := by
    rcases htype with rfl | rfl
    · exact TypePool.not_firm_of_error (hget .unknown) (.inl rfl)
    · exact TypePool.not_firm_of_error (hget .invalid) (.inr rfl)
  refine List.eq_nil_iff_forall_not_mem.2 fun d hd => ?_
  have hjustified := Use.justifies_of_tells (h.valid hu) htells d hd
  rcases herror with htarget | hgiven
  · exact hnot htarget hjustified.target_firm
  · exact hnot hgiven hjustified.given_firm

end Checking

open Lowering in
/-- Whatever lowering or checking a program reports about types is reported by a look or a comparison that
it comes to, about types that are settled at that moment: the receiver of an unknown member is an object
of a class, and any other type is none that goes with everything. An expression that stands for nothing
or has the type of an error is the cause of no further report. -/
theorem reports_settled (p : Syntax.Program) (policy : QueuePolicy) :
    (∀ look s s' ds, Looks p policy look s → Tells look.run s () s' ds → look.Answers s' ds) ∧
    ∀ u found, lowerProgram p policy = .ok (u, found) →
      (∃ told, found = DiagnosticQueue.addAll { policy := policy } told ∧
        lowerProgram p .unlimited = .ok (u, ⟨.unlimited, told⟩) ∧
        ∀ d ∈ told, Accounted p policy d) ∧
      ∀ queue,
        (∀ use s s' ds, Checking.Compares u queue use s →
          Checking.Tells (Checking.Use.check use) s () s' ds → use.Answers s' ds) ∧
        ∀ u' queue', Checking.check u queue = some (u', queue') →
          ∃ told, queue' = queue.addAll told ∧
            Checking.check u ⟨.unlimited, []⟩ = some (u', ⟨.unlimited, told⟩) ∧
            ∀ d ∈ told, Checking.Accounted u queue d := by
  refine ⟨fun look s s' ds hlook htells => ?_, fun u found hlower => ⟨?_, fun queue => ⟨?_, ?_⟩⟩⟩
  · exact ⟨look.justifies_of_tells htells, hlook.quiet htells⟩
  · obtain ⟨halt, hstop⟩ | ⟨u', told, hruns, htold⟩ := lowerProgram_accounted p policy
    · cases hlower.symm.trans (hstop policy)
    · cases hlower.symm.trans (hruns policy)
      exact ⟨told, rfl, DiagnosticQueue.addAll_unlimited told ▸ hruns .unlimited, htold⟩
  · intro use s s' ds hcompares htells
    have hu := (lowerProgram_lowered hlower).sound.types
    exact ⟨Checking.Use.justifies_of_tells (hcompares.valid hu) htells, hcompares.quiet hu htells⟩
  · intro u' queue' hcheck
    have hu := (lowerProgram_lowered hlower).sound.types
    obtain hstop | ⟨u'', told, hruns, htold⟩ := Checking.check_accounted hu queue
    · cases hcheck.symm.trans (hstop queue)
    · cases hcheck.symm.trans (hruns queue)
      exact ⟨told, rfl, DiagnosticQueue.addAll_unlimited told ▸ hruns _, htold⟩

/-- An operator that is not defined, a member that is not known and a value of the wrong type; what the
first two stand in is assigned and added to. -/
def threeErrors : Source := .ofText "errors" "class A{}var a=1;a=true+1;A().b+1;a=true;"

set_option maxRecDepth 4000 in
/-- Each of the three errors is reported, and nothing is reported because of them. -/
theorem reports_settled_three_errors :
    ∃ p u found u' checked told, Syntax.parseProgram threeErrors (Syntax.parseConfig 2000) = .ok p ∧
      Lowering.lowerProgram p {} = .ok (u, found) ∧ Checking.check u found = some (u', checked) ∧
      checked.entries.map (·.code) = [.undefinedOperator, .unknownMember, .typeMismatch] ∧
      (∀ look s s' ds, Lowering.Looks p {} look s → Lowering.Tells look.run s () s' ds →
        look.Answers s' ds) ∧
      found = DiagnosticQueue.addAll {} told ∧ ∀ d ∈ told, Lowering.Accounted p {} d := by
  have hruns : ((Syntax.parseProgram threeErrors (Syntax.parseConfig 2000)).toOption.bind fun p =>
      (Lowering.lowerProgram p {}).toOption.bind fun r =>
        (Checking.check r.1 r.2).map fun r => r.2.entries.map (·.code)) =
      some [.undefinedOperator, .unknownMember, .typeMismatch] := by decide +kernel
  cases hparse : Syntax.parseProgram threeErrors (Syntax.parseConfig 2000) with
  | error e =>
    rw [hparse] at hruns
    cases hruns
  | ok p =>
    rw [hparse] at hruns
    obtain ⟨⟨u, found⟩, hlower, hruns⟩ := Lowering.of_toOption_bind hruns
    obtain ⟨⟨u', checked⟩, hcheck, hcodes⟩ := Option.map_eq_some_iff.1 hruns
    obtain ⟨hlooks, hlowered⟩ := reports_settled p {}
    obtain ⟨⟨told, hfound, -, htold⟩, -⟩ := hlowered u found hlower
    exact ⟨p, u, found, u', checked, told, rfl, hlower, hcheck, hcodes, hlooks, hfound, htold⟩

end ExpLang
