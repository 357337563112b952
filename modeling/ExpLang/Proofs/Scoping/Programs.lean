import ExpLang.Proofs.Scoping.Statements
import ExpLang.Proofs.Slots.Programs

/-!
# Programs are lowered by lexical scoping

The method that a program starts in is lowered first, with the code outside of all functions. After that
each body that waits is lowered in a scope of its own, and what it declares goes into its own method. In
the end every method is settled: its locals are the declarators of its code, in the order of the source,
and every name in its code was lowered to what it stands for at its place.
-/

namespace ExpLang

namespace Syntax

open Lowering (plainStmts functionDecls classDecls)

/-- The functions in one statement of a program are functions of the program. -/
theorem functions_subset_of_mem {stmts : List Stmt} {stmt : Stmt} (h : stmt ∈ stmts) :
    stmt.functions ⊆ functionsAll stmts := by
  induction stmts with
  | nil => cases h
  | cons first rest ih =>
    rw [functionsAll]
    rcases List.mem_cons.1 h with rfl | h
    · exact List.subset_append_left _ _
    · exact List.subset_append_of_subset_right _ (ih h)

/-- More statements have more functions. -/
theorem functionsAll_mono {stmts stmts' : List Stmt} (h : stmts ⊆ stmts') :
    functionsAll stmts ⊆ functionsAll stmts' := by
  induction stmts with
  | nil => exact List.nil_subset _
  | cons stmt rest ih =>
    rw [List.cons_subset] at h
    rw [functionsAll]
    exact List.append_subset.2 ⟨functions_subset_of_mem h.1, ih h.2⟩

/-- The functions declared at the top are functions of the program. -/
theorem functionDecls_subset (body : List Stmt) : functionDecls body ⊆ functionsAll body := by
  intro decl hdecl
  obtain ⟨stmt, hstmt, hsome⟩ := List.mem_filterMap.1 hdecl
  have hfunctions := functions_subset_of_mem hstmt
  cases stmt <;> cases hsome
  exact hfunctions (mem_functions decl)

/-- The methods of a class at the top are functions of the program. -/
theorem memberFunctions_subset_of_mem {body : List Stmt} {decl : ClassDecl Stmt}
    (h : decl ∈ classDecls body) : memberFunctions decl.members ⊆ functionsAll body := by
  obtain ⟨stmt, hstmt, hsome⟩ := List.mem_filterMap.1 h
  have hfunctions := functions_subset_of_mem hstmt
  cases stmt <;> cases hsome
  obtain ⟨name, members, span⟩ := decl
  rwa [Stmt.functions] at hfunctions

end Syntax

namespace Lowering

open Resolved

variable {p : Syntax.Program} {policy : QueuePolicy} {s s' : State} {m : MethodId} {owner : ClassId}

/-- Nothing is left open. -/
abbrev Closed (p : Syntax.Program) (policy : QueuePolicy) (here : Option MethodId) (s : State) : Prop :=
  s.Accounted p policy here fun _ => False

/-- The method that is lowered is settled in the end. -/
theorem State.Accounted.close {opened : MethodId → Prop} (hs : s.Accounted p policy (some m) opened)
    (hm : Settled p policy m (s.unit.getMethod m).outline) : s.Accounted p policy none opened where
  inRange := hs.inRange
  here_lt := nofun
  covered i hi := by
    rcases hs.covered i hi with hcase | hcase
    · cases hcase
      exact .inr (.inr (.inr hm))
    · exact .inr hcase
  waits d hd := ⟨nofun, (hs.waits d hd).2⟩
  once := hs.once

/-- A body does not wait any more once it is lowered. -/
theorem State.Accounted.pop {opened : MethodId → Prop} (hs : s.Accounted p policy none opened)
    {d : Deferred} {rest : List Deferred} (hwaits : s.deferred = d :: rest) :
    State.Accounted p policy (some d.method) opened { s with deferred := rest } where
  inRange := (hs.inRange.pop hwaits).1
  here_lt k hk := by
    cases hk
    exact (hs.inRange.deferred d (by rw [hwaits]; exact List.mem_cons_self)).2
  covered i hi := by
    have hcovered := hs.covered i hi
    rw [hwaits] at hcovered
    rcases hcovered with hcase | hcase | ⟨d', hd', hcase⟩ | hcase
    · cases hcase
    · exact .inr (.inl hcase)
    · rcases List.mem_cons.1 hd' with rfl | hd'
      · exact .inl (congrArg some hcase)
      · exact .inr (.inr (.inl ⟨d', hd', hcase⟩))
    · exact .inr (.inr (.inr hcase))
  waits d' hd' := by
    have honce := hs.once
    rw [hwaits, List.map_cons, List.nodup_cons] at honce
    refine ⟨fun heq => honce.1 ?_, (hs.waits d' (hwaits ▸ List.mem_cons_of_mem _ hd')).2⟩
    rw [Option.some.inj heq]
    exact List.mem_map_of_mem hd'
  once := by
    have honce := hs.once
    rw [hwaits, List.map_cons, List.nodup_cons] at honce
    exact honce.2

/-- A body starts in a method without locals, and with nothing in scope. -/
theorem State.Accounted.stands {opened : MethodId → Prop} {site : Site}
    (hs : s.Accounted p policy (some m) opened) (hfits : SiteFits m s.unit site)
    (hlocals : (s.unit.getMethod m).outline.locals = []) :
    Stands p policy opened m site .start 0 s where
  accounted := hs
  fits := hfits
  scope := scopeFits_ofMethod _ site.owner m
  locals := by rw [← MethodDef.length_locals_outline, hlocals, List.length_nil]

/-- A step settles the method that is lowered: it declares what the code of the method declares, and
goes through the names that the code uses. -/
theorem Gains.close (code : Syntax.MethodCode) {site : Site} {view : Syntax.View} {s₁ : State}
    (h : Gains p policy (fun _ => False) m site view 0 code.declarators code.occurrences s s₁)
    (hsame : s₁.SameOutlines s') (hr : s'.InRange) (hm : m < s.unit.methods.size)
    (howner : (s.unit.getMethod m).outline.owner = site.owner)
    (hbody : BodyOf p ((s.unit.getMethod m).outline.declare code.declarators) code) :
    Closed p policy none s' := by
  refine (h.stands.accounted.settle hr hsame fun _ _ => False.elim).close ?_
  rw [hsame.outline, h.adds.of_eq hm]
  exact ⟨code, hbody, howner ▸ h.names⟩

/-- The code outside of all functions. -/
theorem lowerMain_closed (hjob : Comes p policy (.stmts ⟨owner, some m, true⟩ (.ofMethod owner m)
    (plainStmts p.body)) s) (hs : Closed p policy (some m) s)
    (hfits : SiteFits m s.unit ⟨owner, some m, true⟩)
    (houtline : (s.unit.getMethod m).outline = ⟨mainMethod, owner, p.span, ["argv"], []⟩) :
    Ensures (lowerMain owner m p) s fun _ s' => Closed p policy none s' := by
  have hgains : Ensures (lowerMain owner m p) s fun _ s' => ∃ s₁ view,
      Gains p policy (fun _ => False) m ⟨owner, some m, true⟩ view 0
        (Syntax.declaratorsAll (plainStmts p.body))
        (Syntax.occurrencesAll .start 0 (plainStmts p.body)) s s₁ ∧ s₁.SameOutlines s' := by
    have hplain : Syntax.functionsAll (plainStmts p.body) ⊆ Syntax.functionsAll p.body :=
      Syntax.functionsAll_mono (List.filter_subset_self _)
    unfold lowerMain
    apply Ensures.bind (lowerStmts_gains _ (hs.stands hfits (by rw [houtline])) hjob hplain)
    rintro r s₁ ⟨view, h₁⟩
    apply ensures_modifyUnit
    exact ⟨s₁, view, h₁, s₁.sameOutlines_modifyMethod m rfl⟩
  refine ((lowerMain_follows hs.inRange hfits p).toEnsures.and hgains).mono ?_
  rintro - s' ⟨hfollows, s₁, view, h₁, hsame⟩
  refine Gains.close (.stmts (plainStmts p.body)) h₁ hsame hfollows.inRange hfits.lt
    (by rw [houtline]) ?_
  rw [houtline]
  exact .main

/-- The body of a method that waited. -/
theorem lowerBody_closed {d : Deferred} (hjob : Comes p policy (d.job s.unit) s)
    (hs : Closed p policy (some d.method) s) (howner : d.owner < s.unit.classes.size)
    (hawaits : Awaits p s.unit d.owner d.method (.stmt d.body)) :
    Ensures (lowerBody d) s fun _ s' => Closed p policy none s' := by
  obtain ⟨hlt, decl, hdecl, hbody, houtline⟩ := hawaits
  have hgains : Ensures (lowerBody d) s fun _ s' => ∃ s₁ view,
      Gains p policy (fun _ => False) d.method
        ⟨d.owner, some d.method, (s.unit.getMethod d.method).isStatic⟩ view 0
        (Syntax.declaratorsAll [d.body]) (Syntax.occurrencesAll .start 0 [d.body]) s s₁ ∧
          s₁.SameOutlines s' := by
    have hfits : SiteFits d.method s.unit
        ⟨d.owner, some d.method, (s.unit.getMethod d.method).isStatic⟩ := ⟨howner, rfl, hlt⟩
    have hstands := hs.stands hfits (by rw [houtline]; rfl)
    unfold lowerBody
    apply ensures_ask_bind
    apply Ensures.bind
      (lowerStmt_gains d.body hstands hjob (Syntax.functionsAll_subset hbody p.body hdecl))
    rintro r s₁ ⟨-, h₁⟩
    apply ensures_modifyUnit
    exact ⟨s₁, d.body.after .start 0, h₁.trans h₁.stands.refl,
      s₁.sameOutlines_modifyMethod d.method rfl⟩
  refine ((lowerBody_follows hs.inRange howner hlt).toEnsures.and hgains).mono ?_
  rintro - s' ⟨hfollows, s₁, view, h₁, hsame⟩
  have hcode : decl.body.code = .stmts [d.body] := by rw [hbody]; rfl
  refine Gains.close (.stmts [d.body]) h₁ hsame hfollows.inRange hlt (by rw [houtline]; rfl) ?_
  rw [houtline, ← hcode]
  exact .function hdecl

/-- All bodies that wait, also those that come to wait meanwhile. -/
theorem lowerDeferred_closed (bound : Nat) {s : State} (hjob : Comes p policy (.bodies bound) s)
    (hs : Closed p policy none s) :
    Ensures (lowerDeferred bound) s fun _ s' => Closed p policy none s' ∧ s'.deferred = [] := by
  induction bound generalizing s with
  | zero =>
    apply ensures_get_bind
    split
    · rename_i hempty
      exact ensures_pure ⟨hs, List.isEmpty_iff.1 hempty⟩
    · exact ⟨fun _ _ hrun => by cases hrun⟩
  | succ bound ih =>
    cases hwaits : s.deferred with
    | nil =>
      refine ⟨fun a s' hrun => ?_⟩
      rw [lowerDeferred_of_nil hwaits] at hrun
      cases hrun
      exact ⟨hs, hwaits⟩
    | cons d rest =>
      have hmem : d ∈ s.deferred := by
        rw [hwaits]
        exact List.mem_cons_self
      have hrest : Ensures (lowerBody d >>= fun _ => lowerDeferred bound) { s with deferred := rest }
          fun _ s' => Closed p policy none s' ∧ s'.deferred = [] := by
        have hbody : Ensures (lowerBody d) { s with deferred := rest } fun _ s' =>
            Closed p policy none s' := lowerBody_closed (hjob.body hwaits) (hs.pop hwaits)
          (hs.inRange.deferred d hmem).1 (hs.waits d hmem).2
        apply Ensures.bind hbody.ran
        rintro _ s₁ ⟨h₁, hrun⟩
        exact ih (hjob.moreBodies hwaits hrun) h₁
      refine ⟨fun a s' hrun => ?_⟩
      rw [lowerDeferred_of_cons hwaits] at hrun
      exact hrest.of_run a s' hrun

/-- The method that a program starts in is the only one at first. -/
theorem declareMain_methods (span : Span) :
    Ensures (declareMain span) s fun r s' => s'.deferred = s.deferred ∧ r.2 = 0 ∧
      ∃ m, s'.unit.methods = #[m] ∧ m.outline = ⟨mainMethod, r.1, span, ["argv"], []⟩ := by
  refine ⟨fun r s' hrun => ?_⟩
  obtain ⟨u, u', hclass, hmethod, rfl⟩ := declareMain_eq_ok hrun
  obtain ⟨-, c, -, -, rfl⟩ := CodeUnit.createClass_eq_ok hclass
  obtain ⟨hid, m, hm, rfl⟩ := CodeUnit.createMethod_eq_ok hmethod
  exact ⟨rfl, hid, m, rfl, by rw [hm]; rfl⟩

/-- The class and the method that a program starts in. -/
theorem declareMain_closed (hdeferred : s.deferred = []) (span : Span) :
    Ensures (declareMain span) s fun r s' => Closed p policy (some r.2) s' ∧
      SiteFits r.2 s'.unit ⟨r.1, some r.2, true⟩ ∧
      (s'.unit.getMethod r.2).outline = ⟨mainMethod, r.1, span, ["argv"], []⟩ := by
  refine ((declareMain_within hdeferred span).toEnsures.and (declareMain_methods span)).mono ?_
  rintro ⟨owner, _⟩ s' ⟨⟨hr, -, hfits⟩, hwaits, rfl, m, hmethods, houtline⟩
  rw [hdeferred] at hwaits
  refine ⟨⟨hr, fun k hk => ?_, fun i hi => ?_, fun d hd => ?_, ?_⟩, hfits, ?_⟩
  · cases hk
    exact hfits.lt
  · rw [hmethods] at hi
    exact .inl (congrArg some (Nat.lt_one_iff.1 hi).symm)
  · rw [hwaits] at hd
    cases hd
  · rw [hwaits]
    exact .nil
  · rw [CodeUnit.getMethod, hmethods]
    exact houtline

/-- Classes without their members. -/
theorem declareClasses_same (decls : List (Syntax.ClassDecl Syntax.Stmt)) {s : State} :
    Ensures (declareClasses decls) s fun declared s' =>
      s.SameMethods s' ∧ ∀ r ∈ declared, r.2 ∈ decls := by
  induction decls generalizing s with
  | nil => exact ensures_pure ⟨.refl s, fun _ h => absurd h List.not_mem_nil⟩
  | cons decl rest ih =>
    apply Ensures.bind (declareClass_same decl)
    intro owner s₁ h₁
    apply Ensures.bind ih
    rintro others s₂ ⟨h₂, hothers⟩
    refine ensures_pure ⟨h₁.trans h₂, fun r hr => ?_⟩
    rcases List.mem_append.1 hr with hr | hr
    · obtain ⟨c, -, rfl⟩ := Option.map_eq_some_iff.1 (Option.mem_toList.1 hr)
      exact List.mem_cons_self
    · exact List.mem_cons_of_mem _ (hothers r hr)

/-- The classes and functions of a program. -/
theorem declareProgram_ready (hs : Closed p policy (some m) s) (howner : owner < s.unit.classes.size) :
    GivesReady p policy (some m) (fun _ => False) s (declareProgram owner p.body) := by
  apply Ensures.bind ((declareClasses_follows _ hs.inRange).toEnsures.and (declareClasses_same _))
  intro declared s₁ hstep
  obtain ⟨⟨hfollows, hdeclared, -⟩, hsame, hdecls⟩ := hstep
  have h₁ := hs.same hfollows.inRange hsame
  have hmembers : GivesReady p policy (some m) (fun _ => False) s₁
      (declareAll (fun r => declareMembers r.1 r.2) declared) := by
    refine declareAll_ready (·.1) declared ?_ h₁ hdeclared
    intro r hr opened s hs howner
    exact declareMembers_ready hs howner (Syntax.memberFunctions_subset_of_mem (hdecls r hr))
  apply Ensures.bind hmembers
  intro ofClasses s₂ hstep
  obtain ⟨hu₂, hclasses₂, hready₂, h₂⟩ := hstep
  have hfunctions : GivesReady p policy (some m) (fun i => Pending ofClasses i ∨ False) s₂
      (declareAll (declareMethod owner .ofClass) (functionDecls p.body)) := by
    refine declareAll_ready (fun _ => owner) _ ?_ h₂
      fun _ _ => howner.trans_le (hfollows.unit.classes.trans hclasses₂)
    intro decl hdecl opened s hs howner
    exact declareMethod_ready hs howner .ofClass (Syntax.functionDecls_subset _ hdecl)
  apply Ensures.bind hfunctions
  intro ofFunctions s₃ hstep
  obtain ⟨hu₃, hclasses₃, hready₃, h₃⟩ := hstep
  refine ensures_pure ⟨hsame.addsLocals.trans (hu₂.trans hu₃),
    hfollows.unit.classes.trans (hclasses₂.trans hclasses₃), fun task htask => ?_, ?_⟩
  · rcases List.mem_append.1 htask with htask | htask
    · exact (hready₂ task htask).keep hu₃
    · exact hready₃ task htask
  · refine h₃.mono fun i h => ?_
    rw [pending_append]
    grind

/-- Every method of a lowered program has the locals of its code, and every name that its code uses is
lowered to what it stands for where it is used. -/
theorem lowerAll_closed (p : Syntax.Program) (policy : QueuePolicy) :
    Ensures (lowerAll p) (.start policy) fun _ s' => Closed p policy none s' ∧ s'.deferred = [] := by
  apply Ensures.bind (declareMain_closed rfl p.span).ran
  intro r s₁ hstep
  obtain ⟨owner, method⟩ := r
  obtain ⟨⟨h₁, hfits, houtline⟩, hmain⟩ := hstep
  apply Ensures.bind ((declareProgram_follows h₁.inRange hfits.owner p.body).toEnsures.and
    (declareProgram_ready h₁ hfits.owner)).ran
  intro tasks s₂ hstep
  obtain ⟨⟨hfollows₂, hu₂, -, hready, h₂⟩, hprogram⟩ := hstep
  have hdeclared : Declared p policy owner method tasks s₂ := ⟨s₁, hmain, hprogram⟩
  apply Ensures.bind ((runTasks_follows tasks h₂.inRange).toEnsures.and
    (runTasks_accounted tasks (.tasks hdeclared) hready h₂)).ran
  intro _ s₃ hstep
  obtain ⟨⟨hfollows₃, hsame, h₃⟩, htasks⟩ := hstep
  have houtline₃ : (s₃.unit.getMethod method).outline =
      ⟨mainMethod, owner, p.span, ["argv"], []⟩ := by
    rw [hsame.outline, hu₂.of_ne hfits.lt nofun]
    exact houtline
  have hfits₃ := hfits.extends (hfollows₂.unit.trans hfollows₃.unit)
  apply Ensures.bind (lowerMain_closed (.main hdeclared htasks) h₃ hfits₃ houtline₃).ran
  intro _ s₄ hstep
  obtain ⟨h₄, hbody⟩ := hstep
  apply Ensures.bind (lowerDeferred_closed _ (.bodies hdeclared htasks hbody) h₄)
  rintro _ s₅ ⟨h₅, hempty⟩
  apply ensures_modifyUnit
  have hclosed : State.InRange { s₅ with unit := closeResults s₅.unit } :=
    ⟨closeResults_inRange h₅.inRange.unit, h₅.inRange.deferred⟩
  exact ⟨h₅.same hclosed ⟨rfl, rfl⟩, hempty⟩

/-- Names are scoped lexically. Every method of a lowered program has the code of a function of the
program, or the code outside of all functions. Its locals are the declarators of that code, in their
order, and every name that the code uses is lowered to what it stands for at its place. -/
theorem names_scoped {u : CodeUnit} {queue : DiagnosticQueue}
    (h : lowerProgram p policy = .ok (u, queue)) :
    ∀ i < u.methods.size, ∃ code, BodyOf p (u.getMethod i).outline code ∧
      AllScoped p policy (u.getMethod i).owner i code.occurrences := by
  obtain ⟨s, hrun, rfl, -⟩ := lowerProgram_eq_ok h
  obtain ⟨hclosed, hempty⟩ := (lowerAll_closed p policy).of_run () s hrun
  intro i hi
  rcases hclosed.covered i hi with hcase | hcase | ⟨d, hd, -⟩ | hcase
  · cases hcase
  · exact hcase.elim
  · rw [hempty] at hd
    cases hd
  · exact hcase

/-- A parameter, a variable of its name, another one in a block, and a function that sees none of them:
`function f(x){var x=x;{var x=x;}function g(){return x;}return x;}` -/
def shadowed : Syntax.Program where
  body := [.function ⟨⟨"f", ⟨9, 10⟩⟩, [⟨⟨"x", ⟨11, 12⟩⟩, none, none, ⟨11, 12⟩⟩], none, .stmt (.block [
    .vars ⟨false,
      [⟨⟨"x", ⟨18, 19⟩⟩, none, some (.ident ⟨"x", ⟨20, 21⟩⟩), false, ⟨18, 21⟩⟩], ⟨14, 22⟩⟩,
    .block [.vars ⟨false,
      [⟨⟨"x", ⟨27, 28⟩⟩, none, some (.ident ⟨"x", ⟨29, 30⟩⟩), false, ⟨27, 30⟩⟩], ⟨23, 31⟩⟩] ⟨22, 32⟩,
    .function ⟨⟨"g", ⟨41, 42⟩⟩, [], none,
      .stmt (.block [.ret (some (.ident ⟨"x", ⟨52, 53⟩⟩)) ⟨45, 54⟩] ⟨44, 55⟩), ⟨32, 55⟩⟩,
    .ret (some (.ident ⟨"x", ⟨62, 63⟩⟩)) ⟨55, 64⟩] ⟨13, 65⟩), ⟨0, 65⟩⟩]
  span := ⟨0, 65⟩

/-- A program whose parameters and locals have one name, and what its methods name. -/
theorem names_scoped_shadowed : ∃ u queue, lowerProgram shadowed {} = .ok (u, queue) ∧
    u.methods.size = 3 ∧
    (u.getMethod 1).outline =
      ⟨"f", 0, ⟨9, 10⟩, ["x"], [⟨"x", ⟨18, 19⟩⟩, ⟨"x", ⟨27, 28⟩⟩]⟩ ∧
    ∀ i < u.methods.size, ∃ code, BodyOf shadowed (u.getMethod i).outline code ∧
      AllScoped shadowed {} (u.getMethod i).owner i code.occurrences := by
  have hshape : (lowerProgram shadowed {}).toOption.map (fun r =>
      decide (r.1.methods.size = 3 ∧ (r.1.getMethod 1).outline =
        ⟨"f", 0, ⟨9, 10⟩, ["x"], [⟨"x", ⟨18, 19⟩⟩, ⟨"x", ⟨27, 28⟩⟩]⟩)) = some true := by
    decide +kernel
  cases h : lowerProgram shadowed {} with
  | error halt =>
    rw [h] at hshape
    cases hshape
  | ok r =>
    obtain ⟨u, queue⟩ := r
    rw [h] at hshape
    obtain ⟨hsize, houtline⟩ := of_decide_eq_true (Option.some.inj hshape)
    exact ⟨u, queue, rfl, hsize, houtline, names_scoped h⟩

end Lowering

end ExpLang
