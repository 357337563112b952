import ExpLang.Lowering.Expr
import ExpLang.Proofs.Lowering.Sequences
import ExpLang.Proofs.Lowering.Steps
import ExpLang.Proofs.Resolved.Slots
import Mathlib.Data.Option.Basic

/-!
# Lowered expressions name only what there is

`Meets x s Q` says more of a step than `Ensures`: if it stops, it does so because a member is asked of
a type that has none, or because a type contains itself. While an expression is lowered only the types
of the unit change and findings are added, so that all bounds stay as they are. What a name stands for
is found in the blocks around, which declare locals of the method around, or in a realm of that method;
code outside of all methods sees neither locals nor parameters, so it never lacks the method that it
would need for them.
-/

namespace ExpLang.Lowering

open Resolved

variable {α β : Type} {s s' s'' : State}

/-! ## How a step ends -/

/-- Why lowering may stop. -/
def Halt.Expected : Halt → Prop
  | .fault (.unsupportedMemberTarget _ _ _) | .endless => True
  | _ => False

/-- A step ends with a result and a state of which something holds, or stops for an expected
reason. -/
structure Meets (x : Lower α) (s : State) (Q : α → State → Prop) : Prop extends Ensures x s Q where
  of_halt : ∀ halt, x s = .error halt → halt.Expected

/-- Doing nothing meets what holds of the result already. -/
theorem meets_pure {a : α} {Q : α → State → Prop} (h : Q a s) : Meets (pure a : Lower α) s Q :=
  ⟨ensures_pure h, fun _ hrun => by cases hrun⟩

/-- A step after another one meets its demand from whatever the first one leaves. -/
theorem Meets.bind {x : Lower α} {f : α → Lower β} {R : α → State → Prop} {Q : β → State → Prop}
    (hx : Meets x s R) (hf : ∀ a s', R a s' → Meets (f a) s' Q) : Meets (x >>= f) s Q := by
  refine ⟨hx.toEnsures.bind fun a s' h => (hf a s' h).toEnsures, fun halt hrun => ?_⟩
  change (x s >>= fun r => f r.1 r.2) = .error halt at hrun
  cases hfirst : x s with
  | error e =>
    rw [hfirst] at hrun
    cases hrun
    exact hx.of_halt halt hfirst
  | ok r =>
    rw [hfirst] at hrun
    exact (hf r.1 r.2 (hx.of_run r.1 r.2 hfirst)).of_halt halt hrun

/-- A step that meets a demand meets every weaker one. -/
theorem Meets.mono {x : Lower α} {Q R : α → State → Prop} (hx : Meets x s Q)
    (h : ∀ a s', Q a s' → R a s') : Meets x s R :=
  ⟨hx.toEnsures.mono h, hx.of_halt⟩

/-- A step that looks at the state goes on with the state it is in. -/
theorem meets_get_bind {f : State → Lower β} {Q : β → State → Prop} (h : Meets (f s) s Q) :
    Meets (get >>= f) s Q :=
  ⟨ensures_get_bind h.toEnsures, fun halt hrun => h.of_halt halt hrun⟩

/-- A step that asks the unit goes on with the answer. -/
theorem meets_ask_bind {g : CodeUnit → α} {f : α → Lower β} {Q : β → State → Prop}
    (h : Meets (f (g s.unit)) s Q) : Meets (ask g >>= f) s Q :=
  ⟨ensures_ask_bind h.toEnsures, fun halt hrun => h.of_halt halt hrun⟩

/-- A report adds to the queue and to nothing else. -/
theorem meets_report {d : Diagnostic} {Q : Unit → State → Prop}
    (h : Q () { s with queue := s.queue.add d }) : Meets (report d) s Q :=
  ⟨ensures_report h, fun _ hrun => by cases hrun⟩

/-- A step that modifies the unit leaves the modified unit. -/
theorem meets_modifyUnit {f : CodeUnit → CodeUnit} {Q : Unit → State → Prop}
    (h : Q () { s with unit := f s.unit }) : Meets (modifyUnit f) s Q :=
  ⟨ensures_modifyUnit h, fun _ hrun => by cases hrun⟩

/-- A step on the types leaves the types that it makes. -/
theorem meets_onTypes {f : TypePool → α × TypePool} {Q : α → State → Prop}
    (h : Q (f s.unit.types).1 { s with unit := { s.unit with types := (f s.unit.types).2 } }) :
    Meets (onTypes f) s Q :=
  ⟨ensures_onTypes h, fun _ hrun => by cases hrun⟩

/-- The text of a type changes nothing, and is missing only if the type contains itself. -/
theorem meets_typeName (id : TypeId) : Meets (typeName id) s fun _ s' => s' = s := by
  apply meets_get_bind
  split
  · exact meets_pure rfl
  · refine ⟨⟨fun _ _ hrun => by cases hrun⟩, fun halt hrun => ?_⟩
    cases hrun
    trivial

/-- To use the text of a type, as a step that changes nothing. -/
theorem meets_typeName_bind {id : TypeId} {f : String → Lower β} {Q : β → State → Prop}
    (h : ∀ name, Meets (f name) s Q) : Meets (typeName id >>= f) s Q := by
  apply Meets.bind (meets_typeName id)
  intro name s' hs'
  rw [hs']
  exact h name

/-- An access that is not supported stops lowering. -/
theorem meets_unsupported {name type : String} {span : Span} {Q : α → State → Prop} :
    Meets (raise (.unsupportedMemberTarget name type span) : Lower α) s Q := by
  refine ⟨ensures_raise, fun halt hrun => ?_⟩
  cases hrun
  trivial

/-- At a site within a method, asking for the method gives that one. -/
theorem meets_currentMethod_bind {site : Site} {m : MethodId} (hm : site.method = some m)
    {what : String} {span : Span} {f : MethodId → Lower α} {Q : α → State → Prop}
    (h : Meets (f m) s Q) : Meets (site.currentMethod what span >>= f) s Q := by
  unfold Site.currentMethod
  rw [hm]
  exact h

/-! ## States with other types -/

/-- A later state differs in its types and findings only, and has no types of other classes. -/
def State.Retyped (s s' : State) : Prop :=
  ∃ types queue, (∀ c, .ofClass c ∈ types.data → .ofClass c ∈ s.unit.types.data) ∧
    s' = { s with unit := { s.unit with types := types }, queue := queue }

/-- Nothing but types is new where nothing is new. -/
theorem State.Retyped.refl (s : State) : s.Retyped s := ⟨_, _, fun _ h => h, rfl⟩

/-- Two steps after which only types and reports are new leave only types and reports new. -/
theorem State.Retyped.trans (h : s.Retyped s') (h' : s'.Retyped s'') : s.Retyped s'' := by
  obtain ⟨types, queue, hold, rfl⟩ := h
  obtain ⟨types', queue', hold', rfl⟩ := h'
  exact ⟨types', queue', fun c hc => hold c (hold' c hc), rfl⟩

/-- Types and reports do not touch what has to be in range. -/
theorem State.Retyped.inRange (h : s.Retyped s') (hs : s.unit.InRange) : s'.unit.InRange := by
  obtain ⟨types, queue, hold, rfl⟩ := h
  exact hs.withTypes hold

/-- Types and reports do not touch the bounds of slots. -/
theorem State.Retyped.bounds_eq (h : s.Retyped s') (method : Option MethodId) :
    s'.unit.bounds method = s.unit.bounds method := by
  obtain ⟨types, queue, -, rfl⟩ := h
  cases method <;> rfl

/-- A report adds to reports only. -/
theorem report_retyped (d : Diagnostic) : Meets (report d) s fun _ s' => s.Retyped s' :=
  meets_report ⟨_, _, fun _ h => h, rfl⟩

/-- Binding a hole changes types only. -/
theorem unify_retyped (hole target : TypeId) :
    Meets (unify hole target) s fun _ s' => s.Retyped s' := by
  apply Meets.bind (R := fun _ s' => s.Retyped s')
  · refine meets_onTypes ⟨_, _, fun c hc => ?_, rfl⟩
    rwa [TypePool.data_bindIfUnbound] at hc
  · exact fun _ _ h => meets_pure h

/-- An array type is added to types only. -/
theorem array_retyped (element : TypeId) :
    Meets (onTypes (·.array element)) s fun _ s' => s.Retyped s' := by
  refine meets_onTypes ⟨_, _, fun c hc => ?_, rfl⟩
  exact TypePool.ofClass_mem_intern hc fun heq => by cases heq

/-- A new hole is added to types only. -/
theorem newHole_retyped : Meets (onTypes (·.newHole)) s fun _ s' => s.Retyped s' :=
  meets_onTypes ⟨_, _, fun _ hc => TypePool.ofClass_mem_newHole hc, rfl⟩

/-- Finding the type that a program writes adds types and reports only. -/
theorem writtenType_retyped (type : Syntax.TypeRef) :
    Meets (writtenType type) s fun _ s' => s.Retyped s' := by
  have harrays : ∀ (dims : List Nat) (id : TypeId) {s : State},
      Meets (dims.foldlM (fun id _ => onTypes (·.array id)) id) s fun _ s' => s.Retyped s' := by
    intro dims
    induction dims with
    | nil => exact fun id s => meets_pure (.refl s)
    | cons _ dims ih =>
      intro id s
      rw [List.foldlM_cons]
      apply Meets.bind (array_retyped id)
      exact fun next s' h => (ih next).mono fun _ _ h' => h.trans h'
  unfold writtenType
  apply meets_ask_bind
  cases s.unit.namedType? type.name.name with
  | some id => exact harrays _ id
  | none =>
    apply Meets.bind (report_retyped _)
    exact fun _ _ h => meets_pure h

/-- Finding the type of a declaration adds types and reports only. -/
theorem declaredType_retyped (type : Option Syntax.TypeRef) :
    Meets (declaredType type) s fun _ s' => s.Retyped s' := by
  cases type with
  | some type => exact writtenType_retyped type
  | none => exact newHole_retyped

/-! ## What names stand for -/

/-- What a name stands for is there. -/
def ItemWithin (b : Bounds) : Item → Prop
  | .localVar id => id < b.locals
  | .param id => id < b.params
  | .member m => m.Within b
  | .classRef id => id < b.classes
  | .unknown => True

/-- The method whose parameters a realm knows. -/
def realmMethod? : Realm → Option MethodId
  | .params method | .method _ method => some method
  | _ => none

/-- The blocks of a scope declare locals of the method around, and its realms know the parameters of
no other method. -/
structure ScopeFits (method : Option MethodId) (u : CodeUnit) (scope : Scope) : Prop where
  layers : ∀ layer ∈ scope.layers, ∀ entry ∈ layer, ∃ l, entry.2 = .localVar l ∧
    l < (u.bounds method).locals
  realms : ∀ realm ∈ scope.realms, ∀ m, realmMethod? realm = some m → method = some m

section Scopes

variable {method : Option MethodId} {u u' : CodeUnit} {scope : Scope}

/-- The scope that a method starts with has no locals in it. -/
theorem scopeFits_ofMethod (u : CodeUnit) (owner : ClassId) (m : MethodId) :
    ScopeFits (some m) u (.ofMethod owner m) := by
  refine ⟨fun layer hlayer entry hentry => ?_, fun realm hrealm k hk => ?_⟩
  · rw [List.mem_singleton.1 hlayer] at hentry
    cases hentry
  · rw [List.mem_singleton.1 hrealm] at hk
    exact hk

/-- The scope that a class starts with has no locals in it. -/
theorem scopeFits_ofClass (u : CodeUnit) (owner : ClassId) :
    ScopeFits none u (.ofClass owner) := by
  refine ⟨fun layer hlayer entry hentry => ?_, fun realm hrealm k hk => ?_⟩
  · rw [List.mem_singleton.1 hlayer] at hentry
    cases hentry
  · rcases List.mem_cons.1 hrealm with rfl | hrealm
    · cases hk
    · rw [List.mem_singleton.1 hrealm] at hk
      cases hk

/-- A scope fits greater bounds too. -/
theorem ScopeFits.mono (h : ScopeFits method u scope) (hle : (u.bounds method).Le (u'.bounds method)) :
    ScopeFits method u' scope := by
  refine ⟨fun layer hlayer entry hentry => ?_, h.realms⟩
  obtain ⟨l, hl, hlt⟩ := h.layers layer hlayer entry hentry
  exact ⟨l, hl, Nat.lt_of_lt_of_le hlt hle.locals⟩

/-- An inner scope fits where the outer one does. -/
theorem ScopeFits.child (h : ScopeFits method u scope) : ScopeFits method u scope.child := by
  refine ⟨fun layer hlayer => ?_, h.realms⟩
  rcases List.mem_cons.1 hlayer with rfl | hlayer
  · exact fun _ hentry => by cases hentry
  · exact h.layers layer hlayer

/-- A scope with a further local fits if the local is in bounds. -/
theorem ScopeFits.add (h : ScopeFits method u scope) (name : String) {l : LocalId}
    (hl : l < (u.bounds method).locals) : ScopeFits method u (scope.add name (.localVar l)) := by
  obtain ⟨layers, realms⟩ := scope
  refine ⟨fun layer hlayer entry hentry => ?_, h.realms⟩
  rcases List.mem_cons.1 hlayer with rfl | hlayer
  · rcases List.mem_cons.1 hentry with rfl | hentry
    · exact ⟨l, rfl, hl⟩
    · cases layers with
      | nil => cases hentry
      | cons first rest => exact h.layers first List.mem_cons_self entry hentry
  · exact h.layers layer (List.mem_of_mem_tail hlayer) entry hentry

/-- A parameter that is found by its name is one of the method. -/
theorem paramNamed?_lt {m : MethodId} {name : String} {p : ParamId}
    (h : paramNamed? u m name = some p) : p < (u.getMethod m).params.size := by
  obtain ⟨k, hk, rfl⟩ := Option.map_eq_some_iff.1 h
  have hlt := (List.findIdx?_eq_some_iff_getElem.1 hk).1
  simp only [List.length_reverse, Array.length_toList] at hlt
  rw [Array.length_toList]
  exact Nat.lt_of_le_of_lt (Nat.sub_le _ _) (Nat.sub_one_lt (Nat.ne_of_gt (Nat.zero_lt_of_lt hlt)))

/-- The members of a class are members of the unit. -/
theorem member?_within (hu : u.InRange) {c : ClassId} {name : String} {m : Member}
    (h : u.member? c name = some m) : m.Within (u.bounds method) := by
  unfold CodeUnit.member? at h
  rcases (Option.orElse_eq_some _ _ _).1 h with h | ⟨-, h⟩
  · obtain ⟨id, hid, rfl⟩ := Option.map_eq_some_iff.1 h
    have hlt := hu.field_listed c id (List.mem_of_find?_eq_some hid)
    cases method <;> exact hlt
  · obtain ⟨id, hid, rfl⟩ := Option.map_eq_some_iff.1 h
    have hlt := hu.method_listed c id (List.mem_of_find?_eq_some hid)
    cases method <;> exact hlt

/-- A class that is found by its name is one of the unit. -/
theorem classNamed?_within {name : String} {c : ClassId} (h : u.classNamed? name = some c) :
    c < (u.bounds method).classes := by
  have hlt := (Array.findIdx?_eq_some_iff_getElem.1 h).1
  cases method <;> exact hlt

/-- What a realm knows is there, if it is a realm of the method around. -/
theorem lookup_within (hu : u.InRange) {realm : Realm}
    (hrealm : ∀ m, realmMethod? realm = some m → method = some m) {name : String} {item : Item}
    (h : realm.lookup u name = some item) : ItemWithin (u.bounds method) item := by
  have hparam {m : MethodId} (hm : method = some m)
      (h : (paramNamed? u m name).map Item.param = some item) :
      ItemWithin (u.bounds method) item := by
    obtain ⟨p, hp, rfl⟩ := Option.map_eq_some_iff.1 h
    rw [hm]
    exact paramNamed?_lt hp
  have hmember {c : ClassId} (h : (u.member? c name).map Item.member = some item) :
      ItemWithin (u.bounds method) item := by
    obtain ⟨m, hm, rfl⟩ := Option.map_eq_some_iff.1 h
    exact member?_within hu hm
  have hclass (h : (u.classNamed? name).map Item.classRef = some item) :
      ItemWithin (u.bounds method) item := by
    obtain ⟨c, hc, rfl⟩ := Option.map_eq_some_iff.1 h
    exact classNamed?_within hc
  cases realm with
  | classes => exact hclass h
  | members owner => exact hmember h
  | params m => exact hparam (hrealm m rfl) h
  | method owner m =>
    rw [Realm.lookup] at h
    rcases (Option.orElse_eq_some _ _ _).1 h with h | ⟨-, h⟩
    · exact hparam (hrealm m rfl) h
    · rcases (Option.orElse_eq_some _ _ _).1 h with h | ⟨-, h⟩
      · exact hmember h
      · exact hclass h

/-- What a name stands for is there. -/
theorem find_within (hu : u.InRange) (hscope : ScopeFits method u scope) (name : String) :
    ItemWithin (u.bounds method) (scope.find u name) := by
  unfold Scope.find Scope.lookup
  cases hlayers : scope.layers.findSome? (·.lookup name) with
  | some item =>
    obtain ⟨layer, hlayer, hlookup⟩ := List.exists_of_findSome?_eq_some hlayers
    obtain ⟨before, after, hsplit, -⟩ := List.lookup_eq_some_iff.1 hlookup
    obtain ⟨l, hl, hlt⟩ := hscope.layers layer hlayer (name, item) (by simp [hsplit])
    rw [show item = .localVar l from hl]
    exact hlt
  | none =>
    cases hrealms : scope.realms.findSome? (·.lookup u name) with
    | none => trivial
    | some item =>
      obtain ⟨realm, hrealm, hlookup⟩ := List.exists_of_findSome?_eq_some hrealms
      exact lookup_within hu (hscope.realms realm hrealm) hlookup

/-- A scope fits also after types and reports were added. -/
theorem State.Retyped.scopeFits (h : s.Retyped s') (hscope : ScopeFits method s.unit scope) :
    ScopeFits method s'.unit scope := by
  refine ⟨fun layer hlayer entry hentry => ?_, hscope.realms⟩
  rw [h.bounds_eq]
  exact hscope.layers layer hlayer entry hentry

end Scopes

/-! ## One lemma for each way to make an expression -/

/-- A step that gives an expression changes types and findings only, and all that the expression names
is there. -/
def GivesWithin (method : Option MethodId) (s : State) (x : Lower Expr) : Prop :=
  Meets x s fun e s' => s.Retyped s' ∧ CodeWithin (s.unit.bounds method) e.visits

section Expressions

variable {method : Option MethodId}

/-- An expression that stands for nothing has no slots. -/
theorem unknownExpr_within {b : Bounds} (name : String) (span : Span) :
    CodeWithin b (unknownExpr name span).visits := codeWithin_cons.2 ⟨trivial, codeWithin_nil⟩

/-- A report before an expression. -/
theorem givesWithin_report (d : Diagnostic) {e : Expr}
    (he : CodeWithin (s.unit.bounds method) e.visits) :
    GivesWithin method s (report d >>= fun _ => pure e) := by
  apply Meets.bind (report_retyped d)
  exact fun _ _ h => meets_pure ⟨h, he⟩

/-- A step that only looks at the unit before an expression. -/
theorem givesWithin_ask {f : CodeUnit → α} {e : α → Expr}
    (he : ∀ a, CodeWithin (s.unit.bounds method) (e a).visits) :
    GivesWithin method s (ask f >>= fun a => pure (e a)) :=
  meets_ask_bind (meets_pure ⟨.refl s, he _⟩)

/-- A name is lowered to code within bounds. -/
theorem lowerIdent_within (hs : s.unit.InRange) (site : Site) {scope : Scope}
    (hscope : ScopeFits site.method s.unit scope) (id : Syntax.Ident) :
    GivesWithin site.method s (lowerIdent site scope id) := by
  -- outside of all methods no name stands for a local or a parameter
  have hmethod {n : Nat} (h : n < (s.unit.bounds site.method).locals ∨
      n < (s.unit.bounds site.method).params) : ∃ m, site.method = some m := by
    cases hm : site.method with
    | some m => exact ⟨m, rfl⟩
    | none =>
      rw [hm] at h
      rcases h with h | h <;> exact absurd h (Nat.not_lt_zero _)
  unfold lowerIdent
  split
  · split
    · exact givesWithin_report _ (unknownExpr_within _ _)
    · exact givesWithin_ask fun _ => codeWithin_cons.2 ⟨trivial, codeWithin_nil⟩
  · apply meets_ask_bind
    have hfind := find_within hs hscope id.name
    cases hitem : scope.find s.unit id.name with
    | localVar l =>
      rw [hitem] at hfind
      obtain ⟨m, hm⟩ := hmethod (.inl hfind)
      apply meets_currentMethod_bind hm
      exact givesWithin_ask fun _ => codeWithin_cons.2 ⟨hfind, codeWithin_nil⟩
    | param p =>
      rw [hitem] at hfind
      obtain ⟨m, hm⟩ := hmethod (.inr hfind)
      apply meets_currentMethod_bind hm
      exact givesWithin_ask fun _ => codeWithin_cons.2 ⟨hfind, codeWithin_nil⟩
    | member m =>
      rw [hitem] at hfind
      exact givesWithin_ask fun _ => codeWithin_cons.2 ⟨hfind, codeWithin_nil⟩
    | classRef c =>
      rw [hitem] at hfind
      exact givesWithin_ask fun _ => codeWithin_cons.2 ⟨hfind, codeWithin_nil⟩
    | unknown => exact givesWithin_report _ (unknownExpr_within _ _)

/-- The access to a member is lowered to code within bounds. -/
theorem lowerAccess_within (hs : s.unit.InRange) {target : Expr}
    (htarget : CodeWithin (s.unit.bounds method) target.visits) (name : Syntax.Ident) (span : Span) :
    GivesWithin method s (lowerAccess target name span) := by
  have hunknown : CodeWithin (s.unit.bounds method) (unknownExpr name.name span).visits :=
    unknownExpr_within _ _
  unfold lowerAccess
  apply meets_ask_bind
  split
  · exact meets_pure ⟨.refl s, hunknown⟩
  · apply meets_ask_bind
    cases haccess : s.unit.access target.type name.name with
    | found m =>
      cases m with
      | some m =>
        have hm : m.Within (s.unit.bounds method) := by
          unfold CodeUnit.access at haccess
          split at haccess
          · exact member?_within hs (CodeUnit.AccessResult.found.inj haccess)
          all_goals cases haccess
        exact givesWithin_ask fun _ => codeWithin_cons.2 ⟨hm, htarget⟩
      | none => exact meets_typeName_bind fun _ => givesWithin_report _ hunknown
    | lenient => exact meets_pure ⟨.refl s, hunknown⟩
    | unsupported => exact meets_typeName_bind fun _ => meets_unsupported

/-- An operator between two operands is lowered to code within bounds. -/
theorem lowerBinary_within (op : BinaryOp) {left right : Expr}
    (hleft : CodeWithin (s.unit.bounds method) left.visits)
    (hright : CodeWithin (s.unit.bounds method) right.visits) (span : Span) :
    GivesWithin method s (lowerBinary op left right span) := by
  have hresult (info : Info) :
      CodeWithin (s.unit.bounds method) (Expr.binary op left right info).visits :=
    codeWithin_cons.2 ⟨trivial, codeWithin_append.2 ⟨hleft, hright⟩⟩
  unfold lowerBinary
  apply meets_ask_bind
  dsimp only
  -- which operand is bound makes no difference to what follows
  split
  all_goals
    apply Meets.bind (unify_retyped _ _)
    intro _ s₁ h₁
    apply meets_ask_bind
    split
    · exact meets_pure ⟨h₁, hresult _⟩
    · refine meets_typeName_bind fun _ => meets_typeName_bind fun _ => ?_
      apply Meets.bind (report_retyped _)
      exact fun _ s₂ h₂ => meets_pure ⟨h₁.trans h₂, hresult _⟩

/-- Checking the operand of an operator adds types and reports only. -/
theorem operandType_retyped (allowed : List Primitive) (symbol : String) (operand : Expr)
    (span : Span) :
    Meets (operandType allowed symbol operand span) s fun _ s' => s.Retyped s' := by
  unfold operandType
  apply Meets.bind (unify_retyped _ _)
  intro _ s₁ h₁
  apply meets_ask_bind
  split
  · exact meets_pure h₁
  · refine meets_typeName_bind fun _ => ?_
    apply Meets.bind (report_retyped _)
    exact fun _ s₂ h₂ => meets_pure (h₁.trans h₂)

/-- Finding the type of a prefix operator adds types and reports only. -/
theorem prefixType_retyped (op : PrefixOp) (operand : Expr) (span : Span) :
    Meets (prefixType op operand span) s fun _ s' => s.Retyped s' := by
  unfold prefixType
  split
  · apply Meets.bind (unify_retyped _ _)
    exact fun _ _ h => meets_pure h
  · exact operandType_retyped _ _ _ _
  · exact operandType_retyped _ _ _ _

/-- Reporting a type that is firm adds reports only. -/
theorem reportFirm_retyped (type : TypeId) (d : String → Diagnostic) :
    Meets (reportFirm type d) s fun _ s' => s.Retyped s' := by
  unfold reportFirm isLenient
  apply meets_ask_bind
  split
  · exact meets_pure (.refl s)
  · exact meets_typeName_bind fun _ => report_retyped _

/-- An index is lowered to code within bounds. -/
theorem lowerIndex_within {target key : Expr}
    (htarget : CodeWithin (s.unit.bounds method) target.visits)
    (hkey : CodeWithin (s.unit.bounds method) key.visits) (span : Span) :
    GivesWithin method s (lowerIndex target key span) := by
  have hresult (type : TypeId) :
      CodeWithin (s.unit.bounds method) (Expr.index target key ⟨type, span⟩).visits :=
    codeWithin_cons.2 ⟨trivial, codeWithin_append.2 ⟨htarget, hkey⟩⟩
  unfold lowerIndex
  apply meets_ask_bind
  split
  · apply Meets.bind (reportFirm_retyped _ _)
    exact fun _ _ h => meets_pure ⟨h, hresult _⟩
  · exact meets_pure ⟨.refl s, hresult _⟩

/-- A call is lowered to code within bounds. -/
theorem lowerCall_within {callee : Expr} {args : List Expr}
    (hcallee : CodeWithin (s.unit.bounds method) callee.visits)
    (hargs : CodeWithin (s.unit.bounds method) (Expr.visitsAll args)) (span : Span) :
    GivesWithin method s (lowerCall callee args span) := by
  have hresult (type : TypeId) :
      CodeWithin (s.unit.bounds method) (Expr.call callee args ⟨type, span⟩).visits :=
    codeWithin_cons.2 ⟨trivial, codeWithin_append.2 ⟨hcallee, hargs⟩⟩
  unfold lowerCall
  split
  · have hclass := (codeWithin_cons.1 hcallee).1
    exact givesWithin_ask fun _ => codeWithin_cons.2 ⟨hclass, hargs⟩
  · apply meets_ask_bind
    split
    · apply Meets.bind (reportFirm_retyped _ _)
      exact fun _ _ h => meets_pure ⟨h, hresult _⟩
    · exact meets_pure ⟨.refl s, hresult _⟩

end Expressions

/-! ## Expressions -/

mutual

/-- All that a lowered expression names is there. -/
theorem lowerExpr_within (site : Site) {scope : Scope} :
    ∀ (e : Syntax.Expr) {s : State}, s.unit.InRange → ScopeFits site.method s.unit scope →
      GivesWithin site.method s (lowerExpr site scope e)
  | .int _ _, s, _, _ | .float _ _, s, _, _ | .bool _ _, s, _, _ => by
    rw [lowerExpr]
    exact meets_pure ⟨.refl s, codeWithin_cons.2 ⟨trivial, codeWithin_nil⟩⟩
  | .ident id, _, hs, hscope => by
    rw [lowerExpr]
    exact lowerIdent_within hs site hscope id
  | .unary op operand span, _, hs, hscope => by
    rw [lowerExpr]
    apply Meets.bind (lowerExpr_within site operand hs hscope)
    intro operand s₁ hstep
    obtain ⟨h₁, hoperand⟩ := hstep
    apply Meets.bind (prefixType_retyped op operand span)
    exact fun _ _ h₂ => meets_pure ⟨h₁.trans h₂, codeWithin_cons.2 ⟨trivial, hoperand⟩⟩
  | .post op operand span, _, hs, hscope => by
    rw [lowerExpr]
    apply Meets.bind (lowerExpr_within site operand hs hscope)
    intro operand s₁ hstep
    obtain ⟨h₁, hoperand⟩ := hstep
    apply Meets.bind (operandType_retyped _ op.symbol operand span)
    exact fun _ _ h₂ => meets_pure ⟨h₁.trans h₂, codeWithin_cons.2 ⟨trivial, hoperand⟩⟩
  | .binary op left right span, _, hs, hscope => by
    rw [lowerExpr]
    apply Meets.bind (lowerExpr_within site left hs hscope)
    intro left s₁ hstep
    obtain ⟨h₁, hleft⟩ := hstep
    apply Meets.bind (lowerExpr_within site right (h₁.inRange hs) (h₁.scopeFits hscope))
    intro right s₂ hstep
    obtain ⟨h₂, hright⟩ := hstep
    rw [h₁.bounds_eq] at hright
    have h₁₂ := h₁.trans h₂
    refine (lowerBinary_within op (h₁₂.bounds_eq _ ▸ hleft) (h₁₂.bounds_eq _ ▸ hright) span).mono ?_
    exact fun _ _ h => ⟨h₁₂.trans h.1, h₁₂.bounds_eq _ ▸ h.2⟩
  | .field target name span, _, hs, hscope => by
    rw [lowerExpr]
    apply Meets.bind (lowerExpr_within site target hs hscope)
    intro target s₁ hstep
    obtain ⟨h₁, htarget⟩ := hstep
    refine (lowerAccess_within (h₁.inRange hs) (h₁.bounds_eq _ ▸ htarget) name span).mono ?_
    exact fun _ _ h => ⟨h₁.trans h.1, h₁.bounds_eq _ ▸ h.2⟩
  | .index target key span, _, hs, hscope => by
    rw [lowerExpr]
    apply Meets.bind (lowerExpr_within site target hs hscope)
    intro target s₁ hstep
    obtain ⟨h₁, htarget⟩ := hstep
    apply Meets.bind (lowerExpr_within site key (h₁.inRange hs) (h₁.scopeFits hscope))
    intro key s₂ hstep
    obtain ⟨h₂, hkey⟩ := hstep
    rw [h₁.bounds_eq] at hkey
    have h₁₂ := h₁.trans h₂
    refine (lowerIndex_within (h₁₂.bounds_eq _ ▸ htarget) (h₁₂.bounds_eq _ ▸ hkey) span).mono ?_
    exact fun _ _ h => ⟨h₁₂.trans h.1, h₁₂.bounds_eq _ ▸ h.2⟩
  | .call callee args span, _, hs, hscope => by
    rw [lowerExpr]
    apply Meets.bind (lowerExpr_within site callee hs hscope)
    intro callee s₁ hstep
    obtain ⟨h₁, hcallee⟩ := hstep
    apply Meets.bind (lowerExprs_within site args (h₁.inRange hs) (h₁.scopeFits hscope))
    intro args s₂ hstep
    obtain ⟨h₂, hargs⟩ := hstep
    rw [h₁.bounds_eq] at hargs
    have h₁₂ := h₁.trans h₂
    refine (lowerCall_within (h₁₂.bounds_eq _ ▸ hcallee) (h₁₂.bounds_eq _ ▸ hargs) span).mono ?_
    exact fun _ _ h => ⟨h₁₂.trans h.1, h₁₂.bounds_eq _ ▸ h.2⟩

/-- The expressions of a list are lowered to code within bounds. -/
theorem lowerExprs_within (site : Site) {scope : Scope} :
    ∀ (es : List Syntax.Expr) {s : State}, s.unit.InRange → ScopeFits site.method s.unit scope →
      Meets (lowerExprs site scope es) s fun es' s' =>
        s.Retyped s' ∧ CodeWithin (s.unit.bounds site.method) (Expr.visitsAll es')
  | [], s, _, _ => by
    rw [lowerExprs]
    exact meets_pure ⟨.refl s, codeWithin_nil⟩
  | e :: rest, _, hs, hscope => by
    rw [lowerExprs]
    apply Meets.bind (lowerExpr_within site e hs hscope)
    intro e s₁ hstep
    obtain ⟨h₁, he⟩ := hstep
    apply Meets.bind (lowerExprs_within site rest (h₁.inRange hs) (h₁.scopeFits hscope))
    intro rest s₂ hstep
    obtain ⟨h₂, hrest⟩ := hstep
    rw [h₁.bounds_eq] at hrest
    exact meets_pure ⟨h₁.trans h₂, codeWithin_append.2 ⟨he, hrest⟩⟩

end

end ExpLang.Lowering
