import ExpLang.Lowering.Expr
import ExpLang.Proofs.Lowering.Sequences
import ExpLang.Proofs.Lowering.Steps

/-!
# Lowering of expressions keeps a unit in order

An expression is lowered by binding holes and reporting errors, and adds nothing to the unit. The
methods that the result names are found in the lists of classes, so they are methods of the unit.
-/

namespace ExpLang.Lowering

open Resolved

variable {α : Type} {holes : TypeId → Prop} {bodies : MethodId → Prop} {s s' : State}

/-- The members of a class are members of the unit. -/
theorem below_of_member? {u : CodeUnit} (hu : u.Sound holes bodies) {c : ClassId} {name : String}
    {m : Member} (h : u.member? c name = some m) : Below m.methods u.methods.size := by
  unfold CodeUnit.member? at h
  cases hfield : u.fieldNamed? c name with
  | some id =>
    rw [hfield] at h
    cases h
    exact below_nil
  | none =>
    rw [hfield] at h
    cases hmethod : u.methodNamed? c name with
    | none =>
      rw [hmethod] at h
      cases h
    | some id =>
      rw [hmethod] at h
      cases h
      intro i hi
      rw [List.mem_singleton.1 hi]
      exact hu.method_lt c id (List.mem_of_find?_eq_some hmethod)

/-- The blocks of a scope declare locals only. -/
def LocalScope (scope : Scope) : Prop :=
  ∀ layer ∈ scope.layers, ∀ entry ∈ layer, ∃ l, entry.2 = .localVar l

/-- The scope of a method declares locals only. -/
theorem localScope_ofMethod (owner : ClassId) (method : MethodId) :
    LocalScope (.ofMethod owner method) := by
  intro layer hlayer entry hentry
  rw [List.mem_singleton.1 hlayer] at hentry
  cases hentry

/-- The scope of a class declares locals only. -/
theorem localScope_ofClass (owner : ClassId) : LocalScope (.ofClass owner) := by
  intro layer hlayer entry hentry
  rw [List.mem_singleton.1 hlayer] at hentry
  cases hentry

/-- A scope within a scope of locals declares locals only. -/
theorem LocalScope.child {scope : Scope} (h : LocalScope scope) : LocalScope scope.child := by
  intro layer hlayer
  rcases List.mem_cons.1 hlayer with rfl | hlayer
  · intro entry hentry
    cases hentry
  · exact h layer hlayer

/-- A scope of locals with one local more declares locals only. -/
theorem LocalScope.add {scope : Scope} (h : LocalScope scope) (name : String) (l : LocalId) :
    LocalScope (scope.add name (.localVar l)) := by
  obtain ⟨layers, realms⟩ := scope
  intro layer hlayer entry hentry
  rcases List.mem_cons.1 hlayer with rfl | hlayer
  · rcases List.mem_cons.1 hentry with rfl | hentry
    · exact ⟨l, rfl⟩
    · cases layers with
      | nil => cases hentry
      | cons first rest => exact h first List.mem_cons_self entry hentry
  · exact h layer (List.mem_of_mem_tail hlayer) entry hentry

/-- A member that a realm knows is a member of the unit. -/
theorem below_of_realm {u : CodeUnit} (hu : u.Sound holes bodies) {realm : Realm} {name : String}
    {m : Member} (h : realm.lookup u name = some (.member m)) : Below m.methods u.methods.size := by
  have hmember {c : ClassId} (h : (u.member? c name).map Item.member = some (.member m)) :
      Below m.methods u.methods.size := by
    obtain ⟨m', hm', heq⟩ := Option.map_eq_some_iff.1 h
    cases heq
    exact below_of_member? hu hm'
  cases realm with
  | classes =>
    obtain ⟨c, -, heq⟩ := Option.map_eq_some_iff.1 h
    cases heq
  | members owner => exact hmember h
  | params method =>
    obtain ⟨p, -, heq⟩ := Option.map_eq_some_iff.1 h
    cases heq
  | method owner method =>
    rw [Realm.lookup] at h
    cases hparam : paramNamed? u method name with
    | some p =>
      rw [hparam] at h
      cases h
    | none =>
      rw [hparam] at h
      cases hfound : u.member? owner name with
      | some m' =>
        rw [hfound] at h
        cases h
        exact below_of_member? hu hfound
      | none =>
        rw [hfound] at h
        obtain ⟨c, -, heq⟩ := Option.map_eq_some_iff.1 h
        cases heq

/-- A member that a name stands for is a member of the unit. -/
theorem below_of_find {u : CodeUnit} (hu : u.Sound holes bodies) {scope : Scope}
    (hscope : LocalScope scope) {name : String} {m : Member}
    (h : scope.find u name = .member m) : Below m.methods u.methods.size := by
  unfold Scope.find Scope.lookup at h
  cases hlayers : scope.layers.findSome? (·.lookup name) with
  | some item =>
    rw [hlayers] at h
    obtain ⟨layer, hlayer, hlookup⟩ := List.exists_of_findSome?_eq_some hlayers
    obtain ⟨before, after, hsplit, -⟩ := List.lookup_eq_some_iff.1 hlookup
    obtain ⟨l, hl⟩ := hscope layer hlayer (name, item) (by simp [hsplit])
    rw [show item = .localVar l from hl] at h
    cases h
  | none =>
    rw [hlayers] at h
    cases hrealms : scope.realms.findSome? (·.lookup u name) with
    | none =>
      rw [hrealms] at h
      cases h
    | some item =>
      rw [hrealms] at h
      obtain ⟨realm, -, hlookup⟩ := List.exists_of_findSome?_eq_some hrealms
      rw [show item = .member m from h] at hlookup
      exact below_of_realm hu hlookup

/-! ## One lemma for each way to make an expression -/

/-- A step that needs a method ensures what it ensures in each method of the site. -/
theorem ensures_currentMethod_bind {site : Site} {what : String} {span : Span}
    {f : MethodId → Lower α} {Q : α → State → Prop}
    (h : ∀ m, site.method = some m → Ensures (f m) s Q) :
    Ensures (site.currentMethod what span >>= f) s Q := by
  unfold Site.currentMethod
  cases hmethod : site.method with
  | none => exact Ensures.bind (R := fun _ _ => False) ensures_raise fun _ _ h => h.elim
  | some m => exact h m hmethod

/-- A step that gives an expression reaches a sound state in which the expression is in order. -/
def GivesExpr (holes : TypeId → Prop) (bodies : MethodId → Prop) (s : State) (x : Lower Expr) :
    Prop :=
  Ensures x s fun e s' => s.Reaches holes bodies s' ∧ Below e.methods s'.unit.methods.size

/-- An expression whose methods are those of the unit is in order. -/
theorem givesExpr_pure (hs : s.Sound holes bodies) {e : Expr}
    (he : Below e.methods s.unit.methods.size) : GivesExpr holes bodies s (pure e) :=
  ensures_pure ⟨hs.reaches, he⟩

/-- A report before an expression that names no method. -/
theorem givesExpr_report (hs : s.Sound holes bodies) (d : Diagnostic) {e : Expr}
    (he : e.methods = []) : GivesExpr holes bodies s (report d >>= fun _ => pure e) := by
  apply Ensures.bind (report_ensures hs d)
  intro _ s' h
  apply ensures_pure
  rw [he]
  exact ⟨h, below_nil⟩

/-- Lowering an identifier gives an expression in order. -/
theorem lowerIdent_gives (hs : s.Sound holes bodies) (site : Site) {scope : Scope}
    (hscope : LocalScope scope) (id : Syntax.Ident) :
    GivesExpr holes bodies s (lowerIdent site scope id) := by
  unfold lowerIdent
  split
  · split
    · exact givesExpr_report hs _ rfl
    · exact ensures_ask_bind (givesExpr_pure hs below_nil)
  · apply ensures_ask_bind
    cases hfind : scope.find s.unit id.name with
    | localVar l =>
      apply ensures_currentMethod_bind
      exact fun m _ => ensures_ask_bind (givesExpr_pure hs below_nil)
    | param p =>
      apply ensures_currentMethod_bind
      exact fun m _ => ensures_ask_bind (givesExpr_pure hs below_nil)
    | member m => exact ensures_ask_bind (givesExpr_pure hs (below_of_find hs.unit hscope hfind))
    | classRef c => exact ensures_ask_bind (givesExpr_pure hs below_nil)
    | unknown => exact givesExpr_report hs _ rfl

/-- Lowering a member access gives an expression in order if its target is. -/
theorem lowerAccess_gives (hs : s.Sound holes bodies) {target : Expr}
    (htarget : Below target.methods s.unit.methods.size) (name : Syntax.Ident) (span : Span) :
    GivesExpr holes bodies s (lowerAccess target name span) := by
  unfold lowerAccess
  apply ensures_ask_bind
  split
  · exact givesExpr_pure hs below_nil
  · apply ensures_ask_bind
    cases haccess : s.unit.access target.type name.name with
    | found m =>
      cases m with
      | some m =>
        have hm : Below m.methods s.unit.methods.size := by
          unfold CodeUnit.access at haccess
          split at haccess
          · exact below_of_member? hs.unit (CodeUnit.AccessResult.found.inj haccess)
          all_goals cases haccess
        refine ensures_ask_bind (givesExpr_pure hs ?_)
        exact below_append.2 ⟨htarget, hm⟩
      | none =>
        apply Ensures.bind (ensures_typeName (Q := fun _ s' => s' = s) fun _ => rfl)
        intro text s' h
        subst h
        exact givesExpr_report hs _ rfl
    | lenient => exact givesExpr_pure hs below_nil
    | unsupported =>
      apply Ensures.bind (ensures_typeName (Q := fun _ s' => s' = s) fun _ => rfl)
      intro text s' h
      subst h
      exact ensures_raise

/-- Lowering a binary operator gives an expression in order if its operands are. -/
theorem lowerBinary_gives (hs : s.Sound holes bodies) (op : BinaryOp) {left right : Expr}
    (hleft : Below left.methods s.unit.methods.size)
    (hright : Below right.methods s.unit.methods.size) (span : Span) :
    GivesExpr holes bodies s (lowerBinary op left right span) := by
  have hresult {s₁ : State} (h : s.Reaches holes bodies s₁) (info : Info) :
      Below (Expr.binary op left right info).methods s₁.unit.methods.size :=
    (below_append.2 ⟨hleft, hright⟩).mono h.grows.methods_le
  unfold lowerBinary
  apply ensures_ask_bind
  dsimp only
  -- which operand is bound makes no difference to what follows
  split
  all_goals
    apply Ensures.bind (unify_ensures hs _ _)
    intro _ s₁ h₁
    apply ensures_ask_bind
    split
    · exact ensures_pure ⟨h₁, hresult h₁ _⟩
    · apply Ensures.bind (ensures_typeName (Q := fun _ s' => s' = s₁) fun _ => rfl)
      intro leftName s' h
      subst h
      apply Ensures.bind (ensures_typeName (Q := fun _ s'' => s'' = s') fun _ => rfl)
      intro rightName s'' h
      subst h
      apply Ensures.bind (report_ensures h₁.sound _)
      intro _ s₂ h₂
      exact ensures_pure ⟨h₁.trans h₂, hresult (h₁.trans h₂) _⟩

/-- Checking the type of an operand keeps a state sound. -/
theorem operandType_ensures (hs : s.Sound holes bodies) (allowed : List Primitive)
    (symbol : String) (operand : Expr) (span : Span) :
    Ensures (operandType allowed symbol operand span) s
      fun _ s' => s.Reaches holes bodies s' := by
  unfold operandType
  apply Ensures.bind (unify_ensures hs _ _)
  intro _ s₁ h₁
  apply ensures_ask_bind
  split
  · exact ensures_pure h₁
  · apply Ensures.bind (ensures_typeName (Q := fun _ s' => s' = s₁) fun _ => rfl)
    intro text s' h
    subst h
    apply Ensures.bind (report_ensures h₁.sound _)
    intro _ s₂ h₂
    exact ensures_pure (h₁.trans h₂)

/-- Finding the type of a prefixed expression keeps a state sound. -/
theorem prefixType_ensures (hs : s.Sound holes bodies) (op : PrefixOp) (operand : Expr)
    (span : Span) :
    Ensures (prefixType op operand span) s fun _ s' => s.Reaches holes bodies s' := by
  unfold prefixType
  split
  · apply Ensures.bind (unify_ensures hs _ _)
    exact fun _ _ h => ensures_pure h
  · exact operandType_ensures hs _ _ _ _
  · exact operandType_ensures hs _ _ _ _

/-- Reporting a type that is known keeps a state sound. -/
theorem reportFirm_ensures (hs : s.Sound holes bodies) (type : TypeId) (d : String → Diagnostic) :
    Ensures (reportFirm type d) s fun _ s' => s.Reaches holes bodies s' := by
  unfold reportFirm isLenient
  apply ensures_ask_bind
  split
  · exact ensures_pure hs.reaches
  · apply Ensures.bind (ensures_typeName (Q := fun _ s' => s' = s) fun _ => rfl)
    intro text s' h
    subst h
    exact report_ensures hs _

/-- Lowering an index access gives an expression in order if its parts are. -/
theorem lowerIndex_gives (hs : s.Sound holes bodies) {target key : Expr}
    (htarget : Below target.methods s.unit.methods.size)
    (hkey : Below key.methods s.unit.methods.size) (span : Span) :
    GivesExpr holes bodies s (lowerIndex target key span) := by
  have hresult (type : TypeId) : Below (Expr.index target key ⟨type, span⟩).methods
      s.unit.methods.size := below_append.2 ⟨htarget, hkey⟩
  unfold lowerIndex
  apply ensures_ask_bind
  split
  · apply Ensures.bind (reportFirm_ensures hs _ _)
    exact fun _ _ h => ensures_pure ⟨h, (hresult _).mono h.grows.methods_le⟩
  · exact ensures_pure ⟨hs.reaches, hresult _⟩

/-- Lowering a call gives an expression in order if its parts are. -/
theorem lowerCall_gives (hs : s.Sound holes bodies) {callee : Expr} {args : List Expr}
    (hcallee : Below callee.methods s.unit.methods.size)
    (hargs : Below (Expr.methodsAll args) s.unit.methods.size) (span : Span) :
    GivesExpr holes bodies s (lowerCall callee args span) := by
  have hresult (type : TypeId) : Below (Expr.call callee args ⟨type, span⟩).methods
      s.unit.methods.size := below_append.2 ⟨hcallee, hargs⟩
  unfold lowerCall
  split
  · exact ensures_ask_bind (ensures_pure ⟨hs.reaches, hargs⟩)
  · apply ensures_ask_bind
    split
    · apply Ensures.bind (reportFirm_ensures hs _ _)
      exact fun _ _ h => ensures_pure ⟨h, (hresult _).mono h.grows.methods_le⟩
    · exact ensures_pure ⟨hs.reaches, hresult _⟩

/-! ## Expressions -/

mutual

/-- Lowering an expression gives one in which all methods are those of the unit. -/
theorem lowerExpr_gives (site : Site) {scope : Scope} (hscope : LocalScope scope) :
    ∀ (e : Syntax.Expr) {s : State}, s.Sound holes bodies →
      GivesExpr holes bodies s (lowerExpr site scope e)
  | .int _ _, _, hs | .float _ _, _, hs | .bool _ _, _, hs => by
    rw [lowerExpr]
    exact givesExpr_pure hs below_nil
  | .ident id, _, hs => by
    rw [lowerExpr]
    exact lowerIdent_gives hs site hscope id
  | .unary op operand span, _, hs => by
    rw [lowerExpr]
    apply Ensures.bind (lowerExpr_gives site hscope operand hs)
    intro operand s₁ hstep
    obtain ⟨h₁, hoperand⟩ := hstep
    apply Ensures.bind (prefixType_ensures h₁.sound op operand span)
    exact fun _ _ h₂ => ensures_pure ⟨h₁.trans h₂, hoperand.mono h₂.grows.methods_le⟩
  | .post op operand span, _, hs => by
    rw [lowerExpr]
    apply Ensures.bind (lowerExpr_gives site hscope operand hs)
    intro operand s₁ hstep
    obtain ⟨h₁, hoperand⟩ := hstep
    apply Ensures.bind (operandType_ensures h₁.sound _ op.symbol operand span)
    exact fun _ _ h₂ => ensures_pure ⟨h₁.trans h₂, hoperand.mono h₂.grows.methods_le⟩
  | .binary op left right span, _, hs => by
    rw [lowerExpr]
    apply Ensures.bind (lowerExpr_gives site hscope left hs)
    intro left s₁ hstep
    obtain ⟨h₁, hleft⟩ := hstep
    apply Ensures.bind (lowerExpr_gives site hscope right h₁.sound)
    intro right s₂ hstep
    obtain ⟨h₂, hright⟩ := hstep
    refine (lowerBinary_gives h₂.sound op (hleft.mono h₂.grows.methods_le) hright span).mono ?_
    exact fun _ _ h => ⟨(h₁.trans h₂).trans h.1, h.2⟩
  | .field target name span, _, hs => by
    rw [lowerExpr]
    apply Ensures.bind (lowerExpr_gives site hscope target hs)
    intro target s₁ hstep
    obtain ⟨h₁, htarget⟩ := hstep
    refine (lowerAccess_gives h₁.sound htarget name span).mono ?_
    exact fun _ _ h => ⟨h₁.trans h.1, h.2⟩
  | .index target key span, _, hs => by
    rw [lowerExpr]
    apply Ensures.bind (lowerExpr_gives site hscope target hs)
    intro target s₁ hstep
    obtain ⟨h₁, htarget⟩ := hstep
    apply Ensures.bind (lowerExpr_gives site hscope key h₁.sound)
    intro key s₂ hstep
    obtain ⟨h₂, hkey⟩ := hstep
    refine (lowerIndex_gives h₂.sound (htarget.mono h₂.grows.methods_le) hkey span).mono ?_
    exact fun _ _ h => ⟨(h₁.trans h₂).trans h.1, h.2⟩
  | .call callee args span, _, hs => by
    rw [lowerExpr]
    apply Ensures.bind (lowerExpr_gives site hscope callee hs)
    intro callee s₁ hstep
    obtain ⟨h₁, hcallee⟩ := hstep
    apply Ensures.bind (lowerExprs_ensures site hscope args h₁.sound)
    intro args s₂ hstep
    obtain ⟨h₂, hargs⟩ := hstep
    refine (lowerCall_gives h₂.sound (hcallee.mono h₂.grows.methods_le) hargs span).mono ?_
    exact fun _ _ h => ⟨(h₁.trans h₂).trans h.1, h.2⟩

/-- Lowering expressions one after the other gives expressions in order. -/
theorem lowerExprs_ensures (site : Site) {scope : Scope} (hscope : LocalScope scope) :
    ∀ (es : List Syntax.Expr) {s : State}, s.Sound holes bodies →
      Ensures (lowerExprs site scope es) s fun es' s' =>
        s.Reaches holes bodies s' ∧ Below (Expr.methodsAll es') s'.unit.methods.size
  | [], _, hs => by
    rw [lowerExprs]
    exact ensures_pure ⟨hs.reaches, below_nil⟩
  | e :: rest, _, hs => by
    rw [lowerExprs]
    apply Ensures.bind (lowerExpr_gives site hscope e hs)
    intro e s₁ hstep
    obtain ⟨h₁, he⟩ := hstep
    apply Ensures.bind (lowerExprs_ensures site hscope rest h₁.sound)
    intro rest s₂ hstep
    obtain ⟨h₂, hrest⟩ := hstep
    exact ensures_pure
      ⟨h₁.trans h₂, below_append.2 ⟨he.mono h₂.grows.methods_le, hrest⟩⟩

end

end ExpLang.Lowering
