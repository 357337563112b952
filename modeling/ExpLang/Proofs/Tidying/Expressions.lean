import ExpLang.Proofs.Lowering.Expressions
import ExpLang.Proofs.Tidying.States

/-!
# Lowering of expressions keeps states tidy

As long as nothing is reported, an expression is lowered to one of a proper type, and what stands for
nothing in it comes from a member access whose receiver has a type that says nothing about members. A
name that stands for nothing, and a class without a member, are reported.
-/

namespace ExpLang.Lowering

open Resolved

variable {p : Syntax.Program} {policy : QueuePolicy} {P : Expr → Prop} {s s' : State}

/-- A step that gives an expression advances, and the expression is good if nothing was reported. -/
def GivesGood (P : Expr → Prop) (s : State) (x : Lower Expr) : Prop :=
  Ensures x s fun e s' => s.Advances P s' ∧ (s'.Quiet → e.Good P s'.unit.types)

/-- A good expression is given by a step that does nothing else. -/
theorem givesGood_pure (hs : s.Tidy P) {e : Expr} (he : s.Quiet → e.Good P s.unit.types) :
    GivesGood P s (pure e) := ensures_pure ⟨hs.advances, he⟩

/-- After a report nothing is asked of an expression. -/
theorem givesGood_report (hs : s.Tidy P) (d : Diagnostic) (e : Expr) :
    GivesGood P s (report d >>= fun _ => pure e) := by
  apply Ensures.bind (report_tidy hs d)
  intro _ s' hstep
  exact ensures_pure ⟨hstep.1, fun hquiet => absurd hquiet hstep.2⟩

/-- The type of nothing is proper while nothing was reported. -/
theorem State.Tidy.void (hs : s.Tidy P) (hquiet : s.Quiet) :
    s.unit.types.Proper Primitive.void.id := (hs.primitive .void (by decide)).proper hquiet

/-! ## One lemma for each way to make an expression -/

/-- Lowering an identifier gives a good expression. -/
theorem lowerIdent_good (hs : s.Tidy P) (site : Site) (scope : Scope) (id : Syntax.Ident) :
    GivesGood P s (lowerIdent site scope id) := by
  unfold lowerIdent
  split
  · split
    · exact givesGood_report hs _ _
    · exact ensures_ask_bind (givesGood_pure hs fun hquiet =>
        ⟨(hs.blameless hquiet).classType _, excused_cons rfl excused_nil⟩)
  · apply ensures_ask_bind
    cases scope.find s.unit id.name with
    | localVar l =>
      apply ensures_currentMethod_bind
      exact fun m _ => ensures_ask_bind (givesGood_pure hs fun hquiet =>
        ⟨(hs.blameless hquiet).localType (hs.void hquiet) m l, excused_cons rfl excused_nil⟩)
    | param k =>
      apply ensures_currentMethod_bind
      exact fun m _ => ensures_ask_bind (givesGood_pure hs fun hquiet =>
        ⟨(hs.blameless hquiet).paramType (hs.void hquiet) m k, excused_cons rfl excused_nil⟩)
    | member m =>
      exact ensures_ask_bind (givesGood_pure hs fun hquiet =>
        ⟨(hs.blameless hquiet).memberType m, excused_cons rfl excused_nil⟩)
    | classRef c =>
      exact ensures_ask_bind (givesGood_pure hs fun hquiet =>
        ⟨(hs.blameless hquiet).classType c, excused_cons rfl excused_nil⟩)
    | unknown => exact givesGood_report hs _ _

/-- A type on which members are looked up without a report is dynamic or unknown, if it is proper. -/
theorem unsettled_of_lenient (hs : s.Tidy P) (hquiet : s.Quiet) {type : TypeId} {name : String}
    (htype : s.unit.types.Proper type) (h : s.unit.access type name = .lenient) :
    Unsettled s.unit.types type := by
  have hresolve := (hs.blameless hquiet).resolve htype
  have hprimitive := hs.layered.primitive_eq _ hresolve.lt
  unfold CodeUnit.access at h
  split at h
  · cases h
  · rename_i hget
    exact .inr (.inr (hprimitive _ hget))
  · rename_i hget
    exact absurd (hprimitive _ hget) hresolve.ne_invalid
  · rename_i hget
    exact .inr (.inl (hprimitive _ hget))
  · cases h

/-- Lowering a member access gives a good expression if an unsettled target is excused. -/
theorem lowerAccess_good (hs : s.Tidy P) {target : Expr}
    (htarget : s.Quiet → target.Good P s.unit.types) (name : Syntax.Ident) (span : Span)
    (hexcuse : Unsettled s.unit.types target.type → P (unknownExpr name.name span)) :
    GivesGood P s (lowerAccess target name span) := by
  have hunknown (h : s.Quiet → Unsettled s.unit.types target.type) :
      GivesGood P s (pure (unknownExpr name.name span)) := by
    refine givesGood_pure hs fun hquiet => ⟨(hs.primitive .unknown (by decide)).proper hquiet, ?_⟩
    intro name' info hmem
    cases List.mem_singleton.1 hmem
    exact hexcuse (h hquiet)
  unfold lowerAccess
  apply ensures_ask_bind
  split
  · rename_i hunbound
    exact hunknown fun _ => .inl hunbound
  · apply ensures_ask_bind
    cases haccess : s.unit.access target.type name.name with
    | found m =>
      cases m with
      | some m =>
        exact ensures_ask_bind (givesGood_pure hs fun hquiet =>
          ⟨(hs.blameless hquiet).memberType m, excused_cons rfl (htarget hquiet).code⟩)
      | none =>
        apply Ensures.bind (typeName_tidy _)
        intro text s' h
        subst h
        exact givesGood_report hs _ _
    | lenient =>
      exact hunknown fun hquiet => unsettled_of_lenient hs hquiet (htarget hquiet).type haccess
    | unsupported =>
      apply Ensures.bind (typeName_tidy _)
      exact fun _ _ _ => ensures_raise

/-- The type of the result of an operator is proper. -/
theorem proper_resultType? (hs : s.Tidy P) (hquiet : s.Quiet) {op : BinaryOp} {left right type : TypeId}
    (hright : s.unit.types.Proper right)
    (h : s.unit.operators.resultType? s.unit.types op left right = some type) :
    s.unit.types.Proper type := by
  have hprimitive (p : Primitive) (hp : p ≠ .invalid) := (hs.primitive p hp).proper hquiet
  unfold OperatorTable.resultType? at h
  dsimp only at h
  split at h
  · cases h
    exact (hs.blameless hquiet).resolve hright
  split at h
  · cases h
    exact hprimitive .bool (by decide)
  split at h
  · cases h
    exact hprimitive .unknown (by decide)
  split at h
  · cases h
    exact hprimitive .dynamic (by decide)
  · obtain ⟨before, after, hsplit, -⟩ := List.lookup_eq_some_iff.1 h
    have hmem := List.mem_append_right before (List.mem_cons_self (l := after)
      (a := ((op, s.unit.types.resolve left, s.unit.types.resolve right), type)))
    rw [← hsplit] at hmem
    exact (hs.blameless hquiet).operator _ hmem

/-- Lowering a binary operator gives a good expression if its operands are good. -/
theorem lowerBinary_good (hs : s.Tidy P) (op : BinaryOp) {left right : Expr}
    (hleft : s.Quiet → left.Good P s.unit.types) (hright : s.Quiet → right.Good P s.unit.types)
    (span : Span) : GivesGood P s (lowerBinary op left right span) := by
  unfold lowerBinary
  apply ensures_ask_bind
  dsimp only
  -- which operand is bound makes no difference to what follows
  split
  on_goal 1 => apply Ensures.bind (unify_tidy hs _ fun hquiet => (hright hquiet).type)
  on_goal 2 => apply Ensures.bind (unify_tidy hs _ fun hquiet => (hleft hquiet).type)
  all_goals
    intro _ s₁ h₁
    apply ensures_ask_bind
    split
    · rename_i type htype
      refine ensures_pure ⟨h₁, fun hquiet => ?_⟩
      have hquiet₀ := h₁.quiet hquiet
      refine ⟨proper_resultType? h₁.tidy hquiet ((hright hquiet₀).type.keeps h₁.keeps) htype, ?_⟩
      exact excused_cons rfl (excused_append.2 ⟨(hleft hquiet₀).code, (hright hquiet₀).code⟩)
    · apply Ensures.bind (typeName_tidy _)
      intro leftName s' h
      subst h
      apply Ensures.bind (typeName_tidy _)
      intro rightName s' h
      subst h
      exact (givesGood_report h₁.tidy _ _).mono fun _ _ h => ⟨h₁.trans h.1, h.2⟩

/-- A step that gives a type advances, and the type is proper if nothing was reported. -/
def GivesType (P : Expr → Prop) (s : State) (x : Lower TypeId) : Prop :=
  Ensures x s fun id s' => s.Advances P s' ∧ (s'.Quiet → s'.unit.types.Proper id)

/-- Checking the type of an operand gives a proper type. -/
theorem operandType_tidy (hs : s.Tidy P) (allowed : List Primitive) (symbol : String)
    {operand : Expr} (hoperand : s.Quiet → operand.Good P s.unit.types) (span : Span) :
    GivesType P s (operandType allowed symbol operand span) := by
  unfold operandType
  have hint : s.Quiet → s.unit.types.Proper Primitive.int.id := (hs.primitive .int (by decide)).proper
  apply Ensures.bind (unify_tidy hs _ hint)
  intro _ s₁ h₁
  apply ensures_ask_bind
  split
  · refine ensures_pure ⟨h₁, fun hquiet => (h₁.tidy.blameless hquiet).resolve ?_⟩
    exact (hoperand (h₁.quiet hquiet)).type.keeps h₁.keeps
  · apply Ensures.bind (typeName_tidy _)
    intro text s' h
    subst h
    apply Ensures.bind (report_tidy h₁.tidy _)
    intro _ s₂ hstep
    exact ensures_pure ⟨h₁.trans hstep.1, fun hquiet => absurd hquiet hstep.2⟩

/-- Finding the type of a prefixed expression gives a proper type. -/
theorem prefixType_tidy (hs : s.Tidy P) (op : PrefixOp) {operand : Expr}
    (hoperand : s.Quiet → operand.Good P s.unit.types) (span : Span) :
    GivesType P s (prefixType op operand span) := by
  unfold prefixType
  split
  · have hbool : s.Quiet → s.unit.types.Proper Primitive.bool.id := (hs.primitive .bool (by decide)).proper
    apply Ensures.bind (unify_tidy hs _ hbool)
    exact fun _ _ h => ensures_pure ⟨h, (h.tidy.primitive .bool (by decide)).proper⟩
  · exact operandType_tidy hs _ _ hoperand _
  · exact operandType_tidy hs _ _ hoperand _

/-- Reporting a type that is known keeps a state tidy. -/
theorem reportFirm_tidy (hs : s.Tidy P) (type : TypeId) (d : String → Diagnostic) :
    Ensures (reportFirm type d) s fun _ s' => s.Advances P s' := by
  unfold reportFirm isLenient
  apply ensures_ask_bind
  split
  · exact ensures_pure hs.advances
  · apply Ensures.bind (typeName_tidy _)
    intro text s' h
    subst h
    exact (report_tidy hs _).mono fun _ _ h => h.1

/-- The type of the elements of a type is proper. -/
theorem proper_elementOf (hs : s.Tidy P) (hquiet : s.Quiet) (type : TypeId) :
    s.unit.types.Proper (s.unit.types.elementOf type) := by
  have hpart := (hs.blameless hquiet).part (s.unit.types.resolve type)
  have hprimitive (p : Primitive) (hp : p ≠ .invalid) := (hs.primitive p hp).proper hquiet
  unfold TypePool.elementOf
  split
  · rename_i element hget
    exact hpart element (by rw [hget]; exact List.mem_singleton_self _)
  · rename_i base args hget
    split
    · cases args with
      | nil => exact hprimitive .unknown (by decide)
      | cons arg args => exact hpart arg (by rw [hget]; simp [TypeData.parts])
    · exact hprimitive .unknown (by decide)
  · exact hprimitive .dynamic (by decide)
  · exact hprimitive .unknown (by decide)

/-- The type of the result of a call is proper. -/
theorem proper_returnTypeOf (hs : s.Tidy P) (hquiet : s.Quiet) (type : TypeId) :
    s.unit.types.Proper (s.unit.types.returnTypeOf type) := by
  have hpart := (hs.blameless hquiet).part (s.unit.types.resolve type)
  have hprimitive (p : Primitive) (hp : p ≠ .invalid) := (hs.primitive p hp).proper hquiet
  unfold TypePool.returnTypeOf
  split
  · rename_i ret params hget
    exact hpart ret (by rw [hget]; exact List.mem_cons_self)
  · exact hprimitive .dynamic (by decide)
  · exact hprimitive .unknown (by decide)

/-- Lowering an index access gives a good expression if its parts are good. -/
theorem lowerIndex_good (hs : s.Tidy P) {target key : Expr}
    (htarget : s.Quiet → target.Good P s.unit.types) (hkey : s.Quiet → key.Good P s.unit.types)
    (span : Span) : GivesGood P s (lowerIndex target key span) := by
  have hresult {s₁ : State} (h₁ : s.Advances P s₁) (hquiet : s₁.Quiet) :
      (Expr.index target key ⟨s.unit.types.elementOf target.type, span⟩).Good P s₁.unit.types := by
    have hquiet₀ := h₁.quiet hquiet
    refine ⟨(proper_elementOf hs hquiet₀ _).keeps h₁.keeps, ?_⟩
    exact excused_cons rfl (excused_append.2 ⟨(htarget hquiet₀).code, (hkey hquiet₀).code⟩)
  unfold lowerIndex
  apply ensures_ask_bind
  split
  · apply Ensures.bind (reportFirm_tidy hs _ _)
    exact fun _ _ h => ensures_pure ⟨h, hresult h⟩
  · exact ensures_pure ⟨hs.advances, hresult hs.advances⟩

/-- Lowering a call gives a good expression if its parts are good. -/
theorem lowerCall_good (hs : s.Tidy P) {callee : Expr} {args : List Expr}
    (hcallee : s.Quiet → callee.Good P s.unit.types)
    (hargs : s.Quiet → Excused P (Expr.visitsAll args)) (span : Span) :
    GivesGood P s (lowerCall callee args span) := by
  have hresult {s₁ : State} (h₁ : s.Advances P s₁) (hquiet : s₁.Quiet) :
      (Expr.call callee args ⟨s.unit.types.returnTypeOf callee.type, span⟩).Good P
        s₁.unit.types := by
    have hquiet₀ := h₁.quiet hquiet
    refine ⟨(proper_returnTypeOf hs hquiet₀ _).keeps h₁.keeps, ?_⟩
    exact excused_cons rfl (excused_append.2 ⟨(hcallee hquiet₀).code, hargs hquiet₀⟩)
  unfold lowerCall
  split
  · exact ensures_ask_bind (givesGood_pure hs fun hquiet =>
      ⟨(hs.blameless hquiet).classType _, excused_cons rfl (hargs hquiet)⟩)
  · apply ensures_ask_bind
    split
    · apply Ensures.bind (reportFirm_tidy hs _ _)
      exact fun _ _ h => ensures_pure ⟨h, hresult h⟩
    · exact ensures_pure ⟨hs.advances, hresult hs.advances⟩

/-! ## Expressions -/

/-- Lowering an expression begins with its first part. -/
theorem Comes.firstPart {site : Site} {scope : Scope} {e part : Syntax.Expr}
    {after : List Syntax.Expr} (h : Comes p policy (.expr site scope e) s)
    (hparts : e.parts = part :: after) : Comes p policy (.expr site scope part) s := by
  have hsplit : e.parts = [] ++ part :: after := hparts
  have hbefore : lowerExprs site scope [] s = .ok ([], s) := by
    rw [lowerExprs]
    rfl
  exact h.part hsplit hbefore

/-- The second part comes after the first one. -/
theorem Comes.secondPart {site : Site} {scope : Scope} {e first second : Syntax.Expr}
    {after : List Syntax.Expr} {first' : Expr} (h : Comes p policy (.expr site scope e) s)
    (hparts : e.parts = first :: second :: after)
    (hfirst : lowerExpr site scope first s = .ok (first', s')) :
    Comes p policy (.expr site scope second) s' := by
  have hsplit : e.parts = [first] ++ second :: after := hparts
  have hbefore : lowerExprs site scope [first] s = .ok ([first'], s') := by
    rw [lowerExprs, bind_of_ok hfirst, lowerExprs]
    rfl
  exact h.part hsplit hbefore

mutual

/-- An expression that lowering comes to is lowered to a good one. -/
theorem lowerExpr_good (site : Site) (scope : Scope) :
    ∀ (e : Syntax.Expr) {s : State}, Comes p policy (.expr site scope e) s →
      s.Tidy (FromAccess p policy) → GivesGood (FromAccess p policy) s (lowerExpr site scope e)
  | .int _ _, _, _, hs => by
    rw [lowerExpr]
    exact givesGood_pure hs fun hquiet =>
      ⟨(hs.primitive .int (by decide)).proper hquiet, excused_cons rfl excused_nil⟩
  | .float _ _, _, _, hs => by
    rw [lowerExpr]
    exact givesGood_pure hs fun hquiet =>
      ⟨(hs.primitive .float (by decide)).proper hquiet, excused_cons rfl excused_nil⟩
  | .bool _ _, _, _, hs => by
    rw [lowerExpr]
    exact givesGood_pure hs fun hquiet =>
      ⟨(hs.primitive .bool (by decide)).proper hquiet, excused_cons rfl excused_nil⟩
  | .ident id, _, _, hs => by
    rw [lowerExpr]
    exact lowerIdent_good hs site scope id
  | .unary op operand span, _, hjob, hs => by
    rw [lowerExpr]
    apply Ensures.bind (lowerExpr_good site scope operand (hjob.firstPart rfl) hs)
    intro operand s₁ hstep
    obtain ⟨h₁, hoperand⟩ := hstep
    apply Ensures.bind (prefixType_tidy h₁.tidy op hoperand span)
    intro type s₂ hstep
    obtain ⟨h₂, htype⟩ := hstep
    exact ensures_pure ⟨h₁.trans h₂, fun hquiet =>
      ⟨htype hquiet, excused_cons rfl (hoperand (h₂.quiet hquiet)).code⟩⟩
  | .post op operand span, _, hjob, hs => by
    rw [lowerExpr]
    apply Ensures.bind (lowerExpr_good site scope operand (hjob.firstPart rfl) hs)
    intro operand s₁ hstep
    obtain ⟨h₁, hoperand⟩ := hstep
    apply Ensures.bind (operandType_tidy h₁.tidy _ op.symbol hoperand span)
    intro type s₂ hstep
    obtain ⟨h₂, htype⟩ := hstep
    exact ensures_pure ⟨h₁.trans h₂, fun hquiet =>
      ⟨htype hquiet, excused_cons rfl (hoperand (h₂.quiet hquiet)).code⟩⟩
  | .binary op left right span, _, hjob, hs => by
    rw [lowerExpr]
    apply Ensures.bind (lowerExpr_good site scope left (hjob.firstPart rfl) hs).ran
    intro left s₁ hstep
    obtain ⟨⟨h₁, hleft⟩, hrun⟩ := hstep
    apply Ensures.bind (lowerExpr_good site scope right (hjob.secondPart rfl hrun) h₁.tidy)
    intro right s₂ hstep
    obtain ⟨h₂, hright⟩ := hstep
    have hleft₂ (hquiet : s₂.Quiet) := (hleft (h₂.quiet hquiet)).keeps h₂.keeps
    refine (lowerBinary_good h₂.tidy op hleft₂ hright span).mono ?_
    exact fun _ _ h => ⟨(h₁.trans h₂).trans h.1, h.2⟩
  | .field target name span, _, hjob, hs => by
    rw [lowerExpr]
    apply Ensures.bind (lowerExpr_good site scope target (hjob.firstPart rfl) hs).ran
    intro receiver s₁ hstep
    obtain ⟨⟨h₁, hreceiver⟩, hrun⟩ := hstep
    refine (lowerAccess_good h₁.tidy hreceiver name span fun hunsettled => ?_).mono ?_
    · exact .intro hjob hrun hunsettled
    · exact fun _ _ h => ⟨h₁.trans h.1, h.2⟩
  | .index target key span, _, hjob, hs => by
    rw [lowerExpr]
    apply Ensures.bind (lowerExpr_good site scope target (hjob.firstPart rfl) hs).ran
    intro target s₁ hstep
    obtain ⟨⟨h₁, htarget⟩, hrun⟩ := hstep
    apply Ensures.bind (lowerExpr_good site scope key (hjob.secondPart rfl hrun) h₁.tidy)
    intro key s₂ hstep
    obtain ⟨h₂, hkey⟩ := hstep
    have htarget₂ (hquiet : s₂.Quiet) := (htarget (h₂.quiet hquiet)).keeps h₂.keeps
    refine (lowerIndex_good h₂.tidy htarget₂ hkey span).mono ?_
    exact fun _ _ h => ⟨(h₁.trans h₂).trans h.1, h.2⟩
  | .call callee args span, s, hjob, hs => by
    rw [lowerExpr]
    apply Ensures.bind (lowerExpr_good site scope callee (hjob.firstPart rfl) hs).ran
    intro callee' s₁ hstep
    obtain ⟨⟨h₁, hcallee⟩, hrun⟩ := hstep
    have hbefore : lowerExprs site scope [callee] s = .ok ([callee'], s₁) := by
      rw [lowerExprs, bind_of_ok hrun, lowerExprs]
      rfl
    have hparts : (Syntax.Expr.call callee args span).parts = [callee] ++ args := rfl
    apply Ensures.bind (lowerExprs_good site scope args hjob hparts hbefore h₁.tidy)
    intro args s₂ hstep
    obtain ⟨h₂, hargs⟩ := hstep
    have hcallee₂ (hquiet : s₂.Quiet) := (hcallee (h₂.quiet hquiet)).keeps h₂.keeps
    refine (lowerCall_good h₂.tidy hcallee₂ hargs span).mono ?_
    exact fun _ _ h => ⟨(h₁.trans h₂).trans h.1, h.2⟩

/-- The same of the parts of an expression from one on. -/
theorem lowerExprs_good (site : Site) (scope : Scope) :
    ∀ (es : List Syntax.Expr) {e : Syntax.Expr} {before : List Syntax.Expr} {before' : List Expr}
      {s₀ s : State}, Comes p policy (.expr site scope e) s₀ → e.parts = before ++ es →
      lowerExprs site scope before s₀ = .ok (before', s) → s.Tidy (FromAccess p policy) →
      Ensures (lowerExprs site scope es) s fun es' s' => s.Advances (FromAccess p policy) s' ∧
        (s'.Quiet → Excused (FromAccess p policy) (Expr.visitsAll es'))
  | [], _, _, _, _, _, _, _, _, hs => by
    rw [lowerExprs]
    exact ensures_pure ⟨hs.advances, fun _ => excused_nil⟩
  | first :: rest, _, before, _, _, _, hjob, hparts, hbefore, hs => by
    rw [lowerExprs]
    apply Ensures.bind (lowerExpr_good site scope first (hjob.part hparts hbefore) hs).ran
    intro first' s₁ hstep
    obtain ⟨⟨h₁, hfirst⟩, hrun⟩ := hstep
    have hparts' := hparts.trans (List.append_cons before first rest)
    apply Ensures.bind (lowerExprs_good site scope rest hjob hparts' (lowerExprs_snoc hbefore hrun)
      h₁.tidy)
    intro rest' s₂ hstep
    obtain ⟨h₂, hrest⟩ := hstep
    exact ensures_pure ⟨h₁.trans h₂, fun hquiet =>
      excused_append.2 ⟨(hfirst (h₂.quiet hquiet)).code, hrest hquiet⟩⟩

end

end ExpLang.Lowering
