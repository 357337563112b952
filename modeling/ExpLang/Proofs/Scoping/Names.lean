import ExpLang.Proofs.Scoping.Views
import ExpLang.Proofs.Tidying.Expressions

/-!
# Names are lowered by lexical scoping

`Lexical` says what a name in a method stands for, in terms of what is in scope in the source: the local
of the declarator that is found, else the last parameter with the name, else a member of the class, else
a class, else nothing, which is reported. The scope that lowering looks names up in says the same, as
long as it has the layers of the view. `Scoped` says of one use of a name in a program that lowering
comes to it and makes of it what it stands for.
-/

namespace ExpLang

open Syntax (View Declarator Occurrence)

namespace Lowering

open Resolved

variable {p : Syntax.Program} {policy : QueuePolicy} {s s' : State} {owner : ClassId}
  {method : MethodId} {site : Site} {view : View}

/-! ## What a name stands for -/

/-- The last parameter with a name is the one of an index. -/
def LastNamed (params : Array ParamDef) (name : String) (k : ParamId) : Prop :=
  (∃ param, params[k]? = some param ∧ param.name = name) ∧
    ∀ j param, k < j → params[j]? = some param → param.name ≠ name

/-- What a name is lowered to in a method of a class, where a view is in scope: the expression, and the
state after it. -/
inductive Lexical (owner : ClassId) (method : MethodId) (view : View) (id : Syntax.Ident)
    (s : State) : Expr → State → Prop
  | localVar {d type} : view.find? id.name = some d →
      Lexical owner method view id s (.localVar d.index ⟨type, id.span⟩) s
  | argument {k type} : view.find? id.name = none →
      LastNamed (s.unit.getMethod method).params id.name k →
      Lexical owner method view id s (.argument k ⟨type, id.span⟩) s
  | member {m type} : view.find? id.name = none →
      (∀ param ∈ (s.unit.getMethod method).params, param.name ≠ id.name) →
      s.unit.member? owner id.name = some m →
      Lexical owner method view id s (.member m ⟨type, id.span⟩) s
  | classRef {c type} : view.find? id.name = none →
      (∀ param ∈ (s.unit.getMethod method).params, param.name ≠ id.name) →
      s.unit.member? owner id.name = none → s.unit.classNamed? id.name = some c →
      Lexical owner method view id s (.classRef c ⟨type, id.span⟩) s
  | unknown : view.find? id.name = none →
      (∀ param ∈ (s.unit.getMethod method).params, param.name ≠ id.name) →
      s.unit.member? owner id.name = none → s.unit.classNamed? id.name = none →
      Lexical owner method view id s (unknownExpr id.name id.span)
        { s with queue := s.queue.add (.unknownName id.span id.name) }

/-- Lowering comes to a use of a name in a method of a class, and makes of the name what it stands
for. The name `this` stands for the receiver. -/
def Scoped (p : Syntax.Program) (policy : QueuePolicy) (owner : ClassId) (method : MethodId)
    (o : Occurrence) : Prop :=
  o.ident.name ≠ "this" → ∃ site scope s e s', site.owner = owner ∧ site.method = some method ∧
    Comes p policy (.expr site scope (.ident o.ident)) s ∧
    lowerExpr site scope (.ident o.ident) s = .ok (e, s') ∧
    Lexical owner method o.view o.ident s e s'

/-! ## Scopes -/

/-- The scope in which lowering looks up what a view holds. -/
def viewScope (owner : ClassId) (method : MethodId) (view : View) : Scope :=
  ⟨view.scopes.map (·.map fun d => (d.ident.name, .localVar d.index)), [.method owner method]⟩

/-- Adding a declarator to a view adds its local to the scope. -/
theorem viewScope_add (d : Declarator) : viewScope owner method (view.add d) =
    (viewScope owner method view).add d.ident.name (.localVar d.index) := by
  obtain ⟨scopes⟩ := view
  cases scopes <;> rfl

/-- The layers of a scope hold the declarator that a view holds. -/
theorem findSome?_layers (view : View) (name : String) :
    (viewScope owner method view).layers.findSome? (·.lookup name) =
      (view.find? name).map fun d => .localVar d.index := by
  obtain ⟨scopes⟩ := view
  have hlayer (scope : List Declarator) :
      (scope.map fun d => (d.ident.name, Item.localVar d.index)).lookup name =
        (scope.find? (·.ident.name == name)).map fun d => .localVar d.index := by
    induction scope with
    | nil => rfl
    | cons d rest ih =>
      rw [List.map_cons, List.lookup_cons, List.find?_cons, Bool.beq_comm, ih]
      split <;> rfl
  simp only [viewScope, View.find?]
  induction scopes with
  | nil => rfl
  | cons scope rest ih =>
    rw [List.map_cons, List.findSome?_cons, List.findSome?_cons, hlayer, ih]
    cases scope.find? (·.ident.name == name) <;> rfl

/-- A parameter found by its name is the last one of that name. -/
theorem lastNamed_of_paramNamed? {u : CodeUnit} {name : String} {k : ParamId}
    (h : paramNamed? u method name = some k) : LastNamed (u.getMethod method).params name k := by
  obtain ⟨i, hi, rfl⟩ := Option.map_eq_some_iff.1 h
  obtain ⟨hlt, hname, hbefore⟩ := List.findIdx?_eq_some_iff_getElem.1 hi
  rw [List.length_reverse] at hlt
  rw [List.getElem_reverse, beq_iff_eq] at hname
  refine ⟨⟨_, ?_, hname⟩, fun j param hj hparam heq => ?_⟩
  · rw [← Array.getElem?_toList]
    exact List.getElem?_eq_getElem _
  · -- a later parameter with the name would be found first
    rw [← Array.getElem?_toList] at hparam
    obtain ⟨hjlt, rfl⟩ := List.getElem?_eq_some_iff.1 hparam
    change (u.getMethod method).params.toList.length - 1 - i < j at hj
    refine hbefore ((u.getMethod method).params.toList.length - 1 - j) (by omega) ?_
    have hindex : (u.getMethod method).params.toList.length - 1 -
        ((u.getMethod method).params.toList.length - 1 - j) = j := by omega
    simp only [List.getElem_reverse, hindex, heq, beq_self_eq_true]

/-- No parameter has a name that is not found. -/
theorem name_ne_of_paramNamed? {u : CodeUnit} {name : String}
    (h : paramNamed? u method name = none) :
    ∀ param ∈ (u.getMethod method).params, param.name ≠ name := by
  intro param hparam heq
  have hnone := List.findIdx?_eq_none_iff.1 (Option.map_eq_none_iff.1 h) param
    (List.mem_reverse.2 (Array.mem_toList_iff.2 hparam))
  rw [heq, beq_self_eq_true] at hnone
  cases hnone

/-- A name is lowered to what it stands for. -/
theorem lowerIdent_lexical (hmethod : site.method = some method) {id : Syntax.Ident}
    (hthis : id.name ≠ "this") :
    Ensures (lowerIdent site (viewScope site.owner method view) id) s fun e s' =>
      Lexical site.owner method view id s e s' := by
  have hlayers : (viewScope site.owner method view).layers.findSome? (·.lookup id.name) =
      (view.find? id.name).map fun d => .localVar d.index := findSome?_layers view id.name
  unfold lowerIdent
  dsimp only
  rw [if_neg hthis]
  apply ensures_ask_bind
  rw [Scope.find, Scope.lookup, hlayers]
  unfold Site.currentMethod
  rw [hmethod]
  cases hview : view.find? id.name with
  | some d =>
    simp only [Option.map_some, Option.getD_some, pure_bind]
    exact ensures_ask_bind (ensures_pure (.localVar hview))
  | none =>
    simp only [Option.map_none, viewScope, List.findSome?_cons, List.findSome?_nil, Realm.lookup]
    cases hparam : paramNamed? s.unit method id.name with
    | some k =>
      simp only [Option.map_some, Option.orElse_eq_orElse, Option.orElse_eq_or, Option.some_or,
        Option.getD_some, pure_bind]
      exact ensures_ask_bind (ensures_pure (.argument hview (lastNamed_of_paramNamed? hparam)))
    | none =>
      have hparams := name_ne_of_paramNamed? hparam
      cases hmember : s.unit.member? site.owner id.name with
      | some m => exact ensures_ask_bind (ensures_pure (.member hview hparams hmember))
      | none =>
        cases hclass : s.unit.classNamed? id.name with
        | some c => exact ensures_ask_bind (ensures_pure (.classRef hview hparams hmember hclass))
        | none =>
          refine Ensures.bind (ensures_report (Q := fun _ s' =>
            s' = { s with queue := s.queue.add (.unknownName id.span id.name) }) rfl) ?_
          rintro _ _ rfl
          exact ensures_pure (.unknown hview hparams hmember hclass)

/-! ## Expressions -/

/-- Every one of some uses of names is lowered to what the name stands for. -/
def AllScoped (p : Syntax.Program) (policy : QueuePolicy) (owner : ClassId) (method : MethodId)
    (uses : List Occurrence) : Prop :=
  ∀ o ∈ uses, Scoped p policy owner method o

/-- Nothing is scoped in no uses. -/
theorem allScoped_nil : AllScoped p policy owner method [] :=
  fun _ ho => absurd ho List.not_mem_nil

/-- Uses are scoped if each list of them is. -/
theorem allScoped_append {uses uses' : List Occurrence} :
    AllScoped p policy owner method (uses ++ uses') ↔
      AllScoped p policy owner method uses ∧ AllScoped p policy owner method uses' :=
  List.forall_mem_append

/-- What is known anyway holds after a step. -/
theorem ensures_of {α : Type} {x : Lower α} {P : Prop} (h : P) : Ensures x s fun _ _ => P :=
  ⟨fun _ _ _ => h⟩

/-- What the first step shows is known in the steps after it. -/
theorem Ensures.bind_of {α β : Type} {x : Lower α} {f : α → Lower β} {P Q : Prop}
    (hx : Ensures x s fun _ _ => P)
    (hf : ∀ a s', x s = .ok (a, s') → P → Ensures (f a) s' fun _ _ => Q) :
    Ensures (x >>= f) s fun _ _ => Q := by
  apply Ensures.bind hx.ran
  exact fun a s' hstep => hf a s' hstep.2 hstep.1

mutual

/-- Every name in an expression that is lowered in a method is lowered to what it stands for. -/
theorem lowerExpr_scoped (hmethod : site.method = some method) (view : View) :
    ∀ (e : Syntax.Expr) {s : State},
      Comes p policy (.expr site (viewScope site.owner method view) e) s →
      Ensures (lowerExpr site (viewScope site.owner method view) e) s fun _ _ =>
        AllScoped p policy site.owner method (e.occurrences view)
  | .int _ _, _, _ | .float _ _, _, _ | .bool _ _, _, _ => ensures_of allScoped_nil
  | .ident id, s, hjob => by
    refine ⟨fun e s' hrun o ho hthis => ?_⟩
    obtain rfl := List.mem_singleton.1 ho
    have hident := hrun
    rw [lowerExpr] at hident
    exact ⟨site, _, s, e, s', rfl, hmethod, hjob, hrun,
      (lowerIdent_lexical hmethod hthis).of_run e s' hident⟩
  | .unary op operand span, _, hjob => by
    rw [lowerExpr]
    exact (lowerExpr_scoped hmethod view operand (hjob.firstPart rfl)).bind_of
      fun _ _ _ hoperand => ensures_of hoperand
  | .post op operand span, _, hjob => by
    rw [lowerExpr]
    exact (lowerExpr_scoped hmethod view operand (hjob.firstPart rfl)).bind_of
      fun _ _ _ hoperand => ensures_of hoperand
  | .binary op left right span, _, hjob => by
    rw [lowerExpr]
    refine (lowerExpr_scoped hmethod view left (hjob.firstPart rfl)).bind_of
      fun _ _ hrun hleft => ?_
    exact (lowerExpr_scoped hmethod view right (hjob.secondPart rfl hrun)).bind_of
      fun _ _ _ hright => ensures_of (allScoped_append.2 ⟨hleft, hright⟩)
  | .field target name span, _, hjob => by
    rw [lowerExpr]
    exact (lowerExpr_scoped hmethod view target (hjob.firstPart rfl)).bind_of
      fun _ _ _ htarget => ensures_of htarget
  | .index target key span, _, hjob => by
    rw [lowerExpr]
    refine (lowerExpr_scoped hmethod view target (hjob.firstPart rfl)).bind_of
      fun _ _ hrun htarget => ?_
    exact (lowerExpr_scoped hmethod view key (hjob.secondPart rfl hrun)).bind_of
      fun _ _ _ hkey => ensures_of (allScoped_append.2 ⟨htarget, hkey⟩)
  | .call callee args span, s, hjob => by
    rw [lowerExpr]
    refine (lowerExpr_scoped hmethod view callee (hjob.firstPart rfl)).bind_of
      fun callee' s₁ hrun hcallee => ?_
    have hbefore : lowerExprs site (viewScope site.owner method view) [callee] s =
        .ok ([callee'], s₁) := by
      rw [lowerExprs, bind_of_ok hrun, lowerExprs]
      rfl
    have hparts : (Syntax.Expr.call callee args span).parts = [callee] ++ args := rfl
    exact (lowerExprs_scoped hmethod view args hjob hparts hbefore).bind_of
      fun _ _ _ hargs => ensures_of (allScoped_append.2 ⟨hcallee, hargs⟩)

/-- The same of the parts of an expression from one on. -/
theorem lowerExprs_scoped (hmethod : site.method = some method) (view : View) :
    ∀ (es : List Syntax.Expr) {e : Syntax.Expr} {before : List Syntax.Expr} {before' : List Expr}
      {s₀ s : State}, Comes p policy (.expr site (viewScope site.owner method view) e) s₀ →
      e.parts = before ++ es →
      lowerExprs site (viewScope site.owner method view) before s₀ = .ok (before', s) →
      Ensures (lowerExprs site (viewScope site.owner method view) es) s fun _ _ =>
        AllScoped p policy site.owner method (Syntax.exprOccurrences view es)
  | [], _, _, _, _, _, _, _, _ => ensures_of allScoped_nil
  | first :: rest, _, before, _, _, _, hjob, hparts, hbefore => by
    rw [lowerExprs]
    refine (lowerExpr_scoped hmethod view first (hjob.part hparts hbefore)).bind_of
      fun first' s₁ hrun hfirst => ?_
    have hparts' := hparts.trans (List.append_cons before first rest)
    exact (lowerExprs_scoped hmethod view rest hjob hparts' (lowerExprs_snoc hbefore hrun)).bind_of
      fun _ _ _ hrest => ensures_of (allScoped_append.2 ⟨hfirst, hrest⟩)

end

end Lowering

end ExpLang
