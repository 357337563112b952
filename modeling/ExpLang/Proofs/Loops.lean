import ExpLang.Proofs.Lowering.Changes
import ExpLang.Proofs.Lowering.Expressions
import ExpLang.Proofs.Typing.Scalars

/-!
# The forms of a loop

A loop over a range need not make the range. If both bounds are literals it counts between them, and
otherwise it finds the bounds and counts between these. Whatever the body does, such a loop runs as the
loop over the range does: the bounds are found once and in the same order before the first round, and no
round looks at them again. Only a bound that is no integer is told in another way, which is why the bounds
are integers here if they have values at all.
-/

namespace ExpLang

open Resolved

namespace Evaluation

/-! ## Running a loop -/

section Forms

variable (env : Env) (entry : Entry) (fuel : Nat) (var : LocalId) (body : Stmt) (span : Span)

/-- The bounds of a range are integers if they have values: the lower one, and the upper one when it is
found after it. -/
def BoundsAreInts (low high : Expr) (m : Machine) : Prop :=
  ∀ v m₁, eval env entry low m = (.ok v, m₁) →
    (∃ a, v = .int a) ∧ ∀ w m₂, eval env entry high m₁ = (.ok w, m₂) → ∃ b, w = .int b

variable {env entry}

/-- Finding the bounds first is the same as making the range first. -/
theorem exec_forRange {low high : Expr} {m : Machine} (hbounds : BoundsAreInts env entry low high m)
    (info : Info) :
    exec env entry fuel (.forRange var low high body span) m =
      exec env entry fuel (.forIn var (.binary .range low high info) body span) m := by
  rw [exec, exec, eval_plain _ _ _ _ _ rfl rfl]
  simp only [bind_assoc]
  cases hlow : eval env entry low m with
  | mk r m₁ =>
    rw [bind_of_run hlow, bind_of_run hlow]
    cases r with
    | error stop => rfl
    | ok v =>
      obtain ⟨⟨a, rfl⟩, hhigh⟩ := hbounds v m₁ hlow
      cases hrun : eval env entry high m₁ with
      | mk r m₂ =>
        change (eval env entry high >>= _) m₁ = (eval env entry high >>= _) m₁
        rw [bind_of_run hrun, bind_of_run hrun]
        cases r with
        | error stop => rfl
        | ok w =>
          obtain ⟨b, rfl⟩ := hhigh w m₂ hrun
          rfl

/-- A literal integer evaluates to itself. -/
theorem eval_of_int? {e : Expr} {n : Int64} (h : e.int? = some n) :
    eval env entry e = pure (.int n) := by
  unfold Expr.int? at h
  split at h
  · cases h
    rw [eval]
  · cases h

/-- Finding literals is no work. -/
theorem exec_forConst {low high : Expr} {a b : Int64} (hlow : low.int? = some a)
    (hhigh : high.int? = some b) :
    exec env entry fuel (.forConst var a b body span) =
      exec env entry fuel (.forRange var low high body span) := by
  rw [exec, exec, eval_of_int? hlow, eval_of_int? hhigh]
  rfl

end Forms

end Evaluation

/-! ## Lowering a loop -/

namespace Lowering

variable {site : Site} {scope inner : Scope} {name : Syntax.Ident} {iterable : Syntax.Expr}
  {code : Syntax.Stmt} {span : Span} {s s' : State}

/-- The loop over an expression that a body is put in, and the type of its variable. -/
inductive LoopOver (types : TypePool) (var : LocalId) (body : Stmt) (span : Span) :
    Expr → TypeId → Stmt → Prop
  | const {low high a b info} : low.int? = some a → high.int? = some b →
      LoopOver types var body span (.binary .range low high info) Primitive.int.id
        (.forConst var a b body span)
  | range {low high info} : low.int? = none ∨ high.int? = none →
      LoopOver types var body span (.binary .range low high info) Primitive.int.id
        (.forRange var low high body span)
  | value {e} : (∀ low high info, e ≠ .binary .range low high info) →
      LoopOver types var body span e (types.elementOf e.type) (.forIn var e body span)

/-- A loop runs as a loop over the value of its expression. -/
theorem LoopOver.exec_eq {types : TypePool} {var : LocalId} {body loop : Stmt} {e : Expr}
    {type : TypeId} (h : LoopOver types var body span e type loop) {env : Evaluation.Env}
    {entry : Evaluation.Entry} {m : Evaluation.Machine} (fuel : Nat)
    (hbounds : ∀ low high info, e = .binary .range low high info →
      Evaluation.BoundsAreInts env entry low high m) :
    Evaluation.exec env entry fuel loop m =
      Evaluation.exec env entry fuel (.forIn var e body span) m := by
  cases h with
  | const hlow hhigh =>
    rw [Evaluation.exec_forConst _ _ _ _ hlow hhigh]
    exact Evaluation.exec_forRange _ _ _ _ (hbounds _ _ _ rfl) _
  | range _ => exact Evaluation.exec_forRange _ _ _ _ (hbounds _ _ _ rfl) _
  | value _ => rfl

/-- An expression is a range between integers, or has the type of one. -/
def IsRange (types : TypePool) (e : Expr) : Prop :=
  (∃ low high info, e = .binary .range low high info) ∨
    types.get (types.resolve e.type) = .specific TypePool.iterableBase [Primitive.int.id]

/-- The variable of a loop over a range is an integer. -/
theorem LoopOver.type_eq_int {types : TypePool} {var : LocalId} {body loop : Stmt} {e : Expr}
    {type : TypeId} (h : LoopOver types var body span e type loop) (he : IsRange types e) :
    type = Primitive.int.id := by
  cases h with
  | const _ _ | range _ => rfl
  | value hother =>
    obtain ⟨low, high, info, rfl⟩ | htype := he
    · exact (hother low high info rfl).elim
    · rw [TypePool.elementOf, htype]
      rfl

/-- A local of a method has a name and a type. -/
def HasLocal (u : CodeUnit) (method : MethodId) (var : LocalId) (name : String) (type : TypeId) : Prop :=
  ∃ d, (u.getMethod method).locals[var]? = some d ∧ d.name = name ∧ d.type = type

/-- A variable that is brought into scope is a local with its name and its type. -/
theorem bindLocal_hasLocal (method : MethodId) (scope : Scope) (name : Syntax.Ident) (type : TypeId)
    (s : State) :
    Ensures (bindLocal method scope name type) s fun r s' =>
      r.2 = scope.add name.name (.localVar r.1) ∧ (method < s.unit.methods.size →
        HasLocal s'.unit method r.1 name.name type) := by
  refine ⟨fun r s' hrun => ?_⟩
  cases hrun
  refine ⟨rfl, fun hmethod => ?_⟩
  refine ⟨⟨name.name, type, ((s.unit.getMethod method).names.take name.name).1, name.span⟩, ?_, rfl, rfl⟩
  rw [CodeUnit.getMethod_modifyMethod, if_pos ⟨rfl, hmethod⟩]
  exact Array.getElem?_push_size

/-- What comes before the body of a loop: its expression is lowered, the body sees the variable, and is put
in a loop over the expression. -/
def IsLoopHead (site : Site) (scope : Scope) (name : Syntax.Ident) (iterable : Syntax.Expr)
    (span : Span) (s : State) (r : Scope × (Stmt → Stmt)) (s' : State) : Prop :=
  ∃ it s₁ method var type, lowerExpr site scope iterable s = .ok (it, s₁) ∧
    site.method = some method ∧ r.1 = scope.child.add name.name (.localVar var) ∧
    (∀ body, LoopOver s₁.unit.types var body span it type (r.2 body)) ∧
    (method < s₁.unit.methods.size → HasLocal s'.unit method var name.name type)

/-- A report leaves the unit as it is. -/
theorem reportFirm_unit (type : TypeId) (d : String → Diagnostic) (s : State) :
    Ensures (reportFirm type d) s fun _ s' => s'.unit = s.unit := by
  unfold reportFirm isLenient
  apply ensures_ask_bind
  split
  · exact ensures_pure rfl
  · apply Ensures.bind (R := fun _ s₁ => s₁ = s) (ensures_typeName fun _ => rfl)
    rintro text _ rfl
    exact ensures_report rfl

/-- A loop over a range has the form that its bounds ask for. -/
theorem loopAround_range {types : TypePool} (var : LocalId) (body : Stmt) (span : Span)
    (low high : Expr) (info : Info) :
    LoopOver types var body span (.binary .range low high info) Primitive.int.id
      (loopAround var (.binary .range low high info) span body) := by
  unfold loopAround
  dsimp only
  split
  · rename_i hlow hhigh
    exact .const hlow hhigh
  · rename_i hnot
    refine .range ?_
    cases hlow : low.int? with
    | none => exact .inl rfl
    | some a =>
      cases hhigh : high.int? with
      | none => exact .inr rfl
      | some b => exact (hnot a b hlow hhigh).elim

/-- The type of the variable and the form of the loop go with what the loop goes over. -/
theorem loopElement_loopOver (iterable : Expr) (s : State) :
    Ensures (loopElement iterable) s fun element s' => s'.unit = s.unit ∧
      ∀ var body span, LoopOver s.unit.types var body span iterable element
        (loopAround var iterable span body) := by
  unfold loopElement elementType
  split
  · exact ensures_pure ⟨rfl, fun var body span => loopAround_range var body span _ _ _⟩
  · rename_i hother
    have hvalue (var : LocalId) (body : Stmt) (span : Span) :
        LoopOver s.unit.types var body span iterable (s.unit.types.elementOf iterable.type)
          (loopAround var iterable span body) := by
      rw [loopAround_of_not_range hother]
      exact .value hother
    apply ensures_ask_bind
    dsimp only
    split
    · apply Ensures.bind (reportFirm_unit _ _ s)
      exact fun _ _ h => ensures_pure ⟨h, hvalue⟩
    · exact ensures_pure ⟨rfl, hvalue⟩

/-- Lowering the head of a loop gives the form of its iterable. -/
theorem loopHead_isLoopHead (site : Site) (scope : Scope) (name : Syntax.Ident)
    (iterable : Syntax.Expr) (span : Span) (s : State) :
    Ensures (loopHead site scope name iterable span) s
      (IsLoopHead site scope name iterable span s) := by
  rw [loopHead_eq]
  apply Ensures.bind (R := fun it s₁ => lowerExpr site scope iterable s = .ok (it, s₁))
    ⟨fun _ _ hrun => hrun⟩
  intro it s₁ hit
  apply ensures_currentMethod_bind
  intro method hmethod
  apply Ensures.bind (loopElement_loopOver it s₁)
  rintro element s₂ ⟨hunit, hloop⟩
  apply Ensures.bind (bindLocal_hasLocal method scope.child name element s₂)
  rintro ⟨var, inner⟩ s₃ ⟨hscope, hlocal⟩
  rw [hunit] at hlocal
  exact ensures_pure
    ⟨it, s₁, method, var, element, hit, hmethod, hscope, fun body => hloop var body span, hlocal⟩

/-- The code of a loop is put in the loop that its expression asks for, around what its body is lowered to.
The variable has the type of what the loop goes over, also after the body. -/
theorem lowerStmt_forIn (site : Site) (scope : Scope) (name : Syntax.Ident) (iterable : Syntax.Expr)
    (code : Syntax.Stmt) (span : Span) (s : State) :
    Ensures (lowerStmt site scope (.forIn name iterable code span)) s fun r s' =>
      ∃ it s₁ method var type body inner s₂, lowerExpr site scope iterable s = .ok (it, s₁) ∧
        site.method = some method ∧
        lowerStmt site (scope.child.add name.name (.localVar var)) code s₂ = .ok ((body, inner), s') ∧
        LoopOver s₁.unit.types var body span it type r.1 ∧
        (method < s.unit.methods.size → HasLocal s'.unit method var name.name type) := by
  rw [lowerStmt, lowerFor_eq, bind_assoc]
  apply Ensures.bind (loopHead_isLoopHead site scope name iterable span s)
  rintro ⟨-, loop⟩ s₂ ⟨it, s₁, method, var, type, hit, hmethod, rfl, hloop, hlocal⟩
  simp only [bind_assoc, pure_bind]
  apply Ensures.bind (R := fun r s' =>
    lowerStmt site (scope.child.add name.name (.localVar var)) code s₂ = .ok (r, s'))
    ⟨fun _ _ hrun => hrun⟩
  rintro ⟨body, inner⟩ s' hbody
  refine ensures_pure ⟨it, s₁, method, var, type, body, inner, s₂, hit, hmethod, hbody, hloop body, ?_⟩
  intro hlt
  have hbefore := (changing_lowerExpr site scope iterable).of_run hit
  obtain ⟨d, hd, hkeeps⟩ := hlocal (Nat.lt_of_lt_of_le hlt hbefore.methods_le)
  have hafter := (changing_lowerStmt site code _).of_run hbody
  exact ⟨d, hafter.local_eq hd, hkeeps⟩

end Lowering

open Evaluation Lowering

/-- The three forms of a loop over a range run alike. Lowering puts the body of a loop in the form that its
expression asks for, so that it runs as a loop over the value of the expression, with a local for the
variable, which is an integer if the loop goes over a range. -/
theorem loops_agree :
    (∀ (env : Env) (entry : Entry) (fuel : Nat) (var : LocalId) (low high : Expr) (info : Info)
        (body : Stmt) (span : Span) (m : Machine), BoundsAreInts env entry low high m →
      exec env entry fuel (.forRange var low high body span) m =
          exec env entry fuel (.forIn var (.binary .range low high info) body span) m ∧
        ∀ a b, low.int? = some a → high.int? = some b →
          exec env entry fuel (.forConst var a b body span) m =
            exec env entry fuel (.forRange var low high body span) m) ∧
    ∀ (site : Site) (scope : Scope) (name : Syntax.Ident) (iterable : Syntax.Expr)
      (code : Syntax.Stmt) (span : Span) (s : State) (loop : Stmt) (scope' : Scope) (s' : State),
      lowerStmt site scope (.forIn name iterable code span) s = .ok ((loop, scope'), s') →
      ∃ it s₁ method var type body inner s₂, lowerExpr site scope iterable s = .ok (it, s₁) ∧
        site.method = some method ∧
        lowerStmt site (scope.child.add name.name (.localVar var)) code s₂ = .ok ((body, inner), s') ∧
        LoopOver s₁.unit.types var body span it type loop ∧
        (∀ (env : Env) (entry : Entry) (fuel : Nat) (m : Machine),
          (∀ low high info, it = .binary .range low high info → BoundsAreInts env entry low high m) →
            exec env entry fuel loop m = exec env entry fuel (.forIn var it body span) m) ∧
        (IsRange s₁.unit.types it → type = Primitive.int.id) ∧
        (method < s.unit.methods.size → HasLocal s'.unit method var name.name type) := by
  constructor
  · intro env entry fuel var low high info body span m hbounds
    refine ⟨exec_forRange fuel var body span hbounds info, fun a b hlow hhigh => ?_⟩
    rw [exec_forConst fuel var body span hlow hhigh]
  · intro site scope name iterable code span s loop scope' s' hrun
    obtain ⟨it, s₁, method, var, type, body, inner, s₂, hit, hmethod, hbody, hloop, hlocal⟩ :=
      (lowerStmt_forIn site scope name iterable code span s).of_run _ _ hrun
    exact ⟨it, s₁, method, var, type, body, inner, s₂, hit, hmethod, hbody, hloop,
      fun env entry fuel m => hloop.exec_eq fuel, hloop.type_eq_int, hlocal⟩

/-- A machine with a counter, and a local that is two. -/
def countingMachine : Machine := { frame := { locals := #[.int 7, .int 2] } }

/-- A body that sets the local to the counter. -/
def countingBody : Stmt :=
  .expr (.binary .assign (.localVar 1 default) (.localVar 0 default) default) default

/-- The state in which the body of the only method is lowered. -/
def countingState : State := { unit := { CodeUnit.empty with methods := #[default] }, queue := default }

/-- A loop of the only method. -/
def countingLoop : Syntax.Stmt :=
  .forIn ⟨"i", default⟩ (.binary .range (.int 0 default) (.int 3 default) default) (.empty default) default

/-- A loop with a body that changes a bound, a loop between two literals, and the lowering of such a
loop. -/
theorem loops_agree_counting :
    exec default .closed 0
        (.forRange 0 (.literal (.int 0) default) (.localVar 1 default) countingBody default)
        countingMachine =
      exec default .closed 0
        (.forIn 0 (.binary .range (.literal (.int 0) default) (.localVar 1 default) default)
          countingBody default) countingMachine ∧
    exec default .closed 0 (.forConst 0 0 3 countingBody default) countingMachine =
      exec default .closed 0
        (.forRange 0 (.literal (.int 0) default) (.literal (.int 3) default) countingBody default)
        countingMachine ∧
    ∃ loop scope' s', lowerStmt ⟨0, some 0, true⟩ (.ofMethod 0 0) countingLoop countingState =
        .ok ((loop, scope'), s') ∧
      ∃ it types method var type body, LoopOver types var body default it type loop ∧
        HasLocal s'.unit method var "i" type := by
  refine ⟨?_, ?_, ?_⟩
  · refine (loops_agree.1 default .closed 0 0 _ _ default countingBody default countingMachine ?_).1
    intro v m₁ hlow
    cases hlow
    refine ⟨⟨0, rfl⟩, fun w m₂ hhigh => ?_⟩
    cases hhigh
    exact ⟨2, rfl⟩
  · refine (loops_agree.1 default .closed 0 0 _ _ default countingBody default countingMachine ?_).2
      0 3 rfl rfl
    intro v m₁ hlow
    cases hlow
    refine ⟨⟨0, rfl⟩, fun w m₂ hhigh => ?_⟩
    cases hhigh
    exact ⟨3, rfl⟩
  · have hruns : (lowerStmt ⟨0, some 0, true⟩ (.ofMethod 0 0) countingLoop
        countingState).toOption.isSome = true := by decide +kernel
    cases hrun : lowerStmt ⟨0, some 0, true⟩ (.ofMethod 0 0) countingLoop countingState with
    | error halt =>
      rw [hrun] at hruns
      cases hruns
    | ok r =>
      obtain ⟨it, s₁, method, var, type, body, inner, s₂, -, hmethod, -, hloop, -, -, hlocal⟩ :=
        loops_agree.2 _ _ _ _ _ _ _ r.1.1 r.1.2 r.2 hrun
      refine ⟨r.1.1, r.1.2, r.2, rfl, it, _, method, var, type, body, hloop, hlocal ?_⟩
      cases hmethod
      exact Nat.zero_lt_one

end ExpLang
