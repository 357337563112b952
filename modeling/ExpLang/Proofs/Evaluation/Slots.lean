import ExpLang.Evaluation.Session
import ExpLang.Proofs.Evaluation.Fitting
import ExpLang.Proofs.Resolved.Slots

/-!
# Running code stays within its frame

Code names slots of the frame that it runs in: locals and arguments. `Seated b Q x` says of a step `x`
that a frame with the slots that code within the bounds `b` may name still has them after the step,
that `Q` holds of its result, and that it does not stop because a slot is missing. There is one lemma
for each step of a running program. The arguments of a call and the defaults of the parameters after
them are as many as the method has parameters, so that every body is entered in a frame of its size;
what stands outside of all methods names no slot and is entered in an empty frame.
-/

namespace ExpLang

namespace Resolved

/-- All code of a unit stays within the bounds of its place. -/
structure CodeUnit.CodeInRange (u : CodeUnit) : Prop where
  body : ∀ i s, (u.getMethod i).body = some s → CodeWithin (u.bounds (some i)) s.visits
  default : ∀ i, ∀ p ∈ (u.getMethod i).params, ∀ e, p.default = some e →
    CodeWithin (u.bounds none) e.visits
  init : ∀ i e, (u.getField i).init = some e → CodeWithin (u.bounds none) e.visits

/-- A unit whose references are in range has its code in range. -/
theorem CodeUnit.InRange.code {u : CodeUnit} (hu : u.InRange) : u.CodeInRange :=
  ⟨fun _ _ hs => hu.body_within hs, fun _ _ hp _ he => hu.default_within hp he,
    fun _ _ he => hu.init_within he⟩

/-- Code does not depend on types. -/
theorem CodeUnit.CodeInRange.withTypes {u : CodeUnit} (hu : u.CodeInRange) (types : TypePool) :
    ({ u with types := types } : CodeUnit).CodeInRange :=
  ⟨hu.body, hu.default, hu.init⟩

end Resolved

namespace Evaluation

open Resolved

variable {α β : Type} {b : Bounds} {Q : α → Prop} {R : β → Prop}

/-- A frame has the slots that code within some bounds may name. -/
structure Frame.Holds (b : Bounds) (f : Frame) : Prop where
  locals : b.locals ≤ f.locals.size
  args : b.params ≤ f.args.size

/-- A step stopped because a frame does not have a slot. -/
def Stop.IsMissingSlot : Stop → Prop
  | .error (.missingSlot _ _) => True
  | _ => False

/-- A step ended with a result of which something holds, or stopped, but not for want of a slot. -/
def Lands (Q : α → Prop) : Except Stop α → Prop
  | .ok a => Q a
  | .error stop => ¬ stop.IsMissingSlot

/-- A step keeps the slots of a frame and does not miss one. -/
structure Seated (b : Bounds) (Q : α → Prop) (x : Eval α) : Prop where
  of_run : ∀ m r m', x m = (r, m') → m.frame.Holds b → m'.frame.Holds b ∧ Lands Q r

/-! ## Steps one after the other -/

/-- Handing back a value reads no slot. -/
theorem seated_pure {a : α} (h : Q a) : Seated b Q (pure a) := by
  constructor
  intro m r m' hrun hm
  cases hrun
  exact ⟨hm, h⟩

/-- Two steps in sequence find every slot when each does. -/
theorem Seated.bind {x : Eval α} {f : α → Eval β} (hx : Seated b Q x)
    (hf : ∀ a, Q a → Seated b R (f a)) : Seated b R (x >>= f) := by
  constructor
  intro m r m' hrun hm
  obtain ⟨⟨r₁, m₁⟩, hfirst⟩ : ∃ first, x m = first := ⟨_, rfl⟩
  rw [bind_of_run hfirst] at hrun
  obtain ⟨hm₁, hr₁⟩ := hx.of_run m r₁ m₁ hfirst hm
  cases r₁ with
  | ok a => exact (hf a hr₁).of_run m₁ r m' hrun hm₁
  | error stop =>
    cases hrun
    exact ⟨hm₁, hr₁⟩

/-- A step that goes on with the result of another one, whatever it is. -/
theorem Seated.andThen {x : Eval α} {f : α → Eval β} (hx : Seated b (fun _ => True) x)
    (hf : ∀ a, Seated b R (f a)) : Seated b R (x >>= f) := hx.bind fun a _ => hf a

/-- Failing with an error that is no missing slot finds every slot. -/
theorem seated_fail {e : EvalError} (he : ¬ (Stop.error e).IsMissingSlot := by exact not_false) :
    Seated b Q (fail e) := by
  constructor
  intro m r m' hrun hm
  cases hrun
  exact ⟨hm, he⟩

/-- Running out of fuel reads no slot. -/
theorem seated_outOfFuel : Seated b Q (throw .outOfFuel) := by
  constructor
  intro m r m' hrun hm
  cases hrun
  exact ⟨hm, not_false⟩

/-- A step that looks at the machine. -/
theorem seated_get_bind {f : Machine → Eval β}
    (hf : ∀ m, m.frame.Holds b → Seated b R (f m)) : Seated b R (get >>= f) := by
  constructor
  intro m r m' hrun hm
  exact (hf m hm).of_run m r m' hrun hm

/-- Changing a machine finds every slot when its frame keeps its slots. -/
theorem seated_modify {f : Machine → Machine}
    (hf : ∀ m, m.frame.Holds b → (f m).frame.Holds b) : Seated b (fun _ => True) (modify f) := by
  constructor
  intro m r m' hrun hm
  cases hrun
  exact ⟨hf m hm, trivial⟩

/-- An operation of the store reads no slot. -/
theorem seated_onStore {f : Store → α × Store} : Seated b (fun _ => True) (onStore f) := by
  constructor
  intro m r m' hrun hm
  cases hrun
  exact ⟨hm, trivial⟩

/-- A choice finds every slot when both branches do. -/
theorem seated_ite {c : Prop} [Decidable c] {x y : Eval α} (hx : Seated b Q x)
    (hy : Seated b Q y) : Seated b Q (if c then x else y) := by
  split
  · exact hx
  · exact hy

/-- Set a field of a class. -/
theorem seated_setStatic (id : FieldId) (value : Value) : Seated b (fun _ => True)
    (modify fun m : Machine => { m with statics := m.statics.set id value }) :=
  seated_modify fun _ hm => hm

/-- A step that stops before it goes on does not go on. -/
theorem seated_stop_or {c : Prop} [Decidable c] {e : EvalError} {f : PUnit → Eval β}
    (hf : ¬ c → Seated b R (f ⟨⟩)) (he : ¬ (Stop.error e).IsMissingSlot := by exact not_false) :
    Seated b R (if c then fail e >>= f else f ⟨⟩) := by
  split
  · exact Seated.bind (Q := fun _ => False) (seated_fail he) fun _ h => h.elim
  · rename_i hc
    exact hf hc

/-- An operator's result reads no slot. -/
theorem seated_ofResult {n : Nat} {r : Result} (hr : ResultFits n r) :
    Seated b (fun _ => True) (ofResult r) := by
  cases r with
  | ok v => exact seated_pure trivial
  | error e =>
    refine seated_fail ?_
    cases e with
    | missingSlot index count => exact hr.elim
    | _ => exact not_false

/-- Taking a value for a boolean reads no slot. -/
theorem seated_asBool (value : Value) : Seated b (fun _ => True) (asBool value) := by
  unfold asBool
  split
  · exact seated_pure trivial
  · exact seated_fail

/-- Taking a value for an integer reads no slot. -/
theorem seated_asInt (value : Value) : Seated b (fun _ => True) (asInt value) := by
  unfold asInt
  split
  · exact seated_pure trivial
  · exact seated_fail

/-- What runs in a frame of its own leaves the frame before as it was. -/
theorem Seated.inFrame {b' : Bounds} {x : Eval α} (hx : Seated b' Q x) {frame : Frame}
    (hframe : frame.Holds b') : Seated b Q (inFrame frame x) := by
  constructor
  intro m r m' hrun hm
  cases hrun
  exact ⟨hm, (hx.of_run { m with frame := frame } _ _ rfl hframe).2⟩

/-- Raising the call depth changes no frame, so it changes no finding. -/
theorem Seated.deeper {x : Eval α} (hx : Seated b Q x) : Seated b Q (deeper x) := by
  constructor
  intro m r m' hrun hm
  cases hrun
  obtain ⟨hm', hr⟩ := hx.of_run { m with depth := m.depth + 1 } _ _ rfl hm
  exact ⟨hm', hr⟩

/-! ## Slots -/

/-- A slot below the size is found when it is read. -/
theorem seated_readSlot {slots : Array Value} {id : Nat} (h : id < slots.size) :
    Seated b (fun _ => True) (readSlot slots id) := by
  unfold readSlot
  rw [Array.getElem?_eq_getElem h]
  exact seated_pure trivial

/-- A slot below the size is found when it is written, and the size stays. -/
theorem seated_writeSlot {slots : Array Value} {id : Nat} (h : id < slots.size) (value : Value) :
    Seated b (fun slots' => slots'.size = slots.size) (writeSlot slots id value) := by
  unfold writeSlot
  rw [if_pos h]
  exact seated_pure Array.size_setIfInBounds

/-- A local below the frame's count is found when it is read. -/
theorem seated_getLocal {id : LocalId} (h : id < b.locals) :
    Seated b (fun _ => True) (getLocal id) :=
  seated_get_bind fun _ hm => seated_readSlot (Nat.lt_of_lt_of_le h hm.locals)

/-- An argument below the frame's count is found when it is read. -/
theorem seated_getArg {id : ParamId} (h : id < b.params) :
    Seated b (fun _ => True) (getArg id) :=
  seated_get_bind fun _ hm => seated_readSlot (Nat.lt_of_lt_of_le h hm.args)

/-- A local below the frame's count is found when it is set. -/
theorem seated_setLocal {id : LocalId} (h : id < b.locals) (value : Value) :
    Seated b (fun _ => True) (setLocal id value) := by
  apply seated_get_bind
  intro m hm
  apply Seated.bind (seated_writeSlot (Nat.lt_of_lt_of_le h hm.locals) value)
  intro locals hsize
  refine seated_modify fun m' hm' => ⟨?_, hm'.args⟩
  exact Nat.le_trans hm.locals (Nat.le_of_eq hsize.symm)

/-- An argument below the frame's count is found when it is set. -/
theorem seated_setArg {id : ParamId} (h : id < b.params) (value : Value) :
    Seated b (fun _ => True) (setArg id value) := by
  apply seated_get_bind
  intro m hm
  apply Seated.bind (seated_writeSlot (Nat.lt_of_lt_of_le h hm.args) value)
  intro args hsize
  refine seated_modify fun m' hm' => ⟨hm'.locals, ?_⟩
  exact Nat.le_trans hm.args (Nat.le_of_eq hsize.symm)

/-! ## Members -/

/-- A place that is a slot is within bounds. -/
def Place.Seated (b : Bounds) : Place → Prop
  | .localVar id => id < b.locals
  | .argument id => id < b.params
  | _ => True

/-- Code that is entered stays within the frame that it is entered in. -/
structure Entry.Seated (entry : Entry) : Prop where
  value : ∀ {b b' : Bounds} {frame : Frame} {e : Expr}, frame.Holds b' → CodeWithin b' e.visits →
    Evaluation.Seated b (fun _ => True) (entry.value frame e)
  body : ∀ {b b' : Bounds} {frame : Frame} {s : Stmt}, frame.Holds b' → CodeWithin b' s.visits →
    Evaluation.Seated b (fun _ => True) (entry.body frame s)

/-- What stands outside of all methods needs no slots. -/
theorem Frame.holds_bare (u : CodeUnit) (frame : Frame) : frame.Holds (u.bounds none) :=
  ⟨Nat.zero_le _, Nat.zero_le _⟩

section Members

variable {env : Env} {entry : Entry} (henv : env.unit.CodeInRange) (hentry : entry.Seated)

include henv hentry

/-- A step that goes on with the first value of a field. -/
theorem seated_firstValue_bind (id : FieldId) (this : Option ObjectRef) {f : Value → Eval β}
    (hf : ∀ v, Seated b R (f v)) : Seated b R
      (match (env.unit.getField id).init with
        | some init => entry.value { this := this } init >>= f
        | none => pure (env.initialValue (env.unit.getField id).type) >>= f) := by
  split
  · rename_i init hinit
    exact (hentry.value (Frame.holds_bare env.unit _) (henv.init id init hinit)).andThen hf
  · exact hf _

/-- Reading a static field finds every slot, its initializer included. -/
theorem seated_readStatic (id : FieldId) :
    Seated b (fun _ => True) (readStatic env entry id) := by
  apply seated_get_bind
  intro m hm
  split
  · exact seated_pure trivial
  · apply seated_firstValue_bind henv hentry id none
    intro value
    apply Seated.andThen (seated_setStatic id value)
    exact fun _ => seated_pure trivial

/-- Reading a field finds every slot. -/
theorem seated_readField (receiver : Option ObjectRef) (id : FieldId) :
    Seated b (fun _ => True) (readField env entry receiver id) := by
  unfold readField
  split
  · exact seated_readStatic henv hentry id
  · apply seated_get_bind
    intro m hm
    dsimp only
    split
    · exact seated_pure trivial
    · exact seated_fail

/-- Reading a member finds every slot. -/
theorem seated_readMember (receiver : Option ObjectRef) (m : Member) :
    Seated b (fun _ => True) (readMember env entry receiver m) := by
  cases m with
  | field id => exact seated_readField henv hentry receiver id
  | method id => exact seated_pure trivial

/-- Reading a place whose slot the frame has finds every slot. -/
theorem seated_read {place : Place} (hplace : place.Seated b) :
    Seated b (fun _ => True) (place.read env entry) := by
  cases place with
  | localVar id => exact seated_getLocal hplace
  | argument id => exact seated_getArg hplace
  | field receiver id => exact seated_readField henv hentry receiver id
  | element ref index => exact seated_get_bind fun _ _ => seated_pure trivial

omit henv in
/-- There is a value for each parameter that no argument is given for. -/
theorem seated_defaultArgs (m : MethodDef) (given : Nat) (this : Option ObjectRef)
    (params : List ParamDef)
    (hparams : ∀ p ∈ params, ∀ e, p.default = some e → CodeWithin (env.unit.bounds none) e.visits) :
    Seated b (fun values => values.length = params.length)
      (defaultArgs entry m given this params) := by
  induction params with
  | nil => exact seated_pure rfl
  | cons p rest ih =>
    obtain ⟨hp, hrest⟩ := List.forall_mem_cons.1 hparams
    unfold defaultArgs
    split
    · exact seated_fail
    · rename_i e he
      apply Seated.andThen (hentry.value (Frame.holds_bare env.unit _) (hp e he))
      intro value
      apply Seated.bind (ih hrest)
      intro values hvalues
      exact seated_pure (congrArg (· + 1) hvalues)

/-- A method gets as many arguments as it has parameters. -/
theorem seated_bindArgs (id : MethodId) (this : Option ObjectRef) (args : List Value) :
    Seated b (fun values => values.length = (env.unit.getMethod id).params.size)
      (bindArgs entry (env.unit.getMethod id) this args) := by
  have hparams : ∀ p ∈ (env.unit.getMethod id).params.toList.drop args.length, ∀ e,
      p.default = some e → CodeWithin (env.unit.bounds none) e.visits :=
    fun p hp => henv.default id p (Array.mem_toList_iff.1 (List.mem_of_mem_drop hp))
  unfold bindArgs
  refine seated_stop_or fun hfew => ?_
  apply Seated.bind (seated_defaultArgs hentry _ _ this _ hparams)
  intro values hvalues
  refine seated_pure ?_
  rw [List.length_append, hvalues, List.length_drop]
  exact Nat.add_sub_cancel' (Nat.le_of_not_lt hfew)

omit henv hentry in
/-- Checking that a method is bound reads no slot. -/
theorem seated_checkBound (m : MethodDef) : Seated b (fun _ => True) (checkBound env m) := by
  unfold checkBound
  refine seated_stop_or fun _ => ?_
  split
  · exact seated_fail
  · exact seated_pure trivial

/-- The body of a method is entered in a frame of its size. -/
theorem seated_call (id : MethodId) (receiver : Option ObjectRef) (args : List Value) :
    Seated b (fun _ => True) (call env entry id receiver args) := by
  unfold call
  apply seated_get_bind
  intro m hm
  refine seated_stop_or fun _ => ?_
  apply Seated.andThen (seated_checkBound _)
  intro _
  split
  · exact seated_fail
  · rename_i body hbody
    apply Seated.bind (seated_bindArgs henv hentry id _ args)
    intro values hvalues
    have hframe : Frame.Holds (env.unit.bounds (some id))
        ⟨if (env.unit.getMethod id).isStatic then none else receiver, values.toArray,
          (env.unit.getMethod id).locals.map fun l => env.initialValue l.type⟩ :=
      ⟨Nat.le_of_eq Array.size_map.symm, Nat.le_of_eq hvalues.symm⟩
    apply Seated.andThen (hentry.body hframe (henv.body id body hbody)).deeper
    intro flow
    cases flow with
    | normal => exact seated_pure trivial
    | ret value => exact seated_pure trivial

/-- The fields of a new object. -/
theorem seated_initFields (ref : ObjectRef) (ids : List FieldId) :
    Seated b (fun _ => True) (initFields env entry ref ids) := by
  induction ids with
  | nil => exact seated_pure trivial
  | cons id rest ih =>
    unfold initFields
    dsimp only
    split
    · exact ih
    · apply seated_firstValue_bind henv hentry id (some ref)
      intro value
      exact seated_onStore.andThen fun _ => ih

/-- Constructing an object finds every slot, its initializers included. -/
theorem seated_newObject (owner : ClassId) :
    Seated b (fun _ => True) (newObject env entry owner) := by
  apply seated_onStore.andThen
  intro ref
  apply Seated.andThen (seated_initFields henv hentry ref _)
  exact fun _ => seated_pure trivial

end Members

/-- Writing a field reads no slot. -/
theorem seated_writeField (env : Env) (receiver : Option ObjectRef) (id : FieldId) (value : Value) :
    Seated b (fun _ => True) (writeField env receiver id value) := by
  unfold writeField
  split
  · exact seated_setStatic id value
  · split
    · exact seated_onStore
    · exact seated_fail

/-- Writing a place whose slot the frame has finds every slot. -/
theorem seated_write (env : Env) {place : Place} (hplace : place.Seated b) (value : Value) :
    Seated b (fun _ => True) (place.write env value) := by
  cases place with
  | localVar id => exact seated_setLocal hplace value
  | argument id => exact seated_setArg hplace value
  | field receiver id => exact seated_writeField env receiver id value
  | element ref index => exact seated_onStore (f := fun s => ((), s.setItem ref index value))

/-- The receiver of a member, where the target has a value. -/
theorem seated_valueReceiver (env : Env) {x : Eval Value} (hx : Seated b (fun _ => True) x)
    (m : Member) : Seated b (fun _ => True) (do
      match ← x with
      | .object ref => return some ref
      | value =>
        if env.isStatic m then return none
        if let .null := value then fail (.nullReference (env.unit.memberName m))
        fail (.typeMismatch "object" value.kind)) := by
  apply hx.andThen
  intro value
  cases value with
  | object ref => exact seated_pure trivial
  | null =>
    dsimp only
    split
    · exact seated_pure trivial
    · exact Seated.bind (Q := fun _ => False) seated_fail fun _ h => h.elim
  | _ =>
    dsimp only
    split
    · exact seated_pure trivial
    · exact seated_fail

/-- Finding the receiver of a member call finds every slot when its target does. -/
theorem seated_receiverOf (env : Env) (target : Expr) {x : Eval Value}
    (hx : Seated b (fun _ => True) x) (m : Member) :
    Seated b (fun _ => True) (receiverOf env target x m) := by
  unfold receiverOf
  dsimp only
  split
  · exact seated_ite (seated_pure trivial) (seated_valueReceiver env hx m)
  · exact seated_valueReceiver env hx m

/-- The place of an element is no slot. -/
theorem seated_elementOf {array index : Eval Value} (harray : Seated b (fun _ => True) array)
    (hindex : Seated b (fun _ => True) index) :
    Seated b (Place.Seated b) (elementOf array index) := by
  apply harray.andThen
  intro value
  cases value with
  | array ref =>
    apply hindex.andThen
    intro value
    apply (seated_asInt value).andThen
    intro i
    apply seated_get_bind
    intro m hm
    dsimp only
    split
    · exact seated_pure trivial
    · exact seated_fail
  | _ => exact seated_fail

/-! ## Expressions -/

/-- Every value is one of some program. -/
theorem Value.exists_fits (value : Value) : ∃ n, value.Fits n := by
  cases value with
  | method id receiver => exact ⟨id + 1, Nat.lt_succ_self id⟩
  | _ => exact ⟨0, trivial⟩

/-- A binary operator reads no slot. -/
theorem seated_evalBinary (op : BinaryOp) (left right : Value) :
    Seated b (fun _ => True) (ofResult (evalBinary op left right)) := by
  obtain ⟨n, hright⟩ := right.exists_fits
  exact seated_ofResult (evalBinary_fits op left hright)

section Expressions

variable {env : Env} {entry : Entry}

/-- An operator that changes the place it is applied to. -/
theorem seated_update (henv : env.unit.CodeInRange) (hentry : entry.Seated) {place : Eval Place}
    (hplace : Seated b (Place.Seated b) place) {f : Value → Eval Value} {g : Value → Value → Value}
    (hf : ∀ old, Seated b (fun _ => True) (f old)) : Seated b (fun _ => True) (do
      let place ← place
      let old ← place.read env entry
      let value ← f old
      place.write env value
      return g old value) := by
  apply hplace.bind
  intro place hplace
  apply (seated_read henv hentry hplace).andThen
  intro old
  apply (hf old).andThen
  intro value
  apply (seated_write env hplace value).andThen
  exact fun _ => seated_pure trivial

mutual

/-- An expression within the bounds of its frame. -/
theorem seated_eval (henv : env.unit.CodeInRange) (hentry : entry.Seated) (e : Expr)
    (he : CodeWithin b e.visits) : Seated b (fun _ => True) (eval env entry e) := by
  cases e with
  | literal value info => cases value <;> exact seated_pure trivial
  | localVar id info => exact seated_getLocal (codeWithin_cons.1 he).1
  | argument id info => exact seated_getArg (codeWithin_cons.1 he).1
  | member m info => exact seated_get_bind fun _ _ => seated_readMember henv hentry _ m
  | access target m info =>
    rw [Expr.visits, codeWithin_cons] at he
    rw [eval]
    apply Seated.andThen (seated_receiverOf env target (seated_eval henv hentry target he.2) m)
    exact fun receiver => seated_readMember henv hentry receiver m
  | this info =>
    rw [eval]
    apply seated_get_bind
    intro m _
    split
    · exact seated_pure trivial
    · exact seated_fail
  | classRef id info => exact seated_fail
  | index target key info =>
    rw [Expr.visits, List.cons_append, codeWithin_cons, codeWithin_append] at he
    rw [eval]
    have hplace := seated_elementOf (seated_eval henv hentry target he.2.1)
      (seated_eval henv hentry key he.2.2)
    exact hplace.bind fun place hplace => seated_read henv hentry hplace
  | call callee args info =>
    rw [Expr.visits, List.cons_append, codeWithin_cons, codeWithin_append] at he
    rw [eval]
    apply Seated.andThen (seated_eval henv hentry callee he.2.1)
    intro value
    apply Seated.andThen (seated_evalAll henv hentry args he.2.2)
    intro values
    cases value with
    | method id receiver => exact seated_call henv hentry id receiver values
    | _ => exact seated_fail
  | new owner args info =>
    rw [Expr.visits, codeWithin_cons] at he
    rw [eval]
    apply Seated.andThen (seated_evalAll henv hentry args he.2)
    intro _
    apply Seated.andThen (seated_newObject henv hentry owner)
    exact fun _ => seated_pure trivial
  | pre op operand info =>
    rw [Expr.visits, codeWithin_cons] at he
    rw [eval]
    split
    · exact seated_update henv hentry (g := fun _ value => value)
        (seated_placeOf henv hentry operand he.2) fun old =>
          seated_ofResult (evalPrefix_fits (n := 0) op old)
    · apply Seated.andThen (seated_eval henv hentry operand he.2)
      exact fun value => seated_ofResult (evalPrefix_fits (n := 0) op value)
  | post op operand info =>
    rw [Expr.visits, codeWithin_cons] at he
    rw [eval]
    exact seated_update henv hentry (g := fun old _ => old)
      (seated_placeOf henv hentry operand he.2) fun old =>
        seated_ofResult (evalPostfix_fits (n := 0) op old)
  | binary op left right info =>
    rw [Expr.visits, List.cons_append, codeWithin_cons, codeWithin_append] at he
    have hleft := seated_eval henv hentry left he.2.1
    have hright := seated_eval henv hentry right he.2.2
    have hplace := seated_placeOf henv hentry left he.2.1
    by_cases hand : op = .and
    · rw [hand, eval]
      exact hleft.andThen fun v => (seated_asBool v).andThen fun _ => seated_ite
        (hright.andThen fun w => (seated_asBool w).andThen fun _ => seated_pure trivial)
        (seated_pure trivial)
    by_cases hor : op = .or
    · rw [hor, eval]
      exact hleft.andThen fun v => (seated_asBool v).andThen fun _ => seated_ite
        (seated_pure trivial)
        (hright.andThen fun w => (seated_asBool w).andThen fun _ => seated_pure trivial)
    by_cases hassign : op = .assign
    · rw [hassign, eval]
      apply hplace.bind
      intro place hplace
      apply hright.andThen
      intro value
      apply (seated_write env hplace value).andThen
      exact fun _ => seated_pure trivial
    rw [eval]
    · split
      · apply hplace.bind
        intro place hplace
        apply (seated_read henv hentry hplace).andThen
        intro old
        apply hright.andThen
        intro given
        apply (seated_evalBinary op old given).andThen
        intro value
        apply (seated_write env hplace value).andThen
        exact fun _ => seated_pure trivial
      · exact hleft.andThen fun value => hright.andThen fun given =>
          seated_evalBinary op value given
    · exact hand
    · exact hor
    · exact hassign
  | unknown name info => exact seated_fail

/-- Expressions from left to right. -/
theorem seated_evalAll (henv : env.unit.CodeInRange) (hentry : entry.Seated) (es : List Expr)
    (hes : CodeWithin b (Expr.visitsAll es)) :
    Seated b (fun _ => True) (evalAll env entry es) := by
  cases es with
  | nil => exact seated_pure trivial
  | cons e rest =>
    rw [Expr.visitsAll, codeWithin_append] at hes
    rw [evalAll]
    apply Seated.andThen (seated_eval henv hentry e hes.1)
    intro value
    apply Seated.andThen (seated_evalAll henv hentry rest hes.2)
    exact fun values => seated_pure trivial

/-- The place that an expression stands for is within bounds. -/
theorem seated_placeOf (henv : env.unit.CodeInRange) (hentry : entry.Seated) (e : Expr)
    (he : CodeWithin b e.visits) : Seated b (Place.Seated b) (placeOf env entry e) := by
  cases e with
  | localVar id info => exact seated_pure (codeWithin_cons.1 he).1
  | argument id info => exact seated_pure (codeWithin_cons.1 he).1
  | member m info =>
    cases m with
    | field id => exact seated_get_bind fun _ _ => seated_pure trivial
    | method id => exact seated_fail
  | access target m info =>
    rw [Expr.visits, codeWithin_cons] at he
    cases m with
    | field id =>
      rw [placeOf]
      apply Seated.andThen (seated_receiverOf env target (seated_eval henv hentry target he.2) _)
      exact fun _ => seated_pure trivial
    | method id => exact seated_fail
  | index target key info =>
    rw [Expr.visits, List.cons_append, codeWithin_cons, codeWithin_append] at he
    rw [placeOf]
    exact seated_elementOf (seated_eval henv hentry target he.2.1)
      (seated_eval henv hentry key he.2.2)
  | _ => exact seated_fail

end

end Expressions

/-! ## Statements -/

/-- A loop over values finds every slot when its variable and its body do. -/
theorem seated_forEach {var : LocalId} (hvar : var < b.locals) {body : Eval Flow}
    (hbody : Seated b (fun _ => True) body) (values : List Value) :
    Seated b (fun _ => True) (forEach var body values) := by
  induction values with
  | nil => exact seated_pure trivial
  | cons value rest ih =>
    apply (seated_setLocal hvar value).andThen
    intro _
    apply hbody.andThen
    intro flow
    cases flow with
    | normal => exact ih
    | ret value => exact seated_pure trivial

/-- A counting loop finds every slot when its variable and its body do. -/
theorem seated_countUp {var : LocalId} (hvar : var < b.locals) {body : Eval Flow}
    (hbody : Seated b (fun _ => True) body) (count : Nat) (i : Int) :
    Seated b (fun _ => True) (countUp var body count i) := by
  induction count generalizing i with
  | zero => exact seated_pure trivial
  | succ count ih =>
    apply (seated_setLocal hvar _).andThen
    intro _
    apply hbody.andThen
    intro flow
    cases flow with
    | normal => exact ih (i + 1)
    | ret value => exact seated_pure trivial

/-- A loop on a condition finds every slot when its condition and its body do. -/
theorem seated_repeatWhile {cond : Eval Bool} {body : Eval Flow}
    (hcond : Seated b (fun _ => True) cond) (hbody : Seated b (fun _ => True) body) (fuel : Nat) :
    Seated b (fun _ => True) (repeatWhile cond body fuel) := by
  induction fuel with
  | zero => exact seated_outOfFuel
  | succ fuel ih =>
    apply hcond.andThen
    intro holds
    refine seated_ite (hbody.andThen fun flow => ?_) (seated_pure trivial)
    cases flow with
    | normal => exact ih
    | ret value => exact seated_pure trivial

/-- A loop over any value finds every slot when its variable and its body do. -/
theorem seated_forValue {var : LocalId} (hvar : var < b.locals) {body : Eval Flow}
    (hbody : Seated b (fun _ => True) body) (value : Value) :
    Seated b (fun _ => True) (forValue var body value) := by
  cases value with
  | range low high => exact seated_countUp hvar hbody _ _
  | array ref => exact seated_get_bind fun m _ => seated_forEach hvar hbody _
  | str text => exact seated_forEach hvar hbody _
  | _ => exact seated_fail

section Statements

variable {env : Env} {entry : Entry}

mutual

/-- A statement within the bounds of its frame. -/
theorem seated_exec (henv : env.unit.CodeInRange) (hentry : entry.Seated) (fuel : Nat) (s : Stmt)
    (hs : CodeWithin b s.visits) : Seated b (fun _ => True) (exec env entry fuel s) := by
  cases s with
  | seq body span => exact seated_execAll henv hentry fuel body (codeWithin_cons.1 hs).2
  | expr e span =>
    rw [exec]
    apply Seated.andThen (seated_eval henv hentry e (codeWithin_cons.1 hs).2)
    exact fun _ => seated_pure trivial
  | ifElse cond thenBranch elseBranch span =>
    cases elseBranch with
    | none =>
      rw [Stmt.visits, List.cons_append, codeWithin_cons, codeWithin_append] at hs
      rw [exec]
      apply Seated.andThen (seated_eval henv hentry cond hs.2.1)
      intro value
      apply (seated_asBool value).andThen
      exact fun _ => seated_ite (seated_exec henv hentry fuel thenBranch hs.2.2) (seated_pure trivial)
    | some elseBranch =>
      rw [Stmt.visits, List.cons_append, List.cons_append, codeWithin_cons, codeWithin_append,
        codeWithin_append] at hs
      rw [exec]
      apply Seated.andThen (seated_eval henv hentry cond hs.2.1.1)
      intro value
      apply (seated_asBool value).andThen
      exact fun _ => seated_ite (seated_exec henv hentry fuel thenBranch hs.2.1.2)
        (seated_exec henv hentry fuel elseBranch hs.2.2)
  | whileLoop cond body span =>
    rw [Stmt.visits, List.cons_append, codeWithin_cons, codeWithin_append] at hs
    have hcond := (seated_eval henv hentry cond hs.2.1).andThen seated_asBool
    rw [exec]
    exact seated_repeatWhile hcond (seated_exec henv hentry fuel body hs.2.2) fuel
  | forIn var iterable body span =>
    rw [Stmt.visits, List.cons_append, codeWithin_cons, codeWithin_append] at hs
    rw [exec]
    apply Seated.andThen (seated_eval henv hentry iterable hs.2.1)
    exact seated_forValue hs.1 (seated_exec henv hentry fuel body hs.2.2)
  | forConst var low high body span =>
    rw [Stmt.visits, codeWithin_cons] at hs
    rw [exec]
    exact seated_countUp hs.1 (seated_exec henv hentry fuel body hs.2) _ _
  | forRange var low high body span =>
    rw [Stmt.visits, List.cons_append, List.cons_append, codeWithin_cons, codeWithin_append,
      codeWithin_append] at hs
    rw [exec]
    apply Seated.andThen (seated_eval henv hentry low hs.2.1.1)
    intro first
    apply (seated_asInt first).andThen
    intro first
    apply Seated.andThen (seated_eval henv hentry high hs.2.1.2)
    intro last
    apply (seated_asInt last).andThen
    exact fun last => seated_countUp hs.1 (seated_exec henv hentry fuel body hs.2.2) _ _
  | ret value span =>
    cases value with
    | none => exact seated_pure trivial
    | some e =>
      rw [Stmt.visits, codeWithin_cons] at hs
      rw [exec]
      apply Seated.andThen (seated_eval henv hentry e hs.2)
      exact fun value => seated_pure trivial

/-- Statements one after the other. -/
theorem seated_execAll (henv : env.unit.CodeInRange) (hentry : entry.Seated) (fuel : Nat)
    (body : List Stmt) (hbody : CodeWithin b (Stmt.visitsAll body)) :
    Seated b (fun _ => True) (execAll env entry fuel body) := by
  cases body with
  | nil => exact seated_pure trivial
  | cons s rest =>
    rw [Stmt.visitsAll, codeWithin_append] at hbody
    rw [execAll]
    apply Seated.andThen (seated_exec henv hentry fuel s hbody.1)
    intro flow
    cases flow with
    | normal => exact seated_execAll henv hentry fuel rest hbody.2
    | ret value => exact seated_pure trivial

end

end Statements

/-! ## Sessions -/

/-- All code that is entered stays within its frame, by induction on the fuel. -/
theorem seated_fuelled {env : Env} (henv : env.unit.CodeInRange) (fuel : Nat) :
    (Entry.fuelled env fuel).Seated := by
  induction fuel with
  | zero => exact ⟨fun _ _ => seated_outOfFuel, fun _ _ => seated_outOfFuel⟩
  | succ fuel ih =>
    exact ⟨fun hframe he => (seated_eval henv ih _ he).inFrame hframe,
      fun hframe hs => (seated_exec henv ih fuel _ hs).inFrame hframe⟩

/-- A step that needs no slots does not miss one, in whatever frame it starts. -/
theorem Seated.ne_missingSlot {x : Eval α} (hx : Seated ⟨0, 0, 0, 0, 0⟩ Q x) (m : Machine)
    (index count : Nat) : (x m).1 ≠ .error (.error (.missingSlot index count)) := by
  intro hrun
  have hlands := (hx.of_run m _ _ rfl ⟨Nat.zero_le _, Nat.zero_le _⟩).2
  rw [hrun] at hlands
  exact hlands trivial

/-- A run of the main method of a unit in range finds every slot. -/
theorem seated_runMain {env : Env} (henv : env.unit.CodeInRange) (fuel : Nat) (argv : List String) :
    Seated b (fun _ => True) (env.runMain fuel argv) := by
  unfold Env.runMain
  split
  · exact seated_fail
  · apply seated_onStore.andThen
    exact fun args => seated_call henv (seated_fuelled henv fuel) _ none _

end Evaluation

end ExpLang
