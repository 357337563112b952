import ExpLang.Evaluation.Run
import ExpLang.Proofs.Evaluation.Fitting
import ExpLang.Proofs.Resolved.Units

/-!
# Steps that keep a machine fitting

`Safe n Q x` says of a step `x` that a fitting machine fits after it, however it ends, that `Q` holds
of its result, and that it does not stop with a fault. Safe steps can be put one after the other, so
there is one lemma for each step of a running program, which follows the step. A method that is
called is one of the unit, and so it has a body and types that are known; what it enters is safe by
assumption here.
-/

namespace ExpLang.Evaluation

open Resolved

variable {α β : Type} {n : Nat} {Q : α → Prop} {R : β → Prop}

/-- A step stopped because parts of the compiler disagree. -/
def Stop.IsFault : Stop → Prop
  | .error (.internal _) => True
  | _ => False

/-- A step ended with a result of which something holds, or stopped, but not with a fault. -/
def Outcome (Q : α → Prop) : Except Stop α → Prop
  | .ok a => Q a
  | .error stop => ¬ stop.IsFault

/-- A step keeps a machine fitting and does not stop with a fault. -/
structure Safe (n : Nat) (Q : α → Prop) (x : Eval α) : Prop where
  of_run : ∀ m r m', x m = (r, m') → m.Fits n → m'.Fits n ∧ Outcome Q r

/-! ## Steps one after the other -/

/-- Handing back a value is safe wherever the value meets what is asked. -/
theorem safe_pure {a : α} (h : Q a) : Safe n Q (pure a) := by
  constructor
  intro m r m' hrun hm
  cases hrun
  exact ⟨hm, h⟩

/-- Two safe steps in sequence are safe, the second under what the first gives. -/
theorem Safe.bind {x : Eval α} {f : α → Eval β} (hx : Safe n Q x)
    (hf : ∀ a, Q a → Safe n R (f a)) : Safe n R (x >>= f) := by
  constructor
  intro m r m' hrun hm
  obtain ⟨⟨r₁, m₁⟩, hfirst⟩ : ∃ first, x m = first := ⟨_, rfl⟩
  rw [bind_of_run hfirst] at hrun
  obtain ⟨hm₁, hr₁⟩ := hx.of_run m r₁ m₁ hfirst hm
  cases r₁ with
  | ok a => exact (hf a hr₁).of_run m₁ r m' hrun hm₁
  | error stop =>
    cases hrun
    exact ⟨hm₁, hr₁⟩

/-- Failing with an error that is no fault of the machine is safe. -/
theorem safe_fail {e : EvalError} (he : ¬ (Stop.error e).IsFault := by exact not_false) :
    Safe n Q (fail e) := by
  constructor
  intro m r m' hrun hm
  cases hrun
  exact ⟨hm, he⟩

/-- Running out of fuel is safe: it is an ending of its own, not a fault. -/
theorem safe_outOfFuel : Safe n Q (throw .outOfFuel) := by
  constructor
  intro m r m' hrun hm
  cases hrun
  exact ⟨hm, not_false⟩

/-- A step that looks at the machine. -/
theorem safe_get_bind {f : Machine → Eval β} (hf : ∀ m, m.Fits n → Safe n R (f m)) :
    Safe n R (get >>= f) := by
  constructor
  intro m r m' hrun hm
  exact (hf m hm).of_run m r m' hrun hm

/-- Changing a machine by a function that keeps it fitting is safe. -/
theorem safe_modify {f : Machine → Machine} (hf : ∀ m, m.Fits n → (f m).Fits n) :
    Safe n (fun _ => True) (modify f) := by
  constructor
  intro m r m' hrun hm
  cases hrun
  exact ⟨hf m hm, trivial⟩

/-- An operation of the store that keeps the store fitting is safe. -/
theorem safe_onStore {f : Store → α × Store} (hf : ∀ s, s.Fits n → (f s).2.Fits n) :
    Safe n (fun _ => True) (onStore f) := by
  constructor
  intro m r m' hrun hm
  cases hrun
  exact ⟨{ hm with store := hf m.store hm.store }, trivial⟩

/-- An operator's result that fits gives a value that fits. -/
theorem safe_ofResult {r : Result} (hr : ResultFits n r) : Safe n (Value.Fits n) (ofResult r) := by
  cases r with
  | ok v => exact safe_pure hr
  | error e =>
    refine safe_fail ?_
    cases e with
    | internal f => exact hr.elim
    | _ => exact not_false

/-- The frame before is the frame after. -/
theorem Safe.inFrame {x : Eval α} (hx : Safe n Q x) {frame : Frame} (hframe : frame.Fits n) :
    Safe n Q (inFrame frame x) := by
  constructor
  intro m r m' hrun hm
  cases hrun
  obtain ⟨hm', hr⟩ := hx.of_run { m with frame := frame } _ _ rfl { hm with frame := hframe }
  exact ⟨{ hm' with frame := hm.frame }, hr⟩

/-- Raising the call depth around a safe step leaves it safe. -/
theorem Safe.deeper {x : Eval α} (hx : Safe n Q x) : Safe n Q (deeper x) := by
  constructor
  intro m r m' hrun hm
  cases hrun
  obtain ⟨hm', hr⟩ := hx.of_run { m with depth := m.depth + 1 } _ _ rfl { hm with }
  exact ⟨{ hm' with }, hr⟩

/-- Taking a value for a boolean raises a type error at worst. -/
theorem safe_asBool (value : Value) : Safe n (fun _ => True) (asBool value) := by
  unfold asBool
  split
  · exact safe_pure trivial
  · exact safe_fail

/-- Taking a value for an integer raises a type error at worst. -/
theorem safe_asInt (value : Value) : Safe n (fun _ => True) (asInt value) := by
  unfold asInt
  split
  · exact safe_pure trivial
  · exact safe_fail

/-- A slot read from fitting slots holds a fitting value. -/
theorem safe_readSlot {slots : Array Value} (h : ∀ v ∈ slots, v.Fits n) (id : Nat) :
    Safe n (Value.Fits n) (readSlot slots id) := by
  unfold readSlot
  split
  · rename_i value hvalue
    exact safe_pure (h value (Array.mem_of_getElem? hvalue))
  · exact safe_fail

/-- Writing a fitting value into fitting slots leaves fitting slots. -/
theorem safe_writeSlot {slots : Array Value} (h : ∀ v ∈ slots, v.Fits n) (id : Nat) {value : Value}
    (hvalue : value.Fits n) : Safe n (fun slots' => ∀ v ∈ slots', v.Fits n)
      (writeSlot slots id value) := by
  unfold writeSlot
  split
  · exact safe_pure (fits_setIfInBounds h id hvalue)
  · exact safe_fail

/-- A local of a fitting machine reads as a fitting value. -/
theorem safe_getLocal (id : LocalId) : Safe n (Value.Fits n) (getLocal id) :=
  safe_get_bind fun _ hm => safe_readSlot hm.frame.locals id

/-- An argument of a fitting machine reads as a fitting value. -/
theorem safe_getArg (id : ParamId) : Safe n (Value.Fits n) (getArg id) :=
  safe_get_bind fun _ hm => safe_readSlot hm.frame.args id

/-- Setting a local to a fitting value keeps the machine fitting. -/
theorem safe_setLocal (id : LocalId) {value : Value} (hvalue : value.Fits n) :
    Safe n (fun _ => True) (setLocal id value) := by
  apply safe_get_bind
  intro m hm
  apply Safe.bind (safe_writeSlot hm.frame.locals id hvalue)
  exact fun locals hlocals => safe_modify fun _ hm => { hm with
    frame := { hm.frame with locals := hlocals } }

/-- Setting an argument to a fitting value keeps the machine fitting. -/
theorem safe_setArg (id : ParamId) {value : Value} (hvalue : value.Fits n) :
    Safe n (fun _ => True) (setArg id value) := by
  apply safe_get_bind
  intro m hm
  apply Safe.bind (safe_writeSlot hm.frame.args id hvalue)
  exact fun args hargs => safe_modify fun _ hm => { hm with
    frame := { hm.frame with args := hargs } }

/-- A choice between two safe steps is safe. -/
theorem safe_ite {c : Prop} [Decidable c] {x y : Eval α} (hx : Safe n Q x) (hy : Safe n Q y) :
    Safe n Q (if c then x else y) := by
  split
  · exact hx
  · exact hy

/-- Set a field of a class. -/
theorem safe_setStatic (id : FieldId) {value : Value} (hvalue : value.Fits n) :
    Safe n (fun _ => True) (modify fun m => { m with statics := m.statics.set id value }) :=
  safe_modify fun _ hm => { hm with statics := hm.statics.set id hvalue }

/-- A step that stops before it goes on does not go on. -/
theorem safe_stop_or {c : Prop} [Decidable c] {e : EvalError} {f : PUnit → Eval β}
    (hf : ¬ c → Safe n R (f ⟨⟩)) (he : ¬ (Stop.error e).IsFault := by exact not_false) :
    Safe n R (if c then fail e >>= f else f ⟨⟩) := by
  split
  · exact Safe.bind (Q := fun _ => False) (safe_fail he) (fun _ h => h.elim)
  · rename_i hc
    exact hf hc

/-! ## Members -/

/-- What a statement gives to the method around it fits. -/
def Flow.Fits (n : Nat) : Flow → Prop
  | .normal => True
  | .ret value => value.Fits n

/-- Code of a program that is entered is safe. -/
structure Entry.Safe (n : Nat) (entry : Entry) : Prop where
  value : ∀ frame e, frame.Fits n → Below e.methods n →
    Evaluation.Safe n (Value.Fits n) (entry.value frame e)
  body : ∀ frame s, frame.Fits n → Below s.methods n →
    Evaluation.Safe n (Flow.Fits n) (entry.body frame s)

/-- The frame an initializer runs in holds no slots, so it fits every method count. -/
theorem Frame.fits_detached (n : Nat) (this : Option ObjectRef) : Frame.Fits n { this := this } :=
  ⟨fun _ h => absurd h (Array.not_mem_empty _), fun _ h => absurd h (Array.not_mem_empty _)⟩

section Members

variable {env : Env} {entry : Entry} (henv : env.unit.Complete)
  (hentry : entry.Safe env.unit.methods.size)

include henv hentry

/-- A step that goes on with the first value of a field. -/
theorem safe_firstValue_bind (id : FieldId) (this : Option ObjectRef) {f : Value → Eval β}
    (hf : ∀ v, v.Fits env.unit.methods.size → Safe env.unit.methods.size R (f v)) :
    Safe env.unit.methods.size R
      (match (env.unit.getField id).init with
        | some init => entry.value { this := this } init >>= f
        | none => pure (env.initialValue (env.unit.getField id).type) >>= f) := by
  have hnames := henv.sound.field_names_all id
  unfold FieldDef.methods at hnames
  split
  · rename_i init hinit
    rw [hinit] at hnames
    exact (hentry.value _ _ (Frame.fits_detached _ this) hnames).bind hf
  · exact (safe_pure (env.fits_initialValue _)).bind hf

/-- Reading a static field is safe, whether it is initialized then or before. -/
theorem safe_readStatic (id : FieldId) :
    Safe env.unit.methods.size (Value.Fits env.unit.methods.size) (readStatic env entry id) := by
  apply safe_get_bind
  intro m hm
  split
  · rename_i value hvalue
    exact safe_pure (hm.statics.of_lookup hvalue)
  · apply safe_firstValue_bind henv hentry id none
    intro value hvalue
    apply Safe.bind (safe_setStatic id hvalue)
    exact fun _ _ => safe_pure hvalue

/-- Reading a field is safe on an instance and without a receiver. -/
theorem safe_readField (receiver : Option ObjectRef) (id : FieldId) :
    Safe env.unit.methods.size (Value.Fits env.unit.methods.size)
      (readField env entry receiver id) := by
  unfold readField
  split
  · exact safe_readStatic henv hentry id
  · apply safe_get_bind
    intro m hm
    dsimp only
    split
    · rename_i value hvalue
      obtain ⟨ref, -, hvalue⟩ := Option.bind_eq_some_iff.1 hvalue
      exact safe_pure (hm.store.of_field? hvalue)
    · exact safe_fail

/-- Reading a member is safe when its overloads are methods of the unit. -/
theorem safe_readMember (receiver : Option ObjectRef) {m : Member}
    (hm : Below m.methods env.unit.methods.size) :
    Safe env.unit.methods.size (Value.Fits env.unit.methods.size)
      (readMember env entry receiver m) := by
  cases m with
  | field id => exact safe_readField henv hentry receiver id
  | method id => exact safe_pure (hm id List.mem_cons_self)

/-- Reading any place is safe. -/
theorem safe_read (place : Place) :
    Safe env.unit.methods.size (Value.Fits env.unit.methods.size) (place.read env entry) := by
  cases place with
  | localVar id => exact safe_getLocal id
  | argument id => exact safe_getArg id
  | field receiver id => exact safe_readField henv hentry receiver id
  | element ref index =>
    exact safe_get_bind fun _ hm => safe_pure (fits_getD (hm.store.items ref) index)

omit henv in
/-- The values of parameters that no argument is given for. -/
theorem safe_defaultArgs (m : MethodDef) (given : Nat) (this : Option ObjectRef)
    (params : List ParamDef) (hparams : ∀ p ∈ params, Below p.methods env.unit.methods.size) :
    Safe env.unit.methods.size (fun values => ∀ v ∈ values, v.Fits env.unit.methods.size)
      (defaultArgs entry m given this params) := by
  induction params with
  | nil => exact safe_pure fun _ h => by cases h
  | cons p rest ih =>
    obtain ⟨hp, hrest⟩ := List.forall_mem_cons.1 hparams
    unfold ParamDef.methods at hp
    unfold defaultArgs
    split
    · exact safe_fail
    · rename_i e he
      rw [he] at hp
      apply Safe.bind (hentry.value _ e (Frame.fits_detached _ this) hp)
      intro value hvalue
      apply Safe.bind (ih hrest)
      exact fun values hvalues => safe_pure (List.forall_mem_cons.2 ⟨hvalue, hvalues⟩)

/-- Binding fitting arguments gives a fitting value for every parameter. -/
theorem safe_bindArgs {id : MethodId} (hid : id < env.unit.methods.size)
    (this : Option ObjectRef) {args : List Value}
    (hargs : ∀ v ∈ args, v.Fits env.unit.methods.size) :
    Safe env.unit.methods.size (fun values => ∀ v ∈ values, v.Fits env.unit.methods.size)
      (bindArgs entry (env.unit.getMethod id) this args) := by
  have hnames := henv.sound.method_names id hid
  rw [MethodDef.methods, below_append] at hnames
  have hparams : ∀ p ∈ (env.unit.getMethod id).params.toList.drop args.length,
      Below p.methods env.unit.methods.size := by
    intro p hp i hi
    exact hnames.1 i (List.mem_flatMap.2 ⟨p, List.mem_of_mem_drop hp, hi⟩)
  unfold bindArgs
  refine safe_stop_or fun _ => ?_
  apply Safe.bind (safe_defaultArgs hentry _ _ this _ hparams)
  exact fun values hvalues => safe_pure (List.forall_mem_append.2 ⟨hargs, hvalues⟩)

omit hentry in
/-- No method is refused for its types. -/
theorem safe_checkBound (m : MethodDef) :
    Safe env.unit.methods.size (fun _ => True) (checkBound env m) := by
  have hlocals : m.locals.toList.find? (env.unit.types.isUnbound ·.type) = none :=
    List.find?_eq_none.2 fun l _ => by simp [henv.known]
  unfold checkBound
  dsimp only
  rw [henv.known, hlocals]
  exact safe_pure trivial

/-- A method of the unit can be called. -/
theorem safe_call {id : MethodId} (hid : id < env.unit.methods.size) (receiver : Option ObjectRef)
    {args : List Value} (hargs : ∀ v ∈ args, v.Fits env.unit.methods.size) :
    Safe env.unit.methods.size (Value.Fits env.unit.methods.size)
      (call env entry id receiver args) := by
  unfold call
  apply safe_get_bind
  intro m hm
  refine safe_stop_or fun _ => ?_
  apply Safe.bind (safe_checkBound henv _)
  intro _ _
  have hnames := henv.sound.method_names id hid
  rw [MethodDef.methods, below_append] at hnames
  obtain ⟨body, hbody⟩ := Option.isSome_iff_exists.1
    ((henv.sound.has_body id hid).resolve_right not_false)
  rw [hbody] at hnames ⊢
  apply Safe.bind (safe_bindArgs henv hentry hid _ hargs)
  intro values hvalues
  have hframe : Frame.Fits env.unit.methods.size
      ⟨if (env.unit.getMethod id).isStatic then none else receiver, values.toArray,
        (env.unit.getMethod id).locals.map fun l => env.initialValue l.type⟩ := by
    refine ⟨fun v hv => hvalues v (List.mem_toArray.1 hv), fun v hv => ?_⟩
    obtain ⟨l, -, rfl⟩ := Array.mem_map.1 hv
    exact env.fits_initialValue _
  apply Safe.bind (hentry.body _ body hframe hnames.2).deeper
  intro flow hflow
  cases flow with
  | normal => exact safe_pure trivial
  | ret value => exact safe_pure hflow

/-- The fields of a new object. -/
theorem safe_initFields (ref : ObjectRef) (ids : List FieldId) :
    Safe env.unit.methods.size (fun _ => True) (initFields env entry ref ids) := by
  induction ids with
  | nil => exact safe_pure trivial
  | cons id rest ih =>
    unfold initFields
    dsimp only
    split
    · exact ih
    · apply safe_firstValue_bind henv hentry id (some ref)
      intro value hvalue
      apply Safe.bind (safe_onStore fun _ hs => hs.setField ref id hvalue)
      exact fun _ _ => ih

/-- Constructing an object is safe. -/
theorem safe_newObject (owner : ClassId) :
    Safe env.unit.methods.size (fun _ => True) (newObject env entry owner) := by
  apply Safe.bind (safe_onStore fun _ hs => hs.newObject owner)
  intro ref _
  apply Safe.bind (safe_initFields henv hentry ref _)
  exact fun _ _ => safe_pure trivial

end Members

/-- Set a field. -/
theorem safe_writeField (env : Env) (receiver : Option ObjectRef) (id : FieldId) {value : Value}
    (hvalue : value.Fits n) : Safe n (fun _ => True) (writeField env receiver id value) := by
  unfold writeField
  split
  · exact safe_setStatic id hvalue
  · split
    · exact safe_onStore fun _ hs => hs.setField _ id hvalue
    · exact safe_fail

/-- Writing a fitting value to any place is safe. -/
theorem safe_write (env : Env) (place : Place) {value : Value} (hvalue : value.Fits n) :
    Safe n (fun _ => True) (place.write env value) := by
  cases place with
  | localVar id => exact safe_setLocal id hvalue
  | argument id => exact safe_setArg id hvalue
  | field receiver id => exact safe_writeField env receiver id hvalue
  | element ref index =>
    exact safe_onStore (f := fun s => ((), s.setItem ref index value)) fun _ hs =>
      hs.setItem ref index hvalue

/-- The receiver of a member, where the target has a value. -/
theorem safe_valueReceiver (env : Env) {x : Eval Value} (hx : Safe n (Value.Fits n) x)
    (m : Member) : Safe n (fun _ => True) (do
      match ← x with
      | .object ref => return some ref
      | value =>
        if env.isStatic m then return none
        if let .null := value then fail (.nullReference (env.unit.memberName m))
        fail (.typeMismatch "object" value.kind)) := by
  apply Safe.bind hx
  intro value _
  cases value with
  | object ref => exact safe_pure trivial
  | null =>
    dsimp only
    split
    · exact safe_pure trivial
    · exact Safe.bind (Q := fun _ => False) safe_fail fun _ h => h.elim
  | _ =>
    dsimp only
    split
    · exact safe_pure trivial
    · exact safe_fail

/-- Finding the receiver of a member call is safe when its target is. -/
theorem safe_receiverOf (env : Env) (target : Expr) {x : Eval Value} (hx : Safe n (Value.Fits n) x)
    (m : Member) : Safe n (fun _ => True) (receiverOf env target x m) := by
  unfold receiverOf
  dsimp only
  split
  · exact safe_ite (safe_pure trivial) (safe_valueReceiver env hx m)
  · exact safe_valueReceiver env hx m

/-- The place of an element. -/
theorem safe_elementOf {array index : Eval Value} (harray : Safe n (Value.Fits n) array)
    (hindex : Safe n (Value.Fits n) index) :
    Safe n (fun _ => True) (elementOf array index) := by
  apply Safe.bind harray
  intro value _
  cases value with
  | array ref =>
    apply Safe.bind hindex
    intro value _
    apply Safe.bind (safe_asInt value)
    intro i _
    apply safe_get_bind
    intro m hm
    dsimp only
    split
    · exact safe_pure trivial
    · exact safe_fail
  | _ => exact safe_fail

end ExpLang.Evaluation
