import ExpLang.Evaluation.Run
import ExpLang.Proofs.Evaluation.Reentry

/-!
# Steps that end in the same way

Two runs of one program with different fuel differ in what they enter only. `Ends starved d Q x y`
says of two such steps that they do the same on every machine whose calls are nested `d` deep: they
end with the same result and the same machine, at the depth at which they began, and `Q` holds of
the result. Whether they may end for want of fuel is what `starved` says. Such steps can be put one
after the other, so there is one lemma for each step of a running program. The code that is entered
ends by assumption here: the pieces of a set, and the bodies of methods one call deeper as long as
the depth allows for it.
-/

namespace ExpLang.Evaluation

open Resolved
open Checking (calledMethod?)

variable {α β : Type} {starved : Prop} {d : Nat} {Q : α → Prop} {R : β → Prop}

/-- A step ended with a result of which something holds, or with an error of the program, or for
want of fuel if that is allowed. -/
def Ended (starved : Prop) (Q : α → Prop) : Except Stop α → Prop
  | .ok a => Q a
  | .error (.error _) => True
  | .error .outOfFuel => starved

/-- Two steps do the same at a depth, and end. -/
structure Ends (starved : Prop) (d : Nat) (Q : α → Prop) (x y : Eval α) : Prop where
  of_run : ∀ m, m.depth = d →
    ∃ r m', x m = (r, m') ∧ y m = (r, m') ∧ m'.depth = d ∧ Ended starved Q r

/-! ## Steps one after the other -/

/-- Handing back a value ends with it. -/
theorem ends_pure {a : α} (h : Q a) : Ends starved d Q (pure a) (pure a) :=
  ⟨fun m hm => ⟨.ok a, m, rfl, rfl, hm, h⟩⟩

/-- Two steps that end, one after the other, end. -/
theorem Ends.bind {x y : Eval α} {f g : α → Eval β} (hxy : Ends starved d Q x y)
    (hfg : ∀ a, Q a → Ends starved d R (f a) (g a)) : Ends starved d R (x >>= f) (y >>= g) := by
  constructor
  intro m hm
  obtain ⟨r, m₁, hx, hy, hm₁, hr⟩ := hxy.of_run m hm
  rw [bind_of_run hx, bind_of_run hy]
  cases r with
  | ok a => exact (hfg a hr).of_run m₁ hm₁
  | error stop =>
    refine ⟨.error stop, m₁, rfl, rfl, hm₁, ?_⟩
    cases stop with
    | error e => trivial
    | outOfFuel => exact hr

/-- What holds of a result may be weakened. -/
theorem Ends.mono {P : α → Prop} {x y : Eval α} (hxy : Ends starved d P x y)
    (h : ∀ a, P a → Q a) : Ends starved d Q x y := by
  constructor
  intro m hm
  obtain ⟨r, m', hx, hy, hm', hr⟩ := hxy.of_run m hm
  refine ⟨r, m', hx, hy, hm', ?_⟩
  match r, hr with
  | .ok a, hr => exact h a hr
  | .error (.error _), _ => trivial
  | .error .outOfFuel, hr => exact hr

/-- Failing ends with an error of the program. -/
theorem ends_fail {e : EvalError} : Ends starved d Q (fail e) (fail e) :=
  ⟨fun m hm => ⟨.error (.error e), m, rfl, rfl, hm, trivial⟩⟩

/-- Steps that look at the machine. -/
theorem ends_get_bind {f g : Machine → Eval β}
    (hfg : ∀ m, m.depth = d → Ends starved d R (f m) (g m)) :
    Ends starved d R (get >>= f) (get >>= g) :=
  ⟨fun m hm => (hfg m hm).of_run m hm⟩

/-- A change of the machine that keeps the depth ends. -/
theorem ends_modify {f : Machine → Machine} (hf : ∀ m, (f m).depth = m.depth) :
    Ends starved d (fun _ => True) (modify f) (modify f) :=
  ⟨fun m hm => ⟨.ok ⟨⟩, f m, rfl, rfl, (hf m).trans hm, trivial⟩⟩

/-- An operation of the store ends. -/
theorem ends_onStore (f : Store → α × Store) :
    Ends starved d (fun _ => True) (onStore f) (onStore f) :=
  ⟨fun m hm => ⟨.ok (f m.store).1, { m with store := (f m.store).2 }, rfl, rfl, hm, trivial⟩⟩

/-- An operator's result ends with its value or its error. -/
theorem ends_ofResult (r : Except EvalError α) :
    Ends starved d (fun _ => True) (ofResult r) (ofResult r) := by
  cases r with
  | ok a => exact ends_pure trivial
  | error e => exact ends_fail

/-- A step that ends does so in a frame of its own. -/
theorem Ends.inFrame {x y : Eval α} (hxy : Ends starved d Q x y) (frame : Frame) :
    Ends starved d Q (inFrame frame x) (inFrame frame y) := by
  constructor
  intro m hm
  obtain ⟨r, m', hx, hy, hm', hr⟩ := hxy.of_run { m with frame := frame } hm
  refine ⟨r, { m' with frame := m.frame }, ?_, ?_, hm', hr⟩
  · rw [Evaluation.inFrame, hx]
  · rw [Evaluation.inFrame, hy]

/-- The depth before is the depth after. -/
theorem Ends.deeper {x y : Eval α} (hxy : Ends starved (d + 1) Q x y) :
    Ends starved d Q (deeper x) (deeper y) := by
  constructor
  intro m hm
  obtain ⟨r, m', hx, hy, hm', hr⟩ :=
    hxy.of_run { m with depth := m.depth + 1 } (congrArg (· + 1) hm)
  refine ⟨r, { m' with depth := m'.depth - 1 }, ?_, ?_, Nat.sub_eq_of_eq_add hm', hr⟩
  · rw [Evaluation.deeper, hx]
  · rw [Evaluation.deeper, hy]

/-- A choice ends when both branches do. -/
theorem ends_ite {c : Prop} [Decidable c] {x y x' y' : Eval α} (hx : Ends starved d Q x x')
    (hy : Ends starved d Q y y') : Ends starved d Q (if c then x else y) (if c then x' else y') := by
  split
  · exact hx
  · exact hy

/-- Steps that stop before they go on do not go on. -/
theorem ends_stop_or {c : Prop} [Decidable c] {e : EvalError} {f g : PUnit → Eval β}
    (hfg : ¬ c → Ends starved d R (f ⟨⟩) (g ⟨⟩)) :
    Ends starved d R (if c then fail e >>= f else f ⟨⟩) (if c then fail e >>= g else g ⟨⟩) := by
  split
  · exact Ends.bind (Q := fun _ => False) ends_fail (fun _ h => h.elim)
  · rename_i hc
    exact hfg hc

/-- Taking a value for a boolean ends. -/
theorem ends_asBool (value : Value) :
    Ends starved d (fun _ => True) (asBool value) (asBool value) := by
  unfold asBool
  split
  · exact ends_pure trivial
  · exact ends_fail

/-- Taking a value for an integer ends. -/
theorem ends_asInt (value : Value) :
    Ends starved d (fun _ => True) (asInt value) (asInt value) := by
  unfold asInt
  split
  · exact ends_pure trivial
  · exact ends_fail

/-- Reading a slot ends. -/
theorem ends_readSlot (slots : Array Value) (id : Nat) :
    Ends starved d (fun _ => True) (readSlot slots id) (readSlot slots id) := by
  unfold readSlot
  split
  · exact ends_pure trivial
  · exact ends_fail

/-- Writing a slot ends. -/
theorem ends_writeSlot (slots : Array Value) (id : Nat) (value : Value) :
    Ends starved d (fun _ => True) (writeSlot slots id value) (writeSlot slots id value) := by
  unfold writeSlot
  split
  · exact ends_pure trivial
  · exact ends_fail

/-- Reading a local ends. -/
theorem ends_getLocal (id : LocalId) : Ends starved d (fun _ => True) (getLocal id) (getLocal id) :=
  ends_get_bind fun m _ => ends_readSlot m.frame.locals id

/-- Reading an argument ends. -/
theorem ends_getArg (id : ParamId) : Ends starved d (fun _ => True) (getArg id) (getArg id) :=
  ends_get_bind fun m _ => ends_readSlot m.frame.args id

/-- Setting a local ends. -/
theorem ends_setLocal (id : LocalId) (value : Value) :
    Ends starved d (fun _ => True) (setLocal id value) (setLocal id value) :=
  ends_get_bind fun m _ => (ends_writeSlot m.frame.locals id value).bind fun _ _ =>
    ends_modify fun _ => rfl

/-- Setting an argument ends. -/
theorem ends_setArg (id : ParamId) (value : Value) :
    Ends starved d (fun _ => True) (setArg id value) (setArg id value) :=
  ends_get_bind fun m _ => (ends_writeSlot m.frame.args id value).bind fun _ _ =>
    ends_modify fun _ => rfl

/-- Set a field of a class. -/
theorem ends_setStatic (id : FieldId) (value : Value) :
    Ends starved d (fun _ => True) (modify fun m => { m with statics := m.statics.set id value })
      (modify fun m => { m with statics := m.statics.set id value }) :=
  ends_modify fun _ => rfl

/-! ## Members -/

section Members

variable (env : Env) (A : Piece → Prop)

/-- What is entered at a depth ends: the pieces of a set there, and bodies one call deeper. -/
structure Entry.Ends (starved : Prop) (d : Nat) (short long : Entry) : Prop where
  value : ∀ p, A p → ∀ e ∈ env.unit.code p, ∀ frame,
    Evaluation.Ends starved d (fun _ => True) (short.value frame e) (long.value frame e)
  body : d < env.maxDepth → ∀ id body, (env.unit.getMethod id).body = some body → ∀ frame,
    Evaluation.Ends starved (d + 1) (fun _ => True) (short.body frame body) (long.body frame body)

/-- What reading a place can enter is in the set. -/
def Place.Within : Place → Prop
  | .field _ id => ∀ p ∈ env.unit.memberPieces (.field id), A p
  | _ => True

variable {env A} {short long : Entry} (hentry : Entry.Ends env A starved d short long)

include hentry

/-- Steps that go on with the first value of a field. -/
theorem ends_firstValue_bind (id : FieldId) (hid : A (.firstValue id)) (frame : Frame)
    {f g : Value → Eval β} (hfg : ∀ v, Ends starved d R (f v) (g v)) :
    Ends starved d R
      (match (env.unit.getField id).init with
        | some init => short.value frame init >>= f
        | none => pure (env.initialValue (env.unit.getField id).type) >>= f)
      (match (env.unit.getField id).init with
        | some init => long.value frame init >>= g
        | none => pure (env.initialValue (env.unit.getField id).type) >>= g) := by
  cases hinit : (env.unit.getField id).init with
  | none => exact (ends_pure trivial).bind fun v (_ : True) => hfg v
  | some init =>
    have hcode : init ∈ env.unit.code (.firstValue id) := by simp [CodeUnit.code, hinit]
    exact (hentry.value _ hid init hcode frame).bind fun v _ => hfg v

/-- Reading a static field ends if its first value may be entered. -/
theorem ends_readStatic (id : FieldId) (hid : A (.firstValue id)) :
    Ends starved d (fun _ => True) (readStatic env short id) (readStatic env long id) := by
  apply ends_get_bind
  intro m _
  cases m.statics.lookup id with
  | some value => exact ends_pure trivial
  | none =>
    apply ends_firstValue_bind hentry id hid {}
    intro value
    apply Ends.bind (ends_setStatic id value)
    exact fun _ _ => ends_pure trivial

/-- Reading a field ends if the pieces it may enter end. -/
theorem ends_readField (receiver : Option ObjectRef) (id : FieldId)
    (hid : ∀ p ∈ env.unit.memberPieces (.field id), A p) :
    Ends starved d (fun _ => True) (readField env short receiver id)
      (readField env long receiver id) := by
  unfold readField
  split
  · rename_i hstatic
    refine ends_readStatic hentry id (hid _ ?_)
    rw [Env.isStatic] at hstatic
    simp [CodeUnit.memberPieces, hstatic]
  · apply ends_get_bind
    intro m _
    dsimp only
    split
    · exact ends_pure trivial
    · exact ends_fail

/-- A method that is read is the method that is named. -/
theorem ends_readMember (receiver : Option ObjectRef) (m : Member)
    (hm : ∀ p ∈ env.unit.memberPieces m, A p) :
    Ends starved d (fun v => ∀ id, m = .method id → ∃ this, v = .method id this)
      (readMember env short receiver m) (readMember env long receiver m) := by
  cases m with
  | field id =>
    refine (ends_readField hentry receiver id hm).mono fun v _ i hi => ?_
    cases hi
  | method id =>
    refine ends_pure fun i hi => ?_
    cases hi
    exact ⟨_, rfl⟩

/-- Reading a place ends if its pieces are those that end. -/
theorem ends_read {place : Place} (hplace : place.Within env A) :
    Ends starved d (fun _ => True) (place.read env short) (place.read env long) := by
  cases place with
  | localVar id => exact ends_getLocal id
  | argument id => exact ends_getArg id
  | field receiver id => exact ends_readField hentry receiver id hplace
  | element ref index => exact ends_get_bind fun _ _ => ends_pure trivial

/-- The values of parameters that no argument is given for. -/
theorem ends_defaultArgs (m : MethodDef) (given : Nat) (this : Option ObjectRef) (id : MethodId)
    (hid : A (.defaults id)) (params : List ParamDef)
    (hparams : ∀ p ∈ params, p ∈ (env.unit.getMethod id).params.toList) :
    Ends starved d (fun _ => True) (defaultArgs short m given this params)
      (defaultArgs long m given this params) := by
  induction params with
  | nil => exact ends_pure trivial
  | cons p rest ih =>
    obtain ⟨hp, hrest⟩ := List.forall_mem_cons.1 hparams
    unfold defaultArgs
    cases hdefault : p.default with
    | none => exact ends_fail
    | some e =>
      have hcode : e ∈ env.unit.code (.defaults id) :=
        List.mem_filterMap.2 ⟨p, hp, hdefault⟩
      apply Ends.bind (hentry.value _ hid e hcode _)
      intro value _
      apply Ends.bind (ih hrest)
      exact fun values _ => ends_pure trivial

/-- Binding arguments ends if the defaults of the method do. -/
theorem ends_bindArgs (id : MethodId) (hid : A (.defaults id)) (this : Option ObjectRef)
    (args : List Value) :
    Ends starved d (fun _ => True) (bindArgs short (env.unit.getMethod id) this args)
      (bindArgs long (env.unit.getMethod id) this args) := by
  unfold bindArgs
  refine ends_stop_or fun _ => ?_
  apply Ends.bind
    (ends_defaultArgs hentry _ _ this id hid _ fun p hp => List.mem_of_mem_drop hp)
  exact fun values _ => ends_pure trivial

omit hentry in
/-- Checking that a method is bound ends. -/
theorem ends_checkBound (m : MethodDef) :
    Ends starved d (fun _ => True) (checkBound env m) (checkBound env m) := by
  unfold checkBound
  dsimp only
  refine ends_stop_or fun _ => ?_
  split
  · exact ends_fail
  · exact ends_pure trivial

/-- A method is called, and its body runs one call deeper if the depth allows for it. -/
theorem ends_call (id : MethodId) (hid : id < env.unit.methods.size → A (.defaults id))
    (receiver : Option ObjectRef) (args : List Value) :
    Ends starved d (fun _ => True) (call env short id receiver args)
      (call env long id receiver args) := by
  unfold call
  apply ends_get_bind
  intro m hm
  refine ends_stop_or fun hdepth => ?_
  apply Ends.bind (ends_checkBound _)
  intro _ _
  cases hbody : (env.unit.getMethod id).body with
  | none => exact ends_fail
  | some body =>
    -- what is no method of the unit has no body
    have hlt : id < env.unit.methods.size := by
      by_contra hid
      rw [CodeUnit.getMethod, Array.getD, dif_neg hid] at hbody
      cases hbody
    apply Ends.bind (ends_bindArgs hentry id (hid hlt) _ args)
    intro values _
    rw [hm, not_le] at hdepth
    apply Ends.bind (hentry.body hdepth id body hbody _).deeper
    intro flow _
    cases flow with
    | normal => exact ends_pure trivial
    | ret value => exact ends_pure trivial

/-- The fields of a new object. -/
theorem ends_initFields (ref : ObjectRef) (ids : List FieldId)
    (hids : ∀ id ∈ ids, (env.unit.getField id).modifiers.isStatic = false → A (.firstValue id)) :
    Ends starved d (fun _ => True) (initFields env short ref ids)
      (initFields env long ref ids) := by
  induction ids with
  | nil => exact ends_pure trivial
  | cons id rest ih =>
    obtain ⟨hid, hrest⟩ := List.forall_mem_cons.1 hids
    unfold initFields
    dsimp only
    cases hstatic : (env.unit.getField id).modifiers.isStatic with
    | true => exact ih hrest
    | false =>
      apply ends_firstValue_bind hentry id (hid hstatic) { this := some ref }
      intro value
      apply Ends.bind (ends_onStore _)
      exact fun _ _ => ih hrest

/-- Constructing an object ends if the initializers of its class do. -/
theorem ends_newObject (owner : ClassId) (howner : ∀ p ∈ env.unit.classPieces owner, A p) :
    Ends starved d (fun _ => True) (newObject env short owner) (newObject env long owner) := by
  apply Ends.bind (ends_onStore _)
  intro ref _
  refine Ends.bind (ends_initFields hentry ref _ fun id hid hstatic => howner _ ?_)
    fun _ (_ : True) => ends_pure trivial
  exact List.mem_map.2 ⟨id, List.mem_filter.2 ⟨hid, by simp [hstatic]⟩, rfl⟩

end Members

/-- Writing a place ends, as it enters nothing. -/
theorem ends_write (env : Env) (place : Place) (value : Value) :
    Ends starved d (fun _ => True) (place.write env value) (place.write env value) := by
  cases place with
  | localVar id => exact ends_setLocal id value
  | argument id => exact ends_setArg id value
  | field receiver id =>
    change Ends starved d _ (writeField env receiver id value) (writeField env receiver id value)
    unfold writeField
    split
    · exact ends_setStatic id value
    · split
      · exact ends_onStore _
      · exact ends_fail
  | element ref index => exact ends_onStore fun s => ((), s.setItem ref index value)

/-- The receiver of a member, where the target has a value. -/
theorem ends_valueReceiver (env : Env) {x y : Eval Value} (hxy : Ends starved d (fun _ => True) x y)
    (m : Member) :
    Ends starved d (fun _ => True)
      (do
        match ← x with
        | .object ref => return some ref
        | value =>
          if env.isStatic m then return none
          if let .null := value then fail (.nullReference (env.unit.memberName m))
          fail (.typeMismatch "object" value.kind))
      (do
        match ← y with
        | .object ref => return some ref
        | value =>
          if env.isStatic m then return none
          if let .null := value then fail (.nullReference (env.unit.memberName m))
          fail (.typeMismatch "object" value.kind)) := by
  apply Ends.bind hxy
  intro value _
  cases value with
  | object ref => exact ends_pure trivial
  | null =>
    dsimp only
    split
    · exact ends_pure trivial
    · exact Ends.bind (Q := fun _ => False) ends_fail fun _ h => h.elim
  | _ =>
    dsimp only
    split
    · exact ends_pure trivial
    · exact ends_fail

/-- Finding the receiver of a member ends if its target does. -/
theorem ends_receiverOf (env : Env) (target : Expr) {x y : Eval Value}
    (hxy : Ends starved d (fun _ => True) x y) (m : Member) :
    Ends starved d (fun _ => True) (receiverOf env target x m) (receiverOf env target y m) := by
  unfold receiverOf
  dsimp only
  split
  · exact ends_ite (ends_pure trivial) (ends_valueReceiver env hxy m)
  · exact ends_valueReceiver env hxy m

/-- The place of an element. -/
theorem ends_elementOf (env : Env) (A : Piece → Prop) {array array' index index' : Eval Value}
    (harray : Ends starved d (fun _ => True) array array')
    (hindex : Ends starved d (fun _ => True) index index') :
    Ends starved d (Place.Within env A) (elementOf array index) (elementOf array' index') := by
  apply Ends.bind harray
  intro value _
  cases value with
  | array ref =>
    apply Ends.bind hindex
    intro value _
    apply Ends.bind (ends_asInt value)
    intro i _
    apply ends_get_bind
    intro m _
    dsimp only
    split
    · exact ends_pure trivial
    · exact ends_fail
  | _ => exact ends_fail

end ExpLang.Evaluation
