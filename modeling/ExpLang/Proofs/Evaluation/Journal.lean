import ExpLang.Evaluation.Run
import Mathlib.Tactic.ByContra

/-!
# What steps do to the fields of classes

A machine knows what value a field of a class has, and not how it came by it. A `Journal` says what was
done to these fields: a first value began to be found, a field got its first value, it was assigned to, it
was read. A `Chronicle` of a step gives for each machine what the step does there, such that the journal
goes on to fit the machine: a first value is only looked for while the field has none, and a field is read
as what it got last. The chronicle of steps one after the other is put together from theirs, so there is
one for each step of a running program, which follows the step; only fields of classes add something.
-/

namespace ExpLang.Evaluation

open Resolved

variable {α β : Type} {id : FieldId}

/-- Something that is done to a field of a class. -/
inductive FieldEvent where
  /-- Its first value begins to be found. -/
  | begins (id : FieldId)
  /-- It gets its first value. -/
  | settles (id : FieldId) (value : Value)
  /-- It is assigned to. -/
  | assigns (id : FieldId) (value : Value)
  /-- It is read. -/
  | reads (id : FieldId) (value : Value)
  deriving Repr, Inhabited

/-- The value that a field gets. -/
def FieldEvent.gives? (id : FieldId) : FieldEvent → Option Value
  | settles other value | assigns other value => if other = id then some value else none
  | begins _ | reads _ _ => none

/-- Whether the first value of a field begins to be found. -/
def FieldEvent.isBegin (id : FieldId) : FieldEvent → Bool
  | begins other => other == id
  | _ => false

/-- What was done to the fields of classes, the latest first. -/
abbrev Journal := List FieldEvent

namespace Journal

/-- The value that a field got last. -/
def valueOf (id : FieldId) (j : Journal) : Option Value := j.findSome? (·.gives? id)

/-- How often the first value of a field began to be found. -/
def begun (id : FieldId) (j : Journal) : Nat := j.countP (·.isBegin id)

/-- The first value of a field began to be found, and it began again before the field had got a value. -/
def ComesBack (id : FieldId) (j : Journal) : Prop :=
  ∃ later between earlier, j = later ++ .begins id :: (between ++ .begins id :: earlier) ∧
    ∀ event ∈ between, event.gives? id = none

/-- A first value is looked for only while the field has none, and a field is read as what it got
last. -/
def Lawful : Journal → Prop
  | [] => True
  | .begins id :: earlier => valueOf id earlier = none ∧ Lawful earlier
  | .reads id value :: earlier => valueOf id earlier = some value ∧ Lawful earlier
  | .settles _ _ :: earlier | .assigns _ _ :: earlier => Lawful earlier

/-- A journal is lawful, and the fields of classes have the values that they got last. -/
structure Fits (j : Journal) (m : Machine) : Prop where
  lawful : j.Lawful
  lookup : ∀ id, m.statics.lookup id = j.valueOf id

/-- What was first in a lawful journal is lawful. -/
theorem Lawful.of_append {later earlier : Journal} (h : Lawful (later ++ earlier)) :
    earlier.Lawful := by
  induction later with
  | nil => exact h
  | cons event later ih =>
    cases event with
    | begins _ | reads _ _ => exact ih h.2
    | settles _ _ | assigns _ _ => exact ih h

/-- A first value is looked for before the field gets any. -/
theorem Lawful.begins_first {later earlier : Journal} (h : Lawful (later ++ .begins id :: earlier)) :
    ∀ event ∈ earlier, event.gives? id = none :=
  List.findSome?_eq_none_iff.1 h.of_append.1

/-- A field is read as what it was read before if it got no value in between. -/
theorem Lawful.reads_eq {later between earlier : Journal} {v w : Value}
    (h : Lawful (later ++ .reads id w :: (between ++ .reads id v :: earlier)))
    (hbetween : ∀ event ∈ between, event.gives? id = none) : v = w := by
  obtain ⟨hw, hrest⟩ := h.of_append
  have hv : valueOf id earlier = some v := hrest.of_append.1
  rw [valueOf, List.findSome?_append, List.findSome?_eq_none_iff.2 hbetween, Option.none_or] at hw
  exact Option.some.inj (hv.symm.trans hw)

/-- An event that begins a field is the beginning of it. -/
theorem eq_begins_of_isBegin {event : FieldEvent} (h : event.isBegin id = true) :
    event = .begins id := by
  unfold FieldEvent.isBegin at h
  split at h
  · rw [beq_iff_eq.1 h]
  · cases h

/-- What began twice is split at two beginnings. -/
theorem exists_begins_of_one_lt {j : Journal} (h : 1 < j.begun id) :
    ∃ later between earlier, j = later ++ .begins id :: (between ++ .begins id :: earlier) := by
  induction j with
  | nil => cases h
  | cons event rest ih =>
    rw [begun, List.countP_cons] at h
    split at h
    · rename_i hfirst
      obtain ⟨other, hmem, hother⟩ := List.countP_pos_iff.1 (Nat.lt_of_succ_lt_succ h)
      obtain ⟨between, earlier, rfl⟩ := List.append_of_mem hmem
      rw [eq_begins_of_isBegin hfirst, eq_begins_of_isBegin hother]
      exact ⟨[], between, earlier, rfl⟩
    · obtain ⟨later, between, earlier, rfl⟩ := ih h
      exact ⟨event :: later, between, earlier, rfl⟩

/-- A first value is looked for once, if that does not come back to itself. -/
theorem Lawful.begun_le_one {j : Journal} (h : j.Lawful) (hid : ¬ j.ComesBack id) :
    j.begun id ≤ 1 := by
  by_contra hmore
  obtain ⟨later, between, earlier, rfl⟩ := exists_begins_of_one_lt (Nat.lt_of_not_le hmore)
  exact hid ⟨later, between, earlier, rfl, fun event hevent =>
    h.begins_first event (List.mem_append_left _ hevent)⟩

/-- The empty journal fits a new machine. -/
theorem fits_new : Fits [] {} := ⟨trivial, fun _ => rfl⟩

section Fits

variable {j : Journal} {m : Machine}

/-- What else there is in a machine makes no difference. -/
theorem Fits.of_statics {m' : Machine} (h : j.Fits m) (heq : m'.statics = m.statics) : j.Fits m' :=
  ⟨h.lawful, fun id => heq ▸ h.lookup id⟩

/-- A journal that fits goes on with the beginning of a field without a value. -/
theorem Fits.begins (h : j.Fits m) (hid : m.statics.lookup id = none) :
    Fits (.begins id :: j) m :=
  ⟨⟨(h.lookup id).symm.trans hid, h.lawful⟩, h.lookup⟩

/-- A journal that fits goes on with the reading of a field with a value. -/
theorem Fits.reads (h : j.Fits m) {value : Value} (hid : m.statics.lookup id = some value) :
    Fits (.reads id value :: j) m :=
  ⟨⟨(h.lookup id).symm.trans hid, h.lawful⟩, h.lookup⟩

/-- A field gets a value. -/
theorem Fits.gives (h : j.Fits m) {event : FieldEvent} {value : Value}
    (hevent : event = .settles id value ∨ event = .assigns id value) :
    Fits (event :: j) { m with statics := m.statics.set id value } := by
  refine ⟨?_, fun other => ?_⟩
  · rcases hevent with rfl | rfl <;> exact h.lawful
  · have hgives : event.gives? other = if id = other then some value else none := by
      rcases hevent with rfl | rfl <;> rfl
    rw [valueOf, List.findSome?_cons, hgives]
    by_cases hid : id = other
    · rw [if_pos hid, ← hid]
      exact FieldValues.lookup_set_self id value m.statics
    · rw [if_neg hid, FieldValues.lookup_set_of_ne (Ne.symm hid)]
      exact h.lookup other

end Fits

end Journal

/-! ## Steps one after the other -/

/-- What a step does to the fields of classes on each machine. -/
structure Chronicle (x : Eval α) where
  /-- What it does, the latest first. -/
  events : Machine → Journal
  /-- A journal that fits before fits with it afterwards. -/
  fits : ∀ {m j}, j.Fits m → (events m ++ j).Fits (x m).2

namespace Chronicle

/-- A step that leaves the fields of classes alone, and does not read them either. -/
def quiet {x : Eval α} (h : ∀ m, (x m).2.statics = m.statics) : Chronicle x where
  events _ := []
  fits hj := hj.of_statics (h _)

def pure (a : α) : Chronicle (Pure.pure a : Eval α) := quiet fun _ => rfl

def fail (e : EvalError) : Chronicle (Evaluation.fail e : Eval α) := quiet fun _ => rfl

def bind {x : Eval α} {f : α → Eval β} (hx : Chronicle x) (hf : ∀ a, Chronicle (f a)) :
    Chronicle (x >>= f) where
  events m := match x m with
    | (.ok a, m') => (hf a).events m' ++ hx.events m
    | (.error _, _) => hx.events m
  fits {m j} hj := by
    have hfirst := hx.fits hj
    cases hrun : x m with
    | mk r m' =>
      rw [bind_of_run hrun]
      rw [hrun] at hfirst
      cases r with
      | ok a =>
        dsimp only
        rw [List.append_assoc]
        exact (hf a).fits hfirst
      | error stop => exact hfirst

/-- A step that looks at the machine. -/
def look {f : Machine → Eval β} (hf : ∀ m, Chronicle (f m)) : Chronicle (get >>= f) where
  events m := (hf m).events m
  fits {m _} hj := (hf m).fits hj

def ite {c : Prop} [Decidable c] {x y : Eval α} (hx : Chronicle x) (hy : Chronicle y) :
    Chronicle (if c then x else y) where
  events m := if c then hx.events m else hy.events m
  fits hj := by
    split
    · exact hx.fits hj
    · exact hy.fits hj

/-- A step that depends on whether there is an expression. -/
def option {x : Eval β} {f : Expr → Eval β} (hx : Chronicle x) (hf : ∀ e, Chronicle (f e)) :
    ∀ choice : Option Expr, Chronicle (match choice with
      | some e => f e
      | none => x)
  | some e => hf e
  | none => hx

def inFrame {x : Eval α} (hx : Chronicle x) (frame : Frame) : Chronicle (inFrame frame x) where
  events m := hx.events { m with frame := frame }
  fits {m _} hj := (hx.fits (m := { m with frame := frame }) (hj.of_statics rfl)).of_statics rfl

def deeper {x : Eval α} (hx : Chronicle x) : Chronicle (deeper x) where
  events m := hx.events { m with depth := m.depth + 1 }
  fits {m _} hj := (hx.fits (m := { m with depth := m.depth + 1 }) (hj.of_statics rfl)).of_statics rfl

/-! ## Values and slots -/

def ofStore (f : Store → α × Store) : Chronicle (onStore f) := quiet fun _ => rfl

def ofResult : ∀ r : Except EvalError α, Chronicle (ofResult r)
  | .ok a => pure a
  | .error e => fail e

def ofAsBool (value : Value) : Chronicle (asBool value) := quiet fun _ => by
  unfold asBool
  split <;> rfl

def ofAsInt (value : Value) : Chronicle (asInt value) := quiet fun _ => by
  unfold asInt
  split <;> rfl

def ofReadSlot (slots : Array Value) (id : Nat) : Chronicle (readSlot slots id) := quiet fun _ => by
  unfold readSlot
  cases slots[id]? <;> rfl

def ofWriteSlot (slots : Array Value) (id : Nat) (value : Value) :
    Chronicle (writeSlot slots id value) := quiet fun _ => by
  unfold writeSlot
  split <;> rfl

def ofGetLocal (id : LocalId) : Chronicle (getLocal id) := look fun _ => ofReadSlot _ _

def ofGetArg (id : ParamId) : Chronicle (getArg id) := look fun _ => ofReadSlot _ _

def ofSetLocal (id : LocalId) (value : Value) : Chronicle (setLocal id value) :=
  look fun _ => (ofWriteSlot _ _ _).bind fun _ => quiet fun _ => rfl

def ofSetArg (id : ParamId) (value : Value) : Chronicle (setArg id value) :=
  look fun _ => (ofWriteSlot _ _ _).bind fun _ => quiet fun _ => rfl

/-! ## Members -/

/-- What is entered has chronicles. -/
structure OfEntry (entry : Entry) where
  value : ∀ frame e, Chronicle (entry.value frame e)
  body : ∀ frame s, Chronicle (entry.body frame s)

section Members

variable (env : Env) {entry : Entry} (hentry : OfEntry entry)

/-- How a field of a class gets its first value. -/
def firstValue (entry : Entry) (id : FieldId) : Eval Value :=
  match (env.unit.getField id).init with
  | some init => entry.value {} init
  | none => Pure.pure (env.initialValue (env.unit.getField id).type)

/-- What finding the first value of a field of a class does. -/
def firstValueEvents (id : FieldId) (m : Machine) : Journal :=
  match (env.unit.getField id).init with
  | some init => (hentry.value {} init).events m ++ [.begins id]
  | none => []

/-- The events of a first value fit the machine that it leaves. -/
theorem fits_firstValueEvents {m : Machine} {j : Journal} (hj : j.Fits m)
    (hid : m.statics.lookup id = none) :
    (firstValueEvents env hentry id m ++ j).Fits (firstValue env entry id m).2 := by
  unfold firstValueEvents firstValue
  cases (env.unit.getField id).init with
  | some init =>
    dsimp only
    rw [List.append_assoc]
    exact (hentry.value {} init).fits (hj.begins hid)
  | none => exact hj

/-- A static field with a value is read without running anything. -/
theorem readStatic_of_some {m : Machine} {value : Value} (hid : m.statics.lookup id = some value) :
    readStatic env entry id m = (.ok value, m) := by
  have hrun : (get : Eval Machine) m = (.ok m, m) := rfl
  rw [readStatic, bind_of_ok hrun, hid]
  rfl

/-- A static field without a value is read by finding its first value and storing it. -/
theorem readStatic_of_none {m : Machine} (hid : m.statics.lookup id = none) :
    readStatic env entry id m = (do
      let value ← firstValue env entry id
      modify fun m : Machine => { m with statics := m.statics.set id value }
      return value) m := by
  have hrun : (get : Eval Machine) m = (.ok m, m) := rfl
  rw [readStatic, bind_of_ok hrun, hid, firstValue]
  dsimp only
  cases (env.unit.getField id).init <;> rfl

def ofReadStatic (id : FieldId) : Chronicle (readStatic env entry id) where
  events m := match m.statics.lookup id with
    | some value => [.reads id value]
    | none => match (firstValue env entry id m).1 with
      | .ok value => .reads id value :: .settles id value :: firstValueEvents env hentry id m
      | .error _ => firstValueEvents env hentry id m
  fits {m j} hj := by
    cases hid : m.statics.lookup id with
    | some value =>
      rw [readStatic_of_some env hid]
      exact hj.reads hid
    | none =>
      have hfirst := fits_firstValueEvents env hentry hj hid
      rw [readStatic_of_none env hid]
      cases hrun : firstValue env entry id m with
      | mk r m' =>
        rw [hrun] at hfirst
        rw [bind_of_run hrun]
        cases r with
        | ok value => exact (hfirst.gives (.inl rfl)).reads (FieldValues.lookup_set_self id value _)
        | error stop => exact hfirst

def ofReadField (receiver : Option ObjectRef) (id : FieldId) :
    Chronicle (readField env entry receiver id) :=
  ite (ofReadStatic env hentry id) (look fun m => quiet fun _ => by
    cases receiver.bind (m.store.field? · id) <;> rfl)

/-- A field of a class is assigned to. -/
def ofAssign (id : FieldId) (value : Value) :
    Chronicle (modify fun m => { m with statics := m.statics.set id value } : Eval Unit) where
  events _ := [.assigns id value]
  fits hj := hj.gives (.inr rfl)

def ofWriteField (receiver : Option ObjectRef) (id : FieldId) (value : Value) :
    Chronicle (writeField env receiver id value) :=
  ite (ofAssign id value) (quiet fun _ => by cases receiver <;> rfl)

def ofReadMember (receiver : Option ObjectRef) : ∀ m, Chronicle (readMember env entry receiver m)
  | .field id => ofReadField env hentry receiver id
  | .method _ => pure _

/-- The receiver of a member, where the target has a value. -/
def ofValueReceiver (m : Member) (value : Value) :
    Chronicle (match value with
      | .object ref => Pure.pure (some ref)
      | value => do
        if env.isStatic m then return none
        if let .null := value then Evaluation.fail (.nullReference (env.unit.memberName m))
        Evaluation.fail (.typeMismatch "object" value.kind) : Eval (Option ObjectRef)) := by
  cases value with
  | object ref => exact pure _
  | null => exact ite (pure _) (quiet fun _ => rfl)
  | _ => exact ite (pure _) (fail _)

def ofReceiverOf (target : Expr) {x : Eval Value} (hx : Chronicle x) (m : Member) :
    Chronicle (receiverOf env target x m) := by
  cases target with
  | classRef id info => exact ite (pure _) (hx.bind (ofValueReceiver env m))
  | _ => exact hx.bind (ofValueReceiver env m)

def ofElementOf {array index : Eval Value} (harray : Chronicle array) (hindex : Chronicle index) :
    Chronicle (elementOf array index) :=
  harray.bind fun value => by
    cases value with
    | array ref =>
      exact hindex.bind fun i => (ofAsInt i).bind fun i => look fun m => ite (pure _) (fail _)
    | _ => exact fail _

def ofRead : ∀ place : Place, Chronicle (place.read env entry)
  | .localVar id => ofGetLocal id
  | .argument id => ofGetArg id
  | .field receiver id => ofReadField env hentry receiver id
  | .element _ _ => look fun _ => pure _

def ofWrite : ∀ (place : Place) (value : Value), Chronicle (place.write env value)
  | .localVar id, value => ofSetLocal id value
  | .argument id, value => ofSetArg id value
  | .field receiver id, value => ofWriteField env receiver id value
  | .element ref index, value => ofStore fun s => ((), s.setItem ref index value)

def ofCheckBound (m : MethodDef) : Chronicle (checkBound env m) :=
  ite (quiet fun _ => rfl) (quiet fun _ => by
    cases m.locals.toList.find? (env.unit.types.isUnbound ·.type) <;> rfl)

def ofDefaultArgs (m : MethodDef) (given : Nat) (this : Option ObjectRef) :
    ∀ params, Chronicle (defaultArgs entry m given this params)
  | [] => pure _
  | p :: rest => by
    dsimp only [defaultArgs]
    cases p.default with
    | none => exact fail _
    | some e =>
      exact (hentry.value _ e).bind fun _ => (ofDefaultArgs m given this rest).bind fun _ => pure _

def ofBindArgs (m : MethodDef) (this : Option ObjectRef) (args : List Value) :
    Chronicle (bindArgs entry m this args) :=
  ite (quiet fun _ => rfl) ((ofDefaultArgs hentry m _ this _).bind fun _ => pure _)

def ofCall (id : MethodId) (receiver : Option ObjectRef) (args : List Value) :
    Chronicle (call env entry id receiver args) :=
  look fun _ => ite (quiet fun _ => rfl) ((ofCheckBound env _).bind fun _ => by
    cases (env.unit.getMethod id).body with
    | none => exact fail _
    | some body =>
      exact (ofBindArgs hentry _ _ args).bind fun _ => (hentry.body _ body).deeper.bind fun flow => by
        cases flow <;> exact pure _)

def ofInitFields (ref : ObjectRef) : ∀ ids, Chronicle (initFields env entry ref ids)
  | [] => pure _
  | _ :: rest => ite (ofInitFields ref rest)
    (option ((pure _).bind fun _ => (ofStore _).bind fun _ => ofInitFields ref rest)
      (fun e => (hentry.value _ e).bind fun _ => (ofStore _).bind fun _ => ofInitFields ref rest) _)

def ofNewObject (owner : ClassId) : Chronicle (newObject env entry owner) :=
  (ofStore _).bind fun _ => (ofInitFields env hentry _ _).bind fun _ => pure _

end Members

end Chronicle

end ExpLang.Evaluation
