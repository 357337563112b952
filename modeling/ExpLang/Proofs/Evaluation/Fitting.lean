import ExpLang.Evaluation.Machine

/-!
# Values that fit a program

A method is a value, and a program can keep it and call it later. A value fits a program with some
number of methods if it is none or one of these. A machine fits if all values in it do: those in
arrays, in fields of objects and classes, and in the frame. Every change that a step makes to a
machine keeps it fitting if the values that are put in fit. Operators on fitting values give fitting
values, and their errors are those of the program.
-/

namespace ExpLang.Evaluation

open Resolved

variable {n : Nat} {value : Value}

/-- A value is no method, or one of the first `n`. -/
def Value.Fits (n : Nat) : Value → Prop
  | .method id _ => id < n
  | _ => True

/-- All values of fields fit. -/
def FieldValues.Fits (n : Nat) (fields : FieldValues) : Prop := ∀ p ∈ fields, p.2.Fits n

/-- All values of a store fit. -/
structure Store.Fits (n : Nat) (s : Store) : Prop where
  arrays : ∀ items ∈ s.arrays, ∀ v ∈ items, v.Fits n
  objects : ∀ o ∈ s.objects, FieldValues.Fits n o.fields

/-- All values of a frame fit. -/
structure Frame.Fits (n : Nat) (f : Frame) : Prop where
  args : ∀ v ∈ f.args, v.Fits n
  locals : ∀ v ∈ f.locals, v.Fits n

/-- All values of a machine fit. -/
structure Machine.Fits (n : Nat) (m : Machine) : Prop where
  store : m.store.Fits n
  statics : FieldValues.Fits n m.statics
  frame : m.frame.Fits n

/-! ## Reading and writing -/

/-- An item of fitting items fits, and so does what is read past their end. -/
theorem fits_getD {items : Array Value} (h : ∀ v ∈ items, v.Fits n) (i : Nat) :
    (items.getD i .null).Fits n := by
  rw [Array.getD_eq_getD_getElem?]
  cases hi : items[i]? with
  | none => trivial
  | some v => exact h v (Array.mem_of_getElem? hi)

/-- Fitting items with a fitting one set among them fit. -/
theorem fits_setIfInBounds {items : Array Value} (h : ∀ v ∈ items, v.Fits n) (i : Nat)
    (hvalue : value.Fits n) : ∀ v ∈ items.setIfInBounds i value, v.Fits n := by
  intro v hv
  rcases Array.mem_or_eq_of_mem_setIfInBounds hv with hold | rfl
  · exact h v hold
  · exact hvalue

/-- A field's value fits if all field values do. -/
theorem FieldValues.Fits.of_lookup {fields : FieldValues} (h : FieldValues.Fits n fields)
    {id : FieldId} (hvalue : fields.lookup id = some value) : value.Fits n := by
  obtain ⟨l, r, heq, -⟩ := List.lookup_eq_some_iff.1 hvalue
  exact h (id, value) (heq ▸ List.mem_append_right _ List.mem_cons_self)

/-- Field values stay fitting when a fitting value is set. -/
theorem FieldValues.Fits.set {fields : FieldValues} (h : FieldValues.Fits n fields) (id : FieldId)
    (hvalue : value.Fits n) : FieldValues.Fits n (fields.set id value) := by
  induction fields with
  | nil =>
    intro p hp
    cases List.mem_singleton.1 hp
    exact hvalue
  | cons first rest ih =>
    obtain ⟨hfirst, hrest⟩ := List.forall_mem_cons.1 h
    rw [FieldValues.set]
    split
    · exact List.forall_mem_cons.2 ⟨hvalue, hrest⟩
    · exact List.forall_mem_cons.2 ⟨hfirst, ih hrest⟩

namespace Store.Fits

variable {s : Store} (hs : s.Fits n)

include hs

/-- The items of an array of a fitting store fit. -/
theorem items (ref : ArrayRef) : ∀ v ∈ s.items ref, v.Fits n := by
  unfold Store.items
  rw [Array.getD_eq_getD_getElem?]
  cases href : s.arrays[ref]? with
  | none => exact fun v hv => by cases Array.not_mem_empty v hv
  | some items => exact hs.arrays items (Array.mem_of_getElem? href)

/-- The field of an object of a fitting store fits. -/
theorem of_field? {ref : ObjectRef} {id : FieldId} (hvalue : s.field? ref id = some value) :
    value.Fits n := by
  unfold Store.field? Store.getObject at hvalue
  rw [Array.getD_eq_getD_getElem?] at hvalue
  cases href : s.objects[ref]? with
  | none =>
    rw [href] at hvalue
    cases hvalue
  | some o =>
    rw [href] at hvalue
    exact (hs.objects o (Array.mem_of_getElem? href)).of_lookup hvalue

/-- A store with a new array of fitting values fits. -/
theorem newArray {values : List Value} (h : ∀ v ∈ values, v.Fits n) :
    (s.newArray values).2.Fits n := by
  refine ⟨fun items hitems => ?_, hs.objects⟩
  rcases Array.mem_push.1 hitems with hold | rfl
  · exact hs.arrays items hold
  · exact fun v hv => h v (List.mem_toArray.1 hv)

/-- A store with a new object fits, as the object has no values yet. -/
theorem newObject (owner : ClassId) : (s.newObject owner).2.Fits n := by
  refine ⟨hs.arrays, fun o ho => ?_⟩
  rcases Array.mem_push.1 ho with hold | rfl
  · exact hs.objects o hold
  · exact fun _ hp => by cases hp

/-- A store stays fitting when an item is set to a fitting value. -/
theorem setItem (ref : ArrayRef) (i : Nat) (hvalue : value.Fits n) :
    (s.setItem ref i value).Fits n := by
  refine ⟨fun items hitems => ?_, hs.objects⟩
  obtain ⟨k, hk⟩ := Array.getElem?_of_mem hitems
  change (s.arrays.modify ref _)[k]? = some items at hk
  rw [Array.getElem?_modify] at hk
  split at hk
  · obtain ⟨old, hold, rfl⟩ := Option.map_eq_some_iff.1 hk
    exact fits_setIfInBounds (hs.arrays old (Array.mem_of_getElem? hold)) i hvalue
  · exact hs.arrays items (Array.mem_of_getElem? hk)

/-- A store stays fitting when a field is set to a fitting value. -/
theorem setField (ref : ObjectRef) (id : FieldId) (hvalue : value.Fits n) :
    (s.setField ref id value).Fits n := by
  refine ⟨hs.arrays, fun o ho => ?_⟩
  obtain ⟨k, hk⟩ := Array.getElem?_of_mem ho
  change (s.objects.modify ref _)[k]? = some o at hk
  rw [Array.getElem?_modify] at hk
  split at hk
  · obtain ⟨old, hold, rfl⟩ := Option.map_eq_some_iff.1 hk
    exact (hs.objects old (Array.mem_of_getElem? hold)).set id hvalue
  · exact hs.objects o (Array.mem_of_getElem? hk)

end Store.Fits

/-- A new machine is empty. -/
theorem Machine.fits_new (n : Nat) : Machine.Fits n {} where
  store := ⟨fun _ h => absurd h (Array.not_mem_empty _), fun _ h => absurd h (Array.not_mem_empty _)⟩
  statics := fun _ h => by cases h
  frame := ⟨fun _ h => absurd h (Array.not_mem_empty _), fun _ h => absurd h (Array.not_mem_empty _)⟩

/-- The first value of a variable is no method. -/
theorem Env.fits_initialValue (env : Env) (type : TypeId) : (env.initialValue type).Fits n := by
  unfold Env.initialValue
  split <;> trivial

/-! ## Operators -/

/-- An operation gives a fitting value or an error of the program. -/
def ResultFits (n : Nat) : Result → Prop
  | .ok v => v.Fits n
  | .error (.internal _) | .error (.missingSlot _ _) => False
  | .error _ => True

/-- Integer arithmetic gives an integer or an overflow. -/
theorem checked_fits (operation : String) (k : Int) : ResultFits n (checked operation k) := by
  unfold checked
  split <;> trivial

/-- A quotient is an integer or an error of the program. -/
theorem quotient_fits (a b : Int64) : ResultFits n (quotient a b) := by
  unfold quotient
  split
  · trivial
  · exact checked_fits _ _

/-- A remainder is an integer or an error of the program. -/
theorem remainder_fits (a b : Int64) : ResultFits n (remainder a b) := by
  unfold remainder
  split
  · trivial
  · have hquotient := checked_fits (n := n) "remainder" (a.toInt.tdiv b.toInt)
    cases h : checked "remainder" (a.toInt.tdiv b.toInt) with
    | error e =>
      rw [h] at hquotient
      exact hquotient
    | ok _ => exact checked_fits _ _

/-- A power with a natural exponent is an integer or an overflow. -/
theorem naturalPower_fits (base : Int64) (exponent : Nat) :
    ResultFits n (naturalPower base exponent) := by
  unfold naturalPower
  generalize (if base.toInt.natAbs ≤ 1 then min exponent (2 + exponent % 2) else exponent) = k
  dsimp only
  split
  · exact checked_fits _ _
  · trivial

/-- A power is an integer or an overflow. -/
theorem power_fits (a b : Int64) : ResultFits n (power a b) := by
  unfold power
  split
  · exact naturalPower_fits _ _
  · repeat' split
    all_goals trivial

/-- A shift is an integer or an error of the program. -/
theorem shift_fits (operation : String) (places : Int64) (f : Int64 → Int64) :
    ResultFits n (shift operation places f) := by
  unfold shift
  split <;> trivial

/-- A comparison gives an integer. -/
theorem ofOrdering_fits (o : Ordering) : (ofOrdering o).Fits n := by
  cases o <;> trivial

/-- Every binary operator on integers gives a value that fits. -/
theorem intBinary_fits (op : BinaryOp) (a b : Int64) : ResultFits n (intBinary op a b) := by
  unfold intBinary
  split
  case h_1 | h_2 | h_3 => exact checked_fits _ _
  case h_4 => exact quotient_fits a b
  case h_5 => exact remainder_fits a b
  case h_6 => exact power_fits a b
  case h_7 => exact ofOrdering_fits _
  case h_8 | h_9 | h_10 => exact shift_fits _ _ _
  all_goals trivial

/-- Every binary operator on floats gives a value that fits. -/
theorem floatBinary_fits (op : BinaryOp) (a b : Float) : ResultFits n (floatBinary op a b) := by
  unfold floatBinary
  split
  case h_7 => exact ofOrdering_fits _
  all_goals trivial

/-- Every binary operator on booleans gives a value that fits. -/
theorem boolBinary_fits (op : BinaryOp) (a b : Bool) : ResultFits n (boolBinary op a b) := by
  unfold boolBinary
  split <;> trivial

/-- Only an assignment gives one of its operands back. -/
theorem anyBinary_fits (op : BinaryOp) (left : Value) {right : Value} (hright : right.Fits n) :
    ResultFits n (anyBinary op left right) := by
  unfold anyBinary
  split
  · exact hright
  all_goals trivial

/-- Every binary operator gives a value that fits if its right side does. -/
theorem evalBinary_fits (op : BinaryOp) (left : Value) {right : Value} (hright : right.Fits n) :
    ResultFits n (evalBinary op left right) := by
  unfold evalBinary plainBinary
  split
  · exact intBinary_fits _ _ _
  · exact floatBinary_fits _ _ _
  · exact boolBinary_fits _ _ _
  · split
    · trivial
    · exact anyBinary_fits _ _ hright
  · exact anyBinary_fits _ _ hright

/-- A step up or down gives a number or a type error. -/
theorem step_fits (symbol : String) (delta : Int) (value : Value) :
    ResultFits n (step symbol delta value) := by
  unfold step
  split
  · exact checked_fits _ _
  all_goals trivial

/-- Every prefix operator gives a value that fits. -/
theorem evalPrefix_fits (op : PrefixOp) (value : Value) : ResultFits n (evalPrefix op value) := by
  unfold evalPrefix
  split
  case h_3 => exact checked_fits _ _
  case h_7 | h_8 => exact step_fits _ _ _
  all_goals trivial

/-- Every postfix operator gives a value that fits. -/
theorem evalPostfix_fits (op : PostfixOp) (value : Value) :
    ResultFits n (evalPostfix op value) := by
  cases op <;> exact step_fits _ _ _

end ExpLang.Evaluation
