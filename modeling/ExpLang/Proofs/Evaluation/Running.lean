import ExpLang.Evaluation.Session
import ExpLang.Proofs.Evaluation.Safety

/-!
# Running programs never finds a fault

Code that names methods of its unit only is safe to run: by induction on the code where what it
enters is safe, and by induction on the fuel for all code of the unit. So a program whose unit is in
order and whose types are known runs without a fault, whatever its arguments are and however deep its
calls may be nested.
-/

namespace ExpLang.Evaluation

open Resolved

variable {α : Type} {n : Nat}

/-! ## Expressions -/

section Expressions

variable {env : Env} {entry : Entry}

mutual

/-- An expression that names methods of the unit has a fitting value. -/
theorem safe_eval (henv : env.unit.Complete) (hentry : entry.Safe env.unit.methods.size) (e : Expr)
    (he : Below e.methods env.unit.methods.size) :
    Safe env.unit.methods.size (Value.Fits env.unit.methods.size) (eval env entry e) := by
  cases e with
  | literal value info => cases value <;> exact safe_pure trivial
  | localVar id info => exact safe_getLocal id
  | argument id info => exact safe_getArg id
  | member m info => exact safe_get_bind fun _ _ => safe_readMember henv hentry _ he
  | access target m info =>
    rw [Expr.methods, below_append] at he
    rw [eval]
    apply Safe.bind (safe_receiverOf env target (safe_eval henv hentry target he.1) m)
    exact fun receiver _ => safe_readMember henv hentry receiver he.2
  | this info =>
    rw [eval]
    apply safe_get_bind
    intro m _
    split
    · exact safe_pure trivial
    · exact safe_fail
  | classRef id info => exact safe_fail
  | index target key info =>
    rw [Expr.methods, below_append] at he
    rw [eval]
    have hplace := safe_elementOf (safe_eval henv hentry target he.1) (safe_eval henv hentry key he.2)
    apply hplace.bind
    exact fun place _ => safe_read henv hentry place
  | call callee args info =>
    rw [Expr.methods, below_append] at he
    rw [eval]
    apply Safe.bind (safe_eval henv hentry callee he.1)
    intro value hvalue
    apply Safe.bind (safe_evalAll henv hentry args he.2)
    intro values hvalues
    cases value with
    | method id receiver => exact safe_call henv hentry hvalue receiver hvalues
    | _ => exact safe_fail
  | new owner args info =>
    rw [eval]
    apply Safe.bind (safe_evalAll henv hentry args he)
    intro _ _
    apply Safe.bind (safe_newObject henv hentry owner)
    exact fun _ _ => safe_pure trivial
  | pre op operand info =>
    rw [eval]
    split
    · apply Safe.bind (safe_placeOf henv hentry operand he)
      intro place _
      apply Safe.bind (safe_read henv hentry place)
      intro old _
      apply Safe.bind (safe_ofResult (evalPrefix_fits op old))
      intro value hvalue
      apply Safe.bind (safe_write env place hvalue)
      exact fun _ _ => safe_pure hvalue
    · apply Safe.bind (safe_eval henv hentry operand he)
      exact fun value _ => safe_ofResult (evalPrefix_fits op value)
  | post op operand info =>
    rw [eval]
    apply Safe.bind (safe_placeOf henv hentry operand he)
    intro place _
    apply Safe.bind (safe_read henv hentry place)
    intro old hold
    apply Safe.bind (safe_ofResult (evalPostfix_fits op old))
    intro value hvalue
    apply Safe.bind (safe_write env place hvalue)
    exact fun _ _ => safe_pure hold
  | binary op left right info =>
    rw [Expr.methods, below_append] at he
    have hleft := safe_eval henv hentry left he.1
    have hright := safe_eval henv hentry right he.2
    have hplace := safe_placeOf henv hentry left he.1
    by_cases hand : op = .and
    · rw [hand, eval]
      exact hleft.bind fun v _ => (safe_asBool v).bind fun b _ => safe_ite
        (hright.bind fun w _ => (safe_asBool w).bind fun _ _ => safe_pure trivial)
        (safe_pure trivial)
    by_cases hor : op = .or
    · rw [hor, eval]
      exact hleft.bind fun v _ => (safe_asBool v).bind fun b _ => safe_ite (safe_pure trivial)
        (hright.bind fun w _ => (safe_asBool w).bind fun _ _ => safe_pure trivial)
    by_cases hassign : op = .assign
    · rw [hassign, eval]
      apply hplace.bind
      intro place _
      apply hright.bind
      intro value hvalue
      apply Safe.bind (safe_write env place hvalue)
      exact fun _ _ => safe_pure hvalue
    rw [eval]
    · split
      · apply hplace.bind
        intro place _
        apply Safe.bind (safe_read henv hentry place)
        intro old _
        apply hright.bind
        intro given hgiven
        apply Safe.bind (safe_ofResult (evalBinary_fits op old hgiven))
        intro value hvalue
        apply Safe.bind (safe_write env place hvalue)
        exact fun _ _ => safe_pure hvalue
      · apply hleft.bind
        intro value _
        apply hright.bind
        exact fun given hgiven => safe_ofResult (evalBinary_fits op value hgiven)
    · exact hand
    · exact hor
    · exact hassign
  | unknown name info => exact safe_fail

/-- Expressions from left to right. -/
theorem safe_evalAll (henv : env.unit.Complete) (hentry : entry.Safe env.unit.methods.size)
    (es : List Expr) (hes : Below (Expr.methodsAll es) env.unit.methods.size) :
    Safe env.unit.methods.size (fun values => ∀ v ∈ values, v.Fits env.unit.methods.size)
      (evalAll env entry es) := by
  cases es with
  | nil => exact safe_pure fun _ h => by cases h
  | cons e rest =>
    rw [Expr.methodsAll, below_append] at hes
    rw [evalAll]
    apply Safe.bind (safe_eval henv hentry e hes.1)
    intro value hvalue
    apply Safe.bind (safe_evalAll henv hentry rest hes.2)
    exact fun values hvalues => safe_pure (List.forall_mem_cons.2 ⟨hvalue, hvalues⟩)

/-- The place that an expression stands for. -/
theorem safe_placeOf (henv : env.unit.Complete) (hentry : entry.Safe env.unit.methods.size) (e : Expr)
    (he : Below e.methods env.unit.methods.size) :
    Safe env.unit.methods.size (fun _ => True) (placeOf env entry e) := by
  cases e with
  | localVar id info => exact safe_pure trivial
  | argument id info => exact safe_pure trivial
  | member m info =>
    cases m with
    | field id => exact safe_get_bind fun _ _ => safe_pure trivial
    | method id => exact safe_fail
  | access target m info =>
    rw [Expr.methods, below_append] at he
    cases m with
    | field id =>
      rw [placeOf]
      apply Safe.bind (safe_receiverOf env target (safe_eval henv hentry target he.1) _)
      exact fun _ _ => safe_pure trivial
    | method id => exact safe_fail
  | index target key info =>
    rw [Expr.methods, below_append] at he
    rw [placeOf]
    exact safe_elementOf (safe_eval henv hentry target he.1) (safe_eval henv hentry key he.2)
  | unknown name info => exact safe_fail
  | _ => exact safe_fail

end

end Expressions

/-! ## Statements -/

/-- A loop over fitting values is safe when its body is. -/
theorem safe_forEach (var : LocalId) {body : Eval Flow} (hbody : Safe n (Flow.Fits n) body)
    (values : List Value) (hvalues : ∀ v ∈ values, v.Fits n) :
    Safe n (Flow.Fits n) (forEach var body values) := by
  induction values with
  | nil => exact safe_pure trivial
  | cons value rest ih =>
    obtain ⟨hvalue, hrest⟩ := List.forall_mem_cons.1 hvalues
    apply Safe.bind (safe_setLocal var hvalue)
    intro _ _
    apply hbody.bind
    intro flow hflow
    cases flow with
    | normal => exact ih hrest
    | ret value => exact safe_pure hflow

/-- A counting loop is safe when its body is. -/
theorem safe_countUp (var : LocalId) {body : Eval Flow} (hbody : Safe n (Flow.Fits n) body)
    (count : Nat) (i : Int) : Safe n (Flow.Fits n) (countUp var body count i) := by
  induction count generalizing i with
  | zero => exact safe_pure trivial
  | succ count ih =>
    have hvalue : (Value.int (Int64.ofInt i)).Fits n := trivial
    apply Safe.bind (safe_setLocal var hvalue)
    intro _ _
    apply hbody.bind
    intro flow hflow
    cases flow with
    | normal => exact ih (i + 1)
    | ret value => exact safe_pure hflow

/-- A loop on a condition is safe when its condition and its body are. -/
theorem safe_repeatWhile {cond : Eval Bool} {body : Eval Flow}
    (hcond : Safe n (fun _ => True) cond) (hbody : Safe n (Flow.Fits n) body) (fuel : Nat) :
    Safe n (Flow.Fits n) (repeatWhile cond body fuel) := by
  induction fuel with
  | zero => exact safe_outOfFuel
  | succ fuel ih =>
    apply hcond.bind
    intro holds _
    refine safe_ite (hbody.bind fun flow hflow => ?_) (safe_pure trivial)
    cases flow with
    | normal => exact ih
    | ret value => exact safe_pure hflow

/-- A loop over any value is safe when its body is. -/
theorem safe_forValue (var : LocalId) {body : Eval Flow} (hbody : Safe n (Flow.Fits n) body)
    (value : Value) : Safe n (Flow.Fits n) (forValue var body value) := by
  cases value with
  | range low high => exact safe_countUp var hbody _ _
  | array ref =>
    apply safe_get_bind
    intro m hm
    exact safe_forEach var hbody _ fun v hv => hm.store.items ref v (Array.mem_toList_iff.1 hv)
  | str text =>
    refine safe_forEach var hbody _ fun v hv => ?_
    obtain ⟨c, -, rfl⟩ := List.mem_map.1 hv
    trivial
  | _ => exact safe_fail

section Statements

variable {env : Env} {entry : Entry}

mutual

/-- A statement that names methods of the unit is safe to run. -/
theorem safe_exec (henv : env.unit.Complete) (hentry : entry.Safe env.unit.methods.size) (fuel : Nat)
    (s : Stmt) (hs : Below s.methods env.unit.methods.size) :
    Safe env.unit.methods.size (Flow.Fits env.unit.methods.size) (exec env entry fuel s) := by
  cases s with
  | seq body span => exact safe_execAll henv hentry fuel body hs
  | expr e span =>
    rw [exec]
    apply Safe.bind (safe_eval henv hentry e hs)
    exact fun _ _ => safe_pure trivial
  | ifElse cond thenBranch elseBranch span =>
    cases elseBranch with
    | none =>
      rw [Stmt.methods, below_append] at hs
      rw [exec]
      apply Safe.bind (safe_eval henv hentry cond hs.1)
      intro value _
      apply Safe.bind (safe_asBool value)
      intro holds _
      exact safe_ite (safe_exec henv hentry fuel thenBranch hs.2) (safe_pure trivial)
    | some elseBranch =>
      rw [Stmt.methods, below_append, below_append] at hs
      rw [exec]
      apply Safe.bind (safe_eval henv hentry cond hs.1.1)
      intro value _
      apply Safe.bind (safe_asBool value)
      intro holds _
      exact safe_ite (safe_exec henv hentry fuel thenBranch hs.1.2)
        (safe_exec henv hentry fuel elseBranch hs.2)
  | whileLoop cond body span =>
    rw [Stmt.methods, below_append] at hs
    have hcond := (safe_eval henv hentry cond hs.1).bind fun value _ => safe_asBool value
    rw [exec]
    exact safe_repeatWhile hcond (safe_exec henv hentry fuel body hs.2) fuel
  | forIn var iterable body span =>
    rw [Stmt.methods, below_append] at hs
    rw [exec]
    apply Safe.bind (safe_eval henv hentry iterable hs.1)
    exact fun value _ => safe_forValue var (safe_exec henv hentry fuel body hs.2) value
  | forConst var low high body span =>
    rw [exec]
    exact safe_countUp var (safe_exec henv hentry fuel body hs) _ _
  | forRange var low high body span =>
    rw [Stmt.methods, below_append, below_append] at hs
    rw [exec]
    apply Safe.bind (safe_eval henv hentry low hs.1.1)
    intro first _
    apply Safe.bind (safe_asInt first)
    intro first _
    apply Safe.bind (safe_eval henv hentry high hs.1.2)
    intro last _
    apply Safe.bind (safe_asInt last)
    exact fun last _ => safe_countUp var (safe_exec henv hentry fuel body hs.2) _ _
  | ret value span =>
    cases value with
    | none => exact safe_pure trivial
    | some e =>
      rw [exec]
      apply Safe.bind (safe_eval henv hentry e hs)
      exact fun value hvalue => safe_pure hvalue

/-- Statements one after the other. -/
theorem safe_execAll (henv : env.unit.Complete) (hentry : entry.Safe env.unit.methods.size) (fuel : Nat)
    (body : List Stmt) (hbody : Below (Stmt.methodsAll body) env.unit.methods.size) :
    Safe env.unit.methods.size (Flow.Fits env.unit.methods.size)
      (execAll env entry fuel body) := by
  cases body with
  | nil => exact safe_pure trivial
  | cons s rest =>
    rw [Stmt.methodsAll, below_append] at hbody
    rw [execAll]
    apply Safe.bind (safe_exec henv hentry fuel s hbody.1)
    intro flow hflow
    cases flow with
    | normal => exact safe_execAll henv hentry fuel rest hbody.2
    | ret value => exact safe_pure hflow

end

end Statements

/-! ## Programs -/

/-- All code that is entered is safe, by induction on the fuel. -/
theorem safe_fuelled {env : Env} (henv : env.unit.Complete) (fuel : Nat) :
    (Entry.fuelled env fuel).Safe env.unit.methods.size := by
  induction fuel with
  | zero => exact ⟨fun _ _ _ _ => safe_outOfFuel, fun _ _ _ _ => safe_outOfFuel⟩
  | succ fuel ih =>
    refine ⟨fun frame e hframe he => ?_, fun frame s hframe hs => ?_⟩
    · exact (safe_eval henv ih e he).inFrame hframe
    · exact (safe_exec henv ih fuel s hs).inFrame hframe

/-- The method that a program starts in is one of its methods. -/
theorem Env.entryPoint?_lt {env : Env} (henv : env.unit.Complete) {id : MethodId}
    (h : env.entryPoint? = some id) : id < env.unit.methods.size := by
  obtain ⟨owner, -, hnamed⟩ := Option.bind_eq_some_iff.1 h
  exact henv.sound.method_lt owner id (List.mem_of_find?_eq_some hnamed)

/-- A run of the main method of a complete unit is safe. -/
theorem safe_runMain {env : Env} (henv : env.unit.Complete) (fuel : Nat) (argv : List String) :
    Safe env.unit.methods.size (Value.Fits env.unit.methods.size) (env.runMain fuel argv) := by
  unfold Env.runMain
  split
  · exact safe_fail
  · rename_i main hmain
    have htexts : ∀ v ∈ argv.map Value.str, v.Fits env.unit.methods.size := by
      intro v hv
      obtain ⟨text, -, rfl⟩ := List.mem_map.1 hv
      trivial
    apply Safe.bind (safe_onStore fun _ hs => hs.newArray htexts)
    intro args _
    refine safe_call henv (safe_fuelled henv fuel) (env.entryPoint?_lt henv hmain) none ?_
    exact List.forall_mem_singleton.2 trivial

/-- A program that is in order never finds a fault. -/
theorem run_ne_fault {env : Env} (henv : env.unit.Complete) (fuel : Nat) (argv : List String)
    (fault : Fault) : (run env fuel argv).1 ≠ .error (.error (.internal fault)) := by
  intro hrun
  have hsafe := (safe_runMain henv fuel argv).of_run {} _ _ rfl (Machine.fits_new _)
  have houtcome : Outcome (Value.Fits env.unit.methods.size) (run env fuel argv).1 := hsafe.2
  rw [hrun] at houtcome
  exact houtcome trivial

end ExpLang.Evaluation
