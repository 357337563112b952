import ExpLang.Compilation
import ExpLang.Evaluation.Session
import ExpLang.Proofs.Evaluation.Journal

/-!
# First values of fields of classes

A field of a class gets its first value when it is read first, and nothing is kept of that while the value
is being found. So a read inside of the evaluation evaluates it again, and what the field got meanwhile
is lost when the outer evaluation ends, as in `asksItself`. This is all that goes wrong: from the
chronicles of expressions and statements there is one of every run, and the journal of a run is lawful.
Once a read or an assignment has ended the first value is never evaluated again, and between two values
that a field gets all reads give the first one.
-/

namespace ExpLang.Evaluation

open Resolved

namespace Chronicle

section Expressions

variable (env : Env) {entry : Entry} (hentry : OfEntry entry)

/-- What an operator on two operands does, given what finding their values and the place of the left one
does. -/
def ofBinary (op : BinaryOp) {left right : Expr} (info : Info) (hleft : Chronicle (eval env entry left))
    (hright : Chronicle (eval env entry right)) (hplace : Chronicle (placeOf env entry left)) :
    Chronicle (eval env entry (.binary op left right info)) := by
  cases op with
  | and =>
    exact hleft.bind fun value => (ofAsBool value).bind fun _ =>
      ite (hright.bind fun value => (ofAsBool value).bind fun _ => pure _) (pure _)
  | or =>
    exact hleft.bind fun value => (ofAsBool value).bind fun _ =>
      ite (pure _) (hright.bind fun value => (ofAsBool value).bind fun _ => pure _)
  | assign =>
    exact hplace.bind fun place => hright.bind fun value =>
      (ofWrite env place value).bind fun _ => pure _
  | _ =>
    dsimp only [eval]
    exact ite
      (hplace.bind fun place => (ofRead env hentry place).bind fun _ => hright.bind fun _ =>
        (ofResult _).bind fun value => (ofWrite env place value).bind fun _ => pure _)
      (hleft.bind fun _ => hright.bind fun _ => ofResult _)

mutual

/-- What finding the value of an expression does. -/
def ofEval : ∀ e : Expr, Chronicle (eval env entry e)
  | .literal (.int _) _ | .literal (.float _) _ | .literal (.bool _) _ => pure _
  | .localVar id _ => ofGetLocal id
  | .argument id _ => ofGetArg id
  | .member m _ => look fun _ => ofReadMember env hentry _ m
  | .access target m _ =>
    (ofReceiverOf env target (ofEval target) m).bind fun _ => ofReadMember env hentry _ m
  | .this _ => look fun m => quiet fun _ => by cases m.frame.this <;> rfl
  | .classRef _ _ => fail _
  | .index target index _ =>
    (ofElementOf (ofEval target) (ofEval index)).bind fun place => ofRead env hentry place
  | .call callee args _ => (ofEval callee).bind fun value => (ofEvalAll args).bind fun values => by
    cases value with
    | method id receiver => exact ofCall env hentry id receiver values
    | _ => exact fail _
  | .new owner args _ =>
    (ofEvalAll args).bind fun _ => (ofNewObject env hentry owner).bind fun _ => pure _
  | .pre op operand _ => ite
    ((ofPlaceOf operand).bind fun place => (ofRead env hentry place).bind fun _ =>
      (ofResult _).bind fun value => (ofWrite env place value).bind fun _ => pure _)
    ((ofEval operand).bind fun _ => ofResult _)
  | .post op operand _ => (ofPlaceOf operand).bind fun place =>
    (ofRead env hentry place).bind fun _ => (ofResult _).bind fun value =>
      (ofWrite env place value).bind fun _ => pure _
  | .binary op left right info =>
    ofBinary env hentry op info (ofEval left) (ofEval right) (ofPlaceOf left)
  | .unknown _ _ => fail _

def ofEvalAll : ∀ es : List Expr, Chronicle (evalAll env entry es)
  | [] => pure _
  | e :: rest => (ofEval e).bind fun _ => (ofEvalAll rest).bind fun _ => pure _

/-- What finding a place does. -/
def ofPlaceOf : ∀ e : Expr, Chronicle (placeOf env entry e)
  | .localVar _ _ | .argument _ _ => pure _
  | .member (.field _) _ => look fun _ => pure _
  | .access target (.field id) _ =>
    (ofReceiverOf env target (ofEval target) (.field id)).bind fun _ => pure _
  | .index target index _ => ofElementOf (ofEval target) (ofEval index)
  | .unknown _ _ => fail _
  | .literal _ _ | .member (.method _) _ | .access _ (.method _) _ | .this _ | .classRef _ _
  | .call _ _ _ | .new _ _ _ | .pre _ _ _ | .post _ _ _ | .binary _ _ _ _ => fail _

end

end Expressions

/-! ## Statements -/

/-- What a loop does after a round. -/
def ofAfter {x : Eval Flow} (hx : Chronicle x) : ∀ flow : Flow, Chronicle (match flow with
    | .normal => x
    | flow => Pure.pure flow)
  | .normal => hx
  | .ret _ => pure _

def ofForEach (var : LocalId) {body : Eval Flow} (hbody : Chronicle body) :
    ∀ values, Chronicle (forEach var body values)
  | [] => pure _
  | value :: rest => (ofSetLocal var value).bind fun _ => hbody.bind (ofAfter (ofForEach var hbody rest))

def ofCountUp (var : LocalId) {body : Eval Flow} (hbody : Chronicle body) :
    ∀ count i, Chronicle (countUp var body count i)
  | 0, _ => pure _
  | count + 1, i => (ofSetLocal var _).bind fun _ =>
    hbody.bind (ofAfter (ofCountUp var hbody count (i + 1)))

def ofRepeatWhile {cond : Eval Bool} {body : Eval Flow} (hcond : Chronicle cond)
    (hbody : Chronicle body) : ∀ fuel, Chronicle (repeatWhile cond body fuel)
  | 0 => quiet fun _ => rfl
  | fuel + 1 => hcond.bind fun _ =>
    ite (hbody.bind (ofAfter (ofRepeatWhile hcond hbody fuel))) (pure _)

def ofForValue (var : LocalId) {body : Eval Flow} (hbody : Chronicle body) :
    ∀ value, Chronicle (forValue var body value)
  | .range _ _ => ofCountUp var hbody _ _
  | .array _ => look fun _ => ofForEach var hbody _
  | .str _ => ofForEach var hbody _
  | .int _ | .float _ | .bool _ | .object _ | .method _ _ | .null | .void => fail _

section Statements

variable (env : Env) {entry : Entry} (hentry : OfEntry entry) (fuel : Nat)

mutual

/-- What a statement does. -/
def ofExec : ∀ s : Stmt, Chronicle (exec env entry fuel s)
  | .seq body _ => ofExecAll body
  | .expr e _ => (ofEval env hentry e).bind fun _ => pure _
  | .ifElse cond thenBranch none _ =>
    (ofEval env hentry cond).bind fun _ => (ofAsBool _).bind fun _ =>
      ite (ofExec thenBranch) (pure _)
  | .ifElse cond thenBranch (some elseBranch) _ =>
    (ofEval env hentry cond).bind fun _ => (ofAsBool _).bind fun _ =>
      ite (ofExec thenBranch) (ofExec elseBranch)
  | .whileLoop cond body _ =>
    ofRepeatWhile ((ofEval env hentry cond).bind ofAsBool) (ofExec body) fuel
  | .forConst var _ _ body _ => ofCountUp var (ofExec body) _ _
  | .forRange var low high body _ =>
    (ofEval env hentry low).bind fun _ => (ofAsInt _).bind fun _ =>
      (ofEval env hentry high).bind fun _ => (ofAsInt _).bind fun _ =>
        ofCountUp var (ofExec body) _ _
  | .forIn var iterable body _ => (ofEval env hentry iterable).bind (ofForValue var (ofExec body))
  | .ret none _ => pure _
  | .ret (some e) _ => (ofEval env hentry e).bind fun _ => pure _

def ofExecAll : ∀ body : List Stmt, Chronicle (execAll env entry fuel body)
  | [] => pure _
  | s :: rest => (ofExec s).bind (ofAfter (ofExecAll rest))

end

end Statements

/-! ## Programs -/

def ofFuelled (env : Env) : ∀ fuel, OfEntry (.fuelled env fuel)
  | 0 => ⟨fun _ _ => quiet fun _ => rfl, fun _ _ => quiet fun _ => rfl⟩
  | fuel + 1 => {
      value := fun frame e => (ofEval env (ofFuelled env fuel) e).inFrame frame
      body := fun frame s => (ofExec env (ofFuelled env fuel) fuel s).inFrame frame }

/-- What a program does when it runs. -/
def ofRunMain (env : Env) (fuel : Nat) (argv : List String) : Chronicle (env.runMain fuel argv) := by
  unfold Env.runMain
  cases env.entryPoint? with
  | none => exact fail _
  | some main =>
    exact (ofStore _).bind fun _ => ofCall env (ofFuelled env fuel) main none _

end Chronicle

/-- What a run of a program does to the fields of classes, the latest first. -/
def Env.journal (env : Env) (fuel : Nat) (argv : List String) : Journal :=
  (Chronicle.ofRunMain env fuel argv).events {}

/-- The journal of a run fits the machine that the run leaves. -/
theorem fits_journal (env : Env) (fuel : Nat) (argv : List String) :
    (env.journal fuel argv).Fits (run env fuel argv).2 := by
  have hfits := (Chronicle.ofRunMain env fuel argv).fits Journal.fits_new
  rwa [List.append_nil] at hfits

/-- A run leaves the fields of classes with the values that they got last. It evaluates the first value of
a field before the field gets any value, so once at most unless the evaluation comes back to the field.
Two reads of a field give the same value if it gets no value in between. -/
theorem run_staticFields (env : Env) (fuel : Nat) (argv : List String) (id : FieldId) :
    (run env fuel argv).2.statics.lookup id = (env.journal fuel argv).valueOf id ∧
    (∀ later earlier, env.journal fuel argv = later ++ .begins id :: earlier →
      ∀ event ∈ earlier, event.gives? id = none) ∧
    ((env.journal fuel argv).ComesBack id ∨ (env.journal fuel argv).begun id ≤ 1) ∧
    ∀ v w later between earlier,
      env.journal fuel argv = later ++ .reads id w :: (between ++ .reads id v :: earlier) →
      (∀ event ∈ between, event.gives? id = none) → v = w := by
  have hfits := fits_journal env fuel argv
  refine ⟨hfits.lookup id, ?_, ?_, ?_⟩
  · intro later earlier hj
    exact (hj ▸ hfits.lawful).begins_first
  · by_cases hback : (env.journal fuel argv).ComesBack id
    · exact .inl hback
    · exact .inr (hfits.lawful.begun_le_one hback)
  · intro v w later between earlier hj hbetween
    exact (hj ▸ hfits.lawful).reads_eq hbetween

/-- The first value of a field is found by asking for the field, but not the second time. -/
def asksItself : Source := .ofText "main" "class C\x7bstatic var n=0;static var a=n++>0||!a;\x7dC.a;"

/-- Whether a field is read as a truth value. -/
def FieldEvent.readsAs (id : FieldId) (b : Bool) : FieldEvent → Bool
  | reads other (.bool c) => other == id && c == b
  | _ => false

/-- Whether a field is assigned to. -/
def FieldEvent.isAssign (id : FieldId) : FieldEvent → Bool
  | assigns other _ => other == id
  | _ => false

/-- A boolean that is looked for in a journal was read there. -/
theorem mem_of_any_readsAs {j : Journal} {id : FieldId} {b : Bool}
    (h : j.any (·.readsAs id b) = true) : .reads id (.bool b) ∈ j := by
  obtain ⟨event, hmem, hreads⟩ := List.any_eq_true.1 h
  unfold FieldEvent.readsAs at hreads
  split at hreads
  · obtain ⟨hid, hb⟩ := Bool.and_eq_true_iff.1 hreads
    rw [beq_iff_eq] at hid hb
    rwa [hid, hb] at hmem
  · cases hreads

/-- A field whose first value is evaluated twice, and which is read as two values, though nothing is
assigned to it. -/
theorem run_asksItself :
    ∃ c, compile asksItself 1000 {} = .ok c ∧ c.findings = [] ∧
      (Env.journal ⟨c.unit, 1000⟩ 20 []).begun 1 = 2 ∧
      .reads 1 (.bool true) ∈ Env.journal ⟨c.unit, 1000⟩ 20 [] ∧
      .reads 1 (.bool false) ∈ Env.journal ⟨c.unit, 1000⟩ 20 [] ∧
      ∀ value, .assigns 1 value ∉ Env.journal ⟨c.unit, 1000⟩ 20 [] := by
  have hshape : (compile asksItself 1000 {}).toOption.map (fun c =>
      c.findings = [] ∧ (Env.journal ⟨c.unit, 1000⟩ 20 []).begun 1 = 2 ∧
      (Env.journal ⟨c.unit, 1000⟩ 20 []).any (·.readsAs 1 true) ∧
      (Env.journal ⟨c.unit, 1000⟩ 20 []).any (·.readsAs 1 false) ∧
      (Env.journal ⟨c.unit, 1000⟩ 20 []).any (·.isAssign 1) = false : Compilation → Bool) =
        some true := by
    decide +kernel
  cases h : compile asksItself 1000 {} with
  | error e =>
    rw [h] at hshape
    cases hshape
  | ok c =>
    rw [h] at hshape
    obtain ⟨hfindings, hbegun, htrue, hfalse, hassign⟩ := of_decide_eq_true (Option.some.inj hshape)
    refine ⟨c, rfl, hfindings, hbegun, mem_of_any_readsAs htrue, mem_of_any_readsAs hfalse, ?_⟩
    exact fun value hmem => List.any_eq_false.1 hassign _ hmem (beq_self_eq_true _)

end ExpLang.Evaluation
