import ExpLang.Compilation
import ExpLang.Evaluation.Session
import ExpLang.Proofs.Evaluation.Ending

/-!
# Programs that end

The depth of calls bounds how often bodies of methods are entered, and nothing bounds how often the
other pieces of a unit are: a method whose default calls it again never gets to its body. So a
program without `while` ends if its pieces do not come back to themselves. Then a piece has a rank,
what it enters at its own depth has a smaller one, and the depth and the rank together say how much
fuel a run needs, whatever its arguments are. With more fuel the run is the same.
-/

namespace ExpLang.Evaluation

open Resolved
open Checking (calledMethod?)

variable {starved : Prop} {d : Nat}

/-! ## Expressions -/

/-- A value that is the method that an expression names, if it names one. -/
def NamesValue (e : Expr) (value : Value) : Prop :=
  ∀ id, calledMethod? e = some id → ∃ this, value = .method id this

section Expressions

variable {env : Env} {A : Piece → Prop} {short long : Entry}

/-- What a value that is called can enter. -/
theorem defaults_mem_calleePieces {callee : Expr} {id : MethodId} {this : Option ObjectRef}
    (hvalue : NamesValue callee (.method id this)) (hid : id < env.unit.methods.size) :
    .defaults id ∈ env.unit.calleePieces callee := by
  unfold CodeUnit.calleePieces
  split
  · rename_i i hi
    obtain ⟨_, heq⟩ := hvalue i hi
    cases heq
    exact List.mem_singleton_self _
  · exact List.mem_map.2 ⟨id, List.mem_range.2 hid, rfl⟩

/-- An operator on two operands has a value if they have values, and an assignment if its left side is
a place. -/
theorem ends_binary (hentry : Entry.Ends env A starved d short long) (op : BinaryOp) (info : Info)
    {left right : Expr}
    (hleft : Ends starved d (fun _ => True) (eval env short left) (eval env long left))
    (hright : Ends starved d (fun _ => True) (eval env short right) (eval env long right))
    (hplace : Ends starved d (Place.Within env A) (placeOf env short left) (placeOf env long left)) :
    Ends starved d (fun _ => True) (eval env short (.binary op left right info))
      (eval env long (.binary op left right info)) := by
  by_cases hand : op = .and
  · rw [hand, eval, eval]
    exact hleft.bind fun v _ => (ends_asBool v).bind fun b _ => ends_ite
      (hright.bind fun w _ => (ends_asBool w).bind fun _ _ => ends_pure trivial)
      (ends_pure trivial)
  by_cases hor : op = .or
  · rw [hor, eval, eval]
    exact hleft.bind fun v _ => (ends_asBool v).bind fun b _ => ends_ite (ends_pure trivial)
      (hright.bind fun w _ => (ends_asBool w).bind fun _ _ => ends_pure trivial)
  by_cases hassign : op = .assign
  · rw [hassign, eval, eval]
    apply hplace.bind
    intro place _
    apply hright.bind
    intro value _
    apply Ends.bind (ends_write env place value)
    exact fun _ _ => ends_pure trivial
  rw [eval.eq_def env short, eval.eq_def env long]
  dsimp only
  split
  · exact absurd rfl hand
  · exact absurd rfl hor
  · exact absurd rfl hassign
  · split
    · apply hplace.bind
      intro place hplace
      apply Ends.bind (ends_read hentry hplace)
      intro old _
      apply hright.bind
      intro given _
      apply Ends.bind (ends_ofResult _)
      intro value _
      apply Ends.bind (ends_write env place value)
      exact fun _ _ => ends_pure trivial
    · apply hleft.bind
      intro value _
      apply hright.bind
      exact fun given _ => ends_ofResult _

mutual

/-- An expression has a value if what it enters ends. -/
theorem ends_eval (hentry : Entry.Ends env A starved d short long) (e : Expr)
    (he : ∀ p ∈ env.unit.exprPieces e, A p) :
    Ends starved d (NamesValue e) (eval env short e) (eval env long e) := by
  cases e with
  | literal value info =>
    cases value <;> exact ends_pure fun _ h => by cases h
  | localVar id info => exact (ends_getLocal id).mono fun _ _ _ h => by cases h
  | argument id info => exact (ends_getArg id).mono fun _ _ _ h => by cases h
  | member m info =>
    apply ends_get_bind
    intro machine _
    refine (ends_readMember hentry _ m he).mono fun v hv id hid => hv id ?_
    cases m with
    | field i => cases hid
    | method i => exact congrArg Member.method (Option.some.inj hid)
  | access target m info =>
    rw [CodeUnit.exprPieces, List.forall_mem_append] at he
    rw [eval, eval]
    have htarget := (ends_eval hentry target he.1).mono fun _ _ => trivial
    apply Ends.bind (ends_receiverOf env target htarget m)
    intro receiver _
    refine (ends_readMember hentry receiver m he.2).mono fun v hv id hid => hv id ?_
    cases m with
    | field i => cases hid
    | method i => exact congrArg Member.method (Option.some.inj hid)
  | this info =>
    rw [eval, eval]
    apply ends_get_bind
    intro m _
    split
    · exact ends_pure fun _ h => by cases h
    · exact ends_fail
  | classRef id info => exact ends_fail
  | index target key info =>
    rw [CodeUnit.exprPieces, List.forall_mem_append] at he
    rw [eval, eval]
    have htarget := (ends_eval hentry target he.1).mono fun _ _ => trivial
    have hkey := (ends_eval hentry key he.2).mono fun _ _ => trivial
    apply Ends.bind (ends_elementOf env A htarget hkey)
    exact fun place hplace => (ends_read hentry hplace).mono fun _ _ _ h => by cases h
  | call callee args info =>
    rw [CodeUnit.exprPieces, List.forall_mem_append, List.forall_mem_append] at he
    obtain ⟨⟨hcallee, hargs⟩, hpieces⟩ := he
    rw [eval, eval]
    apply Ends.bind (ends_eval hentry callee hcallee)
    intro value hvalue
    apply Ends.bind (ends_evalAll hentry args hargs)
    intro values _
    cases value with
    | method id receiver =>
      refine (ends_call hentry id (fun hid => hpieces _ ?_) receiver values).mono
        fun _ _ _ h => by cases h
      exact defaults_mem_calleePieces hvalue hid
    | _ => exact ends_fail
  | new owner args info =>
    rw [CodeUnit.exprPieces, List.forall_mem_append] at he
    rw [eval, eval]
    apply Ends.bind (ends_evalAll hentry args he.1)
    intro _ _
    apply Ends.bind (ends_newObject hentry owner he.2)
    exact fun _ _ => ends_pure fun _ h => by cases h
  | pre op operand info =>
    rw [eval, eval]
    split
    · apply Ends.bind (ends_placeOf hentry operand he)
      intro place hplace
      apply Ends.bind (ends_read hentry hplace)
      intro old _
      apply Ends.bind (ends_ofResult _)
      intro value _
      apply Ends.bind (ends_write env place value)
      exact fun _ _ => ends_pure fun _ h => by cases h
    · apply Ends.bind (ends_eval hentry operand he)
      exact fun value _ => (ends_ofResult _).mono fun _ _ _ h => by cases h
  | post op operand info =>
    rw [eval, eval]
    apply Ends.bind (ends_placeOf hentry operand he)
    intro place hplace
    apply Ends.bind (ends_read hentry hplace)
    intro old _
    apply Ends.bind (ends_ofResult _)
    intro value _
    apply Ends.bind (ends_write env place value)
    exact fun _ _ => ends_pure fun _ h => by cases h
  | binary op left right info =>
    rw [CodeUnit.exprPieces, List.forall_mem_append] at he
    have hleft := (ends_eval hentry left he.1).mono (Q := fun _ => True) fun _ _ => trivial
    have hright := (ends_eval hentry right he.2).mono (Q := fun _ => True) fun _ _ => trivial
    have hplace := ends_placeOf hentry left he.1
    exact (ends_binary hentry op info hleft hright hplace).mono fun _ _ _ h => by cases h
  | unknown name info => exact ends_fail

/-- Expressions from left to right. -/
theorem ends_evalAll (hentry : Entry.Ends env A starved d short long) (es : List Expr)
    (hes : ∀ p ∈ env.unit.exprsPieces es, A p) :
    Ends starved d (fun _ => True) (evalAll env short es) (evalAll env long es) := by
  cases es with
  | nil => exact ends_pure trivial
  | cons e rest =>
    rw [CodeUnit.exprsPieces, List.forall_mem_append] at hes
    rw [evalAll, evalAll]
    apply Ends.bind (ends_eval hentry e hes.1)
    intro value _
    apply Ends.bind (ends_evalAll hentry rest hes.2)
    exact fun values _ => ends_pure trivial

/-- The place that an expression stands for. -/
theorem ends_placeOf (hentry : Entry.Ends env A starved d short long) (e : Expr)
    (he : ∀ p ∈ env.unit.exprPieces e, A p) :
    Ends starved d (Place.Within env A) (placeOf env short e) (placeOf env long e) := by
  cases e with
  | localVar id info => exact ends_pure trivial
  | argument id info => exact ends_pure trivial
  | member m info =>
    cases m with
    | field id => exact ends_get_bind fun _ _ => ends_pure he
    | method id => exact ends_fail
  | access target m info =>
    rw [CodeUnit.exprPieces, List.forall_mem_append] at he
    cases m with
    | field id =>
      rw [placeOf, placeOf]
      have htarget := (ends_eval hentry target he.1).mono fun _ _ => trivial
      apply Ends.bind (ends_receiverOf env target htarget _)
      exact fun _ _ => ends_pure he.2
    | method id => exact ends_fail
  | index target key info =>
    rw [CodeUnit.exprPieces, List.forall_mem_append] at he
    rw [placeOf, placeOf]
    exact ends_elementOf env A ((ends_eval hentry target he.1).mono fun _ _ => trivial)
      ((ends_eval hentry key he.2).mono fun _ _ => trivial)
  | unknown name info => exact ends_fail
  | _ => exact ends_fail

end

end Expressions

/-! ## Statements -/

/-- A loop over values ends when its body does. -/
theorem ends_forEach (var : LocalId) {body body' : Eval Flow}
    (hbody : Ends starved d (fun _ => True) body body') (values : List Value) :
    Ends starved d (fun _ => True) (forEach var body values) (forEach var body' values) := by
  induction values with
  | nil => exact ends_pure trivial
  | cons value rest ih =>
    apply Ends.bind (ends_setLocal var value)
    intro _ _
    apply hbody.bind
    intro flow _
    cases flow with
    | normal => exact ih
    | ret value => exact ends_pure trivial

/-- A counting loop ends when its body does. -/
theorem ends_countUp (var : LocalId) {body body' : Eval Flow}
    (hbody : Ends starved d (fun _ => True) body body') (count : Nat) (i : Int) :
    Ends starved d (fun _ => True) (countUp var body count i) (countUp var body' count i) := by
  induction count generalizing i with
  | zero => exact ends_pure trivial
  | succ count ih =>
    apply Ends.bind (ends_setLocal var _)
    intro _ _
    apply hbody.bind
    intro flow _
    cases flow with
    | normal => exact ih (i + 1)
    | ret value => exact ends_pure trivial

/-- A loop over any value ends when its body does. -/
theorem ends_forValue (var : LocalId) {body body' : Eval Flow}
    (hbody : Ends starved d (fun _ => True) body body') (value : Value) :
    Ends starved d (fun _ => True) (forValue var body value) (forValue var body' value) := by
  cases value with
  | range low high => exact ends_countUp var hbody _ _
  | array ref =>
    apply ends_get_bind
    exact fun m _ => ends_forEach var hbody _
  | str text => exact ends_forEach var hbody _
  | _ => exact ends_fail

/-- A loop under a condition uses up its fuel where that is allowed. -/
theorem ends_repeatWhile (hstarved : starved) {cond cond' : Eval Bool} {body body' : Eval Flow}
    (hcond : Ends starved d (fun _ => True) cond cond')
    (hbody : Ends starved d (fun _ => True) body body') {fuel fuel' : Nat} (hfuel : fuel = fuel') :
    Ends starved d (fun _ => True) (repeatWhile cond body fuel) (repeatWhile cond' body' fuel') := by
  subst hfuel
  induction fuel with
  | zero => exact ⟨fun m hm => ⟨.error .outOfFuel, m, rfl, rfl, hm, hstarved⟩⟩
  | succ fuel ih =>
    apply hcond.bind
    intro holds _
    refine ends_ite ?_ (ends_pure trivial)
    apply hbody.bind
    intro flow _
    cases flow with
    | normal => exact ih
    | ret value => exact ends_pure trivial

section Statements

variable {env : Env} {A : Piece → Prop} {short long : Entry} {fuel fuel' : Nat}

mutual

/-- A statement without `while` ends if everything that can be entered ends. One with `while` may go
round as often as its fuel lasts. -/
theorem ends_exec (hentry : Entry.Ends env A starved d short long) (hall : ∀ p, A p) (s : Stmt)
    (hs : s.isWhileFree = true ∨ starved ∧ fuel = fuel') :
    Ends starved d (fun _ => True) (exec env short fuel s) (exec env long fuel' s) := by
  have heval (e : Expr) := ends_eval hentry e fun p _ => hall p
  cases s with
  | seq body span => exact ends_execAll hentry hall body hs
  | expr e span =>
    rw [exec, exec]
    apply (heval e).bind
    exact fun _ _ => ends_pure trivial
  | ifElse cond thenBranch elseBranch span =>
    cases elseBranch with
    | none =>
      rw [exec, exec]
      apply (heval cond).bind
      intro value _
      apply Ends.bind (ends_asBool value)
      intro holds _
      exact ends_ite (ends_exec hentry hall thenBranch hs) (ends_pure trivial)
    | some elseBranch =>
      rw [Stmt.isWhileFree, Bool.and_eq_true] at hs
      have hthen := ends_exec hentry hall thenBranch (hs.imp_left And.left)
      have helse := ends_exec hentry hall elseBranch (hs.imp_left And.right)
      rw [exec, exec]
      apply (heval cond).bind
      intro value _
      apply Ends.bind (ends_asBool value)
      intro holds _
      exact ends_ite hthen helse
  | whileLoop cond body span =>
    obtain hs | ⟨hstarved, hfuel⟩ := hs
    · cases hs
    · rw [exec, exec]
      have hcond := (heval cond).bind fun value _ => ends_asBool value
      have hbody := ends_exec hentry hall body (.inr ⟨hstarved, hfuel⟩)
      exact ends_repeatWhile hstarved hcond hbody hfuel
  | forIn var iterable body span =>
    rw [exec, exec]
    apply (heval iterable).bind
    exact fun value _ => ends_forValue var (ends_exec hentry hall body hs) value
  | forConst var low high body span =>
    rw [exec, exec]
    exact ends_countUp var (ends_exec hentry hall body hs) _ _
  | forRange var low high body span =>
    rw [exec, exec]
    apply (heval low).bind
    intro first _
    apply Ends.bind (ends_asInt first)
    intro first _
    apply (heval high).bind
    intro last _
    apply Ends.bind (ends_asInt last)
    exact fun last _ => ends_countUp var (ends_exec hentry hall body hs) _ _
  | ret value span =>
    cases value with
    | none => exact ends_pure trivial
    | some e =>
      rw [exec, exec]
      apply (heval e).bind
      exact fun value _ => ends_pure trivial

/-- Statements one after the other. -/
theorem ends_execAll (hentry : Entry.Ends env A starved d short long) (hall : ∀ p, A p)
    (body : List Stmt) (hbody : Stmt.areWhileFree body = true ∨ starved ∧ fuel = fuel') :
    Ends starved d (fun _ => True) (execAll env short fuel body) (execAll env long fuel' body) := by
  cases body with
  | nil => exact ends_pure trivial
  | cons s rest =>
    rw [Stmt.areWhileFree, Bool.and_eq_true] at hbody
    rw [execAll, execAll]
    apply Ends.bind (ends_exec hentry hall s (hbody.imp_left And.left))
    intro flow _
    cases flow with
    | normal => exact ends_execAll hentry hall rest (hbody.imp_left And.right)
    | ret value => exact ends_pure trivial

end

end Statements

/-! ## Fuel -/

section Fuel

variable {env : Env}

/-- The fuel that is enough for what is entered at a depth, where pieces below a rank are. One call
deeper every piece can be entered. -/
def neededFuel (env : Env) (d rank : Nat) : Nat :=
  (env.maxDepth - d) * (env.unit.pieceBound + 1) + rank

/-- Whatever is entered one call deeper needs less fuel than what it is entered from. -/
theorem neededFuel_succ {d : Nat} (hd : d < env.maxDepth) (rank : Nat) :
    neededFuel env (d + 1) env.unit.pieceBound < neededFuel env d rank := by
  have hsplit : env.maxDepth - d = env.maxDepth - (d + 1) + 1 := by omega
  unfold neededFuel
  rw [hsplit, Nat.succ_mul]
  omega

/-- With enough fuel what is entered ends, and with more of it in the same way. -/
theorem ends_fuelled (hwhile : ∀ i body, (env.unit.getMethod i).body = some body →
      body.isWhileFree = true) {rank : Piece → Nat} (hbound : ∀ p, rank p < env.unit.pieceBound)
    (hrank : ∀ q p, env.unit.Enters q p → rank q < rank p) (fuel fuel' d r : Nat)
    (hfuel : neededFuel env d r ≤ fuel) (hle : fuel ≤ fuel') :
    Entry.Ends env (rank · < r) False d (.fuelled env fuel) (.fuelled env fuel') := by
  -- the fuel falls with each entry, and so does what is needed: its rank, or else its depth
  induction fuel generalizing fuel' d r with
  | zero =>
    refine ⟨fun p hp => ?_, fun hd => ?_⟩
    · unfold neededFuel at hfuel
      omega
    · have := neededFuel_succ hd r
      omega
  | succ fuel ih =>
    obtain ⟨fuel', rfl⟩ : ∃ k, fuel' = k + 1 := ⟨fuel' - 1, by omega⟩
    refine ⟨fun p hp e he frame => ?_, fun hd id body hbody frame => ?_⟩
    · have hless : neededFuel env d (rank p) ≤ fuel := by
        unfold neededFuel at hfuel ⊢
        omega
      have hpieces : ∀ q ∈ env.unit.exprPieces e, rank q < rank p :=
        fun q hq => hrank q p ⟨e, he, hq⟩
      have heval := ends_eval (ih fuel' d (rank p) hless (by omega)) e hpieces
      exact (heval.mono fun _ _ => trivial).inFrame frame
    · have hless : neededFuel env (d + 1) env.unit.pieceBound ≤ fuel := by
        have := neededFuel_succ hd r
        omega
      have hentry := ih fuel' (d + 1) env.unit.pieceBound hless (by omega)
      exact (ends_exec hentry hbound body (.inl (hwhile id body hbody))).inFrame frame

end Fuel

/-! ## Programs -/

/-- The fuel that is enough for a program whose pieces do not come back to themselves. -/
def Env.enoughFuel (env : Env) : Nat := neededFuel env 0 env.unit.pieceBound

/-- The main method of a bounded unit ends with enough fuel, and with more as with enough. -/
theorem ends_runMain {env : Env} (henv : env.unit.Bounded) {fuel : Nat}
    (hfuel : env.enoughFuel ≤ fuel) (argv : List String) :
    Ends False 0 (fun _ => True) (env.runMain env.enoughFuel argv) (env.runMain fuel argv) := by
  obtain ⟨rank, hbound, hrank⟩ := henv.exists_rank
  have hentry := ends_fuelled henv.whileFree hbound hrank _ fuel 0 _ le_rfl hfuel
  unfold Env.runMain
  split
  · exact ends_fail
  · apply Ends.bind (ends_onStore _)
    exact fun args _ => ends_call hentry _ (fun _ => hbound _) none _

/-- A program without `while`, of which no piece of code that is entered without going deeper comes
back to itself, ends: with a value or with an error of the program, with enough fuel, which depends on
the size of its unit and the depth of its calls only, and in the same way with more. -/
theorem run_ends {env : Env} (henv : env.unit.Bounded) (argv : List String) :
    ∃ (result : Except EvalError Value) (m : Machine),
      ∀ fuel, env.enoughFuel ≤ fuel → run env fuel argv = (result.mapError .error, m) := by
  obtain ⟨r, m, hrun, -, -, hended⟩ := (ends_runMain henv le_rfl argv).of_run {} rfl
  have hresult : ∃ result : Except EvalError Value, r = result.mapError .error := by
    match r, hended with
    | .ok value, _ => exact ⟨.ok value, rfl⟩
    | .error (.error e), _ => exact ⟨.error e, rfl⟩
  obtain ⟨result, rfl⟩ := hresult
  refine ⟨result, m, fun fuel hfuel => ?_⟩
  obtain ⟨r, m', hleast, hmore, -, -⟩ := (ends_runMain henv hfuel argv).of_run {} rfl
  rw [hrun] at hleast
  cases hleast
  exact hmore

/-- A method that calls itself without end, in the default of another one. -/
def endlessDefault : Source :=
  .ofText "default" "function g():Int=>g();function f(a:Int=g()):Int=>a;f();"

/-- A default that calls a method which calls itself ends, whatever the limit is. -/
theorem run_ends_endless_default :
    ∃ c, compile endlessDefault 1000 {} = .ok c ∧ c.unit.Bounded ∧
      ∀ maxDepth argv, ∃ (result : Except EvalError Value) (m : Machine), ∀ fuel,
        Env.enoughFuel ⟨c.unit, maxDepth⟩ ≤ fuel →
        run ⟨c.unit, maxDepth⟩ fuel argv = (result.mapError .error, m) := by
  -- the default of the second method enters the parameters of the first one, which has none
  have hranked : (compile endlessDefault 1000 {}).toOption.map
      (·.unit.isBoundedBy fun p => if p = .defaults 2 then 1 else 0) = some true := by
    decide +kernel
  cases h : compile endlessDefault 1000 {} with
  | error e =>
    rw [h] at hranked
    cases hranked
  | ok c =>
    rw [h] at hranked
    have hbounded := CodeUnit.bounded_of_rank (Option.some.inj hranked)
    exact ⟨c, rfl, hbounded, fun maxDepth argv => @run_ends ⟨c.unit, maxDepth⟩ hbounded argv⟩

end ExpLang.Evaluation
