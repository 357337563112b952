import ExpLang.Compilation
import ExpLang.Evaluation.Session
import ExpLang.Proofs.Evaluation.Reentry

/-!
# Programs that do not end

A method whose first default calls the method itself is entered again before its body is, and so
before the depth of calls grows. A run that calls it uses up all fuel, however much there is and
however deep calls may be nested.
-/

namespace ExpLang.Evaluation

open Resolved

/-- Whether an expression calls a method by its name and without arguments. -/
def callsBare (id : MethodId) : Expr → Bool
  | .call (.member (.method i) _) [] _ => i == id
  | _ => false

/-- Whether a method is one that is not refused, for it has a body, no locals and a known result. -/
def isPlain (u : CodeUnit) (id : MethodId) : Bool :=
  !u.types.isUnbound (u.getMethod id).ret && (u.getMethod id).locals.toList.isEmpty &&
    (u.getMethod id).body.isSome

/-- Whether the default of the first parameter of a method calls the method itself. -/
def beginsItself (u : CodeUnit) (id : MethodId) : Bool :=
  isPlain u id &&
    match (u.getMethod id).params.toList with
    | p :: _ => p.default.any (callsBare id)
    | [] => false

/-- Whether the first statement of a method with one parameter calls another one. -/
def beginsWith (u : CodeUnit) (main id : MethodId) : Bool :=
  isPlain u main && (u.getMethod main).params.toList.length == 1 &&
    match (u.getMethod main).body with
    | some (.seq (.expr e _ :: _) _) => callsBare id e
    | _ => false

variable {α β : Type} {env : Env} {entry : Entry} {id main : MethodId}

/-- A step uses up all fuel wherever a call is possible. -/
def Starves (limit : Nat) (x : Eval α) : Prop :=
  ∀ m, m.depth < limit → (x m).1 = .error .outOfFuel

/-- What goes on after a step that starves is not reached. -/
theorem Starves.bind {limit : Nat} {x : Eval α} (hx : Starves limit x) (f : α → Eval β) :
    Starves limit (x >>= f) := by
  intro m hm
  obtain ⟨⟨r, m'⟩, hrun⟩ : ∃ first, x m = first := ⟨_, rfl⟩
  have hr := hx m hm
  rw [hrun] at hr
  cases hr
  rw [bind_of_run hrun]
  rfl

/-- A step that starves one call deeper starves. -/
theorem Starves.deeper {limit : Nat} {x : Eval α} (hx : Starves (limit + 1) x) :
    Starves limit (deeper x) :=
  fun m hm => hx { m with depth := m.depth + 1 } (Nat.succ_lt_succ hm)

/-- A call by name does what calling the method does. -/
theorem starves_callsBare {limit : Nat} {e : Expr} (he : callsBare id e = true)
    (hcall : ∀ receiver, Starves limit (call env entry id receiver [])) :
    Starves limit (eval env entry e) := by
  unfold callsBare at he
  split at he
  · rename_i i info _
    rw [beq_iff_eq] at he
    subst he
    intro m hm
    have hcallee : eval env entry (.member (.method i) info) m =
        (.ok (.method i (if env.isStatic (.method i) then none else m.frame.this)), m) := rfl
    rw [eval, bind_of_ok hcallee, evalAll, pure_bind]
    exact hcall _ m hm
  · cases he

/-- A method that is not refused is called if the depth allows for it: its arguments are found, and
its body runs. -/
theorem starves_call {limit : Nat} (hlimit : limit ≤ env.maxDepth)
    (hid : isPlain env.unit id = true) (args : List Value)
    (hargs : ∀ this body, (env.unit.getMethod id).body = some body →
      Starves limit (do
        let args ← bindArgs entry (env.unit.getMethod id) this args
        let locals := (env.unit.getMethod id).locals.map fun l => env.initialValue l.type
        deeper (entry.body ⟨this, args.toArray, locals⟩ body)))
    (receiver : Option ObjectRef) : Starves limit (call env entry id receiver args) := by
  obtain ⟨⟨hret, hlocals⟩, hbody⟩ : (env.unit.types.isUnbound (env.unit.getMethod id).ret = false ∧
      (env.unit.getMethod id).locals.toList = []) ∧ (env.unit.getMethod id).body.isSome = true := by
    simpa [isPlain] using hid
  obtain ⟨body, hbody⟩ := Option.isSome_iff_exists.1 hbody
  have hbound : checkBound env (env.unit.getMethod id) = pure () := by
    unfold checkBound
    dsimp only
    rw [hret, hlocals]
    rfl
  intro m hm
  have hrun (k : Flow → Eval Value) :=
    (hargs (if (env.unit.getMethod id).isStatic then none else receiver) body hbody).bind k m hm
  simp only [bind_assoc] at hrun
  unfold call
  change ((if env.maxDepth ≤ m.depth then _ else _ : Eval Value) m).1 = _
  rw [if_neg (Nat.not_le.2 (hm.trans_le hlimit)), hbound, hbody]
  exact hrun _

/-- A method whose first default calls it is called until the fuel is used up. -/
theorem starves_beginsItself (hid : beginsItself env.unit id = true) (fuel : Nat)
    (receiver : Option ObjectRef) :
    Starves env.maxDepth (call env (.fuelled env fuel) id receiver []) := by
  obtain ⟨hplain, hdefault⟩ := Bool.and_eq_true_iff.1 hid
  split at hdefault
  · rename_i p rest hparams
    obtain ⟨e, he, hcalls⟩ : ∃ e, p.default = some e ∧ callsBare id e = true := by
      cases he : p.default with
      | none => simp [he] at hdefault
      | some e => exact ⟨e, rfl, by simpa [he] using hdefault⟩
    have hbind (entry : Entry) (this : Option ObjectRef)
        (hvalue : Starves env.maxDepth (entry.value { this := this } e)) :
        Starves env.maxDepth (bindArgs entry (env.unit.getMethod id) this []) := by
      have hargs : bindArgs entry (env.unit.getMethod id) this [] = (do
          let value ← entry.value { this := this } e
          let values ← defaultArgs entry (env.unit.getMethod id) 0 this rest
          return value :: values) := by
        simp [bindArgs, hparams, defaultArgs, he]
      rw [hargs]
      exact hvalue.bind _
    induction fuel generalizing receiver with
    | zero =>
      refine starves_call le_rfl hplain [] (fun this body _ => (hbind _ this ?_).bind _) receiver
      exact fun _ _ => rfl
    | succ fuel ih =>
      refine starves_call le_rfl hplain [] (fun this body _ => (hbind _ this ?_).bind _) receiver
      intro m hm
      exact starves_callsBare hcalls ih { m with frame := { this := this } } hm
  · cases hdefault

/-- A program that begins with the call of such a method uses up all fuel if calls may be nested at
all. -/
theorem run_beginsWith (hmain : env.entryPoint? = some main)
    (hbegins : beginsWith env.unit main id = true) (hid : beginsItself env.unit id = true)
    (hdepth : 2 ≤ env.maxDepth) (fuel : Nat) (argv : List String) :
    (run env fuel argv).1 = .error .outOfFuel := by
  obtain ⟨⟨hplain, hparams⟩, hbody⟩ : (isPlain env.unit main = true ∧
      (env.unit.getMethod main).params.toList.length = 1) ∧ _ := by
    simpa only [beginsWith, Bool.and_eq_true, beq_iff_eq] using hbegins
  split at hbody
  · rename_i e span rest span' hmainBody
    have hentry (frame : Frame) : Starves env.maxDepth
        ((Entry.fuelled env fuel).body frame (.seq (.expr e span :: rest) span')) := by
      cases fuel with
      | zero => exact fun _ _ => rfl
      | succ fuel =>
        intro m hm
        have heval := starves_callsBare hbody (starves_beginsItself hid fuel)
        exact ((heval.bind _).bind _) { m with frame := frame } hm
    have hcall (ref : ArrayRef) :
        Starves (env.maxDepth - 1) (call env (.fuelled env fuel) main none [.array ref]) := by
      refine starves_call (Nat.sub_le _ 1) hplain _ (fun this body hbody => ?_) none
      rw [hmainBody] at hbody
      cases hbody
      have hargs : bindArgs (.fuelled env fuel) (env.unit.getMethod main) this [.array ref] =
          pure [.array ref] := by
        have hdrop : (env.unit.getMethod main).params.toList.drop 1 = [] :=
          List.drop_eq_nil_of_le hparams.le
        have hsize : (env.unit.getMethod main).params.size = 1 := hparams
        simp [bindArgs, hdrop, hsize, defaultArgs]
      rw [hargs, pure_bind]
      refine Starves.deeper ?_
      rw [Nat.sub_add_cancel (by omega)]
      exact hentry _
    have hrun : run env fuel argv = (call env (.fuelled env fuel) main none
        [.array (Store.newArray {} (argv.map .str)).1])
        { store := (Store.newArray {} (argv.map .str)).2 } := by
      unfold run Env.runMain
      rw [hmain]
      rfl
    rw [hrun]
    exact hcall _ _ (by change 0 < _; omega)
  · cases hbody

/-- A function whose default calls the function itself. -/
def selfDefault : Source := .ofText "default" "function f(a:Int=f()):Int=>a;f();"

/-- A source without `while` that compiles without errors to a program that does not end. -/
theorem run_selfDefault :
    ∃ c, compile selfDefault 1000 {} = .ok c ∧ c.findings = [] ∧
      (∀ i body, (c.unit.getMethod i).body = some body → body.isWhileFree = true) ∧
      ∀ maxDepth, 2 ≤ maxDepth → ∀ fuel argv,
        (run ⟨c.unit, maxDepth⟩ fuel argv).1 = .error .outOfFuel := by
  have hshape : (compile selfDefault 1000 {}).toOption.map (fun c =>
      c.findings = [] ∧ c.unit.isWhileFree = true ∧ Env.entryPoint? ⟨c.unit, 0⟩ = some 0 ∧
        beginsWith c.unit 0 1 = true ∧ beginsItself c.unit 1 = true : Compilation → Bool) =
      some true := by
    decide +kernel
  cases h : compile selfDefault 1000 {} with
  | error e =>
    rw [h] at hshape
    cases hshape
  | ok c =>
    rw [h] at hshape
    obtain ⟨hfindings, hwhile, hmain, hbegins, hself⟩ :=
      of_decide_eq_true (Option.some.inj hshape)
    refine ⟨c, rfl, hfindings, fun i body hbody => CodeUnit.isWhileFree_body hwhile hbody, ?_⟩
    intro maxDepth hdepth fuel argv
    have hmain : Env.entryPoint? ⟨c.unit, maxDepth⟩ = some 0 := hmain
    exact run_beginsWith hmain hbegins hself hdepth fuel argv

end ExpLang.Evaluation
