import ExpLang.Proofs.Evaluation.Termination

/-!
# The depth of calls

A machine counts how deep calls are nested: one is added before the body of a method runs and one is
taken away after it, and a call where the count is at its limit is refused. A step can stop with an
error inside of arguments, of defaults, of first values, of places and of loops, at any depth. The
count is then what it was before, as it is after a step that gives a value.

To say where the count stands while a step runs, `Entry.counted` goes by the number of bodies that
are open, which each entry is told, and not by the machine. It runs code only on a machine whose
count is that number, and a body only if the limit allows for that number, and does something else
otherwise. What is done otherwise makes no difference to any run.
-/

namespace ExpLang.Evaluation

open Resolved

variable {α : Type} {Q : α → Prop} {env : Env}

/-! ## Entries that count the open bodies -/

/-- A step that is taken at a depth, and another one at all other depths. -/
def atDepth (d : Nat) (x other : Eval α) : Eval α := fun m =>
  if m.depth = d then x m else other m

/-- The entry with some fuel where a number of bodies are open. The value of an expression is found
at a depth that is their number, and a body runs one call deeper if that is within the limit; in all
other cases another entry is used. -/
def Entry.counted (env : Env) (other : Entry) : Nat → Nat → Entry
  | 0, _ => .closed
  | fuel + 1, d => {
      value := fun frame e =>
        atDepth d (inFrame frame (eval env (counted env other fuel d) e)) (other.value frame e)
      body := fun frame s =>
        if d + 1 ≤ env.maxDepth then
          atDepth (d + 1) (inFrame frame (exec env (counted env other fuel (d + 1)) fuel s))
            (other.body frame s)
        else other.body frame s }

/-- A step that ends at a depth ends so whatever is done at other depths. -/
theorem Ends.atDepth {d : Nat} {x y : Eval α} (hxy : Ends True d Q x y) (other : Eval α) :
    Ends True d Q x (atDepth d y other) := by
  constructor
  intro m hm
  obtain ⟨r, m', hx, hy, hm', hr⟩ := hxy.of_run m hm
  refine ⟨r, m', hx, ?_, hm', hr⟩
  rw [Evaluation.atDepth, if_pos hm, hy]

/-- The machine counts the open bodies. -/
theorem ends_counted (env : Env) (other : Entry) (fuel d : Nat) :
    Entry.Ends env (fun _ => True) True d (.fuelled env fuel) (.counted env other fuel d) := by
  induction fuel generalizing d with
  | zero =>
    exact ⟨fun _ _ _ _ _ => ⟨fun m hm => ⟨.error .outOfFuel, m, rfl, rfl, hm, trivial⟩⟩,
      fun _ _ _ _ _ => ⟨fun m hm => ⟨.error .outOfFuel, m, rfl, rfl, hm, trivial⟩⟩⟩
  | succ fuel ih =>
    refine ⟨fun _ _ e _ frame => ?_, fun hd _ body _ frame => ?_⟩
    · have heval := (ends_eval (ih d) e fun _ _ => trivial).mono fun _ _ => trivial
      exact (heval.inFrame frame).atDepth _
    · have hexec : Ends True (d + 1) (fun _ => True) (exec env (.fuelled env fuel) fuel body)
          (exec env (.counted env other fuel (d + 1)) fuel body) :=
        ends_exec (ih (d + 1)) (fun _ => trivial) body (.inr ⟨trivial, rfl⟩)
      dsimp only [Entry.counted]
      rw [if_pos (Nat.succ_le_of_lt hd)]
      exact (hexec.inFrame frame).atDepth _

/-! ## Steps that keep the depth -/

/-- A step ends at the depth at which it begins, and all that it enters is entered at the depth that
the open bodies make, the bodies of methods within the limit. -/
structure Balanced (env : Env) (fuel : Nat) (x : Entry → Eval α) : Prop where
  kept : ∀ m, (x (.fuelled env fuel) m).2.depth = m.depth
  counted : ∀ other m, x (.counted env other fuel m.depth) m = x (.fuelled env fuel) m

/-- Steps that end alike whatever their entry counts are balanced. -/
theorem Balanced.of_ends {fuel : Nat} {x : Entry → Eval α}
    (h : ∀ other d, Entry.Ends env (fun _ => True) True d (.fuelled env fuel)
      (.counted env other fuel d) →
      Ends True d Q (x (.fuelled env fuel)) (x (.counted env other fuel d))) :
    Balanced env fuel x := by
  have hrun (other : Entry) (m : Machine) :=
    (h other m.depth (ends_counted env other fuel m.depth)).of_run m rfl
  constructor
  · intro m
    obtain ⟨r, m', hx, -, hm', -⟩ := hrun .closed m
    rw [hx, hm']
  · intro other m
    obtain ⟨r, m', hx, hy, -, -⟩ := hrun other m
    rw [hx, hy]

/-- Run the program, with what its code enters. -/
def Env.mainThrough (env : Env) (entry : Entry) (argv : List String) : Eval Value := do
  match env.entryPoint? with
  | none => fail (.noEntryPoint Lowering.mainClass Lowering.mainMethod)
  | some main =>
    let args ← onStore (·.newArray (argv.map .str))
    call env entry main none [.array args]

/-- A run of the main method calls it with the entry of its fuel. -/
theorem runMain_eq_mainThrough (env : Env) (fuel : Nat) (argv : List String) :
    env.runMain fuel argv = env.mainThrough (.fuelled env fuel) argv :=
  rfl

/-! ## Sessions -/

/-- What a session asks of a machine. -/
inductive Request where
  /-- To run the program. -/
  | main (argv : List String)
  /-- To call a method. -/
  | call (id : MethodId) (receiver : Option ObjectRef) (args : List Value)
  /-- To make an object of a class. -/
  | object (owner : ClassId)
  /-- To find the value of an expression in a frame. -/
  | value (frame : Frame) (e : Expr)
  /-- To run a statement in a frame. -/
  | body (frame : Frame) (s : Stmt)

/-- The machine that a request leaves, however it ends. -/
def Request.after (env : Env) (fuel : Nat) (m : Machine) : Request → Machine
  | .main argv => (env.runMain fuel argv m).2
  | .call id receiver args => (env.callMethod fuel id receiver args m).2
  | .object owner => (env.makeObject fuel owner m).2
  | .value frame e => (inFrame frame (eval env (.fuelled env fuel) e) m).2
  | .body frame s => (inFrame frame (exec env (.fuelled env fuel) fuel s) m).2

/-- The machine that a session leaves. -/
def session (env : Env) (fuel : Nat) (m : Machine) (requests : List Request) : Machine :=
  requests.foldl (Request.after env fuel) m

/-- A session keeps the depth if each request does. -/
theorem session_depth {fuel : Nat}
    (h : ∀ m request, (Request.after env fuel m request).depth = m.depth) (m : Machine)
    (requests : List Request) : (session env fuel m requests).depth = m.depth := by
  induction requests generalizing m with
  | nil => rfl
  | cons request rest ih =>
    calc (session env fuel m (request :: rest)).depth
        = (session env fuel (request.after env fuel m) rest).depth := rfl
      _ = (request.after env fuel m).depth := ih _
      _ = m.depth := h m request

/-- However a step ends, with a value or with an error from any depth, the depth of calls is what it
was before, and while it ran no body of a method ran beyond the limit: so for expressions and
statements, for calls of methods, for new objects and for whole programs. What a session does next
finds the depth at which the session began. -/
theorem depth_kept (env : Env) (fuel rounds : Nat) :
    (∀ e, Balanced env fuel (eval env · e)) ∧
    (∀ s, Balanced env fuel (exec env · rounds s)) ∧
    (∀ id receiver args, Balanced env fuel (call env · id receiver args)) ∧
    (∀ owner, Balanced env fuel (newObject env · owner)) ∧
    (∀ argv, Balanced env fuel (env.mainThrough · argv)) ∧
    ∀ m requests, (session env fuel m requests).depth = m.depth := by
  have heval (e : Expr) : Balanced env fuel (eval env · e) :=
    .of_ends fun _ _ hentry => ends_eval hentry e fun _ _ => trivial
  have hexec (rounds : Nat) (s : Stmt) : Balanced env fuel (exec env · rounds s) :=
    .of_ends fun _ _ hentry => ends_exec hentry (fun _ => trivial) s (.inr ⟨trivial, rfl⟩)
  have hcall (id : MethodId) (receiver : Option ObjectRef) (args : List Value) :
      Balanced env fuel (call env · id receiver args) :=
    .of_ends fun _ _ hentry => ends_call hentry id (fun _ => trivial) receiver args
  have hobject (owner : ClassId) : Balanced env fuel (newObject env · owner) :=
    .of_ends fun _ _ hentry => ends_newObject hentry owner fun _ _ => trivial
  have hmain (argv : List String) : Balanced env fuel (env.mainThrough · argv) := by
    refine .of_ends (Q := fun _ => True) fun _ _ hentry => ?_
    dsimp only [Env.mainThrough]
    split
    · exact ends_fail
    · apply Ends.bind (ends_onStore _)
      exact fun args _ => ends_call hentry _ (fun _ => trivial) none _
  refine ⟨heval, hexec rounds, hcall, hobject, hmain, session_depth fun m request => ?_⟩
  cases request with
  | main argv =>
    rw [Request.after, runMain_eq_mainThrough]
    exact (hmain argv).kept m
  | call id receiver args => exact (hcall id receiver args).kept m
  | object owner => exact (hobject owner).kept m
  | value frame e => exact (heval e).kept { m with frame := frame }
  | body frame s => exact (hexec fuel s).kept { m with frame := frame }

end ExpLang.Evaluation
