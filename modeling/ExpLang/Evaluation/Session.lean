import ExpLang.Evaluation.Run
import ExpLang.Lowering.Program

/-!
# Sessions

A session works on one machine: methods are called and objects are made one after the other, and
each step finds the machine as the step before left it, also where that one stopped with an error.
To run a program is to call its `Main.main` with the arguments of the program as an array of texts.
-/

namespace ExpLang.Evaluation

open Resolved

namespace Env

/-- Call a method. -/
def callMethod (env : Env) (fuel : Nat) (id : MethodId) (receiver : Option ObjectRef)
    (args : List Value) : Eval Value :=
  call env (.fuelled env fuel) id receiver args

/-- Make an object of a class. -/
def makeObject (env : Env) (fuel : Nat) (owner : ClassId) : Eval ObjectRef :=
  newObject env (.fuelled env fuel) owner

/-- The method that a program starts in. -/
def entryPoint? (env : Env) : Option MethodId := do
  let owner ← env.unit.classNamed? Lowering.mainClass
  env.unit.methodNamed? owner Lowering.mainMethod

/-- Run the program. -/
def runMain (env : Env) (fuel : Nat) (argv : List String) : Eval Value := do
  match env.entryPoint? with
  | none => fail (.noEntryPoint Lowering.mainClass Lowering.mainMethod)
  | some main =>
    let args ← onStore (·.newArray (argv.map .str))
    env.callMethod fuel main none [.array args]

end Env

/-- Run a program on a new machine. -/
def run (env : Env) (fuel : Nat) (argv : List String) : Except Stop Value × Machine :=
  (env.runMain fuel argv).run.run {}

end ExpLang.Evaluation
