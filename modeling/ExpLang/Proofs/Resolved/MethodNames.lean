import ExpLang.Resolved.Scope

/-!
# The methods that code names

A member expression names a method by its index. Code is in order in a unit if every method it names
is one of the unit, that is, if the indices are below the number of methods. A unit only ever gets
more methods, so code that is in order stays so.
-/

namespace ExpLang.Resolved

/-- The method that a member is, if it is one. -/
def Member.methods : Member → List MethodId
  | .field _ => []
  | .method id => [id]

mutual

/-- The methods that an expression names. -/
def Expr.methods : Expr → List MethodId
  | .binary _ left right _ => left.methods ++ right.methods
  | .pre _ operand _ | .post _ operand _ => operand.methods
  | .member m _ => m.methods
  | .access target m _ => target.methods ++ m.methods
  | .index target key _ => target.methods ++ key.methods
  | .call callee args _ => callee.methods ++ Expr.methodsAll args
  | .new _ args _ => Expr.methodsAll args
  | .literal _ _ | .localVar _ _ | .argument _ _ | .classRef _ _ | .this _ | .unknown _ _ => []

/-- The methods that the expressions of a list name. -/
def Expr.methodsAll : List Expr → List MethodId
  | [] => []
  | e :: rest => e.methods ++ Expr.methodsAll rest

end

mutual

/-- The methods that a statement names. -/
def Stmt.methods : Stmt → List MethodId
  | .seq body _ => Stmt.methodsAll body
  | .expr e _ => e.methods
  | .ifElse cond thenBranch none _ => cond.methods ++ thenBranch.methods
  | .ifElse cond thenBranch (some elseBranch) _ =>
    cond.methods ++ thenBranch.methods ++ elseBranch.methods
  | .whileLoop cond body _ => cond.methods ++ body.methods
  | .forIn _ iterable body _ => iterable.methods ++ body.methods
  | .forConst _ _ _ body _ => body.methods
  | .forRange _ low high body _ => low.methods ++ high.methods ++ body.methods
  | .ret none _ => []
  | .ret (some e) _ => e.methods

/-- The methods that the statements of a list name. -/
def Stmt.methodsAll : List Stmt → List MethodId
  | [] => []
  | s :: rest => s.methods ++ Stmt.methodsAll rest

end

/-- The indices of a list are all below a bound. -/
def Below (ids : List MethodId) (n : Nat) : Prop := ∀ id ∈ ids, id < n

variable {ids ids' : List MethodId} {n n' : Nat}

/-- No names are below any number. -/
@[simp] theorem below_nil : Below [] n := fun _ h => by cases h

/-- Two lists of names are below a number if each is. -/
@[simp] theorem below_append : Below (ids ++ ids') n ↔ Below ids n ∧ Below ids' n :=
  List.forall_mem_append

/-- Names below a number are below a larger one. -/
theorem Below.mono (h : Below ids n) (hle : n ≤ n') : Below ids n' :=
  fun id hid => Nat.lt_of_lt_of_le (h id hid) hle

/-- The methods that the default of a parameter names. -/
def ParamDef.methods (p : ParamDef) : List MethodId := p.default.elim [] Expr.methods

/-- The methods that the first value of a field names. -/
def FieldDef.methods (f : FieldDef) : List MethodId := f.init.elim [] Expr.methods

/-- The methods that the defaults and the body of a method name. -/
def MethodDef.methods (m : MethodDef) : List MethodId :=
  m.params.toList.flatMap ParamDef.methods ++ m.body.elim [] Stmt.methods

end ExpLang.Resolved
