import ExpLang.Resolved.CodeUnit

/-!
# Walks through code

The statements and expressions of a unit in the order of a walk: a thing before its parts, parts
from left to right, and class by class, fields before methods, defaults of parameters before the
body.
-/

namespace ExpLang.Resolved

/-- A thing met on a walk. -/
inductive Visit where
  /-- A class. -/
  | ofClass (id : ClassId)
  /-- A field. -/
  | field (id : FieldId)
  /-- A method. -/
  | method (id : MethodId)
  /-- A statement. -/
  | stmt (s : Stmt)
  /-- An expression. -/
  | expr (e : Expr)
  deriving Inhabited

mutual

/-- An expression and the expressions in it. -/
def Expr.visits : Expr → List Visit
  | .binary op l r i => .expr (.binary op l r i) :: l.visits ++ r.visits
  | .pre op e i => .expr (.pre op e i) :: e.visits
  | .post op e i => .expr (.post op e i) :: e.visits
  | .access e m i => .expr (.access e m i) :: e.visits
  | .index e k i => .expr (.index e k i) :: e.visits ++ k.visits
  | .call e args i => .expr (.call e args i) :: e.visits ++ visitsAll args
  | .new c args i => .expr (.new c args i) :: visitsAll args
  | e => [.expr e]

/-- The expressions of a list and the expressions in them. -/
def Expr.visitsAll : List Expr → List Visit
  | [] => []
  | e :: rest => e.visits ++ Expr.visitsAll rest

end

mutual

/-- A statement and the statements and expressions in it. -/
def Stmt.visits : Stmt → List Visit
  | .seq body s => .stmt (.seq body s) :: visitsAll body
  | .expr e s => .stmt (.expr e s) :: e.visits
  | .ifElse c t none s => .stmt (.ifElse c t none s) :: c.visits ++ t.visits
  | .ifElse c t (some e) s => .stmt (.ifElse c t (some e) s) :: c.visits ++ t.visits ++ e.visits
  | .whileLoop c b s => .stmt (.whileLoop c b s) :: c.visits ++ b.visits
  | .forIn v e b s => .stmt (.forIn v e b s) :: e.visits ++ b.visits
  | .forConst v l h b s => .stmt (.forConst v l h b s) :: b.visits
  | .forRange v l h b s => .stmt (.forRange v l h b s) :: l.visits ++ h.visits ++ b.visits
  | .ret none s => [.stmt (.ret none s)]
  | .ret (some e) s => .stmt (.ret (some e) s) :: e.visits

/-- The statements of a list and what is in them. -/
def Stmt.visitsAll : List Stmt → List Visit
  | [] => []
  | s :: rest => s.visits ++ Stmt.visitsAll rest

end

/-- A walk through two lists of statements is one through the first and then through the second. -/
theorem Stmt.visitsAll_append (body rest : List Stmt) :
    Stmt.visitsAll (body ++ rest) = Stmt.visitsAll body ++ Stmt.visitsAll rest := by
  induction body with
  | nil => rfl
  | cons s body ih =>
    rw [List.cons_append, Stmt.visitsAll, Stmt.visitsAll, ih, List.append_assoc]

namespace CodeUnit

/-- A field and its first value. -/
def fieldVisits (u : CodeUnit) (id : FieldId) : List Visit :=
  .field id :: (u.getField id).init.elim [] Expr.visits

/-- A method, the defaults of its parameters and its body. -/
def methodVisits (u : CodeUnit) (id : MethodId) : List Visit :=
  let m := u.getMethod id
  .method id :: m.params.toList.flatMap (·.default.elim [] Expr.visits)
    ++ m.body.elim [] Stmt.visits

/-- A class, its fields and its methods. -/
def classVisits (u : CodeUnit) (id : ClassId) : List Visit :=
  let c := u.getClass id
  .ofClass id :: c.fields.flatMap u.fieldVisits ++ c.methods.flatMap u.methodVisits

/-- All that a unit holds. -/
def visits (u : CodeUnit) : List Visit := (List.range u.classes.size).flatMap u.classVisits

/-- The line for a thing met on a walk. -/
def visitText (u : CodeUnit) : Visit → String
  | .ofClass id => "class " ++ (u.getClass id).name
  | .field id => "field " ++ (u.getField id).name
  | .method id => "method " ++ (u.getMethod id).name
  | .stmt s => s.form ++ " " ++ s.span.text
  | .expr e => e.form ++ " " ++ e.span.text ++ " " ++ u.typeText e.type

end CodeUnit

end ExpLang.Resolved
