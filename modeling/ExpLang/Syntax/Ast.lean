import ExpLang.Decimal.Shortest
import ExpLang.Syntax.Operator
import ExpLang.Text.Span

/-!
# Abstract syntax

Expressions, statements and declarations as they stand in the source. Operators are grouped by
their priority already, and parentheses leave no trace of their own. Declarations of functions and
classes are statements, so that they nest.
-/

namespace ExpLang.Syntax

/-- A name where it stands. -/
structure Ident where
  /-- The name. -/
  name : String
  /-- Where it stands. -/
  span : Span
  deriving DecidableEq, Repr, Inhabited

/-- A type as it is written: a name followed by pairs of brackets. -/
structure TypeRef where
  /-- The name. -/
  name : Ident
  /-- Number of pairs of brackets. -/
  dims : Nat
  /-- Where it stands. -/
  span : Span
  deriving DecidableEq, Repr, Inhabited

/-- An expression. -/
inductive Expr where
  /-- An integer literal. -/
  | int (value : Int64) (span : Span)
  /-- A fraction literal. -/
  | float (value : Float) (span : Span)
  /-- A truth value. -/
  | bool (value : Bool) (span : Span)
  /-- A name. -/
  | ident (name : Ident)
  /-- An operator before its operand. -/
  | unary (op : PrefixOp) (operand : Expr) (span : Span)
  /-- An operator after its operand. -/
  | post (op : PostfixOp) (operand : Expr) (span : Span)
  /-- An operator between two operands. -/
  | binary (op : BinaryOp) (left right : Expr) (span : Span)
  /-- A member of an object. -/
  | field (target : Expr) (name : Ident) (span : Span)
  /-- An element of an array. -/
  | index (target index : Expr) (span : Span)
  /-- A call. -/
  | call (callee : Expr) (args : List Expr) (span : Span)
  deriving Inhabited

namespace Expr

/-- Where an expression stands. -/
def span : Expr → Span
  | int _ span | float _ span | bool _ span => span
  | ident name => name.span
  | unary _ _ span | post _ _ span | binary _ _ _ span | field _ _ span | index _ _ span
  | call _ _ span => span

mutual

/-- An expression in fully parenthesized form, operators first. -/
def sexpr : Expr → String
  | int value _ => toString value.toInt
  | float value _ => Shortest.general value
  | bool value _ => if value then "true" else "false"
  | ident name => name.name
  | unary op operand _ => "(" ++ op.symbol ++ " " ++ operand.sexpr ++ ")"
  | post op operand _ => "(post" ++ op.symbol ++ " " ++ operand.sexpr ++ ")"
  | binary op left right _ => "(" ++ op.symbol ++ " " ++ left.sexpr ++ " " ++ right.sexpr ++ ")"
  | field target name _ => "(. " ++ target.sexpr ++ " " ++ name.name ++ ")"
  | index target i _ => "([] " ++ target.sexpr ++ " " ++ i.sexpr ++ ")"
  | call callee args _ => "(call " ++ callee.sexpr ++ sexprs args ++ ")"

/-- Arguments in fully parenthesized form, a space before each. -/
def sexprs : List Expr → String
  | [] => ""
  | arg :: args => " " ++ arg.sexpr ++ sexprs args

end

end Expr

/-- One variable of a declaration. -/
structure VarDecl where
  /-- Its name. -/
  name : Ident
  /-- Its type, if it is given. -/
  type : Option TypeRef
  /-- Its first value, if it is given. -/
  init : Option Expr
  /-- Whether the value is given after an arrow. -/
  deferred : Bool
  /-- Where the declaration stands. -/
  span : Span
  deriving Inhabited

/-- A declaration of variables. -/
structure VarsDecl where
  /-- Whether it is marked as lazy. -/
  isLazy : Bool
  /-- The variables. -/
  decls : List VarDecl
  /-- Where it stands. -/
  span : Span
  deriving Inhabited

/-- A parameter of a function. -/
structure Param where
  /-- Its name. -/
  name : Ident
  /-- Its type, if it is given. -/
  type : Option TypeRef
  /-- Its value where an argument is missing. -/
  default : Option Expr
  /-- Where it stands. -/
  span : Span
  deriving Inhabited

/-- What a function does, over a type of statements. -/
inductive FunctionBody (σ : Type) where
  /-- It returns the value of an expression. -/
  | expr (e : Expr)
  /-- It executes a statement. -/
  | stmt (s : σ)
  deriving Inhabited

/-- A declaration of a function, over a type of statements. -/
structure FunctionDecl (σ : Type) where
  /-- Its name. -/
  name : Ident
  /-- Its parameters. -/
  params : List Param
  /-- The type of its result, if it is given. -/
  ret : Option TypeRef
  /-- What it does. -/
  body : FunctionBody σ
  /-- Where it stands. -/
  span : Span
  deriving Inhabited

/-- What a member of a class is, over a type of statements. -/
inductive MemberKind (σ : Type) where
  /-- One or more fields. -/
  | fields (vars : VarsDecl)
  /-- A method. -/
  | method (function : FunctionDecl σ)
  deriving Inhabited

/-- A declaration of a member, over a type of statements. -/
structure MemberDecl (σ : Type) where
  /-- Whether it belongs to the class itself and not to its objects. -/
  isStatic : Bool
  /-- What it is. -/
  kind : MemberKind σ
  /-- Where it stands. -/
  span : Span
  deriving Inhabited

/-- A declaration of a class, over a type of statements. -/
structure ClassDecl (σ : Type) where
  /-- Its name. -/
  name : Ident
  /-- Its members. -/
  members : List (MemberDecl σ)
  /-- Where it stands. -/
  span : Span
  deriving Inhabited

/-- A statement. -/
inductive Stmt where
  /-- A semicolon. -/
  | empty (span : Span)
  /-- An expression for its effects. -/
  | expr (e : Expr) (span : Span)
  /-- Statements between braces. -/
  | block (body : List Stmt) (span : Span)
  /-- A choice. -/
  | ifElse (cond : Expr) (thenBranch : Stmt) (elseBranch : Option Stmt) (span : Span)
  /-- A loop over the elements of something. -/
  | forIn (name : Ident) (iterable : Expr) (body : Stmt) (span : Span)
  /-- A loop under a condition. -/
  | whileLoop (cond : Expr) (body : Stmt) (span : Span)
  /-- The end of a function. -/
  | ret (value : Option Expr) (span : Span)
  /-- A declaration of variables. -/
  | vars (decl : VarsDecl)
  /-- A declaration of a function. -/
  | function (decl : FunctionDecl Stmt)
  /-- A declaration of a class. -/
  | classDecl (decl : ClassDecl Stmt)
  deriving Inhabited

/-- Where a statement stands. -/
def Stmt.span : Stmt → Span
  | empty span | expr _ span | block _ span | ifElse _ _ _ span | forIn _ _ _ span
  | whileLoop _ _ span | ret _ span => span
  | vars decl => decl.span
  | function decl => decl.span
  | classDecl decl => decl.span

/-- The statements of a whole source. -/
structure Program where
  /-- The statements. -/
  body : List Stmt
  /-- Where they stand. -/
  span : Span
  deriving Inhabited

end ExpLang.Syntax
