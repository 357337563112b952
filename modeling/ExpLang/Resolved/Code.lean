import ExpLang.Syntax.Operator
import ExpLang.Text.Span
import ExpLang.Types.Pool

/-!
# Resolved code

Code in which every name stands for what it means: a local, a parameter, a member or a class. Each
expression carries its type and the place in the source that it comes from. A loop over a range of
integers has two forms of its own, for bounds that are literals and for bounds that are computed
once.
-/

namespace ExpLang.Resolved

/-- The index of a method. -/
abbrev MethodId := Nat

/-- The index of a field. -/
abbrev FieldId := Nat

/-- The index of a local in its method. -/
abbrev LocalId := Nat

/-- The position of a parameter in its method. -/
abbrev ParamId := Nat

/-- A field or a method. -/
inductive Member where
  | field (id : FieldId)
  | method (id : MethodId)
  deriving DecidableEq, Repr, Inhabited

/-- A value that is written in the code. -/
inductive Literal where
  | int (value : Int64)
  | float (value : Float)
  | bool (value : Bool)
  deriving Repr, Inhabited

/-- What every expression carries. -/
structure Info where
  /-- Its type. -/
  type : TypeId
  /-- Where it comes from. -/
  span : Span
  deriving DecidableEq, Repr, Inhabited

/-- An expression. -/
inductive Expr where
  /-- An operator on two operands. -/
  | binary (op : BinaryOp) (left right : Expr) (info : Info)
  /-- An operator before its operand. -/
  | pre (op : PrefixOp) (operand : Expr) (info : Info)
  /-- An operator after its operand. -/
  | post (op : PostfixOp) (operand : Expr) (info : Info)
  /-- A value. -/
  | literal (value : Literal) (info : Info)
  /-- A local. -/
  | localVar (id : LocalId) (info : Info)
  /-- A parameter. -/
  | argument (id : ParamId) (info : Info)
  /-- A member of the class around, without a receiver. -/
  | member (m : Member) (info : Info)
  /-- A class. -/
  | classRef (id : ClassId) (info : Info)
  /-- The receiver. -/
  | this (info : Info)
  /-- A member of an object or a class. -/
  | access (target : Expr) (m : Member) (info : Info)
  /-- An element of an array. -/
  | index (target index : Expr) (info : Info)
  /-- A call. -/
  | call (callee : Expr) (args : List Expr) (info : Info)
  /-- A new object. -/
  | new (id : ClassId) (args : List Expr) (info : Info)
  /-- A name that stands for nothing. -/
  | unknown (name : String) (info : Info)
  deriving Inhabited

namespace Expr

/-- What an expression carries. -/
def info : Expr → Info
  | binary _ _ _ i | pre _ _ i | post _ _ i | literal _ i | localVar _ i | argument _ i
  | member _ i | classRef _ i | this i | access _ _ i | index _ _ i | call _ _ i | new _ _ i
  | unknown _ i => i

/-- The type of an expression. -/
def type (e : Expr) : TypeId := e.info.type

/-- Where an expression comes from. -/
def span (e : Expr) : Span := e.info.span

/-- The value of an integer literal. -/
def int? : Expr → Option Int64
  | literal (.int value) _ => some value
  | _ => none

/-- The name of the form of an expression. -/
def form : Expr → String
  | binary .. => "BinOp"
  | pre .. => "UnopPre"
  | post .. => "UnopPost"
  | literal .. => "Immediate"
  | localVar .. => "Local"
  | argument .. => "Argument"
  | member .. => "Member"
  | classRef .. => "Class"
  | this .. => "This"
  | access .. => "MemberAccess"
  | index .. => "ArrayAccess"
  | call .. => "Call"
  | new .. => "New"
  | unknown .. => "Unknown"

end Expr

/-- A statement. -/
inductive Stmt where
  /-- Statements one after the other. -/
  | seq (body : List Stmt) (span : Span)
  /-- An expression for its effects. -/
  | expr (e : Expr) (span : Span)
  /-- A choice. -/
  | ifElse (cond : Expr) (thenBranch : Stmt) (elseBranch : Option Stmt) (span : Span)
  /-- A loop under a condition. -/
  | whileLoop (cond : Expr) (body : Stmt) (span : Span)
  /-- A loop over the elements of something. -/
  | forIn (var : LocalId) (iterable : Expr) (body : Stmt) (span : Span)
  /-- A loop over the integers between two literals. -/
  | forConst (var : LocalId) (low high : Int64) (body : Stmt) (span : Span)
  /-- A loop over the integers between two values. -/
  | forRange (var : LocalId) (low high : Expr) (body : Stmt) (span : Span)
  /-- The end of a method. -/
  | ret (value : Option Expr) (span : Span)
  deriving Inhabited

namespace Stmt

/-- Where a statement comes from. -/
def span : Stmt → Span
  | seq _ s | expr _ s | ifElse _ _ _ s | whileLoop _ _ s | forIn _ _ _ s | forConst _ _ _ _ s
  | forRange _ _ _ _ s | ret _ s => s

/-- The statement that does nothing. -/
def skip (span : Span) : Stmt := seq [] span

/-- The name of the form of a statement. -/
def form : Stmt → String
  | seq .. => "Statements"
  | expr .. => "Expression"
  | ifElse .. => "If"
  | whileLoop .. => "While"
  | forIn .. => "For"
  | forConst .. => "FastFor"
  | forRange .. => "Fast2For"
  | ret .. => "Return"

end Stmt

end ExpLang.Resolved
