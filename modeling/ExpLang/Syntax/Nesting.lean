import ExpLang.Syntax.Ast

/-!
# Functions inside of statements

How many functions with a body of statements there are in a statement, at any depth: beside one
another, inside of one another and among the members of classes.
-/

namespace ExpLang.Syntax

mutual

/-- Number of functions in a statement. -/
def Stmt.functionCount : Stmt → Nat
  | .block body _ => functionCounts body
  | .ifElse _ thenBranch none _ => thenBranch.functionCount
  | .ifElse _ thenBranch (some elseBranch) _ => thenBranch.functionCount + elseBranch.functionCount
  | .forIn _ _ body _ => body.functionCount
  | .whileLoop _ body _ => body.functionCount
  | .function ⟨_, _, _, .stmt body, _⟩ => body.functionCount + 1
  | .classDecl ⟨_, members, _⟩ => memberFunctionCounts members
  | _ => 0

/-- Number of functions in statements. -/
def functionCounts : List Stmt → Nat
  | [] => 0
  | s :: rest => s.functionCount + functionCounts rest

/-- Number of functions in the members of a class. -/
def memberFunctionCounts : List (MemberDecl Stmt) → Nat
  | [] => 0
  | ⟨_, .method ⟨_, _, _, .stmt body, _⟩, _⟩ :: rest =>
    body.functionCount + 1 + memberFunctionCounts rest
  | _ :: rest => memberFunctionCounts rest

end

end ExpLang.Syntax
