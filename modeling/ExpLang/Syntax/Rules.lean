import ExpLang.Grammar.Basic
import ExpLang.Grammar.Pattern
import ExpLang.Syntax.Operator

/-!
# The grammar of Exp

The rules of the language as one table. Priorities of operators are not part of it: an expression
is a list of operands with operators between them. A statement that starts with a keyword commits
right after it, so that a missing semicolon is reported where it is missing and the statement is
not tried as an expression.
-/

namespace ExpLang.Syntax

/-- The names of the rules. -/
inductive Kind where
  | float
  | int
  | bool
  | id
  | unop
  | binop
  | postOp
  | typeDecl
  | typeTag
  | default
  | init
  | param
  | params
  | varDecl
  | vars
  | exprBody
  | function
  | member
  | classDecl
  | literal
  | accessField
  | accessArray
  | accessCall
  | access
  | unopExpr
  | parenExpr
  | atom
  | operand
  | expr
  | emptyStm
  | exprStm
  | block
  | elseBranch
  | ifStm
  | forStm
  | whileStm
  | returnStm
  | stm
  | stms
  deriving DecidableEq, Repr, Inhabited

/-- Every rule name: tokens, declarations, expressions, statements. -/
def Kind.all : List Kind :=
  [float, int, bool, id, unop, binop, postOp, typeDecl, typeTag, default, init, param, params,
   varDecl, vars, exprBody, function, member, classDecl, literal, accessField, accessArray,
   accessCall, access, unopExpr, parenExpr, atom, operand, expr, emptyStm, exprStm, block,
   elseBranch, ifStm, forStm, whileStm, returnStm, stm, stms]

/-- The name of a rule in reports. -/
def Kind.name : Kind → String
  | float => "float literal"
  | int => "integer literal"
  | bool => "boolean literal"
  | id => "identifier"
  | unop => "unary operator"
  | binop => "binary operator"
  | postOp => "postfix operator"
  | typeDecl => "type"
  | typeTag => "type annotation"
  | default => "default value"
  | init => "initializer"
  | param => "parameter"
  | params => "parameter list"
  | varDecl => "variable declaration"
  | vars => "`var` statement"
  | exprBody => "expression body"
  | function => "function"
  | member => "class member"
  | classDecl => "class"
  | literal => "literal"
  | accessField => "field access"
  | accessArray => "index"
  | accessCall => "call arguments"
  | access => "access"
  | unopExpr => "unary expression"
  | parenExpr => "parenthesized expression"
  | atom => "operand"
  | operand => "operand"
  | expr => "expression"
  | emptyStm => "empty statement"
  | exprStm => "expression statement"
  | block => "block"
  | elseBranch => "else branch"
  | ifStm => "`if` statement"
  | forStm => "`for` statement"
  | whileStm => "`while` statement"
  | returnStm => "`return` statement"
  | stm => "statement"
  | stms => "statements"

instance : RuleName Kind := ⟨Kind.name⟩

/-- The Latin letters, and the two other letters that differ from one of them in case only. -/
def letters : CharSet :=
  .union (.union (.range 'a' 'z') (.range 'A' 'Z')) (.union (.single '\u017f') (.single '\u212a'))

/-- Digits with a point between them; digits before the point may be missing. -/
def floatPattern : Pattern :=
  .seq (.star (.one .digit)) (.seq (.one (.single '.')) (.plus (.one .digit)))

/-- A digit, then digits and underscores. -/
def intPattern : Pattern :=
  .seq (.one .digit) (.star (.one (.union .digit (.single '_'))))

/-- One of the two truth values, not followed by more of a word. -/
def boolPattern : Pattern :=
  .seq (.alt (.literal "true".toList) (.literal "false".toList)) .boundary

/-- A letter, then word characters. -/
def idPattern : Pattern := .seq (.one letters) (.star (.one .word))

/-- The definitions of the tokens. -/
def tokenRules : List (Kind × Rule Kind) :=
  [(.float, ⟨0, .pattern floatPattern "float literal"⟩),
   (.int, ⟨0, .pattern intPattern "integer literal"⟩),
   (.bool, ⟨0, .pattern boolPattern "boolean literal"⟩),
   (.id, ⟨0, .pattern idPattern "identifier"⟩),
   (.unop, ⟨0, .lits ["++", "--", "+", "-", "!", "~"]⟩),
   (.binop, ⟨0, .lits (BinaryOp.all.map BinaryOp.symbol)⟩),
   (.postOp, ⟨0, .lits ["++", "--"]⟩)]

/-- The definitions of types and declarations. -/
def declRules : List (Kind × Rule Kind) :=
  [(.typeDecl, ⟨2, .seq [.rule .id, .list (.lit "[]") none 0]⟩),
   (.typeTag, ⟨1, .seq [.lit ":", .sure, .rule .typeDecl]⟩),
   (.default, ⟨1, .seq [.lit "=", .sure, .rule .expr]⟩),
   (.init, ⟨2, .seq [.lits ["=>", "="], .sure, .rule .expr]⟩),
   (.param, ⟨3, .seq [.rule .id, .optional (.rule .typeTag), .optional (.rule .default)]⟩),
   (.params, ⟨1, .list (.rule .param) (some (.lit ",")) 0⟩),
   (.varDecl, ⟨3, .seq [.rule .id, .optional (.rule .typeTag), .optional (.rule .init)]⟩),
   (.vars, ⟨2, .seq [.optional (.lit "lazy"), .lit "var", .sure,
      .list (.rule .varDecl) (some (.lit ",")) 1, .lit ";"]⟩),
   (.exprBody, ⟨1, .seq [.lit "=>", .sure, .rule .expr, .lit ";"]⟩),
   (.function, ⟨4, .seq [.lit "function", .sure, .rule .id, .lit "(", .rule .params, .lit ")",
      .optional (.rule .typeTag), .any [.rule .exprBody, .rule .stm]]⟩),
   (.member, ⟨2, .seq [.optional (.lit "static"), .any [.rule .vars, .rule .function]]⟩),
   (.classDecl, ⟨2, .seq [.lit "class", .sure, .rule .id, .lit "\x7b",
      .list (.rule .member) none 0, .lit "\x7d"]⟩)]

/-- The definitions of expressions. -/
def exprRules : List (Kind × Rule Kind) :=
  [(.literal, ⟨1, .any [.rule .bool, .rule .float, .rule .int, .rule .id]⟩),
   (.accessField, ⟨1, .seq [.lit ".", .rule .id]⟩),
   (.accessArray, ⟨1, .seq [.lit "[", .sure, .rule .expr, .lit "]"]⟩),
   (.accessCall, ⟨1, .seq [.lit "(", .sure, .list (.rule .expr) (some (.lit ",")) 0, .lit ")"]⟩),
   (.access, ⟨1, .any [.rule .accessField, .rule .accessArray, .rule .accessCall,
      .rule .postOp]⟩),
   (.unopExpr, ⟨2, .seq [.rule .unop, .rule .operand]⟩),
   (.parenExpr, ⟨1, .seq [.lit "(", .sure, .rule .expr, .lit ")"]⟩),
   (.atom, ⟨1, .any [.rule .literal, .rule .unopExpr, .rule .parenExpr]⟩),
   (.operand, ⟨2, .seq [.rule .atom, .list (.rule .access) none 0]⟩),
   (.expr, ⟨1, .list (.rule .operand) (some (.rule .binop)) 1⟩)]

/-- The definitions of statements. -/
def stmRules : List (Kind × Rule Kind) :=
  [(.emptyStm, ⟨0, .lit ";"⟩),
   (.exprStm, ⟨1, .seq [.rule .expr, .sure, .lit ";"]⟩),
   (.block, ⟨1, .seq [.lit "\x7b", .sure, .rule .stms, .lit "\x7d"]⟩),
   (.elseBranch, ⟨1, .seq [.lit "else", .sure, .rule .stm]⟩),
   (.ifStm, ⟨3, .seq [.lit "if", .sure, .lit "(", .rule .expr, .lit ")", .rule .stm,
      .optional (.rule .elseBranch)]⟩),
   (.forStm, ⟨3, .seq [.lit "for", .sure, .lit "(", .rule .id, .lit "in", .rule .expr, .lit ")",
      .rule .stm]⟩),
   (.whileStm, ⟨2, .seq [.lit "while", .sure, .lit "(", .rule .expr, .lit ")", .rule .stm]⟩),
   (.returnStm, ⟨1, .seq [.lit "return", .sure, .optional (.rule .expr), .lit ";"]⟩),
   (.stm, ⟨1, .any [.rule .emptyStm, .rule .block, .rule .ifStm, .rule .forStm, .rule .whileStm,
      .rule .returnStm, .rule .classDecl, .rule .vars, .rule .function, .rule .exprStm]⟩),
   (.stms, ⟨1, .list (.rule .stm) none 0⟩)]

/-- The definitions of the language. -/
def draft : GrammarDraft Kind := { rules := tokenRules ++ declRules ++ exprRules ++ stmRules }

/-- The grammar of the language. -/
def grammar : Except GrammarFault (Grammar Kind) := draft.build

end ExpLang.Syntax
