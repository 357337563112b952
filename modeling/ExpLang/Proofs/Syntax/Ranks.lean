import ExpLang.Proofs.Matching.Cost
import ExpLang.Proofs.Syntax.Constructs
import ExpLang.Proofs.Syntax.Flow

/-!
# The grammar of Exp is not left-recursive

The rules of the language have ranks. Expressions stand below statements, and within each the rules
stand in the order in which the first token is looked for: an expression starts with an operand, that
with an atom, and that with a literal or an operator. Where a rule comes back to itself it has read a
token first: a bracket, an operator or a keyword. That the table of ranks is right is a finite check of
every rule.
-/

namespace ExpLang.Syntax

open Grammar (startState)

/-- Whether a rule reads something where it goes through: all do but the lists of parameters and of
statements. -/
def Kind.isSolid : Kind → Bool
  | .params | .stms => false
  | _ => true

/-- A rule enters only rules of smaller rank before anything is read. -/
def Kind.rank : Kind → Nat
  | .typeDecl | .param | .varDecl | .member | .literal | .access | .unopExpr => 1
  | .params | .atom => 2
  | .operand => 3
  | .expr => 4
  | .exprStm => 5
  | .stm => 6
  | .stms => 7
  | _ => 0

/-- The tables are right about the bodies of all rules. -/
theorem rank_check : ∀ k ∈ Kind.all, ∀ rule ∈ language.rule? k,
    (k.isSolid = true → rule.body.reads Kind.isSolid = true) ∧
      ∀ j ∈ rule.body.leads Kind.isSolid, j.rank < k.rank := by
  decide +kernel

/-- The language reads something wherever one of its rules comes back to itself. -/
theorem language_ranked : language.Ranked Kind.isSolid Kind.rank where
  reads k rule hrule := (rank_check k k.mem_all rule hrule).1
  leads k rule hrule := (rank_check k k.mem_all rule hrule).2
  refs := rfl

end ExpLang.Syntax
