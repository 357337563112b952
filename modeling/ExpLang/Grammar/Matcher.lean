import ExpLang.Grammar.Literals
import ExpLang.Grammar.Skipper
import ExpLang.Grammar.TokenReader

/-!
# Matchers

A matcher describes a piece of a language: tokens, sequences, ordered choices, lists, optional
parts, named rules and placeholders that are filled in later. A cut inside a sequence says that
past this point the sequence is committed: what fails after it is an error of the input and no
reason to try another alternative.
-/

namespace ExpLang

/-- A type of rule names. -/
class RuleName (κ : Type) where
  /-- The name under which a rule is reported. -/
  name : κ → String

instance : RuleName String := ⟨id⟩

/-- A description of a piece of a language. -/
inductive Matcher (κ : Type) where
  /-- A fixed token. It is not captured. -/
  | literal (text : List Char)
  /-- The longest of several fixed tokens. -/
  | literals (set : Literals)
  /-- A token given by its reader; `what` names it in reports. -/
  | pattern (reader : TokenReader) (what : String)
  /-- One matcher after the other. -/
  | seq (items : List (Matcher κ))
  /-- The first alternative that matches completely. -/
  | any (alternatives : List (Matcher κ))
  /-- Elements with separators between them, at least `least` elements. -/
  | list (element : Matcher κ) (separator : Option (Matcher κ)) (least : Nat)
  /-- A matcher or nothing. -/
  | optional (body : Matcher κ)
  /-- A named rule. -/
  | rule (name : κ)
  /-- A placeholder, by its number. -/
  | ref (index : Nat)
  /-- The cut. -/
  | sure
  /-- A matcher under another skipper. -/
  | skip (skipper : Skipper) (body : Matcher κ)
  deriving Inhabited

namespace Matcher

variable {κ : Type}

/-- The matcher for a fixed token. -/
def lit (text : String) : Matcher κ := literal text.toList

/-- The matcher for the longest of several fixed tokens. -/
def lits (texts : List String) : Matcher κ := literals (.ofList (texts.map String.toList))

/-- Whether a matcher is the cut. -/
def isSure : Matcher κ → Bool
  | sure => true
  | _ => false

/-- Whether a sequence captures this item: fixed tokens and cuts carry no information. -/
def isStored : Matcher κ → Bool
  | literal _ | sure => false
  | _ => true

/-- Number of captures that a rule with this body has. -/
def arity : Matcher κ → Nat
  | seq items => items.countP isStored
  | literal _ | literals _ | pattern .. | sure => 0
  | _ => 1

mutual

/-- Number of matchers in a matcher, itself included. -/
def size : Matcher κ → Nat
  | seq items => 1 + sizeAll items
  | any alternatives => 1 + sizeAll alternatives
  | list element separator _ => 1 + element.size + sizeOption separator
  | optional body | skip _ body => 1 + body.size
  | _ => 1

/-- Number of matchers in the matchers of a list. -/
def sizeAll : List (Matcher κ) → Nat
  | [] => 0
  | m :: rest => m.size + sizeAll rest

/-- Number of matchers in a matcher that may be missing. -/
def sizeOption : Option (Matcher κ) → Nat
  | none => 0
  | some m => m.size

end

mutual

/-- The rules that a matcher names, in the order in which they stand. -/
def rules : Matcher κ → List κ
  | seq items => rulesAll items
  | any alternatives => rulesAll alternatives
  | list element separator _ => element.rules ++ rulesOption separator
  | optional body | skip _ body => body.rules
  | rule name => [name]
  | _ => []

/-- The rules that the matchers of a list name. -/
def rulesAll : List (Matcher κ) → List κ
  | [] => []
  | m :: rest => m.rules ++ rulesAll rest

/-- The rules that a matcher names which may be missing. -/
def rulesOption : Option (Matcher κ) → List κ
  | none => []
  | some m => m.rules

end

end Matcher

end ExpLang
