import ExpLang.Grammar.Matcher

/-!
# Grammars

A grammar is a table of named rules. Each rule is declared with the number of captures that its
nodes are to have. `GrammarDraft.build` looks over a whole draft before anything is matched: no
rule is defined twice, every placeholder is filled, every rule has the captures that its matcher
makes, and every rule that is named is defined.
-/

namespace ExpLang

variable {κ : Type}

/-- A named matcher with the number of captures of its nodes. -/
structure Rule (κ : Type) where
  /-- Number of captures. -/
  arity : Nat
  /-- What the rule matches. -/
  body : Matcher κ
  deriving Inhabited

/-- A grammar that is still being written. -/
structure GrammarDraft (κ : Type) where
  /-- The definitions in the order in which they were made. -/
  rules : List (κ × Rule κ) := []
  /-- The placeholders, filled or not. -/
  refs : List (Option (Matcher κ)) := []
  deriving Inhabited

/-- A table of rules. -/
structure Grammar (κ : Type) where
  /-- The rules. -/
  rules : List (κ × Rule κ)
  /-- What the placeholders stand for. -/
  refs : List (Matcher κ)
  deriving Inhabited

/-- Why a draft is no grammar. -/
inductive GrammarFault where
  /-- A rule declares a number of captures that its matcher does not make. -/
  | arity (rule : String) (declared actual : Nat)
  /-- A rule is defined twice. -/
  | duplicate (rule : String)
  /-- A rule is named but not defined. -/
  | undefined (rule : String)
  /-- A placeholder is not filled. -/
  | unsetRef (index : Nat)
  deriving DecidableEq, Repr, Inhabited

/-- The wording of a fault in a draft. -/
def GrammarFault.message : GrammarFault → String
  | arity rule declared actual =>
    s!"rule `{rule}` is declared with {declared} captures but its matcher stores {actual}"
  | duplicate rule => s!"rule `{rule}` is defined twice"
  | undefined rule => s!"rule `{rule}` is referenced but never defined"
  | unsetRef index => s!"forward reference #{index} is never set"

/-- The rule of a given name in a list of definitions. -/
def findRule? [DecidableEq κ] (name : κ) : List (κ × Rule κ) → Option (Rule κ)
  | [] => none
  | (key, rule) :: rest => if key = name then some rule else findRule? name rest

namespace GrammarDraft

/-- The first definition of a rule that has been defined before. -/
def duplicate? [DecidableEq κ] : List (κ × Rule κ) → List κ → Option κ
  | [], _ => none
  | (name, _) :: rest, seen =>
    if seen.contains name then some name else duplicate? rest (name :: seen)

/-- What the placeholders stand for, unless one of them is not filled. -/
def filledRefs (refs : List (Option (Matcher κ))) : Except GrammarFault (List (Matcher κ)) :=
  go 0 refs
where
  /-- The same from a given number on. -/
  go (index : Nat) : List (Option (Matcher κ)) → Except GrammarFault (List (Matcher κ))
    | [] => .ok []
    | none :: _ => .error (.unsetRef index)
    | some m :: rest => (m :: ·) <$> go (index + 1) rest

/-- The grammar of a draft, unless something about the draft is wrong. -/
def build [DecidableEq κ] [RuleName κ] (d : GrammarDraft κ) : Except GrammarFault (Grammar κ) := do
  if let some name := duplicate? d.rules [] then
    throw (.duplicate (RuleName.name name))
  let refs ← filledRefs d.refs
  if let some (name, rule) := d.rules.find? (fun (_, rule) => rule.body.arity != rule.arity) then
    throw (.arity (RuleName.name name) rule.arity rule.body.arity)
  let named := d.rules.flatMap (·.2.body.rules) ++ refs.flatMap Matcher.rules
  if let some name := named.find? (fun name => (findRule? name d.rules).isNone) then
    throw (.undefined (RuleName.name name))
  return ⟨d.rules, refs⟩

end GrammarDraft

namespace Grammar

/-- The rule of a given name. -/
def rule? [DecidableEq κ] (g : Grammar κ) (name : κ) : Option (Rule κ) := findRule? name g.rules

/-- Number of captures of a rule. -/
def arity? [DecidableEq κ] (g : Grammar κ) (name : κ) : Option Nat := (g.rule? name).map (·.arity)

/-- Fixed tokens are named in reports between backquotes. -/
def tokenName (text : List Char) : String := "`" ++ String.ofList text ++ "`"

/-- What a matcher expects, in a few words, where `depth` bounds the matchers that are entered on
the way to an answer. -/
def describeWithin [RuleName κ] (g : Grammar κ) : Nat → Matcher κ → Option String
  | 0, _ => none
  | depth + 1, m => match m with
    | .literal text => some (tokenName text)
    | .literals set =>
      some ("one of " ++ ", ".intercalate ((set.toList.map tokenName).mergeSort (· ≤ ·)))
    | .pattern _ what => some what
    | .seq items => match items.find? (fun item => !item.isSure) with
      | none => some "nothing"
      | some item => describeWithin g depth item
    | .any alternatives => (alternatives.mapM (describeWithin g depth)).map (" or ".intercalate ·)
    | .list element _ _ => describeWithin g depth element
    | .optional body | .skip _ body => describeWithin g depth body
    | .rule name => some (RuleName.name name)
    | .ref index => match g.refs[index]? with
      | some (.ref _) | none => some "input"
      | some target => describeWithin g depth target
    | .sure => some "nothing"

/-- Number of matchers that a description can enter before it enters a placeholder twice. -/
def describeDepth (g : Grammar κ) (m : Matcher κ) : Nat := m.size + Matcher.sizeAll g.refs + 1

/-- What a matcher expects, in a few words; none if the answer would depend on itself. -/
def describe? [RuleName κ] (g : Grammar κ) (m : Matcher κ) : Option String :=
  g.describeWithin (g.describeDepth m) m

/-- What a matcher expects, as reports give it. -/
def describe [RuleName κ] (g : Grammar κ) (m : Matcher κ) : String := (g.describe? m).getD "input"

end Grammar

end ExpLang
