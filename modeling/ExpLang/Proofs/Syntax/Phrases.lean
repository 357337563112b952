import ExpLang.Proofs.Lexing.Tokens
import ExpLang.Proofs.Matching.Whole
import ExpLang.Proofs.Syntax.Constructs

/-!
# Expressions as they are written

A `Phrase` is an expression with all its tokens, each given by its span: parentheses, brackets, commas and
operators stand in it as they stand in the text. Operands are not grouped by priorities, and the accesses
after an operand apply from left to right.

`Phrase.form` is the syntax tree of a phrase, and `Phrase.Spelt` says that the phrase is what stands in a
text between two cursors: each token is read where the one before it ends. Two things are asked beyond
that. A literal is the first of its kinds that can be read, and an operator between operands does not
start where a postfix operator could be read.
-/

namespace ExpLang.Syntax

/-- The kinds of literals. -/
inductive LiteralKind where
  | bool
  | float
  | int
  | name
  deriving DecidableEq

namespace LiteralKind

/-- The rule of a kind of literals. -/
def rule : LiteralKind → Kind
  | bool => .bool
  | float => .float
  | int => .int
  | name => .id

/-- The token of a kind of literals. -/
def token : LiteralKind → Token
  | bool => .bool
  | float => .float
  | int => .int
  | name => .name

/-- The kinds that are tried before a kind. -/
def earlier : LiteralKind → List LiteralKind
  | bool => []
  | float => [bool]
  | int => [bool, float]
  | name => [bool, float, int]

end LiteralKind

/-- The levels at which expressions are put together. -/
inductive Level where
  /-- A literal or an expression in parentheses, with accesses after it. -/
  | chain
  /-- A chain with operators before it. -/
  | operand
  /-- Operands with operators between them. -/
  | expr
  /-- Expressions with commas between them. -/
  | items
  /-- Such expressions, or none. -/
  | args
  deriving DecidableEq

/-- An expression with all its tokens. -/
inductive Phrase : Level → Type where
  | literal (kind : LiteralKind) (span : Span) : Phrase .chain
  | paren (opening : Span) (inner : Phrase .expr) (closing : Span) : Phrase .chain
  | field (target : Phrase .chain) (point name : Span) : Phrase .chain
  | index (target : Phrase .chain) (opening : Span) (key : Phrase .expr) (closing : Span) :
      Phrase .chain
  | call (callee : Phrase .chain) (opening : Span) (args : Phrase .args) (closing : Span) :
      Phrase .chain
  | post (target : Phrase .chain) (op : Span) : Phrase .chain
  | plain (chain : Phrase .chain) : Phrase .operand
  | unary (op : Span) (operand : Phrase .operand) : Phrase .operand
  | single (operand : Phrase .operand) : Phrase .expr
  | more (before : Phrase .expr) (op : Span) (operand : Phrase .operand) : Phrase .expr
  | one (e : Phrase .expr) : Phrase .items
  | next (before : Phrase .items) (comma : Span) (e : Phrase .expr) : Phrase .items
  | noArgs : Phrase .args
  | withArgs (items : Phrase .items) : Phrase .args

/-! ## Trees of phrases -/

/-- The tree of a rule that is one token. -/
def leafTree (k : Kind) (span : Span) : ParseTree Kind := .ofBody k 0 (.token span)

/-- The tree of something in parentheses or brackets. -/
def bracketTree (k : Kind) (opening : Span) (inner : ParseTree Kind) (closing : Span) :
    ParseTree Kind :=
  .ofParts (.rule k) 0 [(.token opening, false), (inner, true), (.token closing, false)]

/-- The tree of a point and a name. -/
def fieldTree (point name : Span) : ParseTree Kind :=
  .ofParts (.rule .accessField) 0 [(.token point, false), (leafTree .id name, true)]

/-- The tree of an operator before its operand. -/
def unaryTree (op : Span) (operand : ParseTree Kind) : ParseTree Kind :=
  .ofParts (.rule .unopExpr) 0 [(leafTree .unop op, true), (operand, true)]

/-- Elements with separators between them. -/
structure Series where
  /-- Elements and separators as they stand. -/
  parts : List (ParseTree Kind) := []
  /-- The elements. -/
  elements : List (ParseTree Kind) := []
  /-- The separators. -/
  separators : List (ParseTree Kind) := []

namespace Series

/-- One element. -/
def single (element : ParseTree Kind) : Series := ⟨[element], [element], []⟩

/-- One element more, with the separator before it. -/
def snoc (s : Series) (separator : Option (ParseTree Kind)) (element : ParseTree Kind) : Series :=
  ⟨s.parts ++ (separator.toList ++ [element]), s.elements ++ [element],
    s.separators ++ separator.toList⟩

/-- Elements without separators. -/
def plain (elements : List (ParseTree Kind)) : Series := ⟨elements, elements, []⟩

/-- The tree of a series; `pos` is where it stands if it is empty. -/
def tree (s : Series) (pos : Nat) : ParseTree Kind :=
  ⟨.list, ParseTree.cover s.parts pos, s.parts, [.list s.elements s.separators], none⟩

end Series

/-- The tree of an operand, from that of its atom and those of the accesses after it. -/
def operandTree (atom : ParseTree Kind) (accesses : List (ParseTree Kind)) (pos : Nat) :
    ParseTree Kind :=
  .ofParts (.rule .operand) 0 [(atom, true), ((Series.plain accesses).tree pos, true)]

/-- The tree of an expression. -/
def exprTree (s : Series) : ParseTree Kind := .ofBody .expr 1 (s.tree 0)

/-- What the tree of a phrase is made of: an atom and accesses, a tree, or elements of a list. -/
abbrev Level.Form : Level → Type
  | chain => ParseTree Kind × List (ParseTree Kind)
  | operand => ParseTree Kind
  | expr | items | args => Series

namespace Phrase

/-- The offset past the last token of a phrase. -/
def stop : {l : Level} → Phrase l → Nat
  | _, literal _ span => span.stop
  | _, paren _ _ closing => closing.stop
  | _, field _ _ name => name.stop
  | _, index _ _ _ closing => closing.stop
  | _, call _ _ _ closing => closing.stop
  | _, post _ op => op.stop
  | _, plain chain => chain.stop
  | _, unary _ operand => operand.stop
  | _, single operand => operand.stop
  | _, more _ _ operand => operand.stop
  | _, one e => e.stop
  | _, next _ _ e => e.stop
  | _, noArgs => 0
  | _, withArgs items => items.stop

/-- The trees of a phrase. -/
def form : {l : Level} → Phrase l → l.Form
  | _, literal kind span => (.ofBody .atom 1 (.ofBody .literal 1 (leafTree kind.rule span)), [])
  | _, paren opening inner closing =>
    (.ofBody .atom 1 (bracketTree .parenExpr opening (exprTree inner.form) closing), [])
  | _, field target point name =>
    (target.form.1, target.form.2 ++ [.ofBody .access 1 (fieldTree point name)])
  | _, index target opening key closing =>
    (target.form.1, target.form.2 ++
      [.ofBody .access 1 (bracketTree .accessArray opening (exprTree key.form) closing)])
  | _, call callee opening args closing =>
    (callee.form.1, callee.form.2 ++
      [.ofBody .access 1 (bracketTree .accessCall opening (args.form.tree opening.stop) closing)])
  | _, post target op => (target.form.1, target.form.2 ++ [.ofBody .access 1 (leafTree .postOp op)])
  | _, plain chain => operandTree chain.form.1 chain.form.2 chain.stop
  | _, unary op operand => operandTree (.ofBody .atom 1 (unaryTree op operand.form)) [] operand.stop
  | _, single operand => .single operand.form
  | _, more before op operand => before.form.snoc (some (leafTree .binop op)) operand.form
  | _, one e => .single (exprTree e.form)
  | _, next before comma e => before.form.snoc (some (.token comma)) (exprTree e.form)
  | _, noArgs => {}
  | _, withArgs items => items.form

end Phrase

/-! ## Spelling -/

namespace Token

/-- A token is read after the gap at a cursor. -/
def At (t : Token) (sk : Skipper) (c : Cursor) (span : Span) (stop : Cursor) : Prop :=
  t.read (sk.skip c) = some stop ∧ span = ⟨(sk.skip c).pos, stop.pos⟩

/-- A token cannot be read after the gap at a cursor. -/
def NotAt (t : Token) (sk : Skipper) (c : Cursor) : Prop := t.read (sk.skip c) = none

end Token

/-- A phrase is what stands in a text between two cursors. -/
def Phrase.Spelt (sk : Skipper) : {l : Level} → Phrase l → Cursor → Cursor → Prop
  | _, literal kind span, c, stop =>
    kind.token.At sk c span stop ∧ ∀ k ∈ kind.earlier, k.token.NotAt sk c
  | _, paren opening inner closing, c, stop => ∃ c₁ c₂,
    (Token.mark ['(']).At sk c opening c₁ ∧ inner.Spelt sk c₁ c₂ ∧
      (Token.mark [')']).At sk c₂ closing stop
  | _, field target point name, c, stop => ∃ c₁ c₂,
    target.Spelt sk c c₁ ∧ (Token.mark ['.']).At sk c₁ point c₂ ∧ Token.name.At sk c₂ name stop
  | _, index target opening key closing, c, stop => ∃ c₁ c₂ c₃,
    target.Spelt sk c c₁ ∧ (Token.mark ['[']).At sk c₁ opening c₂ ∧ key.Spelt sk c₂ c₃ ∧
      (Token.mark [']']).At sk c₃ closing stop
  | _, call callee opening args closing, c, stop => ∃ c₁ c₂ c₃,
    callee.Spelt sk c c₁ ∧ (Token.mark ['(']).At sk c₁ opening c₂ ∧ args.Spelt sk c₂ c₃ ∧
      (Token.mark [')']).At sk c₃ closing stop
  | _, post target op, c, stop => ∃ c₁,
    target.Spelt sk c c₁ ∧ (Token.op .postfixOp).At sk c₁ op stop
  | _, plain chain, c, stop => chain.Spelt sk c stop
  | _, unary op operand, c, stop => ∃ c₁,
    (Token.op .prefixOp).At sk c op c₁ ∧ operand.Spelt sk c₁ stop
  | _, single operand, c, stop => operand.Spelt sk c stop
  | _, more before op operand, c, stop => ∃ c₁ c₂,
    before.Spelt sk c c₁ ∧ (Token.op .postfixOp).NotAt sk c₁ ∧
      (Token.op .binaryOp).At sk c₁ op c₂ ∧ operand.Spelt sk c₂ stop
  | _, one e, c, stop => e.Spelt sk c stop
  | _, next before comma e, c, stop => ∃ c₁ c₂,
    before.Spelt sk c c₁ ∧ (Token.mark [',']).At sk c₁ comma c₂ ∧ e.Spelt sk c₂ stop
  | _, noArgs, c, stop => stop = c
  | _, withArgs items, c, stop => items.Spelt sk c stop

/-! ## Where phrases end -/

variable {sk : Skipper} {c stop : Cursor}

instance : DecidablePred Token.Known
  | .word text => inferInstanceAs (Decidable (text ∈ keywords))
  | .mark text => inferInstanceAs (Decidable (text ∈ marks))
  | .op _ | .float | .int | .bool | .name => isTrue trivial

/-- The token of a literal is known. -/
theorem LiteralKind.known (kind : LiteralKind) : kind.token.Known := by
  cases kind <;> trivial

/-- A known token moves the cursor behind the gap. -/
theorem Token.At.reads {t : Token} {span : Span} (h : t.At sk c span stop) (ht : t.Known) :
    (sk.skip c).Moves stop := by
  obtain ⟨w, hrest, hpos, htakes⟩ := (readsBy ht _ _).1 h.1
  obtain ⟨d, ds, rfl, -⟩ := htakes.head ht
  refine ⟨⟨_, hrest, hpos⟩, ?_⟩
  rw [hpos]
  exact Nat.lt_add_of_pos_right (Nat.add_pos_left d.utf8Size_pos _)

/-- A known token moves the cursor. -/
theorem Token.At.moves {t : Token} {span : Span} (h : t.At sk c span stop) (ht : t.Known) :
    c.Moves stop :=
  ⟨(sk.skip_advances c).trans (h.reads ht).advances, (sk.skip_advances c).le.trans_lt (h.reads ht).lt⟩

/-- Only missing arguments leave the cursor where it is. -/
def Level.Moves : Level → Cursor → Cursor → Prop
  | args, c, c' => c.Advances c'
  | _, c, c' => c.Moves c'

/-- A phrase stands in front of the cursor. -/
theorem Phrase.Spelt.moves {l : Level} {p : Phrase l} (h : p.Spelt sk c stop) : l.Moves c stop := by
  induction p generalizing c stop with
  | literal kind span => exact h.1.moves kind.known
  | paren opening inner closing ih =>
    obtain ⟨c₁, c₂, hopening, hinner, hclosing⟩ := h
    exact ((hopening.moves (by decide)).trans (ih hinner)).trans (hclosing.moves (by decide))
  | field target point name ih =>
    obtain ⟨c₁, c₂, htarget, hpoint, hname⟩ := h
    exact (Cursor.Moves.trans (ih htarget) (hpoint.moves (by decide))).trans (hname.moves trivial)
  | index target opening key closing ih ihkey =>
    obtain ⟨c₁, c₂, c₃, htarget, hopening, hkey, hclosing⟩ := h
    exact ((Cursor.Moves.trans (ih htarget) (hopening.moves (by decide))).trans (ihkey hkey)).trans
      (hclosing.moves (by decide))
  | call callee opening args closing ih ihargs =>
    obtain ⟨c₁, c₂, c₃, hcallee, hopening, hargs, hclosing⟩ := h
    exact ((Cursor.Moves.trans (ih hcallee) (hopening.moves (by decide))).trans_advances
      (ihargs hargs)).trans (hclosing.moves (by decide))
  | post target op ih =>
    obtain ⟨c₁, htarget, hop⟩ := h
    exact Cursor.Moves.trans (ih htarget) (hop.moves trivial)
  | unary op operand ih =>
    obtain ⟨c₁, hop, hoperand⟩ := h
    exact (hop.moves trivial).trans (ih hoperand)
  | more before op operand ih ihoperand =>
    obtain ⟨c₁, c₂, hbefore, -, hop, hoperand⟩ := h
    exact (Cursor.Moves.trans (ih hbefore) (hop.moves trivial)).trans (ihoperand hoperand)
  | next before comma e ih ihe =>
    obtain ⟨c₁, c₂, hbefore, hcomma, he⟩ := h
    exact (Cursor.Moves.trans (ih hbefore) (hcomma.moves (by decide))).trans (ihe he)
  | plain chain ih | single operand ih | one e ih => exact ih h
  | noArgs =>
    obtain rfl : stop = c := h
    exact .refl stop
  | withArgs items ih => exact (ih h).advances

/-- A phrase ends where its last token does. -/
theorem Phrase.Spelt.stop_pos {l : Level} {p : Phrase l} (h : p.Spelt sk c stop) (hl : l ≠ .args) :
    stop.pos = p.stop := by
  induction p generalizing c stop with
  | literal kind span => rw [Phrase.stop, h.1.2]
  | paren opening inner closing =>
    obtain ⟨c₁, c₂, -, -, hclosing⟩ := h
    rw [Phrase.stop, hclosing.2]
  | field target point name =>
    obtain ⟨c₁, c₂, -, -, hname⟩ := h
    rw [Phrase.stop, hname.2]
  | index target opening key closing | call callee opening args closing =>
    obtain ⟨c₁, c₂, c₃, -, -, -, hclosing⟩ := h
    rw [Phrase.stop, hclosing.2]
  | post target op =>
    obtain ⟨c₁, -, hop⟩ := h
    rw [Phrase.stop, hop.2]
  | unary op operand ih =>
    obtain ⟨c₁, -, hoperand⟩ := h
    exact ih hoperand (by decide)
  | more before op operand _ ih =>
    obtain ⟨c₁, c₂, -, -, -, hoperand⟩ := h
    exact ih hoperand (by decide)
  | next before comma e _ ih =>
    obtain ⟨c₁, c₂, -, -, he⟩ := h
    exact ih he (by decide)
  | plain chain ih | single operand ih | one e ih => exact ih h (by decide)
  | noArgs | withArgs => exact absurd rfl hl

end ExpLang.Syntax
