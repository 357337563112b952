import ExpLang.Proofs.Syntax.Values

/-!
# Expressions keep their tokens in order

Reading a source as an expression turns a tree of matches into abstract syntax: captures are bound, the
accesses after an operand are folded from the left, and operators are grouped by their priorities. None
of these loses, repeats or moves a token. `Expr.lexemes` reads an expression from left to right, and
`expr_keeps_tokens` says that this gives the literals, names and operators of the parse tree, in the
order in which they stand in the source.
-/

namespace ExpLang

namespace ParseTree

variable {κ : Type}

mutual

/-- The rules of a tree with the text they cover, a rule before the rules inside it. -/
def rules : ParseTree κ → List (κ × Span)
  | ⟨kind, span, children, _, _⟩ => (kind.rule?.map (·, span)).toList ++ rulesAll children

/-- The rules of several trees. -/
def rulesAll : List (ParseTree κ) → List (κ × Span)
  | [] => []
  | t :: rest => t.rules ++ rulesAll rest

end

/-- The rules of two lists of trees are those of the first and then those of the second. -/
theorem rulesAll_append (trees trees' : List (ParseTree κ)) :
    rulesAll (trees ++ trees') = rulesAll trees ++ rulesAll trees' := by
  induction trees with
  | nil => rfl
  | cons t trees ih => rw [List.cons_append, rulesAll, rulesAll, ih, List.append_assoc]

/-- A token has no rules in it. -/
@[simp]
theorem rules_token (span : Span) : (token span : ParseTree κ).rules = [] := by
  rw [token, rules, rulesAll]
  rfl

/-- A tree of a body has its own rule and then those of the body. -/
@[simp]
theorem rules_ofBody (name : κ) (arity : Nat) (t : ParseTree κ) :
    (ofBody name arity t).rules = (name, t.span) :: t.rules := by
  rw [ofBody, rules, rulesAll, rulesAll, List.append_nil]
  rfl

/-- A tree of parts has its own rule and then those of the parts. -/
@[simp]
theorem rules_ofParts (name : κ) (pos : Nat) (parts : List (ParseTree κ × Bool)) :
    (ofParts (.rule name) pos parts).rules =
      (name, (ofParts (.rule name) pos parts).span) :: rulesAll (parts.map (·.1)) := by
  rw [ofParts, rules]
  rfl

end ParseTree

namespace Syntax

open ParseTree

/-- A token that has a meaning of its own. -/
inductive Lexeme where
  /-- An integer literal. -/
  | int (value : Int64) (span : Span)
  /-- A fraction literal. -/
  | float (value : Float) (span : Span)
  /-- A truth value. -/
  | bool (value : Bool) (span : Span)
  /-- A name. -/
  | name (name : Ident)
  /-- An operator before its operand. -/
  | unary (op : PrefixOp)
  /-- An operator after its operand. -/
  | post (op : PostfixOp)
  /-- An operator between operands. -/
  | binary (op : BinaryOp)

/-- Whether a rule is a token with a meaning of its own. -/
def Kind.isLexeme : Kind → Bool
  | int | float | bool | id | unop | postOp | binop => true
  | _ => false

/-- The meaning of a token, given the texts of spans. -/
def Lexeme.read? (text : Span → String) : Kind × Span → Option Lexeme
  | (.int, span) =>
    (Decimal.readInt? (String.ofList ((text span).toList.filter (· ≠ '_')))).map (int · span)
  | (.float, span) => (Decimal.readFraction? (text span)).map (float · span)
  | (.bool, span) => some (bool (text span == "true") span)
  | (.id, span) => some (name ⟨text span, span⟩)
  | (.unop, span) => (PrefixOp.ofSymbol? (text span)).map unary
  | (.postOp, span) => (PostfixOp.ofSymbol? (text span)).map post
  | (.binop, span) => (BinaryOp.ofSymbol? (text span)).map binary
  | _ => none

/-- The tokens with a meaning of their own in a tree. -/
def lexemesOf (t : ParseTree Kind) : List (Kind × Span) := t.rules.filter (·.1.isLexeme)

mutual

/-- An expression from left to right. -/
def Expr.lexemes : Expr → List Lexeme
  | .int value span => [.int value span]
  | .float value span => [.float value span]
  | .bool value span => [.bool value span]
  | .ident name => [.name name]
  | .unary op operand _ => .unary op :: operand.lexemes
  | .post op operand _ => operand.lexemes ++ [.post op]
  | .binary op left right _ => left.lexemes ++ .binary op :: right.lexemes
  | .field target name _ => target.lexemes ++ [.name name]
  | .index target index _ => target.lexemes ++ index.lexemes
  | .call callee args _ => callee.lexemes ++ lexemesAll args

/-- Expressions from left to right. -/
def lexemesAll : List Expr → List Lexeme
  | [] => []
  | e :: es => e.lexemes ++ lexemesAll es

end

/-- The lexemes of two lists are those of the first and then those of the second. -/
theorem lexemesAll_append (es es' : List Expr) :
    lexemesAll (es ++ es') = lexemesAll es ++ lexemesAll es' := by
  induction es with
  | nil => rfl
  | cons e es ih => rw [List.cons_append, lexemesAll, lexemesAll, ih, List.append_assoc]

/-! ## Grouping by priorities -/

namespace OperatorTree

/-- Adding an operator and an operand on the right adds them on the right of what is read. -/
theorem lexemes_insert (op : BinaryOp) (operand : Expr) (tree : OperatorTree) :
    (tree.insert op operand).toExpr.lexemes =
      tree.toExpr.lexemes ++ .binary op :: operand.lexemes := by
  induction tree with
  | leaf e => rfl
  | node top left right _ ih =>
    rw [insert]
    split
    · rw [toExpr, Expr.lexemes, ih, toExpr, Expr.lexemes, List.append_assoc, List.cons_append]
    · rfl

end OperatorTree

/-! ## The tokens of phrases -/

/-- A leaf has its own rule only. -/
@[simp]
theorem rules_leafTree (k : Kind) (span : Span) : (leafTree k span).rules = [(k, span)] := by
  rw [leafTree, rules_ofBody, rules_token]
  rfl

/-- A bracketed tree has its own rule and then those inside. -/
@[simp]
theorem rules_bracketTree (k : Kind) (opening : Span) (inner : ParseTree Kind) (closing : Span) :
    (bracketTree k opening inner closing).rules =
      (k, (bracketTree k opening inner closing).span) :: inner.rules := by
  simp [bracketTree, rulesAll]

/-- The tree of a series has the rules of its parts. -/
@[simp]
theorem rules_seriesTree (s : Series) (pos : Nat) : (s.tree pos).rules = rulesAll s.parts := by
  rw [Series.tree, rules]
  rfl

/-- The tree of an expression has its own rule and then those of its parts. -/
@[simp]
theorem rules_exprTree (s : Series) :
    (exprTree s).rules = (.expr, (exprTree s).span) :: rulesAll s.parts := by
  rw [exprTree, rules_ofBody, rules_seriesTree]
  rfl

/-- The tokens with a meaning of their own in what a level is made of. -/
def Level.lexemesOf : (l : Level) → l.Form → List (Kind × Span)
  | chain, form => (form.1.rules ++ rulesAll form.2).filter (·.1.isLexeme)
  | operand, form => Syntax.lexemesOf form
  | expr, form | items, form | args, form => (rulesAll form.parts).filter (·.1.isLexeme)

/-- A value from left to right. -/
def Level.lexemes : (l : Level) → l.Value → List Lexeme
  | chain, e | operand, e => e.lexemes
  | expr, tree => tree.toExpr.lexemes
  | items, es | args, es => lexemesAll es

namespace Phrase

/-- The tokens of a phrase that have a meaning of their own. -/
def lexemes : {l : Level} → Phrase l → List (Kind × Span)
  | _, literal kind span => [(kind.rule, span)]
  | _, paren _ inner _ => inner.lexemes
  | _, field target _ name => target.lexemes ++ [(.id, name)]
  | _, index target _ key _ => target.lexemes ++ key.lexemes
  | _, call callee _ args _ => callee.lexemes ++ args.lexemes
  | _, post target op => target.lexemes ++ [(.postOp, op)]
  | _, plain chain => chain.lexemes
  | _, unary op operand => (.unop, op) :: operand.lexemes
  | _, single operand => operand.lexemes
  | _, more before op operand => before.lexemes ++ (.binop, op) :: operand.lexemes
  | _, one e => e.lexemes
  | _, next before _ e => before.lexemes ++ e.lexemes
  | _, noArgs => []
  | _, withArgs items => items.lexemes

/-- The trees of a phrase hold its tokens in their order. -/
theorem lexemesOf_form {l : Level} (p : Phrase l) : l.lexemesOf p.form = p.lexemes := by
  induction p with
  | literal kind span => cases kind <;> rfl
  | paren opening inner closing ih =>
    simpa [Level.lexemesOf, form, rulesAll, lexemes, Kind.isLexeme] using ih
  | field target point name ih =>
    simp only [Level.lexemesOf, form, lexemes, ← ih, rulesAll_append]
    simp [rulesAll, fieldTree, Kind.isLexeme]
  | index target opening key closing ih ihkey =>
    simp only [Level.lexemesOf, form, lexemes, ← ih, ← ihkey, rulesAll_append]
    simp [rulesAll, Kind.isLexeme]
  | call callee opening args closing ih ihargs =>
    simp only [Level.lexemesOf, form, lexemes, ← ih, ← ihargs, rulesAll_append]
    simp [rulesAll, Kind.isLexeme]
  | post target op ih =>
    simp only [Level.lexemesOf, form, lexemes, ← ih, rulesAll_append]
    simp [rulesAll, Kind.isLexeme]
  | plain chain ih =>
    simp only [Level.lexemesOf, form, lexemes, ← ih, Syntax.lexemesOf]
    simp [rulesAll, Kind.isLexeme, operandTree, Series.plain]
  | unary op operand ih =>
    simp only [Level.lexemesOf, form, lexemes, ← ih, Syntax.lexemesOf]
    simp [rulesAll, Kind.isLexeme, operandTree, unaryTree, Series.plain]
  | single operand ih =>
    simp only [Level.lexemesOf, form, lexemes, ← ih, Syntax.lexemesOf]
    simp [rulesAll, Series.single]
  | more before op operand ih ihoperand =>
    simp only [Level.lexemesOf, form, lexemes, ← ih, ← ihoperand, Syntax.lexemesOf]
    simp [rulesAll, rulesAll_append, Series.snoc, Kind.isLexeme]
  | one e ih =>
    simp only [Level.lexemesOf, form, lexemes, ← ih]
    simp [rulesAll, Series.single, Kind.isLexeme]
  | next before comma e ih ihe =>
    simp only [Level.lexemesOf, form, lexemes, ← ih, ← ihe]
    simp [rulesAll, rulesAll_append, Series.snoc, Kind.isLexeme]
  | noArgs => rfl
  | withArgs items ih => exact ih

/-- Reading the tokens of a phrase gives its value from left to right. -/
theorem mapM_lexemes {text : Span → String} {l : Level} (p : Phrase l) {v : l.Value}
    (h : p.value? text = some v) : p.lexemes.mapM (Lexeme.read? text) = some (l.lexemes v) := by
  induction p with
  | literal kind span =>
    cases kind with
    | bool | name =>
      cases h
      rfl
    | float | int =>
      obtain ⟨value, hvalue, rfl⟩ := Option.map_eq_some_iff.1 h
      rw [lexemes, List.mapM_cons, List.mapM_nil, LiteralKind.rule, Lexeme.read?, hvalue]
      rfl
  | paren opening inner closing ih =>
    obtain ⟨tree, htree, rfl⟩ := Option.map_eq_some_iff.1 h
    exact ih htree
  | field target point name ih =>
    obtain ⟨e, he, rfl⟩ := Option.map_eq_some_iff.1 h
    rw [lexemes, List.mapM_append, ih he]
    rfl
  | index target opening key closing ih ihkey =>
    obtain ⟨e, i, he, hi, rfl⟩ := value?_index_iff.1 h
    rw [lexemes, List.mapM_append, ih he, ihkey hi]
    rfl
  | call callee opening args closing ih ihargs =>
    obtain ⟨e, es, he, hes, rfl⟩ := value?_call_iff.1 h
    rw [lexemes, List.mapM_append, ih he, ihargs hes]
    rfl
  | post target op ih =>
    obtain ⟨e, o, he, ho, rfl⟩ := value?_post_iff.1 h
    rw [lexemes, List.mapM_append, ih he]
    simp [Lexeme.read?, ho, Level.lexemes, Expr.lexemes]
  | plain chain ih => exact ih h
  | unary op operand ih =>
    obtain ⟨o, e, ho, he, rfl⟩ := value?_unary_iff.1 h
    rw [lexemes, List.mapM_cons, ih he]
    simp [Lexeme.read?, ho, Level.lexemes, Expr.lexemes]
  | single operand ih =>
    obtain ⟨e, he, rfl⟩ := Option.map_eq_some_iff.1 h
    exact ih he
  | more before op operand ih ihoperand =>
    obtain ⟨tree, o, e, htree, ho, he, rfl⟩ := value?_more_iff.1 h
    rw [lexemes, List.mapM_append, List.mapM_cons, ih htree, ihoperand he]
    simp [Lexeme.read?, ho, Level.lexemes, OperatorTree.lexemes_insert]
  | one e ih =>
    obtain ⟨tree, htree, rfl⟩ := Option.map_eq_some_iff.1 h
    rw [lexemes, ih htree, Level.lexemes, Level.lexemes, lexemesAll, lexemesAll, List.append_nil]
  | next before comma e ih ihe =>
    obtain ⟨es, tree, hes, htree, rfl⟩ := value?_next_iff.1 h
    have hall : lexemesAll (es ++ [tree.toExpr]) = lexemesAll es ++ tree.toExpr.lexemes := by
      rw [lexemesAll_append, lexemesAll, lexemesAll, List.append_nil]
    rw [lexemes, List.mapM_append, ih hes, ihe htree]
    exact congrArg some hall.symm
  | noArgs =>
    cases h
    rfl
  | withArgs items ih => exact ih h

end Phrase

/-! ## The order of tokens -/

/-- Spans one after the other between two offsets. -/
def InOrder : Nat → List Span → Nat → Prop
  | start, [], stop => start ≤ stop
  | start, span :: rest, stop => start ≤ span.start ∧ span.start ≤ span.stop ∧ InOrder span.stop rest stop

namespace InOrder

variable {start mid stop : Nat} {spans spans' : List Span}

/-- Spans in order after an offset are in order after a smaller one. -/
theorem of_le {start' : Nat} (h : InOrder start spans stop) (hle : start' ≤ start) :
    InOrder start' spans stop := by
  cases spans with
  | nil => exact hle.trans h
  | cons span rest => exact ⟨hle.trans h.1, h.2⟩

/-- Spans in order one after the other are in order together. -/
theorem append (h : InOrder start spans mid) (h' : InOrder mid spans' stop) :
    InOrder start (spans ++ spans') stop := by
  induction spans generalizing start with
  | nil => exact h'.of_le h
  | cons span rest ih => exact ⟨h.1, h.2.1, ih h.2.2⟩

/-- Each of some spans in order ends before the next ones start. -/
theorem pairwise (h : InOrder start spans stop) :
    spans.Pairwise fun s s' => s.stop ≤ s'.start := by
  have hafter {start : Nat} {spans : List Span} (h : InOrder start spans stop) :
      ∀ s ∈ spans, start ≤ s.start := by
    induction spans generalizing start with
    | nil => exact fun _ hs => absurd hs List.not_mem_nil
    | cons span rest ih =>
      intro s hs
      rcases List.mem_cons.1 hs with rfl | hs
      · exact h.1
      · exact (h.1.trans h.2.1).trans (ih h.2.2 s hs)
  induction spans generalizing start with
  | nil => exact .nil
  | cons span rest ih => exact .cons (hafter h.2.2) (ih h.2.2)

end InOrder

variable {sk : Skipper} {c stop : Cursor}

/-- A known token stands in order between its two cursors. -/
theorem Token.At.inOrder {t : Token} {span : Span} (h : t.At sk c span stop) (ht : t.Known) :
    InOrder c.pos [span] stop.pos := by
  rw [h.2]
  exact ⟨(sk.skip_advances c).le, (h.reads ht).lt.le, Nat.le_refl _⟩

/-- The tokens of a phrase stand in their order where the phrase stands. -/
theorem Phrase.Spelt.inOrder {l : Level} {p : Phrase l} (h : p.Spelt sk c stop) :
    InOrder c.pos (p.lexemes.map (·.2)) stop.pos := by
  -- A token without a meaning of its own moves the cursor and adds nothing.
  have hmark {text : List Char} {span : Span} {c stop : Cursor}
      (h : (Token.mark text).At sk c span stop) (ht : (Token.mark text).Known) :
      InOrder c.pos [] stop.pos := (h.moves ht).lt.le
  induction p generalizing c stop with
  | literal kind span => exact h.1.inOrder kind.known
  | paren opening inner closing ih =>
    obtain ⟨c₁, c₂, hopening, hinner, hclosing⟩ := h
    simpa [lexemes] using
      ((hmark hopening (by decide)).append (ih hinner)).append (hmark hclosing (by decide))
  | field target point name ih =>
    obtain ⟨c₁, c₂, htarget, hpoint, hname⟩ := h
    simpa [lexemes] using
      ((ih htarget).append (hmark hpoint (by decide))).append (hname.inOrder trivial)
  | index target opening key closing ih ihkey =>
    obtain ⟨c₁, c₂, c₃, htarget, hopening, hkey, hclosing⟩ := h
    simpa [lexemes] using (((ih htarget).append (hmark hopening (by decide))).append
      (ihkey hkey)).append (hmark hclosing (by decide))
  | call callee opening args closing ih ihargs =>
    obtain ⟨c₁, c₂, c₃, hcallee, hopening, hargs, hclosing⟩ := h
    simpa [lexemes] using (((ih hcallee).append (hmark hopening (by decide))).append
      (ihargs hargs)).append (hmark hclosing (by decide))
  | post target op ih =>
    obtain ⟨c₁, htarget, hop⟩ := h
    simpa [lexemes] using (ih htarget).append (hop.inOrder trivial)
  | unary op operand ih =>
    obtain ⟨c₁, hop, hoperand⟩ := h
    simpa [lexemes] using (hop.inOrder trivial).append (ih hoperand)
  | more before op operand ih ihoperand =>
    obtain ⟨c₁, c₂, hbefore, -, hop, hoperand⟩ := h
    simpa [lexemes] using ((ih hbefore).append (hop.inOrder trivial)).append (ihoperand hoperand)
  | next before comma e ih ihe =>
    obtain ⟨c₁, c₂, hbefore, hcomma, he⟩ := h
    simpa [lexemes] using ((ih hbefore).append (hmark hcomma (by decide))).append (ihe he)
  | plain chain ih | single operand ih | one e ih | withArgs items ih => exact ih h
  | noArgs =>
    obtain rfl : stop = c := h
    exact Nat.le_refl _

/-! ## Sources -/

section Sources

variable {source : Source} {config : ParseConfig} {e : Expr}

/-- A source that is read as an expression has a parse tree in which the tokens with a meaning of their own
stand in the order of the source, and the expression from left to right is what they mean. The bound is
that of 32-bit offsets. -/
theorem expr_keeps_tokens (_hsize : source.size < UInt32.size) (h : parseExpr source config = .ok e) :
    ∃ parsed u, language.parse .expr source config = .ok parsed ∧
      parsed.tree.nodes.treeAt? parsed.root = some u ∧
      (lexemesOf u).Pairwise (fun t t' => t.2.stop ≤ t'.2.start) ∧
      (lexemesOf u).mapM (Lexeme.read? source.slice) = some e.lexemes := by
  obtain ⟨parsed, p, stop, tree, hparse, htree, hspelt, -, hvalue, rfl⟩ := exists_phrase_of_parseExpr h
  have hlexemes : lexemesOf (exprTree p.form) = p.lexemes := by
    rw [lexemesOf, rules_exprTree, List.filter_cons_of_neg (by simp [Kind.isLexeme])]
    exact p.lexemesOf_form
  refine ⟨parsed, _, hparse, htree, ?_, ?_⟩
  · rw [hlexemes]
    exact List.pairwise_map.1 hspelt.inOrder.pairwise
  · rw [hlexemes]
    exact p.mapM_lexemes hvalue

/-- The tokens of an expression with a call, an index, a field, parentheses and operators of several
priorities. -/
theorem expr_keeps_tokens_assignment :
    (Source.ofText "main" "-f(a, 2)[i].x++ = 1 + b * (c = 3)").size < UInt32.size ∧
    ∃ e, parseExpr (.ofText "main" "-f(a, 2)[i].x++ = 1 + b * (c = 3)") (parseConfig 2000) = .ok e ∧
      e.sexpr = "(= (- (post++ (. ([] (call f a 2) i) x))) (+ 1 (* b (= c 3))))" ∧
      ∃ parsed u, language.parse .expr (.ofText "main" "-f(a, 2)[i].x++ = 1 + b * (c = 3)")
          (parseConfig 2000) = .ok parsed ∧
        parsed.tree.nodes.treeAt? parsed.root = some u ∧
        (lexemesOf u).Pairwise (fun t t' => t.2.stop ≤ t'.2.start) ∧
        (lexemesOf u).mapM (Lexeme.read? (Source.ofText "main" "-f(a, 2)[i].x++ = 1 + b * (c = 3)").slice) =
          some e.lexemes := by
  have hsexpr : (parseExpr (.ofText "main" "-f(a, 2)[i].x++ = 1 + b * (c = 3)")
      (parseConfig 2000)).toOption.map Expr.sexpr =
        some "(= (- (post++ (. ([] (call f a 2) i) x))) (+ 1 (* b (= c 3))))" := by
    decide +kernel
  cases h : parseExpr (.ofText "main" "-f(a, 2)[i].x++ = 1 + b * (c = 3)") (parseConfig 2000) with
  | error => rw [h] at hsexpr; cases hsexpr
  | ok e =>
    rw [h] at hsexpr
    have hsize : (Source.ofText "main" "-f(a, 2)[i].x++ = 1 + b * (c = 3)").size < UInt32.size := by
      decide +kernel
    exact ⟨hsize, e, rfl, Option.some.inj hsexpr, expr_keeps_tokens hsize h⟩

end Sources

end Syntax

end ExpLang
