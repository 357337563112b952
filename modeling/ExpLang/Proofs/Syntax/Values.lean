import ExpLang.Proofs.Matching.Acceptance
import ExpLang.Proofs.Syntax.Phrasing

/-!
# What phrases stand for

`Phrase.value?` reads a phrase as an expression, given the texts of its tokens. Accesses apply to what
stands before them, operators between operands go into the tree of what stands before them, and
parentheses leave no trace. A literal may not fit its type, so there may be no value.

Where a syntax tree holds the tree of a phrase, reading it gives the value of the phrase
(`expr_toOption`).
-/

namespace ExpLang

/-- Only the value of a sequence of two results matters to what it keeps. -/
theorem Except.toOption_bind {ε α β : Type} (x : Except ε α) (f : α → Except ε β) :
    (x >>= f).toOption = x.toOption.bind fun a => (f a).toOption := by
  cases x <;> rfl

/-- Mapping a result maps the value it keeps. -/
theorem Except.toOption_map {ε α β : Type} (f : α → β) (x : Except ε α) :
    (x.map f).toOption = x.toOption.map f := by
  cases x <;> rfl

/-- A kept value that is an image comes from a result with a preimage. -/
theorem Except.ok_of_toOption_map {ε α β : Type} {x : Except ε α} {f : α → β} {b : β}
    (h : x.toOption.map f = some b) : ∃ a, x = .ok a ∧ f a = b := by
  cases x with
  | error fault => cases h
  | ok a => exact ⟨a, rfl, Option.some.inj h⟩

/-- Mapping every element keeps a value if each element does, and then the list of them. -/
theorem Except.toOption_mapM {ε α β : Type} (f : α → Except ε β) (xs : List α) :
    (xs.mapM f).toOption = xs.mapM fun x => (f x).toOption := by
  induction xs with
  | nil => rfl
  | cons x xs ih => simp only [List.mapM_cons, toOption_bind, ih]; rfl

/-- A list of results has the length of the list they came from. -/
theorem mapM_ok_length {ε α β : Type} {f : α → Except ε β} {xs : List α} {ys : List β}
    (h : xs.mapM f = .ok ys) : ys.length = xs.length := by
  have hmapM := congrArg Except.toOption h
  rw [Except.toOption_mapM] at hmapM
  exact (mapM_eq_some_iff_forall₂.1 hmapM).length_eq.symm

/-- What is related to a list with a last element ends in an element related to that. -/
theorem forall₂_snoc {α β : Type} {R : α → β → Prop} {xs : List α} {ys : List β} {y : β}
    (h : List.Forall₂ R xs (ys ++ [y])) :
    ∃ before last, xs = before ++ [last] ∧ List.Forall₂ R before ys ∧ R last y := by
  induction ys generalizing xs with
  | nil =>
    obtain ⟨last, rest, hlast, hrest, rfl⟩ := List.forall₂_cons_right_iff.1 h
    cases hrest
    exact ⟨[], last, rfl, .nil, hlast⟩
  | cons z ys ih =>
    obtain ⟨first, rest, hfirst, hrest, rfl⟩ := List.forall₂_cons_right_iff.1 h
    obtain ⟨before, last, rfl, hbefore, hlast⟩ := ih hrest
    exact ⟨first :: before, last, rfl, .cons hfirst hbefore, hlast⟩

namespace Syntax

variable {text : Span → String}

/-- The value of a literal. -/
def LiteralKind.value? (text : Span → String) (span : Span) : LiteralKind → Option Expr
  | bool => some (.bool (text span == "true") span)
  | float => (Decimal.readFraction? (text span)).map (.float · span)
  | int =>
    (Decimal.readInt? (String.ofList ((text span).toList.filter (· ≠ '_')))).map (.int · span)
  | name => some (.ident ⟨text span, span⟩)

/-- What the phrases of a level stand for. Operands with operators between them are a tree. -/
abbrev Level.Value : Level → Type
  | chain | operand => Expr
  | expr => OperatorTree
  | items | args => List Expr

namespace Phrase

/-- The value of a phrase, given the texts of its tokens. -/
def value? (text : Span → String) : {l : Level} → Phrase l → Option l.Value
  | _, literal kind span => kind.value? text span
  | _, paren _ inner _ => (inner.value? text).map OperatorTree.toExpr
  | _, field target point name => (target.value? text).map fun e =>
    .field e ⟨text name, name⟩ (e.span.merge (fieldTree point name).span)
  | _, index target opening key closing => do
    let e ← target.value? text
    let i ← key.value? text
    return .index e i.toExpr
      (e.span.merge (bracketTree .accessArray opening (exprTree key.form) closing).span)
  | _, call callee opening args closing => do
    let e ← callee.value? text
    let es ← args.value? text
    return .call e es
      (e.span.merge (bracketTree .accessCall opening (args.form.tree opening.stop) closing).span)
  | _, post target op => do
    let e ← target.value? text
    let o ← PostfixOp.ofSymbol? (text op)
    return .post o e (e.span.merge op)
  | _, plain chain => chain.value? text
  | _, unary op operand => do
    let o ← PrefixOp.ofSymbol? (text op)
    let e ← operand.value? text
    return .unary o e (unaryTree op operand.form).span
  | _, single operand => (operand.value? text).map .leaf
  | _, more before op operand => do
    let tree ← before.value? text
    let o ← BinaryOp.ofSymbol? (text op)
    let e ← operand.value? text
    return tree.insert o e
  | _, one e => (e.value? text).map fun tree => [tree.toExpr]
  | _, next before _ e => do
    let es ← before.value? text
    let tree ← e.value? text
    return es ++ [tree.toExpr]
  | _, noArgs => some []
  | _, withArgs items => items.value? text

section Values

variable {target : Phrase .chain} {operand : Phrase .operand} {key before : Phrase .expr}
  {items : Phrase .items} {args : Phrase .args} {opening closing op comma : Span}

/-- An index access has a value if its target and its key do, over the merged span. -/
theorem value?_index_iff {v : Expr} :
    (index target opening key closing).value? text = some v ↔
      ∃ e i, target.value? text = some e ∧ key.value? text = some i ∧ .index e i.toExpr
        (e.span.merge (bracketTree .accessArray opening (exprTree key.form) closing).span) = v := by
  simp [value?, Option.bind_eq_some_iff]

/-- A call has a value if its target and its arguments do, over the merged span. -/
theorem value?_call_iff {v : Expr} :
    (call target opening args closing).value? text = some v ↔
      ∃ e es, target.value? text = some e ∧ args.value? text = some es ∧ .call e es (e.span.merge
        (bracketTree .accessCall opening (args.form.tree opening.stop) closing).span) = v := by
  simp [value?, Option.bind_eq_some_iff]

/-- A postfix phrase has a value if its target does and its symbol is a postfix operator. -/
theorem value?_post_iff {v : Expr} :
    (post target op).value? text = some v ↔
      ∃ e o, target.value? text = some e ∧ PostfixOp.ofSymbol? (text op) = some o ∧
        .post o e (e.span.merge op) = v := by
  simp [value?, Option.bind_eq_some_iff]

/-- A prefixed phrase has a value if its symbol is a prefix operator and its operand has one. -/
theorem value?_unary_iff {v : Expr} :
    (unary op operand).value? text = some v ↔
      ∃ o e, PrefixOp.ofSymbol? (text op) = some o ∧ operand.value? text = some e ∧
        .unary o e (unaryTree op operand.form).span = v := by
  simp [value?, Option.bind_eq_some_iff]

/-- A longer operator phrase has a value if its parts do: that of the operator put into the tree before.
-/
theorem value?_more_iff {v : OperatorTree} :
    (more before op operand).value? text = some v ↔
      ∃ tree o e, before.value? text = some tree ∧ BinaryOp.ofSymbol? (text op) = some o ∧
        operand.value? text = some e ∧ tree.insert o e = v := by
  simp [value?, Option.bind_eq_some_iff]

/-- A longer argument list has a value if its parts do, with the new expression last. -/
theorem value?_next_iff {v : List Expr} :
    (next items comma key).value? text = some v ↔
      ∃ es tree, items.value? text = some es ∧ key.value? text = some tree ∧
        es ++ [tree.toExpr] = v := by
  simp [value?, Option.bind_eq_some_iff]

end Values

end Phrase

/-! ## Parts of nodes -/

section Nodes

variable {t : Tree Kind} {id : NodeId} {u v : ParseTree Kind} {k : Kind} {i : Nat}

/-- A node before another one holds a tree. -/
def HoldsBelow (t : Tree Kind) (bound : NodeId) (part : NodeId) (u : ParseTree Kind) : Prop :=
  part < bound ∧ t.nodes.treeAt? part = some u

/-- A tree of a rule is captured as a part. -/
theorem capture_of_kind (hk : u.kind = .rule k) : u.capture = .part (some u) := by
  rw [ParseTree.capture, hk]

/-- The node of a tree of a rule names that rule. -/
theorem ruleOf_of_treeAt? (h : t.nodes.treeAt? id = some u) (hk : u.kind = .rule k) :
    ruleOf t id = some k := by
  rw [ruleOf, (Tree.node_of_treeAt? h).1, hk]
  rfl

/-- The node of a tree has the tree's span. -/
theorem spanOf_of_treeAt? (h : t.nodes.treeAt? id = some u) : spanOf t id = u.span :=
  (Tree.node_of_treeAt? h).2.1

/-- The text of the node of a tree is the slice under the tree's span. -/
theorem text_of_treeAt? (h : t.nodes.treeAt? id = some u) : t.text id = t.source.slice u.span := by
  rw [Tree.text, (Tree.node_of_treeAt? h).2.1]

/-- A captured part is found below the node, and it holds the captured tree. -/
theorem required_of_treeAt? (h : t.nodes.treeAt? id = some u)
    (hv : u.captures[i]? = some (.part (some v))) :
    ∃ part, t.required id i = .ok part ∧ HoldsBelow t id part v := by
  obtain ⟨c, hc, hresolve⟩ := forall₂_getElem? (Tree.node_of_treeAt? h).2.2.flip hv
  obtain ⟨part, hlt, rfl, hpart⟩ := Tree.resolve?_part hresolve
  exact ⟨part, by rw [Tree.required, hc], hlt, hpart⟩

/-- A captured list is found below the node, and its nodes hold the captured trees. -/
theorem items_of_treeAt? (h : t.nodes.treeAt? id = some u) {A B : List (ParseTree Kind)}
    (hv : u.captures[i]? = some (.list A B)) :
    ∃ items, t.items id i = .ok items ∧ List.Forall₂ (HoldsBelow t id) items.1 A ∧
      List.Forall₂ (HoldsBelow t id) items.2 B := by
  obtain ⟨c, hc, hresolve⟩ := forall₂_getElem? (Tree.node_of_treeAt? h).2.2.flip hv
  cases c with
  | node part => cases part <;> simp [Capture.resolve?] at hresolve
  | list elements separators =>
    simp only [Capture.resolve?, Option.bind_eq_bind, Option.bind_eq_some_iff, Option.pure_def,
      Option.some.injEq, TreeCapture.list.injEq, mapM_eq_some_iff_forall₂] at hresolve
    obtain ⟨es', hes, ss', hss, rfl, rfl⟩ := hresolve
    exact ⟨(elements, separators), by rw [Tree.items, hc],
      hes.imp fun _ _ => Arena.treeBelow?_eq_some, hss.imp fun _ _ => Arena.treeBelow?_eq_some⟩

/-- The node of a tree has as many captures as the tree. -/
theorem expectCaptures_of_treeAt? (h : t.nodes.treeAt? id = some u) :
    t.expectCaptures id u.captures.length = .ok () := by
  rw [Tree.expectCaptures, if_pos (Tree.node_of_treeAt? h).2.2.length_eq]

/-- The node of an identifier tree reads as the text under its span. -/
theorem ident_of_treeAt? {span : Span} (h : t.nodes.treeAt? id = some (leafTree .id span)) :
    ident t id = .ok ⟨t.source.slice span, span⟩ := by
  rw [ident, if_pos (ruleOf_of_treeAt? h rfl), text_of_treeAt? h, spanOf_of_treeAt? h]
  rfl

end Nodes

/-! ## Operators between operands -/

/-- The tree of operands with operators between them. -/
def OperatorTree.ofLists? (operators : List (String × Span)) : List Expr → Option OperatorTree
  | [] => none
  | first :: rest => (insertAll (.leaf first) operators rest).toOption

/-- Inserting one more operator comes after inserting those before it. -/
theorem OperatorTree.insertAll_snoc {operators : List (String × Span)} {operands : List Expr}
    (h : operands.length = operators.length) (tree : OperatorTree) (symbol : String) (span : Span)
    (e : Expr) :
    insertAll tree (operators ++ [(symbol, span)]) (operands ++ [e]) =
      (insertAll tree operators operands).bind fun before =>
        insertAll before [(symbol, span)] [e] := by
  induction operators generalizing tree operands with
  | nil =>
    obtain rfl := List.length_eq_zero_iff.1 h
    rfl
  | cons op operators ih =>
    obtain ⟨operand, operands, rfl⟩ := List.exists_cons_of_length_eq_add_one h
    rw [List.cons_append, List.cons_append, insertAll, insertAll]
    cases BinaryOp.ofSymbol? op.1 with
    | none => rfl
    | some o => exact ih (Nat.succ.inj h) _

/-- The tree of a longer operator list is that of the shorter one with the last operator put in. -/
theorem OperatorTree.ofLists?_snoc {operators : List (String × Span)} {operands : List Expr}
    (h : operands.length = operators.length + 1) (symbol : String) (span : Span) (e : Expr) :
    ofLists? (operators ++ [(symbol, span)]) (operands ++ [e]) =
      (ofLists? operators operands).bind fun tree =>
        (BinaryOp.ofSymbol? symbol).map fun o => tree.insert o e := by
  obtain ⟨first, rest, rfl⟩ := List.exists_cons_of_length_eq_add_one h
  rw [List.cons_append, ofLists?, ofLists?, insertAll_snoc (Nat.succ.inj h)]
  refine (Except.toOption_bind _ _).trans (congrArg _ (funext fun tree => ?_))
  rw [insertAll]
  cases BinaryOp.ofSymbol? symbol <;> rfl

/-- Folding operators gives the expression of the tree of the lists if there is one, and fails
otherwise. -/
theorem foldOperators_toOption {operators : List (String × Span)} {operands : List Expr}
    (h : operands.length = operators.length + 1) :
    (foldOperators operands operators).toOption =
      (OperatorTree.ofLists? operators operands).map OperatorTree.toExpr := by
  obtain ⟨first, rest, rfl⟩ := List.exists_cons_of_length_eq_add_one h
  rw [foldOperators, if_pos (Nat.succ.inj h), OperatorTree.ofLists?]
  cases OperatorTree.insertAll (.leaf first) operators rest <;> rfl

/-! ## Reading the trees of phrases -/

section Reading

variable {t : Tree Kind} {depth : Nat} {id : NodeId} {u v : ParseTree Kind}

/-- A node below a bound is below every larger one. -/
theorem HoldsBelow.mono {bound bound' part : NodeId} (h : HoldsBelow t bound part u)
    (hle : bound ≤ bound') : HoldsBelow t bound' part u :=
  ⟨h.1.trans_le hle, h.2⟩

/-- Part of a node of bounded depth. -/
theorem HoldsBelow.pred {part : NodeId} (h : HoldsBelow t (depth + 1) id u)
    (hpart : HoldsBelow t id part v) : HoldsBelow t depth part v :=
  hpart.mono (Nat.le_of_lt_succ h.1)

/-- A choice is followed to its alternative. -/
theorem exprWithin_choice {k : Kind} (hk : k ∈ [Kind.atom, .literal, .parenExpr])
    (h : HoldsBelow t depth id u) (hkind : u.kind = .rule k)
    (hcapture : u.captures[0]? = some (.part (some v))) :
    ∃ depth' part, HoldsBelow t depth' part v ∧ exprWithin t depth id = exprWithin t depth' part := by
  obtain _ | depth := depth
  · exact absurd h.1 (Nat.not_lt_zero _)
  obtain ⟨part, hchosen, hpart⟩ := required_of_treeAt? h.2 hcapture
  refine ⟨depth, part, h.pred hpart, ?_⟩
  simp only [List.mem_cons, List.not_mem_nil, or_false] at hk
  rw [exprWithin, ruleOf_of_treeAt? h.2 hkind, chosen, hchosen]
  rcases hk with rfl | rfl | rfl <;> rfl

/-- A literal node reads as the value of its text if there is one. -/
theorem exprWithin_literal {kind : LiteralKind} {span : Span}
    (h : HoldsBelow t depth id (leafTree kind.rule span)) :
    (exprWithin t depth id).toOption = kind.value? t.source.slice span := by
  obtain _ | depth := depth
  · exact absurd h.1 (Nat.not_lt_zero _)
  have htext : t.text id = t.source.slice span := text_of_treeAt? h.2
  have hspan : spanOf t id = span := spanOf_of_treeAt? h.2
  rw [exprWithin, ruleOf_of_treeAt? h.2 rfl]
  cases kind with
  | bool =>
    simp only [LiteralKind.rule, htext, hspan]
    rfl
  | float =>
    simp only [LiteralKind.rule, floatLiteral, htext, hspan, LiteralKind.value?]
    cases Decimal.readFraction? (t.source.slice span) <;> rfl
  | int =>
    simp only [LiteralKind.rule, intLiteral, htext, hspan, LiteralKind.value?]
    cases Decimal.readInt? (String.ofList ((t.source.slice span).toList.filter (· ≠ '_'))) <;> rfl
  | name =>
    simp only [LiteralKind.rule, ident_of_treeAt? h.2]
    rfl

/-- How what a level is made of is read. -/
def Level.Reads (t : Tree Kind) (depth : Nat) : (l : Level) → l.Form → Option l.Value → Prop
  | chain, form, value => ∀ {atom accesses}, HoldsBelow t depth atom form.1 →
    List.Forall₂ (HoldsBelow t depth) accesses form.2 →
      (exprWithin t depth atom >>= accesses.foldlM (applyAccess t (exprWithin t depth))).toOption =
        value
  | operand, form, value => ∀ {id}, HoldsBelow t depth id form →
      (exprWithin t depth id).toOption = value
  | expr, form, value => form.elements.length = form.separators.length + 1 ∧
    ∀ {operands operators}, List.Forall₂ (HoldsBelow t depth) operands form.elements →
      List.Forall₂ (HoldsBelow t depth) operators form.separators →
        (operands.mapM fun id => (exprWithin t depth id).toOption).bind
          (OperatorTree.ofLists? (operators.map fun op => (t.text op, spanOf t op))) = value
  | items, form, value | args, form, value => ∀ {es},
    List.Forall₂ (HoldsBelow t depth) es form.elements →
      (es.mapM fun id => (exprWithin t depth id).toOption) = value

/-- The tree of an expression is read as its operands and operators are. -/
theorem exprWithin_exprTree {p : Phrase .expr} {value : Option OperatorTree}
    (hp : ∀ depth, Level.Reads t depth .expr p.form value)
    (h : HoldsBelow t depth id (exprTree p.form)) :
    (exprWithin t depth id).toOption = value.map OperatorTree.toExpr := by
  obtain _ | depth := depth
  · exact absurd h.1 (Nat.not_lt_zero _)
  obtain ⟨⟨operands, operators⟩, hitems, hoperands, hoperators⟩ :=
    items_of_treeAt? h.2 (i := 0) (A := p.form.elements) (B := p.form.separators) rfl
  obtain ⟨hlength, hreads⟩ := hp depth
  have hread := hreads (hoperands.imp fun _ _ => h.pred) (hoperators.imp fun _ _ => h.pred)
  rw [exprWithin, ruleOf_of_treeAt? h.2 rfl, ← hread, ← Except.toOption_mapM]
  simp only [operatorList, hitems]
  change (operands.mapM (exprWithin t depth) >>= _).toOption = _
  rw [Except.toOption_bind, Option.map_bind]
  cases hes : operands.mapM (exprWithin t depth) with
  | error => rfl
  | ok es =>
    have hcount : es.length = (operators.map fun op => (t.text op, spanOf t op)).length + 1 := by
      rw [mapM_ok_length hes, hoperands.length_eq, hlength, List.length_map, hoperators.length_eq]
    refine Eq.trans ?_ (foldOperators_toOption hcount)
    dsimp only [Except.toOption, Option.bind_some]
    cases foldOperators es (operators.map fun op => (t.text op, spanOf t op)) <;> rfl

/-! ### Accesses -/

/-- The alternative that an access took. -/
theorem exists_access_part {k : Kind} (hk : u.kind = .rule k)
    (h : HoldsBelow t depth id (.ofBody .access 1 u)) :
    ∃ part, chosen t id = .ok part ∧ HoldsBelow t depth part u := by
  obtain ⟨part, hchosen, hpart⟩ := required_of_treeAt? h.2 (i := 0) (v := u) (by
    rw [← capture_of_kind hk]
    rfl)
  exact ⟨part, hchosen, hpart.mono h.1.le⟩

/-- A field node reads as the field of its target. -/
theorem applyAccess_field {read : Read Expr} {point name : Span}
    (h : HoldsBelow t depth id (.ofBody .access 1 (fieldTree point name))) (e : Expr) :
    applyAccess t read e id =
      .ok (.field e ⟨t.source.slice name, name⟩ (e.span.merge (fieldTree point name).span)) := by
  obtain ⟨part, hpart, hholds⟩ := exists_access_part rfl h
  obtain ⟨node, hnode, hname⟩ :=
    required_of_treeAt? hholds.2 (i := 0) (v := leafTree .id name) rfl
  have hchosen : chosen t part = .ok node := hnode
  simp only [applyAccess, hpart, bind, Except.bind, ruleOf_of_treeAt? hholds.2 (k := .accessField) rfl, hchosen,
    ident_of_treeAt? hname.2, spanOf_of_treeAt? hholds.2]
  rfl

/-- An index node reads as the index access whose key is read below the node. -/
theorem applyAccess_index (read : Read Expr) {opening closing : Span}
    (h : HoldsBelow t depth id (.ofBody .access 1 (bracketTree .accessArray opening u closing)))
    {k : Kind} (hu : u.kind = .rule k) (e : Expr) :
    ∃ part, HoldsBelow t depth part u ∧ applyAccess t read e id = (read part).map fun i =>
      .index e i (e.span.merge (bracketTree .accessArray opening u closing).span) := by
  obtain ⟨access, haccess, hholds⟩ := exists_access_part rfl h
  obtain ⟨part, hrequired, hpart⟩ := required_of_treeAt? hholds.2 (i := 0) (v := u) (by
    rw [← capture_of_kind hu]
    rfl)
  have hchosen : chosen t access = .ok part := hrequired
  refine ⟨part, hpart.mono hholds.1.le, ?_⟩
  simp only [applyAccess, haccess, ruleOf_of_treeAt? hholds.2 (k := .accessArray) rfl, hchosen,
    spanOf_of_treeAt? hholds.2, bind, Except.bind]
  cases read part <;> rfl

/-- A call node reads as the call whose arguments are read below the node. -/
theorem applyAccess_call (read : Read Expr) {opening closing : Span} {args : Series} {pos : Nat}
    (h : HoldsBelow t depth id
      (.ofBody .access 1 (bracketTree .accessCall opening (args.tree pos) closing))) (e : Expr) :
    ∃ parts, List.Forall₂ (HoldsBelow t depth) parts args.elements ∧
      applyAccess t read e id = (parts.mapM read).map fun es =>
        .call e es (e.span.merge (bracketTree .accessCall opening (args.tree pos) closing).span) := by
  obtain ⟨access, haccess, hholds⟩ := exists_access_part rfl h
  obtain ⟨⟨parts, commas⟩, hitems, hparts, -⟩ :=
    items_of_treeAt? hholds.2 (i := 0) (A := args.elements) (B := args.separators) rfl
  refine ⟨parts, hparts.imp fun _ _ hpart => hpart.mono hholds.1.le, ?_⟩
  simp only [applyAccess, haccess, ruleOf_of_treeAt? hholds.2 (k := .accessCall) rfl, hitems,
    spanOf_of_treeAt? hholds.2, bind, Except.bind]
  cases parts.mapM read <;> rfl

/-- A postfix node reads as the operator of its symbol if there is one. -/
theorem applyAccess_post {read : Read Expr} {op : Span}
    (h : HoldsBelow t depth id (.ofBody .access 1 (leafTree .postOp op))) (e : Expr) :
    (applyAccess t read e id).toOption =
      (PostfixOp.ofSymbol? (t.source.slice op)).map fun o => .post o e (e.span.merge op) := by
  obtain ⟨access, haccess, hholds⟩ := exists_access_part rfl h
  have hspan : spanOf t access = op := spanOf_of_treeAt? hholds.2
  have htext : t.text access = t.source.slice op := text_of_treeAt? hholds.2
  simp only [applyAccess, haccess, ruleOf_of_treeAt? hholds.2 (k := .postOp) rfl, hspan, htext,
    bind, Except.bind]
  cases PostfixOp.ofSymbol? (t.source.slice op) <;> rfl

/-- One access more after a chain. -/
theorem reads_access {form : Level.chain.Form} {value : Option Expr} {access : ParseTree Kind}
    (h : Level.Reads t depth .chain form value) {f : Expr → Option Expr}
    (happly : ∀ {id}, HoldsBelow t depth id access → ∀ e,
      (applyAccess t (exprWithin t depth) e id).toOption = f e) :
    Level.Reads t depth .chain (form.1, form.2 ++ [access]) (value.bind f) := by
  intro atom accesses hatom haccesses
  obtain ⟨before, last, rfl, hbefore, hlast⟩ := forall₂_snoc haccesses
  have hread : (exprWithin t depth atom >>=
      (before ++ [last]).foldlM (applyAccess t (exprWithin t depth))) =
      (exprWithin t depth atom >>= before.foldlM (applyAccess t (exprWithin t depth))) >>=
        fun e => applyAccess t (exprWithin t depth) e last := by
    simp only [List.foldlM_append, List.foldlM_cons, List.foldlM_nil, bind_assoc, bind_pure]
  rw [hread, Except.toOption_bind, h hatom hbefore]
  exact congrArg _ (funext fun e => happly hlast e)

/-- A single chain. -/
theorem reads_atom {atom : ParseTree Kind} {value : Option Expr}
    (h : ∀ {id}, HoldsBelow t depth id atom → (exprWithin t depth id).toOption = value) :
    Level.Reads t depth .chain (atom, []) value := by
  intro id accesses hatom haccesses
  cases haccesses
  have hread : (exprWithin t depth id >>=
      ([] : List NodeId).foldlM (applyAccess t (exprWithin t depth))) = exprWithin t depth id := by
    simp only [List.foldlM_nil]
    exact bind_pure _
  rw [hread, h hatom]

/-- The first tree of a chain is an atom. -/
theorem Phrase.atom_kind : (p : Phrase .chain) → p.form.1.kind = .rule .atom
  | literal _ _ | paren _ _ _ => rfl
  | field target _ _ | index target _ _ _ | call target _ _ _ | post target _ => target.atom_kind

/-- The tree of an operand is an operand. -/
theorem Phrase.operand_kind : (p : Phrase .operand) → p.form.kind = .rule .operand
  | plain _ | unary _ _ => rfl

/-- The tree of an operand is read as its atom and the accesses after it are. -/
theorem exprWithin_operandTree {atom : ParseTree Kind} {accesses : List (ParseTree Kind)} {pos : Nat}
    {value : Option Expr} (hkind : atom.kind = .rule .atom)
    (hreads : ∀ depth, Level.Reads t depth .chain (atom, accesses) value)
    (h : HoldsBelow t depth id (operandTree atom accesses pos)) :
    (exprWithin t depth id).toOption = value := by
  obtain _ | depth := depth
  · exact absurd h.1 (Nat.not_lt_zero _)
  obtain ⟨part, hrequired, hpart⟩ := required_of_treeAt? h.2 (i := 0) (v := atom) (by
    rw [← capture_of_kind hkind]
    rfl)
  obtain ⟨⟨parts, rest⟩, hitems, hparts, -⟩ :=
    items_of_treeAt? h.2 (i := 1) (A := accesses) (B := []) rfl
  have hcaptures : t.expectCaptures id 2 = .ok () := expectCaptures_of_treeAt? h.2
  rw [exprWithin, ruleOf_of_treeAt? h.2 (k := .operand) rfl]
  simp only [accessChain, hcaptures, hitems, hrequired, bind, Except.bind]
  exact hreads depth (h.pred hpart) (hparts.imp fun _ _ => h.pred)

/-- The tree of an operator before its operand is read as the operand is. -/
theorem exprWithin_unaryTree {op : Span} {operand : ParseTree Kind} {value : Option Expr}
    (hkind : operand.kind = .rule .operand)
    (hreads : ∀ depth, Level.Reads t depth .operand operand value)
    (h : HoldsBelow t depth id (unaryTree op operand)) :
    (exprWithin t depth id).toOption = (PrefixOp.ofSymbol? (t.source.slice op)).bind fun o =>
      value.map fun e => .unary o e (unaryTree op operand).span := by
  obtain _ | depth := depth
  · exact absurd h.1 (Nat.not_lt_zero _)
  obtain ⟨sign, hfirst, hsign⟩ := required_of_treeAt? h.2 (i := 0) (v := leafTree .unop op) rfl
  obtain ⟨part, hsecond, hpart⟩ := required_of_treeAt? h.2 (i := 1) (v := operand) (by
    rw [← capture_of_kind hkind]
    rfl)
  have hcaptures : t.expectCaptures id 2 = .ok () := expectCaptures_of_treeAt? h.2
  have htext : t.text sign = t.source.slice op := text_of_treeAt? hsign.2
  rw [exprWithin, ruleOf_of_treeAt? h.2 (k := .unopExpr) rfl, ← hreads depth (h.pred hpart)]
  simp only [unary, hcaptures, hfirst, hsecond, htext, spanOf_of_treeAt? h.2, bind, Except.bind]
  cases PrefixOp.ofSymbol? (t.source.slice op) with
  | none => rfl
  | some o => cases exprWithin t depth part <;> rfl

/-- An operator and an operand more after operands. -/
theorem reads_more {form : Series} {tree : Option OperatorTree} {op : Span}
    {operand : ParseTree Kind} {value : Option Expr} (h : Level.Reads t depth .expr form tree)
    (hoperand : Level.Reads t depth .operand operand value) :
    Level.Reads t depth .expr (form.snoc (some (leafTree .binop op)) operand) (do
      let before ← tree
      let o ← BinaryOp.ofSymbol? (t.source.slice op)
      let e ← value
      return before.insert o e) := by
  obtain ⟨hlength, hreads⟩ := h
  refine ⟨by simp [Series.snoc, hlength], fun hoperands hoperators => ?_⟩
  obtain ⟨operands, last, rfl, hbefore, hlast⟩ := forall₂_snoc hoperands
  obtain ⟨operators, sign, rfl, hsigns, hsign⟩ := forall₂_snoc hoperators
  have htext : t.text sign = t.source.slice op := text_of_treeAt? hsign.2
  have hcount {es : List Expr}
      (hes : operands.mapM (fun id => (exprWithin t depth id).toOption) = some es) :
      es.length = (operators.map fun op => (t.text op, spanOf t op)).length + 1 := by
    rw [← (mapM_eq_some_iff_forall₂.1 hes).length_eq, hbefore.length_eq, hlength, List.length_map,
      hsigns.length_eq]
  rw [← hreads hbefore hsigns, List.mapM_append, List.map_append]
  generalize operators.map (fun op => (t.text op, spanOf t op)) = signs at hcount ⊢
  simp only [List.mapM_cons, List.mapM_nil, hoperand hlast, List.map_cons, List.map_nil, htext]
  cases hes : operands.mapM fun id => (exprWithin t depth id).toOption with
  | none => rfl
  | some es =>
    simp only [Option.pure_def, Option.bind_eq_bind, Option.bind_some]
    cases value with
    | none => simp
    | some e =>
      simp only [Option.bind_some, OperatorTree.ofLists?_snoc (hcount hes)]
      cases OperatorTree.ofLists? signs es <;>
        cases BinaryOp.ofSymbol? (t.source.slice op) <;> rfl

/-- The tree of a phrase is read as the value of the phrase. -/
theorem Phrase.reads {l : Level} (p : Phrase l) (depth : Nat) :
    l.Reads t depth p.form (p.value? t.source.slice) := by
  induction p generalizing depth with
  | literal kind span =>
    refine reads_atom fun hatom => ?_
    obtain ⟨depth₁, part₁, hpart₁, heq₁⟩ := exprWithin_choice (k := .atom) (by decide) hatom rfl rfl
    obtain ⟨depth₂, part₂, hpart₂, heq₂⟩ := exprWithin_choice (k := .literal) (by decide) hpart₁ rfl rfl
    rw [heq₁, heq₂, exprWithin_literal hpart₂]
    rfl
  | paren opening inner closing ih =>
    refine reads_atom fun hatom => ?_
    obtain ⟨depth₁, part₁, hpart₁, heq₁⟩ := exprWithin_choice (k := .atom) (by decide) hatom rfl rfl
    obtain ⟨depth₂, part₂, hpart₂, heq₂⟩ := exprWithin_choice (k := .parenExpr) (by decide) hpart₁ rfl rfl
    rw [heq₁, heq₂, exprWithin_exprTree ih hpart₂]
    rfl
  | field target point name ih =>
    rw [value?, Option.map_eq_bind]
    exact reads_access (ih depth) fun h e => congrArg _ (applyAccess_field h e)
  | index target opening key closing ih ihkey =>
    refine reads_access (ih depth) fun h e => ?_
    obtain ⟨part, hpart, heq⟩ := applyAccess_index (exprWithin t depth) h rfl e
    rw [heq, Except.toOption_map, exprWithin_exprTree ihkey hpart, Option.map_map,
      Option.map_eq_bind]
    rfl
  | call callee opening args closing ih ihargs =>
    refine reads_access (ih depth) fun h e => ?_
    obtain ⟨parts, hparts, heq⟩ := applyAccess_call (exprWithin t depth) h e
    rw [heq, Except.toOption_map, Except.toOption_mapM, ihargs depth hparts, Option.map_eq_bind]
    rfl
  | post target op ih =>
    refine reads_access (ih depth) fun h e => ?_
    rw [applyAccess_post h, Option.map_eq_bind]
    rfl
  | plain chain ih => exact exprWithin_operandTree chain.atom_kind ih
  | unary op operand ih =>
    refine exprWithin_operandTree rfl fun depth => reads_atom fun hatom => ?_
    obtain ⟨depth, part, hpart, heq⟩ := exprWithin_choice (k := .atom) (by decide) hatom rfl rfl
    rw [heq, exprWithin_unaryTree operand.operand_kind ih hpart, value?]
    cases operand.value? t.source.slice <;> rfl
  | single operand ih =>
    refine ⟨rfl, fun hoperands hoperators => ?_⟩
    cases hoperators
    obtain ⟨id, rest, hid, hrest, rfl⟩ := List.forall₂_cons_right_iff.1 hoperands
    cases hrest
    simp only [List.mapM_cons, List.mapM_nil, ih depth hid, value?]
    cases operand.value? t.source.slice <;> rfl
  | more before op operand ih ihoperand => exact reads_more (ih depth) (ihoperand depth)
  | one e ih =>
    intro es hes
    obtain ⟨id, rest, hid, hrest, rfl⟩ := List.forall₂_cons_right_iff.1 hes
    cases hrest
    simp only [List.mapM_cons, List.mapM_nil, exprWithin_exprTree ih hid, value?]
    cases e.value? t.source.slice <;> rfl
  | next before comma e ih ihe =>
    intro es hes
    obtain ⟨es, last, rfl, hbefore, hlast⟩ := forall₂_snoc hes
    simp only [List.mapM_append, List.mapM_cons, List.mapM_nil, ih depth hbefore,
      exprWithin_exprTree ihe hlast, value?]
    cases before.value? t.source.slice <;> cases e.value? t.source.slice <;> rfl
  | noArgs =>
    intro es hes
    cases hes
    rfl
  | withArgs items ih => exact ih depth

/-- A node that holds the tree of an expression is read as its value. -/
theorem expr_toOption (p : Phrase .expr) (h : t.nodes.treeAt? id = some (exprTree p.form)) :
    (Syntax.expr t id).toOption = (p.value? t.source.slice).map OperatorTree.toExpr :=
  exprWithin_exprTree p.reads ⟨Nat.lt_succ_self id, h⟩

end Reading

/-! ## Sources -/

/-- Reading a source succeeds exactly if the source parses and its root reads. -/
theorem readAs_eq_ok_iff {α : Type} {start : Kind} {read : Tree Kind → Read α} {source : Source}
    {config : ParseConfig} {a : α} : readAs start read source config = .ok a ↔
      ∃ parsed, language.parse start source config = .ok parsed ∧
        read parsed.tree parsed.root = .ok a := by
  rw [readAs, grammar_eq]
  dsimp only
  cases language.parse start source config with
  | error => simp
  | ok parsed => cases hread : read parsed.tree parsed.root <;> simp [Except.mapError, hread]

/-- A source that is read as an expression is the spelling of a phrase with that value, and only a gap
is left behind it. -/
theorem exists_phrase_of_parseExpr {source : Source} {config : ParseConfig} {e : Expr}
    (h : parseExpr source config = .ok e) :
    ∃ (parsed : Parsed Kind) (p : Phrase .expr) (stop : Cursor) (tree : OperatorTree),
      language.parse .expr source config = .ok parsed ∧
      parsed.tree.nodes.treeAt? parsed.root = some (exprTree p.form) ∧
      p.Spelt config.skipper source.start stop ∧ (config.skipper.skip stop).rest = [] ∧
      p.value? source.slice = some tree ∧ tree.toExpr = e := by
  obtain ⟨parsed, hparse, hread⟩ := readAs_eq_ok_iff.1 h
  obtain ⟨hsource, u, stop, hu, hhole, hrel, hrest⟩ :=
    Grammar.outcome_of_parse language.closed_referenceRel hparse
  obtain ⟨p, rfl, hp⟩ := exists_phrase ⟨hrel, hhole⟩
  have hvalue := expr_toOption p hu
  rw [hsource, hread] at hvalue
  obtain ⟨tree, htree, rfl⟩ := Option.map_eq_some_iff.1 hvalue.symm
  exact ⟨parsed, p, stop, tree, hparse, hu, hp, hrest, htree, rfl⟩

end Syntax

end ExpLang
