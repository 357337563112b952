import ExpLang.Proofs.Syntax.Values

/-!
# Operators grouped by priorities

Operands and operators are grouped from left to right, one operator at a time, and the tree that comes out
is `Grouped`: an operator in the right operand of another one binds tighter, and the operator on top of the
left operand does not give way. Such a tree is what grouping makes of its own operands and operators
(`graft_eq`), so every tree inside it is too.

`Arranged` spreads a tree over a text. A phrase with operators between its operands has its tree spread
over its text (`Arranged.insert`), and a grouped tree that is spread over a text is the value of a phrase
there (`Arranged.exists_phrase`).
-/

namespace ExpLang.Syntax

namespace OperatorTree

/-- The operators of a tree. -/
def ops : OperatorTree → List BinaryOp
  | leaf _ => []
  | node op left right => left.ops ++ op :: right.ops

/-- An operator does not go into a tree but on top of it. -/
def Tops (op : BinaryOp) : OperatorTree → Prop
  | leaf _ => True
  | node top _ _ => bindsTighter op top = false

/-- Each operator binds looser than those on its right, and goes on top of what is on its left. -/
def Grouped : OperatorTree → Prop
  | leaf _ => True
  | node op left right => left.Grouped ∧ right.Grouped ∧ left.Tops op ∧
    ∀ o ∈ right.ops, bindsTighter o op = true

/-- Inserting an operator puts it behind those of the tree. -/
theorem ops_insert (op : BinaryOp) (operand : Expr) (tree : OperatorTree) :
    (tree.insert op operand).ops = tree.ops ++ [op] := by
  induction tree with
  | leaf e => rfl
  | node top left right _ ih =>
    rw [insert]
    split
    · rw [ops, ih, ops, List.append_assoc, List.cons_append]
    · rfl

/-- Grouping one operator more keeps a tree grouped. -/
theorem Grouped.insert {tree : OperatorTree} (h : tree.Grouped) (op : BinaryOp) (operand : Expr) :
    (tree.insert op operand).Grouped := by
  induction tree with
  | leaf e => exact ⟨trivial, trivial, trivial, fun _ ho => absurd ho List.not_mem_nil⟩
  | node top left right _ ih =>
    obtain ⟨hleft, hright, htops, htighter⟩ := h
    rw [OperatorTree.insert]
    split
    · rename_i hop
      refine ⟨hleft, ih hright, htops, fun o ho => ?_⟩
      rw [ops_insert, List.mem_append, List.mem_singleton] at ho
      rcases ho with ho | rfl
      · exact htighter o ho
      · exact hop
    · rename_i hop
      exact ⟨⟨hleft, hright, htops, htighter⟩, trivial, Bool.eq_false_iff.2 hop,
        fun _ ho => absurd ho List.not_mem_nil⟩

/-- An operator that goes on top of a tree has the whole tree on its left. -/
theorem insert_of_tops {op : BinaryOp} {tree : OperatorTree} (h : tree.Tops op) (operand : Expr) :
    tree.insert op operand = node op tree (leaf operand) := by
  cases tree with
  | leaf e => rfl
  | node top left right => rw [insert, if_neg (Bool.eq_false_iff.1 h)]

/-- Add an operator and the operands of a tree, one after the other. -/
def graft (op : BinaryOp) (tree : OperatorTree) : OperatorTree → OperatorTree
  | leaf e => tree.insert op e
  | node op' left right => graft op' (graft op tree left) right

/-- Operators that bind tighter than the one on top go into its right operand. -/
theorem graft_node {top : BinaryOp} {left tree right : OperatorTree} {op : BinaryOp}
    (hop : bindsTighter op top = true) (htree : ∀ o ∈ tree.ops, bindsTighter o top = true) :
    graft op (node top left right) tree = node top left (graft op right tree) := by
  induction tree generalizing op right with
  | leaf e => rw [graft, graft, insert, if_pos hop]
  | node op' l r ihl ihr =>
    rw [ops, List.forall_mem_append, List.forall_mem_cons] at htree
    rw [graft, graft, ihl hop htree.1, ihr htree.2.1 htree.2.2]

/-- A grouped tree is what grouping makes of its operands and operators. -/
theorem graft_eq {op : BinaryOp} {left right : OperatorTree} (h : (node op left right).Grouped) :
    graft op left right = node op left right := by
  obtain ⟨hleft, hright, htops, htighter⟩ := h
  induction right generalizing op left with
  | leaf e => rw [graft, insert_of_tops htops]
  | node op' l r ihl ihr =>
    obtain ⟨hl, hr, htops', htighter'⟩ := hright
    rw [ops, List.forall_mem_append, List.forall_mem_cons] at htighter
    rw [graft, ihl hleft hl htops htighter.1, graft_node htighter.2.1 htighter.2.2,
      ihr hl hr htops' htighter']

end OperatorTree

/-! ## Trees in a text -/

section Arranged

variable {sk : Skipper} {text : Span → String} {P Q : Expr → Cursor → Cursor → Prop}
  {c c₁ c₂ stop : Cursor} {op : BinaryOp} {span : Span}

/-- An operator between operands stands in a text. -/
structure Joint (sk : Skipper) (text : Span → String) (op : BinaryOp) (c : Cursor) (span : Span)
    (stop : Cursor) : Prop where
  notPost : (Token.op .postfixOp).NotAt sk c
  reads : (Token.op .binaryOp).At sk c span stop
  means : BinaryOp.ofSymbol? (text span) = some op

/-- The operands and operators of a tree stand one after the other in a text, the operands where `P` says
that they can stand. -/
def Arranged (sk : Skipper) (text : Span → String) (P : Expr → Cursor → Cursor → Prop) :
    OperatorTree → Cursor → Cursor → Prop
  | .leaf e, c, stop => P e c stop
  | .node op left right, c, stop => ∃ c₁ span c₂, Arranged sk text P left c c₁ ∧
      Joint sk text op c₁ span c₂ ∧ Arranged sk text P right c₂ stop

/-- A tree arranged for some parts is arranged for more. -/
theorem Arranged.imp {tree : OperatorTree} (hPQ : ∀ {e c stop}, P e c stop → Q e c stop)
    (h : Arranged sk text P tree c stop) : Arranged sk text Q tree c stop := by
  induction tree generalizing c stop with
  | leaf e => exact hPQ h
  | node op left right ihl ihr =>
    obtain ⟨c₁, span, c₂, hleft, hop, hright⟩ := h
    exact ⟨c₁, span, c₂, ihl hleft, hop, ihr hright⟩

/-- Inserting an operator keeps a tree arranged, up to the end of the new operand. -/
theorem Arranged.insert {tree : OperatorTree} (h : Arranged sk text P tree c c₁)
    (hop : Joint sk text op c₁ span c₂) {operand : Expr} (hoperand : P operand c₂ stop) :
    Arranged sk text P (tree.insert op operand) c stop := by
  induction tree generalizing c with
  | leaf e => exact ⟨c₁, span, c₂, h, hop, hoperand⟩
  | node top left right _ ih =>
    rw [OperatorTree.insert]
    split
    · obtain ⟨d₁, span', d₂, hleft, htop, hright⟩ := h
      exact ⟨d₁, span', d₂, hleft, htop, ih hright⟩
    · exact ⟨c₁, span, c₂, h, hop, hoperand⟩

/-- An operand that is spelt in a text. -/
def SpeltAs (sk : Skipper) (text : Span → String) (e : Expr) (c stop : Cursor) : Prop :=
  ∃ q : Phrase .operand, q.Spelt sk c stop ∧ q.value? text = some e

/-- The operands of a tree behind an operator make a phrase longer. -/
theorem Arranged.exists_graft {tree : OperatorTree}
    (h : Arranged sk text (SpeltAs sk text) tree c₂ stop) (hop : Joint sk text op c₁ span c₂)
    {before : Phrase .expr} (hbefore : before.Spelt sk c c₁) {left : OperatorTree}
    (hleft : before.value? text = some left) :
    ∃ q : Phrase .expr, q.Spelt sk c stop ∧ q.value? text = some (left.graft op tree) := by
  induction tree generalizing op c₁ c₂ span stop before left with
  | leaf e =>
    obtain ⟨operand, hoperand, hvalue⟩ := h
    exact ⟨.more before span operand, ⟨c₁, c₂, hbefore, hop.notPost, hop.reads, hoperand⟩,
      Phrase.value?_more_iff.2 ⟨left, op, e, hleft, hop.means, hvalue, rfl⟩⟩
  | node op' l r ihl ihr =>
    obtain ⟨d₁, span', d₂, hl, hop', hr⟩ := h
    obtain ⟨q, hq, hvalue⟩ := ihl hl hop hbefore hleft
    exact ihr hr hop' hq hvalue

/-- A grouped tree that stands in a text is the value of a phrase there. -/
theorem Arranged.exists_phrase {tree : OperatorTree}
    (h : Arranged sk text (SpeltAs sk text) tree c stop) (hgrouped : tree.Grouped) :
    ∃ q : Phrase .expr, q.Spelt sk c stop ∧ q.value? text = some tree := by
  induction tree generalizing c stop with
  | leaf e =>
    obtain ⟨operand, hoperand, hvalue⟩ := h
    exact ⟨.single operand, hoperand, by rw [Phrase.value?, hvalue, Option.map_some]⟩
  | node op left right ihl _ =>
    obtain ⟨c₁, span, c₂, hleft, hop, hright⟩ := h
    obtain ⟨before, hbefore, hvalue⟩ := ihl hleft hgrouped.1
    rw [← OperatorTree.graft_eq hgrouped]
    exact hright.exists_graft hop hbefore hvalue

end Arranged

end ExpLang.Syntax
