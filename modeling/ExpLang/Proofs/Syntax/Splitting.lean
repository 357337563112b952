import ExpLang.Proofs.Syntax.Grouping

/-!
# The loosest operator is on top

Operands are grouped one operator at a time, from left to right. This module says what comes out
without that order: with an operator in sight the tree is split at the loosest one, the last of them or,
if these are assignments, the first of them, and both sides are built in the same way
(`BuiltFrom`). An operand is taken as it is, whatever it is made of.

`foldOperators_outcome` is the exact outcome for all lists. If there is not one operand more than there
are operators, that is the error, and it comes before the first symbol that is no operator.
-/

namespace ExpLang

/-- A span holds another one. -/
def Span.Holds (s t : Span) : Prop := s.start ≤ t.start ∧ t.stop ≤ s.stop

/-- A span is the smallest one that holds two spans. -/
structure Span.IsHull (s t u : Span) : Prop where
  left : s.Holds t
  right : s.Holds u
  least : ∀ v : Span, v.Holds t → v.Holds u → v.Holds s

/-- The merge of two spans is the least span over both. -/
theorem Span.isHull_merge (s t : Span) : (s.merge t).IsHull s t where
  left := ⟨Nat.min_le_left _ _, Nat.le_max_left _ _⟩
  right := ⟨Nat.min_le_right _ _, Nat.le_max_right _ _⟩
  least _ hs ht := ⟨Nat.le_min.2 ⟨hs.1, ht.1⟩, Nat.max_le.2 ⟨hs.2, ht.2⟩⟩

/-- There is one least span over two spans. -/
theorem Span.IsHull.unique {s s' t u : Span} (h : s.IsHull t u) (h' : s'.IsHull t u) : s = s' := by
  have hs := h'.least s h.left h.right
  have hs' := h.least s' h'.left h'.right
  rw [Span.mk.injEq]
  exact ⟨Nat.le_antisymm hs.1 hs'.1, Nat.le_antisymm hs'.2 hs.2⟩

namespace Syntax

variable {left left' right right' : List BinaryOp} {op op' : BinaryOp}

/-- Of operators in a row the one between `left` and `right` is the root: no other binds looser, and of
those that bind as loosely it is the last one, or the first one if they are assignments. -/
structure IsRoot (left : List BinaryOp) (op : BinaryOp) (right : List BinaryOp) : Prop where
  loosest : ∀ o ∈ left ++ right, priority o ≤ priority op
  last : priority op ≠ assignmentPriority → ∀ o ∈ right, priority o < priority op
  first : priority op = assignmentPriority → ∀ o ∈ left, priority o < priority op

/-- An expression is built from operands with operators between them: from one operand it is the operand,
and otherwise it is split at the root. -/
inductive BuiltFrom : List Expr → List BinaryOp → Expr → Prop where
  | operand (e : Expr) : BuiltFrom [e] [] e
  | split {xs ys : List Expr} {left right : List BinaryOp} {op : BinaryOp} {l r : Expr} {span : Span}
      (hroot : IsRoot left op right) (hleft : BuiltFrom xs left l) (hright : BuiltFrom ys right r)
      (hspan : span.IsHull l.span r.span) :
      BuiltFrom (xs ++ ys) (left ++ op :: right) (.binary op l r span)

/-- What comes of operands with operators between them. -/
inductive FoldsTo (operands : List Expr) (operators : List (String × Span)) :
    Except PrecedenceError Expr → Prop where
  | shape (h : operands.length ≠ operators.length + 1) :
      FoldsTo operands operators (.error (.shape operands.length operators.length))
  | unknown {symbol : String} {span : Span} (hlength : operands.length = operators.length + 1)
      (hfirst : operators.find? (fun o => (BinaryOp.ofSymbol? o.1).isNone) = some (symbol, span)) :
      FoldsTo operands operators (.error (.unknownOperator symbol span))
  | tree {ops : List BinaryOp} {e : Expr} (hops : operators.map (BinaryOp.ofSymbol? ·.1) = ops.map some)
      (hbuilt : BuiltFrom operands ops e) : FoldsTo operands operators (.ok e)

/-! ## There is one outcome -/

/-- A row of operators has one root. -/
theorem IsRoot.unique (h : IsRoot left op right) (h' : IsRoot left' op' right')
    (heq : left ++ op :: right = left' ++ op' :: right') : left = left' ∧ op = op' ∧ right = right' := by
  -- A second root further to the right would be as loose, and then one of them is not where a root is.
  have hnot {left mid right : List BinaryOp} {op op' : BinaryOp}
      (h : IsRoot left op (mid ++ op' :: right)) (h' : IsRoot (left ++ op :: mid) op' right) : False := by
    have hle := h.loosest op' (by simp)
    have hle' := h'.loosest op (by simp)
    by_cases hassign : priority op = assignmentPriority
    · have := h'.first (by omega) op (by simp)
      omega
    · have := h.last hassign op' (by simp)
      omega
  rcases List.append_eq_append_iff.1 heq with ⟨mid, hleft', hright⟩ | ⟨mid, hleft, hright'⟩
  · cases mid with
    | nil => simp_all
    | cons o mid =>
      obtain ⟨rfl, rfl⟩ := List.cons.inj hright
      rw [hleft'] at h'
      exact (hnot h h').elim
  · cases mid with
    | nil => simp_all
    | cons o mid =>
      obtain ⟨rfl, rfl⟩ := List.cons.inj hright'
      rw [hleft] at h
      exact (hnot h' h).elim

/-- An expression is built from one operand more than operators. -/
theorem BuiltFrom.length_eq {operands : List Expr} {ops : List BinaryOp} {e : Expr}
    (h : BuiltFrom operands ops e) : operands.length = ops.length + 1 := by
  induction h with
  | operand e => rfl
  | split hroot hleft hright hspan ihleft ihright =>
    rw [List.length_append, List.length_append, List.length_cons, ihleft, ihright]
    omega

/-- Operands and operators build one expression. -/
theorem BuiltFrom.unique {operands : List Expr} {ops : List BinaryOp} {e e' : Expr}
    (h : BuiltFrom operands ops e) (h' : BuiltFrom operands ops e') : e = e' := by
  induction h generalizing e' with
  | operand e =>
    generalize hoperands : [e] = operands at h'
    generalize hops : ([] : List BinaryOp) = ops at h'
    cases h' with
    | operand e' => exact List.head_eq_of_cons_eq hoperands
    | split => exact absurd hops.symm (List.append_ne_nil_of_right_ne_nil _ (List.cons_ne_nil _ _))
  | @split xs ys left right op l r span hroot hleft hright hspan ihleft ihright =>
    generalize hoperands : xs ++ ys = operands at h'
    generalize hops : left ++ op :: right = ops at h'
    cases h' with
    | operand => exact absurd hops (List.append_ne_nil_of_right_ne_nil _ (List.cons_ne_nil _ _))
    | split hroot' hleft' hright' hspan' =>
      obtain ⟨rfl, rfl, rfl⟩ := hroot.unique hroot' hops
      have hlength := hleft.length_eq.trans hleft'.length_eq.symm
      obtain ⟨rfl, rfl⟩ := List.append_inj hoperands hlength
      obtain rfl := ihleft hleft'
      obtain rfl := ihright hright'
      rw [hspan.unique hspan']

/-- Operands and operators fold to one result only. -/
theorem FoldsTo.unique {operands : List Expr} {operators : List (String × Span)}
    {r r' : Except PrecedenceError Expr} (h : FoldsTo operands operators r)
    (h' : FoldsTo operands operators r') : r = r' := by
  have hlength {ops : List BinaryOp} {e : Expr}
      (hops : operators.map (BinaryOp.ofSymbol? ·.1) = ops.map some) (hbuilt : BuiltFrom operands ops e) :
      operands.length = operators.length + 1 := by
    have := congrArg List.length hops
    rw [List.length_map, List.length_map] at this
    rw [hbuilt.length_eq, this]
  have hknown {ops : List BinaryOp} {first : String × Span}
      (hops : operators.map (BinaryOp.ofSymbol? ·.1) = ops.map some)
      (hfirst : operators.find? (fun o => (BinaryOp.ofSymbol? o.1).isNone) = some first) : False := by
    have hmem := List.mem_map_of_mem (f := (BinaryOp.ofSymbol? ·.1)) (List.mem_of_find?_eq_some hfirst)
    rw [hops] at hmem
    obtain ⟨op, -, hop⟩ := List.mem_map.1 hmem
    have hnone := List.find?_some hfirst
    rw [← hop] at hnone
    cases hnone
  cases h with
  | shape h =>
    cases h' with
    | shape => rfl
    | unknown hl => exact absurd hl h
    | tree hops hbuilt => exact absurd (hlength hops hbuilt) h
  | unknown hl hfirst =>
    cases h' with
    | shape h => exact absurd hl h
    | unknown _ hfirst' => cases hfirst.symm.trans hfirst'; rfl
    | tree hops => exact (hknown hops hfirst).elim
  | tree hops hbuilt =>
    cases h' with
    | shape h => exact absurd (hlength hops hbuilt) h
    | unknown _ hfirst => exact (hknown hops hfirst).elim
    | tree hops' hbuilt' =>
      obtain rfl := List.map_injective_iff.2 (Option.some_injective _) (hops.symm.trans hops')
      rw [hbuilt.unique hbuilt']

/-! ## Grouped trees are split at their roots -/

namespace OperatorTree

/-- The operands of a tree. -/
def operands : OperatorTree → List Expr
  | leaf e => [e]
  | node _ left right => left.operands ++ right.operands

/-- Inserting an operator puts its operand behind those of the tree. -/
theorem operands_insert (op : BinaryOp) (operand : Expr) (tree : OperatorTree) :
    (tree.insert op operand).operands = tree.operands ++ [operand] := by
  induction tree with
  | leaf e => rfl
  | node top left right _ ih =>
    rw [insert]
    split
    · rw [operands, ih, operands, List.append_assoc]
    · rfl

/-- An operator that goes on top of a tree binds tighter than none of its operators. -/
theorem Tops.not_bindsTighter {tree : OperatorTree} (h : tree.Tops op) (hgrouped : tree.Grouped) :
    ∀ o ∈ tree.ops, bindsTighter op o = false := by
  induction tree generalizing op with
  | leaf e => exact fun _ ho => absurd ho List.not_mem_nil
  | node top left right ihleft _ =>
    obtain ⟨hleft, -, htops, htighter⟩ := hgrouped
    have htop : bindsTighter op top = false := h
    -- What gives way to the operator on top gives way to what goes on top of that one.
    have htrans {o : BinaryOp} (ho : bindsTighter top o = false ∨ bindsTighter o top = true) :
        bindsTighter op o = false := by
      simp only [bindsTighter, Bool.or_eq_false_iff, Bool.or_eq_true, decide_eq_false_iff_not,
        decide_eq_true_eq, Bool.and_eq_false_iff, Bool.and_eq_true, beq_eq_false_iff_ne, beq_iff_eq] at *
      omega
    intro o ho
    rw [ops, List.mem_append, List.mem_cons] at ho
    rcases ho with ho | rfl | ho
    · exact htrans (.inl (ihleft htops hleft o ho))
    · exact htop
    · exact htrans (.inr (htighter o ho))

/-- The operator on top of a grouped tree is the root of its operators. -/
theorem Grouped.isRoot {l r : OperatorTree} (h : (node op l r).Grouped) : IsRoot l.ops op r.ops := by
  obtain ⟨hleft, -, htops, htighter⟩ := h
  have hloose := htops.not_bindsTighter hleft
  simp only [bindsTighter, Bool.or_eq_false_iff, Bool.or_eq_true, decide_eq_false_iff_not,
    decide_eq_true_eq, Bool.and_eq_false_iff, Bool.and_eq_true, beq_eq_false_iff_ne, beq_iff_eq]
    at hloose htighter
  refine ⟨fun o ho => ?_, fun hop o ho => ?_, fun hop o ho => ?_⟩
  · rcases List.mem_append.1 ho with ho | ho
    · have := hloose o ho
      omega
    · have := htighter o ho
      omega
  · have := htighter o ho
    omega
  · have := hloose o ho
    omega

/-- A grouped tree is built from its operands and operators. -/
theorem Grouped.builtFrom {tree : OperatorTree} (h : tree.Grouped) :
    BuiltFrom tree.operands tree.ops tree.toExpr := by
  induction tree with
  | leaf e => exact .operand e
  | node op l r ihleft ihright => exact .split h.isRoot (ihleft h.1) (ihright h.2.1) (Span.isHull_merge _ _)

/-- Adding operators that are known adds each with its operand. -/
theorem insertAll_of_known {operators : List (String × Span)} {ops : List BinaryOp} {xs : List Expr}
    (hops : operators.map (BinaryOp.ofSymbol? ·.1) = ops.map some) (hlength : xs.length = operators.length)
    {tree : OperatorTree} (hgrouped : tree.Grouped) :
    ∃ tree', insertAll tree operators xs = .ok tree' ∧ tree'.Grouped ∧
      tree'.operands = tree.operands ++ xs ∧ tree'.ops = tree.ops ++ ops := by
  induction operators generalizing ops xs tree with
  | nil =>
    obtain rfl := List.length_eq_zero_iff.1 hlength
    obtain rfl := List.map_eq_nil_iff.1 hops.symm
    exact ⟨tree, rfl, hgrouped, (List.append_nil _).symm, (List.append_nil _).symm⟩
  | cons head operators ih =>
    obtain ⟨x, xs, rfl⟩ := List.exists_cons_of_length_eq_add_one hlength
    obtain ⟨op, ops, rfl, hop, hops⟩ := List.map_eq_cons_iff.1 hops.symm
    obtain ⟨tree', htree', hgrouped', hoperands', hops'⟩ :=
      ih hops.symm (Nat.succ.inj hlength) (hgrouped.insert op x)
    refine ⟨tree', ?_, hgrouped', ?_, ?_⟩
    · rw [insertAll, show BinaryOp.ofSymbol? head.1 = some op from hop.symm]
      exact htree'
    · rw [hoperands', operands_insert, List.append_assoc, List.singleton_append]
    · rw [hops', ops_insert, List.append_assoc, List.singleton_append]

/-- Adding operators stops at the first one that is not known. -/
theorem insertAll_unknown {operators : List (String × Span)} {xs : List Expr} {symbol : String}
    {span : Span} (hlength : xs.length = operators.length)
    (hfirst : operators.find? (fun o => (BinaryOp.ofSymbol? o.1).isNone) = some (symbol, span))
    (tree : OperatorTree) : insertAll tree operators xs = .error (.unknownOperator symbol span) := by
  induction operators generalizing xs tree with
  | nil => cases hfirst
  | cons head operators ih =>
    obtain ⟨x, xs, rfl⟩ := List.exists_cons_of_length_eq_add_one hlength
    rw [insertAll]
    cases hop : BinaryOp.ofSymbol? head.1 with
    | none =>
      rw [List.find?_cons_of_pos (by rw [hop]; rfl)] at hfirst
      cases hfirst
      rfl
    | some op =>
      rw [List.find?_cons_of_neg (by rw [hop]; exact Bool.false_ne_true)] at hfirst
      exact ih (Nat.succ.inj hlength) hfirst _

end OperatorTree

/-- All operators of a row are known, or there is a first one that is not. -/
theorem known_or_unknown (operators : List (String × Span)) :
    (∃ ops : List BinaryOp, operators.map (BinaryOp.ofSymbol? ·.1) = ops.map some) ∨
      ∃ first, operators.find? (fun o => (BinaryOp.ofSymbol? o.1).isNone) = some first := by
  cases hfirst : operators.find? (fun o => (BinaryOp.ofSymbol? o.1).isNone) with
  | some first => exact .inr ⟨first, rfl⟩
  | none =>
    refine .inl ⟨operators.filterMap (BinaryOp.ofSymbol? ·.1), ?_⟩
    rw [List.map_filterMap_some_eq_filter_map_isSome, List.filter_eq_self.2]
    intro o ho
    obtain ⟨operator, hoperator, rfl⟩ := List.mem_map.1 ho
    rw [Option.isSome_iff_ne_none]
    simpa using List.find?_eq_none.1 hfirst operator hoperator

/-- Folding gives what operands and operators fold to, be it an expression or an error. -/
theorem foldsTo_foldOperators (operands : List Expr) (operators : List (String × Span)) :
    FoldsTo operands operators (foldOperators operands operators) := by
  cases operands with
  | nil => exact .shape (Nat.succ_ne_zero _).symm
  | cons first rest =>
    rw [foldOperators]
    split
    · rename_i hlength
      obtain ⟨ops, hops⟩ | ⟨⟨symbol, span⟩, hfirst⟩ := known_or_unknown operators
      · have hgrouped : (OperatorTree.leaf first).Grouped := trivial
        obtain ⟨tree, htree, hgrouped, hoperands, hops'⟩ :=
          OperatorTree.insertAll_of_known hops hlength hgrouped
        rw [htree]
        refine .tree hops ?_
        have hbuilt := hgrouped.builtFrom
        rwa [hoperands, hops'] at hbuilt
      · rw [OperatorTree.insertAll_unknown hlength hfirst]
        exact .unknown (congrArg Nat.succ hlength) hfirst
    · rename_i hlength
      exact .shape fun h => hlength (Nat.succ.inj h)

/-- An expression that is built from operands and operators is that of a tree with these in their order. -/
theorem BuiltFrom.exists_tree {operands : List Expr} {ops : List BinaryOp} {e : Expr}
    (h : BuiltFrom operands ops e) :
    ∃ tree : OperatorTree, tree.toExpr = e ∧ tree.operands = operands ∧ tree.ops = ops := by
  induction h with
  | operand e => exact ⟨.leaf e, rfl, rfl, rfl⟩
  | @split xs ys left right op l r span hroot hleft hright hspan ihleft ihright =>
    obtain ⟨tl, rfl, hxs, hl⟩ := ihleft
    obtain ⟨tr, rfl, hys, hr⟩ := ihright
    refine ⟨.node op tl tr, ?_, ?_, ?_⟩
    · rw [hspan.unique (Span.isHull_merge _ _)]
      rfl
    · rw [OperatorTree.operands, hxs, hys]
    · rw [OperatorTree.ops, hl, hr]

/-- Operators that are known have the symbols that they are known by. -/
theorem map_symbol_of_known {operators : List (String × Span)} {ops : List BinaryOp}
    (hops : operators.map (BinaryOp.ofSymbol? ·.1) = ops.map some) :
    ops.map BinaryOp.symbol = operators.map Prod.fst := by
  induction operators generalizing ops with
  | nil => rw [List.map_eq_nil_iff.1 hops.symm]; rfl
  | cons head operators ih =>
    obtain ⟨op, ops, rfl, hop, hops⟩ := List.map_eq_cons_iff.1 hops.symm
    have hsymbol : op.symbol = head.1 := by simpa using List.find?_some hop.symm
    rw [List.map_cons, List.map_cons, hsymbol, ih hops.symm]

/-- Operands with operators between them are split at the loosest operator, and then each side is, and
the tree has the operands and the operators in their order. -/
theorem foldOperators_outcome (operands : List Expr) (operators : List (String × Span)) :
    (∀ r, foldOperators operands operators = r ↔ FoldsTo operands operators r) ∧
      ∀ e, foldOperators operands operators = .ok e → ∃ tree : OperatorTree, tree.toExpr = e ∧
        tree.operands = operands ∧ tree.ops.map BinaryOp.symbol = operators.map Prod.fst := by
  have hfolds := foldsTo_foldOperators operands operators
  refine ⟨fun r => ⟨fun h => h ▸ hfolds, hfolds.unique⟩, fun e he => ?_⟩
  rw [he] at hfolds
  cases hfolds with
  | tree hops hbuilt =>
    obtain ⟨tree, hexpr, hoperands, hops'⟩ := hbuilt.exists_tree
    exact ⟨tree, hexpr, hoperands, hops' ▸ map_symbol_of_known hops⟩

/-- In `1 + 2 * 3 ** 4` a power stands in a product, which stands in a sum. -/
theorem foldOperators_outcome_power :
    let operands := [Expr.int 1 ⟨0, 1⟩, .int 2 ⟨4, 5⟩, .int 3 ⟨8, 9⟩, .int 4 ⟨13, 14⟩]
    let operators := [("+", Span.mk 2 3), ("*", ⟨6, 7⟩), ("**", ⟨10, 12⟩)]
    let power := Expr.binary .pow (.int 3 ⟨8, 9⟩) (.int 4 ⟨13, 14⟩) ⟨8, 14⟩
    let product := Expr.binary .mul (.int 2 ⟨4, 5⟩) power ⟨4, 14⟩
    foldOperators operands operators = .ok (.binary .add (.int 1 ⟨0, 1⟩) product ⟨0, 14⟩) ∧
      ∃ tree : OperatorTree, tree.toExpr = .binary .add (.int 1 ⟨0, 1⟩) product ⟨0, 14⟩ ∧
        tree.operands = operands ∧ tree.ops.map BinaryOp.symbol = operators.map Prod.fst := by
  intro operands operators power product
  exact ⟨rfl, (foldOperators_outcome operands operators).2 _ rfl⟩

end Syntax

end ExpLang
