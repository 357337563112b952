import ExpLang.Proofs.Matching.Acceptance
import ExpLang.Proofs.Matching.Framing
import ExpLang.Proofs.Syntax.ExprRules

/-!
# Trees of expressions are trees of phrases

Where the rule of expressions goes through, its tree is the tree of a phrase that is spelt there
(`exists_phrase`). The tree of a list is read from left to right and the phrase so far is made longer with
each element. What is inside of parentheses and brackets stands in a shorter text than what is around them,
so the induction is on the length of the text.
-/

namespace ExpLang.Syntax

variable {sk : Skipper} {c stop : Cursor} {n : Nat}

/-! ## Lists -/

/-- The elements that a list goes on with, behind a series. -/
def Series.append (s : Series) (r : ListOutcome Kind) : Series :=
  ⟨s.parts ++ r.parts, s.elements ++ r.elements, s.separators ++ r.separators⟩

/-- A series with nothing behind it is itself. -/
theorem Series.append_nil (s : Series) (c : Cursor) : s.append { stop := c } = s := by
  simp [append]

/-- A series with an element behind it is the longer series with the rest behind it. -/
theorem Series.append_cons (s : Series) (before : Option (ParseTree Kind)) (t : ParseTree Kind)
    (r : ListOutcome Kind) :
    s.append (.separator before (.element t r)) = (s.snoc before t).append r := by
  cases before <;> simp [append, snoc, ListOutcome.separator, ListOutcome.element]

/-- What can be made longer by an element, with the separator before it, can be made longer by all the
elements that a list goes on with. A list without separators ends where no element follows. -/
theorem exists_append {X : Type} {S : X → Cursor → Prop} {F : X → Series} {element : Matcher Kind}
    {separator : Option (Matcher Kind)}
    (hstep : ∀ {x c before here t stop}, S x c →
      SeparatorRel (language.ReferenceRel sk) separator false c before here →
      language.Through sk element here t stop →
      ∃ x', S x' stop ∧ F x' = (F x).snoc before t ∧ c.pos < stop.pos)
    {r : ListOutcome Kind}
    (h : ElementsRel (language.ReferenceRel sk) element separator false c r) (hwhole : r.hole = none)
    {x : X} (hx : S x c) :
    ∃ x', S x' r.stop ∧ F x' = (F x).append r ∧
      (separator = none → language.Refused sk element r.stop) := by
  generalize hfirst : false = first at h
  induction h generalizing x with
  | unseparated hm =>
    refine ⟨x, hx, (Series.append_nil _ _).symm, fun hnone => ?_⟩
    cases hm.symm.trans hnone
  | stuck => cases hwhole
  | ended hsep hend =>
    refine ⟨x, hx, (Series.append_nil _ _).symm, fun hnone => ?_⟩
    subst hnone
    cases hsep
    exact hend
  | @last first c before here t stop hsep ht hlast =>
    subst hfirst
    -- An element without a hole reads something, so the list does not end with it.
    have hhole : t.hole = none := by
      cases before <;> exact hwhole
    obtain ⟨-, -, -, hlt⟩ := hstep hx hsep ⟨ht, hhole⟩
    simp only [hhole, Option.isSome_none, Bool.false_or, beq_iff_eq] at hlast
    exact absurd hlast (Nat.ne_of_gt hlt)
  | @more first c before here t stop r hsep ht hmore _ ih =>
    subst hfirst
    rw [Bool.or_eq_false_iff, Option.isSome_eq_false_iff, Option.isNone_iff_eq_none] at hmore
    obtain ⟨x₁, hx₁, hform, -⟩ := hstep hx hsep ⟨ht, hmore.1⟩
    have hrest : r.hole = none := by
      cases before <;> exact hwhole
    obtain ⟨x', hx', hform', hend⟩ := ih hrest hx₁ rfl
    rw [ListOutcome.separator_stop, ListOutcome.element_stop]
    exact ⟨x', hx', by rw [hform', hform, Series.append_cons], hend⟩

/-! ## Arguments -/

/-- Expressions in texts that are shorter than a number are phrases. -/
def ExprsBelow (sk : Skipper) (n : Nat) : Prop :=
  ∀ {c t stop}, c.rest.length < n → language.Through sk (.rule .expr) c t stop →
    ∃ p : Phrase .expr, t = exprTree p.form ∧ p.Spelt sk c stop

/-- Operands in texts that are shorter than a number are phrases, and no access follows. -/
def OperandsBelow (sk : Skipper) (n : Nat) : Prop :=
  ∀ {c t stop}, c.rest.length < n → language.Through sk (.rule .operand) c t stop →
    ∃ p : Phrase .operand, t = p.form ∧ p.Spelt sk c stop ∧ language.Refused sk (.rule .access) stop

/-- A comma and an expression make arguments longer. -/
theorem exists_item (hexprs : ExprsBelow sk n) (hc : c.rest.length < n) {start here : Cursor}
    {p : Phrase .items} (hp : p.Spelt sk start c) {before : Option (ParseTree Kind)}
    {t : ParseTree Kind}
    (hsep : SeparatorRel (language.ReferenceRel sk) (some (.literal [','])) false c before here)
    (ht : language.Through sk (.rule .expr) here t stop) :
    ∃ q : Phrase .items, q.Spelt sk start stop ∧ q.form = p.form.snoc before t ∧ c.Moves stop := by
  obtain ⟨u, rfl, hu⟩ := hsep.of_some
  obtain ⟨comma, hcomma, rfl⟩ := through_mark_iff.1 hu
  have hmoves := hcomma.moves (by decide)
  obtain ⟨e, rfl, he⟩ := hexprs (hmoves.length_lt.trans hc) ht
  exact ⟨.next p comma e, ⟨c, here, hp, hcomma, he⟩, rfl, hmoves.trans he.moves⟩

/-- Arguments that go through are the arguments of a phrase that spells the same text. -/
theorem exists_args (hexprs : ExprsBelow sk n) (hc : c.rest.length < n) {t : ParseTree Kind}
    (h : language.Through sk (.list (.rule .expr) (some (.literal [','])) 0) c t stop) :
    ∃ p : Phrase .args, t = p.form.tree c.pos ∧ p.Spelt sk c stop := by
  obtain ⟨r, helements, hwhole, -, rfl, rfl⟩ := Grammar.through_list_iff.1 h
  have hmoves {t : ParseTree Kind} {stop : Cursor}
      (ht : language.Through sk (.rule .expr) c t stop) : c.Moves stop := by
    obtain ⟨p, -, hp⟩ := hexprs hc ht
    exact hp.moves
  rcases Grammar.elements_cases (fun ht => (hmoves ht).lt) helements hwhole with
    rfl | ⟨t, mid, r', ht, rfl, hwhole', helements'⟩
  · exact ⟨.noArgs, rfl, rfl⟩
  obtain ⟨p, rfl, hp⟩ := hexprs hc ht
  let S (q : Phrase .items) (c' : Cursor) : Prop := q.Spelt sk c c' ∧ c'.rest.length < n
  have hp' : S (.one p) mid := ⟨hp, (hmoves ht).length_lt.trans hc⟩
  obtain ⟨q, ⟨hq, -⟩, hform, -⟩ := exists_append (F := Phrase.form) (fun hx hsep ht => by
    obtain ⟨q, hq, hform, hmoves⟩ := exists_item hexprs hx.2 hx.1 hsep ht
    exact ⟨q, ⟨hq, hmoves.length_lt.trans hx.2⟩, hform, hmoves.lt⟩) helements' hwhole' hp'
  refine ⟨.withArgs q, ?_, hq⟩
  change ListOutcome.tree _ _ = q.form.tree c.pos
  rw [hform]
  rfl

/-! ## Accesses -/

/-- An access makes a chain longer. -/
theorem exists_access (hexprs : ExprsBelow sk n) (hc : c.rest.length ≤ n) {start : Cursor}
    {p : Phrase .chain} (hp : p.Spelt sk start c) {t : ParseTree Kind}
    (h : language.Through sk (.rule .access) c t stop) :
    ∃ q : Phrase .chain, q.Spelt sk start stop ∧ q.form = (p.form.1, p.form.2 ++ [t]) ∧
      c.Moves stop := by
  obtain ⟨u, hchosen, -, rfl⟩ := through_access_iff.1 h
  rcases hchosen with hu | ⟨-, hu | ⟨-, hu | ⟨-, hu | ⟨-, hu⟩⟩⟩⟩
  · obtain ⟨point, c₁, name, hpoint, hname, rfl⟩ := through_field_iff.1 hu
    exact ⟨.field p point name, ⟨c, c₁, hp, hpoint, hname⟩, rfl,
      (hpoint.moves (by decide)).trans (hname.moves trivial)⟩
  · obtain ⟨opening, c₁, v, c₂, closing, hopening, hv, hclosing, rfl⟩ :=
      (through_bracket_iff rfl rfl rfl).1 hu
    have hmoves := hopening.moves (by decide)
    obtain ⟨key, rfl, hkey⟩ := hexprs (hmoves.length_lt.trans_le hc) hv
    exact ⟨.index p opening key closing, ⟨c, c₁, c₂, hp, hopening, hkey, hclosing⟩, rfl,
      (hmoves.trans hkey.moves).trans (hclosing.moves (by decide))⟩
  · obtain ⟨opening, c₁, v, c₂, closing, hopening, hv, hclosing, rfl⟩ :=
      (through_bracket_iff rfl rfl rfl).1 hu
    have hmoves := hopening.moves (by decide)
    obtain ⟨args, rfl, hargs⟩ := exists_args hexprs (hmoves.length_lt.trans_le hc) hv
    refine ⟨.call p opening args closing, ⟨c, c₁, c₂, hp, hopening, hargs, hclosing⟩, ?_,
      (hmoves.trans_advances hargs.moves).trans (hclosing.moves (by decide))⟩
    rw [Phrase.form, hopening.2]
  · obtain ⟨op, hop, rfl⟩ := (through_leaf_iff rfl).1 hu
    exact ⟨.post p op, ⟨c, hp, hop⟩, rfl, hop.moves trivial⟩
  · exact hu.elim

/-- The tree of accesses stands at an offset that counts only if there are none. -/
theorem Series.tree_pos {s : Series} {t : ParseTree Kind} {rest : List (ParseTree Kind)}
    (hparts : s.parts = t :: rest) (ht : t.kind.isEmpty = false) (pos pos' : Nat) :
    s.tree pos = s.tree pos' := by
  simp [tree, ParseTree.cover, hparts, ht, Span.cover]

/-- The accesses of a chain are there. -/
theorem Phrase.isEmpty_access : (p : Phrase .chain) → ∀ t ∈ p.form.2, t.kind.isEmpty = false
  | .literal _ _, _, ht | .paren _ _ _, _, ht => absurd ht List.not_mem_nil
  | .field target _ _, t, ht | .index target _ _ _, t, ht | .call target _ _ _, t, ht
  | .post target _, t, ht => by
    rcases List.mem_append.1 ht with ht | ht
    · exact target.isEmpty_access t ht
    · rw [List.mem_singleton.1 ht]
      rfl

/-- The accesses after an atom make it a chain. -/
theorem exists_chain (hexprs : ExprsBelow sk n) {mid : Cursor} (hmid : mid.rest.length ≤ n)
    {p : Phrase .chain} {atom accesses : ParseTree Kind} (hform : p.form = (atom, []))
    (hp : p.Spelt sk c mid)
    (h : language.Through sk (.list (.rule .access) none 0) mid accesses stop) :
    ∃ q : Phrase .chain, q.form.1 = atom ∧ accesses = (Series.plain q.form.2).tree q.stop ∧
      q.Spelt sk c stop ∧ language.Refused sk (.rule .access) stop := by
  obtain ⟨r, helements, hwhole, -, rfl, rfl⟩ := Grammar.through_list_iff.1 h
  let S (q : Phrase .chain) (c' : Cursor) : Prop := q.Spelt sk c c' ∧ q.form.1 = atom ∧
    c'.rest.length ≤ n ∧ (q.form.2 = [] → q.stop = mid.pos)
  have hp' : S p mid :=
    ⟨hp, by rw [hform], hmid, fun _ => (hp.stop_pos (by decide)).symm⟩
  have hstep {q : Phrase .chain} {c' here stop : Cursor} {before : Option (ParseTree Kind)}
      {t : ParseTree Kind} (hq : S q c')
      (hsep : SeparatorRel (language.ReferenceRel sk) none false c' before here)
      (ht : language.Through sk (.rule .access) here t stop) :
      ∃ q', S q' stop ∧ Series.plain q'.form.2 = (Series.plain q.form.2).snoc before t ∧
        c'.pos < stop.pos := by
    obtain ⟨hspelt, hatom, hlength, -⟩ := hq
    cases hsep
    obtain ⟨q', hq', hform', hmoves⟩ := exists_access hexprs hlength hspelt ht
    refine ⟨q', ⟨hq', by rw [hform', hatom], hmoves.length_lt.le.trans hlength, fun hnil => ?_⟩, ?_,
      hmoves.lt⟩
    · rw [hform'] at hnil
      exact absurd hnil (by simp)
    · rw [hform']
      simp [Series.plain, Series.snoc]
  obtain ⟨q, ⟨hq, hatom, -, hstop⟩, hseries, hend⟩ :=
    exists_append (F := fun q => .plain q.form.2) hstep helements.not_first hwhole hp'
  refine ⟨q, hatom, ?_, hq, hend rfl⟩
  have htree : r.tree mid.pos = (Series.plain q.form.2).tree mid.pos := by
    rw [hseries, hform]
    rfl
  rw [htree]
  cases hnil : q.form.2 with
  | nil => rw [hstop hnil]
  | cons t rest =>
    have ht := q.isEmpty_access t (by rw [hnil]; exact List.mem_cons_self)
    exact Series.tree_pos rfl ht _ _

/-! ## Operands and expressions -/

/-- An operand is a chain, or an operator and an operand. -/
theorem exists_operand (hexprs : ExprsBelow sk n) (hoperands : OperandsBelow sk n)
    (hc : c.rest.length ≤ n) {t : ParseTree Kind}
    (h : language.Through sk (.rule .operand) c t stop) :
    ∃ p : Phrase .operand, t = p.form ∧ p.Spelt sk c stop ∧
      language.Refused sk (.rule .access) stop := by
  obtain ⟨atom, mid, accesses, hatom, haccesses, rfl⟩ := through_operand_iff.1 h
  have hchain {p : Phrase .chain} (hform : p.form = (atom, [])) (hp : p.Spelt sk c mid) :
      ∃ p : Phrase .operand,
        .ofParts (.rule .operand) 0 [(atom, true), (accesses, true)] = p.form ∧
          p.Spelt sk c stop ∧ language.Refused sk (.rule .access) stop := by
    have hmoves : c.Moves mid := hp.moves
    obtain ⟨q, rfl, rfl, hq, hend⟩ := exists_chain hexprs (hmoves.length_lt.le.trans hc) hform hp haccesses
    exact ⟨.plain q, rfl, hq, hend⟩
  obtain ⟨u, hchosen, -, rfl⟩ := through_atom_iff.1 hatom
  rcases hchosen with hu | ⟨-, hu | ⟨-, hu | ⟨-, hu⟩⟩⟩
  · obtain ⟨kind, span, hat, hearlier, rfl⟩ := through_literal_iff.1 hu
    exact hchain (p := .literal kind span) rfl ⟨hat, hearlier⟩
  · obtain ⟨op, c₁, v, hop, hv, rfl⟩ := through_unary_iff.1 hu
    have hmoves := hop.moves trivial
    obtain ⟨operand, rfl, hoperand, hend⟩ := hoperands (hmoves.length_lt.trans_le hc) hv
    -- All accesses belong to the operand, so none are left for the whole.
    obtain ⟨r, helements, hwhole, -, rfl, rfl⟩ := Grammar.through_list_iff.1 haccesses
    obtain rfl := Grammar.elements_eq_nil hend helements.not_first
    refine ⟨.unary op operand, ?_, ⟨c₁, hop, hoperand⟩, hend⟩
    rw [Phrase.form, operandTree, ← hoperand.stop_pos (by decide)]
    rfl
  · obtain ⟨opening, c₁, v, c₂, closing, hopening, hv, hclosing, rfl⟩ :=
      (through_bracket_iff rfl rfl rfl).1 hu
    obtain ⟨inner, rfl, hinner⟩ := hexprs ((hopening.moves (by decide)).length_lt.trans_le hc) hv
    exact hchain (p := .paren opening inner closing) rfl ⟨c₁, c₂, hopening, hinner, hclosing⟩
  · exact hu.elim

/-- An operator and an operand make an expression longer. -/
theorem exists_more (hoperands : OperandsBelow sk n) (hc : c.rest.length < n) {start here : Cursor}
    {p : Phrase .expr} (hp : p.Spelt sk start c) (hend : language.Refused sk (.rule .access) c)
    {before : Option (ParseTree Kind)} {t : ParseTree Kind}
    (hsep : SeparatorRel (language.ReferenceRel sk) (some (.rule .binop)) false c before here)
    (ht : language.Through sk (.rule .operand) here t stop) :
    ∃ q : Phrase .expr, q.Spelt sk start stop ∧ q.form = p.form.snoc before t ∧ c.Moves stop ∧
      language.Refused sk (.rule .access) stop := by
  obtain ⟨u, rfl, hu⟩ := hsep.of_some
  obtain ⟨op, hop, rfl⟩ := (through_leaf_iff rfl).1 hu
  have hmoves := hop.moves trivial
  obtain ⟨operand, rfl, hoperand, hend'⟩ := hoperands (hmoves.length_lt.trans hc) ht
  exact ⟨.more p op operand, ⟨c, here, hp, (refused_access_iff.1 hend).2.2.2, hop, hoperand⟩, rfl,
    hmoves.trans hoperand.moves, hend'⟩

/-- An operand is there. -/
theorem Phrase.isEmpty_operand : (p : Phrase .operand) → p.form.kind.isEmpty = false
  | .plain _ | .unary _ _ => rfl

/-- An expression is operands with operators between them. -/
theorem exists_expr (hoperands : OperandsBelow sk n) (hc : c.rest.length < n) {t : ParseTree Kind}
    (h : language.Through sk (.rule .expr) c t stop) :
    ∃ p : Phrase .expr, t = exprTree p.form ∧ p.Spelt sk c stop := by
  obtain ⟨u, hu, rfl⟩ := through_expr_iff.1 h
  obtain ⟨r, helements, hwhole, hleast, rfl, rfl⟩ := Grammar.through_list_iff.1 hu
  have hmoves {t : ParseTree Kind} {stop : Cursor}
      (ht : language.Through sk (.rule .operand) c t stop) : c.Moves stop := by
    obtain ⟨p, -, hp, -⟩ := hoperands hc ht
    exact hp.moves
  rcases Grammar.elements_cases (fun ht => (hmoves ht).lt) helements hwhole with
    rfl | ⟨t, mid, r', ht, rfl, hwhole', helements'⟩
  · cases hleast
  obtain ⟨p, rfl, hp, hend⟩ := hoperands hc ht
  let S (q : Phrase .expr) (c' : Cursor) : Prop :=
    q.Spelt sk c c' ∧ c'.rest.length < n ∧ language.Refused sk (.rule .access) c'
  have hp' : S (.single p) mid := ⟨hp, (hmoves ht).length_lt.trans hc, hend⟩
  obtain ⟨q, ⟨hq, -⟩, hform, -⟩ := exists_append (F := Phrase.form) (fun hx hsep ht => by
    obtain ⟨q, hq, hform, hmoves, hend⟩ := exists_more hoperands hx.2.1 hx.1 hx.2.2 hsep ht
    exact ⟨q, ⟨hq, hmoves.length_lt.trans hx.2.1, hend⟩, hform, hmoves.lt⟩) helements' hwhole' hp'
  refine ⟨q, ?_, hq⟩
  have hparts : q.form.parts = p.form :: r'.parts := congrArg Series.parts hform
  rw [exprTree, Series.tree_pos hparts p.isEmpty_operand 0 c.pos, hform]
  rfl

/-- Operands and expressions in texts of any length are phrases. -/
theorem exprsBelow (sk : Skipper) (n : Nat) : ExprsBelow sk n ∧ OperandsBelow sk n := by
  induction n with
  | zero => exact ⟨fun hc => absurd hc (Nat.not_lt_zero _), fun hc => absurd hc (Nat.not_lt_zero _)⟩
  | succ n ih =>
    have hoperands : OperandsBelow sk (n + 1) := fun hc ht =>
      exists_operand ih.1 ih.2 (Nat.le_of_lt_succ hc) ht
    exact ⟨fun hc ht => exists_expr hoperands hc ht, hoperands⟩

/-- The tree of an expression is the tree of a phrase that is spelt where the expression stands. -/
theorem exists_phrase {t : ParseTree Kind} (h : language.Through sk (.rule .expr) c t stop) :
    ∃ p : Phrase .expr, t = exprTree p.form ∧ p.Spelt sk c stop :=
  (exprsBelow sk (c.rest.length + 1)).1 (Nat.lt_succ_self _) h

end ExpLang.Syntax
