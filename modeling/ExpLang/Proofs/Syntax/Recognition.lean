import ExpLang.Proofs.Syntax.Excerpts

/-!
# Phrases are recognized

The rule of expressions goes through where a phrase is spelt and nothing behind it goes on with it, and its
tree is the tree of the phrase (`Phrase.Spelt.through_expr`). What could go on with an expression is an
access or an operator, and neither stands before a closing bracket, before a comma or at the end of a text.

A list is made of its first element and the elements behind it, and a phrase of the phrase before its last
element. So the phrases of lists are recognized in front of any elements that a list goes on with
(`Level.Recognized`), and the induction over a phrase puts its elements in front of them one by one.
-/

namespace ExpLang.Syntax

open Text

variable {sk : Skipper} {c mid stop : Cursor} {span : Span} {t u : Token}

/-! ## Tokens that exclude others -/

/-- A fixed token or an operator takes one of its texts. -/
theorem Token.Takes.mem_texts {x r : List Char} (h : t.Takes x r) (ht : t.texts ≠ []) :
    x ∈ t.texts := by
  cases t with
  | mark text => exact h.1
  | op set => exact h.1
  | word | float | int | bool | name => exact absurd rfl ht

/-- No token is read where one is read that starts with other characters. -/
theorem Token.At.notAt (h : t.At sk c span stop) (ht : t.Known) (htexts : t.texts ≠ []) (hu : u.Known)
    (hapart : ∀ x ∈ t.texts, x.head?.any u.starts = false) : u.NotAt sk c := by
  obtain ⟨x, hrest, -, htakes⟩ := (readsBy ht _ _).1 h.1
  obtain ⟨d, ds, rfl, -⟩ := htakes.head ht
  rw [notAt_iff hu, hrest]
  exact refuses_of_starts hu (hapart _ (htakes.mem_texts htexts))

/-- Nothing that stands at a cursor goes on with an expression. -/
structure Ends (sk : Skipper) (c : Cursor) : Prop where
  access : language.Refused sk (.rule .access) c
  binop : (Token.op .binaryOp).NotAt sk c

/-- No access is read where no point, bracket, parenthesis or postfix operator stands. -/
theorem refused_access (hpoint : (Token.mark ['.']).NotAt sk c) (hindex : (Token.mark ['[']).NotAt sk c)
    (hcall : (Token.mark ['(']).NotAt sk c) (hpost : (Token.op .postfixOp).NotAt sk c) :
    language.Refused sk (.rule .access) c :=
  refused_access_iff.2 ⟨Grammar.refused_ruleSeq rfl rfl (refused_mark_iff.2 hpoint),
    Grammar.refused_ruleSeq rfl rfl (refused_mark_iff.2 hindex),
    Grammar.refused_ruleSeq rfl rfl (refused_mark_iff.2 hcall), hpost⟩

/-- An expression ends before a closing bracket and before a comma. -/
theorem Token.At.ends {text : List Char} (h : (Token.mark text).At sk c span stop)
    (htext : text ∈ [[')'], [']'], [',']]) : Ends sk c := by
  have hknown : (mark text).Known := by
    have hall : ∀ text ∈ [[')'], [']'], [',']], (mark text).Known := by decide
    exact hall text htext
  have hnot {u : Token} (hu : u ∈ [mark ['.'], mark ['['], mark ['('], op .postfixOp, op .binaryOp]) :
      u.NotAt sk c := by
    have hall : ∀ text ∈ [[')'], [']'], [',']],
        ∀ u ∈ [mark ['.'], mark ['['], mark ['('], op .postfixOp, op .binaryOp],
          u.Known ∧ ∀ x ∈ (mark text).texts, x.head?.any u.starts = false := by decide
    obtain ⟨hu, hapart⟩ := hall text htext u hu
    exact h.notAt hknown (List.cons_ne_nil _ _) hu hapart
  exact ⟨refused_access (hnot (by decide)) (hnot (by decide)) (hnot (by decide)) (hnot (by decide)),
    hnot (by decide)⟩

/-- An expression ends where the text does. -/
theorem ends_of_rest_nil (h : (sk.skip c).rest = []) : Ends sk c := by
  have hnot {u : Token} (hu : u.Known) : u.NotAt sk c := by
    rw [Token.notAt_iff hu, h]
    exact Token.refuses_nil hu
  exact ⟨refused_access (hnot (by decide)) (hnot (by decide)) (hnot (by decide)) (hnot trivial),
    hnot trivial⟩

/-- There is no gap before a point. -/
theorem skip_point (sk : Skipper) (pos : Nat) (cs : List Char) :
    sk.skip ⟨pos, '.' :: cs⟩ = ⟨pos, '.' :: cs⟩ := by
  have hblank : isBlank '.' = false := by decide
  have hslash : '.' ≠ '/' := by decide
  cases sk with
  | none => rfl
  | blanks =>
    exact Skipper.passBlanks_run (r := '.' :: cs) (List.forall_mem_nil _) (stops_cons.2 hblank) pos
  | blanksAndComments => exact Skipper.solid_cons hblank (fun h => absurd h hslash) pos

/-- No access stands where an operator between operands does. -/
theorem refused_access_of_binop (hop : (Token.op .binaryOp).At sk c span stop)
    (hpost : (Token.op .postfixOp).NotAt sk c) : language.Refused sk (.rule .access) c := by
  have hnot {u : Token} (hu : u ∈ [Token.mark ['['], Token.mark ['(']]) : u.NotAt sk c := by
    have hall : ∀ u ∈ [Token.mark ['['], Token.mark ['(']],
        u.Known ∧ ∀ x ∈ (Token.op .binaryOp).texts, x.head?.any u.starts = false := by decide +kernel
    obtain ⟨hu, hapart⟩ := hall u hu
    exact hop.notAt trivial (by decide) hu hapart
  refine refused_access_iff.2 ⟨?_, Grammar.refused_ruleSeq rfl rfl (refused_mark_iff.2 (hnot (by decide))),
    Grammar.refused_ruleSeq rfl rfl (refused_mark_iff.2 (hnot (by decide))), hpost⟩
  by_cases hpoint : (Token.mark ['.']).NotAt sk c
  · exact Grammar.refused_ruleSeq rfl rfl (refused_mark_iff.2 hpoint)
  · -- The operator of ranges starts like an access to a field, but no name follows.
    obtain ⟨after, hread⟩ := Option.ne_none_iff_exists'.1 hpoint
    have hat : (Token.mark ['.']).At sk c ⟨(sk.skip c).pos, after.pos⟩ after := ⟨hread, rfl⟩
    refine Grammar.refused_ruleSeq_second rfl rfl rfl (through_mark_iff.2 ⟨_, hat, rfl⟩)
      ((refused_leaf_iff rfl).2 ?_)
    obtain ⟨x, hx, -, htakes⟩ := (Token.readsBy (t := .op .binaryOp) trivial _ _).1 hop.1
    obtain ⟨y, hy, -, hpointed⟩ := (Token.readsBy (t := .mark ['.']) (by decide) _ _).1 hread
    obtain rfl : y = ['.'] := List.mem_singleton.1 hpointed.1
    have hrange : ∀ x ∈ (Token.op .binaryOp).texts, x.head? = some '.' → x = ['.', '.', '.'] := by
      decide +kernel
    have hhead : x.head? = some '.' := by
      obtain ⟨d, ds, rfl, -⟩ := htakes.head (t := .op .binaryOp) trivial
      rw [hx] at hy
      exact congrArg some (List.cons.inj hy).1
    obtain rfl := hrange x (htakes.mem_texts (by decide)) hhead
    rw [hx] at hy
    obtain ⟨pos, rest⟩ := after
    obtain rfl : '.' :: '.' :: stop.rest = rest := (List.cons.inj hy).2
    rw [Token.notAt_iff (t := .name) trivial, skip_point]
    exact Token.refuses_of_starts trivial (by decide)

/-! ## What does not start an expression -/

/-- No literal is read where the text of none stands. -/
theorem refused_literal (h : ∀ kind : LiteralKind, kind.token.NotAt sk c) :
    language.Refused sk (.rule .literal) c := by
  rw [Grammar.refused_rule_iff rfl (fun _ h => by cases h), Grammar.refused_any_iff]
  simp only [List.forall_mem_cons, List.not_mem_nil, false_implies, implies_true, and_true]
  exact ⟨(refused_leaf_iff rfl).2 (h .bool), (refused_leaf_iff rfl).2 (h .float),
    (refused_leaf_iff rfl).2 (h .int), (refused_leaf_iff rfl).2 (h .name)⟩

/-- No literal stands where a bracket or a prefix operator does. -/
theorem Token.At.refused_literal (h : t.At sk c span stop)
    (ht : t ∈ [mark ['('], mark [')'], op .prefixOp]) : language.Refused sk (.rule .literal) c := by
  refine Syntax.refused_literal fun kind => ?_
  have hall : ∀ t ∈ [mark ['('], mark [')'], op .prefixOp], t.Known ∧ t.texts ≠ [] ∧
      ∀ x ∈ t.texts, x.head?.any letters.contains = false ∧
        x.head?.any (fun d => isDigit d || d == '.') = false ∧ x.head?.any isDigit = false := by
    decide
  obtain ⟨hknown, htexts, hapart⟩ := hall t ht
  refine h.notAt hknown htexts kind.known fun x hx => ?_
  cases kind with
  | bool | name => exact (hapart x hx).1
  | float => exact (hapart x hx).2.1
  | int => exact (hapart x hx).2.2

/-- No expression stands where a closing bracket does. -/
theorem refused_expr (h : (Token.mark [')']).At sk c span stop) : language.Refused sk (.rule .expr) c := by
  have hopening : (Token.mark ['(']).NotAt sk c :=
    h.notAt (by decide) (by decide) (by decide) (by decide)
  have hprefix : (Token.op .prefixOp).NotAt sk c :=
    h.notAt (by decide) (by decide) trivial (by decide)
  have hatom : language.Refused sk (.rule .atom) c := by
    rw [Grammar.refused_rule_iff rfl (fun _ h => by cases h), Grammar.refused_any_iff]
    simp only [List.forall_mem_cons, List.not_mem_nil, false_implies, implies_true, and_true]
    exact ⟨h.refused_literal (by decide),
      Grammar.refused_ruleSeq rfl rfl ((refused_leaf_iff rfl).2 hprefix),
      Grammar.refused_ruleSeq rfl rfl (refused_mark_iff.2 hopening)⟩
  have hoperand : language.Refused sk (.rule .operand) c := Grammar.refused_ruleSeq rfl rfl hatom
  rw [Grammar.refused_rule_iff rfl fun _ h => by cases h]
  exact language.closed_referenceRel _ _ _ _ (.list (.ended (.absent (.inr rfl)) hoperand))

/-! ## Elements in front of a list -/

/-- An element goes in front of the elements that a list goes on with. -/
theorem elements_cons {element : Matcher Kind} {separator : Option (Matcher Kind)} {first : Bool}
    {here : Cursor} {before : Option (ParseTree Kind)} {t : ParseTree Kind} {r : ListOutcome Kind}
    (hsep : SeparatorRel (language.ReferenceRel sk) separator first c before here)
    (ht : language.Through sk element here t stop) (hlt : c.pos < stop.pos)
    (hr : ElementsRel (language.ReferenceRel sk) element separator false stop r) :
    ElementsRel (language.ReferenceRel sk) element separator first c
      (.separator before (.element t r)) :=
  .more hsep ht.1 (by rw [ht.2]; exact beq_eq_false_iff_ne.2 (Nat.ne_of_gt hlt)) hr

/-- An element without a separator before it. -/
theorem elements_first {element : Matcher Kind} {separator : Option (Matcher Kind)} {first : Bool}
    {t : ParseTree Kind} {r : ListOutcome Kind} (hfirst : separator = none ∨ first = true)
    (ht : language.Through sk element c t stop) (hlt : c.pos < stop.pos)
    (hr : ElementsRel (language.ReferenceRel sk) element separator false stop r) :
    ElementsRel (language.ReferenceRel sk) element separator first c (.element t r) :=
  have hsep : SeparatorRel (language.ReferenceRel sk) separator first c none c := .absent hfirst
  elements_cons hsep ht hlt hr

/-- Elements that were gone through make a list of the language. -/
theorem Series.through {s : Series} {element : Matcher Kind} {separator : Option (Matcher Kind)}
    {least : Nat} {r : ListOutcome Kind}
    (h : ElementsRel (language.ReferenceRel sk) element separator true c r) (hwhole : r.hole = none)
    (hseries : ({} : Series).append r = s) (hleast : least ≤ s.elements.length) :
    language.Through sk (.list element separator least) c (s.tree c.pos) r.stop := by
  subst hseries
  refine Grammar.through_list_iff.2 ⟨r, h, hwhole, ?_, rfl, ?_⟩
  · simpa [append] using hleast
  · simp [append, tree, ListOutcome.tree]

/-! ## Phrases in front of a list -/

/-- The form of a phrase is recognized between two cursors, with the elements behind it that a list goes
on with. -/
def Level.Recognized (sk : Skipper) : (l : Level) → l.Form → Cursor → Cursor → Prop
  | chain, form, c, stop => ∀ r : ListOutcome Kind, (∀ first, ElementsRel (language.ReferenceRel sk)
      (.rule .access) none first stop r) → ∃ mid, language.Through sk (.rule .atom) c form.1 mid ∧
        (∀ first, ElementsRel (language.ReferenceRel sk) (.rule .access) none first mid
          (form.2.foldr .element r)) ∧ (form.2 = [] → mid = stop)
  | operand, form, c, stop => language.Refused sk (.rule .access) stop →
      language.Through sk (.rule .operand) c form stop
  | expr, form, c, stop => ∀ r : ListOutcome Kind, ElementsRel (language.ReferenceRel sk)
      (.rule .operand) (some (.rule .binop)) false stop r → r.hole = none →
      language.Refused sk (.rule .access) stop → ∃ r', ElementsRel (language.ReferenceRel sk)
        (.rule .operand) (some (.rule .binop)) true c r' ∧ r'.hole = none ∧ r'.stop = r.stop ∧
          ({} : Series).append r' = form.append r
  | items, form, c, stop => ∀ r : ListOutcome Kind, ElementsRel (language.ReferenceRel sk)
      (.rule .expr) (some (.literal [','])) false stop r → r.hole = none → Ends sk stop →
      ∃ r', ElementsRel (language.ReferenceRel sk) (.rule .expr) (some (.literal [','])) true c r' ∧
        r'.hole = none ∧ r'.stop = r.stop ∧ ({} : Series).append r' = form.append r
  | args, form, c, stop => ∀ closing after, (Token.mark [')']).At sk stop closing after →
      language.Through sk (.list (.rule .expr) (some (.literal [','])) 0) c (form.tree c.pos) stop

/-- An expression has a first part that is there, and an operand. -/
theorem Phrase.exists_parts : (p : Phrase .expr) → ∃ t rest, p.form.parts = t :: rest ∧
    t.kind.isEmpty = false ∧ 1 ≤ p.form.elements.length
  | .single operand => ⟨operand.form, [], rfl, operand.isEmpty_operand, Nat.le_refl 1⟩
  | .more before op operand => by
    obtain ⟨t, rest, hparts, ht, -⟩ := before.exists_parts
    refine ⟨t, rest ++ [leafTree .binop op, operand.form], ?_, ht, ?_⟩
    · simp [form, Series.snoc, hparts]
    · simp [form, Series.snoc]

/-- An expression is recognized where it ends. -/
theorem Level.Recognized.through_expr {p : Phrase .expr}
    (h : Level.Recognized sk .expr p.form c stop) (hends : Ends sk stop) :
    language.Through sk (.rule .expr) c (exprTree p.form) stop := by
  obtain ⟨t, rest, hparts, ht, hleast⟩ := p.exists_parts
  have hend : ElementsRel (language.ReferenceRel sk) (.rule .operand) (some (.rule .binop)) false stop
      { stop := stop } := .unseparated rfl ((refused_leaf_iff rfl).2 hends.binop)
  obtain ⟨r, helements, hwhole, rfl, hseries⟩ := h _ hend rfl hends.access
  rw [Series.append_nil] at hseries
  have hlist := Series.through helements hwhole hseries hleast
  rw [Series.tree_pos hparts ht c.pos 0] at hlist
  exact through_expr_iff.2 ⟨_, hlist, rfl⟩

/-- Parts put in front of elements are parts and elements of the list. -/
theorem parts_foldr_element (accesses : List (ParseTree Kind)) (r : ListOutcome Kind) :
    accesses.foldr .element r = { r with
      parts := accesses ++ r.parts, elements := accesses ++ r.elements } := by
  induction accesses with
  | nil => rfl
  | cons t rest ih =>
    rw [List.foldr_cons, ih]
    rfl

/-- A chain is recognized as an operand where no access follows. -/
theorem Level.Recognized.through_operand {p : Phrase .chain}
    (h : Level.Recognized sk .chain p.form c stop) (hstop : stop.pos = p.stop)
    (hrefused : language.Refused sk (.rule .access) stop) :
    language.Through sk (.rule .operand) c (Phrase.plain p).form stop := by
  have hend (first : Bool) : ElementsRel (language.ReferenceRel sk) (.rule .access) none first stop
      { stop := stop } := .ended (.absent (.inl rfl)) hrefused
  obtain ⟨mid, hatom, haccesses, hnone⟩ := h _ hend
  have hseries : ({} : Series).append (p.form.2.foldr .element { stop := stop }) =
      .plain p.form.2 := by
    simp [parts_foldr_element, Series.append, Series.plain]
  have hlist := Series.through (haccesses true) (by rw [parts_foldr_element]) hseries (Nat.zero_le _)
  have hpos : (Series.plain p.form.2).tree mid.pos = (Series.plain p.form.2).tree p.stop := by
    cases hform : p.form.2 with
    | nil => rw [hnone hform, hstop]
    | cons t rest => exact Series.tree_pos rfl (p.isEmpty_access t (by rw [hform]; exact .head _)) _ _
  rw [hpos, parts_foldr_element] at hlist
  exact through_operand_iff.2 ⟨_, mid, _, hatom, hlist, rfl⟩

/-- An access makes a chain longer. -/
theorem Level.Recognized.access {form : Level.chain.Form} {t : ParseTree Kind}
    (h : Level.Recognized sk .chain form c mid) (ht : language.Through sk (.rule .access) mid t stop)
    (hlt : mid.pos < stop.pos) : Level.Recognized sk .chain (form.1, form.2 ++ [t]) c stop := by
  intro r hr
  obtain ⟨first, hatom, haccesses, -⟩ := h (.element t r) fun first =>
    elements_first (.inl rfl) ht hlt (hr false)
  refine ⟨first, hatom, fun b => ?_, fun hnil => absurd hnil (by simp)⟩
  rw [List.foldr_append]
  exact haccesses b

/-- A phrase is recognized where it is spelt. -/
theorem Phrase.Spelt.recognized {l : Level} {p : Phrase l} (h : p.Spelt sk c stop) :
    l.Recognized sk p.form c stop := by
  induction p generalizing c stop with
  | literal kind span =>
    intro r hr
    refine ⟨stop, through_atom_iff.2 ⟨_, .inl ?_, rfl, rfl⟩, hr, fun _ => rfl⟩
    exact through_literal_iff.2 ⟨kind, span, h.1, h.2, rfl⟩
  | paren opening inner closing ih =>
    obtain ⟨c₁, c₂, hopening, hinner, hclosing⟩ := h
    intro r hr
    have hprefix : (Token.op .prefixOp).NotAt sk c :=
      hopening.notAt (by decide) (by decide) trivial (by decide)
    refine ⟨stop, through_atom_iff.2 ⟨_, .inr ⟨.inl (hopening.refused_literal (by decide)),
      .inr ⟨.inl (Grammar.refused_ruleSeq rfl rfl ((refused_leaf_iff rfl).2 hprefix)), .inl ?_⟩⟩,
      rfl, rfl⟩, hr, fun _ => rfl⟩
    exact (through_bracket_iff rfl rfl rfl).2 ⟨opening, c₁, _, c₂, closing, hopening,
      (ih hinner).through_expr (hclosing.ends (by decide)), hclosing, rfl⟩
  | field target point name ih =>
    obtain ⟨c₁, c₂, htarget, hpoint, hname⟩ := h
    refine (ih htarget).access (through_access_iff.2 ⟨_, .inl ?_, rfl, rfl⟩)
      ((hpoint.moves (by decide)).trans (hname.moves trivial)).lt
    exact through_field_iff.2 ⟨point, c₂, name, hpoint, hname, rfl⟩
  | index target opening key closing ih ihkey =>
    obtain ⟨c₁, c₂, c₃, htarget, hopening, hkey, hclosing⟩ := h
    have hpoint : (Token.mark ['.']).NotAt sk c₁ :=
      hopening.notAt (by decide) (by decide) (by decide) (by decide)
    refine (ih htarget).access (through_access_iff.2 ⟨_, .inr
      ⟨.inl (Grammar.refused_ruleSeq rfl rfl (refused_mark_iff.2 hpoint)), .inl ?_⟩, rfl, rfl⟩)
      (((hopening.moves (by decide)).trans hkey.moves).trans (hclosing.moves (by decide))).lt
    exact (through_bracket_iff rfl rfl rfl).2 ⟨opening, c₂, _, c₃, closing, hopening,
      (ihkey hkey).through_expr (hclosing.ends (by decide)), hclosing, rfl⟩
  | call callee opening args closing ih ihargs =>
    obtain ⟨c₁, c₂, c₃, hcallee, hopening, hargs, hclosing⟩ := h
    have hpoint : (Token.mark ['.']).NotAt sk c₁ :=
      hopening.notAt (by decide) (by decide) (by decide) (by decide)
    have hindex : (Token.mark ['[']).NotAt sk c₁ :=
      hopening.notAt (by decide) (by decide) (by decide) (by decide)
    refine (ih hcallee).access (through_access_iff.2 ⟨_, .inr
      ⟨.inl (Grammar.refused_ruleSeq rfl rfl (refused_mark_iff.2 hpoint)), .inr
        ⟨.inl (Grammar.refused_ruleSeq rfl rfl (refused_mark_iff.2 hindex)), .inl ?_⟩⟩, rfl, rfl⟩)
      (((hopening.moves (by decide)).trans_advances hargs.moves).trans
        (hclosing.moves (by decide))).lt
    refine (through_bracket_iff rfl rfl rfl).2 ⟨opening, c₂, _, c₃, closing, hopening,
      ihargs hargs _ _ hclosing, hclosing, ?_⟩
    rw [hopening.2]
  | post target op ih =>
    obtain ⟨c₁, htarget, hop⟩ := h
    have hnot {u : Token} (hu : u ∈ [Token.mark ['.'], Token.mark ['['], Token.mark ['(']]) :
        u.NotAt sk c₁ := by
      have hall : ∀ u ∈ [Token.mark ['.'], Token.mark ['['], Token.mark ['(']],
          u.Known ∧ ∀ x ∈ (Token.op .postfixOp).texts, x.head?.any u.starts = false := by decide
      obtain ⟨hknown, hapart⟩ := hall u hu
      exact hop.notAt trivial (by decide) hknown hapart
    refine (ih htarget).access (through_access_iff.2 ⟨_, .inr
      ⟨.inl (Grammar.refused_ruleSeq rfl rfl (refused_mark_iff.2 (hnot (by decide)))), .inr
        ⟨.inl (Grammar.refused_ruleSeq rfl rfl (refused_mark_iff.2 (hnot (by decide)))), .inr
          ⟨.inl (Grammar.refused_ruleSeq rfl rfl (refused_mark_iff.2 (hnot (by decide)))), .inl ?_⟩⟩⟩,
      rfl, rfl⟩) (hop.moves trivial).lt
    exact (through_leaf_iff rfl).2 ⟨op, hop, rfl⟩
  | plain chain ih => exact fun hrefused => (ih h).through_operand (h.stop_pos (by decide)) hrefused
  | unary op operand ih =>
    obtain ⟨c₁, hop, hoperand⟩ := h
    intro hrefused
    have hatom : language.Through sk (.rule .atom) c (.ofBody .atom 1 (unaryTree op operand.form))
        stop :=
      through_atom_iff.2 ⟨_, .inr ⟨.inl (hop.refused_literal (by decide)),
        .inl (through_unary_iff.2 ⟨op, c₁, _, hop, ih hoperand hrefused, rfl⟩)⟩, rfl, rfl⟩
    have hend : ElementsRel (language.ReferenceRel sk) (.rule .access) none true stop
        { stop := stop } := .ended (.absent (.inl rfl)) hrefused
    have hlist := Series.through (s := .plain []) hend rfl rfl (Nat.zero_le _)
    rw [hoperand.stop_pos (by decide)] at hlist
    exact through_operand_iff.2 ⟨_, stop, _, hatom, hlist, rfl⟩
  | single operand ih =>
    intro r hr hwhole hrefused
    refine ⟨.element operand.form r, elements_first (.inr rfl)
      (ih h hrefused) h.moves.lt hr, hwhole, rfl, ?_⟩
    exact (Series.append_cons {} none _ r).trans rfl
  | more before op operand ih ihoperand =>
    obtain ⟨c₁, c₂, hbefore, hpost, hop, hoperand⟩ := h
    intro r hr hwhole hrefused
    have hsep : SeparatorRel (language.ReferenceRel sk) (some (.rule .binop)) false c₁
        (some (leafTree .binop op)) c₂ :=
      .present ((through_leaf_iff rfl).2 ⟨op, hop, rfl⟩).1 rfl
    obtain ⟨r', helements, hwhole', hstop, hseries⟩ := ih hbefore _
      (elements_cons hsep (ihoperand hoperand hrefused)
        ((hop.moves trivial).trans hoperand.moves).lt hr) hwhole (refused_access_of_binop hop hpost)
    exact ⟨r', helements, hwhole', hstop, hseries.trans (Series.append_cons _ _ _ r)⟩
  | one e ih =>
    intro r hr hwhole hends
    refine ⟨.element (exprTree e.form) r, elements_first (.inr rfl)
      ((ih h).through_expr hends) h.moves.lt hr, hwhole, rfl, ?_⟩
    exact (Series.append_cons {} none _ r).trans rfl
  | next before comma e ih ihe =>
    obtain ⟨c₁, c₂, hbefore, hcomma, he⟩ := h
    intro r hr hwhole hends
    have hsep : SeparatorRel (language.ReferenceRel sk) (some (.literal [','])) false c₁
        (some (.token comma)) c₂ :=
      .present (through_mark_iff.2 ⟨comma, hcomma, rfl⟩).1 rfl
    obtain ⟨r', helements, hwhole', hstop, hseries⟩ := ih hbefore _
      (elements_cons hsep ((ihe he).through_expr hends)
        ((hcomma.moves (by decide)).trans he.moves).lt hr) hwhole (hcomma.ends (by decide))
    exact ⟨r', helements, hwhole', hstop, hseries.trans (Series.append_cons _ _ _ r)⟩
  | noArgs =>
    intro closing after hclosing
    obtain rfl : stop = c := h
    exact Series.through (s := {}) (.ended (.absent (.inr rfl)) (refused_expr hclosing)) rfl rfl
      (Nat.zero_le _)
  | withArgs items ih =>
    intro closing after hclosing
    have hcomma : (Token.mark [',']).NotAt sk stop :=
      hclosing.notAt (by decide) (by decide) (by decide) (by decide)
    have hend : ElementsRel (language.ReferenceRel sk) (.rule .expr) (some (.literal [','])) false stop
        { stop := stop } := .unseparated rfl (refused_mark_iff.2 hcomma)
    obtain ⟨r, helements, hwhole, rfl, hseries⟩ := ih h _ hend rfl (hclosing.ends (by decide))
    rw [Series.append_nil] at hseries
    exact Series.through helements hwhole hseries (Nat.zero_le _)

/-- A phrase that nothing goes on with is what the rule of expressions makes of its text. -/
theorem Phrase.Spelt.through_expr {p : Phrase .expr} (h : p.Spelt sk c stop) (hends : Ends sk stop) :
    language.Through sk (.rule .expr) c (exprTree p.form) stop :=
  h.recognized.through_expr hends

end ExpLang.Syntax
