import ExpLang.Proofs.Lexing.Cuts
import ExpLang.Proofs.Syntax.Lexemes
import ExpLang.Proofs.Syntax.Spans

/-!
# Phrases in excerpts

A phrase that stands in a text also stands in the excerpt from its first token to its last one, with its
spans counted from the beginning of the excerpt (`Phrase.Spelt.cut`). Nothing that stood around it was
needed to read its tokens. Its value there is the same but for spans (`Phrase.value?_mapSpans`), and so
is how the value is written in fully parenthesized form.
-/

namespace ExpLang

open Text

/-- A span with its offsets counted from another offset. -/
def Span.back (base : Nat) (s : Span) : Span := ⟨s.start - base, s.stop - base⟩

namespace Cursor

/-- The cursor in the excerpt that begins at an offset and ends at the cursor `fin`. -/
def cut (c : Cursor) (base : Nat) (fin : Cursor) : Cursor :=
  ⟨c.pos - base, c.rest.take (c.rest.length - fin.rest.length)⟩

variable {c c' fin : Cursor}

/-- Cutting a cursor out of a source keeps the text up to the end of the excerpt. -/
theorem cut_eq {text : List Char} (h : c.rest = text ++ fin.rest) (base : Nat) :
    c.cut base fin = ⟨c.pos - base, text⟩ := by
  rw [cut, h, List.length_append, Nat.add_sub_cancel, List.take_left]

/-- The rest of a cursor that was cut out is the text up to the end of the excerpt. -/
theorem cut_rest {text : List Char} (h : c.rest = text ++ fin.rest) (base : Nat) :
    (c.cut base fin).rest = text := by
  rw [cut_eq h]

/-- Cursors of an excerpt advance as those of the source. -/
theorem Advances.cut (h : c.Advances c') (hfin : c'.Advances fin) {base : Nat} (hbase : base ≤ c.pos) :
    (c.cut base fin).Advances (c'.cut base fin) := by
  obtain ⟨text, hrest, hpos⟩ := h
  obtain ⟨text', hrest', -⟩ := hfin
  refine ⟨text, ?_, ?_⟩
  · have hall : c.rest = (text ++ text') ++ fin.rest := by rw [hrest, hrest', List.append_assoc]
    rw [cut_rest hrest', cut_rest hall]
  · change c'.pos - base = c.pos - base + byteLength text
    omega

end Cursor

open Cursor (Between)

namespace Syntax

variable {sk : Skipper} {c stop fin : Cursor} {base : Nat} {t : Token} {span : Span}

/-! ## Tokens -/

/-- A known token is not read exactly where the text after the gap is refused. -/
theorem Token.notAt_iff (ht : t.Known) : t.NotAt sk c ↔ t.Refuses (sk.skip c).rest :=
  (readsBy ht).eq_none_iff

/-- A token that is read after a gap, up to the end of an excerpt. -/
theorem Token.At.exists_texts (h : t.At sk c span stop) (ht : t.Known) (hfin : stop.Advances fin) :
    ∃ x r, t.Takes x (r ++ fin.rest) ∧ (sk.skip c).rest = x ++ (r ++ fin.rest) ∧
      stop.rest = r ++ fin.rest ∧ stop.pos = (sk.skip c).pos + byteLength x := by
  obtain ⟨r, hr, -⟩ := hfin
  obtain ⟨x, hx, hpos, htakes⟩ := (readsBy ht _ _).1 h.1
  rw [hr] at hx htakes
  exact ⟨x, r, htakes, hx, hr, hpos⟩

/-- The gap before a token is the same in an excerpt. -/
theorem Token.At.skip_cut (h : t.At sk c span stop) (ht : t.Known) (hfin : stop.Advances fin)
    (hbase : base ≤ c.pos) : sk.skip (c.cut base fin) = (sk.skip c).cut base fin := by
  obtain ⟨gap, hgap, hrest, hpos⟩ := sk.exists_gap_skip c
  obtain ⟨x, r, htakes, hskip, -, -⟩ := h.exists_texts ht hfin
  obtain ⟨d, ds, rfl, -⟩ := htakes.head ht
  have hwhole : c.rest = (gap ++ d :: (ds ++ r)) ++ fin.rest := by rw [hrest, hskip]; simp
  have hsolid : (sk.skip c).rest = (d :: (ds ++ r)) ++ fin.rest := by rw [hskip]; simp
  have hle : (sk.skip c).pos - base = c.pos - base + byteLength gap := by omega
  rw [Cursor.cut_eq hwhole, Cursor.cut_eq hsolid, hle]
  exact hgap.cut hsolid _

/-- A token is read in an excerpt. -/
theorem Token.At.cut (h : t.At sk c span stop) (ht : t.Known) (hfin : stop.Advances fin)
    (hbase : base ≤ c.pos) : t.At sk (c.cut base fin) (span.back base) (stop.cut base fin) := by
  have hskip := h.skip_cut ht hfin hbase
  obtain ⟨x, r, htakes, hrest, hstop, hpos⟩ := h.exists_texts ht hfin
  have hle : base ≤ (sk.skip c).pos := hbase.trans (sk.skip_advances c).le
  refine ⟨(readsBy ht _ _).2 ⟨x, ?_, ?_, ?_⟩, ?_⟩
  · rw [← List.append_assoc] at hrest
    rw [hskip, Cursor.cut_rest hstop, Cursor.cut_rest hrest]
  · rw [hskip]
    change stop.pos - base = (sk.skip c).pos - base + byteLength x
    omega
  · rw [Cursor.cut_rest hstop]
    exact htakes.cut
  · rw [hskip, h.2]
    rfl

/-- Numbers do not start with letters. -/
theorem bool_not_starts {d : Char} (h : Token.float.starts d = true) : Token.bool.starts d = false := by
  refine Bool.eq_false_iff.2 fun hletter => ?_
  change letters.contains d = true at hletter
  simp only [Token.starts, (of_letter hletter).2.2.1, Bool.false_or, beq_iff_eq] at h
  subst h
  revert hletter
  decide

/-- The kinds of literals that are tried before another one are refused in an excerpt. -/
theorem LiteralKind.notAt_cut {kind : LiteralKind} (h : kind.token.At sk c span stop)
    (hearlier : ∀ k ∈ kind.earlier, k.token.NotAt sk c) (hfin : stop.Advances fin)
    (hbase : base ≤ c.pos) : ∀ k ∈ kind.earlier, k.token.NotAt sk (c.cut base fin) := by
  intro k hk
  have hrefuses := (Token.notAt_iff k.known).1 (hearlier k hk)
  obtain ⟨x, r, htakes, hrest, -, -⟩ := h.exists_texts kind.known hfin
  rw [Token.notAt_iff k.known, h.skip_cut kind.known hfin hbase,
    Cursor.cut_rest (hrest.trans (List.append_assoc x r fin.rest).symm)]
  rw [hrest] at hrefuses
  cases kind with
  | bool => cases hk
  | float =>
    obtain rfl := List.mem_singleton.1 hk
    obtain ⟨d, ds, rfl, hd⟩ := htakes.head (t := .float) trivial
    exact Token.refuses_of_starts trivial (bool_not_starts hd)
  | int =>
    obtain ⟨d, ds, rfl, hd⟩ := htakes.head (t := .int) trivial
    have hfloat : Token.float.starts d = true := by
      change isDigit d = true at hd
      simp [Token.starts, hd]
    simp only [earlier, List.mem_cons, List.not_mem_nil, or_false] at hk
    rcases hk with rfl | rfl
    · exact Token.refuses_of_starts trivial (bool_not_starts hfloat)
    · rw [← List.append_assoc] at hrefuses
      exact float_refuses_cut hrefuses
  | name =>
    obtain ⟨d, ds, heq, hd⟩ := htakes.head (t := .name) trivial
    have hdigit : isDigit d = false := (of_letter hd).2.2.1
    simp only [earlier, List.mem_cons, List.not_mem_nil, or_false] at hk
    rcases hk with rfl | rfl | rfl
    · exact bool_refuses_cut htakes hrefuses
    · rw [heq]
      refine Token.refuses_of_starts trivial (Bool.eq_false_iff.2 fun hfloat => ?_)
      have hbool := bool_not_starts hfloat
      rw [show Token.bool.starts d = true from hd] at hbool
      cases hbool
    · rw [heq]
      exact Token.refuses_of_starts trivial hdigit

/-! ## Phrases -/

namespace Phrase

/-- A phrase with other spans. -/
def mapSpans (f : Span → Span) : {l : Level} → Phrase l → Phrase l
  | _, literal kind span => literal kind (f span)
  | _, paren opening inner closing => paren (f opening) (inner.mapSpans f) (f closing)
  | _, field target point name => field (target.mapSpans f) (f point) (f name)
  | _, index target opening key closing =>
    index (target.mapSpans f) (f opening) (key.mapSpans f) (f closing)
  | _, call callee opening args closing =>
    call (callee.mapSpans f) (f opening) (args.mapSpans f) (f closing)
  | _, post target op => post (target.mapSpans f) (f op)
  | _, plain chain => plain (chain.mapSpans f)
  | _, unary op operand => unary (f op) (operand.mapSpans f)
  | _, single operand => single (operand.mapSpans f)
  | _, more before op operand => more (before.mapSpans f) (f op) (operand.mapSpans f)
  | _, one e => one (e.mapSpans f)
  | _, next before comma e => next (before.mapSpans f) (f comma) (e.mapSpans f)
  | _, noArgs => noArgs
  | _, withArgs items => withArgs (items.mapSpans f)

end Phrase

/-- A level that moves over text advances. -/
theorem Level.Moves.advances {l : Level} (h : l.Moves c stop) : c.Advances stop := by
  cases l with
  | args => exact h
  | chain | operand | expr | items => exact Cursor.Moves.advances h

/-- No postfix operator is read in an excerpt where an operator between operands is. -/
theorem Token.NotAt.cut_post (h : (Token.op .postfixOp).NotAt sk c)
    (hop : (Token.op .binaryOp).At sk c span stop) (hfin : stop.Advances fin) (hbase : base ≤ c.pos) :
    (Token.op .postfixOp).NotAt sk (c.cut base fin) := by
  obtain ⟨x, r, -, hrest, -, -⟩ := hop.exists_texts trivial hfin
  rw [← List.append_assoc] at hrest
  have hrefuses := (notAt_iff (t := .op .postfixOp) trivial).1 h
  rw [hrest] at hrefuses
  rw [notAt_iff (t := .op .postfixOp) trivial, hop.skip_cut trivial hfin hbase, Cursor.cut_rest hrest]
  exact post_refuses_cut hrefuses

/-- A phrase is spelt in an excerpt. -/
theorem Phrase.Spelt.cut {l : Level} {p : Phrase l} (h : p.Spelt sk c stop)
    (hfin : stop.Advances fin) (hbase : base ≤ c.pos) :
    (p.mapSpans (.back base)).Spelt sk (c.cut base fin) (stop.cut base fin) := by
  induction p generalizing c stop with
  | literal kind span => exact ⟨h.1.cut kind.known hfin hbase, kind.notAt_cut h.1 h.2 hfin hbase⟩
  | paren opening inner closing ih =>
    obtain ⟨c₁, c₂, hopening, hinner, hclosing⟩ := h
    have h₁ := (hopening.moves (by decide)).advances
    have h₂ := hinner.moves.advances
    have h₃ := (hclosing.moves (by decide)).advances.trans hfin
    exact ⟨_, _, hopening.cut (by decide) (h₂.trans h₃) hbase, ih hinner h₃ (hbase.trans h₁.le),
      hclosing.cut (by decide) hfin (hbase.trans (h₁.trans h₂).le)⟩
  | field target point name ih =>
    obtain ⟨c₁, c₂, htarget, hpoint, hname⟩ := h
    have h₁ := htarget.moves.advances
    have h₂ := (hpoint.moves (by decide)).advances
    have h₃ := (hname.moves trivial).advances.trans hfin
    exact ⟨_, _, ih htarget (h₂.trans h₃) hbase, hpoint.cut (by decide) h₃ (hbase.trans h₁.le),
      hname.cut trivial hfin (hbase.trans (h₁.trans h₂).le)⟩
  | index target opening key closing ih ihkey =>
    obtain ⟨c₁, c₂, c₃, htarget, hopening, hkey, hclosing⟩ := h
    have h₁ := htarget.moves.advances
    have h₂ := (hopening.moves (by decide)).advances
    have h₃ := hkey.moves.advances
    have h₄ := (hclosing.moves (by decide)).advances.trans hfin
    exact ⟨_, _, _, ih htarget (h₂.trans (h₃.trans h₄)) hbase,
      hopening.cut (by decide) (h₃.trans h₄) (hbase.trans h₁.le),
      ihkey hkey h₄ (hbase.trans (h₁.trans h₂).le),
      hclosing.cut (by decide) hfin (hbase.trans ((h₁.trans h₂).trans h₃).le)⟩
  | call callee opening args closing ih ihargs =>
    obtain ⟨c₁, c₂, c₃, hcallee, hopening, hargs, hclosing⟩ := h
    have h₁ := hcallee.moves.advances
    have h₂ := (hopening.moves (by decide)).advances
    have h₃ := hargs.moves.advances
    have h₄ := (hclosing.moves (by decide)).advances.trans hfin
    exact ⟨_, _, _, ih hcallee (h₂.trans (h₃.trans h₄)) hbase,
      hopening.cut (by decide) (h₃.trans h₄) (hbase.trans h₁.le),
      ihargs hargs h₄ (hbase.trans (h₁.trans h₂).le),
      hclosing.cut (by decide) hfin (hbase.trans ((h₁.trans h₂).trans h₃).le)⟩
  | post target op ih =>
    obtain ⟨c₁, htarget, hop⟩ := h
    have h₁ := htarget.moves.advances
    exact ⟨_, ih htarget ((hop.moves trivial).advances.trans hfin) hbase,
      hop.cut trivial hfin (hbase.trans h₁.le)⟩
  | unary op operand ih =>
    obtain ⟨c₁, hop, hoperand⟩ := h
    have h₁ := (hop.moves trivial).advances
    exact ⟨_, hop.cut trivial (hoperand.moves.advances.trans hfin) hbase,
      ih hoperand hfin (hbase.trans h₁.le)⟩
  | more before op operand ih ihoperand =>
    obtain ⟨c₁, c₂, hbefore, hpost, hop, hoperand⟩ := h
    have h₁ := hbefore.moves.advances
    have h₂ := (hop.moves trivial).advances
    have h₃ := hoperand.moves.advances.trans hfin
    have hle := hbase.trans h₁.le
    exact ⟨_, _, ih hbefore (h₂.trans h₃) hbase, hpost.cut_post hop h₃ hle,
      hop.cut trivial h₃ hle, ihoperand hoperand hfin (hle.trans h₂.le)⟩
  | next before comma e ih ihe =>
    obtain ⟨c₁, c₂, hbefore, hcomma, he⟩ := h
    have h₁ := hbefore.moves.advances
    have h₂ := (hcomma.moves (by decide)).advances
    have h₃ := he.moves.advances.trans hfin
    exact ⟨_, _, ih hbefore (h₂.trans h₃) hbase, hcomma.cut (by decide) h₃ (hbase.trans h₁.le),
      ihe he hfin (hbase.trans (h₁.trans h₂).le)⟩
  | plain chain ih | single operand ih | one e ih | withArgs items ih => exact ih h hfin hbase
  | noArgs =>
    obtain rfl : stop = c := h
    rfl

/-! ### The gap before a phrase -/

/-- Nothing is left to skip after skipping. -/
theorem skip_skip (sk : Skipper) (c : Cursor) : sk.skip (sk.skip c) = sk.skip c := by
  obtain ⟨gap, hgap, -, -⟩ := sk.exists_gap_skip c
  exact hgap.solid _

/-- A phrase is spelt from its first token on. -/
theorem Phrase.Spelt.skip {l : Level} {p : Phrase l} (hl : l ≠ .args) (h : p.Spelt sk c stop) :
    p.Spelt sk (sk.skip c) stop := by
  have hat {t : Token} {span : Span} {stop : Cursor} (h : t.At sk c span stop) :
      t.At sk (sk.skip c) span stop := by
    rwa [Token.At, skip_skip]
  induction p generalizing stop with
  | literal kind span =>
    refine ⟨hat h.1, fun k hk => ?_⟩
    rw [Token.NotAt, skip_skip]
    exact h.2 k hk
  | paren opening inner closing =>
    obtain ⟨c₁, c₂, hopening, hrest⟩ := h
    exact ⟨c₁, c₂, hat hopening, hrest⟩
  | field target point name ih =>
    obtain ⟨c₁, c₂, htarget, hrest⟩ := h
    exact ⟨c₁, c₂, ih (by decide) htarget, hrest⟩
  | index target opening key closing ih | call target opening args closing ih =>
    obtain ⟨c₁, c₂, c₃, htarget, hrest⟩ := h
    exact ⟨c₁, c₂, c₃, ih (by decide) htarget, hrest⟩
  | post target op ih =>
    obtain ⟨c₁, htarget, hrest⟩ := h
    exact ⟨c₁, ih (by decide) htarget, hrest⟩
  | unary op operand =>
    obtain ⟨c₁, hop, hrest⟩ := h
    exact ⟨c₁, hat hop, hrest⟩
  | more before op operand ih | next before comma e ih =>
    obtain ⟨c₁, c₂, hbefore, hrest⟩ := h
    exact ⟨c₁, c₂, ih (by decide) hbefore, hrest⟩
  | plain chain ih | single operand ih | one e ih => exact ih (by decide) h
  | noArgs | withArgs => exact absurd rfl hl

/-! ## Values in excerpts -/

/-- A value without its spans. -/
def Level.erase : (l : Level) → l.Value → l.Value
  | chain, e | operand, e => e.mapSpans fun _ => .synthetic
  | expr, tree => tree.mapSpans fun _ => .synthetic
  | items, es | args, es => es.map (·.mapSpans fun _ => .synthetic)

/-- Erasing the spans of a tree erases those of its expression. -/
theorem erase_toExpr (tree : OperatorTree) :
    (Level.erase .expr tree).toExpr = Level.erase .chain tree.toExpr :=
  tree.mapSpans_toExpr fun _ _ => rfl

/-- Trees that differ in spans stay so when operands that differ in spans are put in. -/
theorem erase_insert {tree tree' : OperatorTree} {e e' : Expr} (op : BinaryOp)
    (htree : Level.erase .expr tree' = Level.erase .expr tree)
    (he : Level.erase .operand e' = Level.erase .operand e) :
    Level.erase .expr (tree'.insert op e') = Level.erase .expr (tree.insert op e) := by
  simp only [Level.erase, OperatorTree.mapSpans_insert] at htree he ⊢
  rw [htree, he]

/-- Tokens with the same texts at other places give the same value but for spans. -/
theorem Phrase.value?_mapSpans {f : Span → Span} {text text' : Span → String} {l : Level}
    (p : Phrase l) {v : l.Value} (h : p.value? text = some v)
    (htext : ∀ t ∈ p.lexemes, text' (f t.2) = text t.2) :
    ∃ v', (p.mapSpans f).value? text' = some v' ∧ l.erase v' = l.erase v := by
  induction p with
  | literal kind span =>
    have hspan : text' (f span) = text span := htext _ List.mem_cons_self
    cases kind with
    | bool | name =>
      cases h
      exact ⟨_, rfl, by simp [Level.erase, Expr.mapSpans, Ident.mapSpans, hspan]⟩
    | float =>
      obtain ⟨value, hvalue, rfl⟩ := Option.map_eq_some_iff.1 h
      refine ⟨.float value (f span), ?_, rfl⟩
      rw [mapSpans, value?, LiteralKind.value?, hspan, hvalue, Option.map_some]
    | int =>
      obtain ⟨value, hvalue, rfl⟩ := Option.map_eq_some_iff.1 h
      refine ⟨.int value (f span), ?_, rfl⟩
      rw [mapSpans, value?, LiteralKind.value?, hspan, hvalue, Option.map_some]
  | paren opening inner closing ih =>
    obtain ⟨tree, htree, rfl⟩ := Option.map_eq_some_iff.1 h
    obtain ⟨tree', htree', heq⟩ := ih htree htext
    refine ⟨tree'.toExpr, by rw [mapSpans, value?, htree', Option.map_some], ?_⟩
    rw [← erase_toExpr, ← erase_toExpr, heq]
  | field target point name ih =>
    obtain ⟨e, he, rfl⟩ := Option.map_eq_some_iff.1 h
    rw [lexemes, List.forall_mem_append, List.forall_mem_singleton] at htext
    obtain ⟨e', he', heq⟩ := ih he htext.1
    refine ⟨_, by rw [mapSpans, value?, he', Option.map_some], ?_⟩
    simp only [Level.erase, Expr.mapSpans, Ident.mapSpans] at heq ⊢
    rw [heq, htext.2]
  | index target opening key closing ih ihkey =>
    obtain ⟨e, i, he, hi, rfl⟩ := value?_index_iff.1 h
    rw [lexemes, List.forall_mem_append] at htext
    obtain ⟨e', he', heq⟩ := ih he htext.1
    obtain ⟨i', hi', hieq⟩ := ihkey hi htext.2
    refine ⟨_, value?_index_iff.2 ⟨e', i', he', hi', rfl⟩, ?_⟩
    have hi := congrArg OperatorTree.toExpr hieq
    rw [erase_toExpr, erase_toExpr] at hi
    simp only [Level.erase, Expr.mapSpans] at heq hi ⊢
    rw [heq, hi]
  | call callee opening args closing ih ihargs =>
    obtain ⟨e, es, he, hes, rfl⟩ := value?_call_iff.1 h
    rw [lexemes, List.forall_mem_append] at htext
    obtain ⟨e', he', heq⟩ := ih he htext.1
    obtain ⟨es', hes', heqs⟩ := ihargs hes htext.2
    refine ⟨_, value?_call_iff.2 ⟨e', es', he', hes', rfl⟩, ?_⟩
    simp only [Level.erase, Expr.mapSpans, mapSpansArgs_eq] at heq heqs ⊢
    rw [heq, heqs]
  | post target op ih =>
    obtain ⟨e, o, he, ho, rfl⟩ := value?_post_iff.1 h
    rw [lexemes, List.forall_mem_append, List.forall_mem_singleton] at htext
    obtain ⟨e', he', heq⟩ := ih he htext.1
    refine ⟨_, value?_post_iff.2 ⟨e', o, he', by rw [htext.2, ho], rfl⟩, ?_⟩
    simp only [Level.erase, Expr.mapSpans] at heq ⊢
    rw [heq]
  | plain chain ih => exact ih h htext
  | unary op operand ih =>
    obtain ⟨o, e, ho, he, rfl⟩ := value?_unary_iff.1 h
    rw [lexemes, List.forall_mem_cons] at htext
    obtain ⟨e', he', heq⟩ := ih he htext.2
    refine ⟨_, value?_unary_iff.2 ⟨o, e', by rw [htext.1, ho], he', rfl⟩, ?_⟩
    simp only [Level.erase, Expr.mapSpans] at heq ⊢
    rw [heq]
  | single operand ih =>
    obtain ⟨e, he, rfl⟩ := Option.map_eq_some_iff.1 h
    obtain ⟨e', he', heq⟩ := ih he htext
    refine ⟨.leaf e', by rw [mapSpans, value?, he', Option.map_some], ?_⟩
    simp only [Level.erase, OperatorTree.mapSpans] at heq ⊢
    rw [heq]
  | more before op operand ih ihoperand =>
    obtain ⟨tree, o, e, htree, ho, he, rfl⟩ := value?_more_iff.1 h
    rw [lexemes, List.forall_mem_append, List.forall_mem_cons] at htext
    obtain ⟨tree', htree', heq⟩ := ih htree htext.1
    obtain ⟨e', he', heqe⟩ := ihoperand he htext.2.2
    exact ⟨_, value?_more_iff.2 ⟨tree', o, e', htree', by rw [htext.2.1, ho], he', rfl⟩,
      erase_insert o heq heqe⟩
  | one e ih =>
    obtain ⟨tree, htree, rfl⟩ := Option.map_eq_some_iff.1 h
    obtain ⟨tree', htree', heq⟩ := ih htree htext
    refine ⟨[tree'.toExpr], by rw [mapSpans, value?, htree', Option.map_some], ?_⟩
    have hexpr := congrArg OperatorTree.toExpr heq
    rw [erase_toExpr, erase_toExpr] at hexpr
    simp only [Level.erase, List.map_cons, List.map_nil] at hexpr ⊢
    rw [hexpr]
  | next before comma e ih ihe =>
    obtain ⟨es, tree, hes, htree, rfl⟩ := value?_next_iff.1 h
    rw [lexemes, List.forall_mem_append] at htext
    obtain ⟨es', hes', heqs⟩ := ih hes htext.1
    obtain ⟨tree', htree', heq⟩ := ihe htree htext.2
    refine ⟨_, value?_next_iff.2 ⟨es', tree', hes', htree', rfl⟩, ?_⟩
    have hexpr := congrArg OperatorTree.toExpr heq
    rw [erase_toExpr, erase_toExpr] at hexpr
    simp only [Level.erase, List.map_append, List.map_cons, List.map_nil] at heqs hexpr ⊢
    rw [heqs, hexpr]
  | noArgs => exact ⟨v, h, rfl⟩
  | withArgs items ih => exact ih h htext

/-- A known token stands between its two cursors. -/
theorem Token.At.between (h : t.At sk c span stop) (ht : t.Known) : Between c stop span :=
  ⟨_, _, sk.skip_advances c, (h.reads ht).advances, .refl stop, h.2⟩

/-- The tokens of a phrase stand where the phrase stands. -/
theorem Phrase.Spelt.between {l : Level} {p : Phrase l} (h : p.Spelt sk c stop) :
    ∀ t ∈ p.lexemes, Between c stop t.2 := by
  induction p generalizing c stop with
  | literal kind span => exact List.forall_mem_singleton.2 (h.1.between kind.known)
  | paren opening inner closing ih =>
    obtain ⟨c₁, c₂, hopening, hinner, hclosing⟩ := h
    exact fun t ht => (ih hinner t ht).mono (hopening.moves (by decide)).advances
      (hclosing.moves (by decide)).advances
  | field target point name ih =>
    obtain ⟨c₁, c₂, htarget, hpoint, hname⟩ := h
    have hmid := (hpoint.moves (by decide)).advances
    rw [lexemes, List.forall_mem_append, List.forall_mem_singleton]
    exact ⟨fun t ht => (ih htarget t ht).mono (.refl c) (hmid.trans (hname.moves trivial).advances),
      (hname.between trivial).mono (htarget.moves.advances.trans hmid) (.refl stop)⟩
  | index target opening key closing ih ihkey =>
    obtain ⟨c₁, c₂, c₃, htarget, hopening, hkey, hclosing⟩ := h
    have h₂ := (hopening.moves (by decide)).advances
    have h₄ := (hclosing.moves (by decide)).advances
    rw [lexemes, List.forall_mem_append]
    exact ⟨fun t ht => (ih htarget t ht).mono (.refl c) (h₂.trans (hkey.moves.advances.trans h₄)),
      fun t ht => (ihkey hkey t ht).mono (htarget.moves.advances.trans h₂) h₄⟩
  | call callee opening args closing ih ihargs =>
    obtain ⟨c₁, c₂, c₃, hcallee, hopening, hargs, hclosing⟩ := h
    have h₂ := (hopening.moves (by decide)).advances
    have h₄ := (hclosing.moves (by decide)).advances
    rw [lexemes, List.forall_mem_append]
    exact ⟨fun t ht => (ih hcallee t ht).mono (.refl c) (h₂.trans (hargs.moves.advances.trans h₄)),
      fun t ht => (ihargs hargs t ht).mono (hcallee.moves.advances.trans h₂) h₄⟩
  | post target op ih =>
    obtain ⟨c₁, htarget, hop⟩ := h
    rw [lexemes, List.forall_mem_append, List.forall_mem_singleton]
    exact ⟨fun t ht => (ih htarget t ht).mono (.refl c) (hop.moves trivial).advances,
      (hop.between trivial).mono htarget.moves.advances (.refl stop)⟩
  | unary op operand ih =>
    obtain ⟨c₁, hop, hoperand⟩ := h
    rw [lexemes, List.forall_mem_cons]
    exact ⟨(hop.between trivial).mono (.refl c) hoperand.moves.advances,
      fun t ht => (ih hoperand t ht).mono (hop.moves trivial).advances (.refl stop)⟩
  | more before op operand ih ihoperand =>
    obtain ⟨c₁, c₂, hbefore, -, hop, hoperand⟩ := h
    have h₁ := hbefore.moves.advances
    have h₂ := (hop.moves trivial).advances
    have h₃ := hoperand.moves.advances
    rw [lexemes, List.forall_mem_append, List.forall_mem_cons]
    exact ⟨fun t ht => (ih hbefore t ht).mono (.refl c) (h₂.trans h₃),
      (hop.between trivial).mono h₁ h₃,
      fun t ht => (ihoperand hoperand t ht).mono (h₁.trans h₂) (.refl stop)⟩
  | next before comma e ih ihe =>
    obtain ⟨c₁, c₂, hbefore, hcomma, he⟩ := h
    have h₂ := (hcomma.moves (by decide)).advances
    rw [lexemes, List.forall_mem_append]
    exact ⟨fun t ht => (ih hbefore t ht).mono (.refl c) (h₂.trans he.moves.advances),
      fun t ht => (ihe he t ht).mono (hbefore.moves.advances.trans h₂) (.refl stop)⟩
  | plain chain ih | single operand ih | one e ih | withArgs items ih => exact ih h
  | noArgs => exact fun _ ht => absurd ht List.not_mem_nil

mutual

/-- Spans do not show in fully parenthesized form. -/
theorem sexpr_mapSpans (f : Span → Span) : ∀ e : Expr, (e.mapSpans f).sexpr = e.sexpr
  | .int _ _ | .float _ _ | .bool _ _ | .ident _ => rfl
  | .unary op operand _ => by
    rw [Expr.mapSpans, Expr.sexpr, Expr.sexpr, sexpr_mapSpans f operand]
  | .post op operand _ => by
    rw [Expr.mapSpans, Expr.sexpr, Expr.sexpr, sexpr_mapSpans f operand]
  | .binary op left right _ => by
    rw [Expr.mapSpans, Expr.sexpr, Expr.sexpr, sexpr_mapSpans f left, sexpr_mapSpans f right]
  | .field target name _ => by
    rw [Expr.mapSpans, Expr.sexpr, Expr.sexpr, sexpr_mapSpans f target]
    rfl
  | .index target index _ => by
    rw [Expr.mapSpans, Expr.sexpr, Expr.sexpr, sexpr_mapSpans f target, sexpr_mapSpans f index]
  | .call callee args _ => by
    rw [Expr.mapSpans, Expr.sexpr, Expr.sexpr, sexpr_mapSpans f callee, sexprs_mapSpans f args]

/-- Mapping spans leaves how arguments are written out. -/
theorem sexprs_mapSpans (f : Span → Span) : ∀ args : List Expr,
    Expr.sexprs (mapSpansArgs f args) = Expr.sexprs args
  | [] => rfl
  | arg :: args => by
    rw [mapSpansArgs, Expr.sexprs, Expr.sexprs, sexpr_mapSpans f arg, sexprs_mapSpans f args]

end

end Syntax

end ExpLang
