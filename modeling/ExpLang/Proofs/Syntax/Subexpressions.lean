import ExpLang.Proofs.Syntax.Extents
import ExpLang.Proofs.Syntax.Grouping
import ExpLang.Proofs.Syntax.Ranks

/-!
# The spans of sub-expressions

The text where a sub-expression stands is read as the sub-expression, unless parentheses get in the way.
They leave no trace in an expression, so a span that is merged from those of operands can begin or end
within parentheses: the span of `(a + b) * c` does not hold the first parenthesis. Of such a span it can be
said that it cuts the expression in parentheses in two.

The span of a value hugs the text of its phrase (`Page.Hugs`): it begins with the first token or within
parentheses, and it ends with the last token or within parentheses. So a merged span that cuts nothing is
all of the text, and the phrase shows the sub-expression (`Page.Shows`). Operators between operands are
grouped by priorities, and there it is a part of the phrase that does (`Page.shows_tree`).
-/

namespace ExpLang

open Cursor (Between)

/-- Two spans overlap and none of them lies within the other one. -/
def Span.Cuts (s t : Span) : Prop :=
  s.start < t.start ∧ t.start < s.stop ∧ s.stop < t.stop ∨
    t.start < s.start ∧ s.start < t.stop ∧ t.stop < s.stop

namespace Syntax

mutual

/-- The sub-expressions of an expression, and the expression itself. -/
def Expr.subexprs : Expr → List Expr
  | .int value span => [.int value span]
  | .float value span => [.float value span]
  | .bool value span => [.bool value span]
  | .ident name => [.ident name]
  | .unary op operand span => .unary op operand span :: operand.subexprs
  | .post op operand span => .post op operand span :: operand.subexprs
  | .binary op left right span => .binary op left right span :: (left.subexprs ++ right.subexprs)
  | .field target name span => .field target name span :: target.subexprs
  | .index target key span => .index target key span :: (target.subexprs ++ key.subexprs)
  | .call callee args span => .call callee args span :: (callee.subexprs ++ subexprsAll args)

/-- The sub-expressions of the expressions of a list. -/
def subexprsAll : List Expr → List Expr
  | [] => []
  | e :: rest => e.subexprs ++ subexprsAll rest

end

/-- The expressions in several ones are those in each. -/
theorem mem_subexprsAll {e : Expr} {es : List Expr} :
    e ∈ subexprsAll es ↔ ∃ arg ∈ es, e ∈ arg.subexprs := by
  induction es with
  | nil => simp [subexprsAll]
  | cons first rest ih => simp [subexprsAll, ih]

/-! ## Parentheses in the tree of a phrase -/

/-- Where the expressions in parentheses stand in the form of a phrase. -/
def Level.parens : (l : Level) → l.Form → List Span
  | chain, form => form.1.spansOf .parenExpr ++ ParseTree.spansOfAll .parenExpr form.2
  | operand, form => form.spansOf .parenExpr
  | expr, form | items, form | args, form => ParseTree.spansOfAll .parenExpr form.parts

section Parens

variable {s opening closing : Span} {k : Kind} {inner separator element : ParseTree Kind}

/-- A tree of a body has the parentheses of the body, and one pair more if it is one. -/
theorem spansOf_ofBody (k : Kind) (arity : Nat) (t : ParseTree Kind) :
    (ParseTree.ofBody k arity t).spansOf .parenExpr =
      (if k = .parenExpr then [t.span] else []) ++ t.spansOf .parenExpr := by
  simp [ParseTree.ofBody, ParseTree.spansOf, ParseTree.spansOfAll]

/-- A bracketed tree has the parentheses inside, and one pair more if it is one. -/
theorem spansOf_bracketTree : (bracketTree k opening inner closing).spansOf .parenExpr =
    (if k = .parenExpr then [(bracketTree k opening inner closing).span] else []) ++
      inner.spansOf .parenExpr := by
  simp [bracketTree, ParseTree.ofParts, ParseTree.spansOf, ParseTree.spansOfAll, ParseTree.token]

/-- The tree of a series has the parentheses of the series. -/
theorem spansOf_tree (series : Series) (pos : Nat) :
    (series.tree pos).spansOf .parenExpr = Level.parens .expr series := by
  simp [Series.tree, ParseTree.spansOf, Level.parens]

/-- The tree of an expression has the parentheses of its series. -/
theorem spansOf_exprTree (series : Series) :
    (exprTree series).spansOf .parenExpr = Level.parens .expr series := by
  simp [exprTree, spansOf_ofBody, spansOf_tree]

/-- A chain with one access more has the parentheses of the chain and then those of the access. -/
theorem parens_access (form : Level.chain.Form) (access : ParseTree Kind) :
    Level.parens .chain (form.1, form.2 ++ [.ofBody .access 1 access]) =
      Level.parens .chain form ++ access.spansOf .parenExpr := by
  simp [Level.parens, ParseTree.spansOfAll_append, ParseTree.spansOfAll, spansOf_ofBody]

/-- The tree of an operand has the parentheses of its chain. -/
theorem spansOf_operandTree (atom : ParseTree Kind) (accesses : List (ParseTree Kind)) (pos : Nat) :
    (operandTree atom accesses pos).spansOf .parenExpr = Level.parens .chain (atom, accesses) := by
  simp [operandTree, ParseTree.ofParts, ParseTree.spansOf, ParseTree.spansOfAll, Level.parens,
    Series.tree, Series.plain]

/-- A phrase in parentheses has these and then those inside. -/
theorem parens_paren (inner : Phrase .expr) :
    Level.parens .chain (Phrase.paren opening inner closing).form =
      (bracketTree .parenExpr opening (exprTree inner.form) closing).span ::
        Level.parens .expr inner.form := by
  simp [Phrase.form, Level.parens, spansOf_ofBody, spansOf_bracketTree, spansOf_exprTree,
    ParseTree.spansOfAll]

/-- The tree of a prefixed operand has the parentheses of the operand. -/
theorem spansOf_unaryTree (op : Span) (operand : ParseTree Kind) :
    (unaryTree op operand).spansOf .parenExpr = operand.spansOf .parenExpr := by
  simp [unaryTree, leafTree, ParseTree.ofParts, ParseTree.spansOf, ParseTree.spansOfAll,
    spansOf_ofBody, ParseTree.token]

/-- A series of one operand has the parentheses of the operand. -/
theorem parens_single (element : ParseTree Kind) :
    Level.parens .expr (.single element) = element.spansOf .parenExpr := by
  simp [Level.parens, Series.single, ParseTree.spansOfAll]

/-- A longer series has the parentheses of the shorter one and then those added. -/
theorem parens_snoc (series : Series) :
    Level.parens .expr (series.snoc (some separator) element) =
      Level.parens .expr series ++ (separator.spansOf .parenExpr ++ element.spansOf .parenExpr) := by
  simp [Level.parens, Series.snoc, ParseTree.spansOfAll_append, ParseTree.spansOfAll]

end Parens

/-! ## Spans of values -/

/-- A source that is read as an expression, and where expressions in parentheses stand in it. -/
structure Page where
  source : Source
  skipper : Skipper
  parens : List Span

namespace Page

variable {g : Page} {c mid here stop : Cursor} {s t : Span} {e v : Expr}

/-- A span cuts no expression in parentheses. -/
def Spares (g : Page) (s : Span) : Prop := ∀ paren ∈ g.parens, ¬ paren.Cuts s

/-- An offset lies within parentheses that stand between two cursors. -/
def Within (g : Page) (c stop : Cursor) (pos : Nat) : Prop :=
  ∃ paren ∈ g.parens, Between c stop paren ∧ paren.start < pos ∧ pos < paren.stop

/-- An offset within parentheses between two cursors is so between cursors further apart. -/
theorem Within.mono {first last : Cursor} {pos : Nat} (h : g.Within c stop pos)
    (hc : first.Advances c) (hstop : stop.Advances last) : g.Within first last pos := by
  obtain ⟨paren, hmem, hbetween, hpos⟩ := h
  exact ⟨paren, hmem, hbetween.mono hc hstop, hpos⟩

/-- A span begins with the first token between two cursors and ends with the last one, or it begins or
ends within parentheses. -/
structure Hugs (g : Page) (c stop : Cursor) (s : Span) : Prop where
  between : Between c stop s
  lt : s.start < s.stop
  start : s.start = (g.skipper.skip c).pos ∨ g.Within c stop s.start
  stop : s.stop = stop.pos ∨ g.Within c stop s.stop

/-- The extent of what was read hugs the text between the two cursors. -/
theorem hugs_extent (h : (g.skipper.skip c).Moves stop) : g.Hugs c stop (extent g.skipper c stop) :=
  ⟨between_extent h.advances, h.lt, .inl rfl, .inl rfl⟩

/-- What stands in parentheses begins and ends within them. -/
theorem Hugs.paren {c₁ c₂ : Cursor} (hs : g.Hugs c₁ c₂ s) (hopening : (g.skipper.skip c).Moves c₁)
    (hclosing : c₂.Moves stop) (hparen : extent g.skipper c stop ∈ g.parens) : g.Hugs c stop s := by
  have hbounds := hs.between.bounds
  have hinner : c₁.Advances c₂ := hs.between.advances
  have hparen' : Between c stop (extent g.skipper c stop) :=
    between_extent ((hopening.advances.trans hinner).trans hclosing.advances)
  have hwithin {pos : Nat} (hfirst : c₁.pos ≤ pos) (hlast : pos ≤ c₂.pos) : g.Within c stop pos :=
    ⟨_, hparen, hparen', hopening.lt.trans_le hfirst, hlast.trans_lt hclosing.lt⟩
  refine ⟨hs.between.mono ((g.skipper.skip_advances c).trans hopening.advances) hclosing.advances, hs.lt,
    .inr (hwithin ?_ ?_), .inr (hwithin ?_ ?_)⟩ <;> omega

/-- Spans that stand one after the other. -/
theorem Hugs.merge (hs : g.Hugs c mid s) (hmid : mid.Advances here) (ht : g.Hugs here stop t) :
    g.Hugs c stop (s.merge t) ∧ (g.Spares (s.merge t) → s.merge t = extent g.skipper c stop) := by
  have hfirst := hs.between.bounds
  have hsecond := ht.between.bounds
  have hgap := hmid.le
  have hlt := hs.lt
  have hlt' := ht.lt
  have hmerge : s.merge t = ⟨s.start, t.stop⟩ := by
    simp only [Span.merge, Span.mk.injEq]
    omega
  have hc : c.Advances here := hs.between.advances.trans hmid
  have hstop : mid.Advances stop := hmid.trans ht.between.advances
  have hbetween := (hs.between.mono (.refl c) hmid).merge ht.between
  rw [hmerge] at hbetween ⊢
  refine ⟨⟨hbetween, by change s.start < t.stop; omega, hs.start.imp_right (·.mono (.refl c) hstop),
    ht.stop.imp_right (·.mono hc (.refl stop))⟩, fun hspares => ?_⟩
  have hstart : s.start = (g.skipper.skip c).pos := by
    refine hs.start.resolve_right ?_
    rintro ⟨paren, hmem, hparen, hpos⟩
    have hbounds := hparen.bounds
    exact hspares paren hmem (.inl ⟨hpos.1, hpos.2, by change paren.stop < t.stop; omega⟩)
  have hend : t.stop = stop.pos := by
    refine ht.stop.resolve_right ?_
    rintro ⟨paren, hmem, hparen, hpos⟩
    have hbounds := hparen.bounds
    exact hspares paren hmem (.inr ⟨by change s.start < paren.start; omega, hpos.1, hpos.2⟩)
  rw [hstart, hend]
  rfl

/-! ## Phrases that show sub-expressions -/

/-- An expression is the value of a phrase that stands exactly where the expression does. -/
def Shows (g : Page) (e : Expr) : Prop :=
  ∃ (q : Phrase .expr) (tree : OperatorTree) (c stop : Cursor), g.source.start.Advances c ∧
    q.Spelt g.skipper c stop ∧ q.value? g.source.slice = some tree ∧ tree.toExpr = e ∧
      e.span = extent g.skipper c stop

/-- All sub-expressions are shown whose spans cut no parentheses. -/
def ShowsAll (g : Page) (e : Expr) : Prop := ∀ sub ∈ e.subexprs, g.Spares sub.span → g.Shows sub

/-- An operand stands between two cursors, with all its sub-expressions. -/
structure Holds (g : Page) (e : Expr) (c stop : Cursor) : Prop where
  spelt : SpeltAs g.skipper g.source.slice e c stop
  start : g.source.start.Advances c
  hugs : g.Hugs c stop e.span
  shows : g.ShowsAll e

/-- The sub-expressions of operands that are grouped by priorities. -/
theorem shows_tree {tree : OperatorTree}
    (h : Arranged g.skipper g.source.slice g.Holds tree c stop) (hgrouped : tree.Grouped)
    (hstart : g.source.start.Advances c) :
    g.Hugs c stop tree.toExpr.span ∧ g.ShowsAll tree.toExpr := by
  induction tree generalizing c stop with
  | leaf e => exact ⟨h.hugs, h.shows⟩
  | node op left right ihl ihr =>
    have harranged := h
    obtain ⟨c₁, span, c₂, hleft, hop, hright⟩ := h
    have hmoves := (hop.reads.moves trivial).advances
    obtain ⟨hleftHugs, hleftShows⟩ := ihl hleft hgrouped.1 hstart
    have hstart₂ := (hstart.trans hleftHugs.between.advances).trans hmoves
    obtain ⟨hrightHugs, hrightShows⟩ := ihr hright hgrouped.2.1 hstart₂
    obtain ⟨hhugs, hwhole⟩ := hleftHugs.merge hmoves hrightHugs
    refine ⟨hhugs, fun sub hsub hspares => ?_⟩
    rw [OperatorTree.toExpr, Expr.subexprs, List.mem_cons, List.mem_append] at hsub
    rcases hsub with rfl | hsub | hsub
    · obtain ⟨q, hq, hvalue⟩ := (harranged.imp (·.spelt)).exists_phrase hgrouped
      exact ⟨q, _, c, stop, hstart, hq, hvalue, rfl, hwhole hspares⟩
    · exact hleftShows sub hsub hspares
    · exact hrightShows sub hsub hspares

/-- The value of an operand is shown where its span is all of the text. -/
theorem shows_operand {p : Phrase .operand} (h : p.Spelt g.skipper c stop)
    (hstart : g.source.start.Advances c) (hv : p.value? g.source.slice = some v)
    (hspan : v.span = extent g.skipper c stop) : g.Shows v :=
  ⟨.single p, .leaf v, c, stop, hstart, h, by rw [Phrase.value?, hv, Option.map_some], rfl, hspan⟩

/-- An access is shown unless its span cuts parentheses, and what it applies to is shown as before. -/
theorem shows_access {p : Phrase .chain} (h : p.Spelt g.skipper c stop)
    (hstart : g.source.start.Advances c) (hv : p.value? g.source.slice = some v)
    (hspan : v.span = e.span.merge s) (hs : s = extent g.skipper mid stop)
    (hmid : (g.skipper.skip mid).Moves stop) (hhugs : g.Hugs c mid e.span) {rest : List Expr}
    (hsubexprs : v.subexprs = v :: rest) (hrest : ∀ sub ∈ rest, g.Spares sub.span → g.Shows sub) :
    g.Hugs c stop v.span ∧ g.ShowsAll v := by
  obtain ⟨hhugs', hwhole⟩ := hhugs.merge (.refl mid) (hs ▸ hugs_extent hmid)
  rw [← hspan] at hhugs' hwhole
  refine ⟨hhugs', fun sub hsub hspares => ?_⟩
  rw [hsubexprs] at hsub
  rcases List.mem_cons.1 hsub with rfl | hsub
  · exact shows_operand (p := .plain p) h hstart hv (hwhole hspares)
  · exact hrest sub hsub hspares

/-- The value of a phrase and the sub-expressions in it are shown. -/
def Shown (g : Page) : (l : Level) → l.Value → Cursor → Cursor → Prop
  | .chain, e, c, stop | .operand, e, c, stop => g.Hugs c stop e.span ∧ g.ShowsAll e
  | .expr, tree, c, stop => Arranged g.skipper g.source.slice g.Holds tree c stop ∧ tree.Grouped
  | .items, es, _, _ | .args, es, _, _ => ∀ e ∈ es, g.ShowsAll e

end Page

/-- The value of a literal stands where the literal does and has no parts. -/
theorem LiteralKind.value?_eq_some {kind : LiteralKind} {text : Span → String} {span : Span} {v : Expr}
    (h : kind.value? text span = some v) : v.span = span ∧ v.subexprs = [v] := by
  cases kind with
  | bool | name =>
    cases h
    exact ⟨rfl, rfl⟩
  | float | int =>
    obtain ⟨value, -, rfl⟩ := Option.map_eq_some_iff.1 h
    exact ⟨rfl, rfl⟩

variable {g : Page} {c stop : Cursor}

/-- An expression that is a phrase of its own, with all its sub-expressions. -/
theorem Page.Shown.tree {tree : OperatorTree} (h : g.Shown .expr tree c stop)
    (hstart : g.source.start.Advances c) :
    g.Hugs c stop tree.toExpr.span ∧ g.ShowsAll tree.toExpr :=
  Page.shows_tree h.1 h.2 hstart

/-- The value of a phrase that is spelt in a source is shown, and so is all in it. -/
theorem Phrase.Spelt.shown {l : Level} {p : Phrase l} {v : l.Value} (h : p.Spelt g.skipper c stop)
    (hstart : g.source.start.Advances c) (hparens : l.parens p.form ⊆ g.parens)
    (hv : p.value? g.source.slice = some v) : g.Shown l v c stop := by
  induction p generalizing c stop with
  | literal kind span =>
    obtain ⟨hspan, hsubexprs⟩ := LiteralKind.value?_eq_some hv
    have hextent : v.span = extent g.skipper c stop := hspan.trans h.1.2
    refine ⟨hextent ▸ Page.hugs_extent (h.skip_moves (by decide)), fun sub hsub _ => ?_⟩
    rw [hsubexprs] at hsub
    obtain rfl := List.mem_singleton.1 hsub
    exact Page.shows_operand (p := .plain (.literal kind span)) h hstart hv hextent
  | paren opening inner closing ih =>
    obtain ⟨c₁, c₂, hopening, hinner, hclosing⟩ := h
    obtain ⟨tree, htree, rfl⟩ := Option.map_eq_some_iff.1 hv
    have hfirst := hopening.reads (by decide)
    have hstart₁ := (hstart.trans (g.skipper.skip_advances c)).trans hfirst.advances
    have hspan : (exprTree inner.form).span = extent g.skipper c₁ c₂ := hinner.covers 0
    have hbetween := between_extent (hinner.skip_moves (by decide)).advances
    rw [parens_paren, List.cons_subset, bracketTree_extent hopening (by decide) rfl
      (hspan ▸ hbetween) hclosing (by decide)] at hparens
    obtain ⟨hhugs, hshows⟩ := (ih hinner hstart₁ hparens.2 htree).tree hstart₁
    exact ⟨hhugs.paren hfirst (hclosing.moves (by decide)) hparens.1, hshows⟩
  | field target point name ih =>
    have hspelt := h
    obtain ⟨c₁, c₂, htarget, hpoint, hname⟩ := h
    obtain ⟨e, he, rfl⟩ := Option.map_eq_some_iff.1 hv
    rw [form, parens_access, List.append_subset] at hparens
    obtain ⟨hhugs, hshows⟩ := ih htarget hstart hparens.1 he
    exact Page.shows_access hspelt hstart hv rfl (fieldTree_extent hpoint hname)
      ((hpoint.reads (by decide)).trans (hname.moves trivial)) hhugs rfl hshows
  | index target opening key closing ih ihkey =>
    have hspelt := h
    obtain ⟨c₁, c₂, c₃, htarget, hopening, hkey, hclosing⟩ := h
    obtain ⟨e, i, he, hi, rfl⟩ := value?_index_iff.1 hv
    rw [form, parens_access, List.append_subset, spansOf_bracketTree, if_neg (by decide),
      List.nil_append, spansOf_exprTree] at hparens
    have hstart₂ := (hstart.trans htarget.moves.advances).trans (hopening.moves (by decide)).advances
    obtain ⟨hhugs, hshows⟩ := ih htarget hstart hparens.1 he
    obtain ⟨-, hkeyShows⟩ := (ihkey hkey hstart₂ hparens.2 hi).tree hstart₂
    have hspan : (exprTree key.form).span = extent g.skipper c₂ c₃ := hkey.covers 0
    have hbetween := between_extent (hkey.skip_moves (by decide)).advances
    exact Page.shows_access hspelt hstart hv rfl
      (bracketTree_extent hopening (by decide) rfl (hspan ▸ hbetween) hclosing (by decide))
      (((hopening.reads (by decide)).trans hkey.moves).trans (hclosing.moves (by decide))) hhugs rfl
      (List.forall_mem_append.2 ⟨hshows, hkeyShows⟩)
  | call callee opening args closing ih ihargs =>
    have hspelt := h
    obtain ⟨c₁, c₂, c₃, hcallee, hopening, hargs, hclosing⟩ := h
    obtain ⟨e, es, he, hes, rfl⟩ := value?_call_iff.1 hv
    rw [form, parens_access, List.append_subset, spansOf_bracketTree, if_neg (by decide),
      List.nil_append, spansOf_tree] at hparens
    have hstart₂ := (hstart.trans hcallee.moves.advances).trans (hopening.moves (by decide)).advances
    obtain ⟨hhugs, hshows⟩ := ih hcallee hstart hparens.1 he
    have hall := ihargs hargs hstart₂ hparens.2 hes
    have hbetween : Between c₂ c₃ (args.form.tree opening.stop).span := by
      rw [hopening.2]
      exact hargs.covers
    refine Page.shows_access hspelt hstart hv rfl
      (bracketTree_extent hopening (by decide) rfl hbetween hclosing (by decide))
      (((hopening.reads (by decide)).trans_advances hargs.moves).trans (hclosing.moves (by decide)))
      hhugs rfl (List.forall_mem_append.2 ⟨hshows, fun sub hsub => ?_⟩)
    obtain ⟨arg, harg, hsub⟩ := mem_subexprsAll.1 hsub
    exact hall arg harg sub hsub
  | post target op ih =>
    have hspelt := h
    obtain ⟨c₁, htarget, hop⟩ := h
    obtain ⟨e, o, he, ho, rfl⟩ := value?_post_iff.1 hv
    rw [form, parens_access, List.append_subset] at hparens
    obtain ⟨hhugs, hshows⟩ := ih htarget hstart hparens.1 he
    exact Page.shows_access hspelt hstart hv rfl hop.2 (hop.reads trivial) hhugs rfl hshows
  | plain chain ih =>
    rw [Level.parens, form, spansOf_operandTree] at hparens
    exact ih h hstart hparens hv
  | unary op operand ih =>
    have hspelt := h
    obtain ⟨c₁, hop, hoperand⟩ := h
    obtain ⟨o, e, ho, he, rfl⟩ := value?_unary_iff.1 hv
    rw [Level.parens, form, spansOf_operandTree] at hparens
    have hstart₁ := hstart.trans (hop.moves trivial).advances
    have hextent := unaryTree_extent hop operand.isEmpty_operand hoperand.covers
      (hoperand.skip_moves (by decide)).advances
    have hoperandParens : Level.operand.parens operand.form ⊆ g.parens := by
      simpa [Level.parens, spansOf_ofBody, spansOf_unaryTree, ParseTree.spansOfAll] using hparens
    obtain ⟨-, hshows⟩ := ih hoperand hstart₁ hoperandParens he
    refine ⟨?_, List.forall_mem_cons.2 ⟨fun _ => ?_, hshows⟩⟩
    · rw [Expr.span, hextent]
      exact Page.hugs_extent (hspelt.skip_moves (by decide))
    · exact Page.shows_operand hspelt hstart hv hextent
  | single operand ih =>
    obtain ⟨e, he, rfl⟩ := Option.map_eq_some_iff.1 hv
    rw [form, parens_single] at hparens
    obtain ⟨hhugs, hshows⟩ := ih h hstart hparens he
    exact ⟨⟨⟨operand, h, he⟩, hstart, hhugs, hshows⟩, trivial⟩
  | more before op operand ih ihoperand =>
    obtain ⟨c₁, c₂, hbefore, hpost, hop, hoperand⟩ := h
    obtain ⟨tree, o, e, htree, ho, he, rfl⟩ := value?_more_iff.1 hv
    rw [form, parens_snoc, List.append_subset, List.append_subset] at hparens
    have hstart₂ := (hstart.trans hbefore.moves.advances).trans (hop.moves trivial).advances
    obtain ⟨harranged, hgrouped⟩ := ih hbefore hstart hparens.1 htree
    obtain ⟨hhugs, hshows⟩ := ihoperand hoperand hstart₂ hparens.2.2 he
    exact ⟨harranged.insert ⟨hpost, hop, ho⟩ ⟨⟨operand, hoperand, he⟩, hstart₂, hhugs, hshows⟩,
      hgrouped.insert o e⟩
  | one e ih =>
    obtain ⟨tree, htree, rfl⟩ := Option.map_eq_some_iff.1 hv
    have hparens' : Level.expr.parens e.form ⊆ g.parens := by
      rw [← spansOf_exprTree, ← parens_single]
      exact hparens
    exact List.forall_mem_singleton.2 ((ih h hstart hparens' htree).tree hstart).2
  | next before comma e ih ihe =>
    obtain ⟨c₁, c₂, hbefore, hcomma, he⟩ := h
    obtain ⟨es, tree, hes, htree, rfl⟩ := value?_next_iff.1 hv
    have hsplit : Level.expr.parens (before.form.snoc (some (.token comma)) (exprTree e.form)) ⊆
        g.parens := hparens
    rw [parens_snoc, List.append_subset, List.append_subset, spansOf_exprTree] at hsplit
    have hstart₂ := (hstart.trans hbefore.moves.advances).trans (hcomma.moves (by decide)).advances
    exact List.forall_mem_append.2 ⟨ih hbefore hstart hsplit.1 hes,
      List.forall_mem_singleton.2 ((ihe he hstart₂ hsplit.2.2 htree).tree hstart₂).2⟩
  | noArgs =>
    obtain rfl : [] = v := Option.some.inj hv
    exact fun _ he => absurd he List.not_mem_nil
  | withArgs items ih => exact ih h hstart hparens hv

end Syntax

end ExpLang
