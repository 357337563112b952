import ExpLang.Proofs.Syntax.Subexpressions

/-!
# Sub-expressions are read from their spans

A phrase that stands in a source is the spelling of the same phrase in the excerpt where it stands, so
the excerpt is read as an expression of the same form (`Page.Shows.reads`). So a sub-expression is read
again from its span, where the span cuts no expression in parentheses (`excerpt_read`). Where it does, the
excerpt holds one parenthesis without the other and may not be read at all (`excerpt_not_read`).
-/

namespace ExpLang

open Cursor (Between)

/-- Nothing is left to skip at the end of a text. -/
theorem Skipper.rest_skip_of_nil {c : Cursor} (sk : Skipper) (h : c.rest = []) :
    (sk.skip c).rest = [] := by
  obtain ⟨text, hrest, -⟩ := sk.skip_advances c
  rw [h] at hrest
  exact (List.append_eq_nil_iff.1 hrest.symm).2

/-- The text of a span is the same in the excerpt from one cursor to another. -/
theorem Source.slice_back {source : Source} {c stop : Cursor} {part : List Char}
    (hc : source.start.Advances c) (hrest : c.rest = part ++ stop.rest) {s : Span}
    (hs : Between c stop s) (name : String) :
    Source.slice ⟨name, part⟩ (s.back c.pos) = source.slice s := by
  obtain ⟨first, last, hfirst, hmid, hlast, rfl⟩ := hs
  obtain ⟨word, hslice, hword⟩ := Source.slice?_of_advances (hc.trans hfirst) hmid
  have htext := hlast
  obtain ⟨tail, htail, -⟩ := htext
  have hstart : c.cut c.pos stop = Source.start ⟨name, part⟩ := by
    rw [Cursor.cut_eq hrest, Nat.sub_self]
    rfl
  have hwhole : first.rest = (word ++ tail) ++ stop.rest := by
    rw [hword, htail, List.append_assoc]
  have hfirst' := hfirst.cut (hmid.trans hlast) (le_refl c.pos)
  have hmid' := hmid.cut hlast hfirst.le
  rw [hstart] at hfirst'
  have hslice' : Source.slice? ⟨name, part⟩ ⟨first.pos - c.pos, last.pos - c.pos⟩ = some word := by
    refine Source.slice?_of_rest hfirst' hmid' ?_
    rw [Cursor.cut_rest hwhole, Cursor.cut_rest htail]
  rw [Source.slice, Source.slice, hslice, Span.back, hslice']

namespace Syntax

/-- A phrase of a source that nothing but a gap is left behind is read, if the budget lasts. -/
theorem exists_parseExpr_of_spelt {source : Source} {sk : Skipper} {q : Phrase .expr} {stop : Cursor}
    {tree : OperatorTree} (h : q.Spelt sk source.start stop) (hrest : stop.rest = [])
    (hv : q.value? source.slice = some tree) :
    ∃ N, ∀ budget ≥ N, parseExpr source ⟨sk, budget⟩ = .ok tree.toExpr := by
  have hend := sk.rest_skip_of_nil hrest
  obtain ⟨hthrough, hwhole⟩ := h.through_expr (ends_of_rest_nil hend)
  obtain ⟨N, hunspent⟩ := language_ranked.unspent Kind.all source
  refine ⟨N, fun budget hbudget => ?_⟩
  have hleft := hunspent budget hbudget .expr (Kind.mem_all .expr) sk
  obtain ⟨parsed, hparse, hsource, htree⟩ := Grammar.parse_of_reference hthrough hwhole hend
    (Grammar.parse_ne_budgetExhausted hleft)
  have hvalue := expr_toOption q htree
  rw [hsource, hv, Option.map_some] at hvalue
  refine readAs_eq_ok_iff.2 ⟨parsed, hparse, ?_⟩
  cases hread : Syntax.expr parsed.tree parsed.root with
  | error e =>
    rw [hread] at hvalue
    cases hvalue
  | ok e =>
    rw [hread] at hvalue
    exact congrArg Except.ok (Option.some.inj hvalue)

/-- A sub-expression that is shown is read again from the text where it stands. -/
theorem Page.Shows.reads {g : Page} {e : Expr} (h : g.Shows e) (name : String) :
    ∃ part, g.source.slice? e.span = some part ∧ ∃ N, ∀ budget ≥ N,
      ∃ e', parseExpr ⟨name, part⟩ ⟨g.skipper, budget⟩ = .ok e' ∧ e'.sexpr = e.sexpr := by
  obtain ⟨q, tree, c, stop, hstart, hq, hvalue, rfl, hspan⟩ := h
  have hfirst := hstart.trans (g.skipper.skip_advances c)
  obtain ⟨part, hslice, hrest⟩ :=
    Source.slice?_of_advances hfirst (hq.skip_moves (by decide)).advances
  refine ⟨part, hspan ▸ hslice, ?_⟩
  have hskip := hq.skip (by decide)
  have hcut := hskip.cut (.refl stop) (le_refl (g.skipper.skip c).pos)
  have hbegin : (g.skipper.skip c).cut (g.skipper.skip c).pos stop = Source.start ⟨name, part⟩ := by
    rw [Cursor.cut_eq hrest, Nat.sub_self]
    rfl
  rw [hbegin] at hcut
  obtain ⟨tree', htree', herase⟩ := q.value?_mapSpans hvalue fun t ht =>
    Source.slice_back hfirst hrest (hskip.between t ht) name
  have hend : stop.rest = [] ++ stop.rest := rfl
  obtain ⟨N, hN⟩ := exists_parseExpr_of_spelt hcut (Cursor.cut_rest hend _) htree'
  refine ⟨N, fun budget hbudget => ⟨tree'.toExpr, hN budget hbudget, ?_⟩⟩
  have hexpr := congrArg OperatorTree.toExpr herase
  rw [erase_toExpr, erase_toExpr] at hexpr
  rw [← sexpr_mapSpans fun _ => .synthetic, show Expr.mapSpans _ _ = _ from hexpr, Level.erase, sexpr_mapSpans]

/-- A sub-expression of a source that is read as an expression is read again from its span, in the same
fully parenthesized form, where its span cuts no expression in parentheses. The bound is that of 32-bit
offsets. -/
theorem excerpt_read {source : Source} {budget : Nat} {whole : Expr}
    (_hsize : source.size < UInt32.size) (h : parseExpr source (parseConfig budget) = .ok whole) :
    ∃ parsed t, language.parse .expr source (parseConfig budget) = .ok parsed ∧
      parsed.tree.nodes.treeAt? parsed.root = some t ∧
      ∀ e ∈ whole.subexprs, (∀ paren ∈ t.spansOf .parenExpr, ¬ paren.Cuts e.span) →
        ∃ part, source.slice? e.span = some part ∧ ∃ N, ∀ budget ≥ N,
          ∃ e', parseExpr ⟨source.name, part⟩ (parseConfig budget) = .ok e' ∧ e'.sexpr = e.sexpr := by
  obtain ⟨parsed, p, stop, tree, hparse, htree, hp, -, hvalue, rfl⟩ := exists_phrase_of_parseExpr h
  refine ⟨parsed, _, hparse, htree, fun e he hspares => ?_⟩
  let g : Page := ⟨source, .blanksAndComments, (exprTree p.form).spansOf .parenExpr⟩
  have hshown : g.Shown .expr tree source.start stop := by
    refine Phrase.Spelt.shown hp (.refl source.start) ?_ hvalue
    rw [← spansOf_exprTree]
    exact List.Subset.refl _
  exact ((hshown.tree (.refl source.start)).2 e he hspares).reads source.name

/-- A product with a sum in parentheses. -/
def product : Source := .ofText "main" "(a + b) * c"

/-- The sub-expressions of a product with a sum in parentheses, and where they stand. -/
theorem product_parsed : (parseExpr product (parseConfig 1000)).toOption.map
    (fun whole => whole.subexprs.map fun e => (e.span, e.sexpr)) =
      some [(⟨1, 11⟩, "(* (+ a b) c)"), (⟨1, 6⟩, "(+ a b)"), (⟨1, 2⟩, "a"), (⟨5, 6⟩, "b"),
        (⟨10, 11⟩, "c")] := by
  decide +kernel

/-- The sum of the product is read again from its span, which leaves the parentheses whole. -/
theorem excerpt_read_sum : product.size < UInt32.size ∧ ∃ whole, parseExpr product (parseConfig 1000) = .ok whole ∧
    ∃ sum ∈ whole.subexprs, sum.span = ⟨1, 6⟩ ∧ ∃ N, ∀ budget ≥ N,
      ∃ e, parseExpr (.ofText "main" "a + b") (parseConfig budget) = .ok e ∧ e.sexpr = "(+ a b)" := by
  obtain ⟨whole, hwhole, hparts⟩ := Except.ok_of_toOption_map product_parsed
  have hsize : product.size < UInt32.size := by decide
  obtain ⟨parsed, t, hparse, htree, hread⟩ := excerpt_read hsize hwhole
  have hparens : ((language.parse .expr product (parseConfig 1000)).toOption.bind fun parsed =>
      (parsed.tree.nodes.treeAt? parsed.root).map (·.spansOf .parenExpr)) = some [⟨0, 7⟩] := by
    decide +kernel
  rw [hparse, Except.toOption, Option.bind_some, htree, Option.map_some] at hparens
  obtain ⟨sum, hsum, heq⟩ := List.mem_map.1 (hparts ▸ by simp :
    ((⟨1, 6⟩ : Span), "(+ a b)") ∈ whole.subexprs.map fun e => (e.span, e.sexpr))
  obtain ⟨hspan, hsexpr⟩ := Prod.mk.inj heq
  obtain ⟨part, hslice, hpart⟩ := hread sum hsum <| by
    rw [Option.some.inj hparens, hspan]
    simp [Span.Cuts]
  have htext : product.slice? ⟨1, 6⟩ = some "a + b".toList := by decide
  rw [hspan, htext] at hslice
  cases hslice
  rw [hsexpr] at hpart
  exact ⟨hsize, whole, hwhole, sum, hsum, hspan, hpart⟩

/-- The product itself is not read again: its span begins within the parentheses. -/
theorem excerpt_not_read : ¬ ∀ (source : Source) (budget : Nat) (whole : Expr),
    parseExpr source (parseConfig budget) = .ok whole → ∀ e ∈ whole.subexprs,
      ∃ part, source.slice? e.span = some part ∧ ∃ N, ∀ budget ≥ N,
        ∃ e', parseExpr ⟨source.name, part⟩ (parseConfig budget) = .ok e' ∧ e'.sexpr = e.sexpr := by
  intro hreread
  obtain ⟨whole, hwhole, hparts⟩ := Except.ok_of_toOption_map product_parsed
  obtain ⟨e, he, heq⟩ := List.mem_map.1 (hparts ▸ by simp :
    ((⟨1, 11⟩ : Span), "(* (+ a b) c)") ∈ whole.subexprs.map fun e => (e.span, e.sexpr))
  obtain ⟨part, hslice, N, hN⟩ := hreread product 1000 whole hwhole e he
  have htext : product.slice? ⟨1, 11⟩ = some "a + b) * c".toList := by decide
  rw [(Prod.mk.inj heq).1, htext] at hslice
  cases hslice
  obtain ⟨e', hread, -⟩ := hN (max N 1000) (le_max_left N 1000)
  obtain ⟨parsed, hparse, -⟩ := readAs_eq_ok_iff.1 hread
  -- a thousand steps are enough to see that the text is not an expression
  have hleft : (language.run (.rule .expr) (Grammar.startState (.ofText "main" "a + b) * c")
      (parseConfig 1000))).1.exhausted = false := by decide +kernel
  have hrefused : (language.parse .expr (.ofText "main" "a + b) * c")
      (parseConfig 1000)).toOption.isNone = true := by decide +kernel
  have hsame : language.parse .expr _ (parseConfig 1000) = .ok parsed :=
    (Grammar.parse_withBudget (le_max_right N 1000) hleft).symm.trans hparse
  rw [hsame] at hrefused
  cases hrefused

end Syntax

end ExpLang
