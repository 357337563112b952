import ExpLang.Proofs.Matching.Standing
import ExpLang.Proofs.Syntax.Recognition

/-!
# Where phrases stand

The tree of a phrase covers the text from the first token of the phrase to its last one
(`Phrase.Spelt.covers`). `ParseTree.spansOf` lists where the nodes of a rule stand in a tree; those of
parentheses are what the spans of values miss, since parentheses leave no trace in a value.
-/

namespace ExpLang

open Cursor (Between)

variable {κ : Type}

/-- A span between two cursors lies between their offsets. -/
theorem Cursor.Between.bounds {c stop : Cursor} {s : Span} (h : Between c stop s) :
    c.pos ≤ s.start ∧ s.start ≤ s.stop ∧ s.stop ≤ stop.pos := by
  obtain ⟨first, last, hfirst, hmid, hlast, rfl⟩ := h
  exact ⟨hfirst.le, hmid.le, hlast.le⟩

namespace ParseTree

/-! ## Spans over trees -/

/-- One tree more is covered. -/
theorem cover_snoc {ts : List (ParseTree κ)} {t : ParseTree κ} {s : Span}
    (h : ∀ pos, cover ts pos = s) (ht : t.kind.isEmpty = false) (pos : Nat) :
    cover (ts ++ [t]) pos = s.merge t.span := by
  have hlast : [t].filter (!·.kind.isEmpty) = [t] := by simp [ht]
  unfold cover at h ⊢
  rw [List.filter_append, hlast, List.map_append]
  generalize (ts.filter (!·.kind.isEmpty)).map (·.span) = spans at h ⊢
  cases spans with
  | nil =>
    -- The empty span would stand in two places.
    have hpoint := congrArg Span.start ((h 0).trans (h 1).symm)
    cases hpoint
  | cons first rest =>
    obtain rfl : rest.foldl Span.merge first = s := h 0
    simp [Span.cover]

/-- One tree that is there covers its own span. -/
theorem cover_singleton {t : ParseTree κ} (ht : t.kind.isEmpty = false) (pos : Nat) :
    cover [t] pos = t.span := by
  simp [cover, ht, Span.cover]

/-- A tree and those behind it are covered one after the other. -/
theorem merge_cover {t : ParseTree κ} {ts : List (ParseTree κ)} {s : Span}
    (ht : t.kind.isEmpty = false) (h : ∀ pos, cover (t :: ts) pos = s) (hs : s.start ≤ s.stop) :
    t.span.merge (cover ts s.stop) = s := by
  have hall := h 0
  unfold cover at hall ⊢
  rw [List.filter_cons_of_pos (by simp [ht]), List.map_cons] at hall
  generalize (ts.filter (!·.kind.isEmpty)).map (·.span) = spans at hall ⊢
  cases spans with
  | nil =>
    obtain rfl : t.span = s := hall
    simp only [Span.cover, Option.getD_none, Span.merge, Span.point]
    rw [Nat.min_eq_left hs, Nat.max_self]
  | cons first rest =>
    obtain rfl : rest.foldl Span.merge (t.span.merge first) = s := hall
    exact List.foldl_assoc.symm

/-! ## Where the nodes of a rule stand -/

section SpansOf

variable [DecidableEq κ]

mutual

/-- Where the nodes of a rule stand in a tree. -/
def spansOf (name : κ) : ParseTree κ → List Span
  | ⟨kind, span, children, _, _⟩ =>
    (if kind = .rule name then [span] else []) ++ spansOfAll name children

/-- Where the nodes of a rule stand in the trees of a list. -/
def spansOfAll (name : κ) : List (ParseTree κ) → List Span
  | [] => []
  | t :: rest => t.spansOf name ++ spansOfAll name rest

end

/-- The spans of a rule in two lists are those of the first and then those of the second. -/
theorem spansOfAll_append (name : κ) (ts us : List (ParseTree κ)) :
    spansOfAll name (ts ++ us) = spansOfAll name ts ++ spansOfAll name us := by
  induction ts with
  | nil => rfl
  | cons t rest ih => rw [List.cons_append, spansOfAll, spansOfAll, ih, List.append_assoc]

end SpansOf

end ParseTree

namespace Syntax

variable {sk : Skipper} {c c₁ c₂ mid stop : Cursor} {s opening closing point name : Span} {t : Token}
  {k : Kind} {inner : ParseTree Kind} {a b : List Char}

/-- The span from the first token behind a cursor to another cursor. -/
def extent (sk : Skipper) (c stop : Cursor) : Span := ⟨(sk.skip c).pos, stop.pos⟩

/-- An extent lies between its two cursors. -/
theorem between_extent (h : (sk.skip c).Advances stop) : Between c stop (extent sk c stop) :=
  ⟨_, _, sk.skip_advances c, h, .refl stop, rfl⟩

/-- An extent merged with a span that ends at the later cursor is the extent to it. -/
theorem extent_merge (h : (sk.skip c).pos ≤ mid.pos) (hs : Between mid stop s)
    (hstop : s.stop = stop.pos) : (extent sk c mid).merge s = extent sk c stop := by
  obtain ⟨hfirst, hlast, -⟩ := hs.bounds
  simp only [extent, Span.merge, Span.mk.injEq]
  omega

/-- The tree of something in brackets covers the brackets too. -/
theorem bracketTree_extent (hopening : (Token.mark a).At sk c opening c₁) (ha : a ∈ marks)
    (hkind : inner.kind.isEmpty = false) (hinner : Between c₁ c₂ inner.span)
    (hclosing : (Token.mark b).At sk c₂ closing stop) (hb : b ∈ marks) :
    (bracketTree k opening inner closing).span = extent sk c stop := by
  have hspan : (bracketTree k opening inner closing).span =
      (opening.merge inner.span).merge closing := by
    change ParseTree.cover (([.token opening] ++ [inner]) ++ [.token closing]) 0 = _
    refine ParseTree.cover_snoc (fun pos => ?_) rfl 0
    exact ParseTree.cover_snoc (fun pos => ParseTree.cover_singleton rfl pos) hkind pos
  have hfirst := (hopening.reads ha).lt
  have hmid := hinner.bounds
  have hlast := (hclosing.between hb).bounds
  have hstop : closing.stop = stop.pos := congrArg Span.stop hclosing.2
  rw [hspan, hopening.2]
  simp only [extent, Span.merge, Span.mk.injEq]
  omega

/-- A field access covers the extent between its cursors. -/
theorem fieldTree_extent (hpoint : (Token.mark ['.']).At sk c point mid)
    (hname : Token.name.At sk mid name stop) : (fieldTree point name).span = extent sk c stop := by
  change point.merge name = _
  rw [show point = extent sk c mid from hpoint.2]
  exact extent_merge (hpoint.reads (by decide)).lt.le (hname.between trivial) (congrArg Span.stop hname.2)

/-- A prefixed operand covers the extent between its cursors. -/
theorem unaryTree_extent (hop : (Token.op .prefixOp).At sk c s mid) (hkind : inner.kind.isEmpty = false)
    (hspan : inner.span = extent sk mid stop) (hmid : (sk.skip mid).Advances stop) :
    (unaryTree s inner).span = extent sk c stop := by
  have hbetween : Between mid stop inner.span := hspan ▸ between_extent hmid
  change ParseTree.cover ([leafTree .unop s] ++ [inner]) 0 = _
  rw [ParseTree.cover_snoc (fun pos => ParseTree.cover_singleton rfl pos) hkind]
  change s.merge inner.span = _
  rw [show s = extent sk c mid from hop.2]
  exact extent_merge (hop.reads trivial).lt.le hbetween (congrArg Span.stop hspan)

/-- An operand stands where its atom and the accesses after it stand. -/
theorem operandTree_span {atom : ParseTree Kind} {accesses : List (ParseTree Kind)}
    (hkind : atom.kind.isEmpty = false) (h : ∀ pos, ParseTree.cover (atom :: accesses) pos = s)
    (hs : s.start ≤ s.stop) : (operandTree atom accesses s.stop).span = s := by
  refine Eq.trans ?_ (ParseTree.merge_cover hkind h hs)
  change ParseTree.cover ([atom] ++ [(Series.plain accesses).tree s.stop]) 0 = _
  exact ParseTree.cover_snoc (fun pos => ParseTree.cover_singleton hkind pos) rfl 0

/-! ## Phrases -/

/-- How the form of a phrase covers the text between two cursors. -/
def Level.Covers (sk : Skipper) : (l : Level) → l.Form → Cursor → Cursor → Prop
  | chain, form, c, stop => ∀ pos, ParseTree.cover (form.1 :: form.2) pos = extent sk c stop
  | operand, form, c, stop => form.span = extent sk c stop
  | expr, form, c, stop | items, form, c, stop =>
    ∀ pos, ParseTree.cover form.parts pos = extent sk c stop
  | args, form, c, stop => Between c stop (form.tree c.pos).span

/-- A phrase has a first token. -/
theorem Phrase.Spelt.skip_moves {l : Level} {p : Phrase l} (h : p.Spelt sk c stop) (hl : l ≠ .args) :
    (sk.skip c).Moves stop := by
  have hmoves := (h.skip hl).moves
  cases l with
  | args => exact absurd rfl hl
  | chain | operand | expr | items => exact hmoves

/-- One access more is covered. -/
theorem Level.Covers.access {form : Level.chain.Form} (hcovers : Level.Covers sk .chain form c mid)
    (hc : (sk.skip c).Moves mid) {access : ParseTree Kind} (hkind : access.kind.isEmpty = false)
    (hspan : access.span = extent sk mid stop) (hmid : (sk.skip mid).Advances stop) :
    Level.Covers sk .chain (form.1, form.2 ++ [access]) c stop := by
  intro pos
  have hbetween : Between mid stop access.span := hspan ▸ between_extent hmid
  rw [← List.cons_append, ParseTree.cover_snoc hcovers hkind]
  exact extent_merge hc.lt.le hbetween (congrArg Span.stop hspan)

/-- One element more is covered, with the separator before it. -/
theorem cover_snoc_series {series : Series} {separator element : ParseTree Kind}
    (hcovers : ∀ pos, ParseTree.cover series.parts pos = extent sk c mid)
    (hc : (sk.skip c).Moves mid) (hkind : separator.kind.isEmpty = false)
    (hseparator : t.At sk mid separator.span c₁) (ht : t.Known)
    (hkind' : element.kind.isEmpty = false) (helement : element.span = extent sk c₁ stop)
    (hmid : (sk.skip c₁).Advances stop) (pos : Nat) :
    ParseTree.cover (series.snoc (some separator) element).parts pos = extent sk c stop := by
  have hstep (pos : Nat) : ParseTree.cover (series.parts ++ [separator]) pos = extent sk c c₁ := by
    rw [ParseTree.cover_snoc hcovers hkind]
    exact extent_merge hc.lt.le (hseparator.between ht) (congrArg Span.stop hseparator.2)
  have hlt := hc.lt.le.trans (hseparator.moves ht).lt.le
  have hbetween : Between c₁ stop element.span := helement ▸ between_extent hmid
  change ParseTree.cover (series.parts ++ ([separator] ++ [element])) pos = _
  rw [← List.append_assoc, ParseTree.cover_snoc hstep hkind']
  exact extent_merge hlt hbetween (congrArg Span.stop helement)

/-- The atom of a chain is there. -/
theorem Phrase.isEmpty_atom : (p : Phrase .chain) → p.form.1.kind.isEmpty = false
  | .literal _ _ | .paren _ _ _ => rfl
  | .field target _ _ | .index target _ _ _ | .call target _ _ _ | .post target _ =>
    target.isEmpty_atom

/-- The tree of a phrase covers its text from the first token to the last one. -/
theorem Phrase.Spelt.covers {l : Level} {p : Phrase l} (h : p.Spelt sk c stop) :
    l.Covers sk p.form c stop := by
  induction p generalizing c stop with
  | literal kind span =>
    intro pos
    rw [← show span = extent sk c stop from h.1.2]
    exact ParseTree.cover_singleton rfl pos
  | paren opening inner closing ih =>
    obtain ⟨c₁, c₂, hopening, hinner, hclosing⟩ := h
    intro pos
    have hspan : (exprTree inner.form).span = extent sk c₁ c₂ := ih hinner 0
    rw [← bracketTree_extent (k := .parenExpr) hopening (by decide) rfl
      (hspan ▸ between_extent (hinner.skip_moves (by decide)).advances) hclosing (by decide)]
    exact ParseTree.cover_singleton rfl pos
  | field target point name ih =>
    obtain ⟨c₁, c₂, htarget, hpoint, hname⟩ := h
    exact (ih htarget).access (htarget.skip_moves (by decide)) rfl (fieldTree_extent hpoint hname)
      ((hpoint.reads (by decide)).advances.trans (hname.moves trivial).advances)
  | index target opening key closing ih ihkey =>
    obtain ⟨c₁, c₂, c₃, htarget, hopening, hkey, hclosing⟩ := h
    have hspan : (exprTree key.form).span = extent sk c₂ c₃ := ihkey hkey 0
    have hbetween := between_extent (hkey.skip_moves (by decide)).advances
    exact (ih htarget).access (htarget.skip_moves (by decide)) rfl
      (bracketTree_extent (k := .accessArray) hopening (by decide) rfl (hspan ▸ hbetween) hclosing (by decide))
      (((hopening.reads (by decide)).advances.trans hkey.moves.advances).trans
        (hclosing.moves (by decide)).advances)
  | call callee opening args closing ih ihargs =>
    obtain ⟨c₁, c₂, c₃, hcallee, hopening, hargs, hclosing⟩ := h
    have hbetween : Between c₂ c₃ (args.form.tree opening.stop).span := by
      rw [hopening.2]
      exact ihargs hargs
    exact (ih hcallee).access (hcallee.skip_moves (by decide)) rfl
      (bracketTree_extent (k := .accessCall) hopening (by decide) rfl hbetween hclosing (by decide))
      (((hopening.reads (by decide)).advances.trans hargs.moves).trans
        (hclosing.moves (by decide)).advances)
  | post target op ih =>
    obtain ⟨c₁, htarget, hop⟩ := h
    exact (ih htarget).access (htarget.skip_moves (by decide)) rfl hop.2 (hop.reads trivial).advances
  | plain chain ih =>
    have hstop : stop.pos = chain.stop := Phrase.Spelt.stop_pos (l := .chain) h (by decide)
    change (operandTree _ _ chain.stop).span = _
    rw [← hstop]
    exact operandTree_span chain.isEmpty_atom (ih h)
      (Phrase.Spelt.skip_moves (l := .chain) h (by decide)).lt.le
  | unary op operand ih =>
    obtain ⟨c₁, hop, hoperand⟩ := h
    have hfirst := hop.reads trivial
    have hspan := unaryTree_extent hop operand.isEmpty_operand (ih hoperand)
      (hoperand.skip_moves (by decide)).advances
    change (operandTree _ _ operand.stop).span = _
    rw [← hoperand.stop_pos (by decide)]
    exact operandTree_span (s := extent sk c stop) rfl
      (fun pos => (ParseTree.cover_singleton rfl pos).trans hspan)
      (hfirst.trans hoperand.moves).lt.le
  | single operand ih =>
    intro pos
    rw [← show operand.form.span = extent sk c stop from ih h]
    exact ParseTree.cover_singleton operand.isEmpty_operand pos
  | more before op operand ih ihoperand =>
    obtain ⟨c₁, c₂, hbefore, -, hop, hoperand⟩ := h
    exact cover_snoc_series (ih hbefore) (hbefore.skip_moves (by decide)) rfl hop trivial
      operand.isEmpty_operand (ihoperand hoperand) (hoperand.skip_moves (by decide)).advances
  | one e ih =>
    intro pos
    rw [← show (exprTree e.form).span = extent sk c stop from ih h 0]
    exact ParseTree.cover_singleton rfl pos
  | next before comma e ih ihe =>
    obtain ⟨c₁, c₂, hbefore, hcomma, he⟩ := h
    exact cover_snoc_series (ih hbefore) (hbefore.skip_moves (by decide)) rfl hcomma (by decide)
      rfl (ihe he 0) (he.skip_moves (by decide)).advances
  | noArgs =>
    obtain rfl : stop = c := h
    exact .point (.refl stop)
  | withArgs items ih =>
    change Between c stop (items.form.tree c.pos).span
    rw [show (items.form.tree c.pos).span = extent sk c stop from ih h c.pos]
    exact between_extent (Phrase.Spelt.skip_moves (l := .items) h (by decide)).advances

end Syntax

end ExpLang
