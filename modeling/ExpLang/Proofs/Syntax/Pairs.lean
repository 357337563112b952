import ExpLang.Proofs.Syntax.Spacing

/-!
# Nodes with twin values

Constructs are read off the nodes of an arena. `Paired` relates a node of one tree to a node of
another one whose value is a twin of its value, where the spans of the second tree are spread by a
space. Paired nodes have the same rule, their spans are spread, tokens have the same text, and what
they keep at a position is paired again.

`Follows` states that a reading has a result related to that of another reading wherever the other one
has a result. The first of the two trees comes with what is known of complete matches, which says what
stands at a position and that a position is of the right shape.
-/

namespace ExpLang.Syntax

/-! ## Readings that follow each other -/

section Follows

variable {α β γ δ : Type} {R : α → β → Prop} {S : γ → δ → Prop} {x : Except BindError α}
  {y : Except BindError β}

/-- Where one reading gives a result, another one gives a related result. -/
def Follows (R : α → β → Prop) (x : Except BindError α) (y : Except BindError β) : Prop :=
  ∀ a, x = .ok a → ∃ b, y = .ok b ∧ R a b

/-- Where one reading gives a result, another one gives the image of the result. -/
abbrev Carries (g : α → β) (x : Except BindError α) (y : Except BindError β) : Prop :=
  Follows (fun a b => b = g a) x y

namespace Follows

/-- Related results follow each other. -/
theorem ok {a : α} {b : β} (h : R a b) : Follows R (.ok a) (.ok b) := by
  intro a' ha
  cases ha
  exact ⟨b, rfl, h⟩

/-- Anything follows a reading that fails. -/
theorem error {e : BindError} : Follows R (.error e) y := nofun

/-- Readings one after the other follow if each does. -/
theorem bind {f : α → Except BindError γ} {g : β → Except BindError δ} (h : Follows R x y)
    (hfg : ∀ a b, R a b → Follows S (f a) (g b)) : Follows S (x >>= f) (y >>= g) := by
  intro c hc
  cases x with
  | error e => cases hc
  | ok a =>
    obtain ⟨b, rfl, hab⟩ := h a rfl
    exact hfg a b hab c hc

/-- Mapped readings follow if the maps relate what they are given. -/
theorem map {f : α → γ} {g : β → δ} (h : Follows R x y) (hfg : ∀ a b, R a b → S (f a) (g b)) :
    Follows S (f <$> x) (g <$> y) := by
  intro c hc
  cases x with
  | error e => cases hc
  | ok a =>
    obtain ⟨b, rfl, hab⟩ := h a rfl
    cases hc
    exact ⟨g b, rfl, hfg a b hab⟩

/-- Reading the members of two lists. -/
theorem mapM {P : α → β → Prop} {g : γ → δ} {f : α → Except BindError γ}
    {f' : β → Except BindError δ} {xs : List α} {ys : List β} (h : List.Forall₂ P xs ys)
    (hf : ∀ a b, P a b → Carries g (f a) (f' b)) :
    Carries (List.map g) (xs.mapM f) (ys.mapM f') := by
  induction h with
  | nil => exact .ok rfl
  | cons hab _ ih =>
    rw [List.mapM_cons, List.mapM_cons]
    refine (hf _ _ hab).bind ?_
    rintro c _ rfl
    refine ih.bind ?_
    rintro cs _ rfl
    exact .ok rfl

/-- Reading the members of two lists one after the other. -/
theorem foldlM {P : α → β → Prop} {g : γ → δ} {f : γ → α → Except BindError γ}
    {f' : δ → β → Except BindError δ} {xs : List α} {ys : List β} (h : List.Forall₂ P xs ys)
    (hf : ∀ c a b, P a b → Carries g (f c a) (f' (g c) b)) (init : γ) :
    Carries g (xs.foldlM f init) (ys.foldlM f' (g init)) := by
  induction h generalizing init with
  | nil => exact .ok rfl
  | cons hab _ ih =>
    rw [List.foldlM_cons, List.foldlM_cons]
    refine (hf init _ _ hab).bind ?_
    rintro c _ rfl
    exact ih c

end Follows

end Follows

/-- What holds of the pairs of two lists, where the first one is known to be a member. -/
theorem forall₂_imp_mem {α β : Type} {R S : α → β → Prop} {xs : List α} {ys : List β}
    (h : List.Forall₂ R xs ys) (hRS : ∀ a b, a ∈ xs → R a b → S a b) : List.Forall₂ S xs ys := by
  induction h with
  | nil => exact .nil
  | cons hab _ ih =>
    exact .cons (hRS _ _ List.mem_cons_self hab)
      (ih fun a b ha => hRS a b (List.mem_cons_of_mem _ ha))

/-! ## Paired nodes -/

/-- Two nodes have twin values. -/
def Linked (t t' : Tree Kind) (offset : Nat) (id id' : NodeId) : Prop :=
  ∃ u u', t.nodes.treeAt? id = some u ∧ t'.nodes.treeAt? id' = some u' ∧
    Twin (.spaced t.source t'.source offset) u u'

/-- A complete match of a matcher and a node with a twin of its value. -/
structure Paired (t t' : Tree Kind) (offset : Nat) (m : Matcher Kind) (id id' : NodeId) : Prop where
  made : t.Matches language m id
  linked : Linked t t' offset id id'

/-- What two nodes keep is related. -/
def PairedCapture (t t' : Tree Kind) (offset : Nat) (id id' : NodeId) (c c' : Capture) : Prop :=
  ∃ r r', c.resolve? (t.nodes.treeBelow? id) = some r ∧
    c'.resolve? (t'.nodes.treeBelow? id') = some r' ∧
    TreeCapture.Rel (Twin (.spaced t.source t'.source offset)) r r'

variable {t t' : Tree Kind} {offset : Nat} {id id' : NodeId} {k : Kind} {m : Matcher Kind}

/-- Linked nodes have related captures, one by one. -/
theorem Linked.captures (h : Linked t t' offset id id') :
    List.Forall₂ (PairedCapture t t' offset id id') (t.node id).captures (t'.node id').captures := by
  obtain ⟨u, u', hu, hu', htwin⟩ := h
  obtain ⟨-, -, hcaptures⟩ := Tree.node_of_treeAt? hu
  obtain ⟨-, -, hcaptures'⟩ := Tree.node_of_treeAt? hu'
  cases htwin with
  | mk _ _ _ hrel =>
    refine (forall₂_join (forall₂_join hcaptures hrel.flip) hcaptures').imp ?_
    rintro c c' ⟨r', hc', r, hrel, hc⟩
    exact ⟨r, r', hc, hc', hrel⟩

/-- Linked nodes are of the same kind. -/
theorem Linked.kind_eq (h : Linked t t' offset id id') : (t'.node id').kind = (t.node id).kind := by
  obtain ⟨u, u', hu, hu', htwin⟩ := h
  rw [(Tree.node_of_treeAt? hu).1, (Tree.node_of_treeAt? hu').1, htwin.kind_eq]

/-- Spans are spread where there is text, and texts without parts stay. -/
theorem Linked.span_eq (h : Linked t t' offset id id')
    (hlt : (spanOf t id).start < (spanOf t id).stop) :
    spanOf t' id' = (spanOf t id).spread offset ∧
      ((t.node id).captures = [] → t'.text id' = t.text id) := by
  obtain ⟨u, u', hu, hu', htwin⟩ := h
  obtain ⟨-, hspan, hcaptures⟩ := Tree.node_of_treeAt? hu
  obtain ⟨-, hspan', -⟩ := Tree.node_of_treeAt? hu'
  cases htwin with
  | mk _ _ hspans _ =>
    rw [spanOf, hspan] at hlt
    obtain ⟨hshifted, hsame⟩ := hspans hlt
    refine ⟨by rw [spanOf, spanOf, hspan, hspan']; exact hshifted, fun hnil => ?_⟩
    rw [hnil, List.forall₂_nil_left_iff] at hcaptures
    obtain ⟨-, hslice⟩ := hsame hcaptures
    rw [Tree.text, Tree.text, hspan, hspan', Source.slice, Source.slice, hslice]

/-- Tokens and most rules have text. -/
theorem Linked.lt (h : Linked t t' offset id id') (htext : hasText (t.node id).kind = true) :
    (spanOf t id).start < (spanOf t id).stop := by
  obtain ⟨u, u', hu, hu', htwin⟩ := h
  obtain ⟨hkind, hspan, -⟩ := Tree.node_of_treeAt? hu
  cases htwin with
  | mk _ hlt _ _ =>
    rw [spanOf, hspan]
    exact hlt (hkind ▸ htext)

namespace Paired

/-- Paired nodes name the same rule. -/
theorem ruleOf_eq (h : Paired t t' offset (.rule k) id id') : ruleOf t' id' = some k := by
  rw [ruleOf, h.linked.kind_eq]
  exact Made.ruleOf_eq h.made

/-- The spans of paired nodes of a rule. -/
theorem spanOf_eq (h : Paired t t' offset (.rule k) id id')
    (hk : hasText (.rule k) = true) : spanOf t' id' = (spanOf t id).spread offset := by
  have hkind := (Made.kind_and_shaped h.made).1
  exact (h.linked.span_eq (h.linked.lt (hkind ▸ hk))).1

/-- The texts of paired nodes of a rule without parts. -/
theorem text_eq (h : Paired t t' offset (.rule k) id id') (hkept : kept k = [])
    (hk : hasText (.rule k) = true) : t'.text id' = t.text id := by
  obtain ⟨hkind, hshaped⟩ := Made.kind_and_shaped h.made
  rw [hkept, Tree.Shaped, List.forall₂_nil_left_iff] at hshaped
  exact (h.linked.span_eq (h.linked.lt (hkind ▸ hk))).2 hshaped

end Paired

namespace PairedCapture

variable {c' : Capture}

/-- A capture related to a missing part is a missing part. -/
theorem missing (h : PairedCapture t t' offset id id' (.node none) c') : c' = .node none := by
  obtain ⟨r, r', hr, hr', hrel⟩ := h
  cases hr
  cases hrel
  cases c' with
  | list elements separators => simp [Capture.resolve?, Option.bind_eq_some_iff] at hr'
  | node part =>
    cases part with
    | none => rfl
    | some part => simp [Capture.resolve?] at hr'

/-- A capture related to a part is a part linked to it. -/
theorem part {part : NodeId} (h : PairedCapture t t' offset id id' (.node (some part)) c') :
    ∃ part' < id', c' = .node (some part') ∧ Linked t t' offset part part' := by
  obtain ⟨r, r', hr, hr', hrel⟩ := h
  obtain ⟨u, hu, rfl⟩ := Option.map_eq_some_iff.1 hr
  cases hrel with
  | @part _ u' htwin =>
    obtain ⟨part', hlt, rfl, hu'⟩ := Tree.resolve?_part hr'
    exact ⟨part', hlt, rfl, u, u', (Arena.treeBelow?_eq_some hu).2, hu', htwin⟩

/-- A capture related to a list is a list linked to it, element by element. -/
theorem list {elements separators : List NodeId}
    (h : PairedCapture t t' offset id id' (.list elements separators) c') :
    ∃ elements' separators', c' = .list elements' separators' ∧
      List.Forall₂ (fun e e' => e' < id' ∧ Linked t t' offset e e') elements elements' ∧
      List.Forall₂ (fun e e' => e' < id' ∧ Linked t t' offset e e') separators separators' := by
  obtain ⟨r, r', hr, hr', hrel⟩ := h
  simp only [Capture.resolve?, Option.bind_eq_bind, Option.bind_eq_some_iff, Option.pure_def,
    Option.some.injEq] at hr
  obtain ⟨es, hes, ss, hss, rfl⟩ := hr
  -- Each node has a value, and the values on both sides are twins.
  have hpairs {xs xs' : List NodeId} {us us' : List (ParseTree Kind)}
      (hx : xs.mapM (t.nodes.treeBelow? id) = some us)
      (hx' : xs'.mapM (t'.nodes.treeBelow? id') = some us')
      (hu : List.Forall₂ (Twin (.spaced t.source t'.source offset)) us us') :
      List.Forall₂ (fun e e' => e' < id' ∧ Linked t t' offset e e') xs xs' := by
    rw [mapM_eq_some_iff_forall₂] at hx hx'
    refine (forall₂_join (forall₂_join hx hu.flip) hx').imp ?_
    rintro e e' ⟨u', he', u, htwin, he⟩
    obtain ⟨-, he⟩ := Arena.treeBelow?_eq_some he
    obtain ⟨hlt, he'⟩ := Arena.treeBelow?_eq_some he'
    exact ⟨hlt, u, u', he, he', htwin⟩
  cases hrel with
  | list hes' hss' =>
    cases c' with
    | node part => cases part <;> simp [Capture.resolve?] at hr'
    | list elements' separators' =>
      simp only [Capture.resolve?, Option.bind_eq_bind, Option.bind_eq_some_iff, Option.pure_def,
        Option.some.injEq, TreeCapture.list.injEq] at hr'
      obtain ⟨_, hes'', _, hss'', rfl, rfl⟩ := hr'
      exact ⟨elements', separators', rfl, hpairs hes hes'' hes', hpairs hss hss'' hss'⟩

end PairedCapture

/-! ## What paired nodes keep at a position -/

namespace Paired

variable {i : Nat} {name : Kind}

/-- What stands at a position of paired nodes. -/
theorem getElem? (h : Paired t t' offset (.rule k) id id') (hi : (kept k)[i]? = some m) :
    ∃ c c', (t.node id).captures[i]? = some c ∧ (t'.node id').captures[i]? = some c' ∧
      t.Keeps language id m c ∧ PairedCapture t t' offset id id' c c' := by
  obtain ⟨c, hc, hkeeps⟩ := forall₂_getElem? (Made.keeps h.made) hi
  obtain ⟨c', hc', hpaired⟩ := forall₂_getElem? h.linked.captures hc
  exact ⟨c, c', hc, hc', hkeeps, hpaired⟩

/-- Paired nodes have the same number of captures. -/
theorem expectCaptures (h : Paired t t' offset (.rule k) id id') (count : Nat) :
    Follows (fun _ _ => True) (t.expectCaptures id count) (t'.expectCaptures id' count) := by
  have hlength := h.linked.captures.length_eq
  unfold Tree.expectCaptures
  dsimp only
  rw [hlength]
  split
  · exact .ok trivial
  · exact .error

/-- A part that has to be there. -/
theorem required (h : Paired t t' offset (.rule k) id id') (hi : (kept k)[i]? = some (.rule name)) :
    Follows (fun part part' => part' < id' ∧ Paired t t' offset (.rule name) part part')
      (t.required id i) (t'.required id' i) := by
  obtain ⟨c, c', hc, hc', hkeeps, hpaired⟩ := h.getElem? hi
  obtain ⟨part, -, rfl, hmade⟩ := hkeeps.of_rule
  obtain ⟨part', hlt, rfl, hlinked⟩ := hpaired.part
  rw [Tree.required, Tree.required, hc, hc']
  exact .ok ⟨hlt, hmade, hlinked⟩

/-- A choice between rules. -/
theorem required_choice (names : List Kind) (h : Paired t t' offset (.rule k) id id')
    (hi : (kept k)[i]? = some (.any (names.map .rule))) :
    Follows (fun part part' => part' < id' ∧ ∃ name ∈ names, Paired t t' offset (.rule name) part part')
      (t.required id i) (t'.required id' i) := by
  obtain ⟨c, c', hc, hc', hkeeps, hpaired⟩ := h.getElem? hi
  obtain ⟨m, hm, hkeeps⟩ := hkeeps.of_any
  obtain ⟨name, hname, rfl⟩ := List.mem_map.1 hm
  obtain ⟨part, -, rfl, hmade⟩ := hkeeps.of_rule
  obtain ⟨part', hlt, rfl, hlinked⟩ := hpaired.part
  rw [Tree.required, Tree.required, hc, hc']
  exact .ok ⟨hlt, name, hname, hmade, hlinked⟩

/-- A token that has to be there has the same text. -/
theorem required_literals {set : Literals} (h : Paired t t' offset (.rule k) id id')
    (hi : (kept k)[i]? = some (.literals set)) :
    Follows (fun part part' => t'.text part' = t.text part) (t.required id i) (t'.required id' i) := by
  obtain ⟨c, c', hc, hc', ⟨u, hu, hfits⟩, hpaired⟩ := h.getElem? hi
  cases hfits with
  | literals =>
    obtain ⟨part, -, rfl, htree⟩ := Tree.resolve?_part hu
    obtain ⟨part', -, rfl, hlinked⟩ := hpaired.part
    obtain ⟨hkind, -, hcaptures⟩ := Tree.node_of_treeAt? htree
    have htext : hasText (t.node part).kind = true := by
      rw [hkind]
      rfl
    rw [Tree.required, Tree.required, hc, hc']
    refine .ok ((hlinked.span_eq (hlinked.lt htext)).2 ?_)
    exact List.forall₂_nil_right_iff.1 hcaptures

/-- A part that may be missing. -/
theorem optional (h : Paired t t' offset (.rule k) id id')
    (hi : (kept k)[i]? = some (.optional (.rule name))) :
    Follows (Option.Rel fun part part' => part' < id' ∧ Paired t t' offset (.rule name) part part')
      (t.optional id i) (t'.optional id' i) := by
  obtain ⟨c, c', hc, hc', hkeeps, hpaired⟩ := h.getElem? hi
  rw [Tree.optional, Tree.optional, hc, hc']
  rcases hkeeps.of_optional with rfl | hkeeps
  · rw [hpaired.missing]
    exact .ok .none
  · obtain ⟨part, -, rfl, hmade⟩ := hkeeps.of_rule
    obtain ⟨part', hlt, rfl, hlinked⟩ := hpaired.part
    exact .ok (.some ⟨hlt, hmade, hlinked⟩)

/-- A token that may be missing. -/
theorem optional_token (h : Paired t t' offset (.rule k) id id')
    (hi : (kept k)[i]? = some (.optional m)) (hm : m.isToken = true) :
    Follows (fun part part' => part'.isSome = part.isSome) (t.optional id i) (t'.optional id' i) := by
  obtain ⟨c, c', hc, hc', hkeeps, hpaired⟩ := h.getElem? hi
  rw [Tree.optional, Tree.optional, hc, hc']
  rcases hkeeps.of_optional with rfl | hkeeps
  · rw [hpaired.missing]
    exact .ok rfl
  · obtain ⟨part, -, rfl⟩ := hkeeps.of_token hm
    obtain ⟨part', -, rfl, -⟩ := hpaired.part
    exact .ok rfl

/-- The items of a list. -/
theorem items {element : Matcher Kind} {separator : Option (Matcher Kind)} {least : Nat}
    (h : Paired t t' offset (.rule k) id id')
    (hi : (kept k)[i]? = some (.list element separator least)) :
    Follows (fun xs xs' =>
        List.Forall₂ (fun e e' => e' < id' ∧ Paired t t' offset element e e') xs.1 xs'.1 ∧
        List.Forall₂ (fun e e' => ∀ m, separator = some m → Paired t t' offset m e e') xs.2 xs'.2)
      (t.items id i) (t'.items id' i) := by
  obtain ⟨c, c', hc, hc', hkeeps, hpaired⟩ := h.getElem? hi
  obtain ⟨⟨elements, separators⟩, rfl, hitems⟩ := hkeeps.of_list
  obtain ⟨elements', separators', rfl, helements, hseparators⟩ := hpaired.list
  rw [Tree.items, Tree.items, hc, hc']
  refine .ok ⟨?_, ?_⟩
  · refine forall₂_imp_mem helements fun e e' he hlinked => ?_
    exact ⟨hlinked.1, (hitems.elements e he).2, hlinked.2⟩
  · refine forall₂_imp_mem hseparators fun e e' he hlinked m hm => ?_
    exact ⟨hitems.separators e he m hm, hlinked.2⟩

end Paired

end ExpLang.Syntax
