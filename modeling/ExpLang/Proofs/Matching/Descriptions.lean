import ExpLang.Proofs.Acyclic
import ExpLang.Proofs.Matching.Provenance
import ExpLang.Proofs.Matching.Validation
import Mathlib.Algebra.BigOperators.Group.Finset.Basic

/-!
# Descriptions of matchers

What a matcher expects is told by a recursion along `Grammar.asks`: into the first item of a sequence,
into every alternative, into what a placeholder stands for. It stops at rules and at a placeholder that
stands for another placeholder. Other circles through placeholders are not looked for: a placeholder
that comes back to itself through an optional part has no description, and a draft with such a
placeholder is accepted.

A description ends exactly where no placeholder on its way comes back to itself. Then the depth that
`Grammar.describe?` allows is enough, since on a way into the description each placeholder is entered
once and everything else goes into a smaller matcher. The text of every hole is the description of a
matcher of the grammar, so in a grammar without such circles every hole has its text.
-/

namespace ExpLang

open Relation (TransGen ReflTransGen)

variable {κ : Type}

namespace Matcher

/-- Every matcher has a positive size. -/
theorem size_pos (m : Matcher κ) : 0 < m.size := by
  cases m <;> simp only [size] <;> omega

/-- A matcher of a list is no larger than the list. -/
theorem size_le_sizeAll {items : List (Matcher κ)} {m : Matcher κ} (h : m ∈ items) :
    m.size ≤ sizeAll items := by
  induction items with
  | nil => cases h
  | cons item rest ih =>
    rw [sizeAll]
    rcases List.mem_cons.1 h with rfl | h
    · exact Nat.le_add_right _ _
    · exact (ih h).trans (Nat.le_add_left _ _)

/-- The size of some matchers as a sum over their numbers. -/
theorem sum_sizeOption (items : List (Matcher κ)) :
    ∑ i ∈ Finset.range items.length, sizeOption items[i]? = sizeAll items := by
  induction items with
  | nil => rfl
  | cons item rest ih =>
    rw [List.length_cons, Finset.sum_range_succ', sizeAll]
    simp only [List.getElem?_cons_succ, List.getElem?_cons_zero, ih, sizeOption, Nat.add_comm]

end Matcher

namespace Grammar

variable {g : Grammar κ} {m m' : Matcher κ} {depth index : Nat}

/-- The matchers from whose descriptions the description of a matcher is made. -/
def asks (g : Grammar κ) : Matcher κ → List (Matcher κ)
  | .seq items => (items.find? fun item => !item.isSure).toList
  | .any alternatives => alternatives
  | .list element _ _ => [element]
  | .optional body | .skip _ body => [body]
  | .ref index => match g.refs[index]? with
    | some (.ref _) | none => []
    | some target => [target]
  | _ => []

/-- The description of a matcher is made from that of another one. -/
def Asks (g : Grammar κ) (m m' : Matcher κ) : Prop := m' ∈ g.asks m

/-- A placeholder leads to what it stands for, everything else to a smaller matcher. -/
theorem Asks.cases (h : g.Asks m m') :
    (∃ index, m = .ref index ∧ g.refs[index]? = some m') ∨ m'.size < m.size := by
  unfold Asks asks at h
  split at h
  · right
    have hle := Matcher.size_le_sizeAll (List.mem_of_find?_eq_some (Option.mem_toList.1 h))
    rw [Matcher.size]
    omega
  · right
    have hle := Matcher.size_le_sizeAll h
    rw [Matcher.size]
    omega
  · right
    rw [List.mem_singleton.1 h, Matcher.size]
    omega
  · right
    rw [List.mem_singleton.1 h, Matcher.size]
    omega
  · right
    rw [List.mem_singleton.1 h, Matcher.size]
    omega
  · left
    rename_i index
    split at h
    · cases h
    · cases h
    · rename_i target _ htarget
      exact ⟨index, rfl, List.mem_singleton.1 h ▸ htarget⟩
  · cases h

/-- No placeholder on the way into a description comes back to itself. -/
def Describable (g : Grammar κ) (m : Matcher κ) : Prop :=
  ∀ index, ReflTransGen g.Asks m (.ref index) → ¬ TransGen g.Asks (.ref index) (.ref index)

/-- Where the way into a description ends, nothing on it comes back to itself. -/
theorem describable_of_acc (h : Acc (fun a b => g.Asks b a) m) : g.Describable m := by
  intro index hpath hcircle
  have hends : ∀ m', ReflTransGen g.Asks m m' → Acc (fun a b => g.Asks b a) m' := by
    intro m' hpath
    induction hpath with
    | refl => exact h
    | tail _ hstep ih => exact ih.inv hstep
  exact not_transGen_of_acc (hends _ hpath) (Relation.transGen_swap.1 hcircle)

variable [RuleName κ]

/-- A description succeeds where those that it is made from do. -/
theorem isSome_describeWithin_succ : (g.describeWithin (depth + 1) m).isSome = true ↔
    ∀ m', g.Asks m m' → (g.describeWithin depth m').isSome = true := by
  unfold Asks
  cases m with
  | literal | literals | pattern | rule | sure => simp [describeWithin, asks]
  | seq items =>
    rw [describeWithin, asks]
    cases items.find? fun item => !item.isSure <;> simp
  | any alternatives =>
    rw [describeWithin, asks, Option.isSome_map]
    exact isSome_mapM_iff
  | list | optional | skip => simp [describeWithin, asks]
  | ref index =>
    rw [describeWithin, asks]
    split <;> simp_all

/-- A description stays the same at greater depths. -/
theorem describeWithin_succ {text : String} (h : g.describeWithin depth m = some text) :
    g.describeWithin (depth + 1) m = some text := by
  induction depth generalizing m text with
  | zero => cases h
  | succ depth ih =>
    cases m with
    | literal | literals | pattern | rule | sure => exact h
    | seq items =>
      rw [describeWithin] at h ⊢
      split at h
      · exact h
      · exact ih h
    | any alternatives =>
      rw [describeWithin] at h ⊢
      obtain ⟨texts, htexts, rfl⟩ := Option.map_eq_some_iff.1 h
      have hmore : alternatives.mapM (g.describeWithin (depth + 1)) = some texts :=
        mapM_eq_some_iff_forall₂.2 ((mapM_eq_some_iff_forall₂.1 htexts).imp fun _ _ h => ih h)
      rw [hmore]
      rfl
    | list | optional | skip =>
      rw [describeWithin] at h ⊢
      exact ih h
    | ref index =>
      rw [describeWithin] at h ⊢
      split at h
      · exact h
      · exact h
      · exact ih h

/-- A description found to a depth is found to a larger depth. -/
theorem describeWithin_mono {text : String} (h : g.describeWithin depth m = some text)
    {depth' : Nat} (hle : depth ≤ depth') : g.describeWithin depth' m = some text := by
  induction depth', hle using Nat.le_induction with
  | base => exact h
  | succ _ _ ih => exact describeWithin_succ ih

/-! ## Where descriptions end -/

/-- Along a description that succeeds the depths fall. -/
theorem acc_of_describeWithin (h : (g.describeWithin depth m).isSome = true) :
    Acc (fun a b => g.Asks b a) m :=
  acc_of_isSome (fun _ => rfl) (fun _ _ => isSome_describeWithin_succ) h

/-- The sizes of all that a description can come to are enough, if those of the placeholders are
counted that it can still come to. -/
theorem Describable.isSome_describeWithin (h : g.Describable m) (left : Finset Nat)
    (hleft : ∀ index, ReflTransGen g.Asks m (.ref index) → index < g.refs.length → index ∈ left)
    (hdepth : m.size + ∑ i ∈ left, Matcher.sizeOption g.refs[i]? ≤ depth) :
    (g.describeWithin depth m).isSome = true := by
  induction depth generalizing m left with
  | zero =>
    have hpos := m.size_pos
    omega
  | succ depth ih =>
    refine isSome_describeWithin_succ.2 fun m' hm' => ?_
    have hpath {index : Nat} (h : ReflTransGen g.Asks m' (.ref index)) :
        ReflTransGen g.Asks m (.ref index) := .head hm' h
    rcases hm'.cases with ⟨entered, rfl, htarget⟩ | hlt
    · -- the placeholder that is entered here is not come to again
      have hentered := hleft entered .refl (List.getElem?_eq_some_iff.1 htarget).1
      refine ih (fun index hindex => h index (hpath hindex)) (left.erase entered)
        (fun index hindex hlt => ?_) ?_
      · refine Finset.mem_erase.2 ⟨?_, hleft index (hpath hindex) hlt⟩
        rintro rfl
        exact h index .refl (.head' hm' hindex)
      · rw [← Finset.add_sum_erase left _ hentered, htarget, Matcher.sizeOption] at hdepth
        have hpos := (Matcher.ref entered : Matcher κ).size_pos
        omega
    · refine ih (fun index hindex => h index (hpath hindex)) left
        (fun index hindex => hleft index (hpath hindex)) ?_
      omega

/-- The depth that a description is given is enough where no placeholder comes back to itself. -/
theorem Describable.isSome_describe? (h : g.Describable m) : (g.describe? m).isSome = true := by
  refine h.isSome_describeWithin (Finset.range g.refs.length)
    (fun index _ hlt => Finset.mem_range.2 hlt) ?_
  rw [Matcher.sum_sizeOption, describeDepth]
  omega

/-- A description that ends at some depth is the one that reports give. -/
theorem describe_eq_of_describeWithin {text : String} (h : g.describeWithin depth m = some text) :
    g.describe m = text := by
  have hends := (describable_of_acc (acc_of_describeWithin (Option.isSome_of_eq_some h))).isSome_describe?
  obtain ⟨text', htext'⟩ := Option.isSome_iff_exists.1 hends
  have hle := describeWithin_mono h (le_max_left depth (g.describeDepth m))
  have hle' := describeWithin_mono htext' (le_max_right depth (g.describeDepth m))
  rw [describe, htext', Option.getD_some]
  exact Option.some.inj (hle'.symm.trans hle)

/-- A description ends exactly where no placeholder on its way comes back to itself. -/
theorem exists_describeWithin_iff :
    (∃ depth text, g.describeWithin depth m = some text) ↔ g.Describable m := by
  constructor
  · rintro ⟨depth, text, htext⟩
    exact describable_of_acc (acc_of_describeWithin (Option.isSome_of_eq_some htext))
  · intro h
    obtain ⟨text, htext⟩ := Option.isSome_iff_exists.1 h.isSome_describe?
    exact ⟨_, text, htext⟩

/-! ## The texts of holes -/

/-- The text of a hole is the description of a matcher of a grammar. -/
def Names [DecidableEq κ] (g : Grammar κ) (hole : Hole) : Prop :=
  ∃ item, g.Reaches item ∧ hole.what = g.describe item

/-- If what a matcher of a grammar finds has a hole, the text of the hole is a description. -/
def HoleRel [DecidableEq κ] (g : Grammar κ) (_ : Skipper) : MatchRel κ := fun m _ o =>
  g.Reaches m → ∀ t, o.found = some t → ∀ hole, t.hole = some hole → g.Names hole

section Constructs

variable [DecidableEq κ] {sk : Skipper} {c : Cursor} {hole : Hole}

/-- A sequence stops at an item that does not apply, or in one with a hole. -/
theorem names_items {committed : Bool} {items : List (Matcher κ)} {r : SeqOutcome κ}
    (h : ItemsRel g.describe sk (g.HoleRel sk) committed items c r)
    (hitems : ∀ item ∈ items, g.Reaches item) {parts : List (ParseTree κ × Bool)} {stop : Cursor}
    (hr : r = .ended parts (some hole) stop) : g.Names hole := by
  induction h generalizing parts with
  | done | refused => cases hr
  | cut _ _ ih => exact ih (fun item hitem => hitems item (List.mem_cons_of_mem _ hitem)) hr
  | @stuck item =>
    cases hr
    exact ⟨item, hitems item List.mem_cons_self, rfl⟩
  | inside _ hitem hhole =>
    cases hr
    exact hitem (hitems _ List.mem_cons_self) _ rfl _ hhole
  | @next _ _ _ _ _ _ r _ _ _ _ ih =>
    cases r with
    | refused => cases hr
    | ended rest hole' stop' =>
      cases hr
      exact ih (fun item hitem => hitems item (List.mem_cons_of_mem _ hitem)) rfl

/-- The hole of the node of a sequence. -/
theorem names_outcome {items : List (Matcher κ)} {r : SeqOutcome κ}
    (h : ItemsRel g.describe sk (g.HoleRel sk) false items c r)
    (hitems : ∀ item ∈ items, g.Reaches item) (kind : NodeKind κ) (t : ParseTree κ)
    (ht : (r.outcome kind c).found = some t) (hole : Hole) (hhole : t.hole = some hole) :
    g.Names hole := by
  cases r with
  | refused => cases ht
  | ended parts ended stop =>
    cases ht
    obtain rfl : ended = some hole := hhole
    exact names_items h hitems rfl

/-- A choice names what stands at its hole. -/
theorem names_choice {alternatives : List (Matcher κ)} {o : Outcome κ}
    (h : ChoiceRel (g.HoleRel sk) c alternatives o)
    (halternatives : ∀ m ∈ alternatives, g.Reaches m) (t : ParseTree κ) (ht : o.found = some t)
    (hhole : t.hole = some hole) : g.Names hole := by
  rcases h.chosen with rfl | ⟨m, hmem, hm⟩
  · cases ht
  · exact hm (halternatives m hmem) t ht hole hhole

/-- A list stops in a separator or in an element with a hole. -/
theorem names_elements {element : Matcher κ} {separator : Option (Matcher κ)} {first : Bool}
    {r : ListOutcome κ} (h : ElementsRel (g.HoleRel sk) element separator first c r)
    (helement : g.Reaches element) (hseparator : ∀ m ∈ separator, g.Reaches m)
    (hhole : r.hole = some hole) : g.Names hole := by
  induction h with
  | unseparated | ended => cases hhole
  | stuck hsep hm hstuck =>
    cases hhole
    exact hm (hseparator _ hsep) _ rfl _ hstuck
  | @last _ _ _ _ t _ _ ht _ =>
    rw [ListOutcome.separator_hole, ListOutcome.element_hole] at hhole
    exact ht helement t rfl hole hhole
  | more _ _ _ _ ih =>
    rw [ListOutcome.separator_hole, ListOutcome.element_hole] at hhole
    exact ih hhole

/-- Holes are made where an item of a sequence does not apply, and kept everywhere else. -/
theorem closed_holeRel (g : Grammar κ) : g.Closed g.HoleRel := by
  intro sk m c o h hm t ht hole hhole
  cases h with
  | literal | literals | pattern =>
    unfold Outcome.token at ht
    split at ht
    · cases ht
    · cases ht
      cases hhole
  | seq hitems => exact names_outcome hitems (fun _ hitem => hm.part hitem) _ t ht hole hhole
  | any hchoice => exact names_choice hchoice (fun _ hmem => hm.part hmem) t ht hhole
  | list helements =>
    unfold ListOutcome.outcome at ht
    split at ht
    · cases ht
    · cases ht
      exact names_elements helements (hm.part List.mem_cons_self)
        (fun _ hmem => hm.part (List.mem_cons_of_mem _ (Option.mem_toList.2 hmem))) hhole
  | optional hbody =>
    unfold Outcome.orMissing at ht
    split at ht
    · cases ht
      cases hhole
    · exact hbody (hm.part (List.mem_singleton_self _)) t ht hole hhole
  | undefined | unset => cases ht
  | ruleSeq hrule hbody hitems =>
    have hseq := Reaches.body hrule
    rw [hbody] at hseq
    exact names_outcome hitems (fun _ hitem => hseq.part hitem) _ t ht hole hhole
  | rule hrule _ hrel =>
    obtain ⟨u, hu, rfl⟩ := Option.map_eq_some_iff.1 ht
    exact hrel (.body hrule) u hu hole hhole
  | ref href htarget => exact htarget (.target href) t ht hole hhole
  | sure =>
    cases ht
    cases hhole
  | skip hbody => exact hbody (hm.part (List.mem_singleton_self _)) t ht hole hhole

/-- The hole that a run answers with is named by a matcher of the grammar. -/
theorem run_names {s : MatchState κ} {part : Match κ} (hm : g.Reaches m)
    (hfound : (g.run m s).2 = some part) (hhole : part.node.hole = some hole) : g.Names hole := by
  obtain ⟨o, hanswers, hrel⟩ := run_answers (closed_holeRel g) m s
  have hrefusal : AllowsRefusal g.HoleRel := fun _ _ _ _ _ ht => nomatch ht
  obtain ⟨t, ht, hground⟩ := hanswers.found part hfound
  exact hrel (fun _ => hrefusal) hm t ht hole (hground.fields.2.2.trans hhole)

/-- The description of a matcher ends exactly where no placeholder on the way into it comes back to
itself, and then it is the one that reports give. Where no placeholder of a grammar comes back to
itself, whatever stops a committed match is reported with a description that ends. -/
theorem descriptions_end (g : Grammar κ) :
    (∀ m, ((∃ depth text, g.describeWithin depth m = some text) ↔ g.Describable m) ∧
      ∀ depth text, g.describeWithin depth m = some text → g.describe m = text) ∧
    ((∀ index, ¬ TransGen g.Asks (.ref index) (.ref index)) →
      ∀ m (s : MatchState κ) part hole, g.Reaches m → (g.run m s).2 = some part →
        part.node.hole = some hole →
        ∃ item depth, g.Reaches item ∧ g.describeWithin depth item = some hole.what) := by
  refine ⟨fun m => ⟨exists_describeWithin_iff, fun depth text => describe_eq_of_describeWithin⟩,
    fun hcircles m s part hole hm hfound hhole => ?_⟩
  obtain ⟨item, hitem, hwhat⟩ := run_names hm hfound hhole
  have hdescribable : g.Describable item := fun index _ => hcircles index
  obtain ⟨depth, text, htext⟩ := exists_describeWithin_iff.2 hdescribable
  refine ⟨item, depth, hitem, ?_⟩
  rw [htext, hwhat, describe_eq_of_describeWithin htext]

end Constructs

end Grammar

/-- A sign commits to a number or to what stands in parentheses. -/
def signedGrammar : Grammar String where
  rules := [("Signed", ⟨1, .seq [.lit "-", .sure, .ref 0]⟩)]
  refs := [.any [.lit "1", .seq [.lit "(", .ref 0, .lit ")"]]]

/-- The placeholder comes back to itself behind a parenthesis only. It has a description, and so has
what is missing after a sign. -/
theorem descriptions_end_signed :
    (∃ text, signedGrammar.describe (.ref 0) = text ∧
      signedGrammar.describeWithin 4 (.ref 0) = some text) ∧
    ∃ part hole item depth,
      (signedGrammar.run (.rule "Signed") { cursor := ⟨0, "- x".toList⟩, budget := 20 }).2 = some part ∧
      part.node.hole = some hole ∧ signedGrammar.describeWithin depth item = some hole.what := by
  obtain ⟨hends, hholes⟩ := signedGrammar.descriptions_end
  have hsome : (signedGrammar.describeWithin 4 (.ref 0)).isSome = true := rfl
  obtain ⟨text, htext⟩ := Option.isSome_iff_exists.1 hsome
  refine ⟨⟨text, (hends (.ref 0)).2 4 text htext, htext⟩, ?_⟩
  have hcircles : ∀ index, ¬ TransGen signedGrammar.Asks (.ref index) (.ref index) := by
    intro index
    refine (hends (.ref index)).1.1 ?_ index .refl
    cases index with
    | zero => exact ⟨4, text, htext⟩
    | succ index => exact ⟨1, "input", rfl⟩
  have hhole : ((signedGrammar.run (.rule "Signed")
      { cursor := ⟨0, "- x".toList⟩, budget := 20 }).2.any fun part => part.node.hole.isSome) = true := by
    decide
  obtain ⟨part, hpart, hsome⟩ := Option.any_eq_true _ _ |>.1 hhole
  obtain ⟨hole, hhole⟩ := Option.isSome_iff_exists.1 hsome
  obtain ⟨item, depth, -, hitem⟩ := hholes hcircles _ _ part hole (.start "Signed") hpart hhole
  exact ⟨part, hole, item, depth, hpart, hhole, hitem⟩

/-- A placeholder that stands for itself or for nothing. -/
def selfOptionalDraft : GrammarDraft String where
  refs := [some (.optional (.ref 0))]

/-- The draft is accepted, and the description of its placeholder never ends. -/
theorem describeWithin_selfOptional :
    ∃ g, selfOptionalDraft.build = .ok g ∧ ∀ depth, g.describeWithin depth (.ref 0) = none := by
  refine ⟨⟨[], [.optional (.ref 0)]⟩, rfl, fun depth => ?_⟩
  rw [Option.eq_none_iff_forall_ne_some]
  intro text htext
  refine Grammar.exists_describeWithin_iff.1 ⟨depth, text, htext⟩ 0 .refl ?_
  exact .tail (.single (List.mem_singleton_self (Matcher.optional (.ref 0)))) (List.mem_singleton_self _)

end ExpLang
