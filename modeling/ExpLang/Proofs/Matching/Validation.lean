import ExpLang.Proofs.Matching.Provenance
import Mathlib.Logic.Relation

/-!
# What the check of a draft is good for

A draft whose placeholders are its own and that `GrammarDraft.build` accepts gives a grammar in which
every name leads somewhere and every rule declares the captures that its body makes. Then a run that
starts from a rule never gets to the two places where the engine has no rule or no placeholder to go
on with: an engine that does anything else there does the same on every run. And the nodes that such
a run leaves are as the declarations say: the node of a rule has the declared number of captures, and
the node of a list has its least number of elements and the separators between them, unless their
match stopped at a hole.
-/

namespace ExpLang

variable {κ : Type}

namespace Matcher

mutual

/-- The placeholders that a matcher uses, in the order in which they stand. -/
def placeholders : Matcher κ → List Nat
  | seq items => placeholdersAll items
  | any alternatives => placeholdersAll alternatives
  | list element separator _ => element.placeholders ++ placeholdersOption separator
  | optional body | skip _ body => body.placeholders
  | ref index => [index]
  | _ => []

/-- The placeholders that the matchers of a list use. -/
def placeholdersAll : List (Matcher κ) → List Nat
  | [] => []
  | m :: rest => m.placeholders ++ placeholdersAll rest

/-- The placeholders that a matcher uses which may be missing. -/
def placeholdersOption : Option (Matcher κ) → List Nat
  | none => []
  | some m => m.placeholders

end

/-- The rules named in one matcher of a list are named in the list. -/
theorem rules_subset_rulesAll {items : List (Matcher κ)} {m : Matcher κ} (h : m ∈ items) :
    m.rules ⊆ rulesAll items := by
  induction items with
  | nil => cases h
  | cons head rest ih =>
    rw [rulesAll]
    rcases List.mem_cons.1 h with rfl | h
    · exact List.subset_append_left _ _
    · exact List.Subset.trans (ih h) (List.subset_append_right _ _)

/-- The placeholders of one matcher of a list are those of the list. -/
theorem placeholders_subset_placeholdersAll {items : List (Matcher κ)} {m : Matcher κ}
    (h : m ∈ items) : m.placeholders ⊆ placeholdersAll items := by
  induction items with
  | nil => cases h
  | cons head rest ih =>
    rw [placeholdersAll]
    rcases List.mem_cons.1 h with rfl | h
    · exact List.subset_append_left _ _
    · exact List.Subset.trans (ih h) (List.subset_append_right _ _)

end Matcher

/-- Every placeholder that a draft uses is one that it has. -/
def GrammarDraft.OwnsPlaceholders (d : GrammarDraft κ) : Prop :=
  ∀ i ∈ d.rules.flatMap (·.2.body.placeholders) ++ d.refs.flatMap Matcher.placeholdersOption,
    i < d.refs.length

namespace Grammar

variable [DecidableEq κ] {g : Grammar κ}

/-- Every rule and every placeholder that a matcher names is there. -/
structure Knows (g : Grammar κ) (m : Matcher κ) : Prop where
  rules : ∀ name ∈ m.rules, (g.rule? name).isSome
  placeholders : ∀ i ∈ m.placeholders, (g.refs[i]?).isSome

/-- Every rule makes the captures that it declares, and all names lead somewhere. -/
structure Sound (g : Grammar κ) : Prop where
  arity : ∀ name rule, g.rule? name = some rule → rule.body.arity = rule.arity
  rules : ∀ name rule, g.rule? name = some rule → g.Knows rule.body
  placeholders : ∀ (i : Nat) target, g.refs[i]? = some target → g.Knows target

namespace Knows

variable {m : Matcher κ}

/-- A grammar that knows a sequence knows its items. -/
theorem item {items : List (Matcher κ)} (h : g.Knows (.seq items)) (hm : m ∈ items) : g.Knows m :=
  ⟨fun name hname => h.rules name (Matcher.rules_subset_rulesAll hm hname),
    fun i hi => h.placeholders i (Matcher.placeholders_subset_placeholdersAll hm hi)⟩

/-- A grammar that knows an alternation knows its alternatives. -/
theorem alternative {alternatives : List (Matcher κ)} (h : g.Knows (.any alternatives))
    (hm : m ∈ alternatives) : g.Knows m :=
  ⟨fun name hname => h.rules name (Matcher.rules_subset_rulesAll hm hname),
    fun i hi => h.placeholders i (Matcher.placeholders_subset_placeholdersAll hm hi)⟩

/-- A grammar that knows a list knows its elements. -/
theorem element {separator : Option (Matcher κ)} {least : Nat}
    (h : g.Knows (.list m separator least)) : g.Knows m :=
  ⟨fun name hname => h.rules name (List.mem_append_left _ hname),
    fun i hi => h.placeholders i (List.mem_append_left _ hi)⟩

/-- A grammar that knows a list knows its separators. -/
theorem separator {element : Matcher κ} {least : Nat}
    (h : g.Knows (.list element (some m) least)) : g.Knows m :=
  ⟨fun name hname => h.rules name (List.mem_append_right _ hname),
    fun i hi => h.placeholders i (List.mem_append_right _ hi)⟩

end Knows

end Grammar

section Build

variable {g : Grammar κ} {d : GrammarDraft κ}

/-- A rule that is found is one of the definitions. -/
theorem mem_of_findRule? [DecidableEq κ] {name : κ} {rules : List (κ × Rule κ)} {rule : Rule κ}
    (h : findRule? name rules = some rule) : (name, rule) ∈ rules := by
  induction rules with
  | nil => cases h
  | cons head rest ih =>
    obtain ⟨key, first⟩ := head
    rw [findRule?] at h
    split at h
    · rename_i hkey
      cases h
      rw [hkey]
      exact List.mem_cons_self
    · exact List.mem_cons_of_mem _ (ih h)

/-- Filled placeholders stand for what was put there. -/
theorem GrammarDraft.filledRefs_go {index : Nat} {refs : List (Option (Matcher κ))}
    {filled : List (Matcher κ)} (h : filledRefs.go index refs = .ok filled) :
    refs = filled.map some := by
  induction refs generalizing index filled with
  | nil =>
    cases h
    rfl
  | cons head rest ih =>
    cases head with
    | none => cases h
    | some m =>
      rw [filledRefs.go] at h
      cases hrest : filledRefs.go (index + 1) rest with
      | error e =>
        rw [hrest] at h
        cases h
      | ok tail =>
        rw [hrest] at h
        cases h
        rw [ih hrest]
        rfl

/-- The checks that a draft has passed. -/
theorem GrammarDraft.build_eq_ok [DecidableEq κ] [RuleName κ] (h : d.build = .ok g) :
    g.rules = d.rules ∧ d.refs = g.refs.map some ∧
      (∀ name rule, (name, rule) ∈ d.rules → rule.body.arity = rule.arity) ∧
      ∀ name, name ∈ d.rules.flatMap (·.2.body.rules) ++ g.refs.flatMap Matcher.rules →
        (findRule? name d.rules).isSome := by
  unfold build at h
  cases hduplicate : duplicate? d.rules [] with
  | some name =>
    rw [hduplicate] at h
    cases h
  | none =>
    cases hfilled : filledRefs d.refs with
    | error e =>
      rw [hduplicate, hfilled] at h
      cases h
    | ok refs =>
      rw [hduplicate, hfilled] at h
      simp only [bind, Except.bind] at h
      split at h
      · cases h
      · rename_i harity
        cases hnamed : (d.rules.flatMap (·.2.body.rules) ++ refs.flatMap Matcher.rules).find?
            (fun name => (findRule? name d.rules).isNone) with
        | some name =>
          simp only [hnamed] at h
          cases h
        | none =>
          simp only [hnamed] at h
          cases h
          refine ⟨rfl, filledRefs_go hfilled, fun name rule hmem => ?_, fun name hmem => ?_⟩
          · have hnone : d.rules.find? (fun x => x.2.body.arity != x.2.arity) = none :=
              Option.eq_none_iff_forall_ne_some.2 fun found => harity found.1 found.2
            simpa using List.find?_eq_none.1 hnone (name, rule) hmem
          · simpa [Option.isSome_iff_ne_none] using List.find?_eq_none.1 hnamed name hmem

/-- A grammar that was checked is sound. -/
theorem GrammarDraft.build_sound [DecidableEq κ] [RuleName κ] (h : d.build = .ok g)
    (hrefs : d.OwnsPlaceholders) : g.Sound := by
  obtain ⟨hrules, hfilled, harity, hnamed⟩ := build_eq_ok h
  have hlength : d.refs.length = g.refs.length := by rw [hfilled, List.length_map]
  have hfound i (hi : i < d.refs.length) : (g.refs[i]?).isSome := by
    rw [isSome_getElem?, ← hlength]
    exact hi
  have hmem {name rule} (hrule : g.rule? name = some rule) : (name, rule) ∈ d.rules := by
    rw [← hrules]
    exact mem_of_findRule? hrule
  refine ⟨fun name rule hrule => harity name rule (hmem hrule), fun name rule hrule => ?_,
    fun i target htarget => ?_⟩
  · refine ⟨fun name' hname' => ?_, fun i hi => hfound i (hrefs i (List.mem_append_left _ ?_))⟩
    · rw [Grammar.rule?, hrules]
      exact hnamed name' (List.mem_append_left _ (List.mem_flatMap.2 ⟨_, hmem hrule, hname'⟩))
    · exact List.mem_flatMap.2 ⟨_, hmem hrule, hi⟩
  · have htarget' : target ∈ g.refs := List.mem_of_getElem? htarget
    refine ⟨fun name hname => ?_, fun i hi => hfound i (hrefs i (List.mem_append_right _ ?_))⟩
    · rw [Grammar.rule?, hrules]
      exact hnamed name (List.mem_append_right _ (List.mem_flatMap.2 ⟨_, htarget', hname⟩))
    · refine List.mem_flatMap.2 ⟨some target, ?_, hi⟩
      rw [hfilled]
      exact List.mem_map_of_mem htarget'

end Build

section Congruence

variable {run run' : Runner κ}

/-- The items of a sequence are all that is run of it. -/
theorem runItems_congr (describe : Matcher κ → String) {items : List (Matcher κ)}
    (h : ∀ m ∈ items, run m = run' m) (committed : Bool) (s : MatchState κ) :
    runItems describe run committed items s = runItems describe run' committed items s := by
  induction items generalizing committed s with
  | nil => rfl
  | cons item items ih =>
    have hrest := ih fun m hm => h m (List.mem_cons_of_mem _ hm)
    rw [runItems, runItems, h item List.mem_cons_self]
    simp only [hrest]

/-- Ways to run that agree on the items agree on a sequence. -/
theorem matchSeq_congr (describe : Matcher κ → String) {items : List (Matcher κ)}
    (h : ∀ m ∈ items, run m = run' m) (kind : NodeKind κ) (s : MatchState κ) :
    matchSeq describe run items kind s = matchSeq describe run' items kind s := by
  rw [matchSeq, matchSeq, runItems_congr describe h]

/-- The alternatives are all that is run of a choice. -/
theorem matchAny_congr {alternatives : List (Matcher κ)} (h : ∀ m ∈ alternatives, run m = run' m)
    (start : Cursor) (best : Option (Match κ × Cursor)) (s : MatchState κ) :
    matchAny run start alternatives best s = matchAny run' start alternatives best s := by
  induction alternatives generalizing best s with
  | nil => cases best <;> rfl
  | cons m rest ih =>
    have hrest := ih fun m hm => h m (List.mem_cons_of_mem _ hm)
    rw [matchAny, matchAny, h m List.mem_cons_self]
    simp only [hrest]

/-- Ways to run that agree on a separator agree on whether it is there. -/
theorem runSeparator_congr {separator : Option (Matcher κ)}
    (h : ∀ m, separator = some m → run m = run' m) (first : Bool) (s : MatchState κ) :
    runSeparator run separator first s = runSeparator run' separator first s := by
  unfold runSeparator
  split
  · rw [h _ rfl]
  · rfl

/-- The element and the separator are all that is run of a list. -/
theorem runElements_congr {element : Matcher κ} {separator : Option (Matcher κ)}
    (helement : run element = run' element) (hseparator : ∀ m, separator = some m → run m = run' m)
    (bound : Nat) (first : Bool) (s : MatchState κ) :
    runElements run element separator bound first s =
      runElements run' element separator bound first s := by
  induction bound generalizing first s with
  | zero => rfl
  | succ bound ih =>
    rw [runElements, runElements, runSeparator_congr hseparator, helement]
    simp only [ih]

/-- Ways to run that agree on elements and separators agree on a list. -/
theorem matchList_congr {element : Matcher κ} {separator : Option (Matcher κ)}
    (helement : run element = run' element) (hseparator : ∀ m, separator = some m → run m = run' m)
    (least : Nat) (s : MatchState κ) :
    matchList run element separator least s = matchList run' element separator least s := by
  rw [matchList, matchList, runElements_congr helement hseparator]

end Congruence

namespace Grammar

variable [DecidableEq κ] {g : Grammar κ}

/-- Whether a matcher names a rule that is not there, or is a placeholder that is not. -/
def lacks (g : Grammar κ) : Matcher κ → Bool
  | .rule name => (g.rule? name).isNone
  | .ref index => (g.refs[index]?).isNone
  | _ => false

/-- A known matcher is not lacking. -/
theorem Knows.lacks_eq_false {m : Matcher κ} (h : g.Knows m) : g.lacks m = false := by
  cases m with
  | rule name => simpa [lacks, Option.isSome_iff_ne_none] using h.rules name (List.mem_singleton_self _)
  | ref index =>
    simpa [lacks, Option.isSome_iff_ne_none] using h.placeholders index (List.mem_singleton_self _)
  | _ => rfl

variable [RuleName κ]

/-- Run a matcher by an engine that answers by `lost` where the grammar lacks what it is to run. -/
def runWithinOr (g : Grammar κ) (lost : Runner κ) : Nat → Runner κ
  | 0, _, s => (s, none)
  | depth + 1, m, s =>
    let s := s.step
    if s.exhausted then (s, none)
    else if g.lacks m then lost m s
    else g.dispatch (runWithinOr g lost depth) m s

/-- Run a matcher until it answers or the budget is spent, by an engine that answers by `lost` where
the grammar lacks what it is to run. -/
def runOr (g : Grammar κ) (lost : Runner κ) : Runner κ :=
  fun m s => g.runWithinOr lost s.stepsLeft m s

/-- What a matcher runs in a sound grammar is known too. -/
theorem Sound.dispatch_congr (hg : g.Sound) {run run' : Runner κ}
    (h : ∀ m, g.Knows m → run m = run' m) {m : Matcher κ} (hm : g.Knows m) (s : MatchState κ) :
    g.dispatch run m s = g.dispatch run' m s := by
  cases m with
  | literal | literals | pattern | sure => rfl
  | seq items => exact matchSeq_congr g.describe (fun m hmem => h m (hm.item hmem)) .group s
  | any alternatives =>
    exact matchAny_congr (fun m hmem => h m (hm.alternative hmem)) s.cursor none s
  | list element separator least =>
    refine matchList_congr (h element hm.element) (fun m hsep => ?_) least s
    subst hsep
    exact h m hm.separator
  | optional body =>
    rw [dispatch, dispatch, h body ⟨hm.rules, hm.placeholders⟩]
  | rule name =>
    rw [dispatch, dispatch]
    cases hrule : g.rule? name with
    | none => rfl
    | some rule =>
      have hbody := hg.rules name rule hrule
      simp only [matchRule]
      split
      · rename_i items heq
        rw [heq] at hbody
        exact matchSeq_congr g.describe (fun m hmem => h m (hbody.item hmem)) (.rule name) s
      · rw [h rule.body hbody]
  | ref index =>
    rw [dispatch, dispatch]
    cases href : g.refs[index]? with
    | none => rfl
    | some target => simp only [h target (hg.placeholders index target href)]
  | skip skipper body =>
    rw [dispatch, dispatch, h body ⟨hm.rules, hm.placeholders⟩]

/-- In a sound grammar nothing depends on what is done where something lacks. -/
theorem Sound.runWithinOr_eq (hg : g.Sound) (lost : Runner κ) (depth : Nat) {m : Matcher κ}
    (hm : g.Knows m) : g.runWithinOr lost depth m = g.runWithin depth m := by
  induction depth generalizing m with
  | zero => rfl
  | succ depth ih =>
    funext s
    rw [runWithinOr, runWithin]
    simp only [hm.lacks_eq_false, Bool.false_eq_true, if_false]
    rw [hg.dispatch_congr (fun m hm => ih hm) hm]

end Grammar

/-- A node keeps at least as many elements of a list as asked for, and a separator between each two of
them if there are to be separators and none otherwise. -/
def Node.HasCounts (n : Node κ) (separator : Option (Matcher κ)) (least : Nat) : Prop :=
  ∃ elements separators, n.captures = [.list elements separators] ∧ least ≤ elements.length ∧
    separators.length = if separator.isSome ∧ elements ≠ [] then elements.length - 1 else 0

/-- What the value of a node says about the node. -/
theorem Arena.node_of_treeAt? {nodes : Arena κ} {i : NodeId} {n : Node κ} {u : ParseTree κ}
    (hn : nodes[i]? = some n) (hu : nodes.treeAt? i = some u) :
    u.kind = n.kind ∧ u.hole = n.hole ∧
      (∀ j ∈ n.children, ∃ v ∈ u.children, nodes.treeAt? j = some v) ∧
      List.Forall₂ (fun c r => c.resolve? (nodes.treeBelow? i) = some r) n.captures u.captures := by
  rw [Arena.treeAt?_eq, hn, Option.bind_some] at hu
  simp only [Node.tree?, Option.bind_eq_bind, Option.bind_eq_some_iff, Option.pure_def,
    Option.some.injEq] at hu
  obtain ⟨children, hchildren, captures, hcaptures, rfl⟩ := hu
  refine ⟨rfl, rfl, fun j hj => ?_, mapM_eq_some_iff_forall₂.1 hcaptures⟩
  obtain ⟨k, hk, rfl⟩ := List.mem_iff_getElem.1 hj
  have hall := mapM_eq_some_iff_forall₂.1 hchildren
  have hk' : k < children.length := hall.length_eq ▸ hk
  have htree : nodes.treeBelow? i n.children[k] = some children[k] := hall.get hk hk'
  refine ⟨children[k], List.getElem_mem hk', ?_⟩
  rw [Arena.treeBelow?] at htree
  split at htree
  · exact htree
  · cases htree

/-- The captures of a node that stands for a list. -/
theorem Capture.eq_list {f : NodeId → Option (ParseTree κ)} {captures : List Capture}
    {elements separators : List (ParseTree κ)}
    (h : List.Forall₂ (fun c r => c.resolve? f = some r) captures [.list elements separators]) :
    ∃ es ss, captures = [.list es ss] ∧ es.length = elements.length ∧
      ss.length = separators.length := by
  obtain ⟨c, rest, hc, hrest, rfl⟩ := List.forall₂_cons_right_iff.1 h
  rw [List.forall₂_nil_right_iff.1 hrest]
  cases c with
  | node id => cases id <;> simp [Capture.resolve?] at hc
  | list es ss =>
    simp only [Capture.resolve?, Option.bind_eq_bind, Option.bind_eq_some_iff, Option.pure_def,
      Option.some.injEq, TreeCapture.list.injEq] at hc
    obtain ⟨es', hes, ss', hss, rfl, rfl⟩ := hc
    exact ⟨es, ss, rfl, (mapM_eq_some_iff_forall₂.1 hes).length_eq,
      (mapM_eq_some_iff_forall₂.1 hss).length_eq⟩

namespace Grammar

variable [DecidableEq κ] {g : Grammar κ} {m : Matcher κ} {t u : ParseTree κ}

/-- The tree of a list was made by the matcher of a list. -/
theorem Makes.list_of_kind (h : g.Makes m t) (hm : g.Reaches m) (hkind : t.kind = .list) :
    ∃ element separator least, g.Reaches (.list element separator least) ∧
      g.Makes (.list element separator least) t := by
  induction h with
  | literal | literals | pattern | missing | sure | rule => cases hkind
  | seq hgroup | ruleSeq _ _ hgroup =>
    rw [hgroup] at hkind
    cases hkind
  | any hmem _ ih => exact ih (hm.part hmem) hkind
  | optional _ ih | skip _ ih => exact ih (hm.part (List.mem_singleton_self _)) hkind
  | ref htarget _ ih => exact ih (.target htarget) hkind
  | list hlist hshape helements hseparators =>
    exact ⟨_, _, _, hm, .list hlist hshape helements hseparators⟩

/-- The trees below a tree that a matcher made. -/
theorem Makes.under {nodes : Arena κ} {id i : NodeId} (h : g.Makes m t) (hm : g.Reaches m)
    (ht : nodes.treeAt? id = some t) (hi : nodes.Under id i) :
    ∃ m' u, nodes.treeAt? i = some u ∧ g.Reaches m' ∧ g.Makes m' u ∧
      (t.hole = none → u.hole = none) := by
  induction hi with
  | refl => exact ⟨m, t, ht, hm, h, fun hhole => hhole⟩
  | tail _ hstep ih =>
    obtain ⟨m', u, hu, hm', hmakes, hwhole⟩ := ih
    obtain ⟨n, hn, hj⟩ := hstep
    obtain ⟨v, hv, hvtree⟩ := (Arena.node_of_treeAt? hn hu).2.2.1 _ hj
    obtain ⟨m'', hm'', hmakes''⟩ := hmakes.child hm' v hv
    exact ⟨m'', v, hvtree, hm'', hmakes'',
      fun hhole => hmakes.child_complete (hwhole hhole) v hv⟩

/-- A list that went through has as many elements and separators as its matcher says. -/
theorem Makes.counts {nodes : Arena κ} {i : NodeId} {n : Node κ} {element : Matcher κ}
    {separator : Option (Matcher κ)} {least : Nat} (h : g.Makes (.list element separator least) t)
    (ht : nodes.treeAt? i = some t) (hn : nodes[i]? = some n) (hhole : t.hole = none) :
    n.HasCounts separator least := by
  cases h with
  | @list _ _ _ elements separators _ _ hshape _ _ =>
    obtain ⟨hleast, hlength, -⟩ := hshape.whole hhole
    have hcaptures := (Arena.node_of_treeAt? hn ht).2.2.2
    rw [hshape.captures] at hcaptures
    obtain ⟨es, ss, hes, heslen, hsslen⟩ := Capture.eq_list hcaptures
    refine ⟨es, ss, hes, heslen ▸ hleast, ?_⟩
    rw [hsslen, hlength, ← heslen]
    cases separator with
    | none => rfl
    | some m => cases es <;> simp

variable [RuleName κ]

/-- What a run answers with was made by the matcher that was run, and every node below it was made
during the run. -/
theorem run_makes (g : Grammar κ) (m : Matcher κ) (s : MatchState κ) {part : Match κ}
    (hfound : (g.run m s).2 = some part) :
    ∃ t, (g.run m s).1.nodes.treeAt? part.id = some t ∧ g.Makes m t ∧
      (g.run m s).1.nodes[part.id]? = some part.node ∧
      ∀ i n, (g.run m s).1.nodes.Under part.id i → (g.run m s).1.nodes[i]? = some n →
        n.isComplete = n.hole.isNone := by
  obtain ⟨o, hanswers, hrel⟩ := run_answers g.closed_makesRel m s
  have hrefusal : AllowsRefusal g.MakesRel := fun _ _ _ _ ht => nomatch ht
  obtain ⟨t, ht, hground⟩ := hanswers.found part hfound
  exact ⟨t, hground.tree, hrel (fun _ => hrefusal) t ht, hground.node,
    fun i n hi hn => hanswers.isComplete_eq hfound hi hn⟩

/-- Checking a draft is enough. In the grammar of a draft whose placeholders are its own, no run from
a rule gets to where a rule or a placeholder is missing: whatever else the engine did there, the run
would be the same. A node that such a run leaves under the one it answers with is complete exactly if
it has no hole, and then so is every node below it. A complete node of a rule has as many captures as
the rule declares. A complete node of a list was made by a list matcher of the grammar and has at
least as many elements as that one asks for, and a separator between each two of them if it has
separators and none otherwise; and this is what any list matcher answers with when it is run. -/
theorem build_suffices (d : GrammarDraft κ) (g : Grammar κ) (hbuild : d.build = .ok g)
    (howns : d.OwnsPlaceholders) (name : κ) (hname : (g.rule? name).isSome) (s : MatchState κ) :
    (∀ lost, g.runOr lost (.rule name) s = g.run (.rule name) s) ∧
    (∀ part, (g.run (.rule name) s).2 = some part →
      let nodes := (g.run (.rule name) s).1.nodes
      (∃ t, nodes.treeAt? part.id = some t ∧ g.Makes (.rule name) t) ∧
      ∀ i n, nodes.Under part.id i → nodes[i]? = some n →
        (n.isComplete = true ↔ n.hole = none) ∧
        (n.isComplete = true →
          ∀ j n', nodes.Under i j → nodes[j]? = some n' → n'.isComplete = true) ∧
        (∀ k, n.kind = .rule k → n.isComplete = true → g.arity? k = some n.captures.length) ∧
        (n.kind = .list → n.isComplete = true → ∃ element separator least u,
          g.Reaches (.list element separator least) ∧ nodes.treeAt? i = some u ∧
          g.Makes (.list element separator least) u ∧ n.HasCounts separator least)) ∧
    ∀ element separator least part,
      (g.run (.list element separator least) s).2 = some part → part.node.isComplete = true →
      part.node.HasCounts separator least := by
  have hsound := d.build_sound hbuild howns
  have hknows : g.Knows (.rule name) :=
    ⟨fun k hk => by rwa [List.mem_singleton.1 hk], nofun⟩
  refine ⟨fun lost => ?_, fun part hfound => ?_, fun element separator least part hfound h => ?_⟩
  · exact congrFun (hsound.runWithinOr_eq lost s.stepsLeft hknows) s
  · obtain ⟨t, ht, hmakes, -, hflags⟩ := g.run_makes (.rule name) s hfound
    refine ⟨⟨t, ht, hmakes⟩, fun i n hi hn => ?_⟩
    obtain ⟨m', u, hu, hm', hmakes', -⟩ := hmakes.under (.start name) ht hi
    obtain ⟨hkind, hhole, -, hcaptures⟩ := Arena.node_of_treeAt? hn hu
    have hflag := hflags i n hi hn
    have hcomplete (h : n.isComplete = true) : u.hole = none := by
      rw [hhole, ← Option.isNone_iff_eq_none, ← hflag]
      exact h
    refine ⟨by rw [hflag, Option.isNone_iff_eq_none], fun h j n' hj hn' => ?_, fun k hk h => ?_,
      fun hlist h => ?_⟩
    · obtain ⟨-, v, hv, -, -, hwhole⟩ := hmakes'.under hm' hu hj
      rw [hflags j n' (hi.trans hj) hn', Option.isNone_iff_eq_none,
        ← (Arena.node_of_treeAt? hn' hv).2.1]
      exact hwhole (hcomplete h)
    · obtain ⟨rule, hrule, harity⟩ := hmakes'.captures_length (hcomplete h) (hkind.trans hk)
      rw [arity?, hrule, Option.map_some, hcaptures.length_eq,
        harity (hsound.arity k rule hrule)]
    · obtain ⟨element, separator, least, hreaches, hmade⟩ :=
        hmakes'.list_of_kind hm' (hkind.trans hlist)
      exact ⟨element, separator, least, u, hreaches, hu, hmade, hmade.counts hu hn (hcomplete h)⟩
  · obtain ⟨t, ht, hmakes, hnode, hflags⟩ := g.run_makes _ s hfound
    have hhole := (Arena.node_of_treeAt? hnode ht).2.1
    refine hmakes.counts ht hnode ?_
    rw [hhole, ← Option.isNone_iff_eq_none, ← hflags part.id part.node .refl hnode]
    exact h

end Grammar

/-- Numbers between commas, where the number is a placeholder and a sign commits to it. -/
def numbersDraft : GrammarDraft String where
  rules := [("Numbers", ⟨1, .list (.ref 0) (some (.lit ",")) 1⟩),
    ("Signed", ⟨1, .seq [.lit "-", .sure, .lits ["1", "11"]]⟩)]
  refs := [some (.any [.rule "Signed", .lits ["1", "11"]])]

/-- The draft is accepted, a run on two numbers is the same whatever is done about missing rules, and
it answers with a complete node that has the one capture that the rule declares. -/
theorem build_suffices_numbers :
    ∃ g, numbersDraft.build = .ok g ∧ numbersDraft.OwnsPlaceholders ∧
      let s : MatchState String := { cursor := ⟨0, "11, -1".toList⟩, budget := 40 }
      (∀ lost, g.runOr lost (.rule "Numbers") s = g.run (.rule "Numbers") s) ∧
        ∃ part, (g.run (.rule "Numbers") s).2 = some part ∧ part.node.isComplete = true ∧
          g.arity? "Numbers" = some part.node.captures.length := by
  obtain ⟨g, hbuild, hrule, hanswer⟩ : ∃ g, numbersDraft.build = .ok g ∧
      (g.rule? "Numbers").isSome = true ∧
      (g.run (.rule "Numbers") { cursor := ⟨0, "11, -1".toList⟩, budget := 40 }).2.any
        (fun part => part.node.isComplete && part.node.kind = .rule "Numbers") = true :=
    ⟨⟨numbersDraft.rules, [.any [.rule "Signed", .lits ["1", "11"]]]⟩, rfl, by decide, by decide⟩
  have howns : numbersDraft.OwnsPlaceholders := by
    unfold GrammarDraft.OwnsPlaceholders
    decide
  refine ⟨g, hbuild, howns, ?_⟩
  intro s
  obtain ⟨hlost, hparts, -⟩ := g.build_suffices numbersDraft hbuild howns "Numbers" hrule s
  refine ⟨hlost, ?_⟩
  cases hfound : (g.run (.rule "Numbers") s).2 with
  | none =>
    rw [hfound] at hanswer
    cases hanswer
  | some part =>
    rw [hfound, Option.any_some, Bool.and_eq_true, decide_eq_true_eq] at hanswer
    obtain ⟨-, -, -, hnode, -⟩ := g.run_makes (.rule "Numbers") s hfound
    obtain ⟨-, -, harity, -⟩ := (hparts part hfound).2 part.id part.node .refl hnode
    exact ⟨part, rfl, hanswer.1, harity "Numbers" hanswer.2 hanswer.1⟩

end ExpLang
