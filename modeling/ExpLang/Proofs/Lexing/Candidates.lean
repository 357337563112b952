import ExpLang.Grammar.Matching
import Mathlib.Data.List.MinMax

/-!
# The longest candidate

A set of literals looks for the longest of its candidates with one probe for each length. The plain way
is a scan of the list that the set was made from: of the candidates that the text opens with, take the
longest one. Both find the same candidate. So the order of the list and its repetitions do not count, a
candidate that is refused because a word goes on behind it leaves the choice to the others, and a set of
one candidate is as good as that candidate.
-/

namespace ExpLang

open Text

namespace Literals

/-- A text starts with a literal that may end where it does. -/
def Opens (literal text : List Char) : Prop :=
  ∃ after, text = literal ++ after ∧ atWordEnd literal after = true

/-- A literal opens a text exactly if it is a prefix that ends a word there. -/
theorem opens_iff_dropPrefix? {literal text : List Char} :
    Opens literal text ↔ (dropPrefix? literal text).any (atWordEnd literal) = true := by
  simp only [Opens, Option.any_eq_true, dropPrefix?_eq_some_iff]

instance (literal text : List Char) : Decidable (Opens literal text) :=
  decidable_of_iff _ opens_iff_dropPrefix?.symm

/-- A text opens with one literal of each length at most. -/
theorem Opens.unique {x y text : List Char} (hx : Opens x text) (hy : Opens y text)
    (h : byteLength x = byteLength y) : x = y := by
  obtain ⟨r, rfl, -⟩ := hx
  obtain ⟨r', heq, -⟩ := hy
  have htake := takeBytes?_append x r
  rw [h, heq, takeBytes?_append] at htake
  exact (Option.some.inj htake).symm

/-- The longest one of the candidates that a text opens with. -/
def scan (candidates : List (List Char)) (text : List Char) : Option (List Char) :=
  (candidates.filter (Opens · text)).argmax byteLength

variable {candidates : List (List Char)} {groups : List (Nat × List (List Char))} {set : Literals}
  {literal text c : List Char} {size : Nat}

/-- What a scan finds is a longest candidate; there is no other one, since there are no two of one
length. -/
theorem scan_eq_some_iff : scan candidates text = some c ↔ c ∈ candidates ∧ Opens c text ∧
    ∀ d ∈ candidates, Opens d text → byteLength d ≤ byteLength c := by
  simp only [scan, List.argmax_eq_some_iff, List.mem_filter, decide_eq_true_eq]
  constructor
  · rintro ⟨⟨hc, hopens⟩, hlongest, -⟩
    exact ⟨hc, hopens, fun d hd hdopens => hlongest d ⟨hd, hdopens⟩⟩
  · rintro ⟨hc, hopens, hlongest⟩
    refine ⟨⟨hc, hopens⟩, fun d hd => hlongest d hd.1 hd.2, fun d hd hle => ?_⟩
    rw [hopens.unique hd.2 (Nat.le_antisymm hle (hlongest d hd.1 hd.2))]

/-- Scanning finds nothing exactly if no candidate opens the text. -/
theorem scan_eq_none_iff : scan candidates text = none ↔ ∀ c ∈ candidates, ¬ Opens c text := by
  simp only [scan, List.argmax_eq_none, List.filter_eq_nil_iff, decide_eq_true_eq]

/-! ## Groups of candidates -/

/-- Longer candidates stand in earlier groups, and those of a group have the length of the group. -/
structure Grouped (groups : List (Nat × List (List Char))) : Prop where
  decreasing : groups.Pairwise fun g h => h.1 < g.1
  sized : ∀ g ∈ groups, ∀ c ∈ g.2, byteLength c = g.1

/-- No groups are grouped. -/
theorem grouped_nil : Grouped [] := ⟨.nil, List.forall_mem_nil _⟩

/-- Groups are grouped if the first is longest, has literals of its length, and the others are grouped. -/
theorem grouped_cons {g : Nat × List (List Char)} : Grouped (g :: groups) ↔
    (∀ h ∈ groups, h.1 < g.1) ∧ (∀ c ∈ g.2, byteLength c = g.1) ∧ Grouped groups := by
  constructor
  · rintro ⟨hdecreasing, hsized⟩
    obtain ⟨hhead, htail⟩ := List.pairwise_cons.1 hdecreasing
    obtain ⟨hfirst, hrest⟩ := List.forall_mem_cons.1 hsized
    exact ⟨hhead, hfirst, htail, hrest⟩
  · rintro ⟨hhead, hfirst, htail, hrest⟩
    exact ⟨List.pairwise_cons.2 ⟨hhead, htail⟩, List.forall_mem_cons.2 ⟨hfirst, hrest⟩⟩

/-- The members of a group that a candidate joins. -/
theorem mem_joined {members : List (List Char)} :
    c ∈ (if members.contains literal then members else members ++ [literal]) ↔
      c = literal ∨ c ∈ members := by
  split
  · rename_i hmem
    exact ⟨.inr, fun hc => hc.elim (fun heq => heq ▸ List.contains_iff_mem.1 hmem) id⟩
  · rw [List.mem_append, List.mem_singleton, or_comm]

/-- A candidate is added, and all others stay. -/
theorem mem_insertInto : c ∈ (insertInto literal size groups).flatMap (·.2) ↔
    c = literal ∨ c ∈ groups.flatMap (·.2) := by
  fun_induction insertInto literal size groups with
  | case1 => simp
  | case2 => simp only [List.flatMap_cons, List.mem_append, mem_joined, or_assoc]
  | case3 => simp
  | case4 n members groups hne hle ih =>
    rw [List.flatMap_cons, List.flatMap_cons, List.mem_append, List.mem_append, ih, or_left_comm]

/-- A group has the length of the new candidate or of an old group. -/
theorem size_of_mem_insertInto {g : Nat × List (List Char)}
    (hg : g ∈ insertInto literal size groups) : g.1 = size ∨ ∃ h ∈ groups, h.1 = g.1 := by
  fun_induction insertInto literal size groups with
  | case1 => exact .inl (congrArg Prod.fst (List.mem_singleton.1 hg))
  | case2 | case3 | case4 => grind

/-- Inserting a literal at its length keeps groups grouped. -/
theorem Grouped.insertInto (h : Grouped groups) :
    Grouped (insertInto literal (byteLength literal) groups) := by
  induction groups with
  | nil => exact grouped_cons.2 ⟨List.forall_mem_nil _, by simp, grouped_nil⟩
  | cons group groups ih =>
    obtain ⟨n, members⟩ := group
    obtain ⟨hhead, hfirst, htail⟩ := grouped_cons.1 h
    rw [Literals.insertInto]
    split
    · rename_i hn
      refine grouped_cons.2 ⟨hhead, fun c hc => ?_, htail⟩
      rcases mem_joined.1 hc with rfl | hc
      · exact hn.symm
      · exact hfirst c hc
    · rename_i hne
      split
      · rename_i hlt
        refine grouped_cons.2 ⟨List.forall_mem_cons.2 ⟨hlt, fun g hg => ?_⟩, by simp, h⟩
        exact Nat.lt_trans (hhead g hg) hlt
      · rename_i hle
        refine grouped_cons.2 ⟨fun g hg => ?_, hfirst, ih htail⟩
        rcases size_of_mem_insertInto hg with hsize | ⟨h, hmem, hsize⟩
        · rw [hsize]
          exact Nat.lt_of_le_of_ne (Nat.le_of_not_lt hle) (Ne.symm hne)
        · exact hsize ▸ hhead h hmem

/-- Inserting candidates one after the other keeps a set grouped. -/
theorem grouped_foldl (h : Grouped set.groups) :
    Grouped (candidates.foldl insert set).groups := by
  induction candidates generalizing set with
  | nil => exact h
  | cons literal candidates ih => exact ih h.insertInto

/-- A set has what it had and the candidates that were inserted. -/
theorem mem_foldl_insert :
    c ∈ (candidates.foldl insert set).toList ↔ c ∈ candidates ∨ c ∈ set.toList := by
  induction candidates generalizing set with
  | nil => simp
  | cons literal candidates ih =>
    have hinsert : c ∈ (set.insert literal).toList ↔ c = literal ∨ c ∈ set.toList := mem_insertInto
    rw [List.foldl_cons, ih, hinsert, List.mem_cons, or_left_comm, or_assoc]

/-- The set of any candidates is grouped. -/
theorem grouped_ofList (candidates : List (List Char)) : Grouped (ofList candidates).groups :=
  grouped_foldl grouped_nil

/-- A set of literals has the candidates it was made from. -/
theorem mem_toList_ofList : c ∈ (ofList candidates).toList ↔ c ∈ candidates :=
  mem_foldl_insert.trans (or_iff_left List.not_mem_nil)

/-! ## Probes -/

/-- A probe finds the candidate of its group that the text opens with. -/
theorem probe_eq_some_iff {group : Nat × List (List Char)}
    (hsized : ∀ c ∈ group.2, byteLength c = group.1) :
    probe text group = some c ↔ c ∈ group.2 ∧ Opens c text := by
  constructor
  · intro h
    simp only [probe, Option.bind_eq_bind, Option.bind_eq_some_iff] at h
    obtain ⟨start, hstart, after, hafter, hchosen⟩ := h
    obtain ⟨rest, rfl, hsize⟩ := takeBytes?_eq_some_iff.1 hstart
    rw [← hsize, dropBytes?_append] at hafter
    cases hafter
    split at hchosen
    · rename_i hboth
      cases hchosen
      rw [Bool.and_eq_true, List.contains_iff_mem] at hboth
      exact ⟨hboth.1, after, rfl, hboth.2⟩
    · cases hchosen
  · rintro ⟨hc, after, rfl, hend⟩
    rw [probe, ← hsized c hc, takeBytes?_append, dropBytes?_append]
    simp [hc, hend]

/-- The first probe that finds something finds a longest candidate. -/
theorem Grouped.longest?_eq_some_iff (h : Grouped set.groups) :
    set.longest? text = some c ↔ c ∈ set.toList ∧ Opens c text ∧
      ∀ d ∈ set.toList, Opens d text → byteLength d ≤ byteLength c := by
  have hfound {x : List Char} (hx : set.longest? text = some x) : x ∈ set.toList ∧ Opens x text ∧
      ∀ d ∈ set.toList, Opens d text → byteLength d ≤ byteLength x := by
    obtain ⟨before, group, after, hgroups, hprobe, hbefore⟩ := List.findSome?_eq_some_iff.1 hx
    have hdecreasing := h.decreasing
    rw [hgroups, List.pairwise_append, List.pairwise_cons] at hdecreasing
    have hgroup : group ∈ set.groups := hgroups ▸ by simp
    obtain ⟨hmem, hopens⟩ := (probe_eq_some_iff (h.sized group hgroup)).1 hprobe
    refine ⟨List.mem_flatMap.2 ⟨group, hgroup, hmem⟩, hopens, fun d hd hdopens => ?_⟩
    obtain ⟨other, hother, hd⟩ := List.mem_flatMap.1 hd
    rw [h.sized other hother d hd, h.sized group hgroup x hmem]
    have hprobe' := (probe_eq_some_iff (h.sized other hother)).2 ⟨hd, hdopens⟩
    rw [hgroups, List.mem_append, List.mem_cons] at hother
    rcases hother with hother | rfl | hother
    · rw [hbefore other hother] at hprobe'
      cases hprobe'
    · exact Nat.le_refl _
    · exact Nat.le_of_lt (hdecreasing.2.1.1 other hother)
  refine ⟨hfound, fun ⟨hc, hopens, hlongest⟩ => ?_⟩
  cases hx : set.longest? text with
  | none =>
    obtain ⟨group, hgroup, hmem⟩ := List.mem_flatMap.1 hc
    have hprobe := (probe_eq_some_iff (h.sized group hgroup)).2 ⟨hmem, hopens⟩
    rw [List.findSome?_eq_none_iff.1 hx group hgroup] at hprobe
    cases hprobe
  | some x =>
    obtain ⟨hmem, hxopens, hxlongest⟩ := hfound hx
    exact congrArg some (hxopens.unique hopens
      (Nat.le_antisymm (hlongest x hmem hxopens) (hxlongest c hc hopens)))

/-- Probing finds what a scan finds. -/
theorem longest?_ofList (candidates : List (List Char)) (text : List Char) :
    (ofList candidates).longest? text = scan candidates text := by
  refine Option.ext fun c => ?_
  simp only [(grouped_ofList candidates).longest?_eq_some_iff, scan_eq_some_iff, mem_toList_ofList]

/-- Scanning for one candidate finds it exactly if it opens the text. -/
theorem scan_single (literal text : List Char) :
    scan [literal] text = if Opens literal text then some literal else none := by
  by_cases h : Opens literal text <;> simp [scan, h]

end Literals

/-! ## Matchers -/

/-- A set of one literal is read as the literal is. -/
theorem readLiterals_single (literal : List Char) :
    readLiterals (.ofList [literal]) = readLiteral literal := by
  funext c
  rw [readLiterals, readLiteral, Literals.longest?_ofList, Literals.scan_single]
  simp only [Literals.opens_iff_dropPrefix?]
  cases hdrop : dropPrefix? literal c.rest with
  | none => rfl
  | some after =>
    rw [dropPrefix?_eq_some_iff.1 hdrop, Option.any_some]
    by_cases hend : atWordEnd literal after = true <;> simp [hend]

/-- A matcher for a set of one literal runs as the matcher for the literal does. -/
theorem Grammar.run_literals_single {κ : Type} [DecidableEq κ] [RuleName κ] (g : Grammar κ)
    (literal : List Char) (s : MatchState κ) :
    g.run (.literals (.ofList [literal])) s = g.run (.literal literal) s := by
  rw [run, run]
  cases s.stepsLeft with
  | zero => rfl
  | succ depth => simp only [runWithin, dispatch, readLiterals_single]

/-- Probing a set of literals finds what a scan of its candidates finds: the longest one that the text
opens with, or nothing if it opens with none. A candidate that the text does not open with, be it for a
word that goes on, leaves the choice to the others, and lists with the same candidates choose alike. -/
theorem Literals.probing_eq_scan {κ : Type} [DecidableEq κ] [RuleName κ]
    (candidates : List (List Char)) (text : List Char) :
    (ofList candidates).longest? text = scan candidates text ∧
      (∀ c, (ofList candidates).longest? text = some c ↔ c ∈ candidates ∧ Opens c text ∧
        ∀ d ∈ candidates, Opens d text → byteLength d ≤ byteLength c) ∧
      ((ofList candidates).longest? text = none ↔ ∀ c ∈ candidates, ¬ Opens c text) ∧
      (∀ c, ¬ Opens c text →
        (ofList (c :: candidates)).longest? text = (ofList candidates).longest? text) ∧
      (∀ others : List (List Char), (∀ c, c ∈ others ↔ c ∈ candidates) →
        (ofList others).longest? text = (ofList candidates).longest? text) ∧
      ∀ (g : Grammar κ) (c : List Char) (s : MatchState κ),
        g.run (.literals (.ofList [c])) s = g.run (.literal c) s := by
  refine ⟨longest?_ofList candidates text, ?_⟩
  simp only [longest?_ofList]
  refine ⟨fun c => scan_eq_some_iff, scan_eq_none_iff, fun c hc => ?_, fun others hsame => ?_,
    fun g c s => g.run_literals_single c s⟩
  · rw [scan, List.filter_cons_of_neg (by simpa using hc), scan]
  · refine Option.ext fun c => ?_
    simp only [scan_eq_some_iff, hsame]

/-- `in-a` does not open a text in which its word goes on, and `in-` is the longest one of the others. -/
theorem Literals.probing_eq_scan_wordGoesOn :
    ¬ Opens ['i', 'n', '-', 'a'] ['i', 'n', '-', 'a', 'b'] ∧
      (ofList [['i', 'n', '-', 'a'], ['i', 'n'], ['i', 'n', '-'], ['i', 'n']]).longest?
        ['i', 'n', '-', 'a', 'b'] = some ['i', 'n', '-'] := by
  have hrefused : ¬ Opens ['i', 'n', '-', 'a'] ['i', 'n', '-', 'a', 'b'] := by decide +kernel
  refine ⟨hrefused, ((probing_eq_scan (κ := String) _ _).2.2.2.1 _ hrefused).trans ?_⟩
  exact ((probing_eq_scan (κ := String) _ _).2.1 _).2 (by decide +kernel)

end ExpLang
