import ExpLang.Grammar.Parse
import ExpLang.Proofs.Matching.Standing

/-!
# The nodes of a run form a forest

A node is made from parts that nothing else was made from: parts that are roots. So in the arena of a
run every node is the child of at most one node, and its parent link says which. This holds of all
nodes, also of those of alternatives that were given up and stay in the arena, and a roll back gives
up all nodes that were made since and no link into what it keeps.

The parts of a node were found one after the other, so that their spans stand in order and the span
of the node is the one over those that are not missing.
-/

namespace ExpLang

open Text
open Cursor (Advances Between InOrder)

variable {κ : Type}

/-! ## Spans of a source -/

namespace Source

/-- An offset stands between two characters of a source, or at one of its ends. -/
def IsBoundary (source : Source) (pos : Nat) : Prop :=
  ∃ before after, source.chars = before ++ after ∧ byteLength before = pos

/-- A span lies in a source and ends at character boundaries. -/
structure Fits (source : Source) (span : Span) : Prop where
  start_le : span.start ≤ span.stop
  stop_le : span.stop ≤ source.size
  start_boundary : source.IsBoundary span.start
  stop_boundary : source.IsBoundary span.stop

variable {source : Source} {c stop : Cursor} {span : Span}

/-- A cursor that the start advances to stands on a boundary of the source. -/
theorem isBoundary_of_advances (h : source.start.Advances c) : source.IsBoundary c.pos := by
  obtain ⟨text, hrest, hpos⟩ := h
  exact ⟨text, c.rest, hrest, by rw [hpos, start, Nat.zero_add]⟩

/-- What stands between two cursors of a source fits the source. -/
theorem fits_of_between (hc : source.start.Advances c) (h : Between c stop span) :
    source.Fits span := by
  obtain ⟨first, last, hfirst, hmid, -, rfl⟩ := h
  have hfirst' := hc.trans hfirst
  have hlast' := hfirst'.trans hmid
  exact ⟨hmid.le, pos_le_size_of_advances hlast', isBoundary_of_advances hfirst',
    isBoundary_of_advances hlast'⟩

/-- The text of a span that fits has the length of the span. -/
theorem Fits.byteLength_slice (h : source.Fits span) :
    byteLength (source.slice span).toList = span.length := by
  obtain ⟨before, after, hchars, hbefore⟩ := h.start_boundary
  obtain ⟨before', after', hchars', hbefore'⟩ := h.stop_boundary
  have hle := h.start_le
  -- The text up to the end of the span begins with the text before it.
  have hprefix : before <+: before' := by
    have hpre : before <+: source.chars := ⟨after, hchars.symm⟩
    have hpre' : before' <+: source.chars := ⟨after', hchars'.symm⟩
    rcases List.prefix_or_prefix_of_prefix hpre hpre' with h | ⟨tail, rfl⟩
    · exact h
    · rw [byteLength_append] at hbefore
      have htail : byteLength tail = 0 := by omega
      exact ⟨[], by rw [eq_nil_of_byteLength_eq_zero htail, List.append_nil, List.append_nil]⟩
  obtain ⟨text, rfl⟩ := hprefix
  rw [byteLength_append, hbefore] at hbefore'
  have hslice : source.slice? span = some text :=
    slice?_eq_some_iff.2 ⟨before, after', hchars', hbefore, by omega⟩
  rw [slice, hslice, Option.getD_some, String.toList_ofList, Span.length]
  omega

end Source

/-! ## Forests -/

namespace Arena

/-- The spans of the children of a node that are not missing parts, from left to right. -/
def presentSpans (nodes : Arena κ) (n : Node κ) : List Span :=
  ((n.children.filterMap (nodes[·]?)).filter (!·.kind.isEmpty)).map (·.span)

/-- A node fits the nodes below it and the source. -/
structure Seated (source : Source) (nodes : Arena κ) (id : NodeId) (n : Node κ) : Prop where
  /-- A node is made after its children. -/
  child_lt : ∀ c ∈ n.children, c < id
  /-- No node is a child twice. -/
  nodup : n.children.Nodup
  /-- The span lies in the source. -/
  fits : source.Fits n.span
  /-- The children that are not missing stand in order. -/
  ordered : (nodes.presentSpans n).Pairwise (·.stop ≤ ·.start)
  /-- The span is the one over the children that are not missing, if there are any. -/
  cover : nodes.presentSpans n ≠ [] → Span.cover (nodes.presentSpans n) = some n.span

/-- The nodes of an arena form a forest over a source. -/
structure Forest (source : Source) (nodes : Arena κ) : Prop where
  seated : ∀ (id : NodeId) (n : Node κ), nodes[id]? = some n → nodes.Seated source id n
  /-- The parent of a node is the node that it is a child of. -/
  parent_iff : ∀ (id : NodeId) (n : Node κ), nodes[id]? = some n →
    ∀ p, n.parent = some p ↔ ∃ m : Node κ, nodes[p]? = some m ∧ id ∈ m.children

variable {source : Source} {a : Arena κ}

/-- An index with a node is below the size of the arena. -/
theorem lt_size {i : NodeId} {n : Node κ} (h : a[i]? = some n) : i < a.size :=
  (Array.getElem?_eq_some_iff.1 h).1

/-- An arena without nodes is a forest. -/
theorem Forest.empty (source : Source) : Forest source (#[] : Arena κ) :=
  ⟨fun _ _ h => (by cases h), fun _ _ h => (by cases h)⟩

/-- A node is the child of one node at most. -/
theorem Forest.eq_of_mem_children (h : Forest source a) {i j c : NodeId} {n m : Node κ}
    (hi : a[i]? = some n) (hj : a[j]? = some m) (hc : c ∈ n.children) (hc' : c ∈ m.children) :
    i = j := by
  have hlt : c < a.size := ((h.seated i n hi).child_lt c hc).trans (lt_size hi)
  have hchild : a[c]? = some a[c] := Array.getElem?_eq_getElem hlt
  have hparent := (h.parent_iff c _ hchild i).2 ⟨n, hi, hc⟩
  rw [(h.parent_iff c _ hchild j).2 ⟨m, hj, hc'⟩, Option.some.injEq] at hparent
  exact hparent.symm

/-- Writing parents reaches the children and no other node. -/
theorem foldl_setParent_getElem? (parent : NodeId) (children : List NodeId) (a : Arena κ) (i : Nat) :
    (children.foldl (setParent parent) a)[i]? =
      a[i]?.map fun m => if i ∈ children then { m with parent := some parent } else m := by
  induction children generalizing a with
  | nil => simp
  | cons child rest ih =>
    rw [List.foldl_cons, ih, setParent, Array.getElem?_modify]
    by_cases hchild : child = i
    · subst hchild
      cases a[child]? <;> simp
    · rw [if_neg hchild]
      simp [Ne.symm hchild]

/-- What stands in an arena after a node was made. -/
theorem push_getElem? (a : Arena κ) (n : Node κ) (i : Nat) :
    (Arena.push a n)[i]? = if i = a.size then some n else
      a[i]?.map fun m => if i ∈ n.children then { m with parent := some a.size } else m := by
  rw [Arena.push, Array.getElem?_push, size_foldl_setParent, foldl_setParent_getElem?]

/-- Making a node keeps the spans of the children of earlier nodes. -/
theorem presentSpans_push (a : Arena κ) (n : Node κ) {m : Node κ}
    (hm : ∀ c ∈ m.children, c < a.size) :
    (Arena.push a n).presentSpans m = a.presentSpans m := by
  have hkept : ∀ c < a.size, (Arena.push a n)[c]?.map (fun m => (m.kind, m.span)) =
      a[c]?.map fun m => (m.kind, m.span) := by
    intro c hc
    rw [push_getElem?, if_neg (Nat.ne_of_lt hc), Option.map_map]
    congr 1
    funext k
    simp only [Function.comp_apply]
    split <;> rfl
  rw [presentSpans, presentSpans]
  generalize m.children = children at hm
  induction children with
  | nil => rfl
  | cons c rest ih =>
    rw [List.forall_mem_cons] at hm
    have hc := hkept c hm.1
    cases h : a[c]? with
    | none =>
      rw [h, Option.map_none, Option.map_eq_none_iff] at hc
      rw [List.filterMap_cons_none hc, List.filterMap_cons_none h, ih hm.2]
    | some k =>
      rw [h, Option.map_some, Option.map_eq_some_iff] at hc
      obtain ⟨k', hk', hfields⟩ := hc
      simp only [Prod.mk.injEq] at hfields
      rw [List.filterMap_cons_some hk', List.filterMap_cons_some h, List.filter_cons,
        List.filter_cons, hfields.1]
      split
      · rw [List.map_cons, List.map_cons, hfields.2, ih hm.2]
      · exact ih hm.2

/-- A node of the arena after a node was made is that node, or an earlier one up to its parent. -/
theorem push_cases {n k : Node κ} {i : NodeId} (h : (Arena.push a n)[i]? = some k) :
    i = a.size ∧ k = n ∨
      ∃ m, a[i]? = some m ∧ k = if i ∈ n.children then { m with parent := some a.size } else m := by
  rw [push_getElem?] at h
  split at h
  · cases h
    exact .inl ⟨‹_›, rfl⟩
  · obtain ⟨m, hm, rfl⟩ := Option.map_eq_some_iff.1 h
    exact .inr ⟨m, hm, rfl⟩

/-- What fits the nodes below it still does after a node was made. -/
theorem Seated.push {i : NodeId} {m : Node κ} (h : a.Seated source i m) (hi : i ≤ a.size)
    (n : Node κ) : (Arena.push a n).Seated source i m := by
  have hspans := presentSpans_push a n fun c hc => (h.child_lt c hc).trans_le hi
  exact ⟨h.child_lt, h.nodup, h.fits, hspans ▸ h.ordered, hspans ▸ h.cover⟩

/-- A node fits whatever its own parent is. -/
theorem Seated.setParent {i : NodeId} {m : Node κ} (h : a.Seated source i m)
    (parent : Option NodeId) : a.Seated source i { m with parent := parent } :=
  ⟨h.child_lt, h.nodup, h.fits, h.ordered, h.cover⟩

/-- The children of the nodes after a node was made are the earlier ones and those of the new node. -/
theorem exists_child_push {n : Node κ} (i p : NodeId) :
    (∃ m, (Arena.push a n)[p]? = some m ∧ i ∈ m.children) ↔
      p = a.size ∧ i ∈ n.children ∨ ∃ m, a[p]? = some m ∧ i ∈ m.children := by
  constructor
  · rintro ⟨k, hk, hi⟩
    rcases push_cases hk with ⟨rfl, rfl⟩ | ⟨m, hm, rfl⟩
    · exact .inl ⟨rfl, hi⟩
    · exact .inr ⟨m, hm, by split at hi <;> exact hi⟩
  · rintro (⟨rfl, hi⟩ | ⟨m, hm, hi⟩)
    · exact ⟨n, push_getElem?_size a n, hi⟩
    · refine ⟨_, by rw [push_getElem?, if_neg (Nat.ne_of_lt (lt_size hm)), hm, Option.map_some], ?_⟩
      split <;> exact hi

/-- A node is made from roots: they become its children, and it is a root itself. -/
theorem Forest.push (h : Forest source a) {n : Node κ} (hroot : n.parent = none)
    (hroots : ∀ c ∈ n.children, ∃ m, a[c]? = some m ∧ m.parent = none)
    (hseated : a.Seated source a.size n) : Forest source (Arena.push a n) := by
  refine ⟨fun i k hk => ?_, fun i k hk p => ?_⟩
  · rcases push_cases hk with ⟨rfl, rfl⟩ | ⟨m, hm, rfl⟩
    · exact hseated.push le_rfl _
    · have hold := (h.seated i m hm).push (lt_size hm).le n
      split
      · exact hold.setParent _
      · exact hold
  · rw [exists_child_push]
    rcases push_cases hk with ⟨rfl, rfl⟩ | ⟨m, hm, rfl⟩
    · -- Nothing is made from the new node yet.
      have hnew : ¬ ∃ m, a[p]? = some m ∧ a.size ∈ m.children := fun ⟨m, hm, hmem⟩ =>
        Nat.lt_asymm ((h.seated p m hm).child_lt _ hmem) (lt_size hm)
      have hself : a.size ∉ k.children := fun hmem =>
        Nat.lt_irrefl _ (hseated.child_lt _ hmem)
      simp [hroot, hnew, hself]
    · by_cases hmem : i ∈ n.children
      · -- Nothing but the new node was made from its children.
        obtain ⟨m', hm', hnone⟩ := hroots i hmem
        rw [hm] at hm'
        cases hm'
        have hfree : ¬ ∃ k, a[p]? = some k ∧ i ∈ k.children := by
          rw [← h.parent_iff i m hm p, hnone]
          nofun
        rw [or_iff_left hfree, if_pos hmem, Option.some.injEq, eq_comm]
        exact (and_iff_left hmem).symm
      · rw [if_neg hmem, or_iff_right fun hnew => hmem hnew.2]
        exact h.parent_iff i m hm p

end Arena

/-! ## Roots that were found one after the other -/

/-- Nodes made from index `base` on are roots of an arena, made and standing one after the other
between two cursors. -/
inductive Row (nodes : Arena κ) : Nat → Cursor → List (Match κ) → Cursor → Prop
  | nil {base : Nat} {c stop : Cursor} : c.Advances stop → Row nodes base c [] stop
  | cons {base : Nat} {c mid stop : Cursor} {part : Match κ} {parts : List (Match κ)} :
      base ≤ part.id → nodes[part.id]? = some part.node → part.node.parent = none →
      Between c mid part.node.span → Row nodes (part.id + 1) mid parts stop →
      Row nodes base c (part :: parts) stop

namespace Row

variable {nodes : Arena κ} {base : Nat} {c stop : Cursor} {parts : List (Match κ)}

/-- A row made from an index on is one made from a smaller index on. -/
theorem mono (h : Row nodes base c parts stop) {lower : Nat} (hle : lower ≤ base) :
    Row nodes lower c parts stop := by
  cases h with
  | nil h => exact .nil h
  | cons hid hnode hroot hspan hrest => exact .cons (hle.trans hid) hnode hroot hspan hrest

/-- A row after a cursor is a row after an earlier one. -/
theorem of_advances {mid : Cursor} (hc : c.Advances mid) (h : Row nodes base mid parts stop) :
    Row nodes base c parts stop := by
  cases h with
  | nil h => exact .nil (hc.trans h)
  | cons hid hnode hroot hspan hrest =>
    exact .cons hid hnode hroot (hspan.mono hc (.refl _)) hrest

/-- Parts made in a state and parts made from it on. -/
theorem append {s s' : MatchState κ} {mid : Cursor} {parts' : List (Match κ)}
    (h : Row s.nodes base c parts mid) (hs : s.Framed s') (hbase : base ≤ s.nodes.size)
    (hrest : Row s'.nodes s.nodes.size mid parts' stop) :
    Row s'.nodes base c (parts ++ parts') stop := by
  induction h with
  | nil hc => exact (hrest.mono hbase).of_advances hc
  | cons hid hnode hroot hspan _ ih =>
    have hlt := Arena.lt_size hnode
    exact .cons hid ((hs.nodes _ hlt).trans hnode) hroot hspan (ih hlt hrest)

/-- The nodes of a row stand one after the other. -/
theorem inOrder (h : Row nodes base c parts stop) : InOrder c (parts.map (·.node.span)) stop := by
  induction h with
  | nil h => exact .nil h
  | cons _ _ _ hspan _ ih => exact .cons hspan ih

/-- The nodes of a row have indices from the base on. -/
theorem base_le (h : Row nodes base c parts stop) : ∀ part ∈ parts, base ≤ part.id := by
  induction h with
  | nil => exact fun _ hp => absurd hp List.not_mem_nil
  | cons hid _ _ _ _ ih =>
    rw [List.forall_mem_cons]
    exact ⟨hid, fun part hp => hid.trans (Nat.le_of_succ_le (ih part hp))⟩

/-- The nodes of a row are roots. -/
theorem root (h : Row nodes base c parts stop) :
    ∀ part ∈ parts, nodes[part.id]? = some part.node ∧ part.node.parent = none := by
  induction h with
  | nil => exact fun _ hp => absurd hp List.not_mem_nil
  | cons _ hnode hroot _ _ ih =>
    rw [List.forall_mem_cons]
    exact ⟨⟨hnode, hroot⟩, ih⟩

/-- No node is twice in a row. -/
theorem nodup (h : Row nodes base c parts stop) : (parts.map (·.id)).Nodup := by
  induction h with
  | nil => exact .nil
  | cons _ _ _ _ hrest ih =>
    refine List.nodup_cons.2 ⟨fun hmem => ?_, ih⟩
    obtain ⟨part, hpart, hid⟩ := List.mem_map.1 hmem
    exact Nat.ne_of_gt (hrest.base_le part hpart) hid

/-- The parts are what the arena has at their indices. -/
theorem filterMap_nodes (h : Row nodes base c parts stop) :
    (parts.map (·.id)).filterMap (nodes[·]?) = parts.map (·.node) := by
  induction h with
  | nil => rfl
  | cons _ hnode _ _ _ ih => rw [List.map_cons, List.filterMap_cons_some hnode, ih, List.map_cons]

/-- A node made from the parts. -/
theorem presentSpans (h : Row nodes base c parts stop) {n : Node κ}
    (hn : n.children = parts.map (·.id)) :
    nodes.presentSpans n = (parts.filter (!·.node.kind.isEmpty)).map (·.node.span) := by
  rw [Arena.presentSpans, hn, h.filterMap_nodes, List.filter_map, List.map_map]
  rfl

/-- The parts of a node with a given span become its children. -/
theorem push {source : Source} (h : Row nodes base c parts stop) (hforest : nodes.Forest source)
    (hc : source.start.Advances c) {n : Node κ} (hroot : n.parent = none)
    (hchildren : n.children = parts.map (·.id)) (hspan : Between c stop n.span)
    (hcover : ∀ span, Span.cover ((parts.filter (!·.node.kind.isEmpty)).map (·.node.span)) =
      some span → span = n.span) : Arena.Forest source (Arena.push nodes n) := by
  have hspans := h.presentSpans hchildren
  refine hforest.push hroot (fun id hid => ?_) ⟨fun id hid => ?_, ?_, ?_, ?_, fun hne => ?_⟩
  · rw [hchildren] at hid
    obtain ⟨part, hpart, rfl⟩ := List.mem_map.1 hid
    exact ⟨part.node, h.root part hpart⟩
  · rw [hchildren] at hid
    obtain ⟨part, hpart, rfl⟩ := List.mem_map.1 hid
    exact Arena.lt_size (h.root part hpart).1
  · rw [hchildren]
    exact h.nodup
  · exact Source.fits_of_between hc hspan
  · rw [hspans]
    exact (h.inOrder.filter _ _).pairwise
  · rw [hspans] at hne ⊢
    obtain ⟨span, rest, heq⟩ := List.exists_cons_of_ne_nil hne
    rw [heq] at hcover ⊢
    rw [← hcover _ rfl, Span.cover]

end Row

/-! ## Runs -/

/-- An answer leaves the nodes a forest over a source, and its node is a root. -/
def Grown (source : Source) (r : MatchState κ × Option (Match κ)) : Prop :=
  r.1.nodes.Forest source ∧ ∀ part, r.2 = some part → part.node.parent = none

/-- A way to run matchers keeps the nodes a forest over a source in states with few steps left. -/
def Plants (source : Source) (bound : Nat) (run : Runner κ) : Prop :=
  ∀ m (s : MatchState κ), s.stepsLeft ≤ bound → source.start.Advances s.cursor →
    s.nodes.Forest source → Grown source (run m s)

/-- An answer without a node leaves a forest. -/
theorem grown_none {source : Source} {s : MatchState κ} (h : s.nodes.Forest source) :
    Grown source (s, none) := ⟨h, nofun⟩

/-- An answer with a root in a forest leaves a forest. -/
theorem grown_some {source : Source} {s : MatchState κ} {part : Match κ}
    (h : s.nodes.Forest source) (hroot : part.node.parent = none) : Grown source (s, some part) :=
  ⟨h, fun _ hpart => by cases hpart; exact hroot⟩

/-- A node made from the parts in a row. -/
theorem Row.grown {source : Source} {s : MatchState κ} {base : Nat} {c : Cursor}
    {parts : List (Match κ)} (h : Row s.nodes base c parts s.cursor)
    (hforest : s.nodes.Forest source) (hc : source.start.Advances c) {n : Node κ}
    (hroot : n.parent = none) (hchildren : n.children = parts.map (·.id))
    (hspan : n.span = coverParts parts c.pos) : Grown source (s.make n) := by
  refine grown_some (h.push hforest hc hroot hchildren ?_ fun span hcover => ?_) hroot
  · rw [hspan]
    exact h.inOrder.between_cover _ _
  · rw [hspan, coverParts, hcover, Option.getD_some]

/-- Missing parts and tokens are made from nothing. -/
theorem grown_leaf {source : Source} {s : MatchState κ} (h : s.nodes.Forest source) {c : Cursor}
    (hc : source.start.Advances c) {n : Node κ} (hroot : n.parent = none) (hleaf : n.children = [])
    (hspan : Between c s.cursor n.span) : Grown source (s.make n) := by
  have hrow : Row s.nodes 0 c [] s.cursor := .nil hspan.advances
  exact grown_some (hrow.push h hc hroot hleaf hspan (by nofun)) hroot

/-- A node of no text is a root in a forest. -/
theorem grown_makeEmpty {source : Source} {s : MatchState κ} (h : s.nodes.Forest source)
    (hc : source.start.Advances s.cursor) : Grown source s.makeEmpty :=
  grown_leaf h hc rfl rfl (.point (.refl _))

/-- A token is a root in a forest. -/
theorem grown_makeToken {source : Source} {s : MatchState κ} {read : Cursor → Option Cursor}
    (h : s.nodes.Forest source) (hc : source.start.Advances s.cursor)
    (hread : ∀ {c c'}, read c = some c' → c.Advances c') : Grown source (s.makeToken read) := by
  simp only [MatchState.makeToken]
  split
  · exact grown_none h
  · rename_i stop hstop
    exact grown_leaf (s := s.moveTo stop) h hc rfl rfl
      ⟨_, _, s.activeSkipper.skip_advances s.cursor, hread hstop, .refl stop, rfl⟩

section Constructs

variable {source : Source} {bound : Nat} {run : Runner κ} {s : MatchState κ}

/-- What a run can answer: nothing, or a root that stands in front of the cursor. -/
theorem Plants.cases (hrun : Simulates StandingRel bound run) (hplants : Plants source bound run)
    (m : Matcher κ) (hs : s.stepsLeft ≤ bound) (hc : source.start.Advances s.cursor)
    (hforest : s.nodes.Forest source) :
    (∃ s', run m s = (s', none) ∧ s.Framed s' ∧ s'.nodes = s.nodes ∧ s'.cursor = s.cursor) ∨
    ∃ s' part, run m s = (s', some part) ∧ s.Framed s' ∧ s'.nodes.Forest source ∧
      source.start.Advances s'.cursor ∧ Row s'.nodes s.nodes.size s.cursor [part] s'.cursor := by
  obtain ⟨hgrown, hroot⟩ := hplants m s hs hc hforest
  rcases hrun.cases m hs with
    ⟨s', heq, hframed, -, hnodes, hcursor, -⟩ | ⟨s', part, t, heq, hframed, -, hground, hrel⟩
  · exact .inl ⟨s', heq, hframed, hnodes, hcursor⟩
  · rw [heq] at hgrown hroot
    obtain ⟨hadvances, hstands⟩ := hrel fun _ sk m c => standingRel_refused m c
    have hspan := hstands t rfl
    rw [hground.fields.2.1] at hspan
    exact .inr ⟨s', part, heq, hframed, hgrown, hc.trans hadvances,
      .cons hground.base_le hground.node (hroot part rfl) hspan (.nil (.refl _))⟩

/-- Rolling back gives up what was made since. -/
theorem forest_rewind {s' : MatchState κ} (hforest : s.nodes.Forest source) (h : s.Framed s')
    (c : Cursor) : (s'.rewind c s.nodes.size).nodes.Forest source := by
  rw [MatchState.rewind, h.shrink]
  exact hforest

/-- The items of a sequence. -/
theorem runItems_row (hrun : Simulates StandingRel bound run) (hplants : Plants source bound run)
    (describe : Matcher κ → String) (items : List (Matcher κ)) (committed : Bool) (s : MatchState κ)
    (hs : s.stepsLeft ≤ bound) (hc : source.start.Advances s.cursor)
    (hforest : s.nodes.Forest source) :
    ∃ s' parts ending, runItems describe run committed items s = (s', parts, ending) ∧
      s.Framed s' ∧ s'.nodes.Forest source ∧
      Row s'.nodes s.nodes.size s.cursor (parts.map (·.1)) s'.cursor := by
  induction items generalizing committed s with
  | nil => exact ⟨s, [], _, rfl, .refl s, hforest, .nil (.refl _)⟩
  | cons item items ih =>
    rw [runItems]
    by_cases hsure : item.isSure = true
    · rw [if_pos hsure]
      exact ih true s hs hc hforest
    · rw [if_neg hsure]
      rcases hplants.cases hrun item hs hc hforest with
        ⟨s₁, heq, hframed, hnodes, hcursor⟩ | ⟨s₁, part, heq, hframed, hforest₁, hc₁, hrow⟩
      · simp only [heq]
        exact ⟨s₁, [], _, rfl, hframed, hnodes ▸ hforest, .nil (hcursor ▸ .refl _)⟩
      · simp only [heq]
        split
        · obtain ⟨s', parts, ending, heq', hframed', hforest', hrest⟩ :=
            ih committed s₁ (hframed.stepsLeft.trans hs) hc₁ hforest₁
          simp only [heq']
          exact ⟨s', _, ending, rfl, hframed.trans hframed', hforest',
            hrow.append hframed' hframed.size hrest⟩
        · exact ⟨s₁, _, _, rfl, hframed, hforest₁, hrow⟩

/-- Matching a sequence leaves a forest when its items do. -/
theorem matchSeq_grown (hrun : Simulates StandingRel bound run) (hplants : Plants source bound run)
    (describe : Matcher κ → String) (items : List (Matcher κ)) (kind : NodeKind κ)
    (hs : s.stepsLeft ≤ bound) (hc : source.start.Advances s.cursor)
    (hforest : s.nodes.Forest source) : Grown source (matchSeq describe run items kind s) := by
  obtain ⟨s', parts, ending, heq, hframed, hforest', hrow⟩ :=
    runItems_row hrun hplants describe items false s hs hc hforest
  simp only [matchSeq, heq]
  cases ending with
  | refused => exact grown_none (forest_rewind hforest hframed s.cursor)
  | ended hole => exact hrow.grown hforest' hc rfl (by simp) rfl

/-- The alternatives that are left of a choice. The best one so far is a root since it was made. -/
theorem matchAny_grown (hrun : Simulates StandingRel bound run) (hplants : Plants source bound run)
    (alternatives : List (Matcher κ)) {best : Option (Match κ × Cursor)}
    (hbest : ∀ b, best = some b → b.1.node.parent = none) (hs : s.stepsLeft ≤ bound)
    (hc : source.start.Advances s.cursor) (hforest : s.nodes.Forest source) :
    Grown source (matchAny run s.cursor alternatives best s) := by
  induction alternatives generalizing best s with
  | nil =>
    cases best with
    | none => exact grown_none hforest
    | some b => exact grown_some (s := s.moveTo b.2) hforest (hbest b rfl)
  | cons m rest ih =>
    rw [matchAny]
    rcases hplants.cases hrun m hs hc hforest with
      ⟨s₁, heq, hframed, hnodes, hcursor⟩ | ⟨s₁, part, heq, hframed, hforest₁, hc₁, hrow⟩
    · simp only [heq, ← hcursor]
      exact ih hbest (hframed.stepsLeft.trans hs) (hcursor ▸ hc) (hnodes ▸ hforest)
    · have hroot := (hrow.root part List.mem_cons_self).2
      simp only [heq]
      split
      · exact grown_some hforest₁ hroot
      · refine ih (s := s₁.moveTo s.cursor) (fun b hb => ?_) (hframed.stepsLeft.trans hs) hc hforest₁
        split at hb
        · cases hb
          exact hroot
        · exact hbest b hb

/-- A separator stands before the items of a list. -/
theorem ListItems.separator_parts (sep : Option (Match κ)) (items : ListItems κ) :
    (items.separator sep).parts = sep.toList ++ items.parts := by
  cases sep <;> rfl

/-- What running the separator before an element can come to. -/
theorem runSeparator_row (hrun : Simulates StandingRel bound run)
    (hplants : Plants source bound run) (separator : Option (Matcher κ)) (first : Bool)
    (hs : s.stepsLeft ≤ bound) (hc : source.start.Advances s.cursor)
    (hforest : s.nodes.Forest source) :
    (∃ s', runSeparator run separator first s = (s', none) ∧ s.Framed s' ∧ s'.nodes = s.nodes ∧
      s'.cursor = s.cursor) ∨
    ∃ s' sep, runSeparator run separator first s = (s', some sep) ∧ s.Framed s' ∧
      s'.nodes.Forest source ∧ source.start.Advances s'.cursor ∧
      Row s'.nodes s.nodes.size s.cursor sep.toList s'.cursor := by
  unfold runSeparator
  split
  · rename_i m
    rcases hplants.cases hrun m hs hc hforest with
      ⟨s₁, heq, hframed, hnodes, hcursor⟩ | ⟨s₁, part, heq, hframed, hforest₁, hc₁, hrow⟩
    · exact .inl ⟨s₁, by rw [heq], hframed, hnodes, hcursor⟩
    · exact .inr ⟨s₁, some part, by rw [heq], hframed, hforest₁, hc₁, hrow⟩
  · exact .inr ⟨s, none, rfl, .refl s, hforest, hc, .nil (.refl _)⟩

/-- The elements of a list. -/
theorem runElements_row (hrun : Simulates StandingRel bound run)
    (hplants : Plants source bound run) (element : Matcher κ) (separator : Option (Matcher κ))
    (n : Nat) (first : Bool) (s : MatchState κ) (hs : s.stepsLeft ≤ bound)
    (hc : source.start.Advances s.cursor) (hforest : s.nodes.Forest source) :
    ∃ s' items, runElements run element separator n first s = (s', items) ∧ s.Framed s' ∧
      s'.nodes.Forest source ∧ Row s'.nodes s.nodes.size s.cursor items.parts s'.cursor := by
  induction n generalizing first s with
  | zero => exact ⟨s, {}, rfl, .refl s, hforest, .nil (.refl _)⟩
  | succ n ih =>
    rw [runElements]
    rcases runSeparator_row hrun hplants separator first hs hc hforest with
      ⟨s₁, heq, hframed, hnodes, hcursor⟩ | ⟨s₁, sep, heq, hframed, hforest₁, hc₁, hsep⟩
    · simp only [heq]
      exact ⟨s₁, {}, rfl, hframed, hnodes ▸ hforest, .nil (hcursor ▸ .refl _)⟩
    · simp only [heq]
      split
      · refine ⟨s₁, _, rfl, hframed, hforest₁, ?_⟩
        rw [ListItems.separator_parts, List.append_nil]
        exact hsep
      · rcases hplants.cases hrun element (hframed.stepsLeft.trans hs) hc₁ hforest₁ with
          ⟨s₂, heq₂, hframed₂, -, -⟩ | ⟨s₂, part, heq₂, hframed₂, hforest₂, hc₂, hrow⟩
        · simp only [heq₂]
          have hback := hframed.trans hframed₂
          exact ⟨_, {}, rfl, hback.rewind s.cursor, forest_rewind hforest hback s.cursor,
            .nil (.refl _)⟩
        · have hboth := hframed.trans hframed₂
          have hrow₂ := hsep.append hframed₂ hframed.size hrow
          -- The list ends here.
          have hend (hole : Option Hole) : ∃ s' items,
              (s₂, ListItems.separator sep (ListItems.element part { hole := hole })) = (s', items) ∧
              s.Framed s' ∧ s'.nodes.Forest source ∧
              Row s'.nodes s.nodes.size s.cursor items.parts s'.cursor := by
            refine ⟨s₂, _, rfl, hboth, hforest₂, ?_⟩
            rw [ListItems.separator_parts]
            exact hrow₂
          simp only [heq₂]
          split
          · exact hend _
          · split
            · exact hend none
            · obtain ⟨s', items, heq', hframed', hforest', hrest⟩ :=
                ih false s₂ (hboth.stepsLeft.trans hs) hc₂ hforest₂
              simp only [heq']
              refine ⟨s', _, rfl, hboth.trans hframed', hforest', ?_⟩
              rw [ListItems.separator_parts, ListItems.element, ← List.singleton_append,
                ← List.append_assoc]
              exact hrow₂.append hframed' hboth.size hrest

/-- Matching a list leaves a forest when its elements and separators do. -/
theorem matchList_grown (hrun : Simulates StandingRel bound run) (hplants : Plants source bound run)
    (element : Matcher κ) (separator : Option (Matcher κ)) (least : Nat) (hs : s.stepsLeft ≤ bound)
    (hc : source.start.Advances s.cursor) (hforest : s.nodes.Forest source) :
    Grown source (matchList run element separator least s) := by
  obtain ⟨s', items, heq, hframed, hforest', hrow⟩ :=
    runElements_row hrun hplants element separator s.stepsLeft true s hs hc hforest
  simp only [matchList, heq]
  split
  · exact grown_none (forest_rewind hforest hframed s.cursor)
  · exact hrow.grown hforest' hc rfl rfl rfl

/-- Matching a rule leaves a forest when its body does. -/
theorem matchRule_grown (hrun : Simulates StandingRel bound run) (hplants : Plants source bound run)
    (describe : Matcher κ → String) (name : κ) (rule : Rule κ) (hs : s.stepsLeft ≤ bound)
    (hc : source.start.Advances s.cursor) (hforest : s.nodes.Forest source) :
    Grown source (matchRule describe run name rule s) := by
  unfold matchRule
  split
  · exact matchSeq_grown hrun hplants describe _ _ hs hc hforest
  · rcases hplants.cases hrun rule.body hs hc hforest with
      ⟨s₁, heq, -, hnodes, -⟩ | ⟨s₁, part, heq, -, hforest₁, -, hrow⟩
    · simp only [heq]
      exact grown_none (hnodes ▸ hforest)
    · simp only [heq]
      -- The span is taken from the only child, whether or not it is a missing part.
      refine grown_some (hrow.push hforest₁ hc rfl rfl ?_ fun span hcover => ?_) rfl
      · exact hrow.inOrder.between _ List.mem_cons_self
      · rw [List.filter_cons] at hcover
        split at hcover
        · cases hcover
          rfl
        · cases hcover

/-- Matching by one construct. -/
theorem dispatch_grown [DecidableEq κ] [RuleName κ] (g : Grammar κ)
    (hrun : Simulates StandingRel bound run) (hplants : Plants source bound run) (m : Matcher κ)
    (hs : s.stepsLeft ≤ bound) (hc : source.start.Advances s.cursor)
    (hforest : s.nodes.Forest source) : Grown source (g.dispatch run m s) := by
  cases m with
  | literal text => exact grown_makeToken hforest hc readLiteral_advances
  | literals set => exact grown_makeToken hforest hc readLiterals_advances
  | pattern reader what => exact grown_makeToken hforest hc TokenReader.readAt_advances
  | seq items => exact matchSeq_grown hrun hplants g.describe items .group hs hc hforest
  | any alternatives => exact matchAny_grown hrun hplants alternatives nofun hs hc hforest
  | list element separator least =>
    exact matchList_grown hrun hplants element separator least hs hc hforest
  | optional body =>
    rw [Grammar.dispatch]
    rcases hplants.cases hrun body hs hc hforest with
      ⟨s₁, heq, -, hnodes, hcursor⟩ | ⟨s₁, part, heq, -, hforest₁, -, hrow⟩
    · simp only [heq]
      exact grown_makeEmpty (hnodes ▸ hforest) (hcursor ▸ hc)
    · simp only [heq]
      exact grown_some hforest₁ (hrow.root part List.mem_cons_self).2
  | rule name =>
    rw [Grammar.dispatch]
    split
    · exact matchRule_grown hrun hplants g.describe name _ hs hc hforest
    · exact grown_none hforest
  | ref index =>
    rw [Grammar.dispatch]
    split
    · exact hplants _ s hs hc hforest
    · exact grown_none hforest
  | sure => exact grown_makeEmpty hforest hc
  | skip skipper body => exact hplants body (s.pushSkipper skipper) hs hc hforest

end Constructs

namespace Grammar

variable [DecidableEq κ] [RuleName κ]

/-- Runs of bounded nesting keep the nodes a forest. -/
theorem plants_runWithin (g : Grammar κ) (source : Source) (depth : Nat) :
    Plants source depth (g.runWithin depth) := by
  induction depth with
  | zero => exact fun _ _ _ _ hforest => grown_none hforest
  | succ depth ih =>
    intro m s hs hc hforest
    rw [runWithin]
    rw [← s.step_cursor] at hc
    rw [← s.step_nodes] at hforest
    split
    · exact grown_none hforest
    · refine dispatch_grown g (simulates_runWithin g.closed_standingRel depth) ih m ?_ hc hforest
      rw [s.step_stepsLeft]
      omega

/-- The nodes that a run on a source leaves behind form a forest: a node is made after its children,
no node is a child of two nodes or twice of one, and its parent is the node that it is a child of, none
for the node of the answer. Every span lies in the source between two characters; the children that are
not missing stand in order and the span of their node is the one over them. So the text of a node has the
length of its span. -/
theorem run_forest (g : Grammar κ) (m : Matcher κ) (source : Source) (config : ParseConfig) :
    let r := g.run m (startState source config)
    r.1.nodes.Forest source ∧
      (∀ (i j c : NodeId) (n k : Node κ), r.1.nodes[i]? = some n → r.1.nodes[j]? = some k →
        c ∈ n.children → c ∈ k.children → i = j) ∧
      (∀ root, r.2 = some root →
        r.1.nodes[root.id]? = some root.node ∧ root.node.parent = none) ∧
      ∀ (id : NodeId) (n : Node κ), r.1.nodes[id]? = some n →
        byteLength (Tree.text ⟨source, r.1.nodes⟩ id).toList = n.span.length := by
  intro r
  obtain ⟨hforest, hroot⟩ := g.plants_runWithin source _ m (startState source config) le_rfl
    (.refl _) (.empty source)
  obtain ⟨o, hanswers, -⟩ := run_answers g.closed_standingRel m (startState source config)
  refine ⟨hforest, fun i j c n k hi hj => hforest.eq_of_mem_children hi hj, fun root hr => ?_,
    fun id n hn => ?_⟩
  · obtain ⟨t, -, hground⟩ := hanswers.found root hr
    exact ⟨hground.node, hroot root hr⟩
  · have hnode : Tree.node ⟨source, r.1.nodes⟩ id = n := by
      rw [Tree.node, Array.getD_eq_getD_getElem?, hn, Option.getD_some]
    rw [Tree.text, hnode]
    exact (hforest.seated id n hn).fits.byteLength_slice

end Grammar

end ExpLang
