import ExpLang.Proofs.Matching.Budget
import ExpLang.Proofs.Matching.Progress

/-!
# Grammars that need no budget

A grammar is not left-recursive if its rules have ranks such that a rule enters only rules of smaller
rank before anything is read. Matching then takes a number of steps that is bounded by the length of
the text: a run enters a rule of smaller rank, or less of the text is left. The bound is the same for
every state with as much text left, whatever the skippers, so a budget that allows for it is not
spent.

A list goes on only behind an element that has read something, so the elements after the first one
count for a shorter text.
-/

namespace ExpLang

open Cursor (Advances Moves)

variable {κ : Type}

/-- What the rules of a grammar without left recursion satisfy: a rule that reads something according
to the table has a body that does, and rules that are entered before anything is read have a smaller
rank. There are no placeholders. -/
structure Grammar.Ranked [DecidableEq κ] (g : Grammar κ) (solid : κ → Bool) (rank : κ → Nat) : Prop where
  reads : ∀ name rule, g.rule? name = some rule → solid name = true → rule.body.reads solid = true
  leads : ∀ name rule, g.rule? name = some rule →
    ∀ k ∈ rule.body.leads solid, rank k < rank name
  refs : g.refs = []

/-- Making a token takes no step. -/
theorem MatchState.makeToken_steps_le (s : MatchState κ) (read : Cursor → Option Cursor) :
    (s.makeToken read).1.steps ≤ s.steps + 0 := by
  rw [MatchState.makeToken]
  split <;> exact le_rfl

namespace Grammar

variable {g : Grammar κ} {n n' N N' N₁ N₂ : Nat} {m : Matcher κ}

/-- A state with few steps left and less text than `n` characters that can take `N` more steps. -/
structure Affords (depth n N : Nat) (s : MatchState κ) : Prop where
  stepsLeft_le : s.stepsLeft ≤ depth
  length_lt : s.cursor.rest.length < n
  le_budget : s.steps + N ≤ s.budget

/-- A state that can take some steps over some text can take fewer over less. -/
theorem Affords.mono {depth : Nat} {s : MatchState κ} (h : Affords depth n' N' s) (hn : n' ≤ n)
    (hN : N ≤ N') : Affords depth n N s :=
  ⟨h.stepsLeft_le, h.length_lt.trans_le hn, (Nat.add_le_add_left hN _).trans h.le_budget⟩

/-- After a part was paid for the rest is still affordable. -/
theorem Affords.later {depth : Nat} {s s' : MatchState κ} (h : Affords depth n (N₁ + N₂) s)
    (hs : s.Framed s') (hsteps : s'.steps ≤ s.steps + N₁)
    (hlength : s'.cursor.rest.length < n') : Affords depth n' N₂ s' := by
  have hbudget := h.le_budget
  refine ⟨hs.stepsLeft.trans h.stepsLeft_le, hlength, ?_⟩
  rw [hs.budget]
  omega

variable [DecidableEq κ] [RuleName κ]

/-- Running a matcher takes at most `N` steps where less than `n` characters are left. -/
def Costs (g : Grammar κ) (n N : Nat) (m : Matcher κ) : Prop :=
  ∀ depth (s : MatchState κ), Affords depth n N s → (g.runWithin depth m s).1.steps ≤ s.steps + N

/-- A matcher that takes few steps over some text takes no more over less. -/
theorem Costs.mono (h : g.Costs n N m) (hn : n' ≤ n) (hN : N ≤ N') : g.Costs n' N' m :=
  fun depth s hs => (h depth s (hs.mono hn hN)).trans (Nat.add_le_add_left hN _)

/-- Finitely many matchers have a common bound. -/
theorem exists_costs_all {ms : List (Matcher κ)} (h : ∀ m ∈ ms, ∃ N, g.Costs n N m) :
    ∃ N, ∀ m ∈ ms, g.Costs n N m := by
  induction ms with
  | nil => exact ⟨0, fun _ hm => absurd hm List.not_mem_nil⟩
  | cons m rest ih =>
    rw [List.forall_mem_cons] at h
    obtain ⟨⟨N₁, h₁⟩, hrest⟩ := h
    obtain ⟨N₂, h₂⟩ := ih hrest
    refine ⟨max N₁ N₂, List.forall_mem_cons.2 ⟨h₁.mono le_rfl (le_max_left _ _), ?_⟩⟩
    exact fun m hm => (h₂ m hm).mono le_rfl (le_max_right _ _)

section Constructs

variable {solid : κ → Bool} {rank : κ → Nat}

/-- A matcher that is paid for gives nothing in its place or a part in front of it, and some text in
front of it if the matcher reads something. -/
theorem Costs.cases (hg : g.Ranked solid rank) (h : g.Costs n N m) {depth : Nat} {s : MatchState κ}
    (hs : Affords depth n N s) :
    (∃ s', g.runWithin depth m s = (s', none) ∧ s.Framed s' ∧ s'.steps ≤ s.steps + N ∧
      s'.cursor = s.cursor) ∨
    ∃ s' part, g.runWithin depth m s = (s', some part) ∧ s.Framed s' ∧ s'.steps ≤ s.steps + N ∧
      s.cursor.Advances s'.cursor ∧
      (part.node.isComplete = true → m.reads solid = true → s.cursor.Moves s'.cursor) := by
  have hsteps := h depth s hs
  rcases (simulates_runWithin (closed_readingRel hg.reads) depth).cases m hs.stepsLeft_le with
    ⟨s', heq, hframed, -, -, hcursor, -⟩ | ⟨s', part, t, heq, hframed, -, hground, hrel⟩
  · rw [heq] at hsteps
    exact .inl ⟨s', heq, hframed, hsteps, hcursor⟩
  · rw [heq] at hsteps
    obtain ⟨hadvances, hreads⟩ :=
      hrel fun _ _ _ c => ⟨.refl c, fun _ _ ht => by cases ht⟩
    refine .inr ⟨s', part, heq, hframed, hsteps, hadvances, fun hcomplete hm => ⟨hadvances, ?_⟩⟩
    rw [hground.isComplete hframed, Option.isNone_iff_eq_none] at hcomplete
    exact hreads hm t rfl hcomplete

/-- What is left of the text behind a part. -/
theorem length_lt_of_advances {c c' : Cursor} (h : c.Advances c') (hlength : c.rest.length < n) :
    c'.rest.length < n := by
  obtain ⟨text, hrest, -⟩ := h
  rw [hrest, List.length_append] at hlength
  omega

/-- Running the items of a sequence takes at most `N` steps. -/
def CostsItems (g : Grammar κ) (n N : Nat) (items : List (Matcher κ)) : Prop :=
  ∀ depth committed (s : MatchState κ), Affords depth n N s →
    (runItems g.describe (g.runWithin depth) committed items s).1.steps ≤ s.steps + N

/-- No items take no steps. -/
theorem CostsItems.nil (g : Grammar κ) (n : Nat) : g.CostsItems n 0 [] := fun _ _ _ _ => le_rfl

/-- An item in front of others. If it reads something, the others have less text in front of them. -/
theorem CostsItems.cons (hg : g.Ranked solid rank) {items : List (Matcher κ)}
    (hitem : g.Costs n N₁ m) (hrest : g.CostsItems n' N₂ items)
    (hn : n = n' ∨ n = n' + 1 ∧ m.reads solid = true) :
    g.CostsItems n (N₁ + N₂) (m :: items) := by
  intro depth committed s hs
  rw [runItems]
  by_cases hsure : m.isSure = true
  · rw [if_pos hsure]
    obtain rfl : n = n' := hn.resolve_right fun h => by
      cases m <;> simp [Matcher.isSure, Matcher.reads] at hsure h
    exact (hrest depth true s (hs.mono le_rfl (Nat.le_add_left _ _))).trans (by omega)
  · rw [if_neg hsure]
    rcases hitem.cases hg (hs.mono le_rfl (Nat.le_add_right _ _)) with
      ⟨s₁, heq, -, hsteps, -⟩ | ⟨s₁, part, heq, hframed, hsteps, hadvances, hmoves⟩
    · simp only [heq]
      exact hsteps.trans (by omega)
    · simp only [heq]
      split
      · rename_i hcomplete
        have hlength : s₁.cursor.rest.length < n' := by
          rcases hn with rfl | ⟨rfl, hreads⟩
          · exact length_lt_of_advances hadvances hs.length_lt
          · exact (hmoves hcomplete hreads).length_lt.trans_le (Nat.le_of_lt_succ hs.length_lt)
        exact (hrest depth committed s₁ (hs.later hframed hsteps hlength)).trans (by omega)
      · exact hsteps.trans (by omega)

/-- Items of which each is paid for. -/
theorem exists_costsItems (hg : g.Ranked solid rank) {items : List (Matcher κ)}
    (h : ∀ m ∈ items, ∃ N, g.Costs n N m) : ∃ N, g.CostsItems n N items := by
  induction items with
  | nil => exact ⟨0, .nil g n⟩
  | cons m rest ih =>
    rw [List.forall_mem_cons] at h
    obtain ⟨N₁, hitem⟩ := h.1
    obtain ⟨N₂, hrest⟩ := ih h.2
    exact ⟨_, .cons hg hitem hrest (.inl rfl)⟩

/-- A sequence takes as many steps as its items. -/
theorem CostsItems.matchSeq {items : List (Matcher κ)} (h : g.CostsItems n N items)
    (kind : NodeKind κ) {depth : Nat} {s : MatchState κ} (hs : Affords depth n N s) :
    (matchSeq g.describe (g.runWithin depth) items kind s).1.steps ≤ s.steps + N := by
  have hsteps := h depth false s hs
  rcases heq : runItems g.describe (g.runWithin depth) false items s with ⟨s', parts, ending⟩
  rw [heq] at hsteps
  simp only [ExpLang.matchSeq, heq]
  cases ending <;> exact hsteps

/-- Alternatives of which each is paid for. -/
theorem exists_costs_matchAny (hg : g.Ranked solid rank) {alternatives : List (Matcher κ)}
    (h : ∀ m ∈ alternatives, ∃ N, g.Costs n N m) :
    ∃ N, ∀ depth best (s : MatchState κ), Affords depth n N s →
      (matchAny (g.runWithin depth) s.cursor alternatives best s).1.steps ≤ s.steps + N := by
  induction alternatives with
  | nil => exact ⟨0, fun _ best _ _ => by cases best <;> exact le_rfl⟩
  | cons m rest ih =>
    rw [List.forall_mem_cons] at h
    obtain ⟨N₁, hm⟩ := h.1
    obtain ⟨N₂, hrest⟩ := ih h.2
    refine ⟨N₁ + N₂, fun depth best s hs => ?_⟩
    rw [matchAny]
    rcases hm.cases hg (hs.mono le_rfl (Nat.le_add_right _ _)) with
      ⟨s₁, heq, hframed, hsteps, hcursor⟩ | ⟨s₁, part, heq, hframed, hsteps, -⟩
    · simp only [heq, ← hcursor]
      have hs₁ := hs.later hframed hsteps (hcursor ▸ hs.length_lt)
      exact (hrest depth best s₁ hs₁).trans (by omega)
    · simp only [heq]
      split
      · exact hsteps.trans (by omega)
      · -- The next alternative is tried at the cursor of this one.
        have hs₁ : Affords depth n N₂ (s₁.moveTo s.cursor) :=
          hs.later (hframed.moveTo s.cursor) hsteps hs.length_lt
        exact (hrest depth _ (s₁.moveTo s.cursor) hs₁).trans (by simp only [MatchState.moveTo]; omega)

/-- The separator before an element is paid for like any other matcher. -/
theorem costs_runSeparator (hg : g.Ranked solid rank) {separator : Option (Matcher κ)}
    (h : ∀ m ∈ separator, g.Costs n N m) (first : Bool) {depth : Nat} {s : MatchState κ}
    (hs : Affords depth n N s) :
    ∃ s' sep, runSeparator (g.runWithin depth) separator first s = (s', sep) ∧ s.Framed s' ∧
      s'.steps ≤ s.steps + N ∧ s.cursor.Advances s'.cursor := by
  unfold runSeparator
  split
  · rename_i m
    rcases (h m rfl).cases hg hs with
      ⟨s₁, heq, hframed, hsteps, hcursor⟩ | ⟨s₁, part, heq, hframed, hsteps, hadvances, -⟩
    · exact ⟨s₁, none, by rw [heq], hframed, hsteps, hcursor ▸ .refl _⟩
    · exact ⟨s₁, some (some part), by rw [heq], hframed, hsteps, hadvances⟩
  · exact ⟨s, some none, rfl, .refl s, Nat.le_add_right _ _, .refl _⟩

/-- One element of a list, where the separator before it was paid for. The list goes on only where
the cursor has moved. -/
theorem steps_runElements_succ (hg : g.Ranked solid rank) {element : Matcher κ}
    {separator : Option (Matcher κ)} {bound depth N₃ : Nat} {first : Bool} {s : MatchState κ}
    (hsep : ∃ s₁ sep, runSeparator (g.runWithin depth) separator first s = (s₁, sep) ∧ s.Framed s₁ ∧
      s₁.steps ≤ s.steps + N₁ ∧ s.cursor.Advances s₁.cursor)
    (helement : g.Costs (n + 1) N₂ element) (hs : Affords depth (n + 1) (N₁ + (N₂ + N₃)) s)
    (hmore : ∀ s₂, Affords depth n N₃ s₂ →
      (runElements (g.runWithin depth) element separator bound false s₂).1.steps ≤ s₂.steps + N₃) :
    (runElements (g.runWithin depth) element separator (bound + 1) first s).1.steps ≤
      s.steps + (N₁ + (N₂ + N₃)) := by
  obtain ⟨s₁, sep, heq, hframed, hsteps, hadvances⟩ := hsep
  rw [runElements]
  cases sep with
  | none =>
    simp only [heq]
    exact hsteps.trans (by omega)
  | some sep =>
    simp only [heq]
    split
    · exact hsteps.trans (by omega)
    have hs₁ := hs.later hframed hsteps (length_lt_of_advances hadvances hs.length_lt)
    rcases helement.cases hg (hs₁.mono le_rfl (Nat.le_add_right _ _)) with
      ⟨s₂, heq₂, -, hsteps₂, -⟩ | ⟨s₂, part, heq₂, hframed₂, hsteps₂, hadvances₂, -⟩
    · simp only [heq₂, MatchState.rewind]
      exact hsteps₂.trans (by omega)
    · simp only [heq₂]
      split
      · exact hsteps₂.trans (by omega)
      · split
        · exact hsteps₂.trans (by omega)
        · rename_i hmoved
          have hmoves : s.cursor.Moves s₂.cursor := by
            have hboth := hadvances.trans hadvances₂
            have hne : s₂.cursor.pos ≠ s.cursor.pos := by simpa using hmoved
            exact ⟨hboth, Nat.lt_of_le_of_ne hboth.le hne.symm⟩
          have hlength := hmoves.length_lt.trans_le (Nat.le_of_lt_succ hs.length_lt)
          exact (hmore s₂ (hs₁.later hframed₂ hsteps₂ hlength)).trans (by omega)

/-- The elements of a list, one for each character that is left at most. -/
theorem steps_runElements_le (hg : g.Ranked solid rank) {element : Matcher κ}
    {separator : Option (Matcher κ)} {left : Nat} (hle : left ≤ n)
    (hsep : ∀ m ∈ separator, g.Costs n N₁ m) (helement : g.Costs n N₂ element) (depth bound : Nat)
    (first : Bool) (s : MatchState κ) (hs : Affords depth left (left * (N₁ + N₂)) s) :
    (runElements (g.runWithin depth) element separator bound first s).1.steps ≤
      s.steps + left * (N₁ + N₂) := by
  induction left generalizing bound first s with
  | zero => exact absurd hs.length_lt (Nat.not_lt_zero _)
  | succ left ih =>
    have hcost : (left + 1) * (N₁ + N₂) = N₁ + (N₂ + left * (N₁ + N₂)) := by
      rw [Nat.succ_mul]
      omega
    rw [hcost] at hs ⊢
    cases bound with
    | zero => exact Nat.le_add_right _ _
    | succ bound =>
      refine steps_runElements_succ hg ?_ (helement.mono hle le_rfl) hs
        (fun s₂ hs₂ => ih (Nat.le_of_succ_le hle) bound false s₂ hs₂)
      exact costs_runSeparator hg (fun m hm => (hsep m hm).mono hle le_rfl) first
        (hs.mono le_rfl (Nat.le_add_right _ _))

/-- A list whose first element is paid for. Everything behind it has less text to read. -/
theorem exists_costs_matchList (hg : g.Ranked solid rank) {element : Matcher κ}
    {separator : Option (Matcher κ)} (hlater : ∀ m, ∃ N, g.Costs n N m)
    (helement : ∃ N, g.Costs (n + 1) N element) (least : Nat) :
    ∃ N, ∀ depth (s : MatchState κ), Affords depth (n + 1) N s →
      (matchList (g.runWithin depth) element separator least s).1.steps ≤ s.steps + N := by
  obtain ⟨N₁, hsep⟩ : ∃ N, ∀ m ∈ separator, g.Costs n N m := by
    cases separator with
    | none => exact ⟨0, fun _ hm => by cases hm⟩
    | some m =>
      obtain ⟨N, hm⟩ := hlater m
      exact ⟨N, fun _ hm' => by cases hm'; exact hm⟩
  obtain ⟨N₂, hfirst⟩ := helement
  have hothers := hfirst.mono (Nat.le_succ n) le_rfl
  refine ⟨0 + (N₂ + n * (N₁ + N₂)), fun depth s hs => ?_⟩
  have hsteps (bound : Nat) :
      (runElements (g.runWithin depth) element separator bound true s).1.steps ≤
        s.steps + (0 + (N₂ + n * (N₁ + N₂))) := by
    cases bound with
    | zero => exact Nat.le_add_right _ _
    | succ bound =>
      refine steps_runElements_succ hg ⟨s, some none, ?_, .refl s, le_rfl, .refl _⟩ hfirst hs
        (steps_runElements_le hg le_rfl hsep hothers depth bound false)
      cases separator <;> rfl
  have hall := hsteps s.stepsLeft
  rcases heq : runElements (g.runWithin depth) element separator s.stepsLeft true s with ⟨s', items⟩
  rw [heq] at hall
  simp only [matchList, heq]
  split <;> exact hall

/-- A matcher costs one step more than what its construct does. -/
theorem Costs.of_dispatch (h : ∀ depth (s : MatchState κ), Affords depth n N s →
    (g.dispatch (g.runWithin depth) m s).1.steps ≤ s.steps + N) : g.Costs n (1 + N) m := by
  intro depth s hs
  have hspare : s.exhausted = false := by
    have hbudget := hs.le_budget
    simp only [MatchState.exhausted, decide_eq_false_iff_not]
    omega
  have hstep : s.step.steps = s.steps + 1 := by
    rw [MatchState.step, hspare]
    rfl
  cases depth with
  | zero => exact Nat.le_add_right _ _
  | succ depth =>
    rw [runWithin]
    have hleft := hs.stepsLeft_le
    split
    · rw [hstep]
      omega
    · have hs' : Affords (depth + 1) n N s.step :=
        hs.later s.framed_step hstep.le (by rw [s.step_cursor]; exact hs.length_lt)
      have hdepth : s.step.stepsLeft ≤ depth := by
        rw [s.step_stepsLeft]
        omega
      have hsteps := h depth s.step ⟨hdepth, hs'.length_lt, hs'.le_budget⟩
      rw [hstep] at hsteps
      exact hsteps.trans (by omega)

/-- A rule costs what its body does. -/
theorem exists_costs_matchRule (name : κ) {rule : Rule κ}
    (hbody : ∃ N, g.Costs n N rule.body)
    (hitems : ∀ items, rule.body = .seq items → ∃ N, g.CostsItems n N items) :
    ∃ N, ∀ depth (s : MatchState κ), Affords depth n N s →
      (matchRule g.describe (g.runWithin depth) name rule s).1.steps ≤ s.steps + N := by
  unfold matchRule
  split
  · obtain ⟨N, hitems⟩ := hitems _ ‹_›
    exact ⟨N, fun depth s hs => hitems.matchSeq (.rule name) hs⟩
  · obtain ⟨N, hbody⟩ := hbody
    refine ⟨N, fun depth s hs => ?_⟩
    have hsteps := hbody depth s hs
    rcases heq : g.runWithin depth rule.body s with ⟨s', _ | part⟩ <;> rw [heq] at hsteps <;>
      exact hsteps

mutual

/-- A matcher is paid for if the rules are that it can enter before anything is read, and everything
is where less text is left. -/
theorem exists_costs (hg : g.Ranked solid rank) (hlater : ∀ m, ∃ N, g.Costs n N m) :
    ∀ m : Matcher κ, (∀ k ∈ m.leads solid, ∃ N, g.Costs (n + 1) N (.rule k)) →
      ∃ N, g.Costs (n + 1) N m
  | .literal text, _ => ⟨_, .of_dispatch fun _ s _ => s.makeToken_steps_le _⟩
  | .literals set, _ => ⟨_, .of_dispatch fun _ s _ => s.makeToken_steps_le _⟩
  | .pattern reader what, _ => ⟨_, .of_dispatch fun _ s _ => s.makeToken_steps_le _⟩
  | .seq items, h => by
    obtain ⟨N, hitems⟩ := exists_costs_items hg hlater items h
    exact ⟨_, .of_dispatch fun _ s hs => hitems.matchSeq .group hs⟩
  | .any alternatives, h => by
    obtain ⟨N, hany⟩ := exists_costs_matchAny hg (exists_costs_each hg hlater alternatives h)
    exact ⟨_, .of_dispatch fun depth s hs => hany depth none s hs⟩
  | .list element separator least, h => by
    have helement := exists_costs hg hlater element h
    have hlist : ∃ N, ∀ depth (s : MatchState κ), Affords depth (n + 1) N s →
        (matchList (g.runWithin depth) element separator least s).1.steps ≤ s.steps + N :=
      exists_costs_matchList hg hlater helement least
    obtain ⟨N, hlist⟩ := hlist
    exact ⟨_, .of_dispatch hlist⟩
  | .optional body, h => by
    obtain ⟨N, hbody⟩ := exists_costs hg hlater body h
    refine ⟨_, .of_dispatch (N := N) fun depth s hs => ?_⟩
    have hsteps := hbody depth s hs
    rw [dispatch]
    rcases heq : g.runWithin depth body s with ⟨s', _ | part⟩ <;> rw [heq] at hsteps <;>
      exact hsteps
  | .rule name, h => h name List.mem_cons_self
  | .ref index, _ => ⟨_, .of_dispatch (N := 0) fun depth s hs => by
    rw [dispatch, hg.refs]
    exact le_rfl⟩
  | .sure, _ => ⟨_, .of_dispatch (N := 0) fun _ _ _ => le_rfl⟩
  | .skip skipper body, h => by
    obtain ⟨N, hbody⟩ := exists_costs hg hlater body h
    exact ⟨_, .of_dispatch fun depth s hs => hbody depth (s.pushSkipper skipper)
      ⟨hs.stepsLeft_le, hs.length_lt, hs.le_budget⟩⟩

/-- The items of a sequence. Those behind an item that reads something have less text to read. -/
theorem exists_costs_items (hg : g.Ranked solid rank) (hlater : ∀ m, ∃ N, g.Costs n N m) :
    ∀ items : List (Matcher κ),
      (∀ k ∈ Matcher.leadsItems solid items, ∃ N, g.Costs (n + 1) N (.rule k)) →
        ∃ N, g.CostsItems (n + 1) N items
  | [], _ => ⟨0, .nil g (n + 1)⟩
  | m :: rest, h => by
    rw [Matcher.leadsItems, List.forall_mem_append] at h
    obtain ⟨N₁, hitem⟩ := exists_costs hg hlater m h.1
    cases hreads : m.reads solid with
    | true =>
      obtain ⟨N₂, hrest⟩ := exists_costsItems hg fun m (_ : m ∈ rest) => hlater m
      exact ⟨_, .cons hg hitem hrest (.inr ⟨rfl, hreads⟩)⟩
    | false =>
      rw [hreads] at h
      obtain ⟨N₂, hrest⟩ := exists_costs_items hg hlater rest h.2
      exact ⟨_, .cons hg hitem hrest (.inl rfl)⟩

/-- Each of several alternatives. -/
theorem exists_costs_each (hg : g.Ranked solid rank) (hlater : ∀ m, ∃ N, g.Costs n N m) :
    ∀ ms : List (Matcher κ),
      (∀ k ∈ Matcher.leadsAll solid ms, ∃ N, g.Costs (n + 1) N (.rule k)) →
        ∀ m ∈ ms, ∃ N, g.Costs (n + 1) N m
  | [], _ => fun _ hm => absurd hm List.not_mem_nil
  | m :: rest, h => by
    rw [Matcher.leadsAll, List.forall_mem_append] at h
    exact List.forall_mem_cons.2
      ⟨exists_costs hg hlater m h.1, exists_costs_each hg hlater rest h.2⟩

end

/-- A rule is paid for, by induction on its rank. -/
theorem exists_costs_rule (hg : g.Ranked solid rank) (hlater : ∀ m, ∃ N, g.Costs n N m) (name : κ) :
    ∃ N, g.Costs (n + 1) N (.rule name) := by
  induction hrank : rank name using Nat.strongRecOn generalizing name with
  | ind r ih =>
    subst hrank
    cases hrule : g.rule? name with
    | none =>
      refine ⟨_, .of_dispatch (N := 0) fun depth s _ => ?_⟩
      rw [dispatch, hrule]
      exact le_rfl
    | some rule =>
      have hleads : ∀ k ∈ rule.body.leads solid, ∃ N, g.Costs (n + 1) N (.rule k) :=
        fun k hk => ih (rank k) (hg.leads name rule hrule k hk) k rfl
      obtain ⟨N, hcosts⟩ := exists_costs_matchRule name (exists_costs hg hlater rule.body hleads)
        fun items hbody => exists_costs_items hg hlater items (by rw [hbody] at hleads; exact hleads)
      refine ⟨_, .of_dispatch (N := N) fun depth s hs => ?_⟩
      rw [dispatch, hrule]
      exact hcosts depth s hs

end Constructs

/-- Every matcher of a grammar without left recursion takes a number of steps that is bounded by the
length of the text, by induction on the length. -/
theorem Ranked.exists_costs {solid : κ → Bool} {rank : κ → Nat} (hg : g.Ranked solid rank) (n : Nat)
    (m : Matcher κ) : ∃ N, g.Costs n N m := by
  induction n generalizing m with
  | zero => exact ⟨0, fun _ _ hs => absurd hs.length_lt (Nat.not_lt_zero _)⟩
  | succ n ih => exact Grammar.exists_costs hg ih m fun k _ => exists_costs_rule hg ih k

/-- A grammar without left recursion spends no budget from some budget on, whatever rule a text is
matched as and whatever is passed over between tokens. -/
theorem Ranked.unspent {solid : κ → Bool} {rank : κ → Nat} (hg : g.Ranked solid rank)
    (starts : List κ) (source : Source) : ∃ N, ∀ budget ≥ N, ∀ start ∈ starts, ∀ skipper,
      (g.run (.rule start) (startState source ⟨skipper, budget⟩)).1.exhausted = false := by
  have hall : ∃ N, ∀ m ∈ starts.map Matcher.rule, g.Costs (source.chars.length + 1) N m :=
    exists_costs_all fun m _ => hg.exists_costs (source.chars.length + 1) m
  obtain ⟨N, hcosts⟩ := hall
  refine ⟨N, fun budget hbudget start hstart skipper => ?_⟩
  have hsteps := hcosts _ (List.mem_map_of_mem hstart) _ (startState source ⟨skipper, budget⟩)
    ⟨le_rfl, Nat.lt_succ_self _, (Nat.zero_add N).trans_le hbudget⟩
  have hkeeps := (g.run_steps_le (.rule start) (s := startState source ⟨skipper, budget⟩)
    (Nat.zero_le _)).1
  rw [MatchState.exhausted, decide_eq_false_iff_not, not_lt, hkeeps]
  exact (hsteps.trans_eq (Nat.zero_add N)).trans hbudget

/-- A parse whose run has steps left does not say that the budget is spent. -/
theorem parse_ne_budgetExhausted {start : κ} {source : Source} {config : ParseConfig}
    (hleft : (g.run (.rule start) (startState source config)).1.exhausted = false)
    (budget pos : Nat) : g.parse start source config ≠ .error (.budgetExhausted budget pos) := by
  unfold parse
  rcases hrun : g.run (.rule start) (startState source config) with ⟨s, _ | root⟩ <;>
    rw [hrun] at hleft <;> simp only [hleft, Bool.false_eq_true, if_false]
  · nofun
  · split
    · nofun
    · split <;> nofun

/-- A parse whose run has steps left is the same under every larger budget. -/
theorem parse_withBudget {start : κ} {source : Source} {skipper : Skipper} {budget budget' : Nat}
    (hle : budget ≤ budget')
    (hleft : (g.run (.rule start) (startState source ⟨skipper, budget⟩)).1.exhausted = false) :
    g.parse start source ⟨skipper, budget'⟩ = g.parse start source ⟨skipper, budget⟩ := by
  have hrun : g.run (.rule start) (startState source ⟨skipper, budget'⟩) = _ :=
    g.run_withBudget (.rule start) (s := startState source ⟨skipper, budget⟩) hle hleft
  have hkeeps := (g.run_steps_le (.rule start) (s := startState source ⟨skipper, budget⟩)
    (Nat.zero_le _)).1
  have hstill := MatchState.exhausted_withBudget hleft (hkeeps.trans_le hle)
  rw [parse, parse, hrun]
  simp only [hstill, hleft]
  rfl

end Grammar

end ExpLang
