import ExpLang.Proofs.Matching.Runner

/-!
# Matching sequences

The parts that the items of a sequence leave in the arena, and the node that is made of them, stand
for the outcome that the items and the sequence have one construct at a time.
-/

namespace ExpLang

variable {κ : Type} {P : Skipper → MatchRel κ} {bound : Nat} {run : Runner κ} {s : MatchState κ}

/-- Parts with whether they are captured have values with whether those are captured. -/
def PartsGrounded (base : Nat) (nodes : Arena κ) :
    List (Match κ × Bool) → List (ParseTree κ × Bool) → Prop :=
  List.Forall₂ fun part t => part.1.Grounded base nodes t.1 ∧ part.2 = t.2

/-- The outcome that the parts and the ending of a sequence stand for. -/
inductive ItemsAnswer (base : Nat) (s : MatchState κ) :
    List (Match κ × Bool) → SeqEnd → SeqOutcome κ → Prop
  | refused {parts} : ItemsAnswer base s parts .refused .refused
  | ended {parts trees hole} : PartsGrounded base s.nodes parts trees →
      ItemsAnswer base s parts (.ended hole) (.ended trees hole s.cursor)

/-- A part in front of an answer from a later state. -/
theorem ItemsAnswer.cons {base later : Nat} {s : MatchState κ} {parts : List (Match κ × Bool)}
    {ending : SeqEnd} {r : SeqOutcome κ} {part : Match κ} {t : ParseTree κ}
    (h : ItemsAnswer later s parts ending r) (hle : base ≤ later)
    (hpart : part.Grounded base s.nodes t) (stored : Bool) :
    ItemsAnswer base s ((part, stored) :: parts) ending (r.cons (t, stored)) := by
  cases h with
  | refused => exact .refused
  | ended hparts =>
    exact .ended (.cons ⟨hpart, rfl⟩ (hparts.imp fun _ _ hg => ⟨hg.1.mono hle, hg.2⟩))

/-- Running the items of a sequence. -/
theorem runItems_answers (hrun : Simulates P bound run) (describe : Matcher κ → String)
    (items : List (Matcher κ)) (committed : Bool) (s : MatchState κ) (hs : s.stepsLeft ≤ bound) :
    ∃ s' parts ending r, runItems describe run committed items s = (s', parts, ending) ∧
      s.Framed s' ∧ ItemsAnswer s.nodes.size s' parts ending r ∧
      (s'.Excused (AllowsRefusal P) →
        ItemsRel describe s.activeSkipper (P s.activeSkipper) committed items s.cursor r) := by
  induction items generalizing committed s with
  | nil => exact ⟨s, [], .ended none, _, rfl, .refl s, .ended .nil, fun _ => .done⟩
  | cons item items ih =>
    rw [runItems]
    by_cases hsure : item.isSure = true
    · rw [if_pos hsure]
      obtain ⟨s', parts, ending, r, heq, hframed, hanswer, hrel⟩ := ih true s hs
      exact ⟨s', parts, ending, r, heq, hframed, hanswer, fun hG => .cut hsure (hrel hG)⟩
    · have hitem : item.isSure = false := by simpa using hsure
      rw [if_neg hsure]
      rcases hrun.cases item hs with
        ⟨s₁, heq, hframed, -, -, hcursor, hP⟩ | ⟨s₁, part, t, heq, hframed, -, hground, hP⟩
      · simp only [heq]
        cases committed with
        | false => exact ⟨s₁, [], .refused, _, rfl, hframed, .refused, fun hG => .refused hitem (hP hG)⟩
        | true =>
          refine ⟨s₁, [], _, _, rfl, hframed, .ended .nil, fun hG => ?_⟩
          rw [hcursor]
          exact .stuck hitem (hP hG)
      · have hhole : t.hole = part.node.hole := hground.fields.2.2
        simp only [heq, hground.isComplete hframed]
        cases hh : t.hole with
        | some hole =>
          rw [hh] at hhole
          simp only [Option.isNone_some, Bool.false_eq_true, if_false, ← hhole]
          exact ⟨s₁, _, _, _, rfl, hframed, .ended (.cons ⟨hground, rfl⟩ .nil),
            fun hG => .inside hitem (hP hG) hh⟩
        | none =>
          obtain ⟨s', parts, ending, r, heq', hframed', hanswer, hrel⟩ :=
            ih committed s₁ (hframed.stepsLeft.trans hs)
          rw [hframed.activeSkipper] at hrel
          simp only [Option.isNone_none, if_true, heq']
          exact ⟨s', _, ending, _, rfl, hframed.trans hframed',
            hanswer.cons hframed.size (hground.framed hframed') _,
            fun hG => .next hitem (hP (hframed'.excused hG)) hh (hrel hG)⟩

/-- The node of a sequence has the value that its parts give it. -/
theorem makeSeq_answers {s s' : MatchState κ} (h : s.Framed s') (kind : NodeKind κ) (pos : Nat)
    {parts : List (Match κ × Bool)} {trees : List (ParseTree κ × Bool)}
    (hparts : PartsGrounded s.nodes.size s'.nodes parts trees) (hole : Option Hole) :
    s.Answers (makeSeq kind pos parts hole s')
      ⟨some ⟨kind, ParseTree.cover (trees.map (·.1)) pos, trees.map (·.1),
        (trees.filter (·.2)).map (·.1.capture), hole⟩, s'.cursor⟩ := by
  have hall : List.Forall₂ (Match.Grounded s.nodes.size s'.nodes) (parts.map (·.1))
      (trees.map (·.1)) := by
    rw [List.forall₂_map_left_iff, List.forall₂_map_right_iff]
    exact hparts.imp fun _ _ hg => hg.1
  have hstored : List.Forall₂ (Match.Grounded s.nodes.size s'.nodes)
      ((parts.filter (·.2)).map (·.1)) ((trees.filter (·.2)).map (·.1)) := by
    have hfilter : PartsGrounded s.nodes.size s'.nodes (parts.filter (·.2)) (trees.filter (·.2)) :=
      List.rel_filter (fun _ _ hg => by simp only [hg.2]) hparts
    rw [List.forall₂_map_left_iff, List.forall₂_map_right_iff]
    exact hfilter.imp fun _ _ hg => hg.1
  have hids : parts.map (·.1.id) = (parts.map (·.1)).map (·.id) := by simp
  refine MatchState.make_answers h (fun c hc => base_le_of_mem_ids hall (hids ▸ hc)) rfl ?_
  have hcaptures := captures_tree? hstored
  simp only [List.map_map, Function.comp_def] at hcaptures
  rw [Node.tree?, coverParts_eq hall]
  simp only [hids, children_tree? hall, hcaptures, Option.bind_eq_bind, Option.bind_some,
    Option.pure_def]

/-- Matching a sequence. -/
theorem matchSeq_answers (hrun : Simulates P bound run) (describe : Matcher κ → String)
    (items : List (Matcher κ)) (kind : NodeKind κ) (hs : s.stepsLeft ≤ bound) :
    ∃ r, s.Answers (matchSeq describe run items kind s) (r.outcome kind s.cursor) ∧
      ((matchSeq describe run items kind s).1.Excused (AllowsRefusal P) →
        ItemsRel describe s.activeSkipper (P s.activeSkipper) false items s.cursor r) := by
  obtain ⟨s', parts, ending, r, heq, hframed, hanswer, hrel⟩ :=
    runItems_answers hrun describe items false s hs
  refine ⟨r, ?_⟩
  rw [matchSeq]
  simp only [heq]
  cases hanswer with
  | refused => exact ⟨MatchState.answers_rewind hframed, hrel⟩
  | ended hparts => exact ⟨makeSeq_answers hframed kind s.cursor.pos hparts _, hrel⟩

end ExpLang
