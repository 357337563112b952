import Mathlib.Data.Finset.Card
import Mathlib.Logic.Relation

/-!
# Relations without circles

What a piece of code enters, and what a type is made of, are relations between finitely many things.
Where nothing comes back to itself along such a relation, its things have ranks: numbers that fall
from step to step and are not greater than the number of things. A rank bounds how deep a recursion
along the relation goes. A recursion that answers to some depth does not come back to itself.
-/

namespace ExpLang

variable {α : Type} {r : α → α → Prop}

/-- Nothing comes back to itself along a relation. -/
def Acyclic (r : α → α → Prop) : Prop := ∀ a, ¬ Relation.TransGen r a a

/-- A relation whose steps raise a rank has no circles. -/
theorem Acyclic.of_rank (rank : α → Nat) (h : ∀ a b, r a b → rank a < rank b) : Acyclic r := by
  have hpath : ∀ a b, Relation.TransGen r a b → rank a < rank b := by
    intro a b hab
    induction hab with
    | single hstep => exact h _ _ hstep
    | tail _ hstep ih => exact ih.trans (h _ _ hstep)
  exact fun a ha => Nat.lt_irrefl _ (hpath a a ha)

/-- A relation without circles that leads to finitely many things only has ranks, bounded by their
number: the rank of a thing is the number of those from which there is a path to it. -/
theorem Acyclic.exists_rank (h : Acyclic r) (nodes : Finset α)
    (hnodes : ∀ a b, r a b → b ∈ nodes) :
    ∃ rank : α → Nat, (∀ a, rank a ≤ nodes.card) ∧ ∀ a b, r a b → rank a < rank b := by
  classical
  refine ⟨fun a => (nodes.filter fun c => Relation.ReflTransGen r c a).card,
    fun a => Finset.card_filter_le _ _, fun a b hab => Finset.card_lt_card ?_⟩
  refine Finset.ssubset_iff_subset_ne.2 ⟨fun c hc => ?_, fun heq => ?_⟩
  · obtain ⟨hc, hpath⟩ := Finset.mem_filter.1 hc
    exact Finset.mem_filter.2 ⟨hc, hpath.tail hab⟩
  · -- the end of the step is counted for itself, but not for the beginning of the step
    have hb : b ∈ nodes.filter fun c => Relation.ReflTransGen r c b :=
      Finset.mem_filter.2 ⟨hnodes a b hab, .refl⟩
    rw [← heq] at hb
    exact h b (Relation.TransGen.tail' (Finset.mem_filter.1 hb).2 hab)

/-- What is accessible does not come back to itself. -/
theorem not_transGen_of_acc {a : α} (h : Acc r a) : ¬ Relation.TransGen r a a := by
  have hself : ∀ b, Acc (Relation.TransGen r) b → ¬ Relation.TransGen r b b := by
    intro b hb
    induction hb with
    | intro b _ ih => exact fun hcircle => ih b hcircle hcircle
  exact hself a h.transGen

/-! ## Recursion to a depth -/

/-- Mapping a list by a partial function succeeds if it does so at every place. -/
theorem isSome_mapM_iff {α β : Type} {f : α → Option β} {xs : List α} :
    (xs.mapM f).isSome = true ↔ ∀ x ∈ xs, (f x).isSome = true := by
  induction xs with
  | nil => simp
  | cons x xs ih =>
    rw [List.mapM_cons, List.forall_mem_cons, ← ih]
    cases f x <;> cases xs.mapM f <;> simp

/-- A recursion that enters what a thing is made of, and answers to some depth, comes to an end. -/
theorem acc_of_isSome {β : Type} {f : Nat → α → Option β} (hzero : ∀ a, f 0 a = none)
    (hsucc : ∀ depth a, (f (depth + 1) a).isSome = true ↔ ∀ b, r b a → (f depth b).isSome = true)
    {depth : Nat} {a : α} (h : (f depth a).isSome = true) : Acc r a := by
  induction depth generalizing a with
  | zero =>
    rw [hzero] at h
    cases h
  | succ depth ih => exact ⟨a, fun b hb => ih ((hsucc depth a).1 h b hb)⟩

end ExpLang
