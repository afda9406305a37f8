import Mathlib.Data.Fintype.Card
import Mathlib.Data.List.FinRange
import Mathlib.Algebra.BigOperators.Group.Finset.Piecewise

/-!
# Counting slots

The number of slots of a fixed table which satisfy a decidable property, how it moves when
the property changes at one slot, and how it transfers along a one-to-one matching of slots.
-/

namespace Foundation

variable {n : ℕ}

/-- The number of slots satisfying a property. -/
def slotCount (p : Fin n → Prop) [DecidablePred p] : ℕ := (List.finRange n).countP fun i => p i

/-- The count is the cardinality of the satisfying slots. -/
theorem slotCount_eq_card (p : Fin n → Prop) [DecidablePred p] :
    slotCount p = (Finset.univ.filter p).card := by
  have hset : Finset.univ.filter p = ((List.finRange n).filter fun i => p i).toFinset := by
    ext i
    simp
  rw [slotCount, List.countP_eq_length_filter, hset,
    List.toFinset_card_of_nodup ((List.nodup_finRange n).filter _)]

theorem slotCount_congr {p q : Fin n → Prop} [DecidablePred p] [DecidablePred q]
    (h : ∀ i, p i ↔ q i) : slotCount p = slotCount q := by
  simp only [slotCount, h]

/-- A property which changes at one slot only changes the count by that slot. -/
theorem slotCount_change {p q : Fin n → Prop} [DecidablePred p] [DecidablePred q] (c : Fin n)
    (h : ∀ i, i ≠ c → (p i ↔ q i)) :
    slotCount q + (if p c then 1 else 0) = slotCount p + (if q c then 1 else 0) := by
  have hrest : ∑ i ∈ Finset.univ.erase c, (if p i then 1 else 0) =
      ∑ i ∈ Finset.univ.erase c, (if q i then 1 else 0) := by
    refine Finset.sum_congr rfl fun i hi => ?_
    simp only [h i (Finset.ne_of_mem_erase hi)]
  rw [slotCount_eq_card, slotCount_eq_card, Finset.card_filter, Finset.card_filter,
    ← Finset.add_sum_erase _ _ (Finset.mem_univ c), ← Finset.add_sum_erase _ _ (Finset.mem_univ c),
    hrest]
  omega

/-- Slots which are matched one to one are equally many. -/
theorem slotCount_eq_of_matching {p q : Fin n → Prop} [DecidablePred p] [DecidablePred q]
    (f : Fin n → Fin n) (hmaps : ∀ i, p i → q (f i))
    (hinj : ∀ i j, p i → p j → f i = f j → i = j) (hsurj : ∀ j, q j → ∃ i, p i ∧ f i = j) :
    slotCount p = slotCount q := by
  rw [slotCount_eq_card, slotCount_eq_card]
  refine Finset.card_nbij f ?_ ?_ ?_
  · intro i hi
    simpa using hmaps i (by simpa using hi)
  · intro i hi j hj
    exact hinj i j (by simpa using hi) (by simpa using hj)
  · intro j hj
    obtain ⟨i, hi, rfl⟩ := hsurj j (by simpa using hj)
    exact ⟨i, by simpa using hi, rfl⟩

/-- No slot satisfies the property exactly when the count is zero. -/
theorem slotCount_eq_zero {p : Fin n → Prop} [DecidablePred p] : slotCount p = 0 ↔ ∀ i, ¬ p i := by
  simp [slotCount]

end Foundation
