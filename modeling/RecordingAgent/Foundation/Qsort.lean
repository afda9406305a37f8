import Mathlib.Data.List.Sort

/-!
# Sorting by a comparison function

The C library sorts by a function which tells by its sign which of two members comes first. What it leaves is
determined up to the order of members which compare equal, provided the function is consistent on the members.
-/

namespace Foundation

variable {α : Type*}

/-- The comparison function orders the members of the list. -/
structure OrdersMembers (cmp : α → α → ℤ) (l : List α) : Prop where
  symm : ∀ a ∈ l, ∀ b ∈ l, cmp a b ≤ 0 ↔ 0 ≤ cmp b a
  trans : ∀ a ∈ l, ∀ b ∈ l, ∀ c ∈ l, cmp a b ≤ 0 → cmp b c ≤ 0 → cmp a c ≤ 0

/-- What `qsort` does with such a list: a permutation of it is left, in the order of the function. -/
def SortsMembers (qsort : (α → α → ℤ) → List α → List α) : Prop :=
  ∀ cmp l, OrdersMembers cmp l → (qsort cmp l).Perm l ∧ (qsort cmp l).Pairwise fun a b => cmp a b ≤ 0

/-- A merge sort by the function. -/
def mergeQsort (cmp : α → α → ℤ) (l : List α) : List α :=
  (l.attach.mergeSort fun a b => decide (cmp a.1 b.1 ≤ 0)).map Subtype.val

theorem sortsMembers_mergeQsort : SortsMembers (mergeQsort (α := α)) := by
  intro cmp l horders
  constructor
  · have hperm := (List.mergeSort_perm l.attach fun a b => decide (cmp a.1 b.1 ≤ 0)).map Subtype.val
    rwa [List.attach_map_subtype_val] at hperm
  · have htrans (a b c : { x // x ∈ l }) (hab : decide (cmp a.1 b.1 ≤ 0) = true)
        (hbc : decide (cmp b.1 c.1 ≤ 0) = true) : decide (cmp a.1 c.1 ≤ 0) = true :=
      decide_eq_true (horders.trans a.1 a.2 b.1 b.2 c.1 c.2 (of_decide_eq_true hab) (of_decide_eq_true hbc))
    have htotal (a b : { x // x ∈ l }) : (decide (cmp a.1 b.1 ≤ 0) || decide (cmp b.1 a.1 ≤ 0)) = true := by
      have hsymm := horders.symm b.1 b.2 a.1 a.2
      simp only [Bool.or_eq_true, decide_eq_true_eq]
      omega
    have hsorted := List.pairwise_mergeSort htrans htotal l.attach
    rw [mergeQsort, List.pairwise_map]
    exact hsorted.imp of_decide_eq_true

/-- The comparison function is consistent on the members of a set, and tells by its sign how their keys compare. -/
structure ComparesBy (cmp : α → α → ℤ) (key : α → ℤ) (S : Set α) : Prop where
  antisymm : ∀ a ∈ S, ∀ b ∈ S, (cmp a b).sign = -(cmp b a).sign
  trans : ∀ a ∈ S, ∀ b ∈ S, ∀ c ∈ S, cmp a b ≤ 0 → cmp b c ≤ 0 → cmp a c ≤ 0
  sign : ∀ a ∈ S, ∀ b ∈ S, (cmp a b).sign = (key a - key b).sign

/-- The sign is enough: a function with the signs of the differences is consistent. -/
theorem comparesBy_of_sign {cmp : α → α → ℤ} {key : α → ℤ} {S : Set α}
    (hsign : ∀ a ∈ S, ∀ b ∈ S, (cmp a b).sign = (key a - key b).sign) : ComparesBy cmp key S where
  antisymm a ha b hb := by
    rw [hsign a ha b hb, hsign b hb a ha, ← Int.sign_neg, Int.neg_sub]
  trans a ha b hb c hc hab hbc := by
    have hle : ∀ x ∈ S, ∀ y ∈ S, cmp x y ≤ 0 ↔ key x ≤ key y := fun x hx y hy => by
      rw [← Int.sign_nonpos_iff, hsign x hx y hy, Int.sign_nonpos_iff]
      omega
    exact (hle a ha c hc).mpr (((hle a ha b hb).mp hab).trans ((hle b hb c hc).mp hbc))
  sign := hsign

/-- A function that compares by keys orders the members of a list. -/
theorem ComparesBy.ordersMembers {cmp : α → α → ℤ} {key : α → ℤ} {l : List α}
    (h : ComparesBy cmp key { a | a ∈ l }) : OrdersMembers cmp l where
  symm a ha b hb := by
    have hneg := h.antisymm a ha b hb
    rw [← Int.sign_nonpos_iff, hneg, ← Int.sign_nonneg_iff (x := cmp b a)]
    omega
  trans := h.trans

end Foundation
