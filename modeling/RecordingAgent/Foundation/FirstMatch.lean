import Mathlib.Order.Defs.LinearOrder
import Mathlib.Data.List.Basic
import Mathlib.Data.List.MinMax

/-!
# The first match in a sorted list

A linear search in a strictly increasing list returns the least member that matches. A search for the
least by a measure returns the member no other comes before.
-/

namespace Foundation

variable {α : Type*} [LinearOrder α] {p : α → Bool}

/-- What a search in an increasing list finds matches, and nothing before it does. -/
theorem find?_first {items : List α} (hsorted : items.Pairwise (· < ·)) {c : α}
    (h : items.find? p = some c) : ∀ j ∈ items, j < c → p j = false := by
  obtain ⟨_, before, after, hsplit, hbefore⟩ := List.find?_eq_some_iff_append.mp h
  intro j hj hlt
  rw [hsplit] at hj hsorted
  rcases List.mem_append.mp hj with hin | hin
  · simpa using hbefore j hin
  · rcases List.mem_cons.mp hin with rfl | hafter
    · exact absurd hlt (lt_irrefl _)
    · have hgt := List.rel_of_pairwise_cons (List.pairwise_append.mp hsorted).2.1 hafter
      exact absurd hlt (lt_asymm hgt)

/-- A search in an increasing list finds exactly the least member that matches. -/
theorem find?_eq_some_iff_first {items : List α} (hsorted : items.Pairwise (· < ·)) {c : α} :
    items.find? p = some c ↔ c ∈ items ∧ p c = true ∧ ∀ j ∈ items, j < c → p j = false := by
  constructor
  · intro h
    exact ⟨List.mem_of_find?_eq_some h, List.find?_some h, find?_first hsorted h⟩
  · rintro ⟨hmem, hmatch, hfirst⟩
    cases hfind : items.find? p with
    | none => simp [List.find?_eq_none.mp hfind c hmem] at hmatch
    | some d =>
      have hd := List.find?_some hfind
      rcases lt_trichotomy c d with hlt | rfl | hlt
      · rw [find?_first hsorted hfind c hmem hlt] at hmatch
        cases hmatch
      · rfl
      · rw [hfirst d (List.mem_of_find?_eq_some hfind) hlt] at hd
        cases hd

/-- An entry of a list which comes before another by a measure: its measure is less, or it is the same
and the entry stands earlier. -/
def ComesBefore {β : Type*} [DecidableEq β] (measure : β → α) (items : List β) (a b : β) : Prop :=
  a ∈ items ∧ (measure a < measure b ∨ measure a = measure b ∧ items.idxOf a < items.idxOf b)

/-- The first entry with the least measure is the one no other comes before. -/
theorem mem_argmin_iff_comesBefore {β : Type*} [DecidableEq β] {measure : β → α} {items : List β} {b : β} :
    b ∈ items.argmin measure ↔ b ∈ items ∧ ∀ a, ¬ ComesBefore measure items a b := by
  rw [List.mem_argmin_iff]
  refine and_congr_right fun _ => ⟨?_, fun h => ⟨fun a ha => ?_, fun a ha hle => ?_⟩⟩
  · rintro ⟨hleast, hfirst⟩ a ⟨hmem, hlt | ⟨heq, hidx⟩⟩
    · exact absurd (hleast a hmem) (not_le.mpr hlt)
    · exact absurd (hfirst a hmem heq.le) (not_le.mpr hidx)
  · exact not_lt.mp fun hlt => h a ⟨ha, Or.inl hlt⟩
  · refine not_lt.mp fun hidx => h a ⟨ha, ?_⟩
    rcases hle.lt_or_eq with hlt | heq
    · exact Or.inl hlt
    · exact Or.inr ⟨heq, hidx⟩

end Foundation
