import Mathlib.Data.List.Basic

/-!
# Histories that only grow

A history is a list to which steps append. `GrewBy P old new` says that `new` is `old` with
entries added at the end, each of which satisfies `P`.
-/

namespace Foundation

variable {α : Type*} {P Q : α → Prop} {old mid new : List α}

/-- The history only got new entries, all with the property. -/
def GrewBy (P : α → Prop) (old new : List α) : Prop := ∃ added, new = old ++ added ∧ ∀ a ∈ added, P a

namespace GrewBy

theorem of_eq (h : new = old) : GrewBy P old new := ⟨[], by simpa using h, by simp⟩

theorem refl (old : List α) : GrewBy P old old := of_eq rfl

theorem trans (h : GrewBy P old mid) (h' : GrewBy P mid new) : GrewBy P old new := by
  obtain ⟨added, rfl, hadded⟩ := h
  obtain ⟨added', rfl, hadded'⟩ := h'
  refine ⟨added ++ added', List.append_assoc .., fun a ha => ?_⟩
  exact (List.mem_append.mp ha).elim (hadded a) (hadded' a)

theorem mono (h : GrewBy P old new) (hPQ : ∀ a, P a → Q a) : GrewBy Q old new := by
  obtain ⟨added, heq, hadded⟩ := h
  exact ⟨added, heq, fun a ha => hPQ a (hadded a ha)⟩

theorem singleton {a : α} (ha : P a) (h : new = old ++ [a]) : GrewBy P old new :=
  ⟨[a], h, by simpa using ha⟩

/-- The entries after the old ones have the property. -/
theorem mem_drop (h : GrewBy P old new) {a : α} (ha : a ∈ new.drop old.length) : P a := by
  obtain ⟨added, rfl, hadded⟩ := h
  rw [List.drop_left] at ha
  exact hadded a ha

/-- What is known of the entries after the old ones is known of what was added. -/
theorem of_drop (h : GrewBy P old new) (hQ : ∀ a ∈ new.drop old.length, Q a) : GrewBy Q old new := by
  obtain ⟨added, rfl, -⟩ := h
  rw [List.drop_left] at hQ
  exact ⟨added, rfl, hQ⟩

/-- What was added on the way is added in the end, and so is what was added after. -/
theorem dropped (h : GrewBy P old mid) (h' : GrewBy Q mid new) :
    mid.drop old.length ⊆ new.drop old.length ∧ new.drop mid.length ⊆ new.drop old.length := by
  obtain ⟨added, rfl, -⟩ := h
  obtain ⟨added', rfl, -⟩ := h'
  rw [List.append_assoc, List.drop_left, List.drop_left, ← List.append_assoc, List.drop_left]
  exact ⟨List.subset_append_left _ _, List.subset_append_right _ _⟩

end GrewBy

end Foundation
