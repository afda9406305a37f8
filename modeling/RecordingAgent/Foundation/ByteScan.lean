import Mathlib.Data.List.Basic
import Mathlib.Algebra.Order.Ring.Int

/-!
# Scanning a memory

A scan goes up or down through a memory as long as what it reads has a property. It comes with the addresses
it has read, and with no address when it has not stopped within the addresses there are for it.
-/

namespace Foundation

variable {α : Type*} (area : ℤ → α) (p : α → Bool)

/-- Go up from an address, for at most so many reads, to the first one without the property. -/
def scanUp : ℕ → ℤ → Option ℤ × List ℤ
  | 0, _ => (none, [])
  | n + 1, a =>
      if p (area a) then
        let rest := scanUp n (a + 1)
        (rest.1, a :: rest.2)
      else (some a, [a])

/-- Go down from an address, for at most so many reads, to the first one below which the property fails. -/
def scanDown : ℕ → ℤ → Option ℤ × List ℤ
  | 0, _ => (none, [])
  | n + 1, a =>
      if p (area (a - 1)) then
        let rest := scanDown n (a - 1)
        (rest.1, (a - 1) :: rest.2)
      else (some a, [a - 1])

variable {area p} {n : ℕ} {a r : ℤ}

/-- A scan that stops has read everything up to where it stopped, all of it with the property but the last. -/
theorem scanUp_stop (h : (scanUp area p n a).1 = some r) :
    a ≤ r ∧ (∀ b, a ≤ b → b < r → p (area b) = true) ∧ p (area r) = false ∧
      ∀ b, b ∈ (scanUp area p n a).2 ↔ a ≤ b ∧ b ≤ r := by
  induction n generalizing a with
  | zero => cases h
  | succ n ih =>
    rw [scanUp] at h ⊢
    split at h
    · rename_i hp
      obtain ⟨hle, hbetween, hstop, hreads⟩ := ih h
      rw [if_pos hp]
      refine ⟨by omega, fun b hb hbr => ?_, hstop, fun b => ?_⟩
      · by_cases hba : b = a
        · rw [hba, hp]
        · exact hbetween b (by omega) hbr
      · rw [List.mem_cons, hreads]
        omega
    · rename_i hp
      obtain rfl := Option.some.inj h
      rw [if_neg hp]
      refine ⟨le_refl a, fun b hb hbr => by omega, by simpa using hp, fun b => ?_⟩
      rw [List.mem_singleton]
      omega

/-- A scan stops at the first address without the property when there are reads enough. -/
theorem scanUp_eq (hle : a ≤ r) (hbetween : ∀ b, a ≤ b → b < r → p (area b) = true) (hstop : p (area r) = false)
    (hn : r - a < n) : (scanUp area p n a).1 = some r := by
  induction n generalizing a with
  | zero => omega
  | succ n ih =>
    rw [scanUp]
    by_cases har : a = r
    · rw [har, if_neg (by rw [hstop]; decide)]
    · rw [if_pos (hbetween a (le_refl a) (by omega))]
      exact ih (by omega) (fun b hb hbr => hbetween b (by omega) hbr) (by push_cast at hn; omega)

/-- A scan down that stops has read everything down to the address below where it stopped. -/
theorem scanDown_stop (h : (scanDown area p n a).1 = some r) :
    r ≤ a ∧ (∀ b, r ≤ b → b < a → p (area b) = true) ∧ p (area (r - 1)) = false ∧
      ∀ b, b ∈ (scanDown area p n a).2 ↔ r - 1 ≤ b ∧ b < a := by
  induction n generalizing a with
  | zero => cases h
  | succ n ih =>
    rw [scanDown] at h ⊢
    split at h
    · rename_i hp
      obtain ⟨hle, hbetween, hstop, hreads⟩ := ih h
      rw [if_pos hp]
      refine ⟨by omega, fun b hb hba => ?_, hstop, fun b => ?_⟩
      · by_cases hbelow : b = a - 1
        · rw [hbelow, hp]
        · exact hbetween b hb (by omega)
      · rw [List.mem_cons, hreads]
        omega
    · rename_i hp
      obtain rfl := Option.some.inj h
      rw [if_neg hp]
      refine ⟨le_refl a, fun b hb hba => by omega, by simpa using hp, fun b => ?_⟩
      rw [List.mem_singleton]
      omega

/-- A scan down stops above the first address without the property when there are reads enough. -/
theorem scanDown_eq (hle : r ≤ a) (hbetween : ∀ b, r ≤ b → b < a → p (area b) = true)
    (hstop : p (area (r - 1)) = false) (hn : a - r < n) : (scanDown area p n a).1 = some r := by
  induction n generalizing a with
  | zero => omega
  | succ n ih =>
    rw [scanDown]
    by_cases har : a = r
    · rw [har, if_neg (by rw [hstop]; decide)]
    · rw [if_pos (hbetween (a - 1) (by omega) (by omega))]
      exact ih (by omega) (fun b hb hba => hbetween b hb (by omega)) (by push_cast at hn; omega)

end Foundation
