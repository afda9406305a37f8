import Mathlib.Data.List.Basic
import Mathlib.Data.Nat.ModEq
import Mathlib.Logic.Function.Basic

/-!
# Circular buffers

The queue that a circular buffer stands for is the window of cells from its head on. Reading
the head drops the front of the window, and writing the first cell behind the window extends
it, as long as the buffer is not full: indices less than one lap apart name different cells.
-/

namespace Foundation

variable {α : Type*} {n head size : ℕ} {buf : ℕ → α}

/-- The next index of a buffer with `n` cells. -/
def advance (n i : ℕ) : ℕ := if i + 1 = n then 0 else i + 1

/-- The `size` cells from `head` on, in reading order. -/
def window (n : ℕ) (buf : ℕ → α) (head size : ℕ) : List α :=
  (List.range size).map fun i => buf ((head + i) % n)

/-- Advancing an index of the buffer is addition modulo its size. -/
theorem advance_eq_mod {i : ℕ} (hi : i < n) : advance n i = (i + 1) % n := by
  unfold advance
  split
  · rename_i hlast
    rw [hlast, Nat.mod_self]
  · rename_i hinner
    rw [Nat.mod_eq_of_lt (by omega)]

/-- An advanced index is again an index of the buffer. -/
theorem advance_lt {i : ℕ} (hi : i < n) : advance n i < n := by
  unfold advance
  split <;> omega

@[simp] theorem window_zero : window n buf head 0 = [] := rfl

/-- Cells less than one lap apart are different cells. -/
theorem cell_ne {i j : ℕ} (hij : i < j) (hj : j < n) : (head + i) % n ≠ (head + j) % n := by
  intro hcell
  have hmod : i ≡ j [MOD n] := Nat.ModEq.add_left_cancel' head hcell
  have heq : i = j := by
    rwa [Nat.ModEq, Nat.mod_eq_of_lt (hij.trans hj), Nat.mod_eq_of_lt hj] at hmod
  omega

/-- Reading the head leaves the window behind it. -/
theorem window_succ (hhead : head < n) :
    window n buf head (size + 1) = buf head :: window n buf (advance n head) size := by
  rw [window, List.range_succ_eq_map, List.map_cons, List.map_map, Nat.add_zero,
    Nat.mod_eq_of_lt hhead, window, advance_eq_mod hhead]
  congr 1
  apply List.map_congr_left
  intro i _
  change buf ((head + (i + 1)) % n) = buf (((head + 1) % n + i) % n)
  rw [Nat.mod_add_mod, Nat.add_right_comm, Nat.add_assoc]

/-- Writing a cell outside the window leaves the window alone. -/
theorem window_update {k : ℕ} (x : α) (hk : size ≤ k) (hroom : k < n) :
    window n (Function.update buf ((head + k) % n) x) head size = window n buf head size := by
  apply List.map_congr_left
  intro i hi
  have hne : (head + i) % n ≠ (head + k) % n :=
    cell_ne ((List.mem_range.mp hi).trans_le hk) hroom
  rw [Function.update_of_ne hne]

/-- Writing the first free cell appends to the window. -/
theorem window_push (x : α) (hroom : size < n) :
    window n (Function.update buf ((head + size) % n) x) head (size + 1) =
      window n buf head size ++ [x] := by
  conv_lhs => rw [window, List.range_succ, List.map_append]
  congr 1
  · exact window_update x le_rfl hroom
  · simp

end Foundation
