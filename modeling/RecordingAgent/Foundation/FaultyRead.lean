import Mathlib.Data.List.Basic

/-!
# Reading a file in blocks, with failures

A file is read from its beginning in blocks of one size, and each read can fail: it then gives fewer items than
a whole block and leaves the position anywhere. The end is noticed by a read which gives fewer items without
failing. Without failures the blocks are those of the file, and its end is noticed.
-/

namespace Foundation

variable {α : Type*}

/-- A file, and for each read of it, by its number, whether it fails: then how many items it gives nevertheless,
and where it leaves the position. -/
structure FaultyFile (α : Type*) where
  items : List α
  failure : ℕ → Option (ℕ × ℕ)

namespace FaultyFile

variable {f : FaultyFile α} {size n pos : ℕ}

/-- What the `n`th read from a position gives. -/
def readAt (f : FaultyFile α) (size n pos : ℕ) : List α :=
  match f.failure n with
  | none => (f.items.drop pos).take size
  | some (count, _) => (f.items.drop pos).take (min count (size - 1))

/-- Where the `n`th read from a position leaves it. -/
def nextPos (f : FaultyFile α) (size n pos : ℕ) : ℕ :=
  match f.failure n with
  | none => pos + (f.readAt size n pos).length
  | some (_, next) => next

/-- Whether the `n`th read from a position notices the end of the file. -/
def atEnd (f : FaultyFile α) (size n pos : ℕ) : Bool :=
  (f.failure n).isNone && decide ((f.readAt size n pos).length < size)

/-- The position before the `n`th read. -/
def posAt (f : FaultyFile α) (size : ℕ) : ℕ → ℕ
  | 0 => 0
  | n + 1 => f.nextPos size n (f.posAt size n)

/-- What the `n`th read gives. -/
def block (f : FaultyFile α) (size n : ℕ) : List α := f.readAt size n (f.posAt size n)

/-- Whether the `n`th read notices the end. -/
def endsAt (f : FaultyFile α) (size n : ℕ) : Bool := f.atEnd size n (f.posAt size n)

/-- The `n`th read takes place: none before it notices the end. -/
def Reached (f : FaultyFile α) (size n : ℕ) : Prop := ∀ k < n, f.endsAt size k = false

/-- What the first reads give together. -/
def gathered (f : FaultyFile α) (size : ℕ) : ℕ → List α
  | 0 => []
  | n + 1 => f.gathered size n ++ f.block size n

theorem Reached.mono {m : ℕ} (h : f.Reached size n) (hmn : m ≤ n) : f.Reached size m :=
  fun k hk => h k (Nat.lt_of_lt_of_le hk hmn)

theorem reached_succ : f.Reached size (n + 1) ↔ f.Reached size n ∧ f.endsAt size n = false := by
  constructor
  · intro h
    exact ⟨h.mono (Nat.le_succ n), h n (Nat.lt_succ_self n)⟩
  · rintro ⟨h, hn⟩ k hk
    rcases Nat.lt_succ_iff_lt_or_eq.mp hk with hlt | rfl
    · exact h k hlt
    · exact hn

/-- What a read without a failure gives. -/
theorem block_of_not_fails (h : f.failure n = none) :
    f.block size n = (f.items.drop (f.posAt size n)).take size := by
  rw [block, readAt, h]

/-- A read which neither fails nor notices the end gives a whole block. -/
theorem length_block (h : f.failure n = none) (hend : f.endsAt size n = false) :
    (f.block size n).length = size := by
  have hle : (f.block size n).length ≤ size := by
    rw [block_of_not_fails h]
    exact List.length_take_le _ _
  have hge : ¬ (f.block size n).length < size := by
    intro hlt
    rw [endsAt, atEnd, h] at hend
    exact absurd hlt (by simpa [block] using hend)
  omega

/-- As long as no read fails, the position is behind as many whole blocks, and these are what was read. -/
theorem posAt_and_gathered (hreached : f.Reached size n) (h : ∀ k < n, f.failure k = none) :
    f.posAt size n = n * size ∧ f.gathered size n = f.items.take (n * size) := by
  induction n with
  | zero => exact ⟨(Nat.zero_mul size).symm, by rw [Nat.zero_mul, List.take_zero, gathered]⟩
  | succ n ih =>
    obtain ⟨hbefore, hend⟩ := reached_succ.mp hreached
    obtain ⟨hpos, hgathered⟩ := ih hbefore fun k hk => h k (Nat.lt_succ_of_lt hk)
    have hn := h n (Nat.lt_succ_self n)
    have hlength := length_block hn hend
    constructor
    · rw [posAt, nextPos, hn, Nat.succ_mul]
      change f.posAt size n + (f.block size n).length = n * size + size
      rw [hpos, hlength]
    · rw [gathered, hgathered, block_of_not_fails hn, hpos, Nat.succ_mul, List.take_add]

/-- A read which notices the end completes the file, if no read failed. -/
theorem gathered_of_endsAt (hreached : f.Reached size n) (h : ∀ k ≤ n, f.failure k = none)
    (hend : f.endsAt size n = true) : f.gathered size (n + 1) = f.items := by
  obtain ⟨hpos, hgathered⟩ := posAt_and_gathered hreached fun k hk => h k (Nat.le_of_lt hk)
  have hn := h n (Nat.le_refl n)
  have hshort : (f.block size n).length < size := by
    rw [endsAt, atEnd, hn] at hend
    simpa [block] using hend
  rw [block_of_not_fails hn, List.length_take] at hshort
  rw [gathered, block_of_not_fails hn, hgathered, ← hpos,
    List.take_of_length_le (show (f.items.drop (f.posAt size n)).length ≤ size by omega), List.take_append_drop]

/-- The end is noticed when no read fails. -/
theorem exists_endsAt (hsize : 0 < size) (h : ∀ n, f.Reached size n → f.failure n = none) :
    ∃ n, f.endsAt size n = true := by
  by_contra hnever
  have hreached : ∀ n, f.Reached size n := fun n k _ => Bool.eq_false_iff.mpr fun hk => hnever ⟨k, hk⟩
  have hn := h f.items.length (hreached _)
  obtain ⟨hpos, -⟩ := posAt_and_gathered (hreached f.items.length) fun k _ => h k (hreached k)
  have hlength := length_block hn (hreached (f.items.length + 1) _ (Nat.lt_succ_self _))
  have hbehind : f.items.length ≤ f.items.length * size := Nat.le_mul_of_pos_right _ hsize
  rw [block_of_not_fails hn, hpos, List.drop_eq_nil_of_le hbehind, List.take_nil, List.length_nil] at hlength
  omega

end FaultyFile

end Foundation
