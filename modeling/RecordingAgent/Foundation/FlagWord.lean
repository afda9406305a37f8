import Mathlib.Data.Nat.Notation
import Mathlib.Tactic.Push
import Mathlib.Tactic.ByContra

/-!
# Flag words tested against masks

A flag word is a bit vector in which named masks are switched on with `|||` and off with
`&&& ~~~`. The test `(word & mask) != 0` is `Has`: some bit is set in both. The lemmas
compute that test through the two updates, for masks which overlap or avoid what changed.
-/

namespace Foundation

variable {w : ℕ}

/-- The test `(word & mask) != 0`. -/
def Has (word mask : BitVec w) : Prop := word &&& mask ≠ 0

instance (word mask : BitVec w) : Decidable (Has word mask) := inferInstanceAs (Decidable (_ ≠ _))

/-- The test succeeds exactly when the word and the mask share a set bit. -/
theorem has_iff (word mask : BitVec w) :
    Has word mask ↔ ∃ i, word.getLsbD i = true ∧ mask.getLsbD i = true := by
  constructor
  · intro h
    by_contra hbits
    push Not at hbits
    refine h (BitVec.eq_of_getLsbD_eq fun i _ => ?_)
    simpa using hbits i
  · rintro ⟨i, hword, hmask⟩ hzero
    have hbit := congrArg (fun v => v.getLsbD i) hzero
    simp [hword, hmask] at hbit

@[simp] theorem not_has_zero (mask : BitVec w) : ¬ Has (0 : BitVec w) mask := by simp [Has]

/-- Switching flags on adds the bits of the new flags to what is tested. -/
theorem has_or (word flags mask : BitVec w) :
    Has (word ||| flags) mask ↔ Has word mask ∨ Has flags mask := by
  simp only [has_iff, BitVec.getLsbD_or, Bool.or_eq_true, or_and_right, exists_or]

/-- A mask of two parts is met when one of the parts is. -/
theorem has_mask_or (word mask mask' : BitVec w) :
    Has word (mask ||| mask') ↔ Has word mask ∨ Has word mask' := by
  simp only [has_iff, BitVec.getLsbD_or, Bool.or_eq_true, and_or_left, exists_or]

/-- Switching flags off does not disturb a mask they avoid. -/
theorem has_clear_of_disjoint {flags mask : BitVec w} (h : flags &&& mask = 0) (word : BitVec w) :
    Has (word &&& ~~~flags) mask ↔ Has word mask := by
  have havoid : ∀ i, mask.getLsbD i = true → flags.getLsbD i = false := by
    intro i hmask
    have hbit := congrArg (fun v => v.getLsbD i) h
    simpa [hmask] using hbit
  simp only [has_iff, BitVec.getLsbD_and, BitVec.getLsbD_not, Bool.and_eq_true]
  refine exists_congr fun i => ⟨fun hi => ⟨hi.1.1, hi.2⟩, fun hi => ⟨⟨hi.1, ?_⟩, hi.2⟩⟩
  rw [havoid i hi.2]
  simp [BitVec.lt_of_getLsbD hi.2]

/-- Switching flags off clears every mask inside them. -/
theorem not_has_clear {flags mask : BitVec w} (h : mask &&& flags = mask) (word : BitVec w) :
    ¬ Has (word &&& ~~~flags) mask := by
  rw [has_iff]
  rintro ⟨i, hword, hmask⟩
  have hbit := congrArg (fun v => v.getLsbD i) h
  simp only [BitVec.getLsbD_and, BitVec.getLsbD_not, Bool.and_eq_true, hmask] at hbit hword
  simp [hbit] at hword

/-- Switching flags off switches none on. -/
theorem has_of_clear {word flags mask : BitVec w} (h : Has (word &&& ~~~flags) mask) : Has word mask := by
  obtain ⟨i, hword, hmask⟩ := (has_iff _ _).mp h
  rw [BitVec.getLsbD_and, Bool.and_eq_true] at hword
  exact (has_iff _ _).mpr ⟨i, hword.1, hmask⟩

/-- Switching off flags of which none is on changes nothing. -/
theorem clear_of_not_has {word flags : BitVec w} (h : ¬ Has word flags) : word &&& ~~~flags = word := by
  refine BitVec.eq_of_getLsbD_eq fun i hi => ?_
  have hbit : word.getLsbD i = true → flags.getLsbD i = false := by
    intro hword
    by_contra hflag
    exact h ((has_iff _ _).mpr ⟨i, hword, by simpa using hflag⟩)
  rw [BitVec.getLsbD_and, BitVec.getLsbD_not]
  cases hword : word.getLsbD i with
  | false => rfl
  | true =>
    rw [hbit hword]
    simp [hi]

/-- All flags of a mask of two parts are on when they are in both parts. -/
theorem and_eq_mask_or (word mask mask' : BitVec w) :
    word &&& (mask ||| mask') = mask ||| mask' ↔ word &&& mask = mask ∧ word &&& mask' = mask' := by
  have hbits : ∀ m : BitVec w, word &&& m = m ↔ ∀ i, m.getLsbD i = true → word.getLsbD i = true := by
    intro m
    rw [BitVec.eq_of_getLsbD_eq_iff]
    constructor
    · intro h i hmask
      have hbit := h i (BitVec.lt_of_getLsbD hmask)
      rw [BitVec.getLsbD_and, hmask] at hbit
      simpa using hbit
    · intro h i _
      rw [BitVec.getLsbD_and]
      cases hmask : m.getLsbD i with
      | false => simp
      | true => simp [h i hmask]
  simp only [hbits, BitVec.getLsbD_or, Bool.or_eq_true, or_imp, forall_and]

/-- A mask of one bit is on altogether exactly when the test for it succeeds. -/
theorem and_eq_twoPow_iff (word : BitVec w) {i : ℕ} (h : i < w) :
    word &&& BitVec.twoPow w i = BitVec.twoPow w i ↔ Has word (BitVec.twoPow w i) := by
  have hne : BitVec.twoPow w i ≠ 0#w := by
    intro hzero
    have hbit := congrArg (fun v => v.getLsbD i) hzero
    simp [h] at hbit
  rw [Has, BitVec.and_twoPow]
  cases word.getLsbD i with
  | false => simp [hne.symm]
  | true => simp [hne]

end Foundation
