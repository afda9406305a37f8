import Mathlib.Data.List.Lex
import Mathlib.Tactic.Ring
import RecordingAgent.Foundation.CString

/-!
# Decimal fields of a fixed width

A number printed with leading zeros to a width it fits reads back as itself, and strings of
digits of one length are ordered as the numbers they stand for.
-/

namespace Foundation

theorem decimalValue_eq_ofDigitChars (digits : CString) : decimalValue digits = Nat.ofDigitChars 10 digits 0 :=
  (Nat.ofDigitChars_eq_foldl (b := 10)).symm

/-- The digits before another run count by its length. -/
theorem decimalValue_append (a b : CString) :
    decimalValue (a ++ b) = 10 ^ b.length * decimalValue a + decimalValue b := by
  simp only [decimalValue_eq_ofDigitChars]
  rw [Nat.ofDigitChars_append, Nat.ofDigitChars_eq_ofDigitChars_zero]

theorem decimalValue_cons (c : Char) (digits : CString) :
    decimalValue (c :: digits) = 10 ^ digits.length * (c.toNat - '0'.toNat) + decimalValue digits := by
  have h := decimalValue_append [c] digits
  simpa [decimalValue] using h

/-- A digit stands for a number below ten. -/
theorem toNat_of_isDigit {c : Char} (h : c.isDigit = true) : '0'.toNat ≤ c.toNat ∧ c.toNat ≤ '0'.toNat + 9 := by
  simp only [Char.isDigit, Bool.and_eq_true, decide_eq_true_eq] at h
  exact h

/-- The value of a run of digits is below the power of its length. -/
theorem decimalValue_lt {digits : CString} (h : ∀ c ∈ digits, c.isDigit = true) :
    decimalValue digits < 10 ^ digits.length := by
  induction digits with
  | nil => simp [decimalValue]
  | cons c rest ih =>
    have hrest := ih fun d hd => h d (List.mem_cons_of_mem c hd)
    have hc := toNat_of_isDigit (h c List.mem_cons_self)
    have hdigit : c.toNat - '0'.toNat ≤ 9 := by omega
    rw [decimalValue_cons, List.length_cons, pow_succ]
    calc 10 ^ rest.length * (c.toNat - '0'.toNat) + decimalValue rest
        < 10 ^ rest.length * 9 + 10 ^ rest.length := add_lt_add_of_le_of_lt (Nat.mul_le_mul_left _ hdigit) hrest
      _ = 10 ^ rest.length * 10 := by ring

/-- Leading zeros do not count. -/
theorem decimalValue_padded (width n : ℕ) : decimalValue (padded '0' width n) = n := by
  rw [decimalValue_eq_ofDigitChars, padded, List.leftpad, Nat.ofDigitChars_append, Nat.ofDigitChars_replicate_zero,
    mul_zero, Nat.ofDigitChars_ten_toDigits]

/-- A number that fits fills the width. -/
theorem padded_length {fill : Char} {width n : ℕ} (hwidth : 0 < width) (hn : n < 10 ^ width) :
    (padded fill width n).length = width := by
  have hdigits := (Nat.length_toDigits_le_iff (n := n) (by decide : 1 < 10) hwidth).mpr hn
  rw [padded, List.leftpad, List.length_append, List.length_replicate]
  omega

theorem isDigit_padded {width n : ℕ} : ∀ c ∈ padded '0' width n, c.isDigit = true := by
  intro c hc
  cases List.mem_append.mp hc with
  | inl hpad => rw [List.eq_of_mem_replicate hpad]; rfl
  | inr hdigit => exact Nat.isDigit_of_mem_toDigits (by decide) (by decide) hdigit

/-- A number which needs the whole width is not filled. -/
theorem padded_of_le {fill : Char} {width n : ℕ} (hwidth : 0 < width) (hn : 10 ^ width ≤ n) :
    padded fill (width + 1) n = padded '0' (width + 1) n := by
  have hdigits : ¬ (Nat.toDigits 10 n).length ≤ width := fun h =>
    absurd ((Nat.length_toDigits_le_iff (by decide : 1 < 10) hwidth).mp h) (by omega)
  simp only [padded, List.leftpad, show width + 1 - (Nat.toDigits 10 n).length = 0 by omega, List.replicate_zero]

/-- Strings are ordered by their first parts of equal length, then by the rest. -/
theorem append_lt_append_iff {a b x y : CString} (h : a.length = b.length) :
    a ++ x < b ++ y ↔ a < b ∨ a = b ∧ x < y := by
  induction a generalizing b with
  | nil =>
    obtain rfl := List.length_eq_zero_iff.mp h.symm
    simp
  | cons c a ih =>
    cases b with
    | nil => simp at h
    | cons d b =>
      simp only [List.cons_append, List.cons_lt_cons_iff, ih (Nat.succ.inj h), List.cons.injEq]
      tauto

/-- Runs of digits of one length are ordered as their values. -/
theorem lt_iff_decimalValue_lt {a b : CString} (ha : ∀ c ∈ a, c.isDigit = true) (hb : ∀ c ∈ b, c.isDigit = true)
    (h : a.length = b.length) : a < b ↔ decimalValue a < decimalValue b := by
  induction a generalizing b with
  | nil =>
    obtain rfl := List.length_eq_zero_iff.mp h.symm
    simp
  | cons c a ih =>
    cases b with
    | nil => simp at h
    | cons d b =>
      have hlength : a.length = b.length := Nat.succ.inj h
      have ha' : ∀ e ∈ a, e.isDigit = true := fun e he => ha e (List.mem_cons_of_mem c he)
      have hb' : ∀ e ∈ b, e.isDigit = true := fun e he => hb e (List.mem_cons_of_mem d he)
      have hc := toNat_of_isDigit (ha c List.mem_cons_self)
      have hd := toNat_of_isDigit (hb d List.mem_cons_self)
      have hlow := decimalValue_lt ha'
      have hlow' := decimalValue_lt hb'
      rw [← hlength] at hlow'
      have hchar : c < d ↔ c.toNat < d.toNat := Iff.rfl
      have heq : c = d ↔ c.toNat = d.toNat := ⟨congrArg _, fun h => Char.toNat_inj.mp h⟩
      rw [List.cons_lt_cons_iff, ih ha' hb' hlength, decimalValue_cons, decimalValue_cons, hchar, heq, ← hlength]
      rcases lt_trichotomy c.toNat d.toNat with hlt | hsame | hgt
      · have hstep := Nat.mul_le_mul_left (10 ^ a.length)
          (show c.toNat - '0'.toNat + 1 ≤ d.toNat - '0'.toNat by omega)
        rw [mul_add, mul_one] at hstep
        exact iff_of_true (Or.inl hlt) (by omega)
      · rw [hsame]
        simp
      · have hstep := Nat.mul_le_mul_left (10 ^ a.length)
          (show d.toNat - '0'.toNat + 1 ≤ c.toNat - '0'.toNat by omega)
        rw [mul_add, mul_one] at hstep
        exact iff_of_false (by omega) (by omega)

/-- A digit is neither a blank nor a sign. -/
theorem not_blank_of_isDigit {c : Char} (h : c.isDigit = true) : c.isWhitespace = false ∧ c ≠ '-' ∧ c ≠ '+' := by
  have hrange := toNat_of_isDigit h
  refine ⟨?_, ?_, ?_⟩
  · rw [Bool.eq_false_iff]
    intro hblank
    simp only [Char.isWhitespace, Bool.or_eq_true, decide_eq_true_eq] at hblank
    rcases hblank with ((rfl | rfl) | rfl) | rfl <;> exact absurd hrange (by decide)
  · rintro rfl
    exact absurd hrange (by decide)
  · rintro rfl
    exact absurd hrange (by decide)

/-- `atoi` reads a run of digits as far as it goes. -/
theorem atoi_append {digits rest : CString} (hdigits : ∀ d ∈ digits, d.isDigit = true) (hne : digits ≠ [])
    (hrest : rest.takeWhile Char.isDigit = []) : atoi (digits ++ rest) = decimalValue digits := by
  have hspan : (digits ++ rest).takeWhile Char.isDigit = digits := by
    rw [List.takeWhile_append_of_pos hdigits, hrest, List.append_nil]
  cases digits with
  | nil => exact absurd rfl hne
  | cons d digits =>
    obtain ⟨hblank, hminus, hplus⟩ := not_blank_of_isDigit (hdigits d List.mem_cons_self)
    have hdrop : (d :: digits ++ rest).dropWhile Char.isWhitespace = d :: digits ++ rest := by
      rw [List.cons_append, List.dropWhile_cons_of_neg (by simp [hblank])]
    unfold atoi
    rw [hdrop]
    split
    · rename_i heq
      exact absurd (List.cons.inj heq).1 hminus
    · rename_i heq
      exact absurd (List.cons.inj heq).1 hplus
    · rw [hspan]

/-- `atoi` reads a run of digits up to the first character which is none. -/
theorem atoi_digits {digits rest : CString} {c : Char} (hdigits : ∀ d ∈ digits, d.isDigit = true)
    (hne : digits ≠ []) (hc : c.isDigit = false) : atoi (digits ++ c :: rest) = decimalValue digits :=
  atoi_append hdigits hne (List.takeWhile_cons_of_neg (by simp [hc]))

/-- `%d` and its longer variants. -/
def signedDigits (z : ℤ) : CString :=
  if z < 0 then '-' :: Nat.toDigits 10 z.natAbs else Nat.toDigits 10 z.natAbs

theorem decimalValue_toDigits (n : ℕ) : decimalValue (Nat.toDigits 10 n) = n := by
  rw [decimalValue_eq_ofDigitChars, Nat.ofDigitChars_ten_toDigits]

theorem isDigit_toDigits (n : ℕ) : ∀ c ∈ Nat.toDigits 10 n, c.isDigit = true := fun _ hc =>
  Nat.isDigit_of_mem_toDigits (by decide) (by decide) hc

/-- What is printed reads back, before anything but a digit. -/
theorem atoi_signedDigits_append (z : ℤ) {rest : CString} (hrest : rest.takeWhile Char.isDigit = []) :
    atoi (signedDigits z ++ rest) = z := by
  have hspan : (Nat.toDigits 10 z.natAbs ++ rest).takeWhile Char.isDigit = Nat.toDigits 10 z.natAbs := by
    rw [List.takeWhile_append_of_pos (isDigit_toDigits _), hrest, List.append_nil]
  unfold signedDigits
  split
  next hneg =>
    have hatoi : atoi ('-' :: Nat.toDigits 10 z.natAbs ++ rest) =
        -(decimalValue ((Nat.toDigits 10 z.natAbs ++ rest).takeWhile Char.isDigit) : ℤ) := by
      simp [atoi, Char.isWhitespace]
    rw [hatoi, hspan, decimalValue_toDigits]
    omega
  next hneg =>
    rw [atoi_append (isDigit_toDigits z.natAbs) Nat.toDigits_ne_nil hrest, decimalValue_toDigits]
    omega

/-- What is printed reads back. -/
theorem atoi_signedDigits (z : ℤ) : atoi (signedDigits z) = z := by
  rw [← List.append_nil (signedDigits z)]
  exact atoi_signedDigits_append z rfl

/-- A printed number has digits and a sign. -/
theorem mem_signedDigits {z : ℤ} {c : Char} (h : c ∈ signedDigits z) : c.isDigit = true ∨ c = '-' := by
  unfold signedDigits at h
  split at h
  · rcases List.mem_cons.mp h with rfl | h
    · exact Or.inr rfl
    · exact Or.inl (isDigit_toDigits _ _ h)
  · exact Or.inl (isDigit_toDigits _ _ h)

/-- A printed number below a power of ten has no more digits, and a sign in front of them if it is negative. -/
theorem signedDigits_length {z : ℤ} {k : ℕ} (hk : 0 < k) (h : z.natAbs < 10 ^ k) :
    (signedDigits z).length ≤ if z < 0 then k + 1 else k := by
  have hdigits : (Nat.toDigits 10 z.natAbs).length ≤ k := (Nat.length_toDigits_le_iff (by decide) hk).mpr h
  unfold signedDigits
  split
  · rw [List.length_cons]
    omega
  · exact hdigits

/-- A printed `int` has at most eleven characters. -/
theorem signedDigits_length_le {z : ℤ} (h : -2 ^ 31 ≤ z ∧ z < 2 ^ 31) : (signedDigits z).length ≤ 11 := by
  have hlength := signedDigits_length (z := z) (show 0 < 10 by decide) (by omega)
  split at hlength <;> omega

theorem signedDigits_ne_nil (z : ℤ) : signedDigits z ≠ [] := by
  unfold signedDigits
  split
  · exact List.cons_ne_nil _ _
  · exact Nat.toDigits_ne_nil

end Foundation
