import RecordingAgent.Foundation.CString
import Mathlib.Logic.Function.Basic

/-!
# Texts in a memory

A memory holds a character at every address. A field is a number of characters from an
address on, and its text is what stands in them before the first NUL. A field write stores a
text as `strncpy` does, filling the field up with NULs, or only ends the field's text.

A field which every write either meets exactly or misses altogether holds, after all writes, the
text that was written to it, cut to its length.
-/

namespace Foundation

/-- The terminating character. -/
def nul : Char := Char.ofNat 0

/-- A character at every address. -/
abbrev Memory := ℕ → Char

namespace Memory

/-- `strncpy(dst, src, n)`: `n` characters of the source, filled up with NULs. -/
def strncpy (m : Memory) (dst : ℕ) (src : CString) (n : ℕ) : Memory := fun a =>
  if dst ≤ a ∧ a < dst + n then src[a - dst]?.getD nul else m a

/-- The text of a field of `n` characters. -/
def text (m : Memory) : ℕ → ℕ → CString
  | _, 0 => []
  | a, n + 1 => if m a = nul then [] else m a :: m.text (a + 1) n

/-- The text of a field depends on its characters only. -/
theorem text_congr {m m' : Memory} {a n : ℕ} (h : ∀ b, a ≤ b → b < a + n → m' b = m b) :
    m'.text a n = m.text a n := by
  induction n generalizing a with
  | zero => rfl
  | succ n ih =>
    rw [text, text, h a (le_refl a) (by omega), ih fun b hb hb' => h b (by omega) (by omega)]

/-- A field which begins with a NUL has no text. -/
theorem text_of_nul {m : Memory} {a : ℕ} (h : m a = nul) (n : ℕ) : m.text a n = [] := by
  cases n with
  | zero => rfl
  | succ n => rw [text, if_pos h]

/-- A text ends before a NUL. -/
theorem text_length_le {m : Memory} {a k : ℕ} (h : m (a + k) = nul) (n : ℕ) : (m.text a n).length ≤ k := by
  induction n generalizing a k with
  | zero => exact Nat.zero_le k
  | succ n ih =>
    rw [text]
    split
    · exact Nat.zero_le k
    next hfirst =>
      cases k with
      | zero => exact absurd h hfirst
      | succ k =>
        rw [show a + (k + 1) = a + 1 + k by omega] at h
        exact Nat.succ_le_succ (ih h)

/-- A text has no NUL. -/
theorem nul_notMem_text (m : Memory) (a n : ℕ) : nul ∉ m.text a n := by
  induction n generalizing a with
  | zero => exact List.not_mem_nil
  | succ n ih =>
    rw [text]
    split
    · exact List.not_mem_nil
    next hfirst => exact fun h => (List.mem_cons.mp h).elim (fun hc => hfirst hc.symm) (ih (a + 1))

/-- A text is no longer than its field. -/
theorem text_length_le_field (m : Memory) (a n : ℕ) : (m.text a n).length ≤ n := by
  induction n generalizing a with
  | zero => exact le_refl 0
  | succ n ih =>
    rw [text]
    split
    · exact Nat.zero_le _
    · exact Nat.succ_le_succ (ih (a + 1))

/-- Behind the first part of a text is the rest of it. -/
theorem text_behind {m : Memory} {a n : ℕ} {s t : CString} (h : m.text a n = s ++ t) :
    m.text (a + s.length) (n - s.length) = t := by
  induction s generalizing a n with
  | nil => exact h
  | cons c s ih =>
    cases n with
    | zero => cases h
    | succ n =>
      rw [text] at h
      split at h
      · cases h
      · rw [List.length_cons, Nat.add_sub_add_right, Nat.add_comm s.length 1, ← Nat.add_assoc]
        exact ih (List.cons.inj h).2

/-- The text of a field which holds the characters of a text, filled up with NULs. -/
theorem text_of_getElem {m : Memory} {a n : ℕ} {src : CString} (hsrc : nul ∉ src)
    (h : ∀ i, i < n → m (a + i) = src[i]?.getD nul) : m.text a n = src.take n := by
  induction n generalizing a src with
  | zero => rfl
  | succ n ih =>
    have hfirst := h 0 (Nat.zero_lt_succ n)
    rw [Nat.add_zero] at hfirst
    cases src with
    | nil => rw [text_of_nul hfirst, List.take_nil]
    | cons c src =>
      obtain ⟨hc, hrest⟩ := not_or.mp fun h => hsrc (List.mem_cons.mpr h)
      rw [List.getElem?_cons_zero, Option.getD_some] at hfirst
      rw [text, hfirst, if_neg fun h => hc h.symm, List.take_succ_cons, ih hrest fun i hi => ?_]
      have hnext := h (i + 1) (by omega)
      rwa [List.getElem?_cons_succ, Nat.add_comm i 1, ← Nat.add_assoc] at hnext

/-- A field has a text exactly when it holds the characters of it and, if there is room, a NUL behind them. -/
theorem text_eq_iff {m : Memory} {a n : ℕ} {s : CString} (hs : nul ∉ s) (hlength : s.length ≤ n) :
    m.text a n = s ↔ (∀ i (h : i < s.length), m (a + i) = s[i]) ∧ (s.length < n → m (a + s.length) = nul) := by
  induction n generalizing a s with
  | zero =>
    obtain rfl := List.eq_nil_of_length_eq_zero (Nat.le_zero.mp hlength)
    simp [text]
  | succ n ih =>
    cases s with
    | nil => simp [text]
    | cons c s =>
      obtain ⟨hc, hrest⟩ := not_or.mp fun h => hs (List.mem_cons.mpr h)
      rw [List.length_cons] at hlength
      have hnext := @ih (a + 1) s hrest (by omega)
      have hplace : ∀ i, a + 1 + i = a + (i + 1) := fun i => by omega
      simp only [hplace] at hnext
      constructor
      · intro h
        rw [text] at h
        split at h
        · cases h
        · obtain ⟨hfirst, htext⟩ := List.cons.inj h
          obtain ⟨hchars, hend⟩ := hnext.mp htext
          refine ⟨fun i hi => ?_, fun hlt => hend (by rw [List.length_cons] at hlt; omega)⟩
          cases i with
          | zero => exact hfirst
          | succ i => exact hchars i (by rw [List.length_cons] at hi; omega)
      · rintro ⟨hchars, hend⟩
        have hfirst : m a = c := hchars 0 (Nat.zero_lt_succ _)
        rw [text, hfirst, if_neg fun h => hc h.symm]
        congr 1
        refine hnext.mpr ⟨fun i hi => hchars (i + 1) (by rw [List.length_cons]; omega), fun hlt => hend ?_⟩
        rw [List.length_cons]
        omega

/-- A stored text is cut to the field's length. -/
theorem text_strncpy (m : Memory) (a : ℕ) {src : CString} (hsrc : nul ∉ src) (n : ℕ) :
    (m.strncpy a src n).text a n = src.take n :=
  text_of_getElem hsrc fun i hi => by
    rw [strncpy, if_pos ⟨Nat.le_add_right a i, Nat.add_lt_add_left hi a⟩, Nat.add_sub_cancel_left]

end Memory

/-- A text to be stored in a field; an empty one only ends the field's text. -/
structure FieldWrite where
  address : ℕ
  length : ℕ
  text : CString

namespace FieldWrite

/-- The memory after a write. -/
def apply (m : Memory) (w : FieldWrite) : Memory :=
  if w.text = [] then Function.update m w.address nul else m.strncpy w.address w.text w.length

/-- The write does not touch a field of `n` characters. -/
def Misses (w : FieldWrite) (a n : ℕ) : Prop := w.address + w.length ≤ a ∨ a + n ≤ w.address

/-- The write is to a field of `n` characters. -/
def Meets (w : FieldWrite) (a n : ℕ) : Prop := w.address = a ∧ w.length = n

variable {w : FieldWrite} {ws : List FieldWrite} {m : Memory} {a n : ℕ}

/-- A write which misses a field leaves its characters. -/
theorem apply_of_misses (hlength : 0 < w.length) (h : w.Misses a n) {b : ℕ} (hb : a ≤ b) (hb' : b < a + n) :
    w.apply m b = m b := by
  unfold Misses at h
  unfold apply
  split
  · exact Function.update_of_ne (by omega) _ _
  · exact if_neg (by omega)

/-- Writes which miss a field leave its characters. -/
theorem foldl_of_misses (h : ∀ w ∈ ws, 0 < w.length ∧ w.Misses a n) {b : ℕ} (hb : a ≤ b) (hb' : b < a + n) :
    ws.foldl apply m b = m b := by
  induction ws generalizing m with
  | nil => rfl
  | cons w ws ih =>
    obtain ⟨hlength, hmisses⟩ := h w List.mem_cons_self
    rw [List.foldl_cons, ih fun w' hw' => h w' (List.mem_cons_of_mem _ hw')]
    exact apply_of_misses hlength hmisses hb hb'

/-- A field holds the text written to it. -/
theorem text_apply (hmeets : w.Meets a n) (htext : nul ∉ w.text) : (w.apply m).text a n = w.text.take n := by
  obtain ⟨rfl, rfl⟩ := hmeets
  unfold apply
  split
  · rename_i hempty
    rw [hempty, List.take_nil]
    exact Memory.text_of_nul (Function.update_self _ _ _) _
  · exact m.text_strncpy _ htext _

/-- When every write misses a field or stores the same text in it, the field holds this text. -/
theorem text_foldl {t : CString} (htext : nul ∉ t)
    (h : ∀ w ∈ ws, 0 < w.length ∧ (w.Misses a n ∨ w.Meets a n ∧ w.text = t))
    (hmeets : (∃ w ∈ ws, w.Meets a n ∧ w.text = t) ∨ m.text a n = t.take n) :
    (ws.foldl apply m).text a n = t.take n := by
  induction ws generalizing m with
  | nil =>
    rcases hmeets with ⟨w, hw, -⟩ | hheld
    · cases hw
    · exact hheld
  | cons w ws ih =>
    obtain ⟨hlength, hw⟩ := h w List.mem_cons_self
    refine ih (fun w' hw' => h w' (List.mem_cons_of_mem _ hw')) ?_
    rcases hw with hmisses | ⟨hmeets', rfl⟩
    · rcases hmeets with ⟨w', hw', hmeets'⟩ | hheld
      · rcases List.mem_cons.mp hw' with rfl | hw'
        · obtain ⟨⟨rfl, rfl⟩, -⟩ := hmeets'
          unfold Misses at hmisses
          omega
        · exact Or.inl ⟨w', hw', hmeets'⟩
      · exact Or.inr ((Memory.text_congr fun b => apply_of_misses hlength hmisses).trans hheld)
    · exact Or.inr (text_apply hmeets' htext)

end FieldWrite

end Foundation
