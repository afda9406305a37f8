import RecordingAgent.Foundation.ByteScan
import RecordingAgent.Foundation.FieldMemory
import RecordingAgent.Foundation.Getopt

/-!
# Tokens carved in place

A text lies in a memory with its terminator. `strtok_r` looks for the next token from a saved address on,
overwrites the separator behind the token with a terminator, and saves the address behind it. No address up to
which it has come is written again by a later call, so that all tokens stay where they were found.
-/

namespace Foundation

/-- From this address on stands this text with its terminator. -/
def TextAt (area : ℤ → Char) (a : ℤ) (s : CString) : Prop :=
  (∀ i (h : i < s.length), area (a + i) = s[i]) ∧ area (a + s.length) = nul

/-- Write a text behind an address. -/
def writeText (area : ℤ → Char) : ℤ → CString → ℤ → Char
  | _, [] => area
  | a, c :: s => writeText (Function.update area a c) (a + 1) s

section WriteText

variable {area : ℤ → Char} {a b : ℤ} {s : CString}

theorem writeText_before (hb : b < a) : writeText area a s b = area b := by
  induction s generalizing area a with
  | nil => rfl
  | cons c s ih =>
    rw [writeText, ih (by omega), Function.update_of_ne (by omega)]

theorem writeText_behind (hb : a + s.length ≤ b) : writeText area a s b = area b := by
  induction s generalizing area a with
  | nil => rfl
  | cons c s ih =>
    rw [List.length_cons] at hb
    push_cast at hb
    rw [writeText, ih (by omega), Function.update_of_ne (by omega)]

theorem writeText_within {i : ℕ} (hi : i < s.length) : writeText area a s (a + i) = s[i] := by
  induction s generalizing area a i with
  | nil => cases hi
  | cons c s ih =>
    cases i with
    | zero => rw [writeText, writeText_before (by omega)]; simp
    | succ i =>
      have hstep : a + ((i + 1 : ℕ) : ℤ) = a + 1 + (i : ℤ) := by push_cast; omega
      rw [writeText, hstep, ih (Nat.lt_of_succ_lt_succ hi)]
      rfl

/-- A text written before a NUL is terminated there. -/
theorem textAt_writeText (hend : area (a + s.length) = nul) : TextAt (writeText area a s) a s :=
  ⟨fun _ hi => writeText_within hi, by rw [writeText_behind (le_refl _), hend]⟩

end WriteText

namespace TextAt

variable {area : ℤ → Char} {a : ℤ} {s l r : CString}

/-- The characters of a text and its terminator decide. -/
theorem congr (h : TextAt area a s) {area' : ℤ → Char} (hsame : ∀ b, a ≤ b → b ≤ a + s.length → area' b = area b) :
    TextAt area' a s :=
  ⟨fun i hi => by rw [hsame _ (by omega) (by omega), h.1 i hi], by rw [hsame _ (by omega) (by omega), h.2]⟩

/-- A character of the second part of a text. -/
theorem right (h : TextAt area a (l ++ r)) {i : ℕ} (hi : i < r.length) : area (a + (l.length + i)) = r[i] := by
  have hchar := h.1 (l.length + i) (by rw [List.length_append]; omega)
  rw [Nat.cast_add, List.getElem_append_right (by omega)] at hchar
  simpa using hchar

/-- The first character of a text. -/
theorem head {c : Char} (h : TextAt area a (c :: s)) : area a = c := by
  simpa using h.1 0 (Nat.zero_lt_succ _)

/-- Where the second part of a text stands. -/
theorem drop (h : TextAt area a (l ++ r)) : TextAt area (a + l.length) r := by
  refine ⟨fun i hi => ?_, ?_⟩
  · rw [add_assoc, h.right hi]
  · have hend := h.2
    rwa [List.length_append, Nat.cast_add, ← add_assoc] at hend

/-- A text with a terminator written behind its first part. -/
theorem cut (h : TextAt area a (l ++ r)) : TextAt (Function.update area (a + l.length) nul) a l := by
  refine ⟨fun i hi => ?_, Function.update_self _ _ _⟩
  rw [Function.update_of_ne (by omega), h.1 i (by rw [List.length_append]; omega), List.getElem_append_left hi]

/-- A scan over the first part of a text stops behind it, at the next character or the terminator. -/
theorem scanUp_eq (h : TextAt area a (l ++ r)) {p : Char → Bool} (hl : ∀ c ∈ l, p c = true)
    (hstop : p (r.head?.getD nul) = false) {n : ℕ} (hn : l.length < n) :
    (scanUp area p n a).1 = some (a + l.length) := by
  refine Foundation.scanUp_eq (by omega) (fun b hb hbl => ?_) ?_ (by omega)
  · obtain ⟨i, hi⟩ := Int.le.dest hb
    subst hi
    have hlt : i < l.length := by omega
    rw [h.1 i (by rw [List.length_append]; omega), List.getElem_append_left hlt]
    exact hl _ (List.getElem_mem hlt)
  · cases r with
    | nil =>
      have hend := h.2
      rw [List.append_nil] at hend
      rwa [hend]
    | cons c r => rwa [h.drop.head]

/-- A scan down from the terminator over the last part of a text stops behind the character before it. -/
theorem scanDown_eq {c : Char} (h : TextAt area a (l ++ c :: r)) {p : Char → Bool} (hr : ∀ d ∈ r, p d = true)
    (hstop : p c = false) {n : ℕ} (hn : r.length < n) :
    (scanDown area p n (a + l.length + 1 + r.length)).1 = some (a + l.length + 1) := by
  have hlast : TextAt area (a + l.length + 1) r := h.drop.drop (l := [c])
  refine Foundation.scanDown_eq (by omega) (fun b hb hbr => ?_) ?_ (by omega)
  · obtain ⟨i, hi⟩ := Int.le.dest hb
    subst hi
    have hlt : i < r.length := by omega
    rw [hlast.1 i hlt]
    exact hr _ (List.getElem_mem hlt)
  · rwa [add_sub_cancel_right, h.drop.head]

end TextAt

/-- `strtok_r` from the saved address on, in a block which ends before the limit: the address of the token, the
address to save, and the memory; `none` for an access outside of the block. -/
def strtokAt (separator : Char) (limit : ℤ) (area : ℤ → Char) (s : ℤ) : Option (Option ℤ × ℤ × (ℤ → Char)) :=
  match (scanUp area (· == separator) (limit - s).toNat s).1 with
  | none => none
  | some token =>
    if area token = nul then some (none, token, area)
    else
      match (scanUp area (fun c => c != separator && c != nul) (limit - token).toNat token).1 with
      | none => none
      | some last =>
        if area last = nul then some (some token, last, area)
        else some (some token, last + 1, Function.update area last nul)

/-- What the search for a token does with a text in the memory: it finds none, or a token which now stands in the
memory with its terminator, before the rest of the text. Nothing was written up to the token's terminator. -/
inductive TokenCarved (area : ℤ → Char) (s : ℤ) (t : CString) :
    Option (CString × CString) → Option ℤ × ℤ × (ℤ → Char) → Prop
  | none (rest : ℤ) : TokenCarved area s t none (none, rest, area)
  | token {word rest : CString} {a s' : ℤ} {area' : ℤ → Char} (hne : word ≠ []) (hbegin : s ≤ a)
      (hword : TextAt area' a word) (hbehind : a + word.length ≤ s') (hrest : TextAt area' s' rest)
      (hwithin : s' + rest.length ≤ s + t.length) (hpart : rest ⊆ t) (hkept : ∀ b < a + word.length, area' b = area b) :
      TokenCarved area s t (some (word, rest)) (some a, s', area')

variable {separator : Char} {limit s : ℤ} {area : ℤ → Char} {t : CString}

variable (limit) in
/-- Behind the separators a word is the token, up to the next separator or the terminator. -/
theorem strtokAt_word {blanks word tail : CString} (h : TextAt area s (blanks ++ (word ++ tail)))
    (hblanks : ∀ c ∈ blanks, c = separator) (hword : separator ∉ word) (hne : word ≠ []) (hnul : nul ∉ word)
    (hsep : separator ≠ nul) (htail : tail.head?.getD separator = separator)
    (hlimit : s + blanks.length + word.length < limit) :
    strtokAt separator limit area s =
      let token := s + blanks.length
      let last := token + word.length
      if area last = nul then some (some token, last, area)
      else some (some token, last + 1, Function.update area last nul) := by
  have hskip : (scanUp area (· == separator) (limit - s).toNat s).1 = some (s + blanks.length) := by
    refine h.scanUp_eq (fun c hc => by simpa using hblanks c hc) ?_ (by omega)
    cases word with
    | nil => exact absurd rfl hne
    | cons c word => simpa using fun hc : c = separator => hword (hc ▸ List.mem_cons_self)
  have hspan : (scanUp area (fun c => c != separator && c != nul) (limit - (s + blanks.length)).toNat
      (s + blanks.length)).1 = some (s + blanks.length + word.length) := by
    refine h.drop.scanUp_eq (fun c hc => ?_) ?_ (by omega)
    · have hother : c ≠ separator := fun hc' => hword (hc' ▸ hc)
      have hvisible : c ≠ nul := fun hc' => hnul (hc' ▸ hc)
      simp [hother, hvisible]
    · cases tail with
      | nil => simp
      | cons c tail =>
        obtain rfl : c = separator := htail
        simp
  have hfirst : area (s + blanks.length) ≠ nul := by
    cases word with
    | nil => exact absurd rfl hne
    | cons c word =>
      rw [h.drop.head]
      exact fun hc => hnul (hc ▸ List.mem_cons_self)
  simp only [strtokAt, hskip, if_neg hfirst, hspan]

/-- In the memory the first token of the text is found, within the text. -/
theorem tokenCarved_strtokAt (h : TextAt area s t) (hnul : nul ∉ t) (hsep : separator ≠ nul)
    (hlimit : s + t.length < limit) :
    ∃ r, strtokAt separator limit area s = some r ∧ TokenCarved area s t (strtokR separator t) r := by
  have hfirst := firstToken_strtokR separator t
  generalize strtokR separator t = found at hfirst
  cases hfirst with
  | none hblanks =>
    have hscan : (scanUp area (· == separator) (limit - s).toNat s).1 = some (s + t.length) := by
      rw [← List.append_nil t] at h
      exact h.scanUp_eq (fun c hc => by simpa using hblanks c hc) (by simpa using hsep.symm) (by omega)
    have hend : area (s + t.length) = nul := h.2
    exact ⟨(none, s + t.length, area), by simp [strtokAt, hscan, hend], .none _⟩
  | @ended blanks word rest hblanks hword hne htext =>
    subst htext
    have hlength : (blanks ++ (word ++ separator :: rest)).length = blanks.length + (word.length + (rest.length + 1)) := by
      simp
    have hfound := strtokAt_word limit h hblanks hword hne (fun hc => hnul (by simp [hc])) hsep rfl (by omega)
    have hseparator : area (s + blanks.length + word.length) = separator := by
      simpa using h.drop.right (Nat.zero_lt_succ rest.length)
    simp only [hseparator, if_neg hsep] at hfound
    have hbehind := h.drop.drop.drop (l := [separator])
    refine ⟨_, hfound, .token hne (by omega) h.drop.cut (by omega) (hbehind.congr fun b hb _ => ?_) (by omega)
      (fun c hc => by simp [hc]) fun b hb => ?_⟩
    · rw [List.length_singleton] at hb
      exact Function.update_of_ne (by omega) _ _
    · exact Function.update_of_ne (by omega) _ _
  | @last blanks word hblanks hword hne htext =>
    subst htext
    have hlength : (blanks ++ word).length = blanks.length + word.length := List.length_append
    have htext : TextAt area s (blanks ++ (word ++ [])) := by rwa [List.append_nil]
    have hfound := strtokAt_word limit htext hblanks hword hne (fun hc => hnul (by simp [hc])) hsep rfl (by omega)
    have hend : area (s + blanks.length + word.length) = nul := h.drop.2
    simp only [hend, if_true] at hfound
    refine ⟨_, hfound, .token hne (by omega) h.drop (le_refl _) htext.drop.drop ?_ (List.nil_subset _) fun _ _ => rfl⟩
    rw [List.length_nil]
    omega

end Foundation
