import Mathlib.Data.List.Basic
import Mathlib.Data.List.DropRight

/-!
# Character strings of the C library

A string is the list of its characters before the terminating NUL, so a comparison of at
most `n` characters compares prefixes. Only the equality outcome of the comparison
functions is kept, which is all that a test against zero reads.
-/

namespace Foundation

/-- The characters of a C string before its terminating NUL. -/
abbrev CString := List Char

instance CString.lawfulBEq : LawfulBEq CString := inferInstance

/-- `strncmp(a, b, n) == 0`. -/
def strncmpEq (a b : CString) (n : ℕ) : Bool := a.take n == b.take n

/-- `strncasecmp(a, b, n) == 0`. -/
def strncasecmpEq (a b : CString) (n : ℕ) : Bool :=
  (a.take n).map Char.toLower == (b.take n).map Char.toLower

/-- The offset `strstr` finds, if the needle occurs. -/
def strstr (haystack needle : CString) : Option ℕ :=
  (List.range (haystack.length + 1)).find? fun k => needle.isPrefixOf (haystack.drop k)

/-- The offset `strchr` finds, if the character occurs. -/
def strchr (text : CString) (c : Char) : Option ℕ := text.findIdx? (· == c)

/-- The value of a run of decimal digits, most significant first. -/
def decimalValue (digits : CString) : ℕ :=
  digits.foldl (fun n c => 10 * n + (c.toNat - '0'.toNat)) 0

/-- A decimal conversion of `printf` with a minimum width and a fill character. -/
def padded (fill : Char) (width n : ℕ) : CString := (Nat.toDigits 10 n).leftpad width fill

/-- `atoi`: optional blanks and sign, then the longest run of digits. -/
def atoi (text : CString) : ℤ :=
  match text.dropWhile Char.isWhitespace with
  | '-' :: rest => -(decimalValue (rest.takeWhile Char.isDigit) : ℤ)
  | '+' :: rest => decimalValue (rest.takeWhile Char.isDigit)
  | rest => decimalValue (rest.takeWhile Char.isDigit)

/-- The text which `strncpy(dst, src, n)` leaves in a buffer with the text `dst`, for an `n` of at most its
length: a source which is not that long ends the text, a longer one is cut and what stood behind it stays. -/
def strncpy (dst src : CString) (n : ℕ) : CString :=
  if src.length < n then src else src.take n ++ dst.drop n

/-- A copy sized by the old text is cut to its length. -/
theorem strncpy_length (dst src : CString) : strncpy dst src dst.length = src.take dst.length := by
  unfold strncpy
  split
  · rw [List.take_of_length_le (by omega)]
  · rw [List.drop_length, List.append_nil]

theorem strncmpEq_refl (a : CString) (n : ℕ) : strncmpEq a a n = true := by simp [strncmpEq]

theorem strncasecmpEq_refl (a : CString) (n : ℕ) : strncasecmpEq a a n = true := by
  simp [strncasecmpEq]

/-- Two strings of equal length compare equal over that length only when they are the same. -/
theorem strncmpEq_length_iff {a b : CString} (h : a.length = b.length) :
    strncmpEq a b a.length = true ↔ a = b := by
  rw [strncmpEq, beq_iff_eq, List.take_length, h, List.take_length]

/-- A string which agrees with another over that one's whole length matches the same patterns. -/
theorem strncasecmpEq_of_strncmpEq {pattern a b : CString} (hab : strncmpEq a b a.length = true)
    (hpattern : strncasecmpEq pattern a pattern.length = true) :
    strncasecmpEq pattern b pattern.length = true := by
  simp only [strncmpEq, strncasecmpEq, beq_iff_eq, List.take_length] at hab hpattern ⊢
  have hlen : pattern.length ≤ a.length := by
    have h := congrArg List.length hpattern
    simp only [List.length_map, List.length_take] at h
    omega
  have htake : a.take pattern.length = b.take pattern.length := by
    calc a.take pattern.length = (b.take a.length).take pattern.length := by rw [← hab]
      _ = b.take pattern.length := by rw [List.take_take, min_eq_left hlen]
  rw [hpattern, htake]

/-- A needle is looked for from the begin on. -/
theorem strstr_cons (c : Char) (text needle : CString) :
    strstr (c :: text) needle = if needle <+: c :: text then some 0 else (strstr text needle).map (· + 1) := by
  rw [strstr, List.length_cons, List.range_succ_eq_map, List.find?_cons, List.drop_zero]
  by_cases hprefix : needle <+: c :: text
  · rw [if_pos hprefix, List.isPrefixOf_iff_prefix.mpr hprefix]
  · have hfalse : needle.isPrefixOf (c :: text) = false := by
      rw [Bool.eq_false_iff]
      exact fun h => hprefix (List.isPrefixOf_iff_prefix.mp h)
    rw [if_neg hprefix, hfalse, List.find?_map, strstr]
    rfl

/-- A needle which a text begins with is found first. -/
theorem strstr_append (needle rest : CString) : strstr (needle ++ rest) needle = some 0 := by
  cases htext : needle ++ rest with
  | nil =>
    obtain ⟨rfl, rfl⟩ := List.append_eq_nil_iff.mp htext
    rfl
  | cons c text => rw [strstr_cons, if_pos (htext ▸ List.prefix_append needle rest)]

/-- A needle which does not begin in the first part of a text is looked for behind this part. -/
theorem strstr_append_of_not_begins {before text needle : CString}
    (h : ∀ k < before.length, ¬ needle <+: (before ++ text).drop k) :
    strstr (before ++ text) needle = (strstr text needle).map (before.length + ·) := by
  induction before with
  | nil =>
    rw [List.nil_append, List.length_nil]
    cases strstr text needle with
    | none => rfl
    | some k => exact congrArg some (Nat.zero_add k).symm
  | cons c before ih =>
    have hfirst : ¬ needle <+: c :: (before ++ text) := h 0 (Nat.zero_lt_succ _)
    rw [List.cons_append, strstr_cons, if_neg hfirst, ih fun k hk => h (k + 1) (Nat.succ_lt_succ hk), Option.map_map]
    congr 1
    funext k
    rw [Function.comp_apply, List.length_cons]
    omega

/-- A needle does not begin in a part without its first character. -/
theorem not_begins_of_notMem {before text needle : CString} {c : Char} (h : c ∉ before) :
    ∀ k < before.length, ¬ c :: needle <+: (before ++ text).drop k := by
  intro k hk hprefix
  rw [List.drop_append_of_le_length hk.le, List.drop_eq_getElem_cons hk, List.cons_append] at hprefix
  obtain ⟨heq, -⟩ := List.cons_prefix_cons.mp hprefix
  exact h (heq ▸ List.getElem_mem hk)

/-- What stands where a needle is found. -/
theorem eq_of_strstr {text needle : CString} {k : ℕ} (h : strstr text needle = some k) :
    k ≤ text.length ∧ text = text.take k ++ (needle ++ text.drop (k + needle.length)) := by
  unfold strstr at h
  have hrange := List.mem_range.mp (List.mem_of_find?_eq_some h)
  have hfound := List.find?_some h
  obtain ⟨rest, hrest⟩ := List.isPrefixOf_iff_prefix.mp hfound
  refine ⟨Nat.lt_succ_iff.mp hrange, ?_⟩
  rw [← List.drop_drop, ← hrest, List.drop_left, hrest, List.take_append_drop]

theorem strchr_eq_none_iff {text : CString} {c : Char} : strchr text c = none ↔ c ∉ text := by
  rw [strchr, List.findIdx?_eq_none_iff]
  constructor
  · exact fun h hmem => absurd rfl (beq_eq_false_iff_ne.mp (h c hmem))
  · exact fun h d hd => beq_eq_false_iff_ne.mpr fun heq => h (heq ▸ hd)

/-- The first of a character is found. -/
theorem strchr_append {before : CString} {c : Char} (h : c ∉ before) (rest : CString) :
    strchr (before ++ c :: rest) c = some before.length := by
  induction before with
  | nil => rw [strchr, List.nil_append, List.findIdx?_cons, beq_self_eq_true, if_pos rfl, List.length_nil]
  | cons d before ih =>
    obtain ⟨hd, hbefore⟩ := not_or.mp fun hmem => h (List.mem_cons.mpr hmem)
    have hfirst : (d == c) = false := beq_eq_false_iff_ne.mpr fun heq => hd heq.symm
    have hrest := ih hbefore
    unfold strchr at hrest ⊢
    rw [List.cons_append, List.findIdx?_cons, hfirst, hrest]
    rfl

/-- What follows the first occurrence of a needle, if it occurs. -/
def following (needle text : CString) : Option CString :=
  (strstr text needle).map fun k => text.drop (k + needle.length)

/-- A needle which the text begins with occurs there first. -/
theorem following_append (needle rest : CString) : following needle (needle ++ rest) = some rest := by
  rw [following, strstr_append, Option.map_some, Nat.zero_add, List.drop_left]

/-- A needle which the text does not begin with is looked for behind the first character. -/
theorem following_cons {needle text : CString} {c : Char} (h : ¬ needle <+: c :: text) :
    following needle (c :: text) = following needle text := by
  rw [following, following, strstr_cons, if_neg h, Option.map_map]
  congr 1
  funext k
  simp [Nat.add_right_comm]

/-- A needle is not found in a part without its first character. -/
theorem following_append_of_notMem {needle before rest : CString} {c : Char} (h : c ∉ before) :
    following (c :: needle) (before ++ rest) = following (c :: needle) rest := by
  induction before with
  | nil => rfl
  | cons d before ih =>
    rw [List.mem_cons, not_or] at h
    have hfirst : ¬ c :: needle <+: d :: (before ++ rest) := fun hprefix => h.1 (List.cons_prefix_cons.mp hprefix).1
    rw [List.cons_append, following_cons hfirst, ih h.2]

/-- `strstr` finds a needle exactly in the texts which contain it. -/
theorem strstr_isSome_iff (haystack needle : CString) :
    (strstr haystack needle).isSome = true ↔ needle <:+: haystack := by
  simp only [strstr, List.find?_isSome, List.mem_range, List.isPrefixOf_iff_prefix]
  constructor
  · rintro ⟨k, -, hprefix⟩
    exact hprefix.isInfix.trans (List.drop_suffix k haystack).isInfix
  · rintro ⟨before, after, rfl⟩
    refine ⟨before.length, by simp only [List.length_append]; omega, ?_⟩
    rw [List.append_assoc, List.drop_left]
    exact List.prefix_append needle after

end Foundation
