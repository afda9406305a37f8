import RecordingAgent.Foundation.Decimal

/-!
# Fields of a format

`strftime` and `strptime` for formats of numbers and of characters which stand for themselves. A number is printed
with leading zeros; it is read digit by digit, as long as another digit may stay in its range. What was printed reads
back, whatever follows, if each number is in its range and fits its digits.
-/

namespace Foundation

/-- A part of a format: a number with so many digits from a range, or a character. -/
inductive Directive
  | number (digits low high : ℕ)
  | char (c : Char)
  deriving DecidableEq

/-- The digits of a number behind its first. -/
def moreDigits (high : ℕ) : ℕ → ℕ → CString → ℕ × CString
  | more + 1, value, c :: rest =>
    if value * 10 ≤ high ∧ c.isDigit = true then moreDigits high more (10 * value + (c.toNat - '0'.toNat)) rest
    else (value, c :: rest)
  | _, value, rest => (value, rest)

/-- A number behind blanks, and what follows it. -/
def getNumber (digits low high : ℕ) (text : CString) : Option (ℕ × CString) :=
  match text.dropWhile Char.isWhitespace with
  | [] => none
  | c :: rest =>
    let read := moreDigits high (digits - 1) (c.toNat - '0'.toNat) rest
    if c.isDigit = true ∧ low ≤ read.1 ∧ read.1 ≤ high then some read else none

/-- `strptime`: the numbers of a format, if the text has them. -/
def strptime : List Directive → CString → Option (List ℕ)
  | [], _ => some []
  | .number digits low high :: format, text =>
    (getNumber digits low high text).bind fun read => (strptime format read.2).map (read.1 :: ·)
  | .char _ :: _, [] => none
  | .char c :: format, d :: text => if d = c then strptime format text else none

/-- `strftime`: the numbers in a format. -/
def strftime : List Directive → List ℕ → CString
  | .number digits _ _ :: format, value :: values => padded '0' digits value ++ strftime format values
  | .char c :: format, values => c :: strftime format values
  | _, _ => []

/-- There is a number for each that the format has, in its range and with room for its digits. -/
def Fits : List Directive → List ℕ → Prop
  | [], [] => True
  | .number digits low high :: format, value :: values =>
    (0 < digits ∧ low ≤ value ∧ value ≤ high ∧ value < 10 ^ digits) ∧ Fits format values
  | .char _ :: format, values => Fits format values
  | _, _ => False

/-- Digits are read as far as they go if the number they make is in the range. -/
theorem moreDigits_append {high : ℕ} {digits : CString} (hdigits : ∀ c ∈ digits, c.isDigit = true) (rest : CString)
    {value : ℕ} (hhigh : 10 ^ digits.length * value + decimalValue digits ≤ high) :
    moreDigits high digits.length value (digits ++ rest) =
      (10 ^ digits.length * value + decimalValue digits, rest) := by
  induction digits generalizing value with
  | nil =>
    have hread : moreDigits high 0 value rest = (value, rest) := by cases rest <;> rfl
    rw [List.length_nil, List.nil_append, hread, pow_zero, one_mul]
    rfl
  | cons c digits ih =>
    have hmore : ∀ d ∈ digits, d.isDigit = true := fun d hd => hdigits d (List.mem_cons_of_mem c hd)
    have hvalue : 10 ^ (c :: digits).length * value + decimalValue (c :: digits) =
        10 ^ digits.length * (10 * value + (c.toNat - '0'.toNat)) + decimalValue digits := by
      rw [decimalValue_cons, List.length_cons, pow_succ]
      ring
    rw [hvalue] at hhigh ⊢
    have hnext : value * 10 ≤ high := by
      have hpow : 1 ≤ 10 ^ digits.length := Nat.one_le_pow _ _ (by decide)
      calc value * 10 ≤ 10 * value + (c.toNat - '0'.toNat) := by omega
        _ ≤ 10 ^ digits.length * (10 * value + (c.toNat - '0'.toNat)) := Nat.le_mul_of_pos_left _ hpow
        _ ≤ high := le_trans (Nat.le_add_right _ _) hhigh
    rw [List.length_cons, List.cons_append, moreDigits, if_pos ⟨hnext, hdigits c List.mem_cons_self⟩]
    exact ih hmore hhigh

/-- A printed number reads back. -/
theorem getNumber_padded {digits low high value : ℕ} (hdigits : 0 < digits) (hlow : low ≤ value) (hhigh : value ≤ high)
    (hroom : value < 10 ^ digits) (rest : CString) :
    getNumber digits low high (padded '0' digits value ++ rest) = some (value, rest) := by
  have hlength : (padded '0' digits value).length = digits := padded_length hdigits hroom
  have hvalue : decimalValue (padded '0' digits value) = value := decimalValue_padded digits value
  have hall : ∀ c ∈ padded '0' digits value, c.isDigit = true := isDigit_padded
  cases hpadded : padded '0' digits value with
  | nil =>
    rw [hpadded, List.length_nil] at hlength
    omega
  | cons c more =>
    rw [hpadded] at hlength hvalue hall
    have hc : c.isDigit = true := hall c List.mem_cons_self
    have hskip : (c :: more ++ rest).dropWhile Char.isWhitespace = c :: (more ++ rest) := by
      rw [List.cons_append, List.dropWhile_cons_of_neg (by simp [(not_blank_of_isDigit hc).1])]
    have hmore : digits - 1 = more.length := by rw [← hlength, List.length_cons, Nat.add_sub_cancel]
    rw [decimalValue_cons] at hvalue
    have hread := moreDigits_append (fun d hd => hall d (List.mem_cons_of_mem c hd)) rest (hvalue.trans_le hhigh)
    rw [hvalue] at hread
    rw [getNumber, hskip]
    dsimp only
    rw [hmore, hread, if_pos ⟨hc, hlow, hhigh⟩]

/-- What was printed reads back, whatever follows. -/
theorem strptime_strftime {format : List Directive} {values : List ℕ} (h : Fits format values) (rest : CString) :
    strptime format (strftime format values ++ rest) = some values := by
  induction format generalizing values with
  | nil =>
    cases values with
    | nil => rfl
    | cons value values => exact h.elim
  | cons directive format ih =>
    cases directive with
    | number digits low high =>
      cases values with
      | nil => exact h.elim
      | cons value values =>
        obtain ⟨⟨hdigits, hlow, hhigh, hroom⟩, hvalues⟩ := h
        rw [strftime, List.append_assoc, strptime, getNumber_padded hdigits hlow hhigh hroom, Option.bind_some, ih hvalues]
        rfl
    | char c =>
      rw [strftime, List.cons_append, strptime, if_pos rfl]
      exact ih h

/-- How many characters a part of the format has. -/
def Directive.width : Directive → ℕ
  | .number digits _ _ => digits
  | .char _ => 1

/-- The printed text has the width of its format. -/
theorem strftime_length {format : List Directive} {values : List ℕ} (h : Fits format values) :
    (strftime format values).length = (format.map Directive.width).sum := by
  induction format generalizing values with
  | nil =>
    cases values with
    | nil => rfl
    | cons value values => exact h.elim
  | cons directive format ih =>
    cases directive with
    | number digits low high =>
      cases values with
      | nil => exact h.elim
      | cons value values =>
        obtain ⟨⟨hdigits, -, -, hroom⟩, hvalues⟩ := h
        rw [strftime, List.length_append, padded_length hdigits hroom, ih hvalues, List.map_cons, List.sum_cons]
        rfl
    | char c =>
      rw [strftime, List.length_cons, ih h, List.map_cons, List.sum_cons, add_comm]
      rfl

/-- The printed text has digits and the characters of the format. -/
theorem mem_strftime {format : List Directive} {values : List ℕ} {c : Char} (h : c ∈ strftime format values) :
    c.isDigit = true ∨ .char c ∈ format := by
  induction format generalizing values with
  | nil => cases h
  | cons directive format ih =>
    cases directive with
    | number digits low high =>
      cases values with
      | nil => cases h
      | cons value values =>
        rw [strftime] at h
        cases List.mem_append.mp h with
        | inl hdigit => exact Or.inl (isDigit_padded c hdigit)
        | inr hrest => exact (ih hrest).imp_right (List.mem_cons_of_mem _)
    | char d =>
      rw [strftime] at h
      cases List.mem_cons.mp h with
      | inl heq => exact Or.inr (heq ▸ List.mem_cons_self)
      | inr hrest => exact (ih hrest).imp_right (List.mem_cons_of_mem _)

end Foundation
