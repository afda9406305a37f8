import Mathlib.Data.List.Basic
import RecordingAgent.Foundation.Decimal

/-!
# The lexical rules of Lua

The tokens of a Lua 5.3 chunk: words, decimal integers, strings in quotes or long brackets, and symbols, between white
space and comments. A string in quotes is read up to its delimiter, with the escape sequences decoded. Where a text
is lexically wrong, or has a number which is not a decimal integer, there are no tokens.

How long the strings among the tokens can be follows from where the last character stands which can end one.
-/

namespace Foundation.Lua

/-- A token. -/
inductive Token
  | word (text : CString)
  | number (n : ℕ)
  | string (text : CString)
  | symbol (c : Char)
  deriving DecidableEq

/-- White space. -/
def isSpace (c : Char) : Bool := c.toNat = 32 || (9 ≤ c.toNat && c.toNat ≤ 13)

/-- A character that ends a line. -/
def isNewline (c : Char) : Bool := c = '\n' || c = '\r'

/-- A character with which a name begins. -/
def isNameStart (c : Char) : Bool := c.isAlpha || c = '_'

/-- A character of a name. -/
def isNameChar (c : Char) : Bool := c.isAlphanum || c = '_'

/-- A hexadecimal digit. -/
def isHexDigit (c : Char) : Bool := c.isDigit || ('a' ≤ c && c ≤ 'f') || ('A' ≤ c && c ≤ 'F')

/-- The value of a hexadecimal digit. -/
def hexDigit (c : Char) : ℕ :=
  if c.isDigit then c.toNat - '0'.toNat
  else if 'a' ≤ c then c.toNat - 'a'.toNat + 10
  else c.toNat - 'A'.toNat + 10

/-- The value of hexadecimal digits, most significant first. -/
def hexValue (digits : CString) : ℕ := digits.foldl (fun n c => 16 * n + hexDigit c) 0

/-- The bytes of a code point. -/
def utf8 (n : ℕ) : CString :=
  if n < 0x80 then [Char.ofNat n]
  else if n < 0x800 then [Char.ofNat (0xC0 + n / 0x40), Char.ofNat (0x80 + n % 0x40)]
  else if n < 0x10000 then
    [Char.ofNat (0xE0 + n / 0x1000), Char.ofNat (0x80 + n / 0x40 % 0x40), Char.ofNat (0x80 + n % 0x40)]
  else
    [Char.ofNat (0xF0 + n / 0x40000), Char.ofNat (0x80 + n / 0x1000 % 0x40), Char.ofNat (0x80 + n / 0x40 % 0x40),
      Char.ofNat (0x80 + n % 0x40)]

/-- The escape sequences of one character. -/
def simpleEscape : Char → Option Char
  | 'a' => some (Char.ofNat 7)
  | 'b' => some (Char.ofNat 8)
  | 'f' => some (Char.ofNat 12)
  | 'n' => some (Char.ofNat 10)
  | 'r' => some (Char.ofNat 13)
  | 't' => some (Char.ofNat 9)
  | 'v' => some (Char.ofNat 11)
  | '\\' => some '\\'
  | '"' => some '"'
  | '\'' => some '\''
  | _ => none

/-- How many characters more belong to the end of a line which begins with this character. -/
def newlineTail (c : Char) (cs : CString) : ℕ :=
  if (cs.head?.any fun d => isNewline d && d != c) then 1 else 0

/-- The escape sequence behind a backslash: what it stands for, and how many characters it has. -/
def escape : CString → Option (CString × ℕ)
  | [] => none
  | c :: cs =>
    match simpleEscape c with
    | some d => some ([d], 1)
    | none =>
      if isNewline c then some (['\n'], 1 + newlineTail c cs)
      else if c = 'z' then some ([], 1 + (cs.takeWhile isSpace).length)
      else if c = 'x' then
        let digits := (cs.take 2).takeWhile isHexDigit
        if digits.length = 2 then some ([Char.ofNat (hexValue digits)], 3) else none
      else if c = 'u' then
        let digits := (cs.drop 1).takeWhile isHexDigit
        if cs.head? = some '{' ∧ digits ≠ [] ∧ (cs.drop (1 + digits.length)).head? = some '}' ∧
            hexValue digits ≤ 0x10FFFF then
          some (utf8 (hexValue digits), digits.length + 3)
        else none
      else
        let digits := ((c :: cs).take 3).takeWhile Char.isDigit
        if digits ≠ [] ∧ decimalValue digits ≤ 255 then some ([Char.ofNat (decimalValue digits)], digits.length)
        else none

/-- A string in quotes, behind so many characters which are skipped: its value, and what stands behind the
delimiter. -/
def quoted (delim : Char) : ℕ → CString → Option (CString × CString)
  | _, [] => none
  | k + 1, _ :: cs => quoted delim k cs
  | 0, c :: cs =>
    if c = delim then some ([], cs)
    else if isNewline c then none
    else if c = '\\' then
      match escape cs with
      | some (e, k) => (quoted delim k cs).map fun r => (e ++ r.1, r.2)
      | none => none
    else (quoted delim 0 cs).map fun r => (c :: r.1, r.2)

/-- The level of a long bracket behind its first bracket. -/
def longLevel (cs : CString) : Option ℕ :=
  let level := (cs.takeWhile (· == '=')).length
  if (cs.drop level).head? = some '[' then some level else none

/-- What stands in a long bracket, and behind it. -/
def longBody (level : ℕ) : CString → Option (CString × CString)
  | [] => none
  | c :: cs =>
    if (']' :: (List.replicate level '=' ++ [']'])).isPrefixOf (c :: cs) then some ([], cs.drop (level + 1))
    else (longBody level cs).map fun r => (c :: r.1, r.2)

/-- Each end of a line as one newline, behind so many characters which are skipped. -/
def newlines : ℕ → CString → CString
  | _, [] => []
  | k + 1, _ :: cs => newlines k cs
  | 0, c :: cs => if isNewline c then '\n' :: newlines (newlineTail c cs) cs else c :: newlines 0 cs

/-- The value of a long bracket: a newline right behind the opening is left out. -/
def longValue (body : CString) : CString :=
  match newlines 0 body with
  | '\n' :: value => value
  | value => value

/-- The token behind an opening bracket, a string if it is a long one, and how many characters it has. -/
def bracketToken (cs : CString) : Option (Token × ℕ) :=
  match longLevel cs with
  | some level =>
    (longBody level (cs.drop (level + 1))).map fun r => (.string (longValue r.1), cs.length - r.2.length)
  | none => if cs.head? = some '=' then none else some (.symbol '[', 0)

/-- How many characters a comment has behind its first hyphen. -/
def comment (cs : CString) : Option ℕ :=
  match if (cs.drop 1).head? = some '[' then longLevel (cs.drop 2) else none with
  | some level => (longBody level (cs.drop (level + 3))).map fun r => cs.length - r.2.length
  | none => some (cs.takeWhile fun d => !isNewline d).length

/-- The number with which a text begins, and how many characters it has behind the first. -/
def numeral (c : Char) (cs : CString) : Option (Token × ℕ) :=
  let tail := cs.takeWhile Char.isDigit
  let n := decimalValue (c :: tail)
  if ((cs.drop tail.length).head?.any fun d => isNameChar d || d == '.') || 2 ^ 63 ≤ n then none
  else some (.number n, tail.length)

/-- The first token, or none for white space or a comment, and how many characters it has behind the first. -/
def nextToken (c : Char) (cs : CString) : Option (Option Token × ℕ) :=
  if isSpace c then some (none, 0)
  else if isNameStart c then
    let tail := cs.takeWhile isNameChar
    some (some (.word (c :: tail)), tail.length)
  else if c.isDigit then (numeral c cs).map fun r => (some r.1, r.2)
  else if c = '"' ∨ c = '\'' then (quoted c 0 cs).map fun r => (some (.string r.1), cs.length - r.2.length)
  else if c = '[' then (bracketToken cs).map fun r => (some r.1, r.2)
  else if c = '-' ∧ cs.head? = some '-' then (comment cs).map fun k => (none, k)
  else some (some (.symbol c), 0)

/-- The tokens of a text, behind so many characters which are skipped. -/
def lex : ℕ → CString → Option (List Token)
  | _, [] => some []
  | k + 1, _ :: cs => lex k cs
  | 0, c :: cs =>
    match nextToken c cs with
    | some (token, k) => (lex k cs).map (token.toList ++ ·)
    | none => none

/-- The tokens of a chunk. -/
def tokenize (chunk : CString) : Option (List Token) := lex 0 chunk

example : tokenize "shared.x='a\\'b' -- y".toList =
    some [.word "shared".toList, .symbol '.', .word "x".toList, .symbol '=', .string "a'b".toList] := by
  decide

theorem utf8_length_le (n : ℕ) : (utf8 n).length ≤ 4 := by
  unfold utf8
  split
  · exact Nat.le_add_left 1 3
  · split
    · exact Nat.le_add_left 2 2
    · split
      · exact Nat.le_succ 3
      · exact le_refl 4

/-- The first characters, as far as a property holds of them, have the property. -/
theorem of_mem_take_takeWhile {p : Char → Bool} {cs : CString} {c : Char}
    (h : c ∈ cs.take (cs.takeWhile p).length) : p c = true := by
  rw [← List.prefix_iff_eq_take.mp (List.takeWhile_prefix p)] at h
  exact List.mem_takeWhile_imp h

theorem quote_notMem_newlineTail (c : Char) (cs : CString) : '"' ∉ cs.take (newlineTail c cs) := by
  intro hmem
  unfold newlineTail at hmem
  cases cs with
  | nil => simp at hmem
  | cons d cs =>
    rw [List.head?_cons, Option.any_some] at hmem
    split at hmem
    · rename_i hd
      obtain rfl : '"' = d := by simpa using hmem
      exact absurd hd (by simp [isNewline])
    · simp at hmem

/-- A code point in braces has no quote in it. -/
theorem quote_notMem_braces {cs digits : CString} (hdigits : digits = (cs.drop 1).takeWhile isHexDigit)
    (hopen : cs.head? = some '{') (hclose : (cs.drop (1 + digits.length)).head? = some '}') :
    '"' ∉ cs.take (1 + (digits.length + 1)) := by
  intro hmem
  cases cs with
  | nil => cases hopen
  | cons d cs =>
    obtain rfl : d = '{' := Option.some.inj hopen
    rw [List.drop_one, List.tail_cons] at hdigits
    rw [Nat.add_comm, List.drop_succ_cons, List.head?_drop] at hclose
    rw [Nat.add_comm, List.take_succ_cons, List.take_add_one, hclose] at hmem
    simp only [Option.toList_some, List.mem_cons, List.mem_append, List.not_mem_nil, or_false] at hmem
    rcases hmem with hbrace | hhex | hbrace
    · exact absurd hbrace (by decide)
    · rw [hdigits] at hhex
      exact absurd (of_mem_take_takeWhile hhex) (by decide)
    · exact absurd hbrace (by decide)

/-- An escape sequence stands for no more characters than it has, and if it has more than one there is no quote among
them. -/
theorem escape_spec {cs e : CString} {k : ℕ} (h : escape cs = some (e, k)) :
    e.length ≤ k ∧ 0 < k ∧ (k = 1 ∨ '"' ∉ cs.take k) := by
  cases cs with
  | nil => cases h
  | cons c cs =>
    rw [escape] at h
    split at h
    · obtain ⟨rfl, rfl⟩ := Prod.mk.inj (Option.some.inj h)
      exact ⟨le_refl _, Nat.one_pos, .inl rfl⟩
    · rename_i hsimple
      have hfirst : '"' ≠ c := by
        rintro rfl
        cases hsimple
      have htake : ∀ n, '"' ∉ cs.take n → '"' ∉ (c :: cs).take (1 + n) := fun n hrest hmem => by
        rw [Nat.add_comm, List.take_succ_cons] at hmem
        exact (List.mem_cons.mp hmem).elim hfirst hrest
      split_ifs at h with hnewline hz hx hu
      · obtain ⟨rfl, rfl⟩ := Prod.mk.inj (Option.some.inj h)
        exact ⟨by simp, by omega, .inr (htake _ (quote_notMem_newlineTail c cs))⟩
      · obtain ⟨rfl, rfl⟩ := Prod.mk.inj (Option.some.inj h)
        have hspaces : '"' ∉ cs.take (cs.takeWhile isSpace).length := fun hmem =>
          absurd (of_mem_take_takeWhile hmem) (by decide)
        exact ⟨Nat.zero_le _, by omega, .inr (htake _ hspaces)⟩
      · dsimp only at h
        split_ifs at h with hdigits
        obtain ⟨rfl, rfl⟩ := Prod.mk.inj (Option.some.inj h)
        have hboth : (cs.take 2).takeWhile isHexDigit = cs.take 2 :=
          (List.takeWhile_prefix _).eq_of_length_le (by rw [hdigits]; exact List.length_take_le _ _)
        have hhex : '"' ∉ cs.take 2 := fun hmem => by
          rw [← hboth] at hmem
          exact absurd (List.mem_takeWhile_imp hmem) (by decide)
        exact ⟨by simp, by omega, .inr (htake 2 hhex)⟩
      · dsimp only at h
        split_ifs at h with hdigits
        obtain ⟨hopen, hne, hclose, -⟩ := hdigits
        obtain ⟨rfl, rfl⟩ := Prod.mk.inj (Option.some.inj h)
        have hpos := List.length_pos_iff.mpr hne
        have hbraces := htake _ (quote_notMem_braces rfl hopen hclose)
        rw [show 1 + (1 + (((cs.drop 1).takeWhile isHexDigit).length + 1)) =
          ((cs.drop 1).takeWhile isHexDigit).length + 3 by omega] at hbraces
        exact ⟨(utf8_length_le _).trans (by omega), by omega, .inr hbraces⟩
      · dsimp only at h
        split_ifs at h with hdigits
        obtain ⟨rfl, rfl⟩ := Prod.mk.inj (Option.some.inj h)
        have hpos := List.length_pos_iff.mpr hdigits.1
        refine ⟨hpos, hpos, .inr fun hmem => ?_⟩
        have hprefix := List.prefix_iff_eq_take.mp
          ((List.takeWhile_prefix Char.isDigit).trans (List.take_prefix 3 (c :: cs)))
        rw [← hprefix] at hmem
        exact absurd (List.mem_takeWhile_imp hmem) (by decide)

/-! ## How long strings are -/

/-- A character with which a string can end. -/
def isCloser (c : Char) : Bool := c = '"' || c = '\'' || c = ']'

/-- How far the last character stands with which a string can end. -/
def closerSpan : CString → ℕ
  | [] => 0
  | c :: cs => if closerSpan cs = 0 ∧ isCloser c = false then 0 else closerSpan cs + 1

theorem closerSpan_cons_le (c : Char) (cs : CString) :
    closerSpan cs ≤ closerSpan (c :: cs) ∧ closerSpan (c :: cs) ≤ closerSpan cs + 1 := by
  rw [closerSpan]
  split <;> omega

theorem closerSpan_cons_of_pos {cs : CString} (h : 0 < closerSpan cs) (c : Char) :
    closerSpan (c :: cs) = closerSpan cs + 1 := by
  rw [closerSpan, if_neg (by omega)]

theorem closerSpan_cons_of_closer {c : Char} (h : isCloser c = true) (cs : CString) :
    closerSpan (c :: cs) = closerSpan cs + 1 := by
  rw [closerSpan, if_neg (by simp [h])]

theorem closerSpan_eq_zero {cs : CString} (h : ∀ c ∈ cs, isCloser c = false) : closerSpan cs = 0 := by
  induction cs with
  | nil => rfl
  | cons c cs ih =>
    rw [closerSpan, if_pos ⟨ih fun d hd => h d (List.mem_cons_of_mem _ hd), h c List.mem_cons_self⟩]

theorem closerSpan_append_le (a b : CString) : closerSpan (a ++ b) ≤ a.length + closerSpan b := by
  induction a with
  | nil => rw [List.nil_append, List.length_nil, Nat.zero_add]
  | cons c a ih =>
    have hcons := (closerSpan_cons_le c (a ++ b)).2
    rw [List.cons_append, List.length_cons]
    omega

theorem closerSpan_drop_le (cs : CString) (k : ℕ) : closerSpan (cs.drop k) ≤ closerSpan cs := by
  induction k generalizing cs with
  | zero => exact le_refl _
  | succ k ih =>
    cases cs with
    | nil => exact le_refl _
    | cons c cs => exact (ih cs).trans (closerSpan_cons_le c cs).1

/-- A string in quotes has its closing quote behind as many characters as it is long. -/
theorem quoted_length {delim : Char} (hdelim : isCloser delim = true) {k : ℕ} {cs value rest : CString}
    (h : quoted delim k cs = some (value, rest)) : k + value.length + 1 ≤ closerSpan cs := by
  induction cs generalizing k value rest with
  | nil =>
    rw [quoted] at h
    cases h
  | cons c cs ih =>
    cases k with
    | succ k =>
      have htail := ih h
      rw [closerSpan_cons_of_pos (by omega)]
      omega
    | zero =>
      rw [quoted] at h
      split_ifs at h with hend hnewline hescape
      · obtain ⟨rfl, rfl⟩ := Prod.mk.inj (Option.some.inj h)
        rw [hend, closerSpan_cons_of_closer hdelim]
        simp
      · split at h
        · rename_i e k hread
          obtain ⟨r, hr, hvalue⟩ := Option.map_eq_some_iff.mp h
          obtain ⟨rfl, rfl⟩ := Prod.mk.inj hvalue
          have htail := ih hr
          have hshort := (escape_spec hread).1
          have hcons := (closerSpan_cons_le c cs).1
          rw [List.length_append]
          omega
        · cases h
      · obtain ⟨r, hr, hvalue⟩ := Option.map_eq_some_iff.mp h
        obtain ⟨rfl, rfl⟩ := Prod.mk.inj hvalue
        have htail := ih hr
        rw [closerSpan_cons_of_pos (by omega), List.length_cons]
        omega

theorem newlines_length_le (k : ℕ) (cs : CString) : (newlines k cs).length ≤ cs.length := by
  induction cs generalizing k with
  | nil => cases k <;> exact le_refl _
  | cons c cs ih =>
    cases k with
    | succ k =>
      have htail := ih k
      rw [newlines, List.length_cons]
      omega
    | zero =>
      rw [newlines]
      split
      · exact Nat.succ_le_succ (ih _)
      · exact Nat.succ_le_succ (ih _)

theorem longValue_length_le (body : CString) : (longValue body).length ≤ body.length := by
  have hlength := newlines_length_le 0 body
  unfold longValue
  split
  · rename_i heq
    rw [heq, List.length_cons] at hlength
    omega
  · exact hlength

/-- A long bracket has its closing one behind what stands in it. -/
theorem longBody_length {level : ℕ} {cs body rest : CString} (h : longBody level cs = some (body, rest)) :
    body.length + 1 ≤ closerSpan cs := by
  induction cs generalizing body rest with
  | nil => cases h
  | cons c cs ih =>
    rw [longBody] at h
    split_ifs at h with hclose
    · obtain ⟨rfl, rfl⟩ := Prod.mk.inj (Option.some.inj h)
      have hc : ']' = c := by
        rw [List.isPrefixOf_cons_cons, Bool.and_eq_true] at hclose
        simpa using hclose.1
      rw [← hc, closerSpan_cons_of_closer rfl]
      simp
    · obtain ⟨r, hr, hvalue⟩ := Option.map_eq_some_iff.mp h
      obtain ⟨rfl, rfl⟩ := Prod.mk.inj hvalue
      have htail := ih hr
      rw [closerSpan_cons_of_pos (by omega), List.length_cons]
      omega

theorem bracketToken_string_length {cs value : CString} {k : ℕ} (h : bracketToken cs = some (.string value, k)) :
    value.length + 1 ≤ closerSpan cs := by
  unfold bracketToken at h
  split at h
  · rename_i level _
    obtain ⟨r, hr, hvalue⟩ := Option.map_eq_some_iff.mp h
    obtain rfl := Token.string.inj (Prod.mk.inj hvalue).1
    have hbody := longBody_length hr
    have hshort := longValue_length_le r.1
    have hdrop := closerSpan_drop_le cs (level + 1)
    omega
  · split at h
    · cases h
    · cases h

/-- A string with which a text begins is shorter, by its opening and closing characters, than the last closing one is
far. -/
theorem nextToken_string_length {c : Char} {cs value : CString} {k : ℕ}
    (h : nextToken c cs = some (some (.string value), k)) : value.length + 2 ≤ closerSpan (c :: cs) := by
  unfold nextToken at h
  split_ifs at h with hspace hname hdigit hquote hbracket hcomment
  · cases h
  · cases h
  · obtain ⟨r, hr, hvalue⟩ := Option.map_eq_some_iff.mp h
    unfold numeral at hr
    dsimp only at hr
    split at hr
    · cases hr
    · obtain rfl := Option.some.inj hr
      cases hvalue
  · obtain ⟨r, hr, hvalue⟩ := Option.map_eq_some_iff.mp h
    obtain rfl := Token.string.inj (Option.some.inj (Prod.mk.inj hvalue).1)
    have hdelim : isCloser c = true := by rcases hquote with rfl | rfl <;> rfl
    have hlength := quoted_length hdelim hr
    rw [closerSpan_cons_of_closer hdelim]
    omega
  · obtain ⟨r, hr, hvalue⟩ := Option.map_eq_some_iff.mp h
    have hstring : r.1 = .string value := Option.some.inj (Prod.mk.inj hvalue).1
    have hlength := bracketToken_string_length (k := r.2) (by rw [← hstring]; exact hr)
    rw [closerSpan_cons_of_pos (by omega)]
    omega
  · obtain ⟨r, -, hvalue⟩ := Option.map_eq_some_iff.mp h
    cases hvalue
  · cases h

/-- Every string among the tokens of a text is. -/
theorem lex_string_length {k : ℕ} {cs value : CString} {ts : List Token} (h : lex k cs = some ts)
    (hvalue : Token.string value ∈ ts) : value.length + 2 ≤ closerSpan cs := by
  induction cs generalizing k ts with
  | nil =>
    rw [lex] at h
    obtain rfl := Option.some.inj h
    cases hvalue
  | cons c cs ih =>
    have hcons := (closerSpan_cons_le c cs).1
    cases k with
    | succ k => exact (ih h hvalue).trans hcons
    | zero =>
      rw [lex] at h
      split at h
      · rename_i token k hnext
        obtain ⟨rest, hrest, rfl⟩ := Option.map_eq_some_iff.mp h
        rcases List.mem_append.mp hvalue with hfirst | hlater
        · rw [Option.mem_toList] at hfirst
          exact nextToken_string_length (hfirst ▸ hnext)
        · exact (ih hrest hlater).trans hcons
      · cases h

/-! ## Reading what is written -/

/-- A text whose characters stand for themselves in a string with this delimiter. -/
def PlainIn (delim : Char) (text : CString) : Prop := ∀ c ∈ text, c ≠ delim ∧ c ≠ '\\' ∧ isNewline c = false

instance (delim : Char) (text : CString) : Decidable (PlainIn delim text) := List.decidableBAll _ text

theorem PlainIn.append {delim : Char} {a b : CString} (ha : PlainIn delim a) (hb : PlainIn delim b) :
    PlainIn delim (a ++ b) := List.forall_mem_append.mpr ⟨ha, hb⟩

/-- Plain characters are read as they are. -/
theorem quoted_append {delim : Char} {a : CString} (ha : PlainIn delim a) (cs : CString) :
    quoted delim 0 (a ++ cs) = (quoted delim 0 cs).map fun r => (a ++ r.1, r.2) := by
  induction a with
  | nil => exact Option.map_id'.symm
  | cons c a ih =>
    obtain ⟨⟨hdelim, hescape, hnewline⟩, ha⟩ := List.forall_mem_cons.mp ha
    rw [List.cons_append, quoted, if_neg hdelim, if_neg (by simp [hnewline]), if_neg hescape, ih ha, Option.map_map]
    rfl

theorem quoted_plain {delim : Char} {a : CString} (ha : PlainIn delim a) (rest : CString) :
    quoted delim 0 (a ++ delim :: rest) = some (a, rest) := by
  rw [quoted_append ha, quoted, if_pos rfl, Option.map_some, List.append_nil]

theorem quoted_suffix {delim : Char} {k : ℕ} {cs value rest : CString} (h : quoted delim k cs = some (value, rest)) :
    rest <:+ cs := by
  induction cs generalizing k value rest with
  | nil =>
    rw [quoted] at h
    cases h
  | cons c cs ih =>
    refine List.IsSuffix.trans ?_ (List.suffix_cons c cs)
    cases k with
    | succ k => exact ih h
    | zero =>
      rw [quoted] at h
      split_ifs at h with hend hnewline hescape
      · obtain ⟨-, rfl⟩ := Prod.mk.inj (Option.some.inj h)
        exact List.suffix_refl _
      · split at h
        · obtain ⟨r, hr, hvalue⟩ := Option.map_eq_some_iff.mp h
          rw [← (Prod.mk.inj hvalue).2]
          exact ih hr
        · cases h
      · obtain ⟨r, hr, hvalue⟩ := Option.map_eq_some_iff.mp h
        rw [← (Prod.mk.inj hvalue).2]
        exact ih hr

theorem lex_drop (k : ℕ) (cs : CString) : lex k cs = lex 0 (cs.drop k) := by
  induction k generalizing cs with
  | zero => rfl
  | succ k ih =>
    cases cs with
    | nil => rfl
    | cons c cs => exact ih cs

variable {c : Char} {cs rest : CString}

theorem lex_of_nextToken {token : Token} {k : ℕ} (h : nextToken c cs = some (some token, k)) :
    lex 0 (c :: cs) = (lex 0 (cs.drop k)).map (token :: ·) := by
  rw [lex, h, ← lex_drop]
  rfl

theorem lex_space (h : isSpace c = true) (cs : CString) : lex 0 (c :: cs) = lex 0 cs := by
  rw [lex, nextToken, if_pos h]
  exact Option.map_id'

/-- Letters and the underscore come behind the digits, and these behind white space. -/
theorem le_toNat_of_isNameStart (h : isNameStart c = true) : 65 ≤ c.toNat := by
  change ((decide (65 ≤ c.val ∧ c.val ≤ 90) || (decide (97 ≤ c.val) && decide (c.val ≤ 122))) ||
    decide (c = '_')) = true at h
  simp only [Bool.or_eq_true, Bool.and_eq_true, decide_eq_true_eq, UInt32.le_iff_toNat_le] at h
  rcases h with (⟨hupper, -⟩ | ⟨hlower, -⟩) | rfl
  · exact hupper
  · exact le_trans (by decide) hlower
  · decide

theorem not_space_of_isNameStart (h : isNameStart c = true) : isSpace c = false := by
  have hlow := le_toNat_of_isNameStart h
  simp only [isSpace, Bool.or_eq_false_iff, Bool.and_eq_false_iff, decide_eq_false_iff_not]
  omega

theorem not_of_isDigit (h : c.isDigit = true) : isSpace c = false ∧ isNameStart c = false := by
  have hrange := toNat_of_isDigit h
  have hzero : '0'.toNat = 48 := rfl
  constructor
  · simp only [isSpace, Bool.or_eq_false_iff, Bool.and_eq_false_iff, decide_eq_false_iff_not]
    omega
  · rw [Bool.eq_false_iff]
    intro hname
    have hlow := le_toNat_of_isNameStart hname
    omega

/-- What is left of a run of characters and of what follows it. -/
theorem takeWhile_run {p : Char → Bool} {run : CString} (hrun : ∀ d ∈ run, p d = true)
    (hrest : (rest.head?.any p) = false) : (run ++ rest).takeWhile p = run := by
  rw [List.takeWhile_append_of_pos hrun]
  cases rest with
  | nil => rw [List.takeWhile_nil, List.append_nil]
  | cons d rest => rw [List.takeWhile_cons_of_neg (by simpa using hrest), List.append_nil]

/-- A name which no character of a name follows is a word. -/
theorem lex_word {name : CString} (hc : isNameStart c = true) (hname : ∀ d ∈ name, isNameChar d = true)
    (hrest : (rest.head?.any isNameChar) = false) :
    lex 0 (c :: (name ++ rest)) = (lex 0 rest).map (.word (c :: name) :: ·) := by
  have hnext : nextToken c (name ++ rest) = some (some (.word (c :: name)), name.length) := by
    rw [nextToken, if_neg (by simp [not_space_of_isNameStart hc]), if_pos hc, takeWhile_run hname hrest]
  rw [lex_of_nextToken hnext, List.drop_left]

/-- Whether a text is a name or a keyword. -/
def isName : CString → Bool
  | [] => false
  | c :: name => isNameStart c && name.all isNameChar

theorem lex_name {name : CString} (h : isName name = true) (hrest : (rest.head?.any isNameChar) = false) :
    lex 0 (name ++ rest) = (lex 0 rest).map (.word name :: ·) := by
  cases name with
  | nil => cases h
  | cons c name =>
    rw [isName, Bool.and_eq_true, List.all_eq_true] at h
    exact lex_word h.1 h.2 hrest

/-- A character that is a symbol whatever follows it. -/
def isSymbol (c : Char) : Bool :=
  !(isSpace c || isNameStart c || c.isDigit || c == '"' || c == '\'' || c == '[' || c == '-')

theorem lex_symbol (h : isSymbol c = true) (cs : CString) :
    lex 0 (c :: cs) = (lex 0 cs).map (.symbol c :: ·) := by
  simp only [isSymbol, Bool.not_eq_true', Bool.or_eq_false_iff, beq_eq_false_iff_ne] at h
  obtain ⟨⟨⟨⟨⟨⟨hspace, hname⟩, hdigit⟩, hdouble⟩, hsingle⟩, hbracket⟩, hminus⟩ := h
  have hnext : nextToken c cs = some (some (.symbol c), 0) := by
    simp [nextToken, hspace, hname, hdigit, hdouble, hsingle, hbracket, hminus]
  exact lex_of_nextToken hnext

theorem lex_minus (h : cs.head? ≠ some '-') : lex 0 ('-' :: cs) = (lex 0 cs).map (.symbol '-' :: ·) := by
  have hnext : nextToken '-' cs = some (some (.symbol '-'), 0) := by
    rw [nextToken, if_neg (by decide), if_neg (by decide), if_neg (by decide), if_neg (by decide), if_neg (by decide),
      if_neg (fun hcomment => h hcomment.2)]
  exact lex_of_nextToken hnext

/-- No character follows that would go on with a name or a number. -/
def Delimited (rest : CString) : Prop := (rest.head?.any fun d => isNameChar d || d == '.') = false

/-- A run of digits is a number, if it is not too large and no character of a name or point follows it. -/
theorem lex_digits {digits : CString} (hdigits : ∀ d ∈ digits, d.isDigit = true) (hne : digits ≠ [])
    (hvalue : decimalValue digits < 2 ^ 63) (hrest : Delimited rest) :
    lex 0 (digits ++ rest) = (lex 0 rest).map (.number (decimalValue digits) :: ·) := by
  cases digits with
  | nil => exact absurd rfl hne
  | cons d digits =>
    obtain ⟨hd, hdigits⟩ := List.forall_mem_cons.mp hdigits
    obtain ⟨hspace, hname⟩ := not_of_isDigit hd
    have hend : (rest.head?.any Char.isDigit) = false := by
      cases rest with
      | nil => rfl
      | cons e rest =>
        rw [Delimited, List.head?_cons, Option.any_some, Bool.or_eq_false_iff] at hrest
        rw [List.head?_cons, Option.any_some, Bool.eq_false_iff]
        intro he
        have hchar := hrest.1
        rw [isNameChar, Char.isAlphanum, he, Bool.or_true, Bool.true_or] at hchar
        cases hchar
    have hnumeral : numeral d (digits ++ rest) = some (.number (decimalValue (d :: digits)), digits.length) := by
      rw [numeral, takeWhile_run hdigits hend, List.drop_left, show _ = false from hrest, if_neg (by simpa using hvalue)]
    have hnext : nextToken d (digits ++ rest) = some (some (.number (decimalValue (d :: digits))), digits.length) := by
      rw [nextToken, if_neg (by simp [hspace]), if_neg (by simp [hname]), if_pos hd, hnumeral]
      rfl
    rw [List.cons_append, lex_of_nextToken hnext, List.drop_left]

/-- A string in quotes, and what stands behind it. -/
theorem lex_quoted {delim : Char} (hdelim : delim = '"' ∨ delim = '\'') (cs : CString) :
    lex 0 (delim :: cs) = (quoted delim 0 cs).bind fun r => (lex 0 r.2).map (.string r.1 :: ·) := by
  have hnext : nextToken delim cs =
      (quoted delim 0 cs).map fun r => (some (.string r.1), cs.length - r.2.length) := by
    rcases hdelim with rfl | rfl
    · rfl
    · rfl
  cases hread : quoted delim 0 cs with
  | none =>
    rw [hread] at hnext
    rw [lex, hnext]
    rfl
  | some r =>
    rw [hread] at hnext
    rw [lex_of_nextToken hnext, ← List.suffix_iff_eq_drop.mp (quoted_suffix hread)]
    rfl

/-- The tokens of a printed integer. -/
def intTokens (z : ℤ) : List Token := if z < 0 then [.symbol '-', .number z.natAbs] else [.number z.natAbs]

theorem lex_signedDigits {z : ℤ} (hz : z.natAbs < 2 ^ 63) (hrest : Delimited rest) :
    lex 0 (signedDigits z ++ rest) = (lex 0 rest).map (intTokens z ++ ·) := by
  have hdigits : lex 0 (Nat.toDigits 10 z.natAbs ++ rest) = (lex 0 rest).map (.number z.natAbs :: ·) := by
    have hread := lex_digits (isDigit_toDigits z.natAbs) Nat.toDigits_ne_nil (by rwa [decimalValue_toDigits]) hrest
    rwa [decimalValue_toDigits] at hread
  unfold signedDigits intTokens
  split
  · have hminus : (Nat.toDigits 10 z.natAbs ++ rest).head? ≠ some '-' := by
      intro hhead
      cases hrun : Nat.toDigits 10 z.natAbs with
      | nil => exact Nat.toDigits_ne_nil hrun
      | cons d digits =>
        have hd := isDigit_toDigits z.natAbs d (hrun ▸ List.mem_cons_self)
        rw [hrun, List.cons_append, List.head?_cons, Option.some_inj] at hhead
        rw [hhead] at hd
        exact absurd hd (by decide)
    rw [List.cons_append, lex_minus hminus, hdigits, Option.map_map]
    rfl
  · exact hdigits

end Foundation.Lua
