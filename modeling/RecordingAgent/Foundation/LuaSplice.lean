import RecordingAgent.Foundation.LuaChunk

/-!
# A text between quotes within quotes

A plain chunk sets a field to another plain chunk, which is in single quotes and returns a text, which is in double
quotes. What the text has to be for both to come to what they were written for, if it is put in as it is.
-/

namespace Foundation.Lua

/-- An escape sequence in front of a double quote ends before it, or escapes just the quote. -/
theorem escape_within {text after e : CString} {k : ℕ} (h : escape (text ++ '"' :: after) = some (e, k)) :
    k ≤ text.length ∨ (k = 1 ∧ text = []) := by
  obtain ⟨-, hpos, hquote⟩ := escape_spec h
  by_cases hin : k ≤ text.length
  · exact .inl hin
  · have hmem : '"' ∈ (text ++ '"' :: after).take k := by
      rw [List.take_append, List.mem_append]
      right
      obtain ⟨n, hn⟩ := Nat.exists_eq_add_of_lt (not_le.mp hin)
      rw [show k - text.length = n + 1 by omega, List.take_succ_cons]
      exact List.mem_cons_self
    have hone : k = 1 := hquote.resolve_right fun hnot => hnot hmem
    exact .inr ⟨hone, List.length_eq_zero_iff.mp (by omega)⟩

/-- What is read, up to a single quote, of a text and of a tail behind a double quote: its last closing character is no
farther than the double quote, and that far only if the text is plain. -/
theorem quoted_splice {tail after : CString} (htail : PlainIn '\'' tail) (hcloser : ∀ c ∈ tail, isCloser c = false)
    {k : ℕ} {text value rest : CString} (hk : k ≤ text.length)
    (h : quoted '\'' k (text ++ '"' :: (tail ++ '\'' :: after)) = some (value, rest)) :
    k + closerSpan value ≤ text.length + 1 ∧
      (k + closerSpan value = text.length + 1 → PlainIn '\'' (text.drop k)) := by
  have htailSpan : closerSpan tail = 0 := closerSpan_eq_zero hcloser
  induction text generalizing k value rest with
  | nil =>
    obtain rfl : k = 0 := Nat.le_zero.mp hk
    have hread : quoted '\'' 0 ('"' :: tail ++ '\'' :: after) = some ('"' :: tail, after) :=
      quoted_plain (List.forall_mem_cons.mpr ⟨by decide, htail⟩) after
    rw [List.nil_append, ← List.cons_append, hread] at h
    obtain ⟨rfl, rfl⟩ := Prod.mk.inj (Option.some.inj h)
    rw [closerSpan_cons_of_closer rfl, htailSpan]
    exact ⟨le_refl _, fun _ => by simp [PlainIn]⟩
  | cons c text ih =>
    cases k with
    | succ k =>
      obtain ⟨hspan, hplain⟩ := ih (Nat.le_of_succ_le_succ hk) h
      rw [List.length_cons, List.drop_succ_cons]
      exact ⟨by omega, fun hfar => hplain (by omega)⟩
    | zero =>
      rw [List.cons_append, quoted] at h
      rw [List.length_cons, Nat.zero_add, List.drop_zero]
      split_ifs at h with hend hnewline hescape
      · obtain ⟨rfl, rfl⟩ := Prod.mk.inj (Option.some.inj h)
        rw [closerSpan]
        exact ⟨Nat.zero_le _, fun hfar => by omega⟩
      · split at h
        · rename_i e k hread
          obtain ⟨r, hr, hvalue⟩ := Option.map_eq_some_iff.mp h
          obtain ⟨rfl, rfl⟩ := Prod.mk.inj hvalue
          obtain ⟨hshort, hpos, -⟩ := escape_spec hread
          have hspan : closerSpan (e ++ r.1) ≤ text.length + 1 := by
            have happend := closerSpan_append_le e r.1
            rcases escape_within hread with hin | ⟨rfl, rfl⟩
            · have hrest := (ih hin hr).1
              omega
            · have hread : quoted '\'' 1 ([] ++ '"' :: (tail ++ '\'' :: after)) = some (tail, after) :=
                quoted_plain htail after
              obtain rfl := Option.some.inj (hread.symm.trans hr)
              dsimp only at happend ⊢
              rw [List.length_nil]
              omega
          exact ⟨by omega, fun hfar => by omega⟩
        · cases h
      · obtain ⟨r, hr, hvalue⟩ := Option.map_eq_some_iff.mp h
        obtain ⟨rfl, rfl⟩ := Prod.mk.inj hvalue
        obtain ⟨hspan, hplain⟩ := ih (Nat.zero_le _) hr
        have hcons := (closerSpan_cons_le c r.1).2
        refine ⟨by omega, fun hfar => List.forall_mem_cons.mpr ⟨⟨hend, hescape, by simpa using hnewline⟩, ?_⟩⟩
        exact hplain (by omega)

/-- A string of the inner text that is not shorter than the text which was put into quotes within quotes is read only
if that text is plain. -/
theorem plain_of_string_mem {tail after : CString} (htail : PlainIn '\'' tail)
    (hcloser : ∀ c ∈ tail, isCloser c = false) {text inner rest value : CString} {ts : List Token}
    (h : quoted '\'' 0 (text ++ '"' :: (tail ++ '\'' :: after)) = some (inner, rest))
    (hts : lex 0 ('"' :: inner) = some ts) (hvalue : Token.string value ∈ ts) (hlong : text.length ≤ value.length) :
    PlainIn '\'' text ∧ '"' ∉ text := by
  obtain ⟨hspan, hplain⟩ := quoted_splice htail hcloser (Nat.zero_le _) h
  have hfar := lex_string_length hts hvalue
  rw [closerSpan_cons_of_closer rfl] at hfar
  have hsingle : PlainIn '\'' text := hplain (by omega)
  refine ⟨hsingle, fun hquote => ?_⟩
  -- the string behind the first double quote of the text is too short, and so is every later one
  obtain ⟨a, b, rfl, ha⟩ := List.eq_append_cons_of_mem hquote
  have hdouble : PlainIn '"' a := fun c hc =>
    ⟨fun heq => ha (heq ▸ hc), (hsingle c (List.mem_append_left _ hc)).2⟩
  have hinner : inner = a ++ '"' :: (b ++ '"' :: tail) := by
    have hwhole : PlainIn '\'' (a ++ '"' :: b ++ '"' :: tail) :=
      hsingle.append (List.forall_mem_cons.mpr ⟨by decide, htail⟩)
    have hread := quoted_plain hwhole after
    rw [List.append_assoc _ ('"' :: tail), List.cons_append, h] at hread
    rw [(Prod.mk.inj (Option.some.inj hread)).1, List.append_assoc, List.cons_append]
  rw [hinner, lex_quoted (.inl rfl), quoted_plain hdouble, Option.bind_some] at hts
  obtain ⟨ts', hrest, rfl⟩ := Option.map_eq_some_iff.mp hts
  dsimp only at hrest hvalue
  rw [List.length_append, List.length_cons] at hlong
  rcases List.mem_cons.mp hvalue with hfirst | hlater
  · rw [Token.string.inj hfirst] at hlong
    omega
  · have hshort := lex_string_length hrest hlater
    have happend := closerSpan_append_le b ('"' :: tail)
    rw [closerSpan_cons_of_closer rfl, closerSpan_eq_zero hcloser] at happend
    omega

/-- A text that stands for itself between quotes of either kind. -/
def Harmless (text : CString) : Prop := PlainIn '\'' text ∧ '"' ∉ text

instance (text : CString) : Decidable (Harmless text) := inferInstanceAs (Decidable (_ ∧ _))

/-- A chunk into which a text is spliced between double quotes, inside of a string in single quotes: what stands before
the string, what stands in it before and behind the text, and the tokens of these. The chunk is written to set fields,
the last one to the string, and the string to return values, the text among them. -/
structure Splice where
  head : CString
  inner : CString
  tail : CString
  headTokens : List Token
  innerTokens : List Token
  tailTokens : List Token
  assignedBefore : List (CString × CString × Value)
  table : CString
  key : CString
  returned : CString → List Value
  lex_head : ∀ cs, lex 0 (head ++ '\'' :: cs) = (lex 0 ('\'' :: cs)).map (headTokens ++ ·)
  lex_inner : ∀ cs, lex 0 (inner ++ '"' :: cs) = (lex 0 ('"' :: cs)).map (innerTokens ++ ·)
  lex_tail : lex 0 tail = some tailTokens
  plain_inner : PlainIn '\'' inner
  plain_tail : PlainIn '\'' tail
  tail_open : ∀ c ∈ tail, isCloser c = false
  inner_strings : ∀ text, Token.string text ∉ innerTokens
  run_head : ∀ innerText ts, ∃ n, run ((headTokens ++ .string innerText :: ts).length + 1) []
    (headTokens ++ .string innerText :: ts) = (run (n + 1) [] ts).map fun o =>
      ⟨assignedBefore ++ (table, key, .const (.string innerText)) :: o.assigned, o.returned⟩
  run_inner : ∀ text, run ((innerTokens ++ .string text :: tailTokens).length + 1) []
    (innerTokens ++ .string text :: tailTokens) = some ⟨[], returned text⟩
  returned_holds : ∀ text, ∃ v ∈ returned text, v.Holds text

namespace Splice

variable (s : Splice) (text : CString)

/-- The inner string with the text. -/
def innerText : CString := s.inner ++ '"' :: (text ++ '"' :: s.tail)

/-- The chunk with the text. -/
def chunk : CString := s.head ++ '\'' :: (s.inner ++ '"' :: (text ++ '"' :: (s.tail ++ ['\''])))

/-- What the chunk sets, if the field is set to this string. -/
def assigned (innerText : CString) : List (CString × CString × Value) :=
  s.assignedBefore ++ [(s.table, s.key, .const (.string innerText))]

/-- The chunk with a text does what it is written for with a value: it sets its fields and nothing else happens, and the
string of the last one returns its values and nothing else happens. -/
def Exact (value : CString) : Prop :=
  ∃ innerText, exec (s.chunk text) = some ⟨s.assigned innerText, []⟩ ∧ exec innerText = some ⟨[], s.returned value⟩

variable {s text}

/-- A character that is in no part of the chunk is not in it. -/
theorem notMem_chunk {c : Char} (hhead : c ∉ s.head) (hinner : c ∉ s.inner) (htail : c ∉ s.tail)
    (hquotes : c ≠ '\'' ∧ c ≠ '"') (htext : c ∉ text) : c ∉ s.chunk text := by
  unfold chunk
  simp only [List.mem_append, List.mem_cons, List.not_mem_nil, not_or]
  exact ⟨hhead, hquotes.1, hinner, hquotes.2, htext, hquotes.2, htail, hquotes.1, not_false⟩

/-- With a harmless text the chunk has the inner string as a token, and this has the text. -/
theorem tokenize_of_harmless (h : Harmless text) :
    tokenize (s.chunk text) = some (s.headTokens ++ [.string (s.innerText text)]) ∧
      tokenize (s.innerText text) = some (s.innerTokens ++ .string text :: s.tailTokens) := by
  obtain ⟨hsingle, hdouble⟩ := h
  constructor
  · have hinner : PlainIn '\'' (s.innerText text) := s.plain_inner.append
      (List.forall_mem_cons.mpr ⟨by decide, hsingle.append (List.forall_mem_cons.mpr ⟨by decide, s.plain_tail⟩)⟩)
    have hchunk : s.chunk text = s.head ++ '\'' :: (s.innerText text ++ '\'' :: []) := by
      simp [chunk, innerText]
    rw [tokenize, hchunk, s.lex_head, lex_quoted (.inr rfl), quoted_plain hinner]
    rfl
  · have hplain : PlainIn '"' text := fun c hc => ⟨fun heq => hdouble (heq ▸ hc), (hsingle c hc).2⟩
    rw [tokenize, innerText, s.lex_inner, lex_quoted (.inl rfl), quoted_plain hplain, Option.bind_some, s.lex_tail]
    rfl

/-- If there is a string among the tokens of the first string that is not shorter than the spliced text, the text is
harmless. -/
theorem harmless_of_tokenize {ts : List Token} (h : tokenize (s.chunk text) = some ts) :
    ∃ inner ts', ts = s.headTokens ++ .string inner :: ts' ∧
      ∀ {ts'' value}, tokenize inner = some ts'' → .string value ∈ ts'' → text.length ≤ value.length →
        Harmless text := by
  rw [tokenize, chunk, s.lex_head, lex_quoted (.inr rfl), quoted_append s.plain_inner, quoted, if_neg (by decide),
    if_neg (by decide), if_neg (by decide)] at h
  cases hread : quoted '\'' 0 (text ++ '"' :: (s.tail ++ ['\''])) with
  | none =>
    rw [hread] at h
    cases h
  | some r =>
    obtain ⟨behind, rest⟩ := r
    rw [hread, Option.map_some, Option.map_some, Option.bind_some, Option.map_map] at h
    obtain ⟨ts', -, rfl⟩ := Option.map_eq_some_iff.mp h
    refine ⟨s.inner ++ '"' :: behind, ts', rfl, fun {ts'' value} hts hvalue hlong => ?_⟩
    rw [tokenize, s.lex_inner] at hts
    obtain ⟨tsBehind, hbehind, rfl⟩ := Option.map_eq_some_iff.mp hts
    have hmem := (List.mem_append.mp hvalue).resolve_left (s.inner_strings value)
    exact plain_of_string_mem s.plain_tail s.tail_open hread hbehind hmem hlong

/-- A harmless text is spliced in safely. -/
theorem exact_of_harmless (h : Harmless text) : s.Exact text text := by
  obtain ⟨hchunk, hinner⟩ := s.tokenize_of_harmless h
  refine ⟨s.innerText text, ?_, ?_⟩
  · obtain ⟨n, hrun⟩ := s.run_head (s.innerText text) []
    rw [exec, hchunk, Option.bind_some, hrun]
    rfl
  · rw [exec, hinner, Option.bind_some, s.run_inner]

/-- If the chunk is exact with a value that is not shorter than the text, the text is harmless. -/
theorem Exact.harmless {value : CString} (h : s.Exact text value) (hlong : text.length ≤ value.length) :
    Harmless text := by
  obtain ⟨innerText, hchunk, hinner⟩ := h
  obtain ⟨ts, hts, hrun⟩ := Option.bind_eq_some_iff.mp hchunk
  obtain ⟨read, behind, rfl, hharmless⟩ := s.harmless_of_tokenize hts
  obtain ⟨n, hhead⟩ := s.run_head read behind
  rw [hhead] at hrun
  obtain ⟨o, -, heq⟩ := Option.map_eq_some_iff.mp hrun
  have hassigned := congrArg Outcome.assigned heq
  -- the field is set to the first string of the chunk
  obtain ⟨hfield, -⟩ := List.cons.inj (List.append_cancel_left hassigned)
  obtain rfl : read = innerText := Const.string.inj (Value.const.inj (Prod.mk.inj (Prod.mk.inj hfield).2).2)
  obtain ⟨v, hv, hholds⟩ := s.returned_holds value
  obtain ⟨ts', hts', hmem⟩ := exec_returned hinner hv hholds
  exact hharmless hts' hmem hlong

/-- The values of an exact chunk are those with its text. -/
theorem Exact.returned_eq {value : CString} (h : s.Exact text value) (hharmless : Harmless text) :
    s.returned value = s.returned text := by
  obtain ⟨innerText, hchunk, hinner⟩ := h
  obtain ⟨innerText', hchunk', hinner'⟩ := s.exact_of_harmless hharmless
  have hassigned := congrArg Outcome.assigned (Option.some.inj (hchunk.symm.trans hchunk'))
  obtain ⟨hfield, -⟩ := List.cons.inj (List.append_cancel_left hassigned)
  obtain rfl : innerText = innerText' := Const.string.inj (Value.const.inj (Prod.mk.inj (Prod.mk.inj hfield).2).2)
  exact congrArg Outcome.returned (Option.some.inj (hinner.symm.trans hinner'))

/-- A text is spliced in exactly if it is harmless. -/
theorem exact_iff : s.Exact text text ↔ Harmless text :=
  ⟨fun h => h.harmless (le_refl _), exact_of_harmless⟩

end Splice

end Foundation.Lua
