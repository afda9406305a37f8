import RecordingAgent.Foundation.CString

/-!
# Command lines

A command line is split into words at blanks, and `getopt` takes the options out of the words, also
from behind the operands. Which letters are options, and which of them take an argument, is a
parameter.
-/

namespace Foundation

/-- The next token, and what is left after the separator which ends it. -/
def strtokR (separator : Char) (text : CString) : Option (CString × CString) :=
  match text.dropWhile (· == separator) with
  | [] => none
  | c :: rest =>
    some ((c :: rest).takeWhile (· != separator), ((c :: rest).dropWhile (· != separator)).drop 1)

/-- At most so many tokens. -/
def tokens (separator : Char) : ℕ → CString → List CString
  | 0, _ => []
  | limit + 1, text =>
    match strtokR separator text with
    | some (token, rest) => token :: tokens separator limit rest
    | none => []

/-- The maximal runs of characters other than the separator. -/
def separatedWords (separator : Char) (text : CString) : List CString :=
  (text.splitOn separator).filter (· ≠ [])

/-- Separators in front add no words. -/
theorem separatedWords_skip {separator : Char} {blanks : CString} (hblanks : ∀ c ∈ blanks, c = separator)
    (text : CString) : separatedWords separator (blanks ++ text) = separatedWords separator text := by
  induction blanks with
  | nil => rfl
  | cons c blanks ih =>
    obtain rfl : c = separator := hblanks c List.mem_cons_self
    rw [← ih fun d hd => hblanks d (List.mem_cons_of_mem _ hd)]
    have hsplit := List.splitOn_append_cons_self (a := c) [] (blanks ++ text)
    rw [List.nil_append] at hsplit
    rw [separatedWords, List.cons_append, hsplit, List.splitOn_nil, List.filter_append]
    rfl

/-- A run which a separator ends is the first word. -/
theorem separatedWords_append {separator : Char} {word : CString} (hword : separator ∉ word) (hne : word ≠ [])
    (rest : CString) :
    separatedWords separator (word ++ separator :: rest) = word :: separatedWords separator rest := by
  rw [separatedWords, List.splitOn_append_cons_self, List.splitOn_eq_singleton hword, List.singleton_append,
    List.filter_cons_of_pos (by simpa using hne)]
  rfl

/-- A run behind which the text ends is the only word. -/
theorem separatedWords_last {separator : Char} {word : CString} (hword : separator ∉ word) (hne : word ≠ []) :
    separatedWords separator word = [word] := by
  rw [separatedWords, List.splitOn_eq_singleton hword, List.filter_cons_of_pos (by simpa using hne)]
  rfl

/-- How a text is taken apart by the search for its first token: separators, the token, and the rest of the text
behind a separator or the end of the text. -/
inductive FirstToken (separator : Char) (text : CString) : Option (CString × CString) → Prop
  | none (hblanks : ∀ c ∈ text, c = separator) : FirstToken separator text none
  | ended {blanks word rest : CString} (hblanks : ∀ c ∈ blanks, c = separator) (hword : separator ∉ word)
      (hne : word ≠ []) (htext : text = blanks ++ (word ++ separator :: rest)) :
      FirstToken separator text (some (word, rest))
  | last {blanks word : CString} (hblanks : ∀ c ∈ blanks, c = separator) (hword : separator ∉ word)
      (hne : word ≠ []) (htext : text = blanks ++ word) : FirstToken separator text (some (word, []))

theorem firstToken_strtokR (separator : Char) (text : CString) : FirstToken separator text (strtokR separator text) := by
  have hsplit := List.takeWhile_append_dropWhile (p := (· == separator)) (l := text)
  have hblanks : ∀ c ∈ text.takeWhile (· == separator), c = separator := fun c hc => by
    simpa using List.mem_takeWhile_imp hc
  rw [strtokR]
  cases hskip : text.dropWhile (· == separator) with
  | nil =>
    rw [hskip, List.append_nil] at hsplit
    exact .none (hsplit ▸ hblanks)
  | cons c tail =>
    rw [hskip] at hsplit
    have hfirst : c ≠ separator := by
      have hhead := List.head?_dropWhile_not (· == separator) text
      rw [hskip] at hhead
      simpa using hhead
    have hbody := List.takeWhile_append_dropWhile (p := (· != separator)) (l := c :: tail)
    have hword : separator ∉ (c :: tail).takeWhile (· != separator) := fun hmem => by
      simpa using List.mem_takeWhile_imp hmem
    have hne : (c :: tail).takeWhile (· != separator) ≠ [] := by
      rw [List.takeWhile_cons_of_pos (by simpa using hfirst)]
      exact List.cons_ne_nil _ _
    dsimp only
    cases hafter : (c :: tail).dropWhile (· != separator) with
    | nil =>
      rw [hafter, List.append_nil] at hbody
      exact .last hblanks hword hne (by rw [hbody, hsplit])
    | cons s rest =>
      have hs : s = separator := by
        have hhead := List.head?_dropWhile_not (· != separator) (c :: tail)
        rw [hafter] at hhead
        simpa using hhead
      rw [hafter, hs] at hbody
      exact .ended hblanks hword hne (by rw [List.drop_one, List.tail_cons, hbody, hsplit])

/-- The tokens are the first words, as many as there may be. -/
theorem tokens_eq_take (separator : Char) (limit : ℕ) (text : CString) :
    tokens separator limit text = (separatedWords separator text).take limit := by
  induction limit generalizing text with
  | zero => rfl
  | succ limit ih =>
    rw [tokens]
    generalize htoken : strtokR separator text = token
    have hfirst := firstToken_strtokR separator text
    rw [htoken] at hfirst
    cases hfirst with
    | none hblanks =>
      have hwords := separatedWords_skip hblanks []
      rw [List.append_nil] at hwords
      rw [hwords]
      rfl
    | ended hblanks hword hne htext =>
      rw [htext, separatedWords_skip hblanks, separatedWords_append hword hne, List.take_succ_cons, ← ih]
    | last hblanks hword hne htext =>
      rw [htext, separatedWords_skip hblanks, separatedWords_last hword hne, List.take_succ_cons]
      exact congrArg (List.cons _) (ih [])

/-- A word which a separator ends is a token. -/
theorem tokens_append {separator : Char} {word : CString} (hword : separator ∉ word) (hne : word ≠ [])
    (limit : ℕ) (rest : CString) :
    tokens separator (limit + 1) (word ++ separator :: rest) = word :: tokens separator limit rest := by
  have hchars : ∀ c ∈ word, (c != separator) = true := fun c hc => bne_iff_ne.mpr fun h => hword (h ▸ hc)
  have htoken : strtokR separator (word ++ separator :: rest) = some (word, rest) := by
    cases word with
    | nil => exact absurd rfl hne
    | cons c word =>
      have hfirst : (c == separator) = false := by simpa using hchars c List.mem_cons_self
      have hskip : (c :: word ++ separator :: rest).dropWhile (· == separator) = c :: (word ++ separator :: rest) := by
        rw [List.cons_append, List.dropWhile_cons_of_neg (by simp [hfirst])]
      rw [strtokR, hskip]
      simp only [← List.cons_append]
      rw [List.takeWhile_append_of_pos hchars, List.dropWhile_append_of_pos hchars]
      simp
  rw [tokens, htoken]

/-- A token is not empty, and has no separator in it. -/
theorem of_mem_tokens {separator : Char} {word text : CString} {limit : ℕ} (h : word ∈ tokens separator limit text) :
    word ≠ [] ∧ separator ∉ word := by
  induction limit generalizing text with
  | zero => cases h
  | succ limit ih =>
    rw [tokens] at h
    split at h
    next token rest htoken =>
      rcases List.mem_cons.mp h with rfl | h
      · have hfirst := firstToken_strtokR separator text
        rw [htoken] at hfirst
        cases hfirst with
        | ended _ hword hne _ => exact ⟨hne, hword⟩
        | last _ hword hne _ => exact ⟨hne, hword⟩
      · exact ih h
    · cases h

/-- A word behind which the text ends is the last token. -/
theorem tokens_last {separator : Char} {word : CString} (hword : separator ∉ word) (hne : word ≠ []) (limit : ℕ) :
    tokens separator (limit + 1) word = [word] := by
  have hchars : ∀ c ∈ word, (c != separator) = true := fun c hc => bne_iff_ne.mpr fun h => hword (h ▸ hc)
  have htoken : strtokR separator word = some (word, []) := by
    cases word with
    | nil => exact absurd rfl hne
    | cons c word =>
      have hfirst : (c == separator) = false := by simpa using hchars c List.mem_cons_self
      rw [strtokR, List.dropWhile_cons_of_neg (by simp [hfirst])]
      simp only [List.takeWhile_eq_self_iff.mpr hchars, List.dropWhile_eq_nil_iff.mpr hchars, List.drop_nil]
  rw [tokens, htoken]
  cases limit <;> rfl

/-- Words which were joined by a separator are told apart again exactly if none is empty or has it in it. -/
theorem tokens_intercalate_iff {separator : Char} {words : List CString} {limit : ℕ} (hlimit : words.length ≤ limit)
    (hne : words ≠ []) :
    tokens separator limit ([separator].intercalate words) = words ↔ ∀ word ∈ words, word ≠ [] ∧ separator ∉ word := by
  constructor
  · intro h word hword
    rw [← h] at hword
    exact of_mem_tokens hword
  · intro h
    induction words generalizing limit with
    | nil => exact absurd rfl hne
    | cons word rest ih =>
      obtain ⟨hword, hrest⟩ := List.forall_mem_cons.mp h
      obtain ⟨limit, rfl⟩ : ∃ n, limit = n + 1 := ⟨limit - 1, by rw [List.length_cons] at hlimit; omega⟩
      cases rest with
      | nil =>
        rw [List.intercalate_singleton]
        exact tokens_last hword.2 hword.1 limit
      | cons next rest =>
        have htext : [separator].intercalate (word :: next :: rest) =
            word ++ separator :: [separator].intercalate (next :: rest) := by
          rw [List.intercalate_cons_cons]
          simp
        rw [htext, tokens_append hword.2 hword.1, ih (by simpa using hlimit) (List.cons_ne_nil _ _) hrest]

/-- What `getopt` returns: an option, an option with its argument, or the report of an option which is
not known or lacks its argument. -/
inductive Opt
  | flag (letter : Char)
  | value (letter : Char) (optarg : CString)
  | unknown
  deriving DecidableEq

/-- The options in one word, and the letter whose argument is the next word. -/
def clusterOpts (takesArg : Char → Option Bool) : CString → List Opt × Option Char
  | [] => ([], none)
  | c :: rest =>
    match takesArg c with
    | none => (.unknown :: (clusterOpts takesArg rest).1, (clusterOpts takesArg rest).2)
    | some false => (.flag c :: (clusterOpts takesArg rest).1, (clusterOpts takesArg rest).2)
    | some true => if rest = [] then ([], some c) else ([.value c rest], none)

/-- The options among the words, and the operands. -/
def getopt (takesArg : Char → Option Bool) : List CString → List Opt × List CString
  | [] => ([], [])
  | ['-', '-'] :: words => ([], words)
  | ('-' :: c :: rest) :: words =>
    match clusterOpts takesArg (c :: rest), words with
    | (opts, none), words => (opts ++ (getopt takesArg words).1, (getopt takesArg words).2)
    | (opts, some _), [] => (opts ++ [.unknown], [])
    | (opts, some letter), optarg :: words =>
      (opts ++ .value letter optarg :: (getopt takesArg words).1, (getopt takesArg words).2)
  | operand :: words => ((getopt takesArg words).1, operand :: (getopt takesArg words).2)

/-- An option which takes an argument, and its argument as the next word. -/
theorem getopt_value {takesArg : Char → Option Bool} {letter : Char} (h : takesArg letter = some true)
    (hletter : letter ≠ '-') (optarg : CString) (words : List CString) :
    (getopt takesArg (['-', letter] :: optarg :: words)).1 = .value letter optarg :: (getopt takesArg words).1 := by
  have hcluster : clusterOpts takesArg [letter] = ([], some letter) := by simp [clusterOpts, h]
  conv_lhs => unfold getopt
  split
  · contradiction
  next heq =>
    simp only [List.cons.injEq] at heq
    exact absurd heq.1.2.1 hletter
  next c rest words' _ heq =>
    obtain ⟨hword, rfl⟩ := List.cons.inj heq
    obtain ⟨hc, hrest⟩ := List.cons.inj (List.cons.inj hword).2
    rw [← hc, ← hrest, hcluster]
    rfl
  next operand words' _ hnot heq =>
    obtain ⟨hword, -⟩ := List.cons.inj heq
    exact absurd hword.symm (hnot letter [])

/-- An option which takes an argument, and what is left behind the argument. -/
theorem getopt_valued {takesArg : Char → Option Bool} {letter : Char} (h : takesArg letter = some true)
    (hletter : letter ≠ '-') (optarg : CString) (words : List CString) :
    getopt takesArg (['-', letter] :: optarg :: words) =
      (.value letter optarg :: (getopt takesArg words).1, (getopt takesArg words).2) := by
  have hcluster : clusterOpts takesArg [letter] = ([], some letter) := by simp [clusterOpts, h]
  apply Prod.ext
  · exact getopt_value h hletter optarg words
  · conv_lhs => unfold getopt
    split
    · contradiction
    next heq =>
      simp only [List.cons.injEq] at heq
      exact absurd heq.1.2.1 hletter
    next c rest words' _ heq =>
      obtain ⟨hword, rfl⟩ := List.cons.inj heq
      obtain ⟨hc, hrest⟩ := List.cons.inj (List.cons.inj hword).2
      rw [← hc, ← hrest, hcluster]
    next operand words' _ hnot heq =>
      obtain ⟨hword, -⟩ := List.cons.inj heq
      exact absurd hword.symm (hnot letter [])

/-- An option which takes no argument. -/
theorem getopt_flag {takesArg : Char → Option Bool} {letter : Char} (h : takesArg letter = some false)
    (hletter : letter ≠ '-') (words : List CString) :
    getopt takesArg (['-', letter] :: words) =
      (.flag letter :: (getopt takesArg words).1, (getopt takesArg words).2) := by
  have hcluster : clusterOpts takesArg [letter] = ([.flag letter], none) := by simp [clusterOpts, h]
  simp [getopt, hcluster, hletter]

/-- A word which does not begin with a hyphen is an operand. -/
theorem getopt_operand (takesArg : Char → Option Bool) {operand : CString} (h : operand.head? ≠ some '-')
    (words : List CString) :
    getopt takesArg (operand :: words) = ((getopt takesArg words).1, operand :: (getopt takesArg words).2) := by
  cases operand with
  | nil => rw [getopt] <;> simp
  | cons c rest =>
    have hc : c ≠ '-' := fun heq => h (congrArg some heq)
    rw [getopt] <;> simp [hc]

end Foundation
