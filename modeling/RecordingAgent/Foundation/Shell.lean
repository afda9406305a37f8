import Mathlib.Data.Bool.AllAny
import Mathlib.Data.List.Basic
import RecordingAgent.Foundation.CString

/-!
# Command lines for a shell

A command line without characters which mean something to the shell is one simple command, and its
blanks separate the words. What any other command line does is left open.
-/

namespace Foundation

/-- The characters which a shell does not take literally wherever they stand. -/
def shellSpecial : CString := "|&;<>()$`\\\"'\n*?[".toList

/-- Those which it does not take literally at the beginning of a word. -/
def shellSpecialFirst : CString := "#~".toList

/-- The characters which separate words. -/
def isBlank (c : Char) : Bool := c == ' ' || c == '\t'

/-- The words of a command line. -/
def shellWords (text : CString) : List CString := (text.splitOnP isBlank).filter (· ≠ [])

/-- Whether every character of a command line is taken literally. -/
def Quiet (text : CString) : Prop :=
  (∀ c ∈ text, c ∉ shellSpecial) ∧ ∀ word ∈ shellWords text, ∀ c ∈ word.head?, c ∉ shellSpecialFirst

-- The characters of the text are checked, not all characters there are.
instance (text : CString) : Decidable (Quiet text) :=
  @instDecidableAnd _ _ (List.decidableBAll _ _)
    (@List.decidableBAll _ _ (fun word : CString => Option.decidableForallMem (List.head? word)) _)

/-- The words of a simple command, or none for a command line of which the effect is left open. -/
def simpleCommand (text : CString) : Option (List CString) := if Quiet text then some (shellWords text) else none

/-- A word which the shell passes on as it stands. -/
structure LiteralWord (word : CString) : Prop where
  ne_nil : word ≠ []
  not_special : ∀ c ∈ word, c ∉ shellSpecial
  not_blank : ∀ c ∈ word, isBlank c = false
  first : ∀ c ∈ word.head?, c ∉ shellSpecialFirst

/-- A word before a blank is the first one. -/
theorem shellWords_append {word rest : CString} {c : Char} (hne : word ≠ []) (hword : ∀ d ∈ word, isBlank d = false)
    (hc : isBlank c = true) : shellWords (word ++ c :: rest) = word :: shellWords rest := by
  rw [shellWords, List.splitOnP_append_cons_of_forall_mem hword c hc, List.filter_cons_of_pos (by simpa using hne)]
  rfl

/-- A word without blanks is the only word of its text. -/
theorem shellWords_eq_singleton {word : CString} (hne : word ≠ []) (hword : ∀ d ∈ word, isBlank d = false) :
    shellWords word = [word] := by
  rw [shellWords, List.splitOnP_eq_singleton hword, List.filter_cons_of_pos (by simpa using hne)]
  rfl

/-- No piece between blanks has a blank in it. -/
theorem not_blank_of_mem_splitOnP {text piece : CString} (h : piece ∈ text.splitOnP isBlank) :
    ∀ c ∈ piece, isBlank c = false := by
  induction text generalizing piece with
  | nil =>
    obtain rfl := List.mem_singleton.mp h
    nofun
  | cons d text ih =>
    rw [List.splitOnP_cons_eq_if_modifyHead] at h
    split at h
    · rcases List.mem_cons.mp h with rfl | h
      · nofun
      · exact ih h
    · rename_i hd
      obtain ⟨first, pieces, heq⟩ := List.exists_cons_of_ne_nil (List.splitOnP_ne_nil isBlank text)
      rw [heq, List.modifyHead_cons] at h
      rcases List.mem_cons.mp h with rfl | h
      · exact List.forall_mem_cons.mpr ⟨by simpa using hd, ih (heq ▸ List.mem_cons_self)⟩
      · exact ih (heq ▸ List.mem_cons_of_mem _ h)

/-- A literal word before a blank is a word of the command, whatever follows. -/
theorem simpleCommand_append {word rest : CString} (hword : LiteralWord word) :
    simpleCommand (word ++ ' ' :: rest) = (simpleCommand rest).map (word :: ·) := by
  have hwords : shellWords (word ++ ' ' :: rest) = word :: shellWords rest :=
    shellWords_append hword.ne_nil hword.not_blank rfl
  have hquiet : Quiet (word ++ ' ' :: rest) ↔ Quiet rest := by
    have hblank : ' ' ∉ shellSpecial := by decide
    simp only [Quiet, hwords, List.forall_mem_append, List.forall_mem_cons]
    exact ⟨fun h => ⟨h.1.2.2, h.2.2⟩, fun h => ⟨⟨hword.not_special, hblank, h.1⟩, hword.first, h.2⟩⟩
  rw [simpleCommand, simpleCommand, hwords]
  by_cases h : Quiet rest
  · rw [if_pos (hquiet.mpr h), if_pos h, Option.map_some]
  · rw [if_neg fun h' => h (hquiet.mp h'), if_neg h, Option.map_none]

/-- A text is passed on as it stands exactly if it is a literal word. -/
theorem simpleCommand_eq_singleton_iff {text : CString} : simpleCommand text = some [text] ↔ LiteralWord text := by
  constructor
  · intro h
    rw [simpleCommand] at h
    split at h
    · rename_i hquiet
      have hwords : shellWords text = [text] := Option.some.inj h
      have hmem : text ∈ shellWords text := by rw [hwords]; exact List.mem_singleton_self text
      obtain ⟨hpiece, hne⟩ := List.mem_filter.mp hmem
      exact ⟨by simpa using hne, hquiet.1, not_blank_of_mem_splitOnP hpiece, hquiet.2 text hmem⟩
    · nomatch h
  · intro h
    have hwords := shellWords_eq_singleton h.ne_nil h.not_blank
    have hquiet : Quiet text := ⟨h.not_special, by rw [hwords]; exact List.forall_mem_singleton.mpr h.first⟩
    rw [simpleCommand, if_pos hquiet, hwords]

/-- A blank in front is no word. -/
theorem simpleCommand_blank (rest : CString) : simpleCommand (' ' :: rest) = simpleCommand rest := by
  have hwords : shellWords (' ' :: rest) = shellWords rest := by
    have hblank : isBlank ' ' = true := rfl
    rw [shellWords, List.splitOnP_cons_eq_if_modifyHead, if_pos hblank, List.filter_cons_of_neg (by simp)]
    rfl
  have hquiet : Quiet (' ' :: rest) ↔ Quiet rest := by
    have hblank : ' ' ∉ shellSpecial := by decide
    simp only [Quiet, hwords, List.forall_mem_cons]
    exact ⟨fun h => ⟨h.1.2, h.2⟩, fun h => ⟨⟨hblank, h.1⟩, h.2⟩⟩
  rw [simpleCommand, simpleCommand, hwords]
  exact if_congr hquiet rfl rfl

/-- Literal words between blanks are the words of the command; nothing between two blanks is none. -/
theorem simpleCommand_intercalate {words : List CString} (h : ∀ word ∈ words, word ≠ [] → LiteralWord word) :
    simpleCommand ([' '].intercalate words) = some (words.filter (· ≠ [])) := by
  induction words with
  | nil => decide
  | cons word rest ih =>
    obtain ⟨hword, hrest⟩ := List.forall_mem_cons.mp h
    have hfilter : (word :: rest).filter (· ≠ []) =
        if word = [] then rest.filter (· ≠ []) else word :: rest.filter (· ≠ []) := by
      by_cases hempty : word = []
      · rw [if_pos hempty, List.filter_cons_of_neg (by simpa using hempty)]
      · rw [if_neg hempty, List.filter_cons_of_pos (by simpa using hempty)]
    rw [hfilter]
    cases rest with
    | nil =>
      rw [List.intercalate_singleton]
      by_cases hempty : word = []
      · rw [if_pos hempty, hempty]
        decide
      · rw [if_neg hempty, simpleCommand_eq_singleton_iff.mpr (hword hempty)]
        rfl
    | cons next rest =>
      have htext : [' '].intercalate (word :: next :: rest) = word ++ ' ' :: [' '].intercalate (next :: rest) := by
        rw [List.intercalate_cons_cons, List.append_assoc]
        rfl
      by_cases hempty : word = []
      · rw [htext, if_pos hempty, hempty, List.nil_append, simpleCommand_blank, ih hrest]
      · rw [htext, if_neg hempty, simpleCommand_append (hword hempty), ih hrest]
        rfl

/-- Letters, digits and slashes are taken literally. -/
theorem literalWord_of_alphanum {word : CString} (hne : word ≠ []) (h : ∀ c ∈ word, c.isAlphanum = true ∨ c = '/') :
    LiteralWord word := by
  have hspecial : ∀ c ∈ shellSpecial ++ shellSpecialFirst ++ [' ', '\t'], c.isAlphanum = false ∧ c ≠ '/' :=
    List.all_iff_forall_prop.mp (by decide)
  have hplain : ∀ c ∈ word, c ∉ shellSpecial ++ shellSpecialFirst ++ [' ', '\t'] := by
    intro c hc hmem
    obtain ⟨halphanum, hslash⟩ := hspecial c hmem
    cases h c hc with
    | inl hyes => exact absurd (hyes.symm.trans halphanum) (by decide)
    | inr heq => exact hslash heq
  refine ⟨hne, fun c hc hmem => ?_, fun c hc => ?_, fun c hc hmem => ?_⟩
  · exact hplain c hc (List.mem_append_left _ (List.mem_append_left _ hmem))
  · rw [Bool.eq_false_iff]
    intro hblank
    rw [isBlank, Bool.or_eq_true, beq_iff_eq, beq_iff_eq] at hblank
    refine hplain c hc (List.mem_append_right _ ?_)
    obtain rfl | rfl := hblank <;> decide
  · exact hplain c (List.mem_of_mem_head? hc) (List.mem_append_left _ (List.mem_append_right _ hmem))

instance (word : CString) : Decidable (LiteralWord word) :=
  decidable_of_iff (simpleCommand word = some [word]) simpleCommand_eq_singleton_iff

end Foundation
