import RecordingAgent.Foundation.InPlaceTokens
import RecordingAgent.Reagent.WorkerCommand

/-!
# Splitting a command in its block

`l_wordexp` allocates one block for the vector of words and for the text behind it, copies the text there, and
carves the words in place. Here it is followed on the block. The vector has an entry more than there may be words,
so that a null pointer stands behind the last one.
-/

namespace RecordingAgent.Reagent

open Foundation
open RecordingAgent.SpaceMonitor (lWordexp lweMaxarg)

namespace WordExpansion

/-- `sizeof(char *)` -/
def pointerSize : ℕ := 8

/-- Where the text begins in the block. -/
def textOffset : ℕ := (lweMaxarg + 1) * pointerSize

/-- The allocated block: its size, the entries of the vector it begins with, each null or an address in the block,
and its characters. -/
structure Block where
  size : ℕ
  entries : ℕ → Option ℤ
  area : ℤ → Char

/-- `lwe_t`, with the block its vector points to. -/
structure Lwe where
  wordc : ℕ
  wordv : Option Block

/-- A number stored in an `int`. -/
def toInt (n : ℤ) : ℤ := n.bmod (2 ^ 32)

/-- An `int` passed as a `size_t`. -/
def toSize (n : ℤ) : ℕ := (n % 2 ^ 64).toNat

/-- The loop over the tokens, from the saved address on. An access outside of the block, or an entry outside of the
vector, ends in `none`. -/
def carve : ℕ → ℕ → Block → ℤ → Option (ℕ × Block)
  | 0, _, _, _ => none
  | fuel + 1, wordc, block, rest =>
    match strtokAt ' ' block.size block.area rest with
    | none => none
    | some (none, _, area) => some (wordc, { block with area := area })
    | some (some token, rest, area) =>
      if wordc ≤ lweMaxarg then
        let block := { block with area := area, entries := Function.update block.entries wordc (some token) }
        if wordc + 1 ≥ lweMaxarg then some (wordc + 1, block) else carve fuel (wordc + 1) block rest
      else none

/-- `l_wordexp`: the return code, and what is left in the structure. -/
def lWordexp (malloc : ℕ → Bool) (words : Option CString) (pwordexp : Lwe) : Option (ℤ × Lwe) :=
  match words with
  | none => some (-1, pwordexp)
  | some words =>
    let cmdlen := toInt words.length
    if cmdlen ≠ 0 then
      let memsize := toInt (textOffset + (cmdlen + 1))
      if malloc (toSize memsize) then
        -- `memcpy` reads as much of the text as the size says, and writes it into the block
        if toSize cmdlen ≤ words.length ∧ textOffset + toSize cmdlen ≤ toSize memsize then
          let block : Block :=
            { size := toSize memsize
              entries := fun _ => none
              area := writeText (fun _ => nul) textOffset (words.take (toSize cmdlen)) }
          (carve lweMaxarg 0 block textOffset).map fun r => (0, ⟨r.1, some r.2⟩)
        else none
      else some (-1, pwordexp)
    else some (-1, pwordexp)

/-- An entry of the vector is a null pointer, or points to a word with its terminator inside of the block. -/
def Block.PointsTo (block : Block) (k : ℕ) : Option CString → Prop
  | none => block.entries k = none
  | some word => ∃ a, block.entries k = some a ∧ textOffset ≤ a ∧ a + word.length < block.size ∧ TextAt block.area a word

/-- The words of a command: its runs of characters other than blanks, as many as there may be. -/
def commandWords (words : CString) : List CString := (separatedWords ' ' words).take lweMaxarg

/-- What the loop leaves of a text that stood at an address: the words behind the entries there were, the other
entries and everything up to the begin of the text as before. -/
structure Carved (wordc : ℕ) (before : Block) (s : ℤ) (found : List CString) (r : ℕ × Block) : Prop where
  count : r.1 = wordc + found.length
  size : r.2.size = before.size
  words : ∀ k (h : k < found.length), r.2.PointsTo (wordc + k) (some found[k])
  others : ∀ k, k < wordc ∨ wordc + found.length ≤ k → r.2.entries k = before.entries k
  kept : ∀ b ≤ s, r.2.area b = before.area b

theorem Carved.refl (wordc : ℕ) (block : Block) (s : ℤ) : Carved wordc block s [] (wordc, block) where
  count := rfl
  size := rfl
  words := fun _ h => absurd h (Nat.not_lt_zero _)
  others := fun _ _ => rfl
  kept := fun _ _ => rfl

/-- A word that was carved stays behind its entry while the rest of the text is carved. -/
theorem Carved.cons {wordc : ℕ} {before : Block} {s a s' : ℤ} {area : ℤ → Char} {word : CString} {found : List CString}
    {r : ℕ × Block} (hword : TextAt area a word) (hne : word ≠ []) (hs : textOffset ≤ s) (hbegin : s ≤ a)
    (hend : a + word.length < before.size) (hbehind : a + word.length ≤ s')
    (hkept : ∀ b < a + word.length, area b = before.area b)
    (h : Carved (wordc + 1)
      { before with area := area, entries := Function.update before.entries wordc (some a) } s' found r) :
    Carved wordc before s (word :: found) r where
  count := by rw [h.count, List.length_cons]; omega
  size := h.size
  words := fun k hk => by
    cases k with
    | zero =>
      have hentry : r.2.entries wordc = some a :=
        (h.others wordc (by omega)).trans (Function.update_self _ _ _)
      refine ⟨a, hentry, by omega, by rw [h.size]; exact hend, hword.congr fun b _ hb => ?_⟩
      exact h.kept b (by omega)
    | succ k =>
      have hrest := h.words k (Nat.lt_of_succ_lt_succ hk)
      rwa [add_assoc, add_comm 1 k] at hrest
  others := fun k hk => by
    rw [List.length_cons] at hk
    exact (h.others k (by omega)).trans (Function.update_of_ne (by omega) _ _)
  kept := fun b hb => by
    have hpos : 0 < word.length := List.length_pos_iff.mpr hne
    rw [h.kept b (by omega)]
    exact hkept b (by omega)

/-- The words of a text become words behind the entries there are. -/
theorem carved_carve {n wordc : ℕ} {block : Block} {s : ℤ} {t : CString} (hcount : wordc + n = lweMaxarg)
    (hroom : wordc < lweMaxarg) (htext : TextAt block.area s t) (hnul : nul ∉ t) (hs : textOffset ≤ s)
    (hsize : s + t.length < block.size) :
    ∃ r, carve n wordc block s = some r ∧ Carved wordc block s (tokens ' ' n t) r := by
  induction n generalizing wordc block s t with
  | zero => omega
  | succ n ih =>
    obtain ⟨r, hstep, hcarved⟩ := tokenCarved_strtokAt htext hnul (show ' ' ≠ nul by decide) hsize
    rw [carve, hstep, tokens]
    generalize strtokR ' ' t = found at hcarved
    cases hcarved with
    | none rest => exact ⟨_, rfl, .refl wordc block s⟩
    | @token word rest a s' area hne hbegin hword hbehind hrest hwithin hpart hkept =>
      simp only [if_pos hroom.le]
      by_cases hlast : wordc + 1 ≥ lweMaxarg
      · obtain rfl : n = 0 := by omega
        rw [if_pos hlast]
        exact ⟨_, rfl, .cons hword hne hs hbegin (by omega) hbehind hkept (.refl _ _ _)⟩
      · rw [if_neg hlast]
        obtain ⟨r, hr, hcarved⟩ := @ih (wordc + 1)
          { block with area := area, entries := Function.update block.entries wordc (some a) } s' rest (by omega)
          (by omega) hrest (fun hmem => hnul (hpart hmem)) (by omega) (by dsimp only; omega)
        exact ⟨r, hr, .cons hword hne hs hbegin (by omega) hbehind hkept hcarved⟩

theorem toInt_of_lt {n : ℕ} (h : n < 2 ^ 31) : toInt n = n := Int.bmod_eq_of_le (by omega) (by omega)

theorem toSize_of_lt {n : ℕ} (h : n < 2 ^ 31) : toSize n = n := by
  rw [toSize, Int.emod_eq_of_lt (by omega) (by omega), Int.toNat_natCast]

/-- The block as `l_wordexp` fills it before the loop. -/
def filledBlock (words : CString) : Block where
  size := textOffset + words.length + 1
  entries := fun _ => none
  area := writeText (fun _ => nul) textOffset words

section Expansion

variable {malloc : ℕ → Bool} {words : CString} (hwords : words ≠ []) (hnul : nul ∉ words)
  (hsize : textOffset + words.length + 1 < 2 ^ 31) (halloc : malloc (textOffset + words.length + 1) = true)
  (pwordexp : Lwe)

include hwords hsize halloc in
/-- For a command whose block has a size that an `int` holds, the loop starts on the copied text. -/
theorem lWordexp_eq :
    lWordexp malloc (some words) pwordexp =
      (carve lweMaxarg 0 (filledBlock words) textOffset).map fun r => (0, ⟨r.1, some r.2⟩) := by
  have hcmdlen : toInt words.length = words.length := toInt_of_lt (by omega)
  have hpos : (words.length : ℤ) ≠ 0 := by simpa using hwords
  have hmemsize : toInt (textOffset + ((words.length : ℤ) + 1)) = (textOffset + words.length + 1 : ℕ) := by
    rw [← toInt_of_lt hsize]
    push_cast
    rw [add_assoc]
  have hcopied : toSize words.length = words.length := toSize_of_lt (by omega)
  simp only [lWordexp, hcmdlen, hmemsize, if_pos hpos, toSize_of_lt hsize, halloc, if_true, hcopied, List.take_length]
  rw [if_pos ⟨le_refl _, by omega⟩]
  rfl

include hwords hnul hsize halloc in
/-- What `l_wordexp` leaves is carved out of the filled block. -/
theorem lWordexp_carved :
    ∃ block, lWordexp malloc (some words) pwordexp = some (0, ⟨(SpaceMonitor.lWordexp words).length, some block⟩) ∧
      Carved 0 (filledBlock words) textOffset (SpaceMonitor.lWordexp words)
        ((SpaceMonitor.lWordexp words).length, block) := by
  have htext : TextAt (filledBlock words).area textOffset words := textAt_writeText rfl
  have hend : (textOffset : ℤ) + words.length < (filledBlock words).size := by
    rw [filledBlock]
    push_cast
    omega
  obtain ⟨⟨wordc, block⟩, hcarve, hcarved⟩ :=
    carved_carve (Nat.zero_add lweMaxarg) (by decide) htext hnul (le_refl _) hend
  obtain rfl : wordc = (SpaceMonitor.lWordexp words).length := hcarved.count.trans (Nat.zero_add _)
  exact ⟨block, by rw [lWordexp_eq hwords hsize halloc, hcarve]; rfl, hcarved⟩

include hwords hnul hsize halloc in
/-- Every entry of the vector is what the vector of texts has there. -/
theorem lWordexp_lweWordv :
    ∃ block, lWordexp malloc (some words) pwordexp = some (0, ⟨(SpaceMonitor.lWordexp words).length, some block⟩) ∧
      ∀ k (h : k < (lweWordv words).length), block.PointsTo k (lweWordv words)[k] := by
  obtain ⟨block, hresult, hcarved⟩ := lWordexp_carved hwords hnul hsize halloc pwordexp
  refine ⟨block, hresult, fun k hk => ?_⟩
  unfold lweWordv at hk ⊢
  by_cases hword : k < (SpaceMonitor.lWordexp words).length
  · rw [List.getElem_append_left (by simpa using hword), List.getElem_map]
    have hpoints := hcarved.words k hword
    rwa [Nat.zero_add] at hpoints
  · rw [List.getElem_append_right (by simpa using hword), List.getElem_replicate]
    exact hcarved.others k (by omega)

include hwords hnul hsize halloc in
/-- A command that is not empty is split into its words: the vector points to them one after the other, each with its
terminator in the block, and what stands behind them in the vector is null. -/
theorem lWordexp_splits :
    ∃ block, lWordexp malloc (some words) pwordexp = some (0, ⟨(commandWords words).length, some block⟩) ∧
      block.size = textOffset + words.length + 1 ∧
      (∀ k (h : k < (commandWords words).length), block.PointsTo k (some (commandWords words)[k])) ∧
      ∀ k, (commandWords words).length ≤ k → k ≤ lweMaxarg → block.PointsTo k none := by
  obtain ⟨block, hresult, hcarved⟩ := lWordexp_carved hwords hnul hsize halloc pwordexp
  rw [SpaceMonitor.lWordexp, tokens_eq_take, ← commandWords] at hresult hcarved
  refine ⟨block, hresult, hcarved.size, fun k hk => ?_, fun k hk _ => hcarved.others k (by omega)⟩
  have hpoints := hcarved.words k hk
  rwa [Nat.zero_add] at hpoints

end Expansion

theorem lWordexp_splits_two :
    ∃ block, lWordexp (fun _ => true) (some "metarec -l".toList) ⟨0, none⟩ =
        some (0, ⟨(commandWords "metarec -l".toList).length, some block⟩) ∧
      block.size = textOffset + "metarec -l".toList.length + 1 ∧
      (∀ k (h : k < (commandWords "metarec -l".toList).length),
        block.PointsTo k (some (commandWords "metarec -l".toList)[k])) ∧
      ∀ k, (commandWords "metarec -l".toList).length ≤ k → k ≤ lweMaxarg → block.PointsTo k none :=
  lWordexp_splits (by decide) (by decide) (by decide) rfl _

end WordExpansion

end RecordingAgent.Reagent
