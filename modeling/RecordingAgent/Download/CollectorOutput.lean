import RecordingAgent.Download.PerformDownload
import RecordingAgent.Reagent.NamePadding

/-!
# The output of the metadata collector

The metadata collector of a drive writes a document of its own. It is copied behind the metadata of the
download in blocks of 511 characters, of which each is searched for the XML declaration until it was found.
-/

namespace RecordingAgent.Download

open Foundation
open RecordingAgent.Reagent (stored stored_of_lt)

variable {w : ℕ}

/-- `strcat(string, source)` in a buffer of `size` characters, where the source is copied from its front. -/
def strcat (m : Memory) (size : ℕ) (source : CString) : Memory :=
  m.strncpy (m.text 0 size).length source (source.length + 1)

/-- The loop of `remove_substr` from a place in the buffer on, for at most so many rounds. -/
def removeSubstrFrom (size : ℕ) (sub : CString) : ℕ → ℕ → Memory → Bool × Memory
  | 0, _, string => (false, string)
  | rounds + 1, start, string =>
    match strstr (string.text start (size - start)) sub with
    | none => (false, string)
    | some k =>
      let found := start + k
      let behind := found + sub.length
      let cut : Memory := Function.update string found nul
      let closed := strcat cut size (cut.text behind (size - behind))
      (true, (removeSubstrFrom size sub rounds (found + 1) closed).2)

/-- `remove_substr` in a buffer of `size` characters. A round goes on behind the last match, so there are no
more rounds than characters. -/
def removeSubstr (size : ℕ) (string : Memory) (sub : CString) : Bool × Memory :=
  removeSubstrFrom size sub size 0 string

/-- The size of `buf`. -/
def outputBufferSize : ℕ := 512

/-- The declaration at the beginning of the collector's document. -/
def xmlDeclaration : CString := "<?xml version=\"1.0\" encoding=\"UTF-8\"?>".toList

/-- What a block adds to the metadata, and whether the declaration was found by then. -/
def printBlock (matchFlag : Bool) (block : CString) : Bool × CString :=
  if (stored block).text 0 outputBufferSize = [] then (matchFlag, [])
  else if matchFlag then (matchFlag, (stored block).text 0 outputBufferSize)
  else
    ((removeSubstr outputBufferSize (stored block) xmlDeclaration).1,
      (removeSubstr outputBufferSize (stored block) xmlDeclaration).2.text 0 outputBufferSize)

/-- The loop which reads the collector's output: a block which the end cuts off is printed, and ends it. -/
def copyOutput (matchFlag : Bool) (rest : CString) : CString :=
  let block := rest.take (outputBufferSize - 1)
  let printed := printBlock matchFlag block
  if rest.length < outputBufferSize - 1 then printed.2
  else printed.2 ++ copyOutput printed.1 (rest.drop (outputBufferSize - 1))
termination_by rest.length
decreasing_by
  rename_i hlength
  rw [outputBufferSize] at hlength ⊢
  rw [List.length_drop]
  omega

/-- What the calls of a collection come to: the name of the temporary file, if it is made; the locomotive id;
how a time is written for the collector; and what a command returns and leaves in the file, if that can be
opened. -/
structure Collector where
  mkstemp : Option CString
  locoid : CString
  icdFormat : ℕ → CString
  system : CString → ℤ × Option CString

/-- The command which runs the collector. -/
def Collector.command (c : Collector) (req : Request w) (drive : ℕ) (fname : CString) : CString :=
  ("/opt/reagent/bin/metacollector -l ".toList ++ c.locoid ++ " -d ".toList ++
    (if drive = 1 then "CHM" else "SSD").toList ++ " -k METADATA -s ".toList ++ c.icdFormat req.startTime.toNat ++
    " -e ".toList ++ c.icdFormat req.endTime.toNat ++ " -g true -v true -t true -i true ".toList ++ fname ++
    " -p -h".toList).take 1023

/-- `get_metadata_from_drive`: whether it returns `EXIT_SUCCESS`, and what it appends to the metadata. -/
def getMetadataFromDrive (c : Collector) (req : Request w) (drive : ℕ) : Bool × CString :=
  match c.mkstemp with
  | none => (false, [])
  | some fname =>
    match c.system (c.command req drive fname) with
    | (0, some output) => (true, copyOutput false output)
    | _ => (false, [])

/-- A text which has a part at most once, and only at its beginning. -/
def OnlyAtStart (part text : CString) : Prop := ∀ k, part <+: text.drop k → k = 0

/-- A text without a part at its beginning. -/
def withoutStart (part text : CString) : CString := if part <+: text then text.drop part.length else text

/-! ## Removing the declaration from a block -/

/-- Appending to an empty text stores the source. -/
theorem text_strcat_nil {m : Memory} {size : ℕ} {source : CString} (hempty : m.text 0 size = [])
    (hsource : nul ∉ source) (hlength : source.length ≤ size) : (strcat m size source).text 0 size = source := by
  rw [Memory.text_eq_iff hsource hlength]
  simp only [strcat, hempty, List.length_nil, Memory.strncpy, Nat.zero_add, Nat.zero_le, true_and, Nat.sub_zero]
  constructor
  · intro i hi
    rw [if_pos (by omega), List.getElem?_eq_getElem hi, Option.getD_some]
  · intro _
    rw [if_pos (Nat.lt_succ_self _), List.getElem?_eq_none (le_refl _), Option.getD_none]

/-- A longer part does not occur. -/
theorem not_infix_of_length_lt {sub text : CString} (h : text.length < sub.length) : ¬ sub <:+: text :=
  fun hsegment => absurd hsegment.length_le (not_le.mpr h)

/-- No round changes a text without the part. -/
theorem removeSubstrFrom_of_not_infix {size start : ℕ} {string : Memory} {sub : CString} (rounds : ℕ)
    (h : ¬ sub <:+: string.text start (size - start)) :
    removeSubstrFrom size sub rounds start string = (false, string) := by
  cases rounds with
  | zero => rfl
  | succ rounds =>
    have hsearch : strstr (string.text start (size - start)) sub = none := by
      rw [← Option.not_isSome_iff_eq_none, strstr_isSome_iff]
      exact h
    rw [removeSubstrFrom, hsearch]

/-- A part at the beginning is removed, if it does not occur again behind it. -/
theorem removeSubstr_of_start {size : ℕ} {string : Memory} {sub rest : CString}
    (htext : string.text 0 size = sub ++ rest) (hsub : sub ≠ []) (hrest : ¬ sub <:+: rest) :
    (removeSubstr size string sub).1 = true ∧ (removeSubstr size string sub).2.text 0 size = rest := by
  have hlength := string.text_length_le_field 0 size
  rw [htext, List.length_append] at hlength
  have hpos : 0 < sub.length := List.length_pos_iff.mpr hsub
  have hnul : nul ∉ rest := fun h => string.nul_notMem_text 0 size (htext ▸ List.mem_append_right sub h)
  set cut : Memory := Function.update string 0 nul with hcut
  have hempty : cut.text 0 size = [] := Memory.text_of_nul (Function.update_self 0 nul string) size
  have hbehind : cut.text sub.length (size - sub.length) = rest := by
    rw [hcut, Memory.text_congr fun b hb _ => Function.update_of_ne (by omega) nul string]
    have hdrop := Memory.text_behind htext
    rwa [Nat.zero_add] at hdrop
  have hclosed : (strcat cut size rest).text 0 size = rest := text_strcat_nil hempty hnul (by omega)
  -- the search behind the match sees what is left of the text, or of the part itself if nothing is left
  have hnext : ¬ sub <:+: (strcat cut size rest).text 1 (size - 1) := by
    cases hcase : rest with
    | cons c rest' =>
      rw [hcase] at hclosed
      have hdrop := Memory.text_behind (s := [c]) hclosed
      rw [List.length_singleton, Nat.zero_add] at hdrop
      rw [hdrop]
      exact fun h => hrest (by rw [hcase]; exact h.trans (List.suffix_cons c rest').isInfix)
    | nil =>
      apply not_infix_of_length_lt
      have hsame : (strcat cut size []).text 1 (size - 1) = string.text 1 (size - 1) := by
        apply Memory.text_congr
        intro b hb _
        rw [strcat, hempty, Memory.strncpy, if_neg (by simp only [List.length_nil]; omega)]
        exact Function.update_of_ne (show b ≠ 0 by omega) nul string
      obtain ⟨c, sub', rfl⟩ := List.exists_cons_of_ne_nil hsub
      rw [hcase, List.append_nil] at htext
      have hdrop := Memory.text_behind (s := [c]) (t := sub') htext
      rw [List.length_singleton, Nat.zero_add] at hdrop
      rw [hsame, hdrop]
      exact Nat.lt_succ_self _
  obtain ⟨rounds, rfl⟩ : ∃ rounds, size = rounds + 1 := ⟨size - 1, by omega⟩
  rw [removeSubstr, removeSubstrFrom, Nat.sub_zero, htext, strstr_append]
  simp only [Nat.zero_add]
  rw [← hcut, hbehind, removeSubstrFrom_of_not_infix rounds hnext]
  exact ⟨trivial, hclosed⟩

/-! ## Copying the blocks -/

theorem text_stored {block : CString} (hnul : nul ∉ block) (hlength : block.length < outputBufferSize) :
    (stored block).text 0 outputBufferSize = block := by
  rw [Memory.text_of_getElem hnul fun i _ => by rw [stored, Nat.zero_add], List.take_of_length_le hlength.le]

/-- Behind the declaration a block is printed as it is. -/
theorem printBlock_true {block : CString} (hnul : nul ∉ block) (hlength : block.length < outputBufferSize) :
    printBlock true block = (true, block) := by
  rw [printBlock, text_stored hnul hlength, if_pos rfl]
  split
  next hempty => rw [hempty]
  next => rfl

/-- A block without the declaration is printed as it is. -/
theorem printBlock_false {block : CString} (hnul : nul ∉ block) (hlength : block.length < outputBufferSize)
    (hdecl : ¬ xmlDeclaration <:+: block) : printBlock false block = (false, block) := by
  have htext := text_stored hnul hlength
  rw [printBlock, if_neg Bool.false_ne_true, removeSubstr,
    removeSubstrFrom_of_not_infix _ (by rw [Nat.sub_zero, htext]; exact hdecl), htext]
  split
  next hempty => rw [hempty]
  next => rfl

/-- A block which begins with the declaration is printed without it. -/
theorem printBlock_start {rest : CString} (hnul : nul ∉ rest)
    (hlength : (xmlDeclaration ++ rest).length < outputBufferSize) (hrest : ¬ xmlDeclaration <:+: rest) :
    printBlock false (xmlDeclaration ++ rest) = (true, rest) := by
  have hall : nul ∉ xmlDeclaration ++ rest := fun h => (List.mem_append.mp h).elim (by decide) hnul
  have htext := text_stored hall hlength
  obtain ⟨hfound, hremoved⟩ := removeSubstr_of_start htext (by decide) hrest
  have hne : xmlDeclaration ++ rest ≠ [] := List.append_ne_nil_of_left_ne_nil (by decide) rest
  rw [printBlock, if_neg (by rw [htext]; exact hne), if_neg Bool.false_ne_true, hfound, hremoved]

/-- A text whose blocks are printed as they are is copied as it is. -/
theorem copyOutput_of_blocks {matchFlag : Bool} (text : CString)
    (h : ∀ block, block <:+: text → block.length < outputBufferSize →
      printBlock matchFlag block = (matchFlag, block)) :
    copyOutput matchFlag text = text := by
  have hblock := h (text.take (outputBufferSize - 1)) (List.take_prefix _ _).isInfix
    (Nat.lt_of_le_of_lt (List.length_take_le _ _) (by decide))
  rw [copyOutput]
  simp only [hblock]
  split
  next hlast => exact List.take_of_length_le hlast.le
  next =>
    rw [copyOutput_of_blocks (text.drop (outputBufferSize - 1)) fun block hsegment =>
        h block (hsegment.trans (List.drop_suffix _ _).isInfix), List.take_append_drop]
termination_by text.length
decreasing_by
  rename_i hlength
  rw [outputBufferSize] at hlength ⊢
  rw [List.length_drop]
  omega

/-- Behind the declaration a text is copied as it is. -/
theorem copyOutput_true {text : CString} (hnul : nul ∉ text) : copyOutput true text = text :=
  copyOutput_of_blocks text fun _ hsegment hlength => printBlock_true (fun h => hnul (hsegment.subset h)) hlength

/-- A text without the declaration is copied as it is. -/
theorem copyOutput_false {text : CString} (hnul : nul ∉ text) (hdecl : ¬ xmlDeclaration <:+: text) :
    copyOutput false text = text :=
  copyOutput_of_blocks text fun _ hsegment hlength =>
    printBlock_false (fun h => hnul (hsegment.subset h)) hlength fun h => hdecl (h.trans hsegment)

/-- A text which begins with the declaration is copied without it. -/
theorem copyOutput_start {rest : CString} (hnul : nul ∉ rest) (hrest : ¬ xmlDeclaration <:+: rest) :
    copyOutput false (xmlDeclaration ++ rest) = rest := by
  have hsize : xmlDeclaration.length ≤ outputBufferSize - 1 := by decide
  set room := outputBufferSize - 1 - xmlDeclaration.length with hroom
  have htake : (xmlDeclaration ++ rest).take (outputBufferSize - 1) = xmlDeclaration ++ rest.take room := by
    rw [List.take_append, List.take_of_length_le hsize]
  have hdrop : (xmlDeclaration ++ rest).drop (outputBufferSize - 1) = rest.drop room := by
    rw [List.drop_append, List.drop_eq_nil_of_le hsize, List.nil_append]
  have hsegment : rest.take room <:+: rest := (List.take_prefix room rest).isInfix
  have hfits : (xmlDeclaration ++ rest.take room).length < outputBufferSize := by
    rw [← htake]
    exact Nat.lt_of_le_of_lt (List.length_take_le _ _) (by decide)
  rw [copyOutput, htake, hdrop]
  simp only [printBlock_start (fun h => hnul (hsegment.subset h)) hfits fun h => hrest (h.trans hsegment)]
  split
  next hlast =>
    rw [List.length_append] at hlast
    exact List.take_of_length_le (by omega)
  next => rw [copyOutput_true fun h => hnul ((List.drop_suffix room rest).isInfix.subset h), List.take_append_drop]

/-- The collector's document is appended whole, without its declaration. -/
theorem getMetadataFromDrive_output (c : Collector) (req : Request w) (drive : ℕ) {fname output : CString}
    (hfile : c.mkstemp = some fname) (hrun : c.system (c.command req drive fname) = (0, some output))
    (hnul : nul ∉ output) (honly : OnlyAtStart xmlDeclaration output) :
    getMetadataFromDrive c req drive = (true, withoutStart xmlDeclaration output) := by
  simp only [getMetadataFromDrive, hfile, hrun, withoutStart]
  by_cases hstart : xmlDeclaration <+: output
  · obtain ⟨rest, rfl⟩ := hstart
    rw [if_pos (List.prefix_append xmlDeclaration rest), List.drop_left, copyOutput_start]
    · exact fun h => hnul (List.mem_append_right xmlDeclaration h)
    · rintro ⟨before, after, hagain⟩
      -- a second declaration would stand behind the first
      have hpos : 0 < xmlDeclaration.length := by decide
      have hplace := honly (xmlDeclaration.length + before.length) (by
        rw [← List.drop_drop, List.drop_left, ← hagain, List.append_assoc, List.drop_left]
        exact List.prefix_append xmlDeclaration after)
      omega
  · rw [if_neg hstart, copyOutput_false hnul]
    rintro ⟨before, after, rfl⟩
    have hplace : before.length = 0 := honly before.length (by
      rw [List.append_assoc, List.drop_left]
      exact List.prefix_append xmlDeclaration after)
    obtain rfl := List.eq_nil_of_length_eq_zero hplace
    exact hstart (List.prefix_append xmlDeclaration after)

/-- What a collector writes in an example: the declaration and an empty element. -/
def shortOutput : CString := xmlDeclaration ++ "<meta/>".toList

/-- A collector which writes it. -/
def shortCollector : Collector where
  mkstemp := some "/tmp/metadataAb12Cd".toList
  locoid := "BNSF_1234".toList
  icdFormat _ := "20231114T221320".toList
  system _ := (0, some shortOutput)

/-- Places of the declaration in the example. -/
theorem shortOutput_onlyAtStart : OnlyAtStart xmlDeclaration shortOutput := by
  intro k hk
  have hlength := hk.length_le
  rw [List.length_drop] at hlength
  have hfew : ∀ k < 8, xmlDeclaration <+: shortOutput.drop k → k = 0 := by decide
  have hroom : shortOutput.length - xmlDeclaration.length = 7 := by decide
  have hpos : 0 < xmlDeclaration.length := by decide
  exact hfew k (by omega) hk

theorem getMetadataFromDrive_short :
    getMetadataFromDrive shortCollector ⟨"CAB".toList, 1700000000#32, 1700000600#32, []⟩ 1 =
      (true, withoutStart xmlDeclaration shortOutput) := by
  have hnul : nul ∉ shortOutput := by decide
  exact getMetadataFromDrive_output shortCollector _ 1 rfl rfl hnul shortOutput_onlyAtStart

end RecordingAgent.Download
