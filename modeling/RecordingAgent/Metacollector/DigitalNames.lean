import RecordingAgent.Metarec.ChunkFormat
import RecordingAgent.Metarec.DigitalInputs

/-!
# The names of the digital inputs in a chunk

A new chunk carries the names of the digital inputs in the slots of its first sub-prefix, and the reader
looks for the slot with a number. The inputs are numbered from one and the slots from zero, so the slot
with a number is that of the next input; a slot which is not used has the number zero. The sizes and the
layout of the slots are not part of the repository, and are parameters.
-/

namespace RecordingAgent.Metacollector

open Foundation Metarec

/-- `struct digital_config`. -/
structure DigitalConfig where
  digNum : ℤ
  digName : CString
  deriving DecidableEq, Repr

/-- The characters are those of a `char` array before its terminating NUL. -/
def IsText (text : CString) : Prop := ∀ c ∈ text, 0 < c.toNat ∧ c.toNat < 256

/-- The slot fits its fields. -/
structure DigitalConfig.Storable (c : DigitalConfig) (numDigitalInputs sizeofDigName : ℕ) : Prop where
  num_nonneg : 0 ≤ c.digNum
  num_lt : c.digNum < numDigitalInputs
  name_lt : c.digName.length < sizeofDigName
  name_text : IsText c.digName

/-- The slots in `struct subpfx_1`. -/
structure MappingFormat (fmt : ChunkFormat) where
  /-- `NUM_DIGITAL_INPUTS`. -/
  numDigitalInputs : ℕ
  sizeofDigName : ℕ
  /-- `EVENT_NAME_LENGTH`. -/
  eventNameLength : ℕ
  /-- The sub-prefix with its identifying string and these slots. -/
  encode : List DigitalConfig → List UInt8
  decode : List UInt8 → List DigitalConfig
  sizeofDigName_pos : 0 < sizeofDigName
  encode_length : ∀ slots, (encode slots).length = fmt.subpfx1.length
  decode_encode : ∀ slots : List DigitalConfig, slots.length = numDigitalInputs →
    (∀ c ∈ slots, c.Storable numDigitalInputs sizeofDigName) → decode (encode slots) = slots

/-- A function that is asked for the name of an input: what it returns, and the text it leaves in the buffer. -/
abbrev Reporter := ℤ → CString → ℤ × CString

/-- `get_digital_input_name` over the table of the recorder. -/
def tableReporter (table : List DigitalInput) : Reporter := fun digitalNumber buf =>
  let (rc, text) := getDigitalInputName digitalNumber (some buf) table
  (rc, text.getD buf)

/-- The name which the table gives a number. -/
def configuredName (table : List DigitalInput) (number : ℤ) : Option CString :=
  (table.find? fun row => row.diNumber = number).map DigitalInput.diName

variable {fmt : ChunkFormat}

/-- Names for some of the inputs, each with room in the buffer. -/
structure Assignment (maps : MappingFormat fmt) where
  name : ℤ → Option CString
  name_text : ∀ n text, name n = some text → IsText text
  name_le : ∀ n text, name n = some text → text.length ≤ maps.eventNameLength

/-- Report the names of an assignment. -/
def Assignment.reporter {maps : MappingFormat fmt} (a : Assignment maps) : Reporter := fun digitalNumber buf =>
  match a.name digitalNumber with
  | some text => (1, text)
  | none => (0, buf)

variable (maps : MappingFormat fmt)

/-- The loop over the slots: how many are left, the index, and the text of the buffer. -/
def digitalMappings (report : Reporter) : ℕ → ℕ → CString → List DigitalConfig
  | 0, _, _ => []
  | left + 1, idx, tempBuffer =>
    let (rc, text) := report (idx + 1) tempBuffer
    (if rc ≠ 0 then ⟨idx, strncpy [] text (maps.sizeofDigName - 1)⟩ else ⟨0, []⟩) ::
      digitalMappings report left (idx + 1) text

/-- The slots of a new chunk. -/
def chunkMappings (report : Reporter) : List DigitalConfig := digitalMappings maps report maps.numDigitalInputs 0 []

/-- `metadata_chunk_header`. -/
def metadataChunkHeader (report : Reporter) (sec usec : ℕ) : List UInt8 :=
  maps.encode (chunkMappings maps report) ++ (fmt.subpfx2 fmt.indexCapacity 0 ++
    (List.replicate (fmt.sizeofFilePfx - fmt.subpfx1.length - fmt.sizeofSubpfx2) 0 ++ fmt.chunkHdr sec usec))

/-- `get_digital_config_name` of an open file. -/
def getDigitalConfigName (bytes : List UInt8) (digNum : ℤ) : CString :=
  match readAt bytes 0 fmt.subpfx1.length with
  | none => []
  | some pfx1 =>
    match ((maps.decode pfx1).take maps.numDigitalInputs).find? fun config => config.digNum = digNum with
    | some config => strncpy [] config.digName maps.eventNameLength
    | none => []

/-- From the chunk the name of each configured input is read back, and for every other number the empty string. -/
def NamesReadBack (report : Reporter) (name : ℤ → Option CString) : Prop :=
  ∀ (sec usec : ℕ) (rest : List UInt8) (n : ℤ),
    getDigitalConfigName maps (metadataChunkHeader maps report sec usec ++ rest) n =
      if 1 ≤ n ∧ n ≤ maps.numDigitalInputs then (name n).getD [] else []

/-- No input has a name with a character in it. -/
def Unnamed (name : ℤ → Option CString) : Prop :=
  ∀ n : ℕ, 1 ≤ n → n ≤ maps.numDigitalInputs → (name n).getD [] = []

variable {maps}

/-- A copy into a cleared field. -/
theorem strncpy_nil (text : CString) (n : ℕ) : strncpy [] text n = text.take n := by
  unfold strncpy
  split
  · rw [List.take_of_length_le (by omega)]
  · rw [List.drop_nil, List.append_nil]

theorem digitalMappings_length (report : Reporter) (left idx : ℕ) (buf : CString) :
    (digitalMappings maps report left idx buf).length = left := by
  induction left generalizing idx buf with
  | zero => rfl
  | succ left ih => rw [digitalMappings, List.length_cons, ih]

/-- A slot of the header is empty, or has the number before that of an input, and its name as far as it fits. -/
theorem mem_digitalMappings {a : Assignment maps} {c : DigitalConfig} {left idx : ℕ} {buf : CString}
    (hc : c ∈ digitalMappings maps a.reporter left idx buf) :
    c = ⟨0, []⟩ ∨ ∃ k text, k < idx + left ∧ a.name (k + 1 : ℕ) = some text ∧
      c = ⟨k, text.take (maps.sizeofDigName - 1)⟩ := by
  induction left generalizing idx buf with
  | zero => exact absurd hc List.not_mem_nil
  | succ left ih =>
    rw [digitalMappings, List.mem_cons] at hc
    rcases hc with hhead | hrest
    · cases hname : a.name (idx + 1) with
      | none =>
        left
        simpa [Assignment.reporter, hname] using hhead
      | some text =>
        refine Or.inr ⟨idx, text, by omega, hname, ?_⟩
        simpa [Assignment.reporter, hname, strncpy_nil] using hhead
    · rcases ih hrest with hempty | ⟨k, text, hk, hslot⟩
      · exact Or.inl hempty
      · exact Or.inr ⟨k, text, by omega, hslot⟩

/-- The buffer starts empty, and no name gets into it. -/
theorem tableReporter_nil (table : List DigitalInput) (n : ℤ) : (tableReporter table n []).2 = [] := by
  have hempty : (getDigitalInputName n (some []) table).2 = some [] := by
    induction table with
    | nil => rfl
    | cons row rest ih =>
      rw [getDigitalInputName]
      split
      · exact congrArg some (strncpy_length [] row.diName)
      · exact ih
  change ((getDigitalInputName n (some []) table).2).getD [] = []
  rw [hempty, Option.getD_some]

/-- What the recorder puts into the slots from its table are empty names. -/
theorem mem_digitalMappings_table {table : List DigitalInput} {c : DigitalConfig} {left idx : ℕ}
    (hc : c ∈ digitalMappings maps (tableReporter table) left idx []) :
    c.digName = [] ∧ 0 ≤ c.digNum ∧ c.digNum < idx + left := by
  induction left generalizing idx with
  | zero => exact absurd hc List.not_mem_nil
  | succ left ih =>
    rw [digitalMappings, List.mem_cons, tableReporter_nil] at hc
    rcases hc with rfl | hrest
    · split
      · refine ⟨(strncpy_nil [] _).trans List.take_nil, Int.natCast_nonneg idx, ?_⟩
        change (idx : ℤ) < _
        omega
      · refine ⟨rfl, le_rfl, ?_⟩
        change (0 : ℤ) < _
        omega
    · have hslot := ih hrest
      push_cast at hslot ⊢
      exact ⟨hslot.1, hslot.2.1, by omega⟩

/-- The reader finds the slots that were written. -/
theorem getDigitalConfigName_header {report : Reporter}
    (hstorable : ∀ c ∈ chunkMappings maps report, c.Storable maps.numDigitalInputs maps.sizeofDigName)
    (sec usec : ℕ) (rest : List UInt8) (n : ℤ) :
    getDigitalConfigName maps (metadataChunkHeader maps report sec usec ++ rest) n =
      (((chunkMappings maps report).find? fun c => c.digNum = n).map fun c =>
        c.digName.take maps.eventNameLength).getD [] := by
  have hlength : (chunkMappings maps report).length = maps.numDigitalInputs := digitalMappings_length _ _ _ _
  have hread : readAt (metadataChunkHeader maps report sec usec ++ rest) 0 fmt.subpfx1.length =
      some (maps.encode (chunkMappings maps report)) := by
    rw [metadataChunkHeader, List.append_assoc, ← maps.encode_length (chunkMappings maps report)]
    exact readAt_middle [] _ _
  rw [getDigitalConfigName, hread]
  simp only [maps.decode_encode _ hlength hstorable, ← hlength, List.take_length]
  cases (chunkMappings maps report).find? fun c => c.digNum = n with
  | none => rfl
  | some c => exact strncpy_nil _ _

/-- From slots without names the empty string is read for every number. -/
theorem namesReadBack_iff_of_nameless {report : Reporter} {name : ℤ → Option CString}
    (hstorable : ∀ c ∈ chunkMappings maps report, c.Storable maps.numDigitalInputs maps.sizeofDigName)
    (hnameless : ∀ c ∈ chunkMappings maps report, c.digName = []) :
    NamesReadBack maps report name ↔ Unnamed maps name := by
  have hread : ∀ sec usec rest n, getDigitalConfigName maps (metadataChunkHeader maps report sec usec ++ rest) n = [] := by
    intro sec usec rest n
    rw [getDigitalConfigName_header hstorable]
    cases hfind : (chunkMappings maps report).find? fun c => c.digNum = n with
    | none => rfl
    | some c => simp [hnameless c (List.mem_of_find?_eq_some hfind)]
  constructor
  · intro h n hpos hle
    have hn := h 0 0 [] n
    rw [hread, if_pos ⟨by omega, by omega⟩] at hn
    exact hn.symm
  · intro h sec usec rest n
    rw [hread]
    split
    · rename_i hn
      obtain ⟨k, rfl⟩ := Int.eq_ofNat_of_zero_le (show 0 ≤ n by omega)
      exact (h k (by omega) (by omega)).symm
    · rfl

/-- The slots of an assignment fit their fields. -/
theorem storable_chunkMappings (a : Assignment maps) :
    ∀ c ∈ chunkMappings maps a.reporter, c.Storable maps.numDigitalInputs maps.sizeofDigName := by
  intro c hc
  have hpos : 0 < maps.numDigitalInputs := by
    have h := List.length_pos_of_mem hc
    rwa [chunkMappings, digitalMappings_length] at h
  have hsize := maps.sizeofDigName_pos
  rcases mem_digitalMappings hc with rfl | ⟨k, text, hk, hname, rfl⟩
  · exact ⟨le_rfl, Int.natCast_pos.mpr hpos, hsize, fun c hc => absurd hc List.not_mem_nil⟩
  · refine ⟨Int.natCast_nonneg k, ?_, ?_, fun ch hch => a.name_text _ _ hname ch (List.mem_of_mem_take hch)⟩
    · change (k : ℤ) < _
      omega
    · rw [List.length_take]
      omega

/-- The slots that the recorder fills from its table fit their fields, and have no names. -/
theorem storable_chunkMappings_table (table : List DigitalInput) :
    ∀ c ∈ chunkMappings maps (tableReporter table),
      c.Storable maps.numDigitalInputs maps.sizeofDigName ∧ c.digName = [] := by
  intro c hc
  obtain ⟨hname, hnonneg, hlt⟩ := mem_digitalMappings_table hc
  refine ⟨⟨hnonneg, by simpa using hlt, ?_, ?_⟩, hname⟩
  · rw [hname]
    exact maps.sizeofDigName_pos
  · rw [hname]
    exact fun c hc => absurd hc List.not_mem_nil

/-- What is read for an input comes from the name of the next one. -/
theorem name_eq_of_readBack {a : Assignment maps} (h : NamesReadBack maps a.reporter a.name) {n : ℕ} (hpos : 1 ≤ n)
    (hle : n ≤ maps.numDigitalInputs)
    (hnext : n + 1 ≤ maps.numDigitalInputs → (a.name (n + 1 : ℕ)).getD [] = []) : (a.name n).getD [] = [] := by
  have hn := h 0 0 [] n
  rw [getDigitalConfigName_header (storable_chunkMappings a), if_pos ⟨by omega, by omega⟩] at hn
  rw [← hn]
  cases hfind : (chunkMappings maps a.reporter).find? fun c => c.digNum = (n : ℤ) with
  | none => rw [Option.map_none, Option.getD_none]
  | some c =>
    have hnum : c.digNum = n := by simpa using List.find?_some hfind
    rcases mem_digitalMappings (List.mem_of_find?_eq_some hfind) with rfl | ⟨k, text, hk, hname, rfl⟩
    · exact absurd hnum (by simp; omega)
    · obtain rfl : k = n := by simpa using hnum
      have hempty := hnext (by omega)
      rw [hname, Option.getD_some] at hempty
      simp [hempty]

/-- The mappings are read back exactly if no input has a name, be they taken from the table of the
recorder or reported as they are configured. -/
theorem namesReadBack_iff (fmt : ChunkFormat) (maps : MappingFormat fmt) :
    (∀ table : List DigitalInput,
      NamesReadBack maps (tableReporter table) (configuredName table) ↔ Unnamed maps (configuredName table)) ∧
    (∀ a : Assignment maps, NamesReadBack maps a.reporter a.name ↔ Unnamed maps a.name) := by
  refine ⟨fun table => ?_, fun a => ⟨fun h => ?_, fun h => ?_⟩⟩
  · have hslots : ∀ c ∈ chunkMappings maps (tableReporter table),
        c.Storable maps.numDigitalInputs maps.sizeofDigName ∧ c.digName = [] := storable_chunkMappings_table table
    exact namesReadBack_iff_of_nameless (fun c hc => (hslots c hc).1) fun c hc => (hslots c hc).2
  · -- from the last input down: its own number is not in any slot
    intro n hpos hle
    obtain ⟨d, hd⟩ := Nat.exists_eq_add_of_le hle
    induction d generalizing n with
    | zero => exact name_eq_of_readBack h hpos hle fun hlt => absurd hlt (by omega)
    | succ d ih => exact name_eq_of_readBack h hpos hle fun hlt => ih (n + 1) (by omega) hlt (by omega)
  · refine (namesReadBack_iff_of_nameless (storable_chunkMappings a) fun c hc => ?_).mpr h
    rcases mem_digitalMappings hc with rfl | ⟨k, text, hk, hname, rfl⟩
    · rfl
    · have hempty := h (k + 1) (by omega) (by omega)
      rw [hname, Option.getD_some] at hempty
      rw [hempty, List.take_nil]

/-- A slot of a byte for the number, and of the name with NULs behind it. -/
def packedSlot (size : ℕ) (c : DigitalConfig) : List UInt8 :=
  UInt8.ofNat c.digNum.toNat :: (c.digName.map (fun ch => UInt8.ofNat ch.toNat) ++
    List.replicate (size - c.digName.length) 0)

/-- The slot with these bytes. -/
def unpackSlot (bytes : List UInt8) : DigitalConfig where
  digNum := (bytes.headD 0).toNat
  digName := (bytes.tail.takeWhile fun b => b != 0).map fun b => Char.ofNat b.toNat

theorem packedSlot_length {size : ℕ} {c : DigitalConfig} (h : c.digName.length < size) :
    (packedSlot size c).length = size + 1 := by
  simp only [packedSlot, List.length_cons, List.length_append, List.length_map, List.length_replicate]
  omega

/-- A packed slot is read back. -/
theorem unpackSlot_packedSlot {n size : ℕ} (hn : n ≤ 256) {c : DigitalConfig} (h : c.Storable n size) :
    unpackSlot (packedSlot size c) = c := by
  have hnonneg := h.num_nonneg
  have hlt := h.num_lt
  have hnum : ((UInt8.ofNat c.digNum.toNat).toNat : ℤ) = c.digNum := by
    rw [UInt8.toNat_ofNat', Nat.mod_eq_of_lt (by omega)]
    exact Int.toNat_of_nonneg hnonneg
  have hchar : ∀ ch ∈ c.digName, (UInt8.ofNat ch.toNat).toNat = ch.toNat := by
    intro ch hch
    rw [UInt8.toNat_ofNat', Nat.mod_eq_of_lt (h.name_text ch hch).2]
  have hname : (c.digName.map (fun ch : Char => UInt8.ofNat ch.toNat) ++
      List.replicate (size - c.digName.length) 0).takeWhile (fun b => b != 0) =
        c.digName.map fun ch : Char => UInt8.ofNat ch.toNat := by
    rw [List.takeWhile_append_of_pos]
    · rw [List.takeWhile_replicate, if_neg (by decide), List.append_nil]
    · intro b hb
      obtain ⟨ch, hch, rfl⟩ := List.mem_map.mp hb
      have hpos := (h.name_text ch hch).1
      rw [bne_iff_ne, ne_eq, ← UInt8.toNat_inj, hchar ch hch]
      exact hpos.ne'
  have hback : (c.digName.map fun ch : Char => UInt8.ofNat ch.toNat).map (fun b => Char.ofNat b.toNat) = c.digName := by
    rw [List.map_map]
    refine (List.map_congr_left fun ch hch => ?_).trans (List.map_id' c.digName)
    rw [Function.comp_apply, hchar ch hch, Char.ofNat_toNat]
  rw [unpackSlot, packedSlot, List.headD_cons, List.tail_cons, hnum, hname, hback]

/-- Three slots at the beginning of a sub-prefix of 388 bytes. -/
def packedMappings : MappingFormat (ChunkFormat.packed id) where
  numDigitalInputs := 3
  sizeofDigName := 20
  eventNameLength := 19
  encode slots :=
    if (slots.flatMap (packedSlot 20)).length = 63 then slots.flatMap (packedSlot 20) ++ List.replicate 325 0
    else List.replicate 388 0
  decode bytes := (List.range 3).map fun k => unpackSlot ((bytes.drop (21 * k)).take 21)
  sizeofDigName_pos := by decide
  encode_length slots := by
    split
    · rename_i hlength
      rw [List.length_append, hlength, List.length_replicate, ChunkFormat.packed, List.length_replicate]
    · rfl
  decode_encode slots hlength hslots := by
    obtain ⟨a, b, c, rfl⟩ := List.length_eq_three.mp hlength
    have ha := hslots a (by simp)
    have hb := hslots b (by simp)
    have hc := hslots c (by simp)
    have hla := packedSlot_length ha.name_lt
    have hlb := packedSlot_length hb.name_lt
    have hlc := packedSlot_length hc.name_lt
    rw [if_pos (by simp [hla, hlb, hlc])]
    simp only [List.flatMap_cons, List.flatMap_nil, List.append_nil, List.append_assoc]
    have hrange : List.range 3 = [0, 1, 2] := rfl
    have h21 : (packedSlot 20 a ++ (packedSlot 20 b ++ (packedSlot 20 c ++ List.replicate 325 0))).drop 21 =
        packedSlot 20 b ++ (packedSlot 20 c ++ List.replicate 325 0) := List.drop_left' hla
    have h42 : (packedSlot 20 a ++ (packedSlot 20 b ++ (packedSlot 20 c ++ List.replicate 325 0))).drop 42 =
        packedSlot 20 c ++ List.replicate 325 0 := by
      rw [show 42 = 21 + 21 from rfl, ← List.drop_drop, h21]
      exact List.drop_left' hlb
    simp only [hrange, List.map_cons, List.map_nil, Nat.mul_zero, Nat.mul_one, List.drop_zero, h21, h42,
      List.take_left' hla, List.take_left' hlb, List.take_left' hlc, unpackSlot_packedSlot (by decide) ha,
      unpackSlot_packedSlot (by decide) hb, unpackSlot_packedSlot (by decide) hc]

/-- The first input is named. -/
def hornAssignment : Assignment packedMappings where
  name n := if n = 1 then some ['H', 'O', 'R', 'N'] else none
  name_text n text h := by
    split at h
    · obtain rfl := Option.some.inj h
      intro c hc
      simp only [List.mem_cons, List.not_mem_nil, or_false] at hc
      rcases hc with rfl | rfl | rfl | rfl <;> decide
    · cases h
  name_le n text h := by
    split at h
    · obtain rfl := Option.some.inj h
      decide
    · cases h

/-- The only name is that of the first input: it is found for the number zero, and not for its own. -/
theorem not_namesReadBack_horn :
    ¬ NamesReadBack packedMappings hornAssignment.reporter hornAssignment.name ∧
      ¬ NamesReadBack packedMappings (tableReporter [⟨['H', 'O', 'R', 'N'], 1, true⟩, ⟨[], 0, false⟩, ⟨[], 2, false⟩])
        (configuredName [⟨['H', 'O', 'R', 'N'], 1, true⟩, ⟨[], 0, false⟩, ⟨[], 2, false⟩]) := by
  constructor
  · intro h
    have hzero := h 0 0 [] 0
    rw [getDigitalConfigName_header (storable_chunkMappings _)] at hzero
    exact absurd hzero (by decide)
  · intro h
    have hone := h 0 0 [] 1
    rw [getDigitalConfigName_header fun c hc => (storable_chunkMappings_table _ c hc).1] at hone
    exact absurd hone (by decide)

end RecordingAgent.Metacollector
