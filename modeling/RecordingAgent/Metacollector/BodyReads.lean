import Mathlib.Data.List.TakeWhile
import RecordingAgent.Metacollector.Reader

/-!
# What the index makes the reader read

The reads of the record bodies one after the other, for any contents of the file. An entry of the index
gives the offset and the length of its read, and the record goes to the output array if the read succeeds;
the entries were counted before. A type without a record structure, such as the one of the corrupt
segments, is counted and never read.
-/

namespace RecordingAgent.Metacollector

open Foundation Metarec

/-- `EXIT_SUCCESS`. -/
def exitSuccess : ℤ := 0

/-- `EXIT_FAILURE`. -/
def exitFailure : ℤ := 1

/-- What is asked for: a range of times, and the enumerator of a type. -/
structure Query where
  starttime : ℕ
  endtime : ℕ
  type : ℕ
  deriving DecidableEq, Repr

/-- The output array, cleared by the caller, and the pointer to the slot that is written next. -/
structure Output where
  slots : ℕ → Option MetadataRecord
  ptrRcd : ℕ

/-- A read of a record's body: the structure that is filled, and the size that is asked for. -/
structure BodyRead where
  structureType : MetaDataType
  length : ℕ
  deriving DecidableEq, Repr

/-- What a call returns and does. -/
structure RecordsRun where
  rc : ℤ
  /-- The entries in the table of the index. -/
  kept : List RcdIdx
  bodyReads : List BodyRead
  output : Output
  /-- What is stored to `rcd_cnt`. -/
  rcdCnt : Option ℕ

namespace Query

variable (q : Query)

/-- The entry is of the type and in the range; two zeros imply all. -/
def Matches (e : RcdIdx) : Prop :=
  e.recordtype = q.type ∧ ((q.starttime = 0 ∧ q.endtime = 0) ∨
    ((q.starttime ≠ 0 ∧ q.starttime ≤ e.timestamp) ∧ (q.endtime ≠ 0 ∧ e.timestamp ≤ q.endtime)))

instance (e : RcdIdx) : Decidable (q.Matches e) := by unfold Matches; infer_instance

/-- The loop over the entries as they are read. -/
def filterIndex : List (Option RcdIdx) → List RcdIdx
  | [] => []
  | none :: entries => filterIndex entries
  | some e :: entries =>
    if Initialized e then
      if q.Matches e then e :: filterIndex entries else filterIndex entries
    else []

/-- The entries which `get_all_filtered_index_records` keeps. -/
def indexRecords (fmt : ChunkFormat) (bytes : List UInt8) : List RcdIdx :=
  q.filterIndex ((List.range (maxIdxRecordsCnt fmt)).map (fmt.readIdx bytes))

end Query

namespace Output

def cleared : Output := ⟨fun _ => none, 0⟩

/-- Copy a record to the array. -/
def place (out : Output) (r : MetadataRecord) : Output where
  slots := Function.update out.slots out.ptrRcd (some r)
  ptrRcd := out.ptrRcd + 1

end Output

variable (fmt : ChunkFormat) (bytes : List UInt8)

/-- The structure which the branch of a type fills; the default branch has none. -/
def recordStructure (type : ℕ) : Option MetaDataType :=
  [.gps, .timeInfo, .videoEvent, .locomotiveId].find? fun t : MetaDataType => fmt.typeCode t = type

/-- The offset is not negative as an `int`, so that the seek succeeds. -/
def Seekable (e : RcdIdx) : Prop := e.byteoffset < 2 ^ 31

instance (e : RcdIdx) : Decidable (Seekable e) := inferInstanceAs (Decidable (_ < _))

/-- The cleared structure of a type behind the read of its body. What a longer body overwrites behind the
structure is not modelled. -/
def readBody (t : MetaDataType) (e : RcdIdx) : Option MetadataRecord :=
  if e.recordlength = 0 then none
  else (readAt bytes e.byteoffset e.recordlength).map fun data =>
    ⟨e.timestamp, (data ++ List.replicate (fmt.payloadSize t) 0).take (fmt.payloadSize t)⟩

/-- The loop over the entries that were kept. -/
def readBodies (type : ℕ) : List RcdIdx → Output → ℤ × List BodyRead × Output
  | [], out => (exitSuccess, [], out)
  | e :: rest, out =>
    if Seekable e then
      match recordStructure fmt type with
      | none => readBodies type rest out
      | some t =>
        let (rc, reads, out') := readBodies type rest
          (match readBody fmt bytes t e with
          | some r => out.place r
          | none => out)
        (rc, ⟨t, e.recordlength⟩ :: reads, out')
    else (exitFailure, [], out)

/-- `get_metadata_records` of an open file. -/
def metadataRecordsRun (q : Query) : RecordsRun :=
  let kept := q.indexRecords fmt bytes
  let (rc, reads, out) := readBodies fmt bytes q.type kept .cleared
  ⟨rc, kept, reads, out, if rc = exitSuccess then some kept.length else none⟩

/-- The record has the bytes which a read of a kept entry found. -/
def Carries (q : Query) (r : MetadataRecord) : Prop :=
  ∃ t e data, recordStructure fmt q.type = some t ∧ e ∈ (metadataRecordsRun fmt bytes q).kept ∧
    readAt bytes e.byteoffset e.recordlength = some data ∧ data ≠ [] ∧
    r = ⟨e.timestamp, (data ++ List.replicate (fmt.payloadSize t) 0).take (fmt.payloadSize t)⟩

/-- A call that succeeds counts the records it placed, which are the first of the array, each with bytes
that were read. -/
def CountsPlaced (q : Query) : Prop :=
  (metadataRecordsRun fmt bytes q).rc = exitSuccess →
    ∃ n, (metadataRecordsRun fmt bytes q).rcdCnt = some n ∧
      (∀ i, ((metadataRecordsRun fmt bytes q).output.slots i).isSome = true ↔ i < n) ∧
      ∀ i r, (metadataRecordsRun fmt bytes q).output.slots i = some r → Carries fmt bytes q r

/-- No read asks for more than its structure has room for, and the entries fit their table. -/
def StaysWithin (q : Query) : Prop :=
  (∀ read ∈ (metadataRecordsRun fmt bytes q).bodyReads, read.length ≤ fmt.payloadSize read.structureType) ∧
    (metadataRecordsRun fmt bytes q).kept.length ≤ metadataChunkMaxIndexRecords

/-- The type has a structure, and the file has the bytes of the entry, which are at least one. -/
def HasBody (type : ℕ) (e : RcdIdx) : Prop :=
  (recordStructure fmt type).isSome = true ∧ e.recordlength ≠ 0 ∧ e.byteoffset + e.recordlength ≤ bytes.length

variable {fmt bytes}

section Output

variable {out : Output} {r : MetadataRecord} {rs : List MetadataRecord}

/-- Records placed one after the other follow what was there. -/
theorem placeAll_slots (rs : List MetadataRecord) (out : Output) :
    (rs.foldl Output.place out).ptrRcd = out.ptrRcd + rs.length ∧
      ∀ i, (rs.foldl Output.place out).slots i =
        if out.ptrRcd ≤ i ∧ i < out.ptrRcd + rs.length then rs[i - out.ptrRcd]? else out.slots i := by
  induction rs generalizing out with
  | nil =>
    refine ⟨rfl, fun i => ?_⟩
    rw [if_neg (by rw [List.length_nil]; omega)]
    rfl
  | cons r rs ih =>
    obtain ⟨hptr, hslots⟩ := ih (out.place r)
    have hplace : (out.place r).ptrRcd = out.ptrRcd + 1 := rfl
    rw [hplace] at hptr hslots
    refine ⟨by rw [List.foldl_cons, hptr, List.length_cons]; omega, fun i => ?_⟩
    rw [List.foldl_cons, hslots, List.length_cons]
    rcases lt_trichotomy i out.ptrRcd with hlt | rfl | hgt
    · rw [if_neg (by omega), if_neg (by omega)]
      exact Function.update_of_ne hlt.ne _ _
    · rw [if_neg (by omega), if_pos (by omega), Nat.sub_self]
      exact Function.update_self _ _ _
    · by_cases hin : i < out.ptrRcd + 1 + rs.length
      · rw [if_pos ⟨hgt, hin⟩, if_pos (by omega), show i - out.ptrRcd = i - (out.ptrRcd + 1) + 1 by omega,
          List.getElem?_cons_succ]
      · rw [if_neg (by omega), if_neg (by omega)]
        exact Function.update_of_ne hgt.ne' _ _

/-- The array behind records placed from its start on. -/
theorem placeAll_cleared (rs : List MetadataRecord) (i : ℕ) :
    (rs.foldl Output.place .cleared).slots i = rs[i]? := by
  rw [(placeAll_slots rs .cleared).2 i]
  simp only [Output.cleared, Nat.zero_le, true_and, Nat.zero_add, Nat.sub_zero]
  split
  · rfl
  · rename_i hout
    exact (List.getElem?_eq_none (by omega)).symm

end Output

/-- The records of these entries whose reads succeed. -/
def placedRecords (fmt : ChunkFormat) (bytes : List UInt8) (type : ℕ) (es : List RcdIdx) : List MetadataRecord :=
  es.filterMap fun e => (recordStructure fmt type).bind fun t => readBody fmt bytes t e

/-- What the loop returns, reads and places: the entries up to the first failing seek are read, in order. -/
theorem readBodies_eq (type : ℕ) (es : List RcdIdx) (out : Output) :
    readBodies fmt bytes type es out =
      (if ∀ e ∈ es, Seekable e then exitSuccess else exitFailure,
        (recordStructure fmt type).elim [] fun t =>
          (es.takeWhile fun e => Seekable e).map fun e => ⟨t, e.recordlength⟩,
        (placedRecords fmt bytes type (es.takeWhile fun e => Seekable e)).foldl Output.place out) := by
  induction es generalizing out with
  | nil => cases recordStructure fmt type <;> simp [readBodies, placedRecords]
  | cons e rest ih =>
    rw [readBodies]
    by_cases hseek : Seekable e
    · rw [if_pos hseek, List.takeWhile_cons_of_pos (by simpa using hseek)]
      simp only [ih, List.forall_mem_cons, hseek, true_and, placedRecords, List.filterMap_cons]
      cases recordStructure fmt type with
      | none => rfl
      | some t =>
        simp only [Option.elim_some, List.map_cons, Option.bind_some]
        cases readBody fmt bytes t e <;> rfl
    · rw [if_neg hseek, List.takeWhile_cons_of_neg (by simpa using hseek)]
      have hnot : ¬ ∀ x ∈ e :: rest, Seekable x := fun h => hseek (h e List.mem_cons_self)
      rw [if_neg hnot]
      cases recordStructure fmt type <;> rfl

/-- A body is read if the file has it. -/
theorem readBody_isSome_iff {type : ℕ} {e : RcdIdx} :
    ((recordStructure fmt type).bind fun t => readBody fmt bytes t e).isSome = true ↔ HasBody fmt bytes type e := by
  unfold HasBody
  cases recordStructure fmt type with
  | none => simp
  | some t =>
    rw [Option.bind_some, readBody]
    by_cases hzero : e.recordlength = 0
    · simp [hzero]
    · simp [hzero, readAt]

/-- A record that was placed has bytes which were read. -/
theorem carries_of_mem {q : Query} {r : MetadataRecord}
    (h : r ∈ placedRecords fmt bytes q.type (q.indexRecords fmt bytes)) : Carries fmt bytes q r := by
  obtain ⟨e, he, hread⟩ := List.mem_filterMap.mp h
  obtain ⟨t, ht, hbody⟩ := Option.bind_eq_some_iff.mp hread
  rw [readBody] at hbody
  split at hbody
  · cases hbody
  · rename_i hlength
    obtain ⟨data, hdata, hrecord⟩ := Option.map_eq_some_iff.mp hbody
    refine ⟨t, e, data, ht, he, hdata, ?_, hrecord.symm⟩
    rintro rfl
    exact hlength (readAt_length hdata).1.symm

/-- An index has an element exactly if it is one of the list. -/
theorem isSome_getElem?_iff {α : Type*} {l : List α} {i : ℕ} : l[i]?.isSome = true ↔ i < l.length := by
  rw [Option.isSome_iff_ne_none, ne_eq, List.getElem?_eq_none_iff, not_le]

/-- A call succeeds exactly if no seek to a kept entry fails. -/
theorem metadataRecordsRun_rc (q : Query) :
    (metadataRecordsRun fmt bytes q).rc = exitSuccess ↔ ∀ e ∈ q.indexRecords fmt bytes, Seekable e := by
  rw [metadataRecordsRun, readBodies_eq]
  dsimp only
  split
  · rename_i hall
    exact iff_of_true rfl hall
  · rename_i hnot
    exact iff_of_false (by decide) hnot

/-- A call that succeeds has looked at all the entries it kept. -/
theorem metadataRecordsRun_of_seekable {q : Query} (h : ∀ e ∈ q.indexRecords fmt bytes, Seekable e) :
    (metadataRecordsRun fmt bytes q).rcdCnt = some (q.indexRecords fmt bytes).length ∧
      ∀ i, (metadataRecordsRun fmt bytes q).output.slots i =
        (placedRecords fmt bytes q.type (q.indexRecords fmt bytes))[i]? := by
  have hall : (q.indexRecords fmt bytes).takeWhile (fun e => decide (Seekable e)) = q.indexRecords fmt bytes := by
    rw [List.takeWhile_eq_self_iff]
    intro e he
    exact decide_eq_true (h e he)
  rw [metadataRecordsRun, readBodies_eq]
  dsimp only
  rw [if_pos h, hall]
  exact ⟨rfl, fun i => placeAll_cleared _ i⟩

/-- The reads stay within their structures, and the table within its size, exactly if the file says so: no
entry before a failing seek has a greater length, and no more entries match than the table has room for. -/
theorem staysWithin_iff (fmt : ChunkFormat) (bytes : List UInt8) (q : Query) :
    StaysWithin fmt bytes q ↔
      (∀ t, recordStructure fmt q.type = some t →
        ∀ e ∈ (q.indexRecords fmt bytes).takeWhile (fun e => Seekable e), e.recordlength ≤ fmt.payloadSize t) ∧
      (q.indexRecords fmt bytes).length ≤ metadataChunkMaxIndexRecords := by
  unfold StaysWithin
  rw [metadataRecordsRun, readBodies_eq]
  dsimp only
  refine and_congr_left' ?_
  cases recordStructure fmt q.type with
  | none => simp
  | some t => simp

section Reader

variable {starttime endtime : ℕ} {type : MetaDataType}

/-- The entries kept for a type with records. -/
theorem indexRecords_typeCode (starttime endtime : ℕ) (type : MetaDataType) :
    Query.indexRecords ⟨starttime, endtime, fmt.typeCode type⟩ fmt bytes =
      getAllFilteredIndexRecords fmt bytes starttime endtime type := by
  rw [Query.indexRecords, getAllFilteredIndexRecords]
  induction (List.range (maxIdxRecordsCnt fmt)).map (fmt.readIdx bytes) with
  | nil => rfl
  | cons entry entries ih =>
    cases entry with
    | none => exact ih
    | some e =>
      rw [Query.filterIndex, filterIndex, ih]
      rfl

theorem recordStructure_typeCode (type : MetaDataType) : recordStructure fmt (fmt.typeCode type) = some type := by
  simp only [recordStructure, fmt.typeCode_injective.eq_iff]
  cases type <;> rfl

/-- A body that fits its structure is followed by zeros. -/
theorem readBody_of_le {e : RcdIdx} (h : e.recordlength ≤ fmt.payloadSize type) :
    readBody fmt bytes type e = readRecord fmt bytes type e := by
  unfold readBody readRecord
  split
  · rfl
  · cases hread : readAt bytes e.byteoffset e.recordlength with
    | none => rfl
    | some data =>
      have hdata : data.length ≤ fmt.payloadSize type := by rwa [(readAt_length hread).1]
      rw [Option.map_some, Option.map_some, List.take_append, List.take_of_length_le hdata, List.take_replicate,
        Nat.min_eq_left (Nat.sub_le _ _)]

/-- Where the reader has a result, the reads stay within their structures and the array holds the result. -/
theorem getMetadataRecords_run {read : RecordsRead}
    (h : getMetadataRecords fmt bytes starttime endtime type = some read) :
    StaysWithin fmt bytes ⟨starttime, endtime, fmt.typeCode type⟩ ∧
      (metadataRecordsRun fmt bytes ⟨starttime, endtime, fmt.typeCode type⟩).rcdCnt = some read.rcdCnt ∧
      ∀ i, (metadataRecordsRun fmt bytes ⟨starttime, endtime, fmt.typeCode type⟩).output.slots i =
        read.records[i]? := by
  simp only [getMetadataRecords, ← indexRecords_typeCode] at h
  split at h
  · rename_i hfits
    obtain ⟨htable, hreadable⟩ := hfits
    obtain rfl := Option.some.inj h
    obtain ⟨hcount, hslots⟩ := metadataRecordsRun_of_seekable
      (q := ⟨starttime, endtime, fmt.typeCode type⟩) fun e he => (hreadable e he).1
    refine ⟨(staysWithin_iff _ _ _).mpr ⟨fun t ht e he => ?_, htable⟩, hcount, fun i => ?_⟩
    · obtain rfl := Option.some.inj ((recordStructure_typeCode type).symm.trans ht)
      exact (hreadable e (List.takeWhile_subset _ he)).2
    · rw [hslots, placedRecords, recordStructure_typeCode]
      congr 1
      exact List.filterMap_congr fun e he => readBody_of_le (hreadable e he).2
  · cases h

end Reader

/-- A file that ends behind its first entry, which leads behind the end. -/
def cutFile : List UInt8 := List.replicate 396 0 ++ ChunkFormat.packedIdx ⟨7, 4096, 0, 12⟩

/-- A file whose first entry has a length of five hundred bytes, where the position record has twelve. -/
def longFile : List UInt8 := List.replicate 396 0 ++ ChunkFormat.packedIdx ⟨7, 1, 0, 500⟩

/-- The read asks for all of them. -/
theorem not_staysWithin_longFile : ¬ StaysWithin (ChunkFormat.packed id) longFile ⟨0, 0, 0⟩ := by
  intro h
  have hread : BodyRead.mk .gps 500 ∈ (metadataRecordsRun (ChunkFormat.packed id) longFile ⟨0, 0, 0⟩).bodyReads := by
    decide +kernel
  exact absurd (h.1 _ hread) (by decide)

end RecordingAgent.Metacollector
