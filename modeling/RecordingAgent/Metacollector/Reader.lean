import Mathlib.Data.List.Forall2
import Mathlib.Data.List.ReduceOption
import RecordingAgent.Metarec.ChunkFormat

/-!
# The reader of a chunk

`metareader.c`. The entries of the index are read one after the other up to the first that is no
record; those of the asked type and time are kept in a table, and each leads to a record. A read
that fails is reported and skipped. A final chunk of a recorder returns the records that were
recorded.
-/

namespace RecordingAgent.Metacollector

open Foundation Metarec

/-- `METADATA_CHUNK_MAX_INDEX_RECORDS`, the size of the table. -/
def metadataChunkMaxIndexRecords : ℕ := 128

/-- A record that is returned: its `record_time` and its `data`. -/
structure MetadataRecord where
  recordTime : ℕ
  data : List UInt8
  deriving DecidableEq, Repr

/-- The records that are returned and their count. -/
structure RecordsRead where
  records : List MetadataRecord
  rcdCnt : ℕ
  deriving DecidableEq, Repr

variable (fmt : ChunkFormat)

/-- The number of index entries, as the reader computes it. -/
def maxIdxRecordsCnt : ℕ :=
  (fmt.sizeofFilePfx - fmt.sizeofSubpfx2 - fmt.subpfx1.length) / fmt.sizeofRcdIdx

/-- The entry is of the type and in the range; two zeros imply all. -/
def Matches (starttime endtime : ℕ) (type : MetaDataType) (e : RcdIdx) : Prop :=
  e.recordtype = fmt.typeCode type ∧ ((starttime = 0 ∧ endtime = 0) ∨
    ((starttime ≠ 0 ∧ starttime ≤ e.timestamp) ∧ (endtime ≠ 0 ∧ e.timestamp ≤ endtime)))

/-- The entry is initialised. -/
def Initialized (e : RcdIdx) : Prop := e.timestamp ≠ 0 ∧ e.byteoffset ≠ 0

instance (starttime endtime : ℕ) (type : MetaDataType) (e : RcdIdx) :
    Decidable (Matches fmt starttime endtime type e) := by unfold Matches; infer_instance

instance (e : RcdIdx) : Decidable (Initialized e) := inferInstanceAs (Decidable (_ ∧ _))

/-- The loop over the entries as they are read. -/
def filterIndex (starttime endtime : ℕ) (type : MetaDataType) : List (Option RcdIdx) → List RcdIdx
  | [] => []
  | none :: entries => filterIndex starttime endtime type entries
  | some e :: entries =>
    if Initialized e then
      if Matches fmt starttime endtime type e then e :: filterIndex starttime endtime type entries
      else filterIndex starttime endtime type entries
    else []

/-- `get_all_filtered_index_records`. -/
def getAllFilteredIndexRecords (bytes : List UInt8) (starttime endtime : ℕ) (type : MetaDataType) :
    List RcdIdx :=
  filterIndex fmt starttime endtime type ((List.range (maxIdxRecordsCnt fmt)).map (fmt.readIdx bytes))

/-- Read the record of an entry into a zeroed structure of its type. -/
def readRecord (bytes : List UInt8) (type : MetaDataType) (e : RcdIdx) : Option MetadataRecord :=
  if e.recordlength = 0 then none
  else (readAt bytes e.byteoffset e.recordlength).map fun data =>
    ⟨e.timestamp, data ++ List.replicate (fmt.payloadSize type - data.length) 0⟩

/-- The offset is not negative as an `int`, and the structure has room for the payload. -/
def Readable (type : MetaDataType) (e : RcdIdx) : Prop :=
  e.byteoffset < 2 ^ 31 ∧ e.recordlength ≤ fmt.payloadSize type

instance (type : MetaDataType) (e : RcdIdx) : Decidable (Readable fmt type e) :=
  inferInstanceAs (Decidable (_ ∧ _))

/-- `get_metadata_records`; nothing if a seek fails or a write leaves the table or a structure. -/
def getMetadataRecords (bytes : List UInt8) (starttime endtime : ℕ) (type : MetaDataType) :
    Option RecordsRead :=
  let indexRecords := getAllFilteredIndexRecords fmt bytes starttime endtime type
  if indexRecords.length ≤ metadataChunkMaxIndexRecords ∧ ∀ e ∈ indexRecords, Readable fmt type e then
    some ⟨indexRecords.filterMap (readRecord fmt bytes type), indexRecords.length⟩
  else none

/-- The time is in the range, where (0, 0) is the range of all times. -/
def InRange (starttime endtime timestamp : ℕ) : Prop :=
  (starttime = 0 ∧ endtime = 0) ∨ (starttime ≤ timestamp ∧ timestamp ≤ endtime)

instance (starttime endtime timestamp : ℕ) : Decidable (InRange starttime endtime timestamp) :=
  inferInstanceAs (Decidable (_ ∨ _))

/-- What is to be returned of recorded records: those of the type in the range, in order. -/
def selected (rs : List Record) (starttime endtime : ℕ) (type : MetaDataType) : List MetadataRecord :=
  (rs.filter fun r => r.dataType = type ∧ InRange starttime endtime (r.tod % 2 ^ 32)).map fun r =>
    ⟨r.tod % 2 ^ 32, r.payload⟩

variable {fmt} {rs : List Record} {sec usec starttime endtime : ℕ} {type : MetaDataType}

/-- Reader and recorder agree on the number of index entries. -/
theorem maxIdxRecordsCnt_eq : maxIdxRecordsCnt fmt = fmt.indexCapacity := by
  rw [maxIdxRecordsCnt, fmt.sizeofFilePfx_eq, Nat.sub_right_comm, ChunkFormat.indexCapacity]

/-- The loop keeps the matching entries before the first that is not initialised. -/
theorem filterIndex_eq (entries : List (Option RcdIdx)) :
    filterIndex fmt starttime endtime type entries =
      (entries.reduceOption.takeWhile fun e => Initialized e).filter fun e =>
        Matches fmt starttime endtime type e := by
  induction entries with
  | nil => rfl
  | cons entry entries ih =>
    cases entry with
    | none => rw [filterIndex, ih, List.reduceOption_cons_of_none]
    | some e =>
      rw [filterIndex, List.reduceOption_cons_of_some, List.takeWhile_cons]
      by_cases hinit : Initialized e
      · simp only [hinit, if_true, decide_true, List.filter_cons, decide_eq_true_eq, ih]
      · simp only [hinit, if_false, decide_false, Bool.false_eq_true, List.filter_nil]

/-- Payloads start behind the prefix. -/
theorem payloadOffset_pos (k : ℕ) : 0 < fmt.payloadOffset rs k := by
  have hpfx := fmt.sizeofFilePfx_eq
  rw [ChunkFormat.payloadOffset, ChunkFormat.bodyOffset, hpfx, filePrefixSize]
  omega

/-- The entries of a final chunk as they are read: those of its records, then uninitialised ones. -/
theorem readIdx_range (sec usec : ℕ) (hn : rs.length ≤ fmt.indexCapacity) :
    ∃ unused : List RcdIdx, (∀ e ∈ unused, ¬ Initialized e) ∧
      ((List.range fmt.indexCapacity).map (fmt.readIdx (fmt.finalImage sec usec rs))).reduceOption =
        fmt.indexOf rs ++ unused := by
  obtain ⟨m, hm⟩ := Nat.exists_eq_add_of_le hn
  have hused : (List.range rs.length).map (fmt.readIdx (fmt.finalImage sec usec rs)) =
      (fmt.indexOf rs).map some := by
    apply List.ext_getElem?
    intro k
    rw [List.getElem?_map, List.getElem?_map, ChunkFormat.indexOf_getElem?]
    cases hk : rs[k]? with
    | none =>
      rw [List.getElem?_eq_none (by rw [List.length_range]; exact List.getElem?_eq_none_iff.mp hk)]
      rfl
    | some r =>
      rw [List.getElem?_range (List.getElem?_eq_some_iff.mp hk).1]
      exact congrArg some (ChunkFormat.readIdx_finalImage hn hk)
  refine ⟨(((List.range m).map (rs.length + ·)).map
    (fmt.readIdx (fmt.finalImage sec usec rs))).reduceOption, fun e he => ?_, ?_⟩
  · obtain ⟨entry, hentry, hread⟩ := List.mem_filterMap.mp he
    obtain ⟨k, hk, rfl⟩ := List.mem_map.mp hentry
    obtain ⟨i, hi, rfl⟩ := List.mem_map.mp hk
    have hlt : rs.length + i < fmt.indexCapacity := by
      rw [hm]
      exact Nat.add_lt_add_left (List.mem_range.mp hi) _
    obtain ⟨e', he', hzero⟩ : ∃ e', fmt.readIdx (fmt.finalImage sec usec rs) (rs.length + i) = some e' ∧
        e'.timestamp = 0 := ChunkFormat.readIdx_unused (Nat.le_add_right _ _) hlt
    obtain rfl : e' = e := Option.some.inj (he'.symm.trans hread)
    exact fun hinit => hinit.1 hzero
  · have hsome : ((fmt.indexOf rs).map some).reduceOption = fmt.indexOf rs := by simp [List.reduceOption]
    rw [hm, List.range_add, List.map_append, hused, List.reduceOption_append, hsome]

/-- The records have positive timestamps, and their payloads are the structures of their types. -/
def Recordable (fmt : ChunkFormat) (rs : List Record) : Prop :=
  ∀ r ∈ rs, fmt.Sized r ∧ 0 < r.tod % 2 ^ 32

instance (fmt : ChunkFormat) (rs : List Record) : Decidable (Recordable fmt rs) := by
  unfold Recordable; infer_instance

/-- The matching entries of a final chunk. -/
theorem getAllFilteredIndexRecords_finalImage (hn : rs.length ≤ fmt.indexCapacity)
    (hrs : Recordable fmt rs) :
    getAllFilteredIndexRecords fmt (fmt.finalImage sec usec rs) starttime endtime type =
      (fmt.indexOf rs).filter fun e => Matches fmt starttime endtime type e := by
  obtain ⟨unused, hunused, hread⟩ := readIdx_range sec usec hn
  have hused : ∀ e ∈ fmt.indexOf rs, decide (Initialized e) = true := by
    intro e he
    obtain ⟨k, hk⟩ := List.mem_iff_getElem?.mp he
    rw [ChunkFormat.indexOf_getElem?] at hk
    obtain ⟨r, hr, rfl⟩ := Option.map_eq_some_iff.mp hk
    have hstamp := (hrs r (List.mem_of_getElem? hr)).2
    exact decide_eq_true ⟨hstamp.ne', (payloadOffset_pos k).ne'⟩
  have hrest : (unused.takeWhile fun e => decide (Initialized e)) = [] := by
    cases unused with
    | nil => rfl
    | cons e unused => rw [List.takeWhile_cons_of_neg (by simpa using hunused e List.mem_cons_self)]
  rw [getAllFilteredIndexRecords, filterIndex_eq, maxIdxRecordsCnt_eq, hread,
    List.takeWhile_append_of_pos hused, hrest, List.append_nil]

/-- The entry leads to the record in the file. -/
structure Leads (fmt : ChunkFormat) (bytes : List UInt8) (e : RcdIdx) (r : Record) : Prop where
  sized : fmt.Sized r
  entry : e = fmt.indexEntry r e.byteoffset
  offset : e.byteoffset < 2 ^ 31
  payload : readAt bytes e.byteoffset e.recordlength = some r.payload

/-- The entries of a final chunk lead to its records. -/
theorem leads_finalImage (sec usec : ℕ) (hn : rs.length ≤ fmt.indexCapacity) (hrs : Recordable fmt rs) :
    List.Forall₂ (Leads fmt (fmt.finalImage sec usec rs)) (fmt.indexOf rs) rs := by
  refine List.forall₂_iff_get.mpr ⟨ChunkFormat.indexOf_length, fun k hk hk' => ?_⟩
  obtain ⟨r, hr⟩ : ∃ r, rs[k]? = some r := ⟨_, List.getElem?_eq_getElem hk'⟩
  have hentry : (fmt.indexOf rs)[k] = fmt.indexEntry r (fmt.payloadOffset rs k) := by
    have hget : (fmt.indexOf rs)[k]? = _ := ChunkFormat.indexOf_getElem? k
    rw [hr, List.getElem?_eq_getElem hk] at hget
    exact Option.some.inj hget
  have hrecord : rs[k] = r := by
    rw [List.getElem?_eq_getElem hk'] at hr
    exact Option.some.inj hr
  rw [List.get_eq_getElem, List.get_eq_getElem, hentry, hrecord]
  refine ⟨(hrs r (List.mem_of_getElem? hr)).1, rfl, ChunkFormat.payloadOffset_lt hn k, ?_⟩
  change readAt _ (fmt.payloadOffset rs k) (r.payload.length % 2 ^ 16) = _
  rw [Nat.mod_eq_of_lt r.length_lt]
  exact ChunkFormat.readAt_finalImage hn hr

variable {bytes : List UInt8} {e : RcdIdx} {r : Record}

/-- An entry matches if its record is to be returned. -/
theorem Leads.matches_iff (h : Leads fmt bytes e r) (hrange : starttime = 0 ↔ endtime = 0) :
    Matches fmt starttime endtime type e ↔
      r.dataType = type ∧ InRange starttime endtime (r.tod % 2 ^ 32) := by
  have htype : e.recordtype = fmt.typeCode r.dataType := by rw [h.entry]; rfl
  have hstamp : e.timestamp = r.tod % 2 ^ 32 := by rw [h.entry]; rfl
  rw [Matches, htype, hstamp, fmt.typeCode_injective.eq_iff, InRange]
  by_cases hstart : starttime = 0
  · simp [hstart, hrange.mp hstart]
  · have hend : endtime ≠ 0 := fun hend => hstart (hrange.mpr hend)
    simp [hstart, hend]

/-- An entry of the type is readable, and its record is read. -/
theorem Leads.readRecord (h : Leads fmt bytes e r) (htype : r.dataType = type) :
    Readable fmt type e ∧ readRecord fmt bytes type e = some ⟨r.tod % 2 ^ 32, r.payload⟩ := by
  have hlength : e.recordlength = r.payload.length := by
    rw [h.entry]
    exact Nat.mod_eq_of_lt r.length_lt
  have hsize : r.payload.length = fmt.payloadSize type := htype ▸ h.sized
  have hstamp : e.timestamp = r.tod % 2 ^ 32 := by rw [h.entry]; rfl
  refine ⟨⟨h.offset, (hlength.trans hsize).le⟩, ?_⟩
  rw [Metacollector.readRecord, if_neg (by rw [hlength]; exact h.sized.pos.ne'), h.payload, Option.map_some, hstamp,
    hsize, Nat.sub_self, List.replicate_zero, List.append_nil]

/-- Related lists keep related elements, and elements read as their partners stand for. -/
theorem filterMap_filter_of_forall₂ {α β γ : Type*} {R : α → β → Prop} {p : α → Bool} {q : β → Bool}
    {f : α → Option γ} {g : β → γ} {as : List α} {bs : List β} (h : List.Forall₂ R as bs)
    (hpq : ∀ a b, R a b → (p a = true ↔ q b = true)) (hfg : ∀ a b, R a b → q b = true → f a = some (g b)) :
    (as.filter p).filterMap f = (bs.filter q).map g := by
  induction h with
  | nil => rfl
  | @cons a b as bs hab _ ih =>
    by_cases hb : q b = true
    · rw [List.filter_cons_of_pos hb, List.filter_cons_of_pos ((hpq a b hab).mpr hb),
        List.filterMap_cons_some (hfg a b hab hb), List.map_cons, ih]
    · rw [List.filter_cons_of_neg hb, List.filter_cons_of_neg (mt (hpq a b hab).mp hb), ih]

/-- A final chunk returns the records that were recorded in it. -/
theorem getMetadataRecords_finalImage (hn : rs.length ≤ fmt.indexCapacity)
    (htable : fmt.indexCapacity ≤ metadataChunkMaxIndexRecords) (hrs : Recordable fmt rs)
    (hrange : starttime = 0 ↔ endtime = 0) :
    getMetadataRecords fmt (fmt.finalImage sec usec rs) starttime endtime type =
      some ⟨selected rs starttime endtime type, (selected rs starttime endtime type).length⟩ := by
  have hleads := leads_finalImage sec usec hn hrs
  have hmatches : ∀ e r, Leads fmt (fmt.finalImage sec usec rs) e r →
      (decide (Matches fmt starttime endtime type e) = true ↔
        decide (r.dataType = type ∧ InRange starttime endtime (r.tod % 2 ^ 32)) = true) := by
    intro e r h
    rw [decide_eq_true_iff, decide_eq_true_iff]
    exact h.matches_iff hrange
  have hkept : List.Forall₂ (Leads fmt (fmt.finalImage sec usec rs))
      ((fmt.indexOf rs).filter fun e => Matches fmt starttime endtime type e)
      (rs.filter fun r => r.dataType = type ∧ InRange starttime endtime (r.tod % 2 ^ 32)) :=
    List.rel_filter (fun e r h => hmatches e r h) hleads
  have hcount := hkept.length_eq
  have hread := filterMap_filter_of_forall₂ (f := readRecord fmt (fmt.finalImage sec usec rs) type)
    (g := fun r => ⟨r.tod % 2 ^ 32, r.payload⟩) hleads hmatches fun e r h hr =>
      (h.readRecord (decide_eq_true_iff.mp hr).1).2
  have hreadable : ∀ e ∈ (fmt.indexOf rs).filter fun e => Matches fmt starttime endtime type e,
      Readable fmt type e := by
    intro e he
    obtain ⟨k, hk, rfl⟩ := List.getElem_of_mem he
    have hk' := hcount ▸ hk
    have hselected := List.of_mem_filter (List.getElem_mem hk')
    exact ((hkept.get hk hk').readRecord (decide_eq_true_iff.mp hselected).1).1
  have hfits : ((fmt.indexOf rs).filter fun e => Matches fmt starttime endtime type e).length ≤
      metadataChunkMaxIndexRecords := by
    calc _ ≤ (fmt.indexOf rs).length := List.length_filter_le _ _
      _ ≤ _ := by
        rw [ChunkFormat.indexOf_length]
        exact hn.trans htable
  simp only [getMetadataRecords]
  rw [getAllFilteredIndexRecords_finalImage hn hrs, if_pos ⟨hfits, hreadable⟩, hread, hcount, selected,
    List.length_map]

end RecordingAgent.Metacollector
