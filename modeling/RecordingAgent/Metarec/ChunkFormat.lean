import Mathlib.Algebra.Order.BigOperators.Group.List
import Mathlib.Tactic.Ring
import RecordingAgent.Foundation.Bytes
import RecordingAgent.Metarec.MetaQueue

/-!
# The layout of a chunk file

A chunk file is a prefix of 2048 bytes, a chunk header and the payloads of its records. The
prefix consists of two sub-prefixes and the record index. The packed structures and the update
of the checksum are a parameter with the properties that the recorder and the reader rely on:
an index entry is read back as it was written, an unused one reads as no record, and the
checksum is kept in the first sub-prefix.

The image of an open chunk has an empty index, that of a closed one the index of its records.
-/

namespace RecordingAgent.Metarec

open Foundation

/-- The fields of `rcd_idx_t`. -/
structure RcdIdx where
  timestamp : ℕ
  byteoffset : ℕ
  recordtype : ℕ
  recordlength : ℕ
  deriving DecidableEq, Repr

/-- The size of the file prefix which the recorder divides among its parts. -/
def filePrefixSize : ℕ := 2048

/-- The packed layout. -/
structure ChunkFormat where
  /-- `struct subpfx_1` as it is written into a new chunk. -/
  subpfx1 : List UInt8
  /-- `struct subpfx_2` with its `max_records` and `num_records`. -/
  subpfx2 : ℕ → ℕ → List UInt8
  sizeofSubpfx2 : ℕ
  encodeIdx : RcdIdx → List UInt8
  decodeIdx : List UInt8 → RcdIdx
  sizeofRcdIdx : ℕ
  /-- `metachunk_file_pfx_t`. -/
  sizeofFilePfx : ℕ
  /-- `metadata_chunk_hdr_t` with the seconds and microseconds of the first record. -/
  chunkHdr : ℕ → ℕ → List UInt8
  sizeofChunkHdr : ℕ
  /-- The enumerator of a record type. -/
  typeCode : MetaDataType → ℕ
  /-- The size of the structure that is a record's payload. -/
  payloadSize : MetaDataType → ℕ
  /-- The file after `update_HMAC_SHA1_metadata`. -/
  updateHmac : List UInt8 → List UInt8
  subpfx2_length : ∀ max num, (subpfx2 max num).length = sizeofSubpfx2
  encodeIdx_length : ∀ e, (encodeIdx e).length = sizeofRcdIdx
  chunkHdr_length : ∀ sec usec, (chunkHdr sec usec).length = sizeofChunkHdr
  sizeofRcdIdx_pos : 0 < sizeofRcdIdx
  sizeofFilePfx_eq : sizeofFilePfx = filePrefixSize
  room_for_entry : subpfx1.length + sizeofSubpfx2 + sizeofRcdIdx ≤ filePrefixSize
  sizeofChunkHdr_le : sizeofChunkHdr ≤ filePrefixSize
  typeCode_injective : Function.Injective typeCode
  payloadSize_pos : ∀ t, 0 < payloadSize t
  decodeIdx_encodeIdx : ∀ (t : MetaDataType) (e : RcdIdx), e.recordtype = typeCode t →
    e.timestamp < 2 ^ 32 → e.byteoffset < 2 ^ 32 → e.recordlength < 2 ^ 16 →
      decodeIdx (encodeIdx e) = e
  decodeIdx_zeros : (decodeIdx (List.replicate sizeofRcdIdx 0)).timestamp = 0
  updateHmac_length : ∀ bytes, bytes.length ≤ (updateHmac bytes).length
  updateHmac_keeps : ∀ bytes i, subpfx1.length ≤ i → i < bytes.length →
    (updateHmac bytes)[i]? = bytes[i]?

namespace ChunkFormat

variable (fmt : ChunkFormat)

/-- The number of index entries in the prefix, as the recorder computes it. -/
def indexCapacity : ℕ :=
  (filePrefixSize - fmt.subpfx1.length - fmt.sizeofSubpfx2) / fmt.sizeofRcdIdx

/-- Where an index entry starts. -/
def idxOffset (k : ℕ) : ℕ := fmt.subpfx1.length + fmt.sizeofSubpfx2 + fmt.sizeofRcdIdx * k

/-- Where the first payload starts. -/
def bodyOffset : ℕ := fmt.sizeofFilePfx + fmt.sizeofChunkHdr

/-- Where the payload of the record with this number starts. -/
def payloadOffset (rs : List Record) (k : ℕ) : ℕ :=
  fmt.bodyOffset + ((rs.take k).map (·.payload.length)).sum

/-- The index entry of a record whose payload starts at an offset. -/
def indexEntry (r : Record) (offset : ℕ) : RcdIdx where
  timestamp := r.tod % 2 ^ 32
  byteoffset := offset
  recordtype := fmt.typeCode r.dataType
  recordlength := r.payload.length % 2 ^ 16

/-- The index entries of records whose payloads are stored from an offset on. -/
def indexFrom : ℕ → List Record → List RcdIdx
  | _, [] => []
  | offset, r :: rs => fmt.indexEntry r offset :: indexFrom (offset + r.payload.length) rs

/-- The index of the records of a chunk. -/
def indexOf (rs : List Record) : List RcdIdx := fmt.indexFrom fmt.bodyOffset rs

/-- The chunk header and the payloads. -/
def body (sec usec : ℕ) (rs : List Record) : List UInt8 :=
  fmt.chunkHdr sec usec ++ rs.flatMap Record.payload

/-- The file prefix of a new chunk. -/
def newPrefix : List UInt8 :=
  fmt.subpfx1 ++ (fmt.subpfx2 fmt.indexCapacity 0 ++
    List.replicate (fmt.sizeofFilePfx - fmt.subpfx1.length - fmt.sizeofSubpfx2) 0)

/-- A chunk which is being recorded. -/
def openImage (sec usec : ℕ) (rs : List Record) : List UInt8 := fmt.newPrefix ++ fmt.body sec usec rs

/-- A chunk whose header was finalised, before the checksum is updated. -/
def closedImage (sec usec : ℕ) (rs : List Record) : List UInt8 :=
  fmt.subpfx1 ++ (fmt.subpfx2 fmt.indexCapacity rs.length ++
    ((fmt.indexOf rs).flatMap fmt.encodeIdx ++
      (List.replicate (fmt.sizeofFilePfx - fmt.subpfx1.length - fmt.sizeofSubpfx2 -
        fmt.sizeofRcdIdx * rs.length) 0 ++ fmt.body sec usec rs)))

/-- A closed chunk with its checksum. -/
def finalImage (sec usec : ℕ) (rs : List Record) : List UInt8 :=
  fmt.updateHmac (fmt.closedImage sec usec rs)

/-- The index entry with this number, as a reader finds it. -/
def readIdx (bytes : List UInt8) (k : ℕ) : Option RcdIdx :=
  (readAt bytes (fmt.idxOffset k) fmt.sizeofRcdIdx).map fmt.decodeIdx

/-- The file has the entry of each of these records in its index, in order, and the payload of
each where its entry says. -/
def Holds (bytes : List UInt8) (rs : List Record) : Prop :=
  ∀ k r, rs[k]? = some r → ∃ e, fmt.readIdx bytes k = some e ∧
    e = fmt.indexEntry r e.byteoffset ∧ readAt bytes e.byteoffset e.recordlength = some r.payload

/-- The payload is the structure of the record's type. -/
def Sized (r : Record) : Prop := r.payload.length = fmt.payloadSize r.dataType

variable {fmt} {rs : List Record} {r : Record} {sec usec : ℕ}

instance : Decidable (fmt.Sized r) := by unfold Sized; infer_instance

/-- The index has room for at least one record. -/
theorem indexCapacity_pos : 0 < fmt.indexCapacity := by
  have hroom := fmt.room_for_entry
  exact Nat.div_pos (by omega) fmt.sizeofRcdIdx_pos

theorem Sized.pos (h : fmt.Sized r) : 0 < r.payload.length := by
  rw [h]
  exact fmt.payloadSize_pos _

@[simp] theorem indexFrom_length (offset : ℕ) : (fmt.indexFrom offset rs).length = rs.length := by
  induction rs generalizing offset with
  | nil => rfl
  | cons r rs ih => simp [indexFrom, ih]

/-- Each entry has the offset behind the payloads before its own. -/
theorem indexFrom_getElem? (offset k : ℕ) :
    (fmt.indexFrom offset rs)[k]? =
      rs[k]?.map fun r => fmt.indexEntry r (offset + ((rs.take k).map (·.payload.length)).sum) := by
  induction rs generalizing offset k with
  | nil => rfl
  | cons r rs ih =>
    cases k with
    | zero => simp [indexFrom]
    | succ k => simp [indexFrom, ih, Nat.add_assoc]

/-- The entry of each record of a chunk. -/
theorem indexOf_getElem? (k : ℕ) :
    (fmt.indexOf rs)[k]? = rs[k]?.map fun r => fmt.indexEntry r (fmt.payloadOffset rs k) :=
  indexFrom_getElem? _ k

@[simp] theorem indexOf_length : (fmt.indexOf rs).length = rs.length := indexFrom_length _

theorem indexFrom_append (offset : ℕ) (r : Record) :
    fmt.indexFrom offset (rs ++ [r]) =
      fmt.indexFrom offset rs ++ [fmt.indexEntry r (offset + (rs.map (·.payload.length)).sum)] := by
  induction rs generalizing offset with
  | nil => simp [indexFrom]
  | cons q rs ih => simp [indexFrom, ih, Nat.add_assoc]

/-- A further record gets the entry with the offset of the end of the chunk. -/
theorem indexOf_append (rs : List Record) (r : Record) :
    fmt.indexOf (rs ++ [r]) = fmt.indexOf rs ++ [fmt.indexEntry r (fmt.payloadOffset rs rs.length)] := by
  rw [indexOf, indexOf, indexFrom_append, payloadOffset, List.take_length]

/-- The end of the chunk moves by the payload of a further record. -/
theorem payloadOffset_append (rs : List Record) (r : Record) :
    fmt.payloadOffset (rs ++ [r]) (rs.length + 1) =
      fmt.payloadOffset rs rs.length + r.payload.length := by
  have htake : (rs ++ [r]).take (rs.length + 1) = rs ++ [r] := List.take_of_length_le (by simp)
  rw [payloadOffset, payloadOffset, htake, List.take_length, List.map_append, List.sum_append]
  simp [Nat.add_assoc]

/-- Recording a further record appends its payload. -/
theorem openImage_append (rs : List Record) (r : Record) :
    fmt.openImage sec usec (rs ++ [r]) = fmt.openImage sec usec rs ++ r.payload := by
  simp [openImage, body]

theorem newPrefix_length : fmt.newPrefix.length = fmt.sizeofFilePfx := by
  have hle := fmt.room_for_entry
  have hpfx := fmt.sizeofFilePfx_eq
  simp only [newPrefix, List.length_append, fmt.subpfx2_length, List.length_replicate]
  omega

theorem body_length (sec usec : ℕ) (rs : List Record) :
    (fmt.body sec usec rs).length = fmt.sizeofChunkHdr + (rs.map (·.payload.length)).sum := by
  rw [body, List.length_append, fmt.chunkHdr_length, List.length_flatMap]

/-- An open chunk ends where the payload of a further record would start. -/
theorem openImage_length : (fmt.openImage sec usec rs).length = fmt.payloadOffset rs rs.length := by
  rw [openImage, List.length_append, newPrefix_length, body_length, payloadOffset, bodyOffset,
    List.take_length, Nat.add_assoc]

/-- The entries of a full index fit the prefix. -/
theorem index_le {n : ℕ} (hn : n ≤ fmt.indexCapacity) :
    fmt.sizeofRcdIdx * n ≤ fmt.sizeofFilePfx - fmt.subpfx1.length - fmt.sizeofSubpfx2 := by
  rw [fmt.sizeofFilePfx_eq]
  calc fmt.sizeofRcdIdx * n ≤ fmt.sizeofRcdIdx * fmt.indexCapacity := Nat.mul_le_mul_left _ hn
    _ ≤ _ := Nat.mul_div_le _ _

theorem encoded_length (es : List RcdIdx) :
    (es.flatMap fmt.encodeIdx).length = fmt.sizeofRcdIdx * es.length := by
  induction es with
  | nil => simp
  | cons e es ih =>
    rw [List.flatMap_cons, List.length_append, ih, fmt.encodeIdx_length, List.length_cons]
    ring

/-- An empty chunk looks the same open and closed. -/
theorem closedImage_nil : fmt.closedImage sec usec [] = fmt.openImage sec usec [] := by
  simp [closedImage, openImage, newPrefix, indexOf, indexFrom]

/-- Writing the second sub-prefix and then the index over an open chunk closes it. -/
theorem closedImage_eq_writes (hn : rs.length ≤ fmt.indexCapacity) :
    writeAt (writeAt (fmt.openImage sec usec rs) fmt.subpfx1.length
        (fmt.subpfx2 fmt.indexCapacity rs.length))
      (fmt.subpfx1.length + fmt.sizeofSubpfx2) ((fmt.indexOf rs).flatMap fmt.encodeIdx) =
      fmt.closedImage sec usec rs := by
  have hindex : ((fmt.indexOf rs).flatMap fmt.encodeIdx).length = fmt.sizeofRcdIdx * rs.length := by
    rw [encoded_length, indexOf_length]
  have hzeros : List.replicate (fmt.sizeofFilePfx - fmt.subpfx1.length - fmt.sizeofSubpfx2) (0 : UInt8) =
      List.replicate (fmt.sizeofRcdIdx * rs.length) 0 ++
        List.replicate (fmt.sizeofFilePfx - fmt.subpfx1.length - fmt.sizeofSubpfx2 -
          fmt.sizeofRcdIdx * rs.length) 0 := by
    rw [List.replicate_append_replicate, Nat.add_sub_cancel' (index_le hn)]
  have hsubpfx2 : ∀ z, writeAt (fmt.subpfx1 ++ fmt.subpfx2 fmt.indexCapacity 0 ++ z)
      fmt.subpfx1.length (fmt.subpfx2 fmt.indexCapacity rs.length) =
        fmt.subpfx1 ++ fmt.subpfx2 fmt.indexCapacity rs.length ++ z :=
    fun z => writeAt_middle (by rw [fmt.subpfx2_length, fmt.subpfx2_length])
  have hentries : ∀ z, writeAt (fmt.subpfx1 ++ fmt.subpfx2 fmt.indexCapacity rs.length ++
      List.replicate (fmt.sizeofRcdIdx * rs.length) 0 ++ z) (fmt.subpfx1.length + fmt.sizeofSubpfx2)
        ((fmt.indexOf rs).flatMap fmt.encodeIdx) =
      fmt.subpfx1 ++ fmt.subpfx2 fmt.indexCapacity rs.length ++
        (fmt.indexOf rs).flatMap fmt.encodeIdx ++ z := by
    intro z
    have hat : fmt.subpfx1.length + fmt.sizeofSubpfx2 =
        (fmt.subpfx1 ++ fmt.subpfx2 fmt.indexCapacity rs.length).length := by
      rw [List.length_append, fmt.subpfx2_length]
    rw [hat]
    exact writeAt_middle (by rw [hindex, List.length_replicate])
  rw [openImage, newPrefix, ← List.append_assoc, List.append_assoc _ _ (fmt.body sec usec rs), hsubpfx2,
    hzeros, List.append_assoc (List.replicate (fmt.sizeofRcdIdx * rs.length) (0 : UInt8)),
    ← List.append_assoc _ (List.replicate (fmt.sizeofRcdIdx * rs.length) (0 : UInt8)), hentries]
  simp only [closedImage, List.append_assoc]

/-- The checksum changes nothing behind the first sub-prefix. -/
theorem readAt_updateHmac {bytes data : List UInt8} {pos size : ℕ}
    (h : readAt bytes pos size = some data) (hpos : fmt.subpfx1.length ≤ pos) :
    readAt (fmt.updateHmac bytes) pos size = some data := by
  rw [readAt_congr hpos (readAt_length h).2 (fmt.updateHmac_length bytes) (fmt.updateHmac_keeps bytes)]
  exact h

/-- A used entry of the index of a closed chunk. -/
theorem readAt_entry {k : ℕ} {e : RcdIdx} (hk : (fmt.indexOf rs)[k]? = some e) :
    readAt (fmt.closedImage sec usec rs) (fmt.idxOffset k) fmt.sizeofRcdIdx =
      some (fmt.encodeIdx e) := by
  obtain ⟨hlt, hget⟩ := List.getElem?_eq_some_iff.mp hk
  have hsplit : fmt.indexOf rs = (fmt.indexOf rs).take k ++ e :: (fmt.indexOf rs).drop (k + 1) := by
    rw [← hget, List.getElem_cons_drop, List.take_append_drop]
  have hbefore : (fmt.subpfx1 ++ (fmt.subpfx2 fmt.indexCapacity rs.length ++
      ((fmt.indexOf rs).take k).flatMap fmt.encodeIdx)).length = fmt.idxOffset k := by
    rw [List.length_append, List.length_append, encoded_length, fmt.subpfx2_length, List.length_take,
      Nat.min_eq_left hlt.le, idxOffset, Nat.add_assoc]
  have himage := readAt_middle (fmt.subpfx1 ++ (fmt.subpfx2 fmt.indexCapacity rs.length ++
      ((fmt.indexOf rs).take k).flatMap fmt.encodeIdx)) (fmt.encodeIdx e)
    (((fmt.indexOf rs).drop (k + 1)).flatMap fmt.encodeIdx ++
      (List.replicate (fmt.sizeofFilePfx - fmt.subpfx1.length - fmt.sizeofSubpfx2 -
        fmt.sizeofRcdIdx * rs.length) 0 ++ fmt.body sec usec rs))
  rw [hbefore, fmt.encodeIdx_length] at himage
  rw [← himage, closedImage]
  conv_lhs => rw [hsplit]
  simp only [List.flatMap_append, List.flatMap_cons, List.append_assoc]

/-- An unused entry of the index of a closed chunk. -/
theorem readAt_unused {k : ℕ} (hk : rs.length ≤ k) (hcap : k < fmt.indexCapacity) :
    readAt (fmt.closedImage sec usec rs) (fmt.idxOffset k) fmt.sizeofRcdIdx =
      some (List.replicate fmt.sizeofRcdIdx 0) := by
  obtain ⟨d, rfl⟩ := Nat.exists_eq_add_of_le hk
  have hroom : fmt.sizeofRcdIdx * (rs.length + d + 1) ≤
      fmt.sizeofFilePfx - fmt.subpfx1.length - fmt.sizeofSubpfx2 := index_le hcap
  have hlengths : fmt.sizeofRcdIdx * (rs.length + d + 1) =
      fmt.sizeofRcdIdx * rs.length + fmt.sizeofRcdIdx * d + fmt.sizeofRcdIdx := by ring
  have hzeros : List.replicate (fmt.sizeofFilePfx - fmt.subpfx1.length - fmt.sizeofSubpfx2 -
        fmt.sizeofRcdIdx * rs.length) (0 : UInt8) =
      List.replicate (fmt.sizeofRcdIdx * d) 0 ++ (List.replicate fmt.sizeofRcdIdx 0 ++
        List.replicate (fmt.sizeofFilePfx - fmt.subpfx1.length - fmt.sizeofSubpfx2 -
          fmt.sizeofRcdIdx * (rs.length + d + 1)) 0) := by
    rw [List.replicate_append_replicate, List.replicate_append_replicate]
    congr 1
    omega
  have hbefore : (fmt.subpfx1 ++ (fmt.subpfx2 fmt.indexCapacity rs.length ++
      ((fmt.indexOf rs).flatMap fmt.encodeIdx ++ List.replicate (fmt.sizeofRcdIdx * d) 0))).length =
        fmt.idxOffset (rs.length + d) := by
    simp only [List.length_append, encoded_length, fmt.subpfx2_length, indexOf_length,
      List.length_replicate, idxOffset]
    ring
  have himage := readAt_middle (fmt.subpfx1 ++ (fmt.subpfx2 fmt.indexCapacity rs.length ++
      ((fmt.indexOf rs).flatMap fmt.encodeIdx ++ List.replicate (fmt.sizeofRcdIdx * d) 0)))
    (List.replicate fmt.sizeofRcdIdx 0)
    (List.replicate (fmt.sizeofFilePfx - fmt.subpfx1.length - fmt.sizeofSubpfx2 -
      fmt.sizeofRcdIdx * (rs.length + d + 1)) 0 ++ fmt.body sec usec rs)
  rw [hbefore, List.length_replicate] at himage
  rw [← himage, closedImage, hzeros]
  simp only [List.append_assoc]

/-- The payload of a record of a closed chunk. -/
theorem readAt_payload {k : ℕ} (hn : rs.length ≤ fmt.indexCapacity) (hk : rs[k]? = some r) :
    readAt (fmt.closedImage sec usec rs) (fmt.payloadOffset rs k) r.payload.length =
      some r.payload := by
  obtain ⟨hlt, hget⟩ := List.getElem?_eq_some_iff.mp hk
  have hsplit : rs = rs.take k ++ r :: rs.drop (k + 1) := by
    rw [← hget, List.getElem_cons_drop, List.take_append_drop]
  have hroom := index_le hn
  have hsubpfx := fmt.room_for_entry
  have hpfx := fmt.sizeofFilePfx_eq
  have hindex : ((fmt.indexOf rs).flatMap fmt.encodeIdx).length = fmt.sizeofRcdIdx * rs.length := by
    rw [encoded_length, indexOf_length]
  have hpayloads : ((rs.take k).flatMap Record.payload).length =
      ((rs.take k).map fun r => r.payload.length).sum := List.length_flatMap
  have hbefore : (fmt.subpfx1 ++ (fmt.subpfx2 fmt.indexCapacity rs.length ++
      ((fmt.indexOf rs).flatMap fmt.encodeIdx ++
        (List.replicate (fmt.sizeofFilePfx - fmt.subpfx1.length - fmt.sizeofSubpfx2 -
          fmt.sizeofRcdIdx * rs.length) 0 ++
          (fmt.chunkHdr sec usec ++ (rs.take k).flatMap Record.payload))))).length =
        fmt.payloadOffset rs k := by
    simp only [List.length_append, hindex, hpayloads, fmt.subpfx2_length, List.length_replicate,
      fmt.chunkHdr_length, payloadOffset, bodyOffset]
    omega
  have himage := readAt_middle (fmt.subpfx1 ++ (fmt.subpfx2 fmt.indexCapacity rs.length ++
      ((fmt.indexOf rs).flatMap fmt.encodeIdx ++
        (List.replicate (fmt.sizeofFilePfx - fmt.subpfx1.length - fmt.sizeofSubpfx2 -
          fmt.sizeofRcdIdx * rs.length) 0 ++
          (fmt.chunkHdr sec usec ++ (rs.take k).flatMap Record.payload)))))
    r.payload ((rs.drop (k + 1)).flatMap Record.payload)
  rw [hbefore] at himage
  have hbody : fmt.body sec usec rs = fmt.chunkHdr sec usec ++ ((rs.take k).flatMap Record.payload ++
      (r.payload ++ (rs.drop (k + 1)).flatMap Record.payload)) := by
    rw [body]
    conv_lhs => rw [hsplit]
    simp only [List.flatMap_append, List.flatMap_cons]
  rw [← himage, closedImage, hbody]
  simp only [List.append_assoc]

/-- Offsets in a chunk of the recorder fit a signed number of 32 bits. -/
theorem payloadOffset_lt (hn : rs.length ≤ fmt.indexCapacity) (k : ℕ) :
    fmt.payloadOffset rs k < 2 ^ 31 := by
  have hsum : ((rs.take k).map (·.payload.length)).sum ≤ (rs.take k).length * 2 ^ 16 := by
    have hle : ∀ x ∈ (rs.take k).map (·.payload.length), x ≤ 2 ^ 16 := by
      intro x hx
      obtain ⟨r, -, rfl⟩ := List.mem_map.mp hx
      exact r.length_lt.le
    simpa using List.sum_le_card_nsmul _ _ hle
  have hcount : (rs.take k).length ≤ filePrefixSize := by
    calc (rs.take k).length ≤ rs.length := List.length_take_le' _ _
      _ ≤ fmt.indexCapacity := hn
      _ ≤ filePrefixSize - fmt.subpfx1.length - fmt.sizeofSubpfx2 := Nat.div_le_self _ _
      _ ≤ filePrefixSize := by omega
  have hhdr := fmt.sizeofChunkHdr_le
  have hpfx := fmt.sizeofFilePfx_eq
  rw [payloadOffset, bodyOffset]
  have hbound : (rs.take k).length * 2 ^ 16 ≤ filePrefixSize * 2 ^ 16 := Nat.mul_le_mul_right _ hcount
  simp only [filePrefixSize] at *
  omega

/-- A used entry of the index of a final chunk is read back. -/
theorem readIdx_finalImage (hn : rs.length ≤ fmt.indexCapacity) {k : ℕ}
    (hk : rs[k]? = some r) :
    fmt.readIdx (fmt.finalImage sec usec rs) k =
      some (fmt.indexEntry r (fmt.payloadOffset rs k)) := by
  have hentry : (fmt.indexOf rs)[k]? = some (fmt.indexEntry r (fmt.payloadOffset rs k)) := by
    rw [indexOf_getElem?, hk]
    rfl
  have hread : readAt (fmt.finalImage sec usec rs) (fmt.idxOffset k) fmt.sizeofRcdIdx =
      some (fmt.encodeIdx (fmt.indexEntry r (fmt.payloadOffset rs k))) :=
    readAt_updateHmac (readAt_entry hentry) (by rw [idxOffset]; omega)
  rw [readIdx, hread]
  have hdecode := fmt.decodeIdx_encodeIdx r.dataType (fmt.indexEntry r (fmt.payloadOffset rs k)) rfl
    (Nat.mod_lt _ (by decide)) ((payloadOffset_lt hn k).trans (by decide)) (Nat.mod_lt _ (by decide))
  exact congrArg some hdecode

/-- An unused entry of the index of a final chunk reads as no record. -/
theorem readIdx_unused {k : ℕ} (hk : rs.length ≤ k) (hcap : k < fmt.indexCapacity) :
    ∃ e, fmt.readIdx (fmt.finalImage sec usec rs) k = some e ∧ e.timestamp = 0 := by
  have hread : readAt (fmt.finalImage sec usec rs) (fmt.idxOffset k) fmt.sizeofRcdIdx =
      some (List.replicate fmt.sizeofRcdIdx 0) :=
    readAt_updateHmac (readAt_unused hk hcap) (by rw [idxOffset]; omega)
  refine ⟨fmt.decodeIdx (List.replicate fmt.sizeofRcdIdx 0), ?_, fmt.decodeIdx_zeros⟩
  rw [readIdx, hread]
  rfl

/-- The payload of a record of a final chunk is read back. -/
theorem readAt_finalImage (hn : rs.length ≤ fmt.indexCapacity) {k : ℕ} (hk : rs[k]? = some r) :
    readAt (fmt.finalImage sec usec rs) (fmt.payloadOffset rs k) r.payload.length =
      some r.payload := by
  have hsubpfx := fmt.room_for_entry
  have hpfx := fmt.sizeofFilePfx_eq
  exact readAt_updateHmac (readAt_payload hn hk) (by rw [payloadOffset, bodyOffset]; omega)

/-- A final chunk holds its records. -/
theorem holds_finalImage (hn : rs.length ≤ fmt.indexCapacity) :
    fmt.Holds (fmt.finalImage sec usec rs) rs := by
  intro k r hk
  refine ⟨_, readIdx_finalImage hn hk, rfl, ?_⟩
  have hlength : r.payload.length % 2 ^ 16 = r.payload.length := Nat.mod_eq_of_lt r.length_lt
  change readAt _ (fmt.payloadOffset rs k) (r.payload.length % 2 ^ 16) = _
  rw [hlength]
  exact readAt_finalImage hn hk

/-- The enumerators of the record types. -/
def packedTypeCode : MetaDataType → ℕ
  | .gps => 0
  | .timeInfo => 1
  | .videoEvent => 2
  | .locomotiveId => 3

/-- The sizes of the packed payload structures. -/
def packedPayloadSize : MetaDataType → ℕ
  | .gps => 12
  | .timeInfo => 28
  | .videoEvent => 25
  | .locomotiveId => 16

/-- An index entry of 16 little-endian bytes, the last two unused. -/
def packedIdx (e : RcdIdx) : List UInt8 :=
  leBytes 4 e.timestamp ++ (leBytes 4 e.byteoffset ++
    (leBytes 4 e.recordtype ++ (leBytes 2 e.recordlength ++ [0, 0])))

/-- The entry with these bytes. -/
def unpackIdx (bytes : List UInt8) : RcdIdx where
  timestamp := leValue (bytes.take 4)
  byteoffset := leValue ((bytes.drop 4).take 4)
  recordtype := leValue ((bytes.drop 8).take 4)
  recordlength := leValue ((bytes.drop 12).take 2)

/-- A packed entry is read back. -/
theorem unpackIdx_packedIdx (e : RcdIdx) (htype : e.recordtype < 2 ^ 32) (hstamp : e.timestamp < 2 ^ 32)
    (hoffset : e.byteoffset < 2 ^ 32) (hlength : e.recordlength < 2 ^ 16) :
    unpackIdx (packedIdx e) = e := by
  have htake : ∀ n x (rest : List UInt8), (leBytes n x ++ rest).take n = leBytes n x := by
    intro n x rest
    exact List.take_left' (leBytes_length n x)
  have hdrop : ∀ n x k (rest : List UInt8), (leBytes n x ++ rest).drop (n + k) = rest.drop k := by
    intro n x k rest
    rw [← List.drop_drop, List.drop_left' (leBytes_length n x)]
  have h4 : (packedIdx e).drop 4 = _ := hdrop 4 e.timestamp 0 _
  have h8 : (packedIdx e).drop 8 = _ := (hdrop 4 e.timestamp 4 _).trans (hdrop 4 e.byteoffset 0 _)
  have h12 : (packedIdx e).drop 12 = _ :=
    (hdrop 4 e.timestamp 8 _).trans ((hdrop 4 e.byteoffset 4 _).trans (hdrop 4 e.recordtype 0 _))
  rw [unpackIdx, h4, h8, h12]
  simp only [packedIdx, List.drop_zero, htake]
  rw [leValue_leBytes hstamp, leValue_leBytes hoffset, leValue_leBytes htype, leValue_leBytes hlength]

/-- The packed layout with a first sub-prefix of 388 bytes, whose checksum field starts at byte
132; the checksum itself is a parameter. -/
def packed (checksum : List UInt8 → List UInt8) : ChunkFormat where
  subpfx1 := List.replicate 388 0
  subpfx2 max num := leBytes 4 max ++ leBytes 4 num
  sizeofSubpfx2 := 8
  encodeIdx := packedIdx
  decodeIdx := unpackIdx
  sizeofRcdIdx := 16
  sizeofFilePfx := 2048
  chunkHdr sec usec := (leBytes 4 sec).reverse ++ (leBytes 4 usec).reverse
  sizeofChunkHdr := 8
  typeCode := packedTypeCode
  payloadSize := packedPayloadSize
  updateHmac bytes :=
    if 388 ≤ bytes.length then writeAt bytes 132 ((checksum (bytes.drop 2048)).take 256) else bytes
  subpfx2_length max num := by simp
  encodeIdx_length e := by simp [packedIdx]
  chunkHdr_length sec usec := by simp
  sizeofRcdIdx_pos := by decide
  sizeofFilePfx_eq := rfl
  room_for_entry := by
    rw [List.length_replicate]
    decide
  sizeofChunkHdr_le := by decide
  typeCode_injective s t h := by cases s <;> cases t <;> simp_all [packedTypeCode]
  payloadSize_pos t := by cases t <;> decide
  decodeIdx_encodeIdx t e htype := by
    refine unpackIdx_packedIdx e ?_
    rw [htype]
    cases t <;> decide
  decodeIdx_zeros := by decide
  updateHmac_length bytes := by
    split
    · exact length_le_writeAt _ _ _
    · exact le_rfl
  updateHmac_keeps bytes i hi hlt := by
    rw [List.length_replicate] at hi
    rw [if_pos (by omega)]
    apply writeAt_getElem?_of_le
    · omega
    · rw [List.length_take]
      omega

end ChunkFormat

end RecordingAgent.Metarec
