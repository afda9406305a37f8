import RecordingAgent.RtspPlay.Reader

/-!
# What playback delivers

Reading on from a stream yields its records up to the first one with an empty body. Calls of
`readNextPacket` deliver what the active file and the chunks behind it yield, in order; the call after
that returns zero and leaves no file open, so the call after that one reads a closed file.
-/

namespace RecordingAgent.RtspPlay

open Foundation

variable {P : Type*} {disk : P → Option (List UInt8)} {f : ReadStream} {b b' : RDBuffer}

/-- What a read returns and leaves of the stream does not depend on the buffer, nor does the packet. -/
theorem rdRead_congr (f : ReadStream) (b b' : RDBuffer) :
    (rdRead f b).1 = (rdRead f b').1 ∧ (rdRead f b).2.2 = (rdRead f b').2.2 ∧
      ((rdRead f b).1 ≠ 0 → (rdRead f b).2.1 = (rdRead f b').2.1) := by
  simp only [rdRead]
  split <;> simp

/-- A packet is read from a whole header. -/
theorem remaining_rdRead_lt (h : (rdRead f b).1 ≠ 0) :
    (rdRead f b).2.2.remaining.length < f.remaining.length := by
  have hheader : rdPacketSize ≤ f.remaining.length := by
    by_contra hshort
    have : ((f.fread rdPacketSize).1).length ≠ rdPacketSize := by
      simp [ReadStream.fread]
      omega
    simp [rdRead, this] at h
  simp only [rdRead]
  split
  · rw [ReadStream.remaining_fread, List.length_drop]
    simp only [rdPacketSize] at hheader ⊢
    omega
  · rw [ReadStream.remaining_fread, ReadStream.remaining_fread, List.length_drop, List.length_drop]
    simp only [rdPacketSize] at hheader ⊢
    omega

/-- The packets which reads of the stream return before one returns zero. -/
def recordsFrom (f : ReadStream) : List RDBuffer :=
  if (rdRead f .zero).1 = 0 then []
  else (rdRead f .zero).2.1 :: recordsFrom (rdRead f .zero).2.2
termination_by f.remaining.length
decreasing_by
  apply remaining_rdRead_lt
  assumption

/-- A read which returns zero ends the records, whatever the buffer holds. -/
theorem recordsFrom_of_eq_zero (h : (rdRead f b).1 = 0) : recordsFrom f = [] := by
  rw [recordsFrom, if_pos ((rdRead_congr f .zero b).1.trans h)]

/-- A read which returns something has read the first of the records. -/
theorem recordsFrom_of_ne_zero (h : (rdRead f b).1 ≠ 0) :
    recordsFrom f = (rdRead f b).2.1 :: recordsFrom (rdRead f b).2.2 := by
  obtain ⟨hcount, hstream, hbuffer⟩ := rdRead_congr f b .zero
  rw [recordsFrom, if_neg (hcount ▸ h), hbuffer h, hstream]

/-- The read returns the length which stands in the buffer. -/
theorem rdRead_length (h : (rdRead f b).1 ≠ 0) : (rdRead f b).2.1.length = (rdRead f b).1 := by
  simp only [rdRead] at h ⊢
  split
  next hcut => simp [hcut] at h
  next => rfl

/-- The packets of a chunk which reads return before one returns zero. -/
def chunkPackets (bytes : List UInt8) : List RDBuffer :=
  recordsFrom (vraHeader (ReadStream.fopen bytes)).stream

/-- The packets of the chunks up to the first which cannot be opened. -/
def unreadChunks (disk : P → Option (List UInt8)) : List (ChunkT P) → List RDBuffer
  | [] => []
  | chunk :: rest =>
    match disk chunk.path with
    | none => []
    | some bytes => chunkPackets bytes ++ unreadChunks disk rest

namespace RTPdumpFileReader

variable {r : RTPdumpFileReader P}

/-- The packets which are still to be delivered. -/
def unread (disk : P → Option (List UInt8)) (r : RTPdumpFileReader P) : List RDBuffer :=
  match r.mActiveFile with
  | none => []
  | some f => recordsFrom f ++ unreadChunks disk (r.mVideoData.chunckList.drop (r.mIndex + 1))

/-- A reader with a file open, at one of the chunks. -/
structure Reading (r : RTPdumpFileReader P) : Prop where
  active : r.mActiveFile ≠ none
  index : r.mIndex ≤ r.mVideoData.totalChunk

/-- Opening the chunk at the index and reading its header: the reader is at its first packet, or no
file could be opened and nothing is left. -/
theorem openChunk_spec (disk : P → Option (List UInt8)) (r : RTPdumpFileReader P) :
    ((openChunk disk r).1 = true → (openChunk disk r).2.readHeader.Reading ∧
      (openChunk disk r).2.readHeader.unread disk = unreadChunks disk (r.mVideoData.chunckList.drop r.mIndex)) ∧
    ((openChunk disk r).1 = false → r.mActiveFile = none →
      (openChunk disk r).2.readHeader.mActiveFile = none ∧
        unreadChunks disk (r.mVideoData.chunckList.drop r.mIndex) = []) := by
  cases hchunk : r.mVideoData.chunckList[r.mIndex]? with
  | none =>
    have hend : r.mVideoData.chunckList.drop r.mIndex = [] :=
      List.drop_eq_nil_of_le (List.getElem?_eq_none_iff.mp hchunk)
    simp +contextual [openChunk, hchunk, hend, readHeader, unreadChunks]
  | some chunk =>
    obtain ⟨hlt, rfl⟩ := List.getElem?_eq_some_iff.mp hchunk
    rw [List.drop_eq_getElem_cons hlt]
    cases hdisk : disk r.mVideoData.chunckList[r.mIndex].path with
    | none => simp [openChunk, hchunk, hdisk, readHeader, unreadChunks]
    | some bytes =>
      refine ⟨fun _ => ⟨⟨?_, ?_⟩, ?_⟩, ?_⟩
      · simp [openChunk, hchunk, hdisk, readHeader]
      · simpa [openChunk, hchunk, hdisk, readHeader, VideoChunkT.totalChunk] using hlt.le
      · simp [openChunk, hchunk, hdisk, readHeader, unread, unreadChunks, chunkPackets]
      · simp [openChunk, hchunk, hdisk]

/-- The same for the chunk after the active one. -/
theorem nextChunk_spec (disk : P → Option (List UInt8)) (r : RTPdumpFileReader P) :
    ((nextChunk disk r).1 = true → (nextChunk disk r).2.Reading ∧
      (nextChunk disk r).2.unread disk = unreadChunks disk (r.mVideoData.chunckList.drop (r.mIndex + 1))) ∧
    ((nextChunk disk r).1 = false → (nextChunk disk r).2.mActiveFile = none ∧
      unreadChunks disk (r.mVideoData.chunckList.drop (r.mIndex + 1)) = []) := by
  have h := openChunk_spec disk { r with mIndex := r.mIndex + 1, mActiveFile := none }
  exact ⟨h.1, fun hfail => h.2 hfail rfl⟩

/-- A call with nothing left to deliver returns zero and leaves no file open. -/
def Ends (disk : P → Option (List UInt8)) (r : RTPdumpFileReader P) (b : RDBuffer) : Prop :=
  ∃ b' r', readNextPacket disk r b = some (0, b', r') ∧ r'.mActiveFile = none ∧ r'.mVideoData = r.mVideoData

/-- A call which delivers this packet and leaves the rest. -/
def Delivers (disk : P → Option (List UInt8)) (r : RTPdumpFileReader P) (b p : RDBuffer)
    (rest : List RDBuffer) : Prop :=
  ∃ r', readNextPacket disk r b = some (p.length, p, r') ∧ p.length ≠ 0 ∧ r'.Reading ∧
    r'.unread disk = rest ∧ r'.mVideoData = r.mVideoData

theorem readNextPacket_of_packet (disk : P → Option (List UInt8)) (hopen : r.mActiveFile = some f) (hne : (rdRead f b).1 ≠ 0) :
    readNextPacket disk r b =
      some ((rdRead f b).1, (rdRead f b).2.1, { r with mActiveFile := some (rdRead f b).2.2 }) := by
  rw [readNextPacket, hopen]
  exact if_pos hne

theorem readNextPacket_of_ended (disk : P → Option (List UInt8)) (hopen : r.mActiveFile = some f) (hzero : (rdRead f b).1 = 0)
    (hindex : r.mIndex ≤ r.mVideoData.totalChunk) : readNextPacket disk r b =
      if (nextChunk disk r).1 then readNextPacket disk (nextChunk disk r).2 (rdRead f b).2.1
      else some (0, (rdRead f b).2.1, (nextChunk disk r).2) := by
  conv_lhs => rw [readNextPacket, hopen]
  simp [hzero, hindex]

/-- A call delivers the next packet which is left, from whichever chunk it comes. -/
theorem readNextPacket_spec (disk : P → Option (List UInt8)) (b : RDBuffer) (hreading : r.Reading) :
    (r.unread disk = [] → r.Ends disk b) ∧
      ∀ p rest, r.unread disk = p :: rest → r.Delivers disk b p rest := by
  fun_induction readNextPacket disk r b with
  | case1 r b hclosed => exact absurd hclosed hreading.active
  | case2 r b f hopen n b' f' hread hne =>
    -- the active file holds another packet
    have hfirst : (rdRead f b).1 ≠ 0 := by simpa [hread] using hne
    have hcall := readNextPacket_of_packet disk hopen hfirst
    have hunread : r.unread disk = b' :: unread disk { r with mActiveFile := some f' } := by
      rw [unread, hopen]
      simp only [unread, recordsFrom_of_ne_zero hfirst, hread, List.cons_append]
    have hlength : b'.length = n := by simpa [hread] using rdRead_length hfirst
    rw [hunread]
    refine ⟨fun hnil => absurd hnil (List.cons_ne_nil _ _), fun p rest hcons => ?_⟩
    obtain ⟨rfl, rfl⟩ := List.cons.inj hcons
    rw [hread, ← hlength] at hcall
    exact ⟨_, hcall, hlength ▸ hne, ⟨Option.some_ne_none _, hreading.index⟩, rfl, rfl⟩
  | case3 r b f hopen n b' f' hread hzero hindex hnext ih =>
    -- it has ended, and the next chunk is open
    have hfirst : (rdRead f b).1 = 0 := by simpa [hread] using hzero
    have hcall := readNextPacket_of_ended disk hopen hfirst hindex
    obtain ⟨hreading', hrest⟩ := (nextChunk_spec disk r).1 hnext
    have hunread : r.unread disk = (nextChunk disk r).2.unread disk := by
      rw [unread, hopen, hrest]
      simp only [recordsFrom_of_eq_zero hfirst, List.nil_append]
    rw [if_pos hnext, hread] at hcall
    rw [hunread, Ends, hcall]
    simp only [Delivers, hcall]
    simpa [Ends, Delivers] using ih hreading'
  | case4 r b f hopen n b' f' hread hzero hindex hnext =>
    -- it has ended, and no chunk is left
    have hfirst : (rdRead f b).1 = 0 := by simpa [hread] using hzero
    have hcall := readNextPacket_of_ended disk hopen hfirst hindex
    obtain ⟨hclosed, hrest⟩ := (nextChunk_spec disk r).2 (Bool.eq_false_iff.mpr hnext)
    have hunread : r.unread disk = [] := by
      rw [unread, hopen]
      simp only [recordsFrom_of_eq_zero hfirst, hrest, List.append_nil]
    rw [if_neg hnext] at hcall
    rw [hunread]
    exact ⟨fun _ => ⟨_, _, hcall, hclosed, nextChunk_mVideoData disk r⟩, fun _ _ hnil => nomatch hnil⟩
  | case5 r b f hopen n b' f' hread hzero hindex => exact absurd hreading.index hindex

/-- Successive calls deliver these packets, and then the reader is as `after` says. -/
def Run (disk : P → Option (List UInt8)) (after : RTPdumpFileReader P → RDBuffer → Prop) :
    List RDBuffer → RTPdumpFileReader P → RDBuffer → Prop
  | [], r, b => after r b
  | p :: ps, r, b => ∃ r', readNextPacket disk r b = some (p.length, p, r') ∧ Run disk after ps r' p

/-- So many calls return zero. -/
def Silent (disk : P → Option (List UInt8)) : ℕ → RTPdumpFileReader P → RDBuffer → Prop
  | 0, _, _ => True
  | n + 1, r, b => ∃ b' r', readNextPacket disk r b = some (0, b', r') ∧ Silent disk n r' b'

/-- Every packet which is left is delivered, and the call after that returns zero. -/
theorem run_unread (disk : P → Option (List UInt8)) (b : RDBuffer) (hreading : r.Reading) :
    Run disk (Ends disk) (r.unread disk) r b := by
  generalize hps : r.unread disk = ps
  induction ps generalizing r b with
  | nil => exact (readNextPacket_spec disk b hreading).1 hps
  | cons p ps ih =>
    obtain ⟨r', hcall, -, hreading', hrest, -⟩ := (readNextPacket_spec disk b hreading).2 p ps hps
    exact ⟨r', hcall, ih p hreading' hrest⟩

/-- After a call a file is open only if a packet was delivered. -/
theorem reading_of_readNextPacket {n : ℕ} {b' : RDBuffer} {r' : RTPdumpFileReader P} (hreading : r.Reading)
    (hcall : readNextPacket disk r b = some (n, b', r')) :
    r'.mActiveFile = none ∨ n ≠ 0 ∧ r'.Reading := by
  cases hunread : r.unread disk with
  | nil =>
    obtain ⟨_, _, hcall', hclosed, -⟩ := (readNextPacket_spec disk b hreading).1 hunread
    simp only [hcall, Option.some.injEq, Prod.mk.injEq] at hcall'
    exact Or.inl (hcall'.2.2 ▸ hclosed)
  | cons p rest =>
    obtain ⟨_, hcall', hlength, hreading', -⟩ := (readNextPacket_spec disk b hreading).2 p rest hunread
    simp only [hcall, Option.some.injEq, Prod.mk.injEq] at hcall'
    obtain ⟨rfl, -, rfl⟩ := hcall'
    exact Or.inr ⟨hlength, hreading'⟩

/-- A call returns zero only if nothing is left, and otherwise leaves less. -/
theorem unread_of_readNextPacket {n : ℕ} {b' : RDBuffer} {r' : RTPdumpFileReader P}
    (h : r.mActiveFile = none ∨ r.Reading) (hcall : readNextPacket disk r b = some (n, b', r')) :
    (n = 0 → r.unread disk = [] ∧ r'.unread disk = []) ∧
      (n ≠ 0 → (r'.unread disk).length < (r.unread disk).length) := by
  rcases h with hclosed | hreading
  · rw [readNextPacket, hclosed] at hcall
    nomatch hcall
  · cases hunread : r.unread disk with
    | nil =>
      obtain ⟨_, _, hcall', hclosed, -⟩ := (readNextPacket_spec disk b hreading).1 hunread
      simp only [hcall, Option.some.injEq, Prod.mk.injEq] at hcall'
      obtain ⟨rfl, -, rfl⟩ := hcall'
      exact ⟨fun _ => ⟨rfl, by rw [unread, hclosed]⟩, fun hne => absurd rfl hne⟩
    | cons p rest =>
      obtain ⟨_, hcall', hlength, -, hrest, -⟩ := (readNextPacket_spec disk b hreading).2 p rest hunread
      simp only [hcall, Option.some.injEq, Prod.mk.injEq] at hcall'
      obtain ⟨rfl, -, rfl⟩ := hcall'
      exact ⟨fun hzero => absurd hzero hlength, fun _ => by rw [hrest, List.length_cons]; omega⟩

/-- A call leaves the chunks alone. -/
theorem readNextPacket_mVideoData {n : ℕ} {b' : RDBuffer} {r' : RTPdumpFileReader P}
    (hcall : readNextPacket disk r b = some (n, b', r')) : r'.mVideoData = r.mVideoData := by
  fun_induction readNextPacket disk r b with
  | case1 => nomatch hcall
  | case2 => grind
  | case3 r b f hopen n c f' hread hzero hindex hnext ih =>
    rw [ih hcall, nextChunk_mVideoData]
  | case4 r b f hopen n c f' hread hzero hindex hnext =>
    have hdata := nextChunk_mVideoData disk r
    grind
  | case5 => grind

/-- With no file open a call reads a closed file. -/
theorem readNextPacket_closed (hclosed : r.mActiveFile = none) : readNextPacket disk r b = none := by
  rw [readNextPacket, hclosed]

/-- No reader returns zero twice in a row. -/
theorem not_silent_two (h : r.mActiveFile = none ∨ r.Reading) : ¬Silent disk 2 r b := by
  rintro ⟨b', r', hcall, _, _, hagain, -⟩
  rcases h with hclosed | hreading
  · rw [readNextPacket_closed hclosed] at hcall
    nomatch hcall
  · rcases reading_of_readNextPacket hreading hcall with hclosed | ⟨hne, -⟩
    · rw [readNextPacket_closed hclosed] at hagain
      nomatch hagain
    · exact hne rfl

/-- So it never ends with calls which all return zero. -/
theorem not_run_silent {ps : List RDBuffer} (h : r.mActiveFile = none ∨ r.Reading) :
    ¬Run disk (fun r b => ∀ n, Silent disk n r b) ps r b := by
  induction ps generalizing r b with
  | nil =>
    intro hsilent
    exact not_silent_two h (hsilent 2)
  | cons p ps ih =>
    rintro ⟨r', hcall, hrun⟩
    rcases h with hclosed | hreading
    · rw [readNextPacket_closed hclosed] at hcall
      nomatch hcall
    · exact ih ((reading_of_readNextPacket hreading hcall).imp_right And.right) hrun

/-- The constructor leaves the reader at the first packet of the chunks, or with no file open. -/
theorem new_spec (disk : P → Option (List UInt8)) (data : VideoChunkT P) :
    ((new disk data).mActiveFile = none ∧ unreadChunks disk data.chunckList = []) ∨
      (new disk data).Reading ∧ (new disk data).unread disk = unreadChunks disk data.chunckList := by
  let start : RTPdumpFileReader P :=
    { mActiveFile := none
      mVideoData := data
      mIndex := 0
      audioPresent := false
      videoPresent := false }
  obtain ⟨hopened, hfailed⟩ := openChunk_spec disk start
  cases hopen : (openChunk disk start).1 with
  | false => exact Or.inl (hfailed hopen rfl)
  | true => exact Or.inr (hopened hopen)

end RTPdumpFileReader

/-- A packet as it is recorded: the length in its header counts the header and the body. -/
structure RDBuffer.Recordable (p : RDBuffer) : Prop where
  length_eq : p.length = p.data.length
  length_le : p.length ≤ 8000
  plen_lt : p.plen < 2 ^ 16
  offset_lt : p.offset < 2 ^ 32

/-- The record of a packet in a chunk. -/
def RDBuffer.bytes (p : RDBuffer) : List UInt8 :=
  beBytes 2 (p.length + rdPacketSize) ++ beBytes 2 p.plen ++ beBytes 4 p.offset ++ p.data

/-- A chunk: what stands in the place of the header, and the records behind it. -/
structure RecordedChunk where
  header : List UInt8
  records : List RDBuffer
  recordable : ∀ p ∈ records, p.Recordable

namespace RecordedChunk

/-- The bytes of the file. -/
def bytes (c : RecordedChunk) : List UInt8 := c.header ++ c.records.flatMap RDBuffer.bytes

/-- The header of the chunk is valid, and the records stand behind it. -/
def HeaderValid (c : RecordedChunk) : Prop := (vraHeader (ReadStream.fopen c.bytes)).code = exitSuccess

instance (c : RecordedChunk) : Decidable c.HeaderValid := inferInstanceAs (Decidable (_ = _))

end RecordedChunk

/-- Reading a record which comes next. -/
theorem rdRead_record {p : RDBuffer} {z : List UInt8} (b : RDBuffer) (hp : p.Recordable)
    (h : f.remaining = p.bytes ++ z) :
    (rdRead f b).1 = p.length ∧ (rdRead f b).2.1 = p ∧ (rdRead f b).2.2.remaining = z := by
  have hlength := hp.length_eq
  have hle := hp.length_le
  let hdr := beBytes 2 (p.length + rdPacketSize) ++ beBytes 2 p.plen ++ beBytes 4 p.offset
  have hsize : hdr.length = rdPacketSize := by simp [hdr, rdPacketSize]
  have hheader : f.remaining = hdr ++ (p.data ++ z) := by rw [h, RDBuffer.bytes, List.append_assoc]
  obtain ⟨hread, hrest⟩ := ReadStream.fread_of_remaining hheader
  rw [hsize] at hread hrest
  obtain ⟨hbody, hbehind⟩ := ReadStream.fread_of_remaining hrest
  have hfield : (beValue (hdr.take 2) + 2 ^ 16 - rdPacketSize) % 2 ^ 16 = p.length := by
    have htake : hdr.take 2 = beBytes 2 (p.length + rdPacketSize) := by
      simp [hdr]
    rw [htake, beValue_beBytes (by simp [rdPacketSize]; omega)]
    simp only [rdPacketSize]
    omega
  have hplen : beValue ((hdr.drop 2).take 2) = p.plen := by
    have htake : (hdr.drop 2).take 2 = beBytes 2 p.plen := by simp [hdr]
    rw [htake, beValue_beBytes (by simpa using hp.plen_lt)]
  have hoffset : beValue (hdr.drop 4) = p.offset := by
    have hdrop : hdr.drop 4 = beBytes 4 p.offset := List.drop_left' (by simp)
    rw [hdrop, beValue_beBytes (by simpa using hp.offset_lt)]
  rw [← hlength] at hbody hbehind
  simp only [rdRead, hread, hsize, hfield, hplen, hoffset, hbody]
  simpa using hbehind

/-- The records of a chunk are read up to the first one with an empty body. -/
theorem recordsFrom_records {records : List RDBuffer} (hrecords : ∀ p ∈ records, p.Recordable)
    (h : f.remaining = records.flatMap RDBuffer.bytes) :
    recordsFrom f = records.takeWhile (·.length != 0) := by
  induction records generalizing f with
  | nil =>
    have hshort : (f.fread rdPacketSize).1.length ≠ rdPacketSize := by
      simp [ReadStream.fread, h, rdPacketSize]
    apply recordsFrom_of_eq_zero (b := .zero)
    simp [rdRead, hshort]
  | cons p records ih =>
    rw [List.forall_mem_cons] at hrecords
    obtain ⟨hcount, hpacket, hrest⟩ := rdRead_record .zero hrecords.1 h
    by_cases hempty : p.length = 0
    · rw [recordsFrom_of_eq_zero (hcount.trans hempty), List.takeWhile_cons_of_neg (by simpa using hempty)]
    · rw [recordsFrom_of_ne_zero (hcount ▸ hempty), hpacket, ih hrecords.2 hrest,
        List.takeWhile_cons_of_pos (by simpa using hempty)]

/-- A header which is valid is read as a whole. -/
theorem remaining_vraHeader {bytes : List UInt8}
    (hvalid : (vraHeader (ReadStream.fopen bytes)).code = exitSuccess) :
    (vraHeader (ReadStream.fopen bytes)).stream.remaining = bytes.drop (filePfxSize + chunkHdrSize) := by
  simp only [vraHeader] at hvalid ⊢
  split at hvalid
  · nomatch hvalid
  · split at hvalid
    · nomatch hvalid
    · split at hvalid
      · nomatch hvalid
      · split at hvalid
        · nomatch hvalid
        · rename_i hline hmagic hpfx hhdr
          rw [if_neg hline, if_neg hmagic, if_neg hpfx, if_neg hhdr]
          simp only [ReadStream.remaining_fread, List.drop_drop]
          rfl

namespace RecordedChunk

/-- A chunk with a valid header is delivered up to its first empty record. -/
theorem chunkPackets_bytes {c : RecordedChunk} (hvalid : c.HeaderValid)
    (hsize : c.header.length = filePfxSize + chunkHdrSize) :
    chunkPackets c.bytes = c.records.takeWhile (·.length != 0) := by
  apply recordsFrom_records c.recordable
  rw [remaining_vraHeader hvalid, bytes, ← hsize, List.drop_left]

end RecordedChunk

section

variable (data : VideoChunkT P) (recorded : P → RecordedChunk)

/-- The chunks as files. -/
def diskOf : P → Option (List UInt8) := fun p => some (recorded p).bytes

/-- The packets of the chunks with valid headers. -/
def goodPackets : List RDBuffer :=
  data.chunckList.flatMap fun chunk =>
    if (recorded chunk.path).HeaderValid then (recorded chunk.path).records else []

/-- Calls deliver the packets of the chunks with valid headers, those with an empty body or not, and from
then on return zero. -/
def DeliversGood : Prop :=
  ∃ ps : List RDBuffer, ps.Sublist (goodPackets data recorded) ∧
    ps.filter (·.length != 0) = (goodPackets data recorded).filter (·.length != 0) ∧
    RTPdumpFileReader.Run (diskOf recorded)
      (fun r b => ∀ n, RTPdumpFileReader.Silent (diskOf recorded) n r b) ps
      (RTPdumpFileReader.new (diskOf recorded) data) .zero

variable {data recorded}

/-- If every header is valid and no record empty, the chunks yield their packets. -/
theorem unreadChunks_diskOf {chunks : List (ChunkT P)}
    (hgood : ∀ chunk ∈ chunks, (recorded chunk.path).HeaderValid ∧
      (recorded chunk.path).header.length = filePfxSize + chunkHdrSize)
    (hfull : ∀ chunk ∈ chunks, ∀ p ∈ (recorded chunk.path).records, p.length ≠ 0) :
    unreadChunks (diskOf recorded) chunks = chunks.flatMap fun chunk => (recorded chunk.path).records := by
  induction chunks with
  | nil => rfl
  | cons chunk chunks ih =>
    rw [List.forall_mem_cons] at hgood hfull
    have hpackets : chunkPackets (recorded chunk.path).bytes = (recorded chunk.path).records := by
      rw [RecordedChunk.chunkPackets_bytes hgood.1.1 hgood.1.2]
      exact List.takeWhile_eq_self_iff.mpr fun p hp => by simpa using hfull.1 p hp
    rw [List.flatMap_cons, ← ih hgood.2 hfull.2, ← hpackets]
    rfl

/-- Then calls deliver the packets of all chunks in order, and the call after that returns zero. -/
theorem run_new (hchunks : data.chunckList ≠ [])
    (hgood : ∀ chunk ∈ data.chunckList, (recorded chunk.path).HeaderValid ∧
      (recorded chunk.path).header.length = filePfxSize + chunkHdrSize)
    (hfull : ∀ chunk ∈ data.chunckList, ∀ p ∈ (recorded chunk.path).records, p.length ≠ 0) :
    RTPdumpFileReader.Run (diskOf recorded) (RTPdumpFileReader.Ends (diskOf recorded))
      (data.chunckList.flatMap fun chunk => (recorded chunk.path).records)
      (RTPdumpFileReader.new (diskOf recorded) data) .zero := by
  have hopen : (RTPdumpFileReader.new (diskOf recorded) data).mActiveFile ≠ none := by
    obtain ⟨chunk, rest, hcons⟩ := List.exists_cons_of_ne_nil hchunks
    simp [RTPdumpFileReader.new, RTPdumpFileReader.openChunk, hcons, diskOf, RTPdumpFileReader.readHeader]
  rcases RTPdumpFileReader.new_spec (diskOf recorded) data with ⟨hclosed, -⟩ | ⟨hreading, hunread⟩
  · exact absurd hclosed hopen
  · rw [← unreadChunks_diskOf hgood hfull, ← hunread]
    exact RTPdumpFileReader.run_unread (diskOf recorded) .zero hreading

/-- No chunks are delivered as they should be: after the end a closed file is read. -/
theorem not_deliversGood (data : VideoChunkT P) (recorded : P → RecordedChunk) :
    ¬DeliversGood data recorded := by
  rintro ⟨ps, -, -, hrun⟩
  apply RTPdumpFileReader.not_run_silent _ hrun
  exact (RTPdumpFileReader.new_spec (diskOf recorded) data).imp And.left And.left

end

/-- A packet with a body of four bytes. -/
def onePacket : RDBuffer where
  length := 4
  plen := 4
  offset := 0
  data := [1, 2, 3, 4]

/-- A chunk with a valid header and one packet. -/
def onePacketChunk : RecordedChunk where
  header := vramagic ++ List.replicate 2307 0
  records := [onePacket]
  recordable := by
    intro p hp
    obtain rfl := List.mem_singleton.mp hp
    exact ⟨rfl, by decide, by decide, by decide⟩

/-- A recording of that chunk only. -/
def onePacketRecording : VideoChunkT Unit where
  chunckList := [{ path := (), duration := 1, position := 0 }]
  total_le := by decide

/-- The packet is delivered and the end found, and the next call reads a closed file. -/
theorem not_deliversGood_onePacket :
    onePacketChunk.HeaderValid ∧ ¬DeliversGood onePacketRecording fun _ => onePacketChunk := by
  refine ⟨by decide +kernel, ?_⟩
  rintro ⟨ps, -, -, hrun⟩
  apply RTPdumpFileReader.not_run_silent _ hrun
  exact (RTPdumpFileReader.new_spec _ _).imp And.left And.left

end RecordingAgent.RtspPlay
