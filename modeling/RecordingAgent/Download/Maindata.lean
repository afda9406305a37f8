import RecordingAgent.Download.PerformDownload
import RecordingAgent.Download.SegmentText
import RecordingAgent.Foundation.Decimal
import RecordingAgent.Reagent.NamePadding

/-!
# The main data of a download

Behind the segments the metadata of a download has a record with the names, the times and the settings of the
recording, and with the number of clips. This number is that of the chunks which were found, kept in a byte.
-/

namespace RecordingAgent.Download

open Foundation
open RecordingAgent.Reagent (cameraNameLength stored trimTrailingUndersore)

variable {w : ℕ}

/-- `maindata_t`, with texts for its character fields. -/
structure Maindata where
  starttimeoffset : ℤ
  signature : CString
  locoid : CString
  model : CString
  serial : CString
  stattime : CString
  endtime : CString
  name : CString
  gpsformat : CString
  mountType : BitVec 8
  resolution : CString
  compression : CString
  frameRate : CString
  segmentCount : BitVec 8

/-- What the main data are filled in from: the serial number and the locomotive id of the recorder, the name,
the model and the compression of the camera in what was found, the mount type in the configuration of a name,
the frame rate and the resolution in the headers of the chunks, the offset of the first chunk, the signature
of all chunks, and how the time library prints a time. -/
structure MaindataSource where
  recSerNum : CString
  locoId : CString
  name : CString
  model : CString
  compression : ℕ
  mountType : CString → Option CString
  fps : ℕ
  hres : ℕ
  vres : ℕ
  starttimeoffset : ℤ
  signature : CString
  epochToString : ℕ → CString

/-- `compression_table` -/
def compressionTable : List ℕ := [10, 20, 30, 50]

/-- The main data which `insert_maindata` fills in. -/
def maindata (src : MaindataSource) (req : Request w) (videoClipCount : ℤ) : Maindata :=
  let name := (trimTrailingUndersore (stored src.name) (cameraNameLength + 1)).text 0 (cameraNameLength + 1)
  { starttimeoffset := src.starttimeoffset
    signature := src.signature
    locoid := src.locoId
    model := src.model
    serial := src.recSerNum.take 12
    stattime := (src.epochToString req.startTime.toNat).take 23
    endtime := (src.epochToString req.endTime.toNat).take 23
    name
    gpsformat := "DMS".toList
    mountType := ((src.mountType name).map fun mountType => BitVec.ofInt 8 (atoi mountType)).getD 0
    resolution := (Nat.toDigits 10 src.hres ++ 'x' :: Nat.toDigits 10 src.vres).take 15
    compression := Nat.toDigits 10 (compressionTable.getD (src.compression % 4) 0)
    frameRate := (Nat.toDigits 10 src.fps).take 15
    segmentCount := BitVec.ofInt 8 videoClipCount }

/-- A line of `metadata_maindata`. -/
def maindataLine (tag : String) (value : CString) : CString :=
  "         <".toList ++ tag.toList ++ '>' :: value ++ "</".toList ++ tag.toList ++ ">\n".toList

/-- `metadata_maindata`, printed with the main data. -/
def Maindata.text (d : Maindata) : CString :=
  "   <maindata>\n".toList ++ maindataLine "serial" d.serial ++ maindataLine "locoid" d.locoid ++
    maindataLine "name" d.name ++ maindataLine "model" d.model ++
    maindataLine "segment_count" (Nat.toDigits 10 d.segmentCount.toNat) ++ maindataLine "starttime" d.stattime ++
    maindataLine "endtime" d.endtime ++
    maindataLine "starttimeoffset" (signedDigits d.starttimeoffset ++ ".000000".toList) ++
    maindataLine "gpsformat" d.gpsformat ++ maindataLine "mount_type" (Nat.toDigits 10 d.mountType.toNat) ++
    maindataLine "resolution" d.resolution ++ maindataLine "compression" d.compression ++
    maindataLine "frame_rate" d.frameRate ++ maindataLine "signature" d.signature ++ "     </maindata>\n ".toList

/-- Whether a piece of the metadata is the entry of a chunk. -/
def MetaItem.isChunk : MetaItem → Bool
  | .chunk _ _ => true
  | _ => false

/-- The chunks an attempt finds. -/
def Attempt.found (a : Attempt w) (req : Request w) : List Chunk :=
  (a.retriveData req.camera req.startTime req.endTime).2

/-- The segments in the metadata of an attempt. -/
def Attempt.segments (a : Attempt w) (req : Request w) : List MetaItem :=
  (insertChunkMetadata a.system (a.found req)).2

/-- The main data in the metadata of an attempt. -/
def Attempt.maindata (a : Attempt w) (src : MaindataSource) (req : Request w) : Maindata :=
  Download.maindata src req (a.found req).length

/-- The number of clips in the metadata of a successful download is that of the entries. -/
def CountsClips (a : Attempt w) (src : MaindataSource) (req : Request w) : Prop :=
  (performDownload a req).success = true →
    (a.maindata src req).segmentCount.toNat = (a.segments req).countP MetaItem.isChunk

/-! ## The entries of a download -/

theorem countP_openFirst (sys : DownloadSystem) (st : SegState) (c : Chunk) :
    (st.openFirst sys c).2.countP MetaItem.isChunk = 0 := by
  unfold SegState.openFirst
  split <;> rfl

theorem countP_closeSegment (sys : DownloadSystem) (st : SegState) (c : Chunk) (rest : List Chunk) :
    (st.closeSegment sys c rest).2.countP MetaItem.isChunk = 0 := by
  unfold SegState.closeSegment
  split
  · cases rest <;> rfl
  · rfl

/-- The loop makes an entry for every listed chunk unless a file is not copied. -/
theorem countP_insertChunks (sys : DownloadSystem) (st : SegState) (l : List Chunk)
    (h : (insertChunks sys st l).1 ≠ .internalErr) :
    (insertChunks sys st l).2.countP MetaItem.isChunk = (listed l).length := by
  induction l generalizing st with
  | nil => rfl
  | cons c rest ih =>
    unfold insertChunks at h ⊢
    cases hpath : c.path with
    | none =>
      rw [listed_cons_none hpath]
      simp only [hpath] at h ⊢
      exact ih st h
    | some path =>
      rw [listed_cons_some hpath]
      simp only [hpath] at h ⊢
      split at h
      next hcopied =>
        rw [if_pos hcopied]
        simp only [List.countP_append, List.countP_cons, countP_openFirst, countP_closeSegment, ih _ h,
          Chunk.entry, MetaItem.isChunk, List.length_cons]
        simp only [if_true]
        omega
      next => exact absurd rfl h

/-- A successful download has an entry for every listed chunk. -/
theorem countP_segments {a : Attempt w} {req : Request w} (h : (performDownload a req).success = true) :
    (a.segments req).countP MetaItem.isChunk = (listed (a.found req)).length := by
  have hreaches : ReachesAdjustment a req := by
    by_contra hreaches
    rw [(performDownload_of_not_reaches hreaches).1] at h
    cases h
  have hinserted : (insertChunkMetadata a.system (a.found req)).1 = .okFull := hreaches.2.2.2.2.1
  unfold Attempt.segments
  unfold insertChunkMetadata at hinserted ⊢
  cases hfound : a.found req with
  | nil =>
    rw [hfound] at hinserted
    cases hinserted
  | cons first rest =>
    simp only [hfound] at hinserted ⊢
    split at hinserted
    next hfits =>
      rw [if_pos hfits]
      exact countP_insertChunks _ _ _ (by rw [hinserted]; decide)
    next => cases hinserted

/-- How many chunks are left out, since their file cannot be found. -/
def leftOut (chunks : List Chunk) : ℕ := chunks.countP fun c => c.path.isNone

theorem length_listed_add_leftOut (chunks : List Chunk) : (listed chunks).length + leftOut chunks = chunks.length := by
  unfold leftOut
  induction chunks with
  | nil => rfl
  | cons c rest ih =>
    cases hpath : c.path with
    | none =>
      rw [listed_cons_none hpath, List.countP_cons_of_pos (by rw [hpath]; rfl), List.length_cons]
      omega
    | some path =>
      rw [listed_cons_some hpath, List.countP_cons_of_neg (by rw [hpath]; exact Bool.false_ne_true),
        List.length_cons, List.length_cons]
      omega

/-- The number of clips is right exactly when as many chunks are left out as the byte loses, which are none
below 256 found chunks. -/
theorem countsClips_iff (a : Attempt w) (src : MaindataSource) (req : Request w) :
    CountsClips a src req ↔
      ((performDownload a req).success = true → leftOut (a.found req) = 256 * ((a.found req).length / 256)) := by
  refine imp_congr_right fun h => ?_
  have hlength := length_listed_add_leftOut (a.found req)
  rw [countP_segments h, Attempt.maindata, maindata, BitVec.toNat_ofInt]
  omega

/-- A chunk of one minute whose file is found or not. -/
def minuteChunk (isFound : Bool) : Chunk :=
  { epochTime := 1700000000, duration := 60000000, gap := false
    path := if isFound then some "/rssd/a".toList else none
    timeSrc := ['G'], timeoffset := 0, signature := [], size := 1 }

/-- A download which finds these chunks and succeeds otherwise. -/
def smooth (chunks : List Chunk) : Attempt 32 where
  validateDestination _ := true
  retriveData _ _ _ := (chunks.length, chunks)
  mediaInfo := true
  initMetaFile _ := true
  system := ⟨0, fun _ => 0, fun _ => true, fun _ => true⟩
  mediaInfoAgain := true
  encryptMetadata := true
  zipFiles _ := (.okFull, 1)

/-- A recorder without a configuration of its camera. -/
def plainSource : MaindataSource where
  recSerNum := "1153721".toList
  locoId := "BNSF_1234".toList
  name := "CAB_________".toList
  model := []
  compression := 0
  mountType _ := none
  fps := 15
  hres := 1280
  vres := 720
  starttimeoffset := 0
  signature := []
  epochToString _ := []

/-- Of two chunks one is left out, but two are counted. -/
theorem not_countsClips_leftOut :
    ¬ ∀ (a : Attempt 32) (src : MaindataSource) (req : Request 32), CountsClips a src req := by
  intro h
  have hcount := h (smooth [minuteChunk false, minuteChunk true]) plainSource
    ⟨"CAB_________".toList, 1700000000, 1700000600, "/stage/out.lvdat".toList⟩ (by decide +kernel)
  exact absurd hcount (by decide +kernel)

end RecordingAgent.Download
