import RecordingAgent.Download.Segments
import RecordingAgent.Reagent.Config

/-!
# A download and its second attempt

A download is attempted from the removable drive and, if that fails, from the other one. One attempt
goes through stages each of which can fail; before the last of them the range in the request is
replaced by the range of the chunks that were found.
-/

namespace RecordingAgent.Download

open Foundation

variable {w : ℕ}

/-- The payload of a download message. The width of the times is that of the video API. -/
structure Request (w : ℕ) where
  camera : CString
  startTime : BitVec w
  endTime : BitVec w
  destination : CString
  deriving DecidableEq

/-- What the stages of an attempt on one drive come to: whether there is space at the destination, what
the search returns and finds, whether the configuration is there when it is read first, whether the
metadata file is made, the system during the copying, whether the configuration is there when it is
read again, whether the metadata is encrypted, and what the archive comes to, with its size. -/
structure Attempt (w : ℕ) where
  validateDestination : CString → Bool
  retriveData : CString → BitVec w → BitVec w → ℤ × List Chunk
  mediaInfo : Bool
  initMetaFile : CString → Bool
  system : DownloadSystem
  mediaInfoAgain : Bool
  encryptMetadata : Bool
  zipFiles : CString → DownloadStatus × ℕ

/-- The result of an attempt: what is returned, the status and the size that are reported, the request
as it is left, and the ranges that were searched. -/
structure Attempted (w : ℕ) where
  success : Bool
  status : DownloadStatus
  fileSize : ℕ
  request : Request w
  searched : List (CString × BitVec w × BitVec w)
  deriving DecidableEq

/-- The directory in a destination: up to the last slash, if there is one. -/
def destinationDir (destination : CString) : CString :=
  if '/' ∈ destination then destination.rdropWhile (· != '/') else destination

/-- The range of the chunks that were found takes the place of the range in the request. -/
def Request.adjust (req : Request w) (chunks : List Chunk) : Request w :=
  match chunks.head?, chunks.getLast? with
  | some first, some last =>
    { req with
      startTime := BitVec.ofInt w first.epochTime
      endTime := BitVec.ofInt w last.epochTime + BitVec.ofInt w (last.duration.tdiv 1000000) }
  | _, _ => req

/-- Add the main data to the metadata, collect the rest for the range that was found, and encrypt it. -/
def insertMaindata (a : Attempt w) (chunks : List Chunk) (req : Request w) : DownloadStatus × Request w :=
  if a.mediaInfoAgain = false then (.internalErr, req)
  else if a.encryptMetadata = false then (.internalErr, req.adjust chunks)
  else (.okFull, req.adjust chunks)

/-- The status that is reported when the chunks, the main data or the archive fail. -/
def reported : DownloadStatus → DownloadStatus
  | .sizeErr => .sizeErr
  | .internalErr => .internalErr
  | _ => .failure

/-- One attempt at a download. -/
def performDownload (a : Attempt w) (req : Request w) : Attempted w :=
  if a.validateDestination (destinationDir req.destination) = false then ⟨false, .internalErr, 0, req, []⟩
  else
    let searched := [(req.camera, req.startTime, req.endTime)]
    let found := a.retriveData req.camera req.startTime req.endTime
    if found.1 < 1 then ⟨false, if found.1 = -1 then .rangeErr else .failure, 0, req, searched⟩
    else if a.mediaInfo = false then ⟨false, .internalErr, 0, req, searched⟩
    else if a.initMetaFile (destinationDir req.destination) = false then ⟨false, .internalErr, 0, req, searched⟩
    else
      let inserted := (insertChunkMetadata a.system found.2).1
      if inserted ≠ .okFull then ⟨false, reported inserted, 0, req, searched⟩
      else
        let main := insertMaindata a found.2 req
        if main.1 ≠ .okFull then ⟨false, reported main.1, 0, main.2, searched⟩
        else
          let zipped := a.zipFiles main.2.destination
          if zipped.1 ≠ .okFull then ⟨false, reported zipped.1, zipped.2, main.2, searched⟩
          else ⟨true, .okFull, zipped.2, main.2, searched⟩

/-- The request with the padded name of its camera. -/
def Request.padded (req : Request w) : Request w :=
  { req with camera := Reagent.padUnderscores req.camera Reagent.cameraNameLength }

/-- A download, attempted from the removable drive and then from the other. -/
def doDownload (rssd chm : Attempt w) (req : Request w) : Attempted w :=
  let first := performDownload rssd req.padded
  if first.success then first else performDownload chm first.request

/-- The stages up to the point where the range is replaced succeed. -/
def ReachesAdjustment (a : Attempt w) (req : Request w) : Prop :=
  let found := a.retriveData req.camera req.startTime req.endTime
  a.validateDestination (destinationDir req.destination) = true ∧ 1 ≤ found.1 ∧ a.mediaInfo = true ∧
    a.initMetaFile (destinationDir req.destination) = true ∧
    (insertChunkMetadata a.system found.2).1 = .okFull ∧ a.mediaInfoAgain = true

/-- What an attempt that reaches the adjustment comes to. -/
theorem performDownload_of_reaches {a : Attempt w} {req : Request w} (h : ReachesAdjustment a req) :
    let adjusted := req.adjust (a.retriveData req.camera req.startTime req.endTime).2
    (performDownload a req).request = adjusted ∧
      ((performDownload a req).success = true ↔
        a.encryptMetadata = true ∧ (a.zipFiles adjusted.destination).1 = .okFull) := by
  obtain ⟨hspace, hfound, hinfo, hmeta, hinserted, hagain⟩ := h
  simp only [performDownload, hspace, not_lt.mpr hfound, hinfo, hmeta, hinserted, insertMaindata, hagain]
  cases a.encryptMetadata with
  | false => simp
  | true =>
    by_cases hzip : (a.zipFiles (req.adjust (a.retriveData req.camera req.startTime req.endTime).2).destination).1 =
        .okFull
    · simp [hzip]
    · simp [hzip]

/-- An attempt that does not reach the adjustment fails and leaves the request alone. -/
theorem performDownload_of_not_reaches {a : Attempt w} {req : Request w} (h : ¬ ReachesAdjustment a req) :
    (performDownload a req).success = false ∧ (performDownload a req).request = req := by
  unfold performDownload insertMaindata
  by_cases hspace : a.validateDestination (destinationDir req.destination) = false
  · simp [hspace]
  by_cases hfound : (a.retriveData req.camera req.startTime req.endTime).1 < 1
  · simp [hspace, hfound]
  by_cases hinfo : a.mediaInfo = false
  · simp [hspace, hfound, hinfo]
  by_cases hmeta : a.initMetaFile (destinationDir req.destination) = false
  · simp [hspace, hfound, hinfo, hmeta]
  by_cases hinserted : (insertChunkMetadata a.system (a.retriveData req.camera req.startTime req.endTime).2).1 = .okFull
  · have hagain : a.mediaInfoAgain = false := by
      by_contra hagain
      exact h ⟨by simpa using hspace, not_lt.mp hfound, by simpa using hinfo, by simpa using hmeta, hinserted,
        by simpa using hagain⟩
    simp [hspace, hfound, hinfo, hmeta, hinserted, hagain]
  · simp [hspace, hfound, hinfo, hmeta, hinserted]

/-- When the first attempt fails, the second one is made with the request of the caller. -/
def RetriesRequest (rssd chm : Attempt w) (req : Request w) : Prop :=
  (performDownload rssd req.padded).success = false →
    (performDownload rssd req.padded).request = req.padded ∧
      doDownload rssd chm req = performDownload chm req.padded

/-- The retry uses the request of the caller exactly when the first attempt fails before the range is
replaced, when nothing fails after that, or when the chunks span just the range that was asked for. -/
theorem retriesRequest_iff (rssd chm : Attempt w) (req : Request w) :
    RetriesRequest rssd chm req ↔
      (ReachesAdjustment rssd req.padded →
        let adjusted := req.padded.adjust
          (rssd.retriveData req.padded.camera req.padded.startTime req.padded.endTime).2
        (rssd.encryptMetadata = true ∧ (rssd.zipFiles adjusted.destination).1 = .okFull) ∨ adjusted = req.padded) := by
  have hretry : RetriesRequest rssd chm req ↔ ((performDownload rssd req.padded).success = false →
      (performDownload rssd req.padded).request = req.padded) := by
    refine imp_congr_right fun hfailed => and_iff_left_of_imp fun hsame => ?_
    rw [doDownload, hfailed, hsame]
    rfl
  rw [hretry]
  by_cases hreaches : ReachesAdjustment rssd req.padded
  · obtain ⟨hrequest, hsuccess⟩ := performDownload_of_reaches hreaches
    simp only [hreaches, true_imp_iff, hrequest] at hsuccess ⊢
    rw [← hsuccess]
    cases (performDownload rssd req.padded).success <;> simp
  · exact iff_of_true (fun _ => (performDownload_of_not_reaches hreaches).2) fun h => absurd h hreaches

/-- When the metadata of the removable drive cannot be encrypted, the other drive is searched for the
one minute that was found there instead of the ten that were asked for. -/
theorem retriesRequest_not_encrypted : ¬ ∀ (rssd chm : Attempt 32) (req : Request 32), RetriesRequest rssd chm req := by
  intro h
  have hretry := h
    { validateDestination := fun _ => true
      retriveData := fun _ _ _ => (1, [⟨1700000060, 60000000, false, some "/rssd/a".toList, ['G'], 0, [], 1⟩])
      mediaInfo := true
      initMetaFile := fun _ => true
      system := ⟨0, fun _ => 0, fun _ => true, fun _ => true⟩
      mediaInfoAgain := true
      encryptMetadata := false
      zipFiles := fun _ => (.okFull, 1) }
    { validateDestination := fun _ => true
      retriveData := fun _ _ _ => (0, [])
      mediaInfo := true
      initMetaFile := fun _ => true
      system := ⟨0, fun _ => 0, fun _ => true, fun _ => true⟩
      mediaInfoAgain := true
      encryptMetadata := true
      zipFiles := fun _ => (.okFull, 1) }
    ⟨"CAB_FORWARD_".toList, 1700000000, 1700000600, "/stage/out.lvdat".toList⟩ (by decide +kernel)
  exact absurd hretry.1 (by decide +kernel)

end RecordingAgent.Download
