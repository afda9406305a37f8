import RecordingAgent.Foundation.Calendar
import RecordingAgent.Foundation.FileTree
import RecordingAgent.Metarec.ChunkName

/-!
# The list of recordings

The program searches a drive for the chunks of its cameras, and prints for each camera the intervals without a gap.
The tables have room for 16 cameras with 65536 chunks each; a search which writes outside of them has no result. The
index of the next chunk is kept from one search to the next.
-/

namespace RecordingAgent.RecordingList

open Foundation Metarec

/-- `MAX_TRACKS` -/
def maxTracks : ℕ := 16

/-- `MAX_CHUNKS` -/
def maxChunks : ℕ := 65536

/-- `CAMERA_NAME_LENGTH` -/
def cameraNameLength : ℕ := 12

/-- `PATH_MAX` -/
def pathMax : ℕ := 4096

/-- `micro_secs_per_second` -/
def microSecsPerSecond : ℕ := 1000000

/-- `DRIVE_PATH_ARRAY` -/
abbrev DrivePathArray := ℕ → CString

/-- `single_chunk_t`. The member `file` is not in the source: it tells which file the entry was made of. -/
structure SingleChunk where
  startTime : ℤ
  duration : ℕ
  file : TreePath
  deriving DecidableEq

/-- An entry after `memset`. -/
def SingleChunk.zero : SingleChunk where
  startTime := 0
  duration := 0
  file := []

/-- `cam_rec_t`. The text of the name is what stands before its first NUL. -/
structure CamRec where
  recording : ℕ → SingleChunk
  numChunks : ℕ
  cameraName : CString

/-- A table after `memset`. -/
def CamRec.zero : CamRec where
  recording := fun _ => .zero
  numChunks := 0
  cameraName := []

/-- `TIME_ARRAY`, the counter of the cameras and `current_chunk_index`. -/
structure Listing where
  timeArray : ℕ → CamRec
  cameraIncrement : ℕ
  currentChunkIndex : ℕ

/-- The tables of a search which starts. -/
def Listing.start (currentChunkIndex : ℕ) : Listing where
  timeArray := fun _ => .zero
  cameraIncrement := 0
  currentChunkIndex := currentChunkIndex

/-- The entries of a directory which are left out. -/
def isLeftOut (dName : CString) : Bool :=
  dName == "..".toList || dName == ".".toList || dName == "lost+found".toList || dName == "staging".toList ||
    dName == "METADATA".toList

/-- The entry for a file: the start time and the duration in its name, the duration as a `uint64_t`. -/
def chunkOf (path : CString) (file : TreePath) : SingleChunk where
  startTime := CameraRecordings.fileNameToEpoch (some path)
  duration := (CameraRecordings.getFileDuration (some path) % 2 ^ 64).toNat
  file := file

/-- The underscores at the end of a name which fills the buffer are taken away. -/
def trimmedName (dName : CString) : CString :=
  if cameraNameLength ≤ dName.length then (dName.take cameraNameLength).rdropWhile (· == '_') else dName

/-- Whether nothing of the name is left. -/
def OnlyUnderscores (dName : CString) : Prop := dName.take cameraNameLength = List.replicate cameraNameLength '_'

instance (dName : CString) : Decidable (OnlyUnderscores dName) := inferInstanceAs (Decidable (_ = _))

/-- If so the two bytes in front of the name are trimmed too, which are those of the number of chunks. -/
def trimmedChunks (dName : CString) (numChunks : ℕ) : ℕ :=
  if OnlyUnderscores dName ∧ numChunks / 256 = '_'.toNat then
    if numChunks % 256 = '_'.toNat then 0 else numChunks % 256
  else numChunks

namespace Listing

/-- Write the next entry of the camera. -/
def store (chunk : SingleChunk) (s : Listing) : Option Listing :=
  if s.cameraIncrement < maxTracks ∧ s.currentChunkIndex < maxChunks then
    let cam := s.timeArray s.cameraIncrement
    some
      { s with
        timeArray := Function.update s.timeArray s.cameraIncrement
          { cam with
            recording := Function.update cam.recording s.currentChunkIndex chunk
            numChunks := (cam.numChunks + 1) % 2 ^ 16 }
        currentChunkIndex := s.currentChunkIndex + 1 }
  else none

/-- Write the name of the camera and go on to the next one. -/
def leave (dName : CString) (s : Listing) : Option Listing :=
  if s.cameraIncrement < maxTracks then
    let cam := s.timeArray s.cameraIncrement
    some
      { timeArray := Function.update s.timeArray s.cameraIncrement
          { cam with
            numChunks := trimmedChunks dName cam.numChunks
            cameraName := trimmedName dName }
        cameraIncrement := s.cameraIncrement + 1
        currentChunkIndex := 0 }
  else none

end Listing

/-- The text of the path of an entry, as much as fits its buffer. -/
def entryPath (dirPath dName : CString) : CString := (dirPath ++ '/' :: dName).take (pathMax - 1)

/-- Whether the text was found to be too long. -/
def tooLong (dirPath dName : CString) : Bool := pathMax < (dirPath ++ '/' :: dName).length

/-- Whether the directory is the top of a drive. -/
def isTop (drives : DrivePathArray) (dirPath : CString) : Bool := dirPath == drives 0 || dirPath == drives 1

/-- `search_directory`, for the entries of a directory of which the text and the path from the top of the drive are
given. The kind of an entry is what `stat` says of the text of its path; the search gives up the directory at an
entry it says nothing of. A directory which cannot be opened has no entries. -/
def searchDirectory (drives : DrivePathArray) (dirPath : CString) (above : TreePath) : Dir → Listing → Option Listing
  | .nil, s => some s
  | .broken _ _, s => some s
  | .special dName rest, s =>
    if tooLong dirPath dName then some s else searchDirectory drives dirPath above rest s
  | .file dName rest, s =>
    if tooLong dirPath dName then some s
    else if isLeftOut dName then searchDirectory drives dirPath above rest s
    else (s.store (chunkOf (entryPath dirPath dName) (above ++ [dName]))).bind fun s =>
      searchDirectory drives dirPath above rest s
  | .dir dName entries rest, s =>
    if tooLong dirPath dName then some s
    else if isLeftOut dName then searchDirectory drives dirPath above rest s
    else (searchDirectory drives (entryPath dirPath dName) (above ++ [dName]) entries s).bind fun s =>
      (if isTop drives dirPath then s.leave dName else some s).bind fun s =>
      searchDirectory drives dirPath above rest s

/-- The search of `print_ssd`, in tables which were cleared. -/
def searchDrive (drives : DrivePathArray) (drive : ℕ) (t : Dir) (currentChunkIndex : ℕ) : Option Listing :=
  searchDirectory drives (drives drive) [] t (.start currentChunkIndex)

/-- `compare_chunks`, whose result is narrowed to an `int`. -/
def compareChunks (firstCompare secondCompare : SingleChunk) : ℤ :=
  (firstCompare.startTime - secondCompare.startTime).bmod (2 ^ 32)

/-- The seconds of 400 years. -/
def secondsPerCycle : ℕ := 12622780800

/-- `epoch_to_timestamp`. The fields of a time before 1970 are those of the time some cycles of 400 years later,
but for the year. -/
def epochToTimestamp (epochSeconds : ℤ) : CString :=
  let cycles := if epochSeconds < 0 then (-epochSeconds).toNat / secondsPerCycle + 1 else 0
  let tm := gmtime (epochSeconds + cycles * secondsPerCycle).toNat
  let year : ℤ := tm.tmYear + 1900 - 400 * cycles
  (if year < 0 then ['-'] else []) ++ padded '0' 1 year.natAbs ++ padded '0' 2 (tm.tmMon + 1) ++
    padded '0' 2 tm.tmMday ++ 'T' :: padded '0' 2 tm.tmHour ++ padded '0' 2 tm.tmMin ++ padded '0' 2 tm.tmSec

example : epochToTimestamp 1709251199 = "20240229T235959".toList := by decide +kernel

example : epochToTimestamp (-1) = "19691231T235959".toList := by decide +kernel

/-- The first `num_chunks` entries of a camera. -/
def CamRec.chunks (cam : CamRec) : List SingleChunk := (List.range cam.numChunks).map cam.recording

/-- `"\t\t\t<start_time>%s</start_time>\n"` -/
def startTimeLine (time : ℤ) : CString :=
  "\t\t\t<start_time>".toList ++ epochToTimestamp time ++ "</start_time>\n".toList

/-- `"\t\t\t<end_time>%s</end_time>\n"` -/
def endTimeLine (time : ℤ) : CString :=
  "\t\t\t<end_time>".toList ++ epochToTimestamp time ++ "</end_time>\n".toList

/-- `"\t\t<video_segments>\n"` -/
def openSegment : CString := "\t\t<video_segments>\n".toList

/-- `"\t\t</video_segments>\n"` -/
def closeSegment : CString := "\t\t</video_segments>\n".toList

/-- What `abs` is called with: an unsigned difference which is narrowed to an `int`. -/
def secondsApart (previous current : SingleChunk) : ℤ :=
  (current.startTime - (previous.startTime + (previous.duration / microSecsPerSecond : ℕ))).bmod (2 ^ 32)

/-- The end of a chunk in whole seconds. -/
def endOf (chunk : SingleChunk) : ℤ := chunk.startTime + (chunk.duration / microSecsPerSecond : ℕ)

/-- The end of the last chunk, whose duration is converted before it is divided. -/
def lastEndOf (chunk : SingleChunk) : ℤ :=
  chunk.startTime + ((chunk.duration : ℤ).bmod (2 ^ 64)).tdiv microSecsPerSecond

/-- What is printed when the chunk `j` is more than a second away from the end of the one before it. -/
def gapLines (previous current : SingleChunk) : List CString :=
  if 1 < (secondsApart previous current).natAbs then
    [endTimeLine (endOf previous), closeSegment, openSegment, startTimeLine current.startTime]
  else []

/-- The loop over the chunks from `j` on, for so many rounds: what it prints, and `j` behind it. -/
def printChunks (recording : ℕ → SingleChunk) : ℕ → ℕ → List CString × ℕ
  | 0, j => ([], j)
  | rounds + 1, j =>
    let rest := printChunks recording rounds (j + 1)
    (gapLines (recording (j - 1)) (recording j) ++ rest.1, rest.2)

/-- The entries of a camera after the first `num_chunks` of them were sorted. -/
def sortedRecording (qsort : (SingleChunk → SingleChunk → ℤ) → List SingleChunk → List SingleChunk) (cam : CamRec) :
    ℕ → SingleChunk :=
  fun j => ((qsort compareChunks cam.chunks)[j]?).getD (cam.recording j)

/-- What is printed for a camera: what stands before and behind its intervals. -/
def cameraHeader (driveName cameraName : CString) : List CString :=
  ["\t<segments>\n".toList, "\t\t<name>".toList ++ cameraName ++ "</name>\n".toList,
    "\t\t<location_name>".toList ++ driveName ++ "</location_name>\n".toList]

/-- `"\t</segments>\n"` -/
def closeSegments : CString := "\t</segments>\n".toList

/-- A round of the loop over the cameras: what it prints, and `j` behind it. -/
def printCamera (qsort : (SingleChunk → SingleChunk → ℤ) → List SingleChunk → List SingleChunk) (driveName : CString)
    (cam : CamRec) (j : ℕ) : List CString × ℕ :=
  if cam.numChunks = 0 then ([], j)
  else
    let recording := sortedRecording qsort cam
    let loop := printChunks recording (cam.numChunks - 1) 1
    (cameraHeader driveName cam.cameraName ++ [openSegment, startTimeLine (recording j).startTime] ++ loop.1 ++
      [endTimeLine (lastEndOf (recording (loop.2 - 1))), closeSegment, closeSegments], 0)

/-- The loop over the cameras. -/
def printCameras (qsort : (SingleChunk → SingleChunk → ℤ) → List SingleChunk → List SingleChunk) (driveName : CString) :
    List CamRec → ℕ → List CString
  | [], _ => []
  | cam :: rest, j =>
    let printed := printCamera qsort driveName cam j
    printed.1 ++ printCameras qsort driveName rest printed.2

/-- `DRIVE_NAME_ARRAY` -/
def driveName (drive : ℕ) : CString := if drive = 0 then "CHM".toList else "SSD".toList

/-- `print_ssd`: what it prints, and the index which it leaves behind. -/
def printSsd (qsort : (SingleChunk → SingleChunk → ℤ) → List SingleChunk → List SingleChunk) (drives : DrivePathArray)
    (drive : ℕ) (t : Dir) (currentChunkIndex : ℕ) : Option (List CString × ℕ) :=
  (searchDrive drives drive t currentChunkIndex).map fun s =>
    (printCameras qsort (driveName drive) ((List.range s.cameraIncrement).map s.timeArray) 0, s.currentChunkIndex)

example : printSsd (fun _ chunks => chunks) (fun _ => "/mnt".toList) 1
    (.dir "CAM1".toList (.file "20200913-122640.060000000.data".toList .nil) .nil) 0 = some
      (cameraHeader "SSD".toList "CAM1".toList ++
        [openSegment, startTimeLine 1600000000, endTimeLine 1600000060, closeSegment, closeSegments], 0) := by
  decide +kernel

end RecordingAgent.RecordingList
