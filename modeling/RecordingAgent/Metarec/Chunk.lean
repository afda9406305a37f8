import Mathlib.Data.Fintype.Defs
import Mathlib.Data.Finset.Insert
import RecordingAgent.Foundation.Calendar
import RecordingAgent.Foundation.CString
import RecordingAgent.Foundation.FileStore
import RecordingAgent.Metarec.ChunkFormat

/-!
# Chunk files

The state of the recording thread and the functions of `metachunk.c`: starting a chunk when
one is required, and finalising the copies of a chunk on the drives in use. A path is given by
its drive, by whether it is under the staging or the data directory, and by the rest of its
text. File operations succeed; a rename needs its source.

Three fields are a history which no function reads: the records whose entries are in the
index, the records taken from the queue, and the operations on directories.
-/

namespace RecordingAgent.Metarec

open Foundation

/-- The two data locations: the crash-hardened memory and the removable SSD. -/
inductive Drive
  | chm
  | rssd
  deriving DecidableEq, Repr

instance : Fintype Drive := ⟨{.chm, .rssd}, fun d => by cases d <;> simp⟩

/-- The data locations in the order of `data_loc`. -/
def Drive.all : List Drive := [.chm, .rssd]

/-- The directories of a drive that hold chunk files. -/
inductive Area
  | staging
  | data
  deriving DecidableEq, Repr

/-- A path below one of these directories. -/
structure Path where
  drive : Drive
  area : Area
  name : CString
  deriving DecidableEq, Repr

/-- A copy of a chunk that was renamed out of the staging directory, with the numbered records
that were in its index. -/
structure ClosedChunk where
  subpath : CString
  fname : CString
  duration : ℕ
  records : List (ℕ × Record)
  deriving DecidableEq, Repr

/-- An operation on a directory. -/
inductive FileOp
  | mkdirP (d : Drive) (subpath : CString)
  | rename (d : Drive) (chunk : ClosedChunk)
  deriving DecidableEq, Repr

/-- What does not change while the thread runs. -/
structure Config where
  format : ChunkFormat
  /-- The difference between the wall clock and the monotonic clock at the start. -/
  deltat : ℕ
  chunkMaxDuration : ℕ
  nCopies : ℕ

/-- The state of the recording thread. -/
structure MetaIo where
  isActive : Bool
  isUsed : Drive → Bool
  subpath : CString
  t0 : ℕ
  chunkDurationUsecs : ℕ
  sessionJustStarted : Bool
  driveStatusUpdated : Bool
  prevTm : Tm
  chunkFname : CString
  fp : Drive → Option ℕ
  /-- The first `num_records` entries of `idx_data`. -/
  recordIndex : List RcdIdx
  forwardTimeChangeOccurred : Bool
  /-- `pre_chm_rec` and `pre_ssd_rec`; nothing for -1. -/
  preRec : Drive → Option Bool
  out : Drive → Option ℕ
  pos : ℕ
  fs : FileStore Path
  indexed : List (ℕ × Record)
  taken : List ((Drive → Bool) × Record)
  ops : List FileOp

/-- `"%4d%02d%02d-%02d%02d%02d"`: the name of a chunk which starts at this time. -/
def chunkFnameOf (tm : Tm) : CString :=
  padded ' ' 4 (tm.tmYear + 1900) ++ (padded '0' 2 (tm.tmMon + 1) ++ (padded '0' 2 tm.tmMday ++
    ('-' :: (padded '0' 2 tm.tmHour ++ (padded '0' 2 tm.tmMin ++ padded '0' 2 tm.tmSec)))))

/-- `"%04d/%02d/%02d/%02d/"`: the directory of the hour of this time. -/
def subpathOf (tm : Tm) : CString :=
  padded '0' 4 (tm.tmYear + 1900) ++ ('/' :: (padded '0' 2 (tm.tmMon + 1) ++
    ('/' :: (padded '0' 2 tm.tmMday ++ ('/' :: (padded '0' 2 tm.tmHour ++ ['/']))))))

/-- `".%09lu.data"`: what a duration adds to the name of a chunk. -/
def durationSuffix (duration : ℕ) : CString :=
  '.' :: (padded '0' 9 duration ++ ['.', 'd', 'a', 't', 'a'])

/-- Where a copy of a chunk is renamed to. -/
def ClosedChunk.path (c : ClosedChunk) (d : Drive) : Path :=
  ⟨d, .data, c.subpath ++ c.fname ++ durationSuffix c.duration⟩

/-- A monotonic time in nanoseconds, as a 64-bit number. -/
def Timespec.nanoseconds (ts : Timespec) : ℕ := (ts.tvSec * 10 ^ 9 + ts.tvNsec) % 2 ^ 64

/-- The microseconds between two times, as a 32-bit number. -/
def durationUsecs (t0 t : ℕ) : ℕ := (t + 2 ^ 64 - t0) % 2 ^ 64 / 1000 % 2 ^ 32

/-- `generate_filesystem_event`: make a file and remove it again. -/
def generateFilesystemEvent (fs : FileStore Path) (p : Path) : FileStore Path :=
  ((fs.fopen p).2.fclose (fs.fopen p).1).remove p

/-- `metadata_finalize_header`: write the second sub-prefix and the index. -/
def finalizeHeader (fmt : ChunkFormat) (index : List RcdIdx) (fs : FileStore Path) (f : ℕ) :
    FileStore Path :=
  if 0 < index.length then
    ((fs.fseek f fmt.subpfx1.length).fwrite f (fmt.subpfx2 fmt.indexCapacity index.length)).fwrite f
      (index.flatMap fmt.encodeIdx)
  else fs

namespace MetaIo

variable (cfg : Config)

/-- Where the copy of the chunk on a drive is recorded. -/
abbrev stagingPath (s : MetaIo) (d : Drive) : Path := ⟨d, .staging, s.chunkFname⟩

/-- The file whose appearance in the staging directory announces a closed copy. -/
abbrev eventPath (s : MetaIo) (d : Drive) : Path :=
  ⟨d, .staging, s.chunkFname ++ durationSuffix s.chunkDurationUsecs⟩

/-- The chunk as it would be closed now. -/
abbrev closing (s : MetaIo) : ClosedChunk := ⟨s.subpath, s.chunkFname, s.chunkDurationUsecs, s.indexed⟩

/-- Finalise the header of a copy, update its checksum, close it and rename it. -/
def closeChunk (s : MetaIo) (d : Drive) (f : ℕ) : MetaIo :=
  let fs := ((finalizeHeader cfg.format s.recordIndex s.fs f).rewrite f cfg.format.updateHmac).fclose f
  let renamed := fs.rename (s.stagingPath d) (s.closing.path d)
  { s with
    fs := generateFilesystemEvent renamed.2 (s.eventPath d)
    ops := if renamed.1 then s.ops ++ [.rename d s.closing] else s.ops }

/-- The part of `metadata_chunk_finalize` for one drive. -/
def finalizeCopy (s : MetaIo) (d : Drive) : MetaIo :=
  match s.fp d with
  | some f =>
    if s.isUsed d ∧ 0 < s.chunkDurationUsecs then
      { s.closeChunk cfg d f with fp := Function.update s.fp d none }
    else s
  | none => s

/-- `metadata_chunk_finalize`. -/
def metadataChunkFinalize (s : MetaIo) : MetaIo :=
  { Drive.all.foldl (finalizeCopy cfg) s with
    recordIndex := []
    indexed := []
    chunkDurationUsecs := 0 }

/-- `is_new_path_required`. -/
def isNewPathRequired (s : MetaIo) (tm : Tm) : Bool :=
  s.sessionJustStarted || s.prevTm.tmHour != tm.tmHour || s.prevTm.tmMday != tm.tmMday ||
    s.prevTm.tmMon != tm.tmMon || s.prevTm.tmYear != tm.tmYear

/-- `is_meta_record_reach_max`. -/
def isMetaRecordReachMax (s : MetaIo) : Bool :=
  decide (cfg.format.indexCapacity ≤ s.recordIndex.length) ||
    decide (cfg.chunkMaxDuration ≤ s.recordIndex.length)

/-- `is_new_chunk_required`, which its caller follows by clearing the time change. -/
def isNewChunkRequired (s : MetaIo) (tm : Tm) : Bool :=
  s.isNewPathRequired tm || s.isMetaRecordReachMax cfg || s.forwardTimeChangeOccurred ||
    s.driveStatusUpdated

/-- `prepare_subpath`: make the directory of the hour on the drives in use. -/
def prepareSubpath (s : MetaIo) : MetaIo :=
  Drive.all.foldl (fun s d =>
    if s.isUsed d then
      { s with subpath := subpathOf s.prevTm, ops := s.ops ++ [.mkdirP d (subpathOf s.prevTm)] }
    else s) s

/-- Close the copy of the previous chunk on a drive in use. -/
def closePrevious (s : MetaIo) (d : Drive) : MetaIo :=
  match s.fp d with
  | some f => if s.isUsed d then s.closeChunk cfg d f else s
  | none => s

/-- Open the copy of a new chunk on a drive in use and write its prefix and header. -/
def openCopy (r : Record) (s : MetaIo) (d : Drive) : MetaIo :=
  if s.isUsed d then
    let opened := s.fs.fopen (s.stagingPath d)
    { s with
      fs := (opened.2.fwrite opened.1 cfg.format.newPrefix).fwrite opened.1
        (cfg.format.chunkHdr r.ts.tvSec (r.ts.tvNsec / 1000))
      fp := Function.update s.fp d (some opened.1)
      out := Function.update s.out d (some opened.1)
      t0 := r.ts.nanoseconds }
  else s

/-- Set the name of a new chunk, and the hour if it changed. -/
def nameChunk (s : MetaIo) (tm : Tm) : MetaIo :=
  let s := { s with
    recordIndex := []
    indexed := []
    chunkDurationUsecs := 0
    chunkFname := chunkFnameOf tm }
  if s.isNewPathRequired tm then prepareSubpath { s with prevTm := tm } else s

/-- The part of `get_metadata_chunk_file` that starts a new chunk. -/
def startChunk (s : MetaIo) (r : Record) : MetaIo :=
  let s := { s with sessionJustStarted := false, driveStatusUpdated := false }
  let s := Drive.all.foldl (closePrevious cfg) s
  Drive.all.foldl (openCopy cfg r) (s.nameChunk (gmtime r.tod))

/-- Take the duration at a record and the pending time change into account. -/
def reachRecord (s : MetaIo) (r : Record) : MetaIo :=
  { s with
    chunkDurationUsecs := durationUsecs s.t0 r.ts.nanoseconds
    forwardTimeChangeOccurred := false }

/-- `get_metadata_chunk_file`; the result says whether a copy of a new chunk was opened. -/
def getMetadataChunkFile (s : MetaIo) (r : Record) : Bool × MetaIo :=
  if cfg.deltat = 0 then (false, s)
  else if s.isNewChunkRequired cfg (gmtime r.tod) then
    (Drive.all.any s.isUsed, (s.reachRecord r).startChunk cfg r)
  else (false, s.reachRecord r)

end MetaIo

end RecordingAgent.Metarec
