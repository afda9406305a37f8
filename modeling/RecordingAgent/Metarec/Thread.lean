import RecordingAgent.Foundation.Execution
import RecordingAgent.Metarec.Chunk

/-!
# The recording thread

One round of `metadata_recording_thread` for each thing that can happen to it: a record was
dequeued, the queue was empty, or the thread was told to stop. The forward time change is set
by the message loop between rounds. The index of a chunk, the pointers the thread keeps of its
own and the position it trusts are those of the source.
-/

namespace RecordingAgent.Metarec

open Foundation

/-- What happens to the thread. -/
inductive Event
  /-- A record is dequeued while recording on these drives is commanded. -/
  | record (rm : Drive → Bool) (r : Record)
  /-- No record is queued; the monotonic clock is read. -/
  | idle (now : Timespec)
  /-- `update_forward_time_change_status(true)`. -/
  | forwardTimeChange
  /-- `metadata_recording_stop`. -/
  | stop

namespace MetaIo

variable (cfg : Config)

/-- `is_drive_status_updated`: a drive's command differs from the one of the previous record. -/
def isDriveStatusUpdated (s : MetaIo) (rm : Drive → Bool) : Bool :=
  Drive.all.any fun d => (s.preRec d).any (· != rm d)

/-- `drive_status_update_handler`. -/
def driveStatusUpdateHandler (s : MetaIo) (rm : Drive → Bool) : MetaIo :=
  { s.metadataChunkFinalize cfg with isUsed := rm }

/-- Enter the record into the index, if that has room. -/
def enterRecord (s : MetaIo) (r : Record) : MetaIo :=
  if s.recordIndex.length < cfg.format.indexCapacity then
    { s with
      recordIndex := s.recordIndex ++ [cfg.format.indexEntry r s.pos]
      indexed := s.indexed ++ [(s.taken.length - 1, r)] }
  else s

theorem enterRecord_of_room {cfg : Config} {s : MetaIo} (h : s.recordIndex.length < cfg.format.indexCapacity)
    (r : Record) : s.enterRecord cfg r = { s with
      recordIndex := s.recordIndex ++ [cfg.format.indexEntry r s.pos]
      indexed := s.indexed ++ [(s.taken.length - 1, r)] } := if_pos h

/-- Write the record to the copy on a drive in use. -/
def writeCopy (r : Record) (s : MetaIo) (d : Drive) : MetaIo :=
  match s.out d with
  | some f => if s.isUsed d then { s with fs := s.fs.fwrite f r.payload } else s
  | none => s

/-- `write_metadata`. -/
def writeMetadata (s : MetaIo) (r : Record) : MetaIo :=
  (Drive.all.take cfg.nCopies).foldl (writeCopy r) s

/-- The first file pointer of the thread, which it asks for the position. -/
abbrev firstOut (s : MetaIo) : Option ℕ := s.out .chm <|> s.out .rssd

/-- Write the record and ask for the position of the next one. -/
def writeRecord (s : MetaIo) (r : Record) : MetaIo :=
  match s.firstOut with
  | some f =>
    let s := s.writeMetadata cfg r
    { s with pos := (s.fs.ftell f).1 % 2 ^ 32, fs := (s.fs.ftell f).2 }
  | none => s

/-- React to the commanded drives of a dequeued record. -/
def followDrives (s : MetaIo) (rm : Drive → Bool) (r : Record) : MetaIo :=
  let updated := s.isDriveStatusUpdated rm
  let s := { s with
    preRec := fun d => some (rm d)
    driveStatusUpdated := updated
    taken := s.taken ++ [(rm, r)] }
  if updated then s.driveStatusUpdateHandler cfg rm else s

/-- A record with the same command is taken and leaves the chunk alone. -/
theorem followDrives_of_not_updated {s : MetaIo} {rm : Drive → Bool} (h : s.isDriveStatusUpdated rm = false)
    (r : Record) : s.followDrives cfg rm r = { s with
      preRec := fun d => some (rm d)
      driveStatusUpdated := false
      taken := s.taken ++ [(rm, r)] } := by
  rw [followDrives, h]
  rfl

/-- A record with another command finalises the chunk. -/
theorem followDrives_of_updated {s : MetaIo} {rm : Drive → Bool} (h : s.isDriveStatusUpdated rm = true)
    (r : Record) : s.followDrives cfg rm r = { metadataChunkFinalize cfg { s with
      preRec := fun d => some (rm d)
      driveStatusUpdated := true
      taken := s.taken ++ [(rm, r)] } with isUsed := rm } := by
  rw [followDrives, h]
  rfl

/-- Have a chunk for the record, with the position after its header if it is new. -/
def ensureChunk (s : MetaIo) (r : Record) : MetaIo :=
  if (s.getMetadataChunkFile cfg r).1 then
    { (s.getMetadataChunkFile cfg r).2 with pos := cfg.format.bodyOffset }
  else (s.getMetadataChunkFile cfg r).2

theorem ensureChunk_of_deltat {cfg : Config} (h : cfg.deltat = 0) (s : MetaIo) (r : Record) :
    s.ensureChunk cfg r = s := by
  rw [ensureChunk, getMetadataChunkFile, if_pos h]
  rfl

theorem ensureChunk_of_required {cfg : Config} {s : MetaIo} {r : Record} (hdeltat : cfg.deltat ≠ 0)
    (h : s.isNewChunkRequired cfg (gmtime r.tod) = true) :
    s.ensureChunk cfg r = if Drive.all.any s.isUsed then
      { (s.reachRecord r).startChunk cfg r with pos := cfg.format.bodyOffset }
    else (s.reachRecord r).startChunk cfg r := by
  rw [ensureChunk, getMetadataChunkFile, if_neg hdeltat, if_pos h]

theorem ensureChunk_of_not_required {cfg : Config} {s : MetaIo} {r : Record} (hdeltat : cfg.deltat ≠ 0)
    (h : s.isNewChunkRequired cfg (gmtime r.tod) = false) :
    s.ensureChunk cfg r = s.reachRecord r := by
  rw [ensureChunk, getMetadataChunkFile, if_neg hdeltat, h]
  rfl

/-- The round for a dequeued record. -/
def recordRound (s : MetaIo) (rm : Drive → Bool) (r : Record) : MetaIo :=
  (((s.followDrives cfg rm r).ensureChunk cfg r).enterRecord cfg r).writeRecord cfg r

/-- Whether an idle poll at this time ends the chunk. -/
def timesOut (s : MetaIo) (now : Timespec) : Bool :=
  s.firstOut.isSome &&
    decide ((s.t0 + cfg.chunkMaxDuration * 10 ^ 9) % 2 ^ 64 ≤ now.nanoseconds)

/-- The round without a record. -/
def idleRound (s : MetaIo) (now : Timespec) : MetaIo :=
  if s.firstOut.isSome then
    let s' := { s with chunkDurationUsecs := durationUsecs s.t0 now.nanoseconds }
    if s.timesOut cfg now then
      { s'.metadataChunkFinalize cfg with sessionJustStarted := true, out := fun _ => none }
    else s'
  else s

/-- One round of the thread; a thread that has stopped does nothing. -/
def step (s : MetaIo) (e : Event) : MetaIo :=
  if s.isActive then
    match e with
    | .record rm r => s.recordRound cfg rm r
    | .idle now => s.idleRound cfg now
    | .forwardTimeChange => { s with forwardTimeChangeOccurred := true }
    | .stop => { s.metadataChunkFinalize cfg with isActive := false }
  else s

/-- The thread before its first round, with the drives of the recording mode it was started
with. -/
def start (used : Drive → Bool) : MetaIo where
  isActive := true
  isUsed := used
  subpath := []
  t0 := 0
  chunkDurationUsecs := 0
  sessionJustStarted := true
  driveStatusUpdated := false
  prevTm := ⟨0, 0, 0, 0, 0, 0⟩
  chunkFname := []
  fp := fun _ => none
  recordIndex := []
  forwardTimeChangeOccurred := false
  preRec := fun _ => none
  out := fun _ => none
  pos := 0
  fs := FileStore.empty
  indexed := []
  taken := []
  ops := []

/-- The copies that were renamed into the data directory of a drive, in order. -/
def renamed (s : MetaIo) (d : Drive) : List ClosedChunk :=
  s.ops.filterMap fun
    | .rename e c => if e = d then some c else none
    | .mkdirP .. => none

end MetaIo

end RecordingAgent.Metarec
