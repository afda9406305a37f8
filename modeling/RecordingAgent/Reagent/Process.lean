import Mathlib.Algebra.Group.Int.Defs
import RecordingAgent.Reagent.State

/-!
# Worker and helper processes

Starting, checking and signalling processes. The operating system's answers are read from
the front of `Os.forks` and `Os.deaths`; when a list is used up, forks succeed and no process
dies, so every finite pattern of failures can be expressed.

The two helpers are supervised inside `Side`, so looking after them leaves the media record,
the workers, the statics and the sockets as they were.
-/

namespace RecordingAgent.Reagent

open Foundation

/-- `fork`: the new process id, or `none` when it fails. -/
def Os.fork (os : Os) : Option ℕ × Os :=
  match os.forks with
  | false :: rest => (none, { os with forks := rest })
  | forks => (some (os.lastPid + 1), { os with forks := forks.tail, lastPid := os.lastPid + 1 })

/-- A process id is never zero, which stands for having no process. -/
theorem Os.fork_ne_zero {os os' : Os} {pid : ℕ} (h : os.fork = (some pid, os')) : pid ≠ 0 := by
  unfold Os.fork at h
  split at h
  · cases h
  · simp only [Prod.mk.injEq, Option.some.injEq] at h
    omega

/-- Whether a process which was running turns out to have ended when it is polled. -/
def Os.poll (os : Os) : Bool × Os :=
  match os.deaths with
  | died :: rest => (died, { os with deaths := rest })
  | [] => (false, os)

/-- Start a helper and record its pid, or zero when it cannot be started. -/
def Helper.start (os : Os) : Helper × Os :=
  match os.fork with
  | (some pid, os) => (⟨pid, true⟩, os)
  | (none, os) => (⟨0, false⟩, os)

/-- Start a helper which has no process, and replace one whose process has ended. -/
def Helper.keepRunning (h : Helper) (os : Os) : Helper × Os :=
  if h.workerPid = 0 then Helper.start os
  else if !h.alive then Helper.start os
  else
    match os.poll with
    | (true, os) => Helper.start os
    | (false, os) => (h, os)

/-- Keep the metadata recorder running while a drive is ready. -/
def Side.handleMetarec (side : Side) (m : MediaInfo) : Side :=
  if m.isChmReady || m.isRssdReady then
    let r := side.metaworker.keepRunning side.os
    { side with metaworker := r.1, os := r.2 }
  else side

/-- Keep the space monitor running while a camera is recording. -/
def Side.handleSpaceMonitor (side : Side) (m : MediaInfo) : Side :=
  if m.nCamsRecording > 0 then
    let r := side.spacemonitor.keepRunning side.os
    { side with spacemonitor := r.1, os := r.2 }
  else side

/-- Clear the status bits of both drives. -/
def clearRecordingStatus (r : CamRuntime) : CamRuntime :=
  { r with recordingStatusFlags :=
      r.recordingStatusFlags &&& ~~~(doRecordChmVideo ||| doRecordChmAudio)
        &&& ~~~(doRecordSsdVideo ||| doRecordSsdAudio) }

/-- A camera which has no worker and is marked as recording nothing. -/
def CamDef.stopped (p : CamDef) : CamDef :=
  { p with workerPid := 0, runtime := clearRecordingStatus p.runtime }

/-- The status message of a camera. The source casts the status word to a truth value before it
masks the video bits, so `recording` is whether any bit is set. -/
def cameraStatus (c : Slot) (p : CamDef) : Sent :=
  let status := p.runtime.recordingStatusFlags
  .cameraStatus c (truncName p.name) p.dispMac (p.runtime.resolution % 2 ^ 8)
    (p.runtime.compression % 2 ^ 8) (p.runtime.frameRate % 2 ^ 8)
    (!Has status (isRecordingChmAudio ||| isRecordingSsdAudio))
    (!Has status isRecordingChmVideo)
    (Has (if status ≠ 0 then 1#32 else 0#32) (isRecordingChmVideo ||| isRecordingSsdVideo))
    (p.runtime.isAssigned && p.runtime.isOnline) p.runtime.isAssigned

namespace Agent

/-- Keep the metadata recorder running while a drive is ready. -/
def handleMetarec (s : Agent) : Agent := { s with side := s.side.handleMetarec s.media }

/-- Keep the space monitor running while a camera is recording. -/
def handleSpaceMonitor (s : Agent) : Agent := { s with side := s.side.handleSpaceMonitor s.media }

/-- Kill the space monitor, so that it is started again with fresh camera ages. -/
def stopSpaceMonitor (s : Agent) : Agent :=
  { s with side := { s.side with spacemonitor := ⟨0, false⟩ } }

/-- Poll a worker: whether its process has ended. -/
def checkWorkerStatus (s : Agent) (pid : ℕ) : Bool × Agent :=
  if pid ∈ s.recorders.running then
    let r := s.side.os.poll
    (r.1,
      { s with
        recorders := { s.recorders with
          running := if r.1 then s.recorders.running.erase pid else s.recorders.running }
        side := { s.side with os := r.2 } })
  else (true, s)

/-- Start an `rtsprec` worker for a camera. -/
def spawnProcess (s : Agent) (c : Slot) (command : Command) : Option ℕ × Agent :=
  match s.side.os.fork with
  | (none, os) => (none, { s with side := { s.side with os := os } })
  | (some pid, os) =>
    (some pid,
      { s with
        recorders := { s.recorders with
          running := pid :: s.recorders.running
          spawned := s.recorders.spawned ++
            [⟨c, pid, command, s.media.isChmReady, s.media.isRssdReady⟩] }
        side := { s.side with os := os } })

/-- Signal a worker to terminate and wait until it has. -/
def terminate (s : Agent) (pid : ℕ) : Agent :=
  { s with recorders := { s.recorders with
      running := s.recorders.running.erase pid
      signalled := s.recorders.signalled ++ [pid] } }

/-- Report the state of one camera to the controller. -/
def sendCameraStatus (s : Agent) (c : Slot) : Agent := s.send (cameraStatus c (s.cam c))

/-- Whether every camera commanded to record on a drive is recording on it, for CHM and RSSD. -/
def seeIfRecording (m : MediaInfo) : Bool × Bool :=
  (m.configured.all fun i =>
      let p := m.cameras i
      p.isEssential = [] || !Has p.runtime.recordingModeFlags isRecordingChmVideo
        || Has p.runtime.recordingStatusFlags isRecordingChmVideo,
    m.configured.all fun i =>
      let p := m.cameras i
      !Has p.runtime.recordingModeFlags isRecordingSsdVideo
        || Has p.runtime.recordingStatusFlags isRecordingSsdVideo)

/-- Report to the controller whether recording is as commanded on each drive. -/
def sendRecordingStatusMsg (s : Agent) : Agent :=
  s.send (.recordingStatus (seeIfRecording s.media).1 (seeIfRecording s.media).2)

/-- A polled worker leaves the media record, the statics, the sockets and the histories alone. -/
theorem checkWorkerStatus_frame (s : Agent) (pid : ℕ) :
    (s.checkWorkerStatus pid).2.media = s.media ∧
      (s.checkWorkerStatus pid).2.statics = s.statics ∧
      (s.checkWorkerStatus pid).2.sockets = s.sockets ∧
      (s.checkWorkerStatus pid).2.recorders.spawned = s.recorders.spawned ∧
      (s.checkWorkerStatus pid).2.recorders.signalled = s.recorders.signalled := by
  unfold checkWorkerStatus
  split <;> exact ⟨rfl, rfl, rfl, rfl, rfl⟩

/-- Polling a worker starts none. -/
theorem checkWorkerStatus_running (s : Agent) (pid : ℕ) :
    (s.checkWorkerStatus pid).2.recorders.running ⊆ s.recorders.running := by
  unfold checkWorkerStatus
  split
  · dsimp only
    split
    · exact List.erase_subset
    · exact List.Subset.refl _
  · exact List.Subset.refl _

end Agent

end RecordingAgent.Reagent
