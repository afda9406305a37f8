import RecordingAgent.Reagent.Config
import Mathlib.Logic.Function.Basic

/-!
# The state of the recording agent

The agent is its media record, the `rtsprec` workers the operating system runs for it, the
static variables of its handlers, its camera-monitor sockets, and a `Side` part which no
decision about recording reads back: the two helper processes, the messages it sent and the
answers the operating system will give to its coming `fork` and `waitpid` calls.

The lists of started and signalled workers are histories kept for the specification.
-/

namespace RecordingAgent.Reagent

open Foundation

/-- Outcomes of the functions which report `EXIT_SUCCESS` or `EXIT_FAILURE`. -/
inductive ExitCode
  | success
  | failure
  deriving DecidableEq

/-- Primary error numbers the modelled handlers report. -/
inductive VideoApplicationError
  | cameraOffline
  | cameraNameMismatch
  | setResolutionFailure
  | setCompressionFailure
  | setFrameRateFailure
  deriving DecidableEq

/-- Messages sent to the recorder's controller. The slot a camera status is about is kept for the
specification. -/
inductive Sent
  | cameraStatus (slot : Slot) (camera serial : CString) (resolution compression frameRate : ℤ)
      (noAudioRecording noChmRecording recording cameraOnline cameraAssignment : Bool)
  | recordingStatus (chmStatus rssdStatus : Bool)
  | videoApplicationError (primary : VideoApplicationError)

/-- Answers of the operating system which are still to come, and the last process id it gave. -/
structure Os where
  lastPid : ℕ
  forks : List Bool
  deaths : List Bool

/-- A helper process of the recorder: its recorded pid and whether that process still runs. -/
structure Helper where
  workerPid : ℕ
  alive : Bool

/-- The part of the agent which recording decisions do not read. -/
structure Side where
  metaworker : Helper
  spacemonitor : Helper
  os : Os
  sent : List Sent

/-- One start of an `rtsprec` worker and the drives that were ready when it started. -/
structure Spawn where
  slot : Slot
  pid : ℕ
  command : Command
  chmReady : Bool
  rssdReady : Bool

/-- The `rtsprec` workers: running pids, all starts, and all pids sent a termination signal. -/
structure Recorders where
  running : List ℕ
  spawned : List Spawn
  signalled : List ℕ

/-- One camera reported by the monitor's last receive pass. -/
structure CamonStatus where
  ipAddr : CString
  macAddr : CString
  isAlive : Bool

/-- The static variables of the message handlers and timers. -/
structure Statics where
  retryCount : Slot → ℕ
  camonTtl : Slot → ℤ
  rpTtl : Slot → ℤ
  passFlag : Bool
  camonStatus : List CamonStatus
  startTimer : ℕ
  shutdownInProcess : Bool
  ptcActive : Bool

/-- The camera-monitor sockets which are open, and the next one `camon_init` will deliver. -/
structure Sockets where
  opened : List ℕ
  next : ℕ

/-- The whole agent. -/
structure Agent where
  media : MediaInfo
  recorders : Recorders
  statics : Statics
  sockets : Sockets
  side : Side

namespace Agent

/-- The record of one camera. -/
def cam (s : Agent) (c : Slot) : CamDef := s.media.cameras c

/-- Change the record of one camera. -/
def modifyCam (s : Agent) (c : Slot) (f : CamDef → CamDef) : Agent :=
  { s with media := { s.media with cameras := Function.update s.media.cameras c (f (s.cam c)) } }

/-- Change the run-time part of one camera. -/
def modifyRuntime (s : Agent) (c : Slot) (f : CamRuntime → CamRuntime) : Agent :=
  s.modifyCam c fun p => { p with runtime := f p.runtime }

/-- Set the retry counter of one camera. -/
def setRetry (s : Agent) (c : Slot) (n : ℕ) : Agent :=
  { s with statics := { s.statics with retryCount := Function.update s.statics.retryCount c n } }

/-- Set the monitor's countdown of one camera. -/
def setCamonTtl (s : Agent) (c : Slot) (n : ℤ) : Agent :=
  { s with statics := { s.statics with camonTtl := Function.update s.statics.camonTtl c n } }

/-- Set the restart countdown of one camera. -/
def setRpTtl (s : Agent) (c : Slot) (n : ℤ) : Agent :=
  { s with statics := { s.statics with rpTtl := Function.update s.statics.rpTtl c n } }

/-- Queue a message for the recorder's controller. -/
def send (s : Agent) (m : Sent) : Agent :=
  { s with side := { s.side with sent := s.side.sent ++ [m] } }

/-- The pids of a camera's worker starts so far, oldest first. -/
def spawnsOf (s : Agent) (c : Slot) : List ℕ :=
  (s.recorders.spawned.filter fun sp => sp.slot = c).map Spawn.pid

variable (s : Agent) (c : Slot)

@[simp] theorem cam_modifyCam_self (f : CamDef → CamDef) : (s.modifyCam c f).cam c = f (s.cam c) := by
  simp [modifyCam, cam]

@[simp] theorem cam_modifyCam_of_ne {d : Slot} (h : d ≠ c) (f : CamDef → CamDef) :
    (s.modifyCam c f).cam d = s.cam d := by
  simp [modifyCam, cam, h]

@[simp] theorem cam_modifyRuntime_self (f : CamRuntime → CamRuntime) :
    (s.modifyRuntime c f).cam c = { s.cam c with runtime := f (s.cam c).runtime } := by
  simp [modifyRuntime]

@[simp] theorem cam_modifyRuntime_of_ne {d : Slot} (h : d ≠ c) (f : CamRuntime → CamRuntime) :
    (s.modifyRuntime c f).cam d = s.cam d := by
  simp [modifyRuntime, h]

/-- Looking up a camera depends on the names of the configured ones only. -/
theorem raconfFindCamera_congr {s t : Agent} (hn : t.media.nCameras = s.media.nCameras)
    (hnames : ∀ i, (t.cam i).name = (s.cam i).name) (name : CString) :
    raconfFindCamera t.media name = raconfFindCamera s.media name := by
  have hconf : t.media.configured = s.media.configured := by
    rw [MediaInfo.configured, MediaInfo.configured, hn]
  have hnames' : ∀ i, (t.media.cameras i).name = (s.media.cameras i).name := hnames
  simp only [raconfFindCamera, hconf, hnames']

end Agent

end RecordingAgent.Reagent
