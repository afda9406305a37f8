import RecordingAgent.Foundation.Execution
import RecordingAgent.Reagent.Timer
import RecordingAgent.Reagent.Messages

/-!
# Re-reading the configuration, and the agent's inputs

`handle_signal` on SIGHUP saves the camera pids, mode and status words, lets `raconf_init`
zero and rebuild the media record, and re-attaches what it saved by camera name. With the
message handlers and the timer this completes the agent's step function. Each input carries
the answers the operating system gives to the `fork` and `waitpid` calls made while it is
handled. A SIGHUP is taken between two handlers, never inside one.
-/

namespace RecordingAgent.Reagent

open Foundation

/-- The first saved camera a re-read camera takes its worker from. -/
def savedCamera (old : Slot → CamDef) (name : CString) : Option Slot :=
  allSlots.find? fun j => strncmpEq name (old j).name name.length

namespace Agent

/-- Re-attach a saved camera, or terminate its worker when it is no longer assigned. -/
def attachSaved (s : Agent) (i : Slot) (saved : CamDef) : Agent :=
  let s := s.modifyCam i fun p => { p with workerPid := saved.workerPid }
  if (s.cam i).runtime.isAssigned then
    s.modifyRuntime i fun r =>
      { r with
        recordingModeFlags := saved.runtime.recordingModeFlags
        recordingStatusFlags := saved.runtime.recordingStatusFlags
        isOnline := Has saved.runtime.recordingStatusFlags isRecordingAny || r.isOnline }
  else if (s.cam i).workerPid > 0 then (s.stopRecordingProcess i).2
  else s

/-- Restore one slot of the re-read configuration from the saved cameras. -/
def restoreCamera (old : Slot → CamDef) (s : Agent) (i : Slot) : Agent :=
  if (s.cam i).name ≠ [] then
    match savedCamera old (s.cam i).name with
    | some j => (s.attachSaved i (old j)).sendCameraStatus i
    | none => s.sendCameraStatus i
  else s

/-- Open a camera-monitor socket, unless `camon_init` fails. -/
def camonInit (s : Agent) (opens : Bool) : Option ℕ × Agent :=
  if opens then
    (some s.sockets.next,
      { s with sockets := ⟨s.sockets.next :: s.sockets.opened, s.sockets.next + 1⟩ })
  else (none, s)

/-- The agent with its media record re-read, before the saved cameras are restored. -/
def reread (s : Agent) (config : Option Config) (opens : Bool) : Agent :=
  let old := s.media
  match config with
  | some cfg =>
    let r := s.camonInit opens
    { r.2 with media := { raconfInit cfg old.isChmReady old.isRssdReady r.1 with
        nCamsRecording := old.nCamsRecording } }
  | none =>
    { s with
      media := { MediaInfo.zero with
        isChmReady := old.isChmReady
        isRssdReady := old.isRssdReady
        nCamsRecording := old.nCamsRecording }
      statics := { s.statics with ptcActive := false } }

/-- SIGHUP: re-read the configuration and re-attach the running workers by camera name. -/
def handleSighup (s : Agent) (config : Option Config) (opens : Bool) : Agent :=
  allSlots.foldl (restoreCamera s.media.cameras) (s.reread config opens)

end Agent

/-- What the agent reacts to. `otherMessage` stands for messages which leave recording alone. -/
inductive Event
  | cameraSettings (settings : CameraSettings)
  | cameraResolution (camera : CString) (resolution : ℕ)
  | cameraCompression (camera : CString) (compression : ℕ)
  | cameraFrameRate (camera : CString) (frameRate : ℕ)
  | cameraRecordPause (camera : CString) (record : ℕ)
  | readyStatus (chmReady removableSsdReady : ℕ)
  | shutdown (function : ShutdownFunction)
  | locomotiveId (locomotiveId : CString)
  | otherMessage
  | timer (answers : List CamonStatus) (arp : Slot → Option CString)
  | workerDeath (pid : ℕ)
  | sighup (config : Option Config) (opens : Bool)

/-- An event with the answers of the operating system while it is handled. -/
structure Input where
  event : Event
  forks : List Bool
  deaths : List Bool

namespace Agent

/-- Hand the coming answers of the operating system to the agent. -/
def withAnswers (s : Agent) (forks deaths : List Bool) : Agent :=
  { s with side := { s.side with os := { s.side.os with forks := forks, deaths := deaths } } }

/-- React to one event. -/
def handle (s : Agent) : Event → Agent
  | .cameraSettings d => s.msgcbCameraSettings d
  | .cameraResolution camera v => s.msgcbCameraResolution camera v
  | .cameraCompression camera v => s.msgcbCameraCompression camera v
  | .cameraFrameRate camera v => s.msgcbCameraFrameRate camera v
  | .cameraRecordPause camera record => (s.handleCameraRecordPause camera record).2
  | .readyStatus chm rssd => s.msgcbReadyStatus chm rssd
  | .shutdown f => s.msgcbShutdownRec f
  | .locomotiveId l => s.msgcbLocomotiveId l
  | .otherMessage => s
  | .timer answers arp => s.timerCallback answers arp
  | .workerDeath pid =>
    { s with recorders := { s.recorders with running := s.recorders.running.erase pid } }
  | .sighup config opens => s.handleSighup config opens

/-- One input of the agent; once its message loop has stopped it reacts to nothing. -/
def step (s : Agent) (i : Input) : Agent :=
  if s.statics.ptcActive then (s.withAnswers i.forks i.deaths).handle i.event else s

/-- The agent after it has read its first configuration. -/
def start (cfg : Config) (chmReady rssdReady opens : Bool) : Agent where
  media := raconfInit cfg chmReady rssdReady (if opens then some 0 else none)
  recorders := ⟨[], [], []⟩
  statics :=
    { retryCount := fun _ => 0
      camonTtl := fun _ => camonTtlStart
      rpTtl := fun _ => -1
      passFlag := false
      camonStatus := []
      startTimer := 0
      shutdownInProcess := false
      ptcActive := true }
  sockets := if opens then ⟨[0], 1⟩ else ⟨[], 0⟩
  side := ⟨⟨0, false⟩, ⟨0, false⟩, ⟨0, [], []⟩, []⟩

/-- The states the agent can reach from some first configuration. -/
def Reachable (s : Agent) : Prop :=
  ∃ cfg chmReady rssdReady opens, ∃ is : List Input,
    run step (start cfg chmReady rssdReady opens) is = s

end Agent

/-- An assigned camera named `CAB`, essential or not. -/
def cabCamera (essential : Bool) : CamConfig where
  name := ['C', 'A', 'B']
  dispMac := ['0', '1']
  homepage := ['h', 't', 't', 'p', ':', '/', '/', '9', '/']
  streamUrl := ['r', 't', 's', 'p', ':', '/', '/', '9', '/']
  resolution := ['1']
  compression := ['1']
  frameRate := ['1']
  doAudio := ['0']
  isEssential := [if essential then '1' else '0']
  maxAge := []

/-- A configuration with the camera `CAB` only. -/
def cabConfig (essential : Bool) : Config where
  locoId := ['B', 'N', 'S', 'F']
  chunkLength := ['6', '0']
  chmFootageBase := ['/', 'c']
  rssdFootageBase := ['/', 's']
  cameras := fun i => if i = 0 then cabCamera essential else .empty

/-- An event during which forks succeed and no polled process ends. -/
def Event.quiet (e : Event) : Input := ⟨e, [], []⟩

/-- A timer pass whose monitor answers report the camera `CAB` alive. -/
def cabTick : Input := Event.quiet (.timer [⟨['9'], ['0', '1'], true⟩] fun _ => none)

/-- The inputs up to a recording camera: it comes online and is commanded to record. -/
def cabRecording : List Input :=
  List.replicate 3 cabTick ++ [Event.quiet (.cameraRecordPause ['C', 'A', 'B'] 1)]

/-- A valid configuration without cameras. -/
def noCameras : Config := { cabConfig true with cameras := fun _ => .empty }

end RecordingAgent.Reagent
