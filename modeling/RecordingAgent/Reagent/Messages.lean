import RecordingAgent.Reagent.Recording

/-!
# The message handlers

The handlers of the messages which touch a camera's commanded or current recording state.
A message which fails verification or has another version is dropped by its handler, so a
handler below receives only what it goes on to process.
-/

namespace RecordingAgent.Reagent

open Foundation

/-- The payload of a camera settings message. -/
structure CameraSettings where
  camera : CString
  resolution : ℕ
  compression : ℕ
  frameRate : ℕ
  groomingDuration : ℕ
  noAudioRecording : ℕ
  noChmRecording : ℕ

/-- The functions a shutdown message can name. -/
inductive ShutdownFunction
  | chm
  | removableSsd
  | all
  | other
  deriving DecidableEq

/-- The mode word after a settings message's audio and CHM preferences. -/
def settingsMode (d : CameraSettings) (mode : Flags) : Flags :=
  let audio := doRecordChmAudio ||| doRecordSsdAudio
  let chm := doRecordChmVideo ||| doRecordChmAudio
  let mode :=
    if d.noAudioRecording ≠ (decide ¬ Has mode audio).toNat then
      if d.noAudioRecording ≠ 0 then mode &&& ~~~audio else mode ||| audio
    else mode
  if d.noChmRecording ≠ (decide ¬ Has mode doRecordChmVideo).toNat then
    if d.noChmRecording ≠ 0 then mode &&& ~~~chm else mode ||| chm
  else mode

/-- The mode word of a camera that is to record on every ready drive. -/
def readyMode (p : CamDef) (chmReady rssdReady : Bool) : Flags :=
  let mode := 0
  let mode :=
    if chmReady then
      let mode := mode ||| doRecordChmVideo
      if str2bool p.doAudio then mode ||| doRecordChmAudio else mode
    else mode
  if rssdReady then
    let mode := mode ||| doRecordSsdVideo
    if str2bool p.doAudio then mode ||| doRecordSsdAudio else mode
  else mode

/-- Clear the bits of the drives which are not ready. -/
def dropUnready (chmReady rssdReady : Bool) (flags : Flags) : Flags :=
  let flags := if chmReady then flags else flags &&& ~~~(doRecordChmVideo ||| doRecordChmAudio)
  if rssdReady then flags else flags &&& ~~~(doRecordSsdVideo ||| doRecordSsdAudio)

namespace Agent

/-- Set which drives are ready. -/
def setReady (s : Agent) (chm rssd : Bool) : Agent :=
  { s with media := { s.media with isChmReady := chm, isRssdReady := rssd } }

/-- Change every configured camera independently of the others. -/
def mapCameras (s : Agent) (f : CamDef → CamDef) : Agent :=
  { s with media := { s.media with
      cameras := fun i => if i.val < s.media.nCameras then f (s.cam i) else s.cam i } }

/-- Camera settings: picture parameters, maximum age, audio and CHM preferences. -/
def msgcbCameraSettings (s : Agent) (d : CameraSettings) : Agent :=
  match raconfFindCamera s.media (d.camera.take cameraNameLength) with
  | some c => s.modifyRuntime c fun r =>
      { r with
        resolution := d.resolution
        compression := d.compression
        frameRate := d.frameRate
        maxAge := d.groomingDuration
        recordingModeFlags := settingsMode d r.recordingModeFlags }
  | none => s.send (.videoApplicationError .cameraNameMismatch)

/-- Set one picture parameter of a named camera and reset its stream. -/
def changeParameter (s : Agent) (camera : CString) (set : CamRuntime → CamRuntime)
    (error : VideoApplicationError) : Agent :=
  match raconfFindCamera s.media (camera.take cameraNameLength) with
  | none => s
  | some c =>
    let r := (s.modifyRuntime c set).resetCameraStream (camera.take cameraNameLength)
    if r.1 = .failure then r.2.send (.videoApplicationError error) else r.2

/-- Camera resolution. -/
def msgcbCameraResolution (s : Agent) (camera : CString) (resolution : ℕ) : Agent :=
  s.changeParameter camera (fun r => { r with resolution := resolution }) .setResolutionFailure

/-- Camera compression. -/
def msgcbCameraCompression (s : Agent) (camera : CString) (compression : ℕ) : Agent :=
  s.changeParameter camera (fun r => { r with compression := compression }) .setCompressionFailure

/-- Camera frame rate. -/
def msgcbCameraFrameRate (s : Agent) (camera : CString) (frameRate : ℕ) : Agent :=
  s.changeParameter camera (fun r => { r with frameRate := frameRate }) .setFrameRateFailure

/-- A camera after a ready status: an online, unpaused one is commanded to record on every ready
drive, and one with a worker is marked as recording what it is commanded to. -/
def readyCamera (chmReady rssdReady : Bool) (p : CamDef) : CamDef :=
  let mode :=
    if p.runtime.isOnline ∧ p.runtime.commandedPaused = false then readyMode p chmReady rssdReady
    else p.runtime.recordingModeFlags
  let status :=
    if p.workerPid > 0 then recordingStatus mode else p.runtime.recordingStatusFlags
  { p with runtime := { p.runtime with recordingModeFlags := mode, recordingStatusFlags := status } }

/-- Ready status of the drives. -/
def msgcbReadyStatus (s : Agent) (chmReady removableSsdReady : ℕ) : Agent :=
  let s := s.setReady (chmReady ≠ 0) (removableSsdReady ≠ 0)
  (s.mapCameras (readyCamera s.media.isChmReady s.media.isRssdReady)).sendRecordingStatusMsg

/-- A camera after a shutdown message: nothing is commanded or marked on an unready drive. -/
def shutdownCamera (chmReady rssdReady : Bool) (p : CamDef) : CamDef :=
  { p with runtime := { p.runtime with
      recordingModeFlags := dropUnready chmReady rssdReady p.runtime.recordingModeFlags
      recordingStatusFlags := dropUnready chmReady rssdReady p.runtime.recordingStatusFlags } }

/-- The readiness changes of a shutdown message, or `none` for a function it does not know. -/
def shutdownDrives (s : Agent) : ShutdownFunction → Option Agent
  | .chm => some (s.setReady false s.media.isRssdReady)
  | .removableSsd => some (s.setReady s.media.isChmReady false)
  | .all =>
    let s := s.setReady false false
    some { s with statics := { s.statics with shutdownInProcess := true } }
  | .other => none

/-- Shutdown of one drive or of the whole recorder. -/
def msgcbShutdownRec (s : Agent) (function : ShutdownFunction) : Agent :=
  match s.shutdownDrives function with
  | some s => s.mapCameras (shutdownCamera s.media.isChmReady s.media.isRssdReady)
  | none => s

/-- Locomotive identifier. -/
def msgcbLocomotiveId (s : Agent) (locomotiveId : CString) : Agent :=
  { s with media := { s.media with
      locoId := padUnderscores (locomotiveId.take maxLocoIdSize) maxLocoIdSize } }

end Agent

end RecordingAgent.Reagent
