import RecordingAgent.Reagent.Process

/-!
# Starting and stopping a camera's worker

`start_recording_process`, `stop_recording_process` and the record/pause command built on
them. A start accumulates the camera's commanded mode, refuses when the CHM is commanded but
not ready, drops the SSD bits when the SSD is not ready, and launches a worker when the
camera is assigned and has none.
-/

namespace RecordingAgent.Reagent

open Foundation

/-- The mode word a start commands: SSD always, CHM for an essential camera, audio if wanted. -/
def recordingMode (p : CamDef) : Flags :=
  let mode := p.runtime.recordingModeFlags
  let mode :=
    if p.runtime.isEssential ≠ 0 then
      let mode := mode ||| doRecordChmVideo
      if str2bool p.doAudio then mode ||| doRecordChmAudio else mode
    else mode ||| dontUseChm
  let mode := mode ||| doRecordSsdVideo
  if str2bool p.doAudio then mode ||| doRecordSsdAudio else mode

/-- The status word of a camera recording as its mode word commands. -/
def recordingStatus (mode : Flags) : Flags :=
  let status := 0
  let status :=
    if Has mode doRecordChmVideo then
      let status := status ||| isRecordingChmVideo
      if Has mode doRecordChmAudio then status ||| isRecordingChmAudio else status
    else status
  if Has mode doRecordSsdVideo then
    let status := status ||| isRecordingSsdVideo
    if Has mode doRecordSsdAudio then status ||| isRecordingSsdAudio else status
  else status

namespace Agent

/-- Set the commanded mode of a camera. -/
def setMode (s : Agent) (c : Slot) (mode : Flags) : Agent :=
  s.modifyRuntime c fun r => { r with recordingModeFlags := mode }

/-- Add to the number of recording cameras. -/
def setCamsRecording (s : Agent) (n : ℕ) : Agent :=
  { s with media := { s.media with nCamsRecording := n } }

/-- Reflect that a camera went from recording to not recording. -/
def cameraRecordingJustStopped (s : Agent) (c : Slot) : Agent :=
  let s := s.modifyCam c CamDef.stopped
  let s := s.sendCameraStatus c
  let s := s.sendRecordingStatusMsg
  let s := s.setCamsRecording
    (if s.media.nCamsRecording > 0 then s.media.nCamsRecording - 1 else s.media.nCamsRecording)
  s.handleMetarec.handleSpaceMonitor

/-- Whether stopping or starting a camera restarts the space monitor. -/
def hasGrooming (p : CamDef) : Bool := p.maxAge ≠ [] && 0 < atoi p.maxAge

/-- Terminate the worker of a camera, if it has one. -/
def stopRecordingProcess (s : Agent) (c : Slot) : ExitCode × Agent :=
  let pid := (s.cam c).workerPid
  if pid ≠ 0 then
    let s := s.terminate pid
    let s := s.cameraRecordingJustStopped c
    let s := s.modifyCam c fun p => { p with workerPid := 0 }
    (.success, if hasGrooming (s.cam c) then s.stopSpaceMonitor else s)
  else (.failure, s)

/-- The retry counter a start uses: that of the first configured camera with the same name. -/
def retryIndex (s : Agent) (c : Slot) : Slot :=
  (s.media.configured.find? fun i =>
    strncasecmpEq (s.cam c).name (s.cam i).name cameraNameLength).getD 0

/-- Record the worker a start launched. -/
def workerStarted (s : Agent) (c : Slot) (pid : ℕ) : Agent :=
  let s := s.modifyCam c fun p =>
    { p with
      workerPid := pid
      runtime := { p.runtime with
        recordingStatusFlags := recordingStatus p.runtime.recordingModeFlags } }
  let s := s.setCamsRecording (s.media.nCamsRecording + 1)
  let s := s.sendCameraStatus c
  let s := s.sendRecordingStatusMsg
  if hasGrooming (s.cam c) then s.stopSpaceMonitor else s

/-- Launch a worker for an assigned camera which has none, then look after the helpers. -/
def launchWorker (s : Agent) (c cid : Slot) : ExitCode × Agent :=
  let command := raconfPrepareForRecording s.media (s.cam c)
  let r : ExitCode × Agent :=
    if (s.cam c).runtime.isAssigned ∧ (s.cam c).workerPid = 0 then
      match s.spawnProcess c command with
      | (some pid, s) => (.success, (s.setRetry cid 0).workerStarted c pid)
      | (none, s) => (.failure, s.setRetry cid (s.statics.retryCount cid + 1))
    else (.success, s)
  (r.1, r.2.handleMetarec.handleSpaceMonitor)

/-- Start recording from a camera. -/
def startRecordingProcess (s : Agent) (c : Slot) : ExitCode × Agent :=
  let cid := s.retryIndex c
  if s.statics.retryCount cid > 2 then
    (.failure, s.modifyRuntime c fun r => { r with isAssigned := false })
  else
    let mode := recordingMode (s.cam c)
    let s := s.setMode c mode
    if Has mode (doRecordChmVideo ||| doRecordSsdVideo) then
      if Has mode doRecordChmVideo ∧ s.media.isChmReady = false then
        (.failure, s.setRetry cid 0)
      else if Has mode doRecordSsdVideo ∧ s.media.isRssdReady = false then
        (s.setMode c (mode &&& ~~~(doRecordSsdVideo ||| doRecordSsdAudio))).launchWorker c cid
      else s.launchWorker c cid
    else (.failure, s.setRetry cid 0)

/-- Whether the status word of a camera says that it is recording video. -/
def isRecording (s : Agent) (c : Slot) : Bool :=
  Has (s.cam c).runtime.recordingStatusFlags (doRecordChmVideo ||| doRecordSsdVideo)

/-- The run-time record of a camera which is commanded to pause. -/
def paused (r : CamRuntime) : CamRuntime := { r with recordingModeFlags := 0, commandedPaused := true }

/-- The run-time record of a camera which is commanded to record. -/
def resumed (r : CamRuntime) : CamRuntime := { r with commandedPaused := false }

/-- Stop, or pause and resume, recording from a named camera. -/
def handleCameraRecordPause (s : Agent) (camera : CString) (record : ℕ) : ExitCode × Agent :=
  if s.statics.shutdownInProcess then (.failure, s)
  else
    match raconfFindCamera s.media (camera.take cameraNameLength) with
    | none => (.failure, s)
    | some c =>
      let r := (s.cam c).runtime
      if r.isOnline ∧ r.isAssigned then
        if (s.isRecording c).toNat ≠ record then
          if s.isRecording c then
            (s.modifyRuntime c paused).stopRecordingProcess c
          else if s.media.isChmReady ∨ s.media.isRssdReady then
            (s.modifyRuntime c resumed).startRecordingProcess c
          else (.failure, s)
        else (.success, s)
      else (.failure, s.send (.videoApplicationError .cameraOffline))

/-- Stop and then start recording from a named camera. -/
def resetCameraStream (s : Agent) (camera : CString) : ExitCode × Agent :=
  let paused := s.handleCameraRecordPause (camera.take cameraNameLength) 0
  if paused.1 = .failure then (.failure, paused.2)
  else
    let resumed := paused.2.handleCameraRecordPause (camera.take cameraNameLength) 1
    if resumed.1 = .failure then (.failure, resumed.2) else (.success, resumed.2)

end Agent

end RecordingAgent.Reagent
