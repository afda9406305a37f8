import RecordingAgent.Reagent.Recording

/-!
# The 1 Hz timer

One pass of `_1Hz_timer_callback` has two halves. The monitor half alternates between
sending a probe, when it also reflects the previous answers in the cameras' online status,
and collecting answers. The restart half looks after every camera whose mode word is not
zero: it notices a worker which ended, and starts one for an online, assigned camera which
has had none for more than twelve passes.

The monitor's answers and the results of address lookups are inputs of a pass.
-/

namespace RecordingAgent.Reagent

open Foundation

/-- The lives a camera has before it is taken to be offline, `CAMON_TTL`. -/
def camonTtlStart : ℤ := 6

/-- The number of missed answers after which a camera's address is looked up. -/
def startTimerLimit : ℕ := 10

/-- Every flag of a status word. -/
def isRecordingAny : Flags :=
  isRecordingChmAudio ||| isRecordingSsdAudio ||| isRecordingChmVideo ||| isRecordingSsdVideo

/-- Replace the host part of an `http` or `rtsp` address. -/
def replaceIp (str newIp : CString) : CString :=
  match (strstr str ['h', 't', 't', 'p', ':', '/', '/']).or
      (strstr str ['r', 't', 's', 'p', ':', '/', '/']) with
  | none => str
  | some offset =>
    let start := offset + 7
    match (strchr (str.drop start) ':').or (strchr (str.drop start) '/') with
    | none => str
    | some length => str.take start ++ newIp ++ str.drop (start + length)

/-- Whether a monitor answer is the given camera's. -/
def CamonStatus.matches (st : CamonStatus) (p : CamDef) : Bool :=
  (strstr p.homepage st.ipAddr).isSome && strncasecmpEq p.dispMac st.macAddr cameraNameLength

namespace Agent

/-- A camera about to go offline which is still marked as recording loses its worker. -/
def reflectOffline (s : Agent) (c : Slot) : Agent :=
  if Has (s.cam c).runtime.recordingStatusFlags isRecordingAny then
    let pid := (s.cam c).workerPid
    if pid > 0 then
      match s.checkWorkerStatus pid with
      | (true, s) => (s.modifyCam c fun p => { p with workerPid := 0 }).cameraRecordingJustStopped c
      | (false, s) => (s.stopRecordingProcess c).2
    else s.modifyRuntime c clearRecordingStatus
  else s

/-- A camera about to come online which is assigned and commanded to record is started again
when its worker has ended. -/
def reflectOnline (s : Agent) (c : Slot) : Agent :=
  if (s.cam c).runtime.isAssigned ∧ (s.cam c).runtime.recordingModeFlags ≠ 0 then
    let pid := (s.cam c).workerPid
    if pid > 0 then
      match s.checkWorkerStatus pid with
      | (true, s) => (s.startRecordingProcess c).2
      | (false, s) => s.setCamonTtl c (10 * camonTtlStart)
    else
      let ttl := s.statics.camonTtl c - 1
      if ttl ≥ 0 then s.setCamonTtl c (10 * camonTtlStart)
      else ((s.setCamonTtl c ttl).startRecordingProcess c).2
  else s

/-- Set a camera's online status and report it. -/
def setOnline (s : Agent) (c : Slot) (isAlive : Bool) : Agent :=
  ((s.modifyRuntime c fun r => { r with isOnline := isAlive }).sendCameraStatus c).setCamonTtl c
    camonTtlStart

/-- Keep track of a camera's online status; the answer replaces the monitor's. -/
def reflectCameraOnlineStatus (s : Agent) (c : Slot) (isAlive : Bool) : Bool × Agent :=
  let s := if isAlive then s.setCamonTtl c camonTtlStart else s
  if (s.cam c).runtime.isOnline = isAlive then (false, s)
  else if isAlive = false ∧ s.statics.camonTtl c > 1 then
    (true, s.setCamonTtl c (s.statics.camonTtl c - 1))
  else
    let s := if isAlive then s.reflectOnline c else s.reflectOffline c
    if (s.cam c).runtime.isOnline = isAlive then (false, s) else (isAlive, s.setOnline c isAlive)

/-- Look up the address of a camera which did not answer, once enough answers are missing. -/
def lookupAddress (s : Agent) (c : Slot) (arp : Slot → Option CString) : Agent :=
  let ticks := s.statics.startTimer + 1
  if ticks ≥ startTimerLimit then
    match arp c with
    | some ip =>
      ({ s with statics := { s.statics with startTimer := 0 } }).modifyCam c fun p =>
        { p with homepage := replaceIp p.homepage ip, streamUrl := replaceIp p.streamUrl ip }
    | none => { s with statics := { s.statics with startTimer := startTimerLimit } }
  else { s with statics := { s.statics with startTimer := ticks } }

/-- Store the answer of the online check back into the monitor's table. -/
def setCamonAlive (s : Agent) (j : ℕ) (alive : Bool) : Agent :=
  { s with statics := { s.statics with
      camonStatus := s.statics.camonStatus.modify j fun st => { st with isAlive := alive } } }

/-- Reflect the monitor's answer, or its absence, in one camera. -/
def reflectProbe (arp : Slot → Option CString) (s : Agent) (c : Slot) : Agent :=
  if (s.cam c).runtime.isAssigned then
    match s.statics.camonStatus.findIdx? (·.matches (s.cam c)) with
    | some j =>
      let alive := ((s.statics.camonStatus[j]?).map CamonStatus.isAlive).getD false
      let r := s.reflectCameraOnlineStatus c alive
      r.2.setCamonAlive j r.1
    | none =>
      let r := s.reflectCameraOnlineStatus c false
      if r.1 = false then r.2.lookupAddress c arp else r.2
  else s

/-- The monitor half of a timer pass. -/
def camonPass (s : Agent) (answers : List CamonStatus) (arp : Slot → Option CString) : Agent :=
  if s.statics.passFlag = false then
    let s := { s with statics := { s.statics with passFlag := true } }
    let s := s.media.configured.foldl (reflectProbe arp) s
    { s with statics := { s.statics with camonStatus := [] } }
  else
    { s with statics := { s.statics with
        camonStatus := answers.take maxCams, passFlag := false } }

/-- Look after the worker of one camera. -/
def restartCamera (s : Agent) (c : Slot) : Agent :=
  let p := s.cam c
  if p.runtime.recordingModeFlags ≠ 0 then
    if p.workerPid ≠ 0 then
      match (s.setRpTtl c 0).checkWorkerStatus p.workerPid with
      | (true, s) =>
        (s.modifyCam c fun p => { p with
          workerPid := 0, runtime := { p.runtime with isOnline := false } }).cameraRecordingJustStopped c
      | (false, s) => s
    else if p.runtime.isOnline ∧ p.runtime.isAssigned then
      if s.statics.rpTtl c > 2 * camonTtlStart then ((s.setRpTtl c 0).startRecordingProcess c).2
      else s.setRpTtl c (s.statics.rpTtl c + 1)
    else s
  else s

/-- The restart half of a timer pass. -/
def restartPass (s : Agent) : Agent :=
  (s.media.configured.foldl restartCamera s).handleMetarec.handleSpaceMonitor

/-- One pass of the 1 Hz timer. -/
def timerCallback (s : Agent) (answers : List CamonStatus) (arp : Slot → Option CString) : Agent :=
  (s.camonPass answers arp).restartPass

end Agent

end RecordingAgent.Reagent
