import Mathlib.Logic.Function.Basic
import RecordingAgent.Foundation.CString
import RecordingAgent.Foundation.LoggedRun

/-!
# Digital inputs that control cameras

Ten times a second the discrete inputs are read. An input that has changed is handed to the event
processing, which looks up the first matching entry of every camera that is controlled by events:
its action is performed at once, or when the camera's timer expires. There is one timer for each
camera, and one slot which holds the pointers the timer's handler follows.

The timer library is not part of the repository. A timer is known by the identifier it was created
with; it is active from its start until it is stopped, and only an active timer calls back.
-/

namespace RecordingAgent.VideoRec

open Foundation

/-- The identifier of a timer. -/
abbrev TimerId := ℤ

/-- What an event asks of a camera. -/
inductive CameraFunctionForEvent
  | record
  | pause
  | setFrameRate
  | other
  deriving DecidableEq, Repr

/-- An entry of a camera's table of controlling inputs. -/
structure InputForEventControlledCamera where
  digitalInputNum : ℕ
  eventInputState : ℕ
  actionDelayAfterEventTrigger : ℤ
  cameraFunctionForEvent : CameraFunctionForEvent
  frameRateDuringEvent : ℕ
  deriving DecidableEq, Repr

/-- A camera's configuration, with the entries of its table that are in use. -/
structure CameraConfiguration where
  name : CString
  cameraControlByEvent : Bool
  eventForControlledCamera : List InputForEventControlledCamera
  deriving DecidableEq, Repr

/-- The configuration of a digital input. -/
structure DigitalInputConfiguration where
  number : ℕ
  recording : Bool
  name : CString
  deriving DecidableEq, Repr

/-- The configuration, with the sizes and values of the platform's headers: how many cameras there is
room for, how long a camera's name is in a message, and the reading which stands for unknown inputs. -/
structure Configuration where
  maxNumberOfCameraConfigurations : ℕ
  cameraNameLength : ℕ
  dinRegDataUnknown : BitVec 8
  digitalInputConfiguration : List DigitalInputConfiguration
  cameraConfiguration : List CameraConfiguration
  room : cameraConfiguration.length ≤ maxNumberOfCameraConfigurations

/-- The address of an entry: the camera in whose table it stands and its index there. -/
abbrev EventInputPtr := ℕ × ℕ

/-- A camera's entry of the discrete event timer pool. A pointer is null or leads into the configuration. -/
structure DiscreteEventTimer where
  timerId : TimerId
  eventInputPtr : Option EventInputPtr
  camConfigPtr : Option ℕ
  deriving DecidableEq

/-- What the event control notes for the rest of the program. -/
structure VideoRecInfo where
  driveStatusRequested : Bool
  cameraCommandedPause : ℕ → Bool
  cameraFrameRate : ℕ → ℕ

/-- The state of the event control. An active timer is known by its period in milliseconds. -/
structure EventControl where
  discreteFpgaReg : BitVec 8
  prevDiscreteFpgaReg : BitVec 8
  discreteInputTimerArr : ℕ → DiscreteEventTimer
  timers : TimerId → Option ℤ
  powerDownCheckShmCounter : BitVec 8
  powerGoingDown : Bool
  videoRecInfo : VideoRecInfo

/-- What the event control does, in the order in which it does it: the calls with their arguments that
hand over an input or an action, and the messages that are sent. -/
inductive Call
  | checkDigitalEvents (event triggerValue : ℕ)
  | videoEventInfo (name : CString) (eventState : ℕ)
  | performDiscreteInputAction (camConfigPtr : Option ℕ) (eventInputPtr : Option EventInputPtr) (cameraConfigIndex : ℕ)
  | cameraRecordPause (camera : CString) (record : Bool)
  | cameraFrameRate (camera : CString) (frameRate : ℕ)
  | readyStatus (drivesReady : Bool)
  | shutdownPowerLoss
  deriving DecidableEq, Repr

/-- A state and what has been done, or `none` when a null pointer is followed. -/
abbrev Outcome := Option (EventControl × List Call)

/-- One poll: what shared memory says about the power, whether another part of the program has asked for
the drives' status, whether the digital configuration has been sent, and the reading of the register. -/
structure Poll where
  fpgaPowerdownIndicator : Option Bool
  driveStatusRequested : Bool
  isDigitalConfigSent : Bool
  regData : BitVec 8
  deriving DecidableEq

/-- What calls the event control: its own timer ten times a second, or a camera's timer. -/
inductive Input
  | poll (p : Poll)
  | expiry (tid : TimerId)
  deriving DecidableEq

namespace Configuration

variable (config : Configuration)

/-- The entry behind a pointer. -/
def eventInput (ptr : EventInputPtr) : Option InputForEventControlledCamera :=
  (config.cameraConfiguration[ptr.1]?).bind fun cam => cam.eventForControlledCamera[ptr.2]?

/-- The first entry of a camera which an input with this value matches, with its index, if events control
the camera. -/
def matchingInput (c event triggerValue : ℕ) : Option (InputForEventControlledCamera × ℕ) :=
  (config.cameraConfiguration[c]?).bind fun cam =>
    if cam.cameraControlByEvent then
      cam.eventForControlledCamera.zipIdx.find? fun e =>
        e.1.digitalInputNum == event && e.1.eventInputState == triggerValue
    else none

/-- `check_digital_events`: the first input with the number is reported if it is to be recorded. -/
def checkDigitalEvents (event triggerValue : ℕ) : List Call :=
  .checkDigitalEvents event triggerValue ::
    match config.digitalInputConfiguration.find? fun d => d.number == event with
    | some d => if d.recording then [.videoEventInfo d.name triggerValue] else []
    | none => []

end Configuration

namespace EventControl

variable (config : Configuration)

/-- `ptc_timer_active`. -/
def ptcTimerActive (s : EventControl) (tid : TimerId) : Bool := (s.timers tid).isSome

/-- `ptc_timer_start`. -/
def ptcTimerStart (s : EventControl) (tid : TimerId) (period : ℤ) : EventControl :=
  { s with timers := Function.update s.timers tid (some period) }

/-- `ptc_timer_stop`. -/
def ptcTimerStop (s : EventControl) (tid : TimerId) : EventControl :=
  { s with timers := Function.update s.timers tid none }

/-- Store the pointers the timer's handler will follow. -/
def setPointers (s : EventControl) (c : ℕ) (ptr : EventInputPtr) : EventControl :=
  { s with
    discreteInputTimerArr := Function.update s.discreteInputTimerArr c
      { s.discreteInputTimerArr c with eventInputPtr := some ptr, camConfigPtr := some c } }

/-- Note a camera as paused or not. -/
def setCommandedPause (s : EventControl) (c : ℕ) (paused : Bool) : EventControl :=
  { s with
    videoRecInfo := { s.videoRecInfo with
      cameraCommandedPause := Function.update s.videoRecInfo.cameraCommandedPause c paused } }

/-- `configurationSetCurrentFrameRate`. -/
def setCurrentFrameRate (s : EventControl) (c frameRate : ℕ) : EventControl :=
  { s with
    videoRecInfo := { s.videoRecInfo with
      cameraFrameRate := Function.update s.videoRecInfo.cameraFrameRate c frameRate } }

/-- `performDiscreteInputAction`. -/
def performDiscreteInputAction (s : EventControl) (camConfigPtr : Option ℕ) (eventInputPtr : Option EventInputPtr)
    (cameraConfigIndex : ℕ) : Outcome := do
  let eventInput ← eventInputPtr.bind config.eventInput
  let call := Call.performDiscreteInputAction camConfigPtr eventInputPtr cameraConfigIndex
  let camConfig := camConfigPtr.bind (config.cameraConfiguration[·]?)
  match eventInput.cameraFunctionForEvent with
  | .record =>
      let cam ← camConfig
      return (s.setCommandedPause cameraConfigIndex false,
        [call, .cameraRecordPause (cam.name.take config.cameraNameLength) true])
  | .pause =>
      let cam ← camConfig
      return (s.setCommandedPause cameraConfigIndex true,
        [call, .cameraRecordPause (cam.name.take config.cameraNameLength) false])
  | .setFrameRate =>
      let cam ← camConfig
      return (s.setCurrentFrameRate cameraConfigIndex eventInput.frameRateDuringEvent,
        [call, .cameraFrameRate cam.name eventInput.frameRateDuringEvent])
  | .other => return (s, [call])

/-- A camera's turn for an input: its first matching entry is stored and delayed, or acted on at once. -/
def processCamera (event triggerValue : ℕ) (s : EventControl) (c : ℕ) : Outcome :=
  match config.matchingInput c event triggerValue with
  | none => some (s, [])
  | some (eventInput, index) =>
    let s := s.setPointers c (c, index)
    let tid := (s.discreteInputTimerArr c).timerId
    let delay := eventInput.actionDelayAfterEventTrigger
    -- the running timer is stopped on every branch, and started again only for a delayed action
    let s := if s.ptcTimerActive tid then s.ptcTimerStop tid else s
    if delay > 0 then some (s.ptcTimerStart tid (delay * 1000), [])
    else s.performDiscreteInputAction config (some c) (s.discreteInputTimerArr c).eventInputPtr c

/-- The value of an input: one bit of the register, and a value that matches nothing for any other number. -/
def triggerValue (s : EventControl) (event : ℕ) : ℕ :=
  if event = 1 then (s.discreteFpgaReg.getLsbD 0).toNat
  else if event = 2 then (s.discreteFpgaReg.getLsbD 1).toNat
  else if event = 3 then (s.discreteFpgaReg.getLsbD 2).toNat
  else 99

/-- An input's turn: it is handed over for recording, and then every camera has its turn. -/
def processEvent (s : EventControl) (event : ℕ) : Outcome :=
  (loggedRun (processCamera config event (s.triggerValue event)) s
    (List.range config.cameraConfiguration.length)).map fun done =>
      (done.1, config.checkDigitalEvents event (s.triggerValue event) ++ done.2)

/-- `process_discrete_input_data`. -/
def processDiscreteInputData (s : EventControl) (events : List ℕ) : Outcome :=
  loggedRun (processEvent config) s events

/-- `discreteInputTimerEventHandler`. -/
def discreteInputTimerEventHandler (s : EventControl) (tid : TimerId) : Outcome :=
  match (List.range config.maxNumberOfCameraConfigurations).find? fun i =>
      (s.discreteInputTimerArr i).timerId == tid with
  | some i =>
      (s.ptcTimerStop tid).performDiscreteInputAction config (s.discreteInputTimerArr i).camConfigPtr
        (s.discreteInputTimerArr i).eventInputPtr i
  | none => some (s, [])

/-- The marker of a register that has not been read. -/
def uninitializedDiscretes : BitVec 8 := 99

/-- The three inputs among the bits of the register. -/
def discreteInputRegMask : BitVec 8 := 7

/-- How many polls there are to a check of the power. -/
def numInterationsBeforeCheckingPson : BitVec 8 := 3

/-- Every third poll looks whether the power is going down, until it is. -/
def checkPowerDown (s : EventControl) (fpgaPowerdownIndicator : Option Bool) : EventControl :=
  let s := { s with powerDownCheckShmCounter := s.powerDownCheckShmCounter + 1 }
  if s.powerDownCheckShmCounter = numInterationsBeforeCheckingPson ∧ s.powerGoingDown = false then
    if fpgaPowerdownIndicator = some true then
      { s with powerGoingDown := true, videoRecInfo := { s.videoRecInfo with driveStatusRequested := true } }
    else { s with powerDownCheckShmCounter := 0 }
  else s

/-- The numbers of the inputs whose bits are set. -/
def newEvents (temp : BitVec 8) : List ℕ := ((List.range 3).filter fun index => temp.getLsbD index).map (· + 1)

/-- The inputs of a known reading: all of them the first time, and afterwards those that have changed. -/
def processReading (s : EventControl) (reading : BitVec 8) : Outcome :=
  let doThemAll := s.prevDiscreteFpgaReg = uninitializedDiscretes
  let prev := s.prevDiscreteFpgaReg
  let s := { s with discreteFpgaReg := reading }
  if reading ≠ uninitializedDiscretes ∧ (prev ≠ reading ∨ doThemAll) then
    let temp := if doThemAll then 7 else reading ^^^ prev
    processDiscreteInputData config { s with prevDiscreteFpgaReg := reading } (newEvents temp)
  else some (s, [])

/-- Note whether the drives' status is asked for. -/
def setDriveStatusRequested (s : EventControl) (requested : Bool) : EventControl :=
  { s with videoRecInfo := { s.videoRecInfo with driveStatusRequested := requested } }

/-- The state of a poll once the power has been looked at. -/
def powerChecked (s : EventControl) (p : Poll) : EventControl :=
  (s.setDriveStatusRequested (s.videoRecInfo.driveStatusRequested || p.driveStatusRequested)).checkPowerDown
    p.fpgaPowerdownIndicator

/-- `check_for_event`. -/
def checkForEvent (s : EventControl) (p : Poll) : Outcome :=
  let asked := (s.powerChecked p).videoRecInfo.driveStatusRequested
  let s := (s.powerChecked p).setDriveStatusRequested false
  if asked ∧ s.powerGoingDown then some (s, [.readyStatus false, .shutdownPowerLoss])
  else
    let ready := if asked then [Call.readyStatus true] else []
    if s.powerGoingDown = false ∧ p.isDigitalConfigSent ∧ p.regData ≠ config.dinRegDataUnknown then
      (s.processReading config (p.regData &&& discreteInputRegMask)).map fun done => (done.1, ready ++ done.2)
    else some (s, ready)

/-- One call of the event control. The library calls back only for a timer that is active. -/
def step (s : EventControl) : Input → Outcome
  | .poll p => s.checkForEvent config p
  | .expiry tid => if s.ptcTimerActive tid then s.discreteInputTimerEventHandler config tid else some (s, [])

/-- `init_event_control`: a timer is created for every camera, and the other entries of the pool stay as
the loader left them. -/
def initEventControl (timerIds : ℕ → TimerId) (videoRecInfo : VideoRecInfo) : EventControl where
  discreteFpgaReg := uninitializedDiscretes
  prevDiscreteFpgaReg := uninitializedDiscretes
  discreteInputTimerArr := fun c =>
    { timerId := if c < config.cameraConfiguration.length then timerIds c else 0
      eventInputPtr := none
      camConfigPtr := none }
  timers := fun _ => none
  powerDownCheckShmCounter := 0
  powerGoingDown := false
  videoRecInfo := videoRecInfo

/-- What a sequence of calls comes to from the start. -/
def runFromInit (timerIds : ℕ → TimerId) (videoRecInfo : VideoRecInfo) (inputs : List Input) : Outcome :=
  loggedRun (step config) (initEventControl config timerIds videoRecInfo) inputs

end EventControl

end RecordingAgent.VideoRec
