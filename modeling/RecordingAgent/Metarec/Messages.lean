import RecordingAgent.Foundation.FlagWord
import RecordingAgent.Metarec.Chunk
import RecordingAgent.Metarec.DigitalInputs

/-!
# The messages to the recorder of metadata

The main loop handles one message at a time: it makes a record of it, follows the commands of the drives, keeps the names
of the digital inputs, and notes a forward change of the time. The versions of the messages, the sizes of their fields,
the layouts of the payloads and the reading of the texts of a GPS message are defined outside the repository; they are
parameters. What a handler does with the static memory of the last message is left out, since the record gets a copy.

A handler changes a drive's command only by what the message says about the drive, so the command in force is that of
the last message which says something about it.
-/

namespace RecordingAgent.Metarec

open Foundation

/-- The bytes of a structure, whose size fits `data_length`. -/
structure Payload where
  bytes : List UInt8
  length_lt : bytes.length < 2 ^ 16

/-- What the interface of the messages defines. -/
structure MetaApi where
  timeInfoMsgVersion : ℕ
  locomotiveIdMsgVersion : ℕ
  videoEventInfoMsgVersion : ℕ
  gpsDataMsgVersion : ℕ
  digitalInputsMsgVersion : ℕ
  shutdownMsgVersion : ℕ
  readyStatusMsgVersion : ℕ
  /-- `NUM_DIGITAL_INPUTS` -/
  numDigitalInputs : ℕ
  timeSourceNameLen : ℕ
  maxLocoIdSize : ℕ
  /-- `sizeof(digital_name)` -/
  digitalNameSize : ℕ
  getGpsDirection : CString → Char
  /-- `parse_gps_coordinate` with `eGPSLatitude` and with `eGPSLongitude`. -/
  parseGpsLatitude : CString → ℤ
  parseGpsLongitude : CString → ℤ
  parseGpsSpeed : CString → ℤ
  /-- `meta_gps_memory_t` with its latitude, longitude and speed. -/
  metaGpsMemory : ℤ → ℤ → ℤ → Payload
  /-- `meta_time_memory_t` with its time, offset and source. -/
  metaTimeMemory : ℕ → ℤ → CString → Payload
  /-- `meta_event_recording_t` with its name and value. -/
  metaEventRecording : CString → ℕ → Payload
  /-- `meta_loco_id_t`. -/
  metaLocoId : CString → Payload

/-- The readings of both clocks when a record is made. -/
structure Clocks where
  tod : ℕ
  ts : Timespec

/-- The functions of a shutdown message. -/
inductive ShutdownFunction
  | chm
  | removableSsd
  | all
  | other
  deriving DecidableEq

/-- The contents of a message. -/
inductive MetaMessage
  | timeInfo (systemTime : ℕ) (timeOffset : ℤ) (timeSource : CString)
  | locomotiveId (locomotiveId : CString)
  | videoEventInfo (name : CString) (value : ℕ)
  | gpsData (latitude longitude speed : CString)
  | digitalInputs (di : List DigitalInput)
  | shutdown (functionType : ShutdownFunction)
  | readyStatus (chmReady removableSsdReady : Bool)

/-- A message with its version, and whether the verification of its contents lets it pass. -/
structure PtcMsg where
  verified : Bool
  version : ℕ
  data : MetaMessage

/-- `DO_RECORD_CHM_META` -/
def doRecordChmMeta : BitVec 32 := 0x01#32

/-- `DO_RECORD_SSD_META` -/
def doRecordSsdMeta : BitVec 32 := 0x02#32

/-- The flag of a drive in a recording mode. -/
def Drive.flag : Drive → BitVec 32
  | .chm => doRecordChmMeta
  | .rssd => doRecordSsdMeta

/-- `IS_CHM_METADATA_RECORDING_COMMANDED` and `IS_SSD_METADATA_RECORDING_COMMANDED`. -/
def commandedDrives (rm : BitVec 32) (d : Drive) : Bool := decide (Has rm d.flag)

/-- What the handlers keep between messages. -/
structure MsgState where
  previousTimeOffset : ℤ
  commandedRecordingMode : BitVec 32
  digitalEventsConfigMap : List DigitalInput

/-- What a handler leaves, the record it enqueues, and whether it announces a forward time change behind that. -/
structure Handled where
  state : MsgState
  record : Option Record
  timeChange : Bool

/-- A handler which does nothing. -/
def MsgState.ignore (s : MsgState) : Handled := ⟨s, none, false⟩

section

variable (api : MetaApi) (now : Clocks) (s : MsgState)

/-- `set_gps` -/
def setGps (latitude longitude speed : ℤ) : Record :=
  let payload := api.metaGpsMemory latitude longitude speed
  ⟨.gps, now.tod, now.ts, payload.bytes, payload.length_lt⟩

/-- `set_time_info`; the field of the source is zeroed before. -/
def setTimeInfo (systemTime : ℕ) (timeOffset : ℤ) (timeSource : CString) : Record :=
  let payload := api.metaTimeMemory systemTime timeOffset (timeSource.take api.timeSourceNameLen)
  ⟨.timeInfo, now.tod, now.ts, payload.bytes, payload.length_lt⟩

/-- `set_locomotive_id` -/
def setLocomotiveId (locoId : CString) : Record :=
  let payload := api.metaLocoId (locoId.take api.maxLocoIdSize)
  ⟨.locomotiveId, now.tod, now.ts, payload.bytes, payload.length_lt⟩

/-- `set_video_event` -/
def setVideoEvent (digitalName : CString) (digitalValue : ℕ) : Record :=
  let payload := api.metaEventRecording (digitalName.take (api.digitalNameSize - 1)) digitalValue
  ⟨.videoEvent, now.tod, now.ts, payload.bytes, payload.length_lt⟩

/-- `msgcb_time_info_meta_rec` -/
def msgcbTimeInfoMetaRec (version systemTime : ℕ) (timeOffset : ℤ) (timeSource : CString) : Handled :=
  if version ≠ api.timeInfoMsgVersion then s.ignore
  else if timeSource ≠ [] then
    { state := { s with previousTimeOffset := timeOffset }
      record := some (setTimeInfo api now systemTime timeOffset timeSource)
      timeChange := decide (s.previousTimeOffset < 0 ∧ timeOffset = 0) }
  else s.ignore

/-- `msgcb_locomotive_id` -/
def msgcbLocomotiveId (version : ℕ) (locomotiveId : CString) : Handled :=
  if version ≠ api.locomotiveIdMsgVersion then s.ignore
  else if locomotiveId ≠ [] then ⟨s, some (setLocomotiveId api now locomotiveId), false⟩
  else s.ignore

/-- `msgcb_video_event_info_meta_rec` -/
def msgcbVideoEventInfoMetaRec (version : ℕ) (name : CString) (value : ℕ) : Handled :=
  if version ≠ api.videoEventInfoMsgVersion then s.ignore
  else if name ≠ [] then ⟨s, some (setVideoEvent api now name value), false⟩
  else s.ignore

/-- A coordinate gets a sign for the south or the west. -/
def signedCoordinate (direction : Char) (letters : List Char) (coordinate : ℤ) : ℤ :=
  if direction ∈ letters ∧ 0 < coordinate then coordinate * -1 else coordinate

/-- `msgcb_gps_data_meta_rec` -/
def msgcbGpsDataMetaRec (version : ℕ) (latitude longitude speed : CString) : Handled :=
  if version ≠ api.gpsDataMsgVersion then s.ignore
  else
    let lat := api.parseGpsLatitude latitude
    let lon := api.parseGpsLongitude longitude
    let spd := api.parseGpsSpeed speed
    if ¬(lat = 0 ∧ lon = 0 ∧ spd = 0) then
      ⟨s, some (setGps api now (signedCoordinate (api.getGpsDirection latitude) ['s', 'S'] lat)
        (signedCoordinate (api.getGpsDirection longitude) ['w', 'W'] lon) spd), false⟩
    else s.ignore

/-- `msgcb_digital_config_meta_rec` -/
def msgcbDigitalConfigMetaRec (version : ℕ) (di : List DigitalInput) : Handled :=
  if version ≠ api.digitalInputsMsgVersion then s.ignore
  else
    ⟨{ s with
        digitalEventsConfigMap := di.foldl (fun table d =>
          if d.diNumber ≠ 0 then (setDigitalInputConfig d.diName d.diNumber d.diRecording table).2 else table)
          s.digitalEventsConfigMap },
      none, false⟩

/-- `msgcb_ready_status_meta_rec`; the mutex can be locked. -/
def msgcbReadyStatusMetaRec (version : ℕ) (chmReady removableSsdReady : Bool) : Handled :=
  if version = api.readyStatusMsgVersion then
    let rm := if chmReady then doRecordChmMeta else 0
    let rm := if removableSsdReady then rm ||| doRecordSsdMeta else rm
    ⟨{ s with commandedRecordingMode := rm }, none, false⟩
  else s.ignore

/-- The drives which a shutdown takes away. -/
def ShutdownFunction.mask : ShutdownFunction → BitVec 32
  | .chm => doRecordChmMeta
  | .removableSsd => doRecordSsdMeta
  | .all => doRecordChmMeta ||| doRecordSsdMeta
  | .other => 0

/-- `msgcb_shutdown_meta_rec` -/
def msgcbShutdownMetaRec (version : ℕ) (functionType : ShutdownFunction) : Handled :=
  if version = api.shutdownMsgVersion then
    ⟨{ s with commandedRecordingMode := s.commandedRecordingMode &&& ~~~functionType.mask }, none, false⟩
  else s.ignore

/-- The handler of a message, which returns at once if the verification does not let the message pass. -/
def msgcb (m : PtcMsg) : Handled :=
  if m.verified then
    match m.data with
    | .timeInfo systemTime timeOffset timeSource => msgcbTimeInfoMetaRec api now s m.version systemTime timeOffset timeSource
    | .locomotiveId locomotiveId => msgcbLocomotiveId api now s m.version locomotiveId
    | .videoEventInfo name value => msgcbVideoEventInfoMetaRec api now s m.version name value
    | .gpsData latitude longitude speed => msgcbGpsDataMetaRec api now s m.version latitude longitude speed
    | .digitalInputs di => msgcbDigitalConfigMetaRec api s m.version di
    | .shutdown functionType => msgcbShutdownMetaRec api s m.version functionType
    | .readyStatus chmReady removableSsdReady => msgcbReadyStatusMetaRec api s m.version chmReady removableSsdReady
  else s.ignore

/-- The record which a message makes, whatever the handlers keep. -/
def recordOf (m : PtcMsg) : Option Record := (msgcb api now ⟨0, 0, []⟩ m).record

/-- What a message which is handled says about a drive. -/
def told (d : Drive) (m : PtcMsg) : Option Bool :=
  if m.verified then
    match m.data with
    | .readyStatus chmReady removableSsdReady =>
      if m.version = api.readyStatusMsgVersion then some (match d with | .chm => chmReady | .rssd => removableSsdReady)
      else none
    | .shutdown functionType =>
      if m.version = api.shutdownMsgVersion ∧ Has functionType.mask d.flag then some false else none
    | _ => none
  else none

/-- The command of a drive after messages, which is that of the last one which says something about it. -/
def commandAfter (rm : BitVec 32) (d : Drive) (ms : List PtcMsg) : Bool :=
  (ms.filterMap (told api d)).getLastD (commandedDrives rm d)

end

variable {api : MetaApi} {rm : BitVec 32} {d : Drive}

/-- The record of a message does not depend on what the handlers keep. -/
theorem msgcb_record (api : MetaApi) (now : Clocks) (s : MsgState) (m : PtcMsg) :
    (msgcb api now s m).record = recordOf api now m := by
  unfold recordOf msgcb
  split
  · cases m.data <;> dsimp only
    case timeInfo systemTime timeOffset timeSource =>
      unfold msgcbTimeInfoMetaRec
      split_ifs <;> rfl
    case locomotiveId locomotiveId =>
      unfold msgcbLocomotiveId
      split_ifs <;> rfl
    case videoEventInfo name value =>
      unfold msgcbVideoEventInfoMetaRec
      split_ifs <;> rfl
    case gpsData latitude longitude speed =>
      unfold msgcbGpsDataMetaRec
      split_ifs
      · rfl
      · dsimp only
        split_ifs <;> rfl
    case digitalInputs di =>
      unfold msgcbDigitalConfigMetaRec
      split_ifs <;> rfl
    case shutdown functionType =>
      unfold msgcbShutdownMetaRec
      split_ifs <;> rfl
    case readyStatus chmReady removableSsdReady =>
      unfold msgcbReadyStatusMetaRec
      split_ifs <;> rfl
  · rfl

/-- A ready message commands the drives which it names. -/
theorem commandedDrives_ready (chmReady removableSsdReady : Bool) (d : Drive) :
    commandedDrives (if removableSsdReady then (if chmReady then doRecordChmMeta else 0) ||| doRecordSsdMeta
      else if chmReady then doRecordChmMeta else 0) d =
        match d with | .chm => chmReady | .rssd => removableSsdReady := by
  cases chmReady <;> cases removableSsdReady <;> cases d <;> decide

/-- A shutdown takes the command away from the drives of its mask, and from no others. -/
theorem commandedDrives_shutdown (rm : BitVec 32) (functionType : ShutdownFunction) (d : Drive) :
    commandedDrives (rm &&& ~~~functionType.mask) d =
      if Has functionType.mask d.flag then false else commandedDrives rm d := by
  have hinside : Has functionType.mask d.flag → d.flag &&& functionType.mask = d.flag := by
    cases functionType <;> cases d <;> decide
  have hdisjoint : ¬ Has functionType.mask d.flag → functionType.mask &&& d.flag = 0 := by
    cases functionType <;> cases d <;> decide
  split
  next hflag => exact decide_eq_false (not_has_clear (hinside hflag) rm)
  next hflag => exact decide_eq_decide.mpr (has_clear_of_disjoint (hdisjoint hflag) rm)

/-- A handler leaves the command of a drive as the message says, or as it was. -/
theorem commandedDrives_msgcb (api : MetaApi) (now : Clocks) (s : MsgState) (m : PtcMsg) (d : Drive) :
    commandedDrives (msgcb api now s m).state.commandedRecordingMode d =
      (told api d m).getD (commandedDrives s.commandedRecordingMode d) := by
  unfold told msgcb
  split
  · cases m.data <;> dsimp only
    case timeInfo systemTime timeOffset timeSource =>
      unfold msgcbTimeInfoMetaRec
      split_ifs <;> rfl
    case locomotiveId locomotiveId =>
      unfold msgcbLocomotiveId
      split_ifs <;> rfl
    case videoEventInfo name value =>
      unfold msgcbVideoEventInfoMetaRec
      split_ifs <;> rfl
    case gpsData latitude longitude speed =>
      unfold msgcbGpsDataMetaRec
      split_ifs
      · rfl
      · dsimp only
        split_ifs <;> rfl
    case digitalInputs di =>
      unfold msgcbDigitalConfigMetaRec
      split_ifs <;> rfl
    case shutdown functionType =>
      unfold msgcbShutdownMetaRec
      by_cases hversion : m.version = api.shutdownMsgVersion
      · rw [if_pos hversion]
        by_cases hflag : Has functionType.mask d.flag
        · rw [if_pos ⟨hversion, hflag⟩]
          exact (commandedDrives_shutdown _ _ _).trans (if_pos hflag)
        · rw [if_neg fun h => hflag h.2]
          exact (commandedDrives_shutdown _ _ _).trans (if_neg hflag)
      · rw [if_neg hversion, if_neg fun h => hversion h.1]
        rfl
    case readyStatus chmReady removableSsdReady =>
      unfold msgcbReadyStatusMetaRec
      split
      · exact commandedDrives_ready _ _ d
      · rfl
  · rfl

/-- A further message leaves the command as it says, or as it was. -/
theorem commandAfter_append (api : MetaApi) (rm : BitVec 32) (d : Drive) (ms : List PtcMsg) (m : PtcMsg) :
    commandAfter api rm d (ms ++ [m]) = (told api d m).getD (commandAfter api rm d ms) := by
  rw [commandAfter, List.filterMap_append]
  cases htold : told api d m with
  | none =>
    rw [List.filterMap_cons_none htold, List.filterMap_nil, List.append_nil]
    rfl
  | some commanded =>
    rw [List.filterMap_cons_some htold, List.filterMap_nil, List.getLastD_concat]
    rfl

/-- A drive stays off until a message says otherwise. -/
theorem commandAfter_off {ms later : List PtcMsg} (hoff : commandAfter api rm d ms = false)
    (hlater : ∀ m ∈ later, told api d m ≠ some true) : commandAfter api rm d (ms ++ later) = false := by
  induction later using List.reverseRecOn with
  | nil => rwa [List.append_nil]
  | append_singleton later m ih =>
    have hbefore := ih fun m' hm' => hlater m' (List.mem_append_left _ hm')
    have htold := hlater m (List.mem_append_right _ (List.mem_singleton_self m))
    rw [← List.append_assoc, commandAfter_append, hbefore]
    cases hm : told api d m with
    | none => rfl
    | some commanded =>
      cases commanded with
      | false => rfl
      | true => exact absurd hm htold

end RecordingAgent.Metarec
