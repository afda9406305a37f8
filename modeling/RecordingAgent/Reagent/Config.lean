import RecordingAgent.Foundation.CString
import RecordingAgent.Foundation.FirstMatch
import RecordingAgent.Foundation.FlagWord
import Mathlib.Algebra.GroupWithZero.Nat
import Mathlib.Data.Fintype.Basic
import Mathlib.Data.List.FinRange

/-!
# Camera configuration and its run-time record

The tables the recording agent keeps for its recorder: what the XML reader delivers, what
`raconf_init` makes of it, and how a camera is looked up by name. The reader itself is not
modelled; a `Config` is any table it can deliver, so names fit their twelve characters.

All sixteen camera slots are kept. The configured ones are those below `nCameras`, the
number of leading slots with a name.
-/

namespace RecordingAgent.Reagent

open Foundation

/-- The number of camera slots of a recorder, `MAX_CAMS`. -/
def maxCams : ℕ := 16

/-- The length to which camera names are padded. -/
def cameraNameLength : ℕ := 12

/-- The length to which the locomotive identifier is padded. -/
def maxLocoIdSize : ℕ := 10

/-- An index into the camera table. -/
abbrev Slot := Fin 16

instance Slot.neZero : NeZero 16 := ⟨by decide⟩

instance Slot.lawfulBEq : LawfulBEq Slot := inferInstance

/-- Every slot in table order. -/
def allSlots : List Slot := List.finRange 16

/-- Commanded and current recording flags of a camera. -/
abbrev Flags := BitVec 32

def doRecordChmVideo : Flags := 0x01#32
def doRecordChmAudio : Flags := 0x02#32
def doRecordSsdVideo : Flags := 0x04#32
def doRecordSsdAudio : Flags := 0x08#32
def dontUseChm : Flags := 0x10#32

def isRecordingChmVideo : Flags := 0x01#32
def isRecordingChmAudio : Flags := 0x02#32
def isRecordingSsdVideo : Flags := 0x04#32
def isRecordingSsdAudio : Flags := 0x08#32

/-- The parameters of one camera as the XML reader delivers them. -/
structure CamConfig where
  name : CString
  dispMac : CString
  homepage : CString
  streamUrl : CString
  resolution : CString
  compression : CString
  frameRate : CString
  doAudio : CString
  isEssential : CString
  maxAge : CString
  name_length : name.length ≤ 12 := by decide

/-- The contents of an unused camera entry. -/
def CamConfig.empty : CamConfig := ⟨[], [], [], [], [], [], [], [], [], [], by decide⟩

/-- A recorder configuration as the XML reader delivers it. -/
structure Config where
  locoId : CString
  chunkLength : CString
  chmFootageBase : CString
  rssdFootageBase : CString
  cameras : Slot → CamConfig

/-- The run-time part of a camera record. -/
structure CamRuntime where
  isAssigned : Bool
  isOnline : Bool
  resolution : ℤ
  compression : ℤ
  frameRate : ℤ
  maxAge : ℤ
  isEssential : ℤ
  recordingModeFlags : Flags
  recordingStatusFlags : Flags
  commandedPaused : Bool

/-- A camera record: its configuration texts, run-time state and worker process, if any. -/
structure CamDef where
  name : CString
  dispMac : CString
  homepage : CString
  streamUrl : CString
  doAudio : CString
  isEssential : CString
  maxAge : CString
  runtime : CamRuntime
  workerPid : ℕ

/-- The media record of the agent's recorder. -/
structure MediaInfo where
  chunkLength : CString
  chmFootageBase : CString
  rssdFootageBase : CString
  cameras : Slot → CamDef
  nCameras : ℕ
  camonSock : Option ℕ
  isChmReady : Bool
  isRssdReady : Bool
  nCamsRecording : ℕ
  locoId : CString

/-- Whether a configuration text reads as true. -/
def str2bool : CString → Bool
  | [] => false
  | c :: _ => c = '1' || c = 'T' || c = 't' || c = 'Y' || c = 'y'

/-- Pad a text with underscores on the right. -/
def padUnderscores (text : CString) (size : ℕ) : CString :=
  text ++ List.replicate (size - text.length) '_'

/-- Cut trailing underscores and blanks, but never the first character. -/
def truncName : CString → CString
  | [] => []
  | c :: rest => c :: rest.rdropWhile fun d => d = '_' || d.toNat ≤ ' '.toNat

/-- The number of slots before the first one without a name. -/
def Config.nCameras (cfg : Config) : ℕ :=
  (allSlots.takeWhile fun i => (cfg.cameras i).name ≠ []).length

/-- A camera entry as the XML reader copied it, before the run-time defaults are set. -/
def CamConfig.raw (c : CamConfig) : CamDef where
  name := c.name
  dispMac := c.dispMac
  homepage := c.homepage
  streamUrl := c.streamUrl
  doAudio := c.doAudio
  isEssential := c.isEssential
  maxAge := c.maxAge
  runtime := ⟨false, false, 0, 0, 0, 0, 0, 0, 0, false⟩
  workerPid := 0

/-- A configured camera with its run-time defaults and padded name. -/
def CamConfig.init (c : CamConfig) : CamDef :=
  { c.raw with
    name := padUnderscores c.name cameraNameLength
    runtime :=
      { isAssigned := c.dispMac ≠ [] && c.streamUrl ≠ []
        isOnline := false
        resolution := atoi c.resolution
        compression := atoi c.compression
        frameRate := atoi c.frameRate
        maxAge := 0
        isEssential := atoi c.isEssential
        recordingModeFlags := 0
        recordingStatusFlags := 0
        commandedPaused := false } }

/-- The media record `raconf_init` builds: the old record is zeroed before it is read. -/
def raconfInit (cfg : Config) (chmReady rssdReady : Bool) (sock : Option ℕ) : MediaInfo where
  chunkLength := cfg.chunkLength
  chmFootageBase := cfg.chmFootageBase
  rssdFootageBase := cfg.rssdFootageBase
  cameras := fun i => if i.val < cfg.nCameras then (cfg.cameras i).init else (cfg.cameras i).raw
  nCameras := cfg.nCameras
  camonSock := sock
  isChmReady := chmReady
  isRssdReady := rssdReady
  nCamsRecording := 0
  locoId := if cfg.nCameras = 0 then cfg.locoId else padUnderscores cfg.locoId maxLocoIdSize

/-- The zeroed media record left when no configuration can be read. -/
def MediaInfo.zero : MediaInfo where
  chunkLength := []
  chmFootageBase := []
  rssdFootageBase := []
  cameras := fun _ => CamConfig.empty.raw
  nCameras := 0
  camonSock := none
  isChmReady := false
  isRssdReady := false
  nCamsRecording := 0
  locoId := []

/-- The slots a loop over the configured cameras visits. -/
def MediaInfo.configured (m : MediaInfo) : List Slot := allSlots.filter fun i => i.val < m.nCameras

/-- Find the first configured camera whose name starts with the given text, ignoring case. -/
def raconfFindCamera (m : MediaInfo) (pName : CString) : Option Slot :=
  if pName.length > 0 then
    m.configured.find? fun i => strncasecmpEq pName (m.cameras i).name pName.length
  else none

/-- The arguments of the `rtsprec` command line template. -/
structure Command where
  locoId : CString
  name : CString
  canonicalMac : CString
  chunkLength : CString
  recordFlags : Flags
  chmFootageBase : CString
  rssdFootageBase : CString
  streamUrl : CString

/-- The first twelve hexadecimal digits of a hardware address, padded with zeros. -/
def canonicalMac (dispMac : CString) : CString :=
  let digits := (dispMac.filter fun c =>
    ('0' ≤ c && c ≤ '9') || ('A' ≤ c && c ≤ 'F') || ('a' ≤ c && c ≤ 'f')).take 12
  digits ++ List.replicate (12 - digits.length) '0'

/-- The command line with which a camera's worker is started. -/
def raconfPrepareForRecording (m : MediaInfo) (cam : CamDef) : Command where
  locoId := m.locoId
  name := cam.name
  canonicalMac := canonicalMac cam.dispMac
  chunkLength := m.chunkLength
  recordFlags := cam.runtime.recordingModeFlags
  chmFootageBase := m.chmFootageBase
  rssdFootageBase := m.rssdFootageBase
  streamUrl := cam.streamUrl

theorem mem_allSlots (i : Slot) : i ∈ allSlots := List.mem_finRange i

theorem nodup_allSlots : allSlots.Nodup := List.nodup_finRange 16

theorem pairwise_allSlots : allSlots.Pairwise (· < ·) := List.pairwise_lt_finRange 16

@[simp] theorem MediaInfo.mem_configured (m : MediaInfo) (i : Slot) :
    i ∈ m.configured ↔ i.val < m.nCameras := by
  simp [MediaInfo.configured, mem_allSlots]

theorem MediaInfo.nodup_configured (m : MediaInfo) : m.configured.Nodup :=
  nodup_allSlots.filter _

theorem MediaInfo.pairwise_configured (m : MediaInfo) : m.configured.Pairwise (· < ·) :=
  pairwise_allSlots.filter _

/-- A camera found by name is configured and matches it. -/
theorem raconfFindCamera_some {m : MediaInfo} {pName : CString} {c : Slot}
    (h : raconfFindCamera m pName = some c) :
    c.val < m.nCameras ∧ strncasecmpEq pName (m.cameras c).name pName.length = true := by
  unfold raconfFindCamera at h
  split at h
  · have hmatch := List.find?_some h
    exact ⟨by simpa using List.mem_of_find?_eq_some h, hmatch⟩
  · cases h

/-- The camera found by name is the first one that matches it. -/
theorem raconfFindCamera_first {m : MediaInfo} {pName : CString} {c : Slot}
    (h : raconfFindCamera m pName = some c) (i : Slot) (hi : i < c) :
    strncasecmpEq pName (m.cameras i).name pName.length = false := by
  have hc := (raconfFindCamera_some h).1
  unfold raconfFindCamera at h
  split at h
  · have hconf : i.val < m.nCameras := lt_trans (Fin.lt_def.mp hi) hc
    exact find?_first m.pairwise_configured h i (by simpa using hconf) hi
  · cases h

/-- A camera is found by name when it is the first configured one that matches. -/
theorem raconfFindCamera_eq_some_iff {m : MediaInfo} {pName : CString} (hname : pName ≠ []) {c : Slot} :
    raconfFindCamera m pName = some c ↔ c.val < m.nCameras ∧
      strncasecmpEq pName (m.cameras c).name pName.length = true ∧
      ∀ i < c, i.val < m.nCameras → strncasecmpEq pName (m.cameras i).name pName.length = false := by
  rw [raconfFindCamera, if_pos (List.length_pos_of_ne_nil hname),
    find?_eq_some_iff_first m.pairwise_configured]
  simp only [MediaInfo.mem_configured]
  refine and_congr_right fun _ => and_congr_right fun _ => ?_
  exact ⟨fun h i hi hconf => h i hconf hi, fun h i hconf hi => h i hi hconf⟩

/-- A camera matches its own name as a message carries it, without the padding. -/
theorem strncasecmpEq_padUnderscores (name : CString) (size : ℕ) :
    strncasecmpEq name (padUnderscores name size) name.length = true := by
  simp [strncasecmpEq, padUnderscores]

end RecordingAgent.Reagent
