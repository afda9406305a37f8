import RecordingAgent.Reagent.Handled
import RecordingAgent.Reagent.StatusStatements
import RecordingAgent.Reagent.StatusTruth

/-!
# The ranges of the run-time values

The configuration is read into fields of a few characters, and the messages have the picture parameters in small
numbers. So in every state the picture parameters have at most three characters; the mode and status words have their
low five bits only; and the names of the cameras are padded to their full length.
-/

namespace RecordingAgent.Reagent

open Foundation

/-- The texts of a camera's configuration fit their fields. -/
structure CamConfig.InRange (c : CamConfig) : Prop where
  name : nul ∉ c.name
  resolution : c.resolution.length ≤ 3
  compression : c.compression.length ≤ 3
  frameRate : c.frameRate.length ≤ 3

/-- The texts of a configuration fit their fields. -/
structure Config.InRange (cfg : Config) : Prop where
  locoId : cfg.locoId.length ≤ 32 ∧ nul ∉ cfg.locoId
  cameras : ∀ i, (cfg.cameras i).InRange

/-- What an event brings fits its field. -/
def Event.InRange : Event → Prop
  | .cameraSettings d => d.resolution ≤ 999 ∧ d.compression ≤ 999 ∧ d.frameRate ≤ 999
  | .cameraResolution _ resolution => resolution ≤ 999
  | .cameraCompression _ compression => compression ≤ 999
  | .cameraFrameRate _ frameRate => frameRate ≤ 999
  | .locomotiveId name => nul ∉ name
  | .sighup (some cfg) _ => cfg.InRange
  | _ => True

/-- The mode and status words have the low five bits only. -/
structure FlagsInRange (p : CamDef) : Prop where
  mode : p.runtime.recordingModeFlags < 0x20
  status : p.runtime.recordingStatusFlags < 0x20

/-- Picture parameters of at most three characters. -/
def PictureInRange (picture : ℤ × ℤ × ℤ) : Prop :=
  (-99 ≤ picture.1 ∧ picture.1 ≤ 999) ∧ (-99 ≤ picture.2.1 ∧ picture.2.1 ≤ 999) ∧ -99 ≤ picture.2.2 ∧ picture.2.2 ≤ 999

/-- The name is padded to its full length. -/
def NamePadded (name : CString) : Prop := name.length = cameraNameLength ∧ nul ∉ name

/-- The values of a media record which are read or set by messages are in their ranges. -/
structure MediaInfo.InRange (m : MediaInfo) : Prop where
  nCameras : m.nCameras ≤ maxCams
  names : ∀ c : Slot, c.val < m.nCameras → NamePadded (m.cameras c).name
  pictures : ∀ c, PictureInRange (m.cameras c).runtime.picture
  locoId : m.locoId.length ≤ 32 ∧ nul ∉ m.locoId

/-- The values of the run-time state are in their ranges. -/
structure Agent.InRange (s : Agent) : Prop where
  media : s.media.InRange
  flags : ∀ c, FlagsInRange (s.cam c)

theorem Agent.InRange.runtime {s : Agent} (h : s.InRange) (c : Slot) : (s.cam c).runtime.InRange :=
  have hpicture := h.media.pictures c
  ⟨hpicture.1, hpicture.2.1, hpicture.2.2, (h.flags c).mode, (h.flags c).status⟩

/-! ## Numbers of three characters -/

/-- A number that is read from three characters has at most three digits, or two behind a sign. -/
theorem atoi_range {text : CString} (h : text.length ≤ 3) : -99 ≤ atoi text ∧ atoi text ≤ 999 := by
  have hvalue : ∀ {digits : CString} {k : ℕ}, digits.length ≤ k →
      decimalValue (digits.takeWhile Char.isDigit) < 10 ^ k := by
    intro digits k hk
    have hlength := (List.takeWhile_prefix (p := Char.isDigit) (l := digits)).length_le
    exact (decimalValue_lt fun c hc => List.mem_takeWhile_imp hc).trans_le
      (Nat.pow_le_pow_right (by decide) (hlength.trans hk))
  have hshort := (List.dropWhile_suffix (l := text) Char.isWhitespace).length_le.trans h
  unfold atoi
  split
  · rename_i rest heq
    rw [heq, List.length_cons] at hshort
    have hdigits := @hvalue rest 2 (by omega)
    omega
  · rename_i rest heq
    rw [heq, List.length_cons] at hshort
    have hdigits := @hvalue rest 2 (by omega)
    omega
  · have hdigits := hvalue hshort
    omega

/-! ## The mode and status words -/

theorem flags_and_lt {f : Flags} (h : f < 0x20) (g : Flags) : f &&& g < 0x20 := by
  have hsmall : f.toNat < 32 := h
  have hand : f.toNat &&& g.toNat ≤ f.toNat := Nat.and_le_left
  rw [BitVec.lt_def, BitVec.toNat_and]
  exact hand.trans_lt hsmall

theorem flags_or_lt {f g : Flags} (hf : f < 0x20) (hg : g < 0x20) : f ||| g < 0x20 := by
  have hf' : f.toNat < 2 ^ 5 := hf
  have hg' : g.toNat < 2 ^ 5 := hg
  rw [BitVec.lt_def, BitVec.toNat_or]
  exact Nat.or_lt_two_pow hf' hg'

theorem recordingMode_lt {p : CamDef} (h : p.runtime.recordingModeFlags < 0x20) : recordingMode p < 0x20 := by
  obtain ⟨hchmVideo, hchmAudio, hssdVideo, hssdAudio, hnoChm⟩ : doRecordChmVideo < 0x20 ∧ doRecordChmAudio < 0x20 ∧
      doRecordSsdVideo < 0x20 ∧ doRecordSsdAudio < 0x20 ∧ dontUseChm < 0x20 := by decide
  unfold recordingMode
  dsimp only
  split_ifs
  · exact flags_or_lt (flags_or_lt (flags_or_lt (flags_or_lt h hchmVideo) hchmAudio) hssdVideo) hssdAudio
  · exact flags_or_lt (flags_or_lt (flags_or_lt h hnoChm) hssdVideo) hssdAudio
  · exact flags_or_lt (flags_or_lt h hchmVideo) hssdVideo
  · exact flags_or_lt (flags_or_lt h hnoChm) hssdVideo

theorem launchMode_lt (rssdReady : Bool) {p : CamDef} (h : p.runtime.recordingModeFlags < 0x20) :
    launchMode rssdReady p < 0x20 := by
  unfold launchMode
  split
  · exact flags_and_lt (recordingMode_lt h) _
  · exact recordingMode_lt h

theorem recordingStatus_lt (mode : Flags) : recordingStatus mode < 0x20 := by
  have hwords : ∀ f ∈ statusWords, f < 0x20 := by
    rw [forall_statusWords]
    decide
  exact hwords _ (recordingStatus_mem mode)

theorem settingsMode_lt (d : CameraSettings) {mode : Flags} (h : mode < 0x20) : settingsMode d mode < 0x20 := by
  have haudio : ∀ n, audioMode n mode < 0x20 := by
    intro n
    unfold audioMode
    split_ifs
    · exact flags_and_lt h _
    · exact flags_or_lt h (by decide)
    · exact h
  rw [settingsMode_eq, chmMode]
  split_ifs
  · exact flags_and_lt (haudio _) _
  · exact flags_or_lt (haudio _) (by decide)
  · exact haudio _

theorem readyMode_lt (p : CamDef) (chmReady rssdReady : Bool) : readyMode p chmReady rssdReady < 0x20 := by
  unfold readyMode
  cases chmReady <;> cases rssdReady <;> cases str2bool p.doAudio <;> decide

theorem dropUnready_lt (chmReady rssdReady : Bool) {f : Flags} (h : f < 0x20) :
    dropUnready chmReady rssdReady f < 0x20 := by
  unfold dropUnready
  cases chmReady <;> cases rssdReady
  · exact flags_and_lt (flags_and_lt h _) _
  · exact flags_and_lt h _
  · exact flags_and_lt h _
  · exact h

namespace FlagsInRange

variable {p p' : CamDef}

theorem of_zero (hmode : p.runtime.recordingModeFlags = 0) (hstatus : p.runtime.recordingStatusFlags = 0) :
    FlagsInRange p := by
  constructor
  · rw [hmode]
    decide
  · rw [hstatus]
    decide

theorem adjusted {chmReady rssdReady : Bool} {launches : Flags → Prop}
    (hstep : Adjusted chmReady rssdReady launches p p') (h : FlagsInRange p) : FlagsInRange p' := by
  cases hstep with
  | aside hsame => exact ⟨hsame.recordingModeFlags ▸ h.mode, hsame.recordingStatusFlags ▸ h.status⟩
  | stopped => exact ⟨h.mode, flags_and_lt (flags_and_lt h.status _) _⟩
  | paused => exact ⟨show (0 : Flags) < 0x20 by decide, h.status⟩
  | resumed => exact ⟨h.mode, h.status⟩
  | commanded => exact ⟨recordingMode_lt h.mode, h.status⟩
  | limited => exact ⟨launchMode_lt _ h.mode, h.status⟩
  | launched => exact ⟨launchMode_lt _ h.mode, recordingStatus_lt _⟩

theorem readyCamera (h : FlagsInRange p) (chmReady rssdReady : Bool) :
    FlagsInRange (Agent.readyCamera chmReady rssdReady p) := by
  unfold Agent.readyCamera
  constructor
  · dsimp only
    split
    · exact readyMode_lt _ _ _
    · exact h.mode
  · dsimp only
    split
    · exact recordingStatus_lt _
    · exact h.status

theorem restored {old : Slot → CamDef} (hold : ∀ j, FlagsInRange (old j)) (h : Fresh p) :
    FlagsInRange (Reagent.restored old p) := by
  have hfresh : FlagsInRange p := of_zero h.recordingModeFlags h.recordingStatusFlags
  exact restored_of_cases hfresh (fun j _ _ _ => ⟨(hold j).mode, (hold j).status⟩)
    (fun _ => ⟨hfresh.mode, flags_and_lt (flags_and_lt hfresh.status _) _⟩) fun _ => ⟨hfresh.mode, hfresh.status⟩

end FlagsInRange

/-! ## Every step -/

theorem namePadded_init {c : CamConfig} (h : c.InRange) : NamePadded c.init.name := by
  refine ⟨?_, ?_⟩
  · have hlength := c.name_length
    change (padUnderscores c.name cameraNameLength).length = cameraNameLength
    rw [padUnderscores, List.length_append, List.length_replicate, cameraNameLength]
    omega
  · intro hnul
    rcases List.mem_append.mp hnul with hname | hpad
    · exact h.name hname
    · exact absurd (List.eq_of_mem_replicate hpad) (by decide)

theorem padUnderscores_inRange {text : CString} {size : ℕ} (hsize : size ≤ 32) (hlength : text.length ≤ 32)
    (hnul : nul ∉ text) : (padUnderscores text size).length ≤ 32 ∧ nul ∉ padUnderscores text size := by
  refine ⟨?_, fun h => ?_⟩
  · rw [padUnderscores, List.length_append, List.length_replicate]
    omega
  · rcases List.mem_append.mp h with htext | hpad
    · exact hnul htext
    · exact absurd (List.eq_of_mem_replicate hpad) (by decide)

theorem pictureInRange_zero : PictureInRange (0, 0, 0) := ⟨by decide, by decide, by decide⟩

/-- The values of a configuration that has just been read are in their ranges. -/
theorem raconfInit_inRange {cfg : Config} (h : cfg.InRange) (chmReady rssdReady : Bool) (sock : Option ℕ) :
    (raconfInit cfg chmReady rssdReady sock).InRange where
  nCameras := (List.takeWhile_prefix _).length_le.trans (le_of_eq List.length_finRange)
  names c hc := by
    have hconfigured : c.val < cfg.nCameras := hc
    change NamePadded (if c.val < cfg.nCameras then (cfg.cameras c).init else (cfg.cameras c).raw).name
    rw [if_pos hconfigured]
    exact namePadded_init (h.cameras c)
  pictures c := by
    change PictureInRange (if c.val < cfg.nCameras then (cfg.cameras c).init else (cfg.cameras c).raw).runtime.picture
    split
    · have hcamera := h.cameras c
      exact ⟨atoi_range hcamera.resolution, atoi_range hcamera.compression, atoi_range hcamera.frameRate⟩
    · exact pictureInRange_zero
  locoId := by
    have hsize : maxLocoIdSize ≤ 32 := by decide
    change List.length (if cfg.nCameras = 0 then cfg.locoId else padUnderscores cfg.locoId maxLocoIdSize) ≤ 32 ∧
      nul ∉ (if cfg.nCameras = 0 then cfg.locoId else padUnderscores cfg.locoId maxLocoIdSize)
    split
    · exact h.locoId
    · exact padUnderscores_inRange hsize h.locoId.1 h.locoId.2

namespace Agent

theorem inRange_start {cfg : Config} (h : cfg.InRange) (chmReady rssdReady opens : Bool) :
    (start cfg chmReady rssdReady opens).InRange := by
  refine ⟨raconfInit_inRange h _ _ _, fun c => ?_⟩
  change FlagsInRange (if c.val < cfg.nCameras then (cfg.cameras c).init else (cfg.cameras c).raw)
  split
  · exact .of_zero rfl rfl
  · exact .of_zero rfl rfl

theorem reread_inRange (s : Agent) {config : Option Config} (h : ∀ cfg ∈ config, cfg.InRange) (opens : Bool) :
    (s.reread config opens).media.InRange := by
  cases config with
  | none =>
    exact ⟨Nat.zero_le _, fun c hc => absurd hc (Nat.not_lt_zero _), fun c => pictureInRange_zero, Nat.zero_le 32,
      List.not_mem_nil⟩
  | some cfg =>
    obtain ⟨hcount, hnames, hpictures, hloco⟩ := raconfInit_inRange (h cfg rfl) s.media.isChmReady s.media.isRssdReady
      (s.camonInit opens).1
    exact ⟨hcount, hnames, hpictures, hloco⟩

/-- What the names of the cameras and their words are while these are kept and those are in their ranges. -/
theorem InRange.cameras {s s' : Agent} (h : s.InRange) (hcount : s'.media.nCameras = s.media.nCameras)
    (hcams : ∀ c, (s'.cam c).name = (s.cam c).name ∧ FlagsInRange (s'.cam c)) :
    s'.media.nCameras ≤ maxCams ∧ (∀ c : Slot, c.val < s'.media.nCameras → NamePadded (s'.cam c).name) ∧
      ∀ c, FlagsInRange (s'.cam c) := by
  refine ⟨hcount ▸ h.media.nCameras, fun c hc => ?_, fun c => (hcams c).2⟩
  rw [(hcams c).1]
  exact h.media.names c (hcount ▸ hc)

theorem InRange.evolved {s s' : Agent} (h : s.InRange) (hall : AllEvolve s s') :
    s'.media.nCameras ≤ maxCams ∧ (∀ c : Slot, c.val < s'.media.nCameras → NamePadded (s'.cam c).name) ∧
      ∀ c, FlagsInRange (s'.cam c) := by
  have hstep : ∀ d p p', Adjusted s.media.isChmReady s.media.isRssdReady (LaunchedSince d s s') p p' →
      p.name = (s.cam d).name ∧ FlagsInRange p → p'.name = (s.cam d).name ∧ FlagsInRange p' := by
    intro d p p' hstep hp
    refine ⟨?_, hp.2.adjusted hstep⟩
    cases hstep with
    | aside hsame => exact hsame.name.trans hp.1
    | _ => exact hp.1
  exact h.cameras hall.nCameras (hall.invariant (J := fun d p => p.name = (s.cam d).name ∧ FlagsInRange p)
    (fun d => ⟨rfl, h.flags d⟩) hstep).1

/-- The words of all cameras and the names stay in their ranges, whatever the event. -/
theorem InRange.handle_cameras {s : Agent} (h : s.InRange) {e : Event} (he : e.InRange) :
    (s.handle e).media.nCameras ≤ maxCams ∧
      (∀ c : Slot, c.val < (s.handle e).media.nCameras → NamePadded ((s.handle e).cam c).name) ∧
      ∀ c, FlagsInRange ((s.handle e).cam c) := by
  cases s.handle_handled e with
  | evolved _ hall => exact h.evolved hall
  | settings d c _ _ hrewrites =>
    refine h.cameras hrewrites.nCameras fun i => ?_
    rw [hrewrites.cam]
    split
    · exact ⟨rfl, settingsMode_lt d (h.flags i).mode, (h.flags i).status⟩
    · exact ⟨rfl, h.flags i⟩
  | ready chm rssd _ hrewrites =>
    refine h.cameras hrewrites.nCameras fun i => ?_
    rw [hrewrites.cam]
    split
    · exact ⟨rfl, (h.flags i).readyCamera _ _⟩
    · exact ⟨rfl, h.flags i⟩
  | shutdown f _ hrewrites =>
    refine h.cameras hrewrites.nCameras fun i => ?_
    rw [hrewrites.cam]
    split
    · exact ⟨rfl, dropUnready_lt _ _ (h.flags i).mode, dropUnready_lt _ _ (h.flags i).status⟩
    · exact ⟨rfl, h.flags i⟩
  | sighup config opens heq hcam _ _ _ hcount =>
    have hread : (s.reread config opens).media.InRange := by
      refine s.reread_inRange (fun cfg hcfg => ?_) opens
      rw [heq, Option.mem_def.mp hcfg] at he
      exact he
    refine ⟨hcount ▸ hread.nCameras, fun c hc => ?_, fun c => hcam c ▸ .restored h.flags (s.reread_fresh config opens c)⟩
    have hname : (restored s.media.cameras ((s.reread config opens).cam c)).name = ((s.reread config opens).cam c).name :=
      restored_of_cases (P := fun p => p.name = ((s.reread config opens).cam c).name) rfl (fun _ _ _ _ => rfl)
        (fun _ => rfl) fun _ => rfl
    rw [hcam, hname]
    exact hread.names c (hcount ▸ hc)

/-- The picture parameters and the locomotive identifier of this state are in their ranges. -/
def PicturesInRange (s : Agent) : Prop :=
  (∀ c, PictureInRange (s.cam c).runtime.picture) ∧ s.media.locoId.length ≤ 32 ∧ nul ∉ s.media.locoId

theorem PicturesInRange.kept {s s' : Agent} (h : s.PicturesInRange) (hkept : PictureKept s s') : s'.PicturesInRange := by
  refine ⟨fun c => ?_, ?_⟩
  · rw [hkept.picture]
    exact h.1 c
  · rw [hkept.locoId]
    exact h.2

theorem PicturesInRange.modifyRuntime {s : Agent} (h : s.PicturesInRange) (c : Slot) {f : CamRuntime → CamRuntime}
    (hf : PictureInRange (f (s.cam c).runtime).picture) : (s.modifyRuntime c f).PicturesInRange := by
  refine ⟨fun d => ?_, h.2⟩
  by_cases hd : d = c
  · rw [hd, cam_modifyRuntime_self]
    exact hf
  · rw [cam_modifyRuntime_of_ne s c hd]
    exact h.1 d

theorem PicturesInRange.changeParameter {s : Agent} (h : s.PicturesInRange) (camera : CString)
    {set : CamRuntime → CamRuntime} (hset : ∀ r, PictureInRange r.picture → PictureInRange (set r).picture)
    (error : VideoApplicationError) : (s.changeParameter camera set error).PicturesInRange := by
  unfold Agent.changeParameter
  split
  · exact h
  · rename_i c _
    have hreset := (h.modifyRuntime c (hset _ (h.1 c))).kept (.resetCameraStream _ (camera.take cameraNameLength))
    dsimp only
    split
    · exact hreset.kept (.of_media rfl)
    · exact hreset

theorem PicturesInRange.mapCameras {s : Agent} (h : s.PicturesInRange) {f : CamDef → CamDef}
    (hf : ∀ p, (f p).runtime.picture = p.runtime.picture) : (s.mapCameras f).PicturesInRange := by
  refine ⟨fun c => ?_, h.2⟩
  change PictureInRange (if c.val < s.media.nCameras then f (s.cam c) else s.cam c).runtime.picture
  split
  · rw [hf]
    exact h.1 c
  · exact h.1 c

theorem number_inRange {n : ℕ} (h : n ≤ 999) : -99 ≤ (n : ℤ) ∧ (n : ℤ) ≤ 999 := by omega

/-- The picture parameters and the locomotive identifier stay in their ranges, whatever the event. -/
theorem PicturesInRange.handle {s : Agent} (h : s.PicturesInRange) {e : Event} (he : e.InRange) :
    (s.handle e).PicturesInRange := by
  cases e with
  | cameraSettings d =>
    obtain ⟨hresolution, hcompression, hframeRate⟩ := he
    change (s.msgcbCameraSettings d).PicturesInRange
    unfold msgcbCameraSettings
    split
    · rename_i c _
      exact h.modifyRuntime c ⟨number_inRange hresolution, number_inRange hcompression, number_inRange hframeRate⟩
    · exact h.kept (.of_media rfl)
  | cameraResolution camera v =>
    refine h.changeParameter camera (fun r hr => ?_) _
    exact ⟨number_inRange he, hr.2.1, hr.2.2⟩
  | cameraCompression camera v =>
    refine h.changeParameter camera (fun r hr => ?_) _
    exact ⟨hr.1, number_inRange he, hr.2.2⟩
  | cameraFrameRate camera v =>
    refine h.changeParameter camera (fun r hr => ?_) _
    exact ⟨hr.1, hr.2.1, number_inRange he⟩
  | cameraRecordPause camera record => exact h.kept (.handleCameraRecordPause s camera record)
  | readyStatus chm rssd =>
    have hmapped := @PicturesInRange.mapCameras (s.setReady (chm ≠ 0) (rssd ≠ 0)) h
      (readyCamera (chm ≠ 0) (rssd ≠ 0)) fun p => rfl
    exact hmapped.kept (.of_media rfl)
  | shutdown f =>
    cases f with
    | chm => exact @PicturesInRange.mapCameras (s.setReady false s.media.isRssdReady) h _ fun p => rfl
    | removableSsd => exact @PicturesInRange.mapCameras (s.setReady s.media.isChmReady false) h _ fun p => rfl
    | all =>
      have hready : (s.setReady false false).PicturesInRange := h
      exact @PicturesInRange.mapCameras
        { s.setReady false false with statics := { s.statics with shutdownInProcess := true } } hready _ fun p => rfl
    | other => exact h
  | locomotiveId name =>
    have hlength : (name.take maxLocoIdSize).length ≤ 32 := (List.length_take_le _ _).trans (by decide)
    have hnul : nul ∉ name.take maxLocoIdSize := fun hmem => he (List.mem_of_mem_take hmem)
    exact ⟨h.1, padUnderscores_inRange (by decide) hlength hnul⟩
  | otherMessage => exact h
  | timer answers arp => exact (h.kept (.camonPass s answers arp)).kept (.restartPass _)
  | workerDeath pid => exact h.kept (.of_media rfl)
  | sighup config opens =>
    have hread : (s.reread config opens).media.InRange := by
      refine s.reread_inRange (fun cfg hcfg => ?_) opens
      rw [Option.mem_def.mp hcfg] at he
      exact he
    exact @PicturesInRange.kept (s.reread config opens) _ ⟨hread.pictures, hread.locoId⟩ (.handleSighup s config opens)

theorem InRange.step {s : Agent} (h : s.InRange) {i : Input} (hi : i.event.InRange) : (s.step i).InRange := by
  unfold Agent.step
  split
  · have hs : (s.withAnswers i.forks i.deaths).InRange := ⟨h.media, h.flags⟩
    obtain ⟨hcount, hnames, hflags⟩ := hs.handle_cameras hi
    have hpictures := @PicturesInRange.handle _ ⟨hs.media.pictures, hs.media.locoId⟩ _ hi
    exact ⟨⟨hcount, hnames, hpictures.1, hpictures.2⟩, hflags⟩
  · exact h

/-- In every run from a configuration whose texts fit their fields, with inputs that fit theirs, the values are in their
ranges. -/
theorem run_inRange {cfg : Config} (hcfg : cfg.InRange) (chmReady rssdReady opens : Bool) {is : List Input}
    (his : ∀ i ∈ is, i.event.InRange) : (run step (start cfg chmReady rssdReady opens) is).InRange :=
  foldl_invariant (inRange_start hcfg chmReady rssdReady opens) fun _ i hi h => h.step (his i hi)

/-- The monitor half of a pass leaves the values in their ranges. -/
theorem InRange.camonPass {s : Agent} (h : s.InRange) (answers : List CamonStatus) (arp : Slot → Option CString) :
    (s.camonPass answers arp).InRange := by
  have hall : AllEvolve s (s.camonPass answers arp) :=
    camonPass_of_evolves (fun _ _ _ ht hs => hs.evolves ht) (.refl s) answers arp
  obtain ⟨hcount, hnames, hflags⟩ := h.evolved hall
  have hpictures := @PicturesInRange.kept s _ ⟨h.media.pictures, h.media.locoId⟩ (.camonPass s answers arp)
  exact ⟨⟨hcount, hnames, hpictures.1, hpictures.2⟩, hflags⟩

end Agent

end RecordingAgent.Reagent
