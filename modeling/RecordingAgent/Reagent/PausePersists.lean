import RecordingAgent.Reagent.Drives

/-!
# Whether a commanded pause persists

What keeps a paused camera from being started is its mode word, which is zero after a pause
that found the camera recording. `PauseSafe` names the inputs which leave it zero: settings
which do not switch audio or the CHM back on, parameter changes whose stream reset cannot
start the camera, no further record command, and no ready status while the camera is online
and not marked as paused. A re-read configuration forgets the paused mark, so the last
condition is about the state in which the ready status arrives.
-/

namespace RecordingAgent.Reagent

open Foundation

namespace Agent

/-- No earlier slot has a name the camera could be taken for when it is re-attached. -/
def NameFirst (s : Agent) (c : Slot) : Prop :=
  ∀ j, j < c → strncmpEq (s.cam c).name (s.cam j).name (s.cam c).name.length = false

/-- The camera is not commanded to record. -/
structure Quiet (s : Agent) (c : Slot) : Prop where
  mode : (s.cam c).runtime.recordingModeFlags = 0
  nameFirst : s.NameFirst c

/-- The camera is not online and assigned, or commands are refused, or no drive is ready. -/
def CannotReset (s : Agent) (c : Slot) : Prop :=
  ¬ ((s.cam c).runtime.isOnline = true ∧ (s.cam c).runtime.isAssigned = true ∧
    s.statics.shutdownInProcess = false ∧ (s.media.isChmReady = true ∨ s.media.isRssdReady = true))

/-- The re-read configuration has the names of the current one in the same slots. -/
def SameNames (s : Agent) (cfg : Config) : Prop :=
  ∀ i, ((raconfInit cfg false false none).cameras i).name = (s.cam i).name

/-- The input does not undo a pause of the camera. -/
def PauseSafe (c : Slot) (s : Agent) (i : Input) : Prop :=
  match i.event with
  | .cameraSettings d =>
    raconfFindCamera s.media (d.camera.take cameraNameLength) = some c →
      d.noAudioRecording ≠ 0 ∧ d.noChmRecording ≠ 0
  | .cameraResolution camera _ | .cameraCompression camera _ | .cameraFrameRate camera _ =>
    raconfFindCamera s.media (camera.take cameraNameLength) = some c → s.CannotReset c
  | .cameraRecordPause camera record =>
    raconfFindCamera s.media (camera.take cameraNameLength) = some c → record = 0
  | .readyStatus chm rssd =>
    (s.cam c).runtime.isOnline = true → (s.cam c).runtime.commandedPaused = false → chm = 0 ∧ rssd = 0
  | .sighup (some cfg) _ => s.SameNames cfg
  | _ => True

instance (s : Agent) (c : Slot) : Decidable (s.CannotReset c) := by unfold CannotReset; infer_instance

instance (s : Agent) (cfg : Config) : Decidable (s.SameNames cfg) := by unfold SameNames; infer_instance

instance (c : Slot) (s : Agent) (i : Input) : Decidable (s.PauseSafe c i) := by
  unfold PauseSafe; split <;> infer_instance

/-- A camera found by name is the first whose name the lookup could mean. -/
theorem nameFirst_of_find {s : Agent} {name : CString} {c : Slot}
    (h : raconfFindCamera s.media name = some c) : s.NameFirst c := by
  intro j hj
  by_contra hmatch
  have hfirst := raconfFindCamera_first h j hj
  have hfound := (raconfFindCamera_some h).2
  have hother := strncasecmpEq_of_strncmpEq (Bool.of_not_eq_false hmatch) hfound
  exact Bool.false_ne_true (hfirst.symm.trans hother)

/-- Names which do not change keep the camera first. -/
theorem NameFirst.congr {s t : Agent} {c : Slot} (h : s.NameFirst c)
    (hnames : ∀ i, (t.cam i).name = (s.cam i).name) : t.NameFirst c := by
  intro j hj
  rw [hnames c, hnames j]
  exact h j hj

/-- An operation on another camera leaves a camera quiet. -/
theorem Quiet.frame {s t : Agent} {c d : Slot} (h : s.Quiet c) (hframe : Frame d s t)
    (hmode : d = c → (t.cam c).runtime.recordingModeFlags = 0) : t.Quiet c := by
  refine ⟨?_, h.nameFirst.congr hframe.names⟩
  by_cases hd : d = c
  · exact hmode hd
  · rw [hframe.cam c (Ne.symm hd)]
    exact h.mode

/-- Stopping a camera leaves its mode word. -/
theorem stopRecordingProcess_mode (s : Agent) (c : Slot) :
    ((s.stopRecordingProcess c).2.cam c).runtime.recordingModeFlags =
      (s.cam c).runtime.recordingModeFlags := by
  by_cases h : (s.cam c).workerPid = 0
  · rw [s.stopRecordingProcess_of_idle c h]
  · rw [(s.stopRecordingProcess_of_worker c h).2.1]
    rfl

/-- Going offline leaves the mode word. -/
theorem reflectOffline_mode (s : Agent) (c : Slot) :
    ((s.reflectOffline c).cam c).runtime.recordingModeFlags = (s.cam c).runtime.recordingModeFlags := by
  unfold reflectOffline
  split
  · dsimp only
    split
    · have hcam := s.checkWorkerStatus_cam (s.cam c).workerPid c
      split <;> rename_i heq <;> rw [heq] at hcam
      · rw [cameraRecordingJustStopped_cam, cam_modifyCam_self, hcam]
        rfl
      · rw [stopRecordingProcess_mode, hcam]
    · rw [cam_modifyRuntime_self]
      rfl
  · rfl

/-- Reflecting the online status leaves a mode word which is zero. -/
theorem reflectCameraOnlineStatus_mode {s : Agent} {c : Slot}
    (h : (s.cam c).runtime.recordingModeFlags = 0) (isAlive : Bool) :
    ((s.reflectCameraOnlineStatus c isAlive).2.cam c).runtime.recordingModeFlags = 0 := by
  have hset : ∀ t : Agent, (t.cam c).runtime.recordingModeFlags = 0 →
      ((t.setOnline c isAlive).cam c).runtime.recordingModeFlags = 0 := by
    intro t ht
    change ((t.modifyRuntime c fun r => { r with isOnline := isAlive }).cam c).runtime.recordingModeFlags = 0
    rw [cam_modifyRuntime_self]
    exact ht
  have honline : ∀ t : Agent, (t.cam c).runtime.recordingModeFlags = 0 →
      ((t.reflectOnline c).cam c).runtime.recordingModeFlags = 0 := by
    intro t ht
    rw [reflectOnline, if_neg (fun hon => hon.2 ht)]
    exact ht
  unfold reflectCameraOnlineStatus
  cases isAlive with
  | true =>
    have hafter := honline (s.setCamonTtl c camonTtlStart) h
    simp only [if_true, Bool.true_eq_false, false_and, if_false]
    split
    · exact h
    · split
      · exact hafter
      · exact hset _ hafter
  | false =>
    have hafter := (s.reflectOffline_mode c).trans h
    simp only [Bool.false_eq_true, if_false, true_and]
    split
    · exact h
    · split
      · exact h
      · split
        · exact hafter
        · exact hset _ hafter

/-- The monitor half leaves a mode word which is zero. -/
theorem reflectProbe_mode {s : Agent} {c : Slot} (h : (s.cam c).runtime.recordingModeFlags = 0)
    (arp : Slot → Option CString) : ((reflectProbe arp s c).cam c).runtime.recordingModeFlags = 0 := by
  unfold reflectProbe
  split
  · split
    · exact reflectCameraOnlineStatus_mode h _
    · have hoffline := reflectCameraOnlineStatus_mode h false
      dsimp only
      split
      · unfold lookupAddress
        dsimp only
        split
        · split
          · rw [cam_modifyCam_self]
            exact hoffline
          · exact hoffline
        · exact hoffline
      · exact hoffline
  · exact h

/-- The monitor half leaves a camera quiet. -/
theorem Quiet.camonPass {s : Agent} {c : Slot} (h : s.Quiet c) (answers : List CamonStatus)
    (arp : Slot → Option CString) : (s.camonPass answers arp).Quiet c := by
  refine camonPass_invariant (I := fun t => t.Quiet c) h (fun t _ _ ht => ⟨ht.mode, ht.nameFirst⟩) ?_
  intro t d _ ht
  refine ht.frame (.reflectProbe (c := d) arp t) ?_
  rintro rfl
  exact reflectProbe_mode ht.mode arp

/-- The restart half leaves a camera quiet. -/
theorem Quiet.restartPass {s : Agent} {c : Slot} (h : s.Quiet c) : s.restartPass.Quiet c := by
  refine restartPass_invariant (I := fun t => t.Quiet c) h (fun t ht => ⟨ht.mode, ht.nameFirst⟩) ?_
  intro t d _ ht
  refine ht.frame (.restartCamera (c := d) t) ?_
  rintro rfl
  rw [restartCamera, if_neg (fun hmode => hmode ht.mode)]
  exact ht.mode

/-- Settings which keep audio and the CHM off leave a mode word of zero. -/
theorem settingsMode_zero {d : CameraSettings} (haudio : d.noAudioRecording ≠ 0)
    (hchm : d.noChmRecording ≠ 0) : settingsMode d 0 = 0 := by
  simp [settingsMode, haudio, hchm]

/-- A command which does not start the camera leaves it quiet. -/
theorem Quiet.handleCameraRecordPause {s : Agent} {c : Slot} (h : s.Quiet c) (camera : CString)
    (record : ℕ) (hstart : raconfFindCamera s.media (camera.take cameraNameLength) = some c →
      ¬ s.StartCommanded c record) : (s.handleCameraRecordPause camera record).2.Quiet c := by
  rcases s.handleCameraRecordPause_cases camera record with
    hidle | ⟨d, hfind, ⟨-, heq⟩ | ⟨hcommanded, heq⟩⟩
  · exact ⟨by rw [hidle.cam]; exact h.mode, h.nameFirst.congr fun i => by rw [hidle.cam]⟩
  · rw [heq]
    refine h.frame ((Frame.modifyRuntime s paused).trans (Frame.stopRecordingProcess (c := d) _)) ?_
    rintro rfl
    rw [stopRecordingProcess_mode, cam_modifyRuntime_self]
    rfl
  · rw [heq]
    refine h.frame ((Frame.modifyRuntime s resumed).trans (Frame.startRecordingProcess (c := d) _)) ?_
    rintro rfl
    exact absurd hcommanded (hstart hfind)

/-- A command changes no name and no configured slot. -/
theorem handleCameraRecordPause_names (s : Agent) (camera : CString) (record : ℕ) :
    (s.handleCameraRecordPause camera record).2.media.nCameras = s.media.nCameras ∧
      ∀ i, ((s.handleCameraRecordPause camera record).2.cam i).name = (s.cam i).name := by
  rcases s.handleCameraRecordPause_cases camera record with hidle | ⟨d, -, ⟨-, heq⟩ | ⟨-, heq⟩⟩
  · exact ⟨by rw [hidle.media], fun i => by rw [hidle.cam]⟩
  · rw [heq]
    have h := (Frame.modifyRuntime s paused).trans (Frame.stopRecordingProcess (c := d) _)
    exact ⟨h.nCameras, h.names⟩
  · rw [heq]
    have h := (Frame.modifyRuntime s resumed).trans (Frame.startRecordingProcess (c := d) _)
    exact ⟨h.nCameras, h.names⟩

/-- A camera which cannot be reset is not started by a command. -/
theorem CannotReset.not_startCommanded {s : Agent} {c : Slot} (h : s.CannotReset c) (record : ℕ) :
    ¬ s.StartCommanded c record :=
  fun ⟨hshutdown, honline, hassigned, _, _, hdrives⟩ => h ⟨honline, hassigned, hshutdown, hdrives⟩

/-- A camera which cannot be reset cannot be reset after a pause either. -/
theorem CannotReset.pause {s : Agent} {c : Slot} (h : s.CannotReset c) (camera : CString) :
    (s.handleCameraRecordPause camera 0).2.CannotReset c := by
  have hdrives := s.handleCameraRecordPause_drives camera 0
  rintro ⟨honline, hassigned, hshutdown, hready⟩
  rw [hdrives.isChmReady, hdrives.isRssdReady] at hready
  rw [hdrives.shutdown] at hshutdown
  refine h ⟨?_, ?_, hshutdown, hready⟩
  all_goals
    rcases s.handleCameraRecordPause_cases camera 0 with hidle | ⟨d, hfind, ⟨hpause, heq⟩ | ⟨hstart, -⟩⟩
    · rw [← hidle.cam c]; assumption
    · have hframe := (Frame.modifyRuntime s paused).trans (Frame.stopRecordingProcess (c := d) _)
      by_cases hd : d = c
      · subst hd
        first | exact hpause.2.1 | exact hpause.2.2.1
      · rw [heq, hframe.cam c (Ne.symm hd)] at honline hassigned
        assumption
    · exact absurd rfl hstart.2.2.2.2.1

/-- A stream reset of a camera which cannot be reset leaves the camera quiet and starts others only. -/
theorem Quiet.resetCameraStream {s : Agent} {c : Slot} (h : s.Quiet c) (camera : CString)
    (hreset : raconfFindCamera s.media (camera.take cameraNameLength) = some c → s.CannotReset c) :
    (s.resetCameraStream camera).2.Quiet c ∧
      ∀ p ∈ recordStarts (s.handleCameraRecordPause (camera.take cameraNameLength) 0).2
        (camera.take cameraNameLength) 1, p.2 ≠ c := by
  obtain ⟨hn, hnames⟩ := s.handleCameraRecordPause_names (camera.take cameraNameLength) 0
  have hpaused := h.handleCameraRecordPause (camera.take cameraNameLength) 0
    fun _ hstart => absurd rfl hstart.2.2.2.2.1
  have hno : raconfFindCamera (s.handleCameraRecordPause (camera.take cameraNameLength) 0).2.media
      ((camera.take cameraNameLength).take cameraNameLength) = some c →
      ¬ (s.handleCameraRecordPause (camera.take cameraNameLength) 0).2.StartCommanded c 1 := by
    rw [raconfFindCamera_congr hn hnames, List.take_take, min_self]
    exact fun hfind => ((hreset hfind).pause _).not_startCommanded 1
  constructor
  · unfold Agent.resetCameraStream
    dsimp only
    split
    · exact hpaused
    · split <;> exact hpaused.handleCameraRecordPause _ 1 hno
  · rintro p hp rfl
    exact hno (mem_recordStarts hp).1 (mem_recordStarts hp).2

/-- A parameter change of a camera which cannot be reset leaves the camera quiet. -/
theorem Quiet.changeParameter {s : Agent} {c : Slot} (h : s.Quiet c) (camera : CString)
    (set : CamRuntime → CamRuntime) (error : VideoApplicationError)
    (hset : ∀ r, (set r).recordingModeFlags = r.recordingModeFlags ∧ (set r).isOnline = r.isOnline ∧
      (set r).isAssigned = r.isAssigned)
    (hreset : raconfFindCamera s.media (camera.take cameraNameLength) = some c → s.CannotReset c) :
    (s.changeParameter camera set error).Quiet c ∧ ∀ p ∈ s.resetStarts camera set, p.2 ≠ c := by
  unfold Agent.changeParameter resetStarts
  cases hfind : raconfFindCamera s.media (camera.take cameraNameLength) with
  | none => exact ⟨h, by simp⟩
  | some d =>
    have hframe : Frame d s (s.modifyRuntime d set) := .modifyRuntime s set
    have hquiet : (s.modifyRuntime d set).Quiet c := by
      refine h.frame hframe ?_
      rintro rfl
      rw [cam_modifyRuntime_self]
      exact (hset _).1.trans h.mode
    have hcannot : d = c → (s.modifyRuntime d set).CannotReset c := by
      rintro rfl
      rw [CannotReset, cam_modifyRuntime_self, (hset _).2.1, (hset _).2.2]
      exact hreset hfind
    have hfind' : raconfFindCamera (s.modifyRuntime d set).media (camera.take cameraNameLength) = some d :=
      (raconfFindCamera_congr hframe.nCameras hframe.names _).trans hfind
    have hresult := hquiet.resetCameraStream (camera.take cameraNameLength) (by
      rw [List.take_take, min_self, hfind']
      intro hd
      exact hcannot (Option.some.inj hd))
    rw [List.take_take, min_self] at hresult
    refine ⟨?_, hresult.2⟩
    dsimp only
    split
    · exact ⟨hresult.1.mode, hresult.1.nameFirst⟩
    · exact hresult.1

/-- Restoring a quiet camera from the saved ones leaves its mode word zero. -/
theorem restoreCamera_mode {old : Slot → CamDef} {s : Agent} {c : Slot}
    (hold : (old c).runtime.recordingModeFlags = 0) (hmode : (s.cam c).runtime.recordingModeFlags = 0)
    (hsaved : (s.cam c).name ≠ [] → savedCamera old (s.cam c).name = some c) :
    ((restoreCamera old s c).cam c).runtime.recordingModeFlags = 0 := by
  unfold restoreCamera
  split
  · rename_i hname
    rw [hsaved hname]
    change ((s.attachSaved c (old c)).cam c).runtime.recordingModeFlags = 0
    unfold attachSaved
    dsimp only
    split
    · rw [cam_modifyRuntime_self]
      exact hold
    · split
      · rw [stopRecordingProcess_mode, cam_modifyCam_self]
        exact hmode
      · rw [cam_modifyCam_self]
        exact hmode
  · exact hmode

/-- A camera whose name comes first is re-attached to its own saved record. -/
theorem NameFirst.savedCamera {s : Agent} {c : Slot} (h : s.NameFirst c) :
    savedCamera s.media.cameras (s.cam c).name = some c :=
  (find?_eq_some_iff_first pairwise_allSlots).mpr
    ⟨mem_allSlots c, strncmpEq_refl _ _, fun j _ hj => h j hj⟩

/-- Re-reading a configuration with the same names leaves a camera quiet. -/
theorem Quiet.handleSighup {s : Agent} {c : Slot} (h : s.Quiet c) {cfg : Config}
    (hnames : s.SameNames cfg) (opens : Bool) : (s.handleSighup (some cfg) opens).Quiet c := by
  have hsaved := h.nameFirst.savedCamera
  have hreread : ∀ i, ((s.reread (some cfg) opens).cam i).name = (s.cam i).name := by
    intro i
    rw [← hnames i]
    cases opens <;> rfl
  have hmode : ((s.reread (some cfg) opens).cam c).runtime.recordingModeFlags = 0 := by
    have hinit : (if c.val < cfg.nCameras then (cfg.cameras c).init
        else (cfg.cameras c).raw).runtime.recordingModeFlags = 0 := by
      split <;> rfl
    cases opens <;> exact hinit
  unfold Agent.handleSighup
  let I : Agent → Prop := fun t =>
    (t.cam c).runtime.recordingModeFlags = 0 ∧ ∀ i, (t.cam i).name = (s.cam i).name
  have hloop : I (allSlots.foldl (restoreCamera s.media.cameras) (s.reread (some cfg) opens)) := by
    refine foldl_invariant (I := I) ⟨hmode, hreread⟩ ?_
    rintro t i - ⟨htmode, htnames⟩
    have hframe := restoreCamera_frame s.media.cameras t i
    refine ⟨?_, fun j => (hframe.names j).trans (htnames j)⟩
    by_cases hi : i = c
    · subst hi
      exact restoreCamera_mode h.mode htmode fun _ => by rw [htnames, hsaved]
    · rw [hframe.cam c (Ne.symm hi)]
      exact htmode
  exact ⟨hloop.1, h.nameFirst.congr hloop.2⟩

/-- A change of every camera which keeps names and a zero mode word leaves a camera quiet. -/
theorem Quiet.mapCameras {s : Agent} {c : Slot} (h : s.Quiet c) {f : CamDef → CamDef}
    (hname : ∀ p, (f p).name = p.name) (hmode : (f (s.cam c)).runtime.recordingModeFlags = 0) :
    (s.mapCameras f).Quiet c := by
  constructor
  · change (if c.val < s.media.nCameras then f (s.cam c) else s.cam c).runtime.recordingModeFlags = 0
    split
    · exact hmode
    · exact h.mode
  · refine h.nameFirst.congr fun i => ?_
    change (if i.val < s.media.nCameras then f (s.cam i) else s.cam i).name = (s.cam i).name
    split
    · exact hname _
    · rfl

/-- A ready status which finds the camera offline or paused, or reports no drive, leaves it quiet. -/
theorem Quiet.msgcbReadyStatus {s : Agent} {c : Slot} (h : s.Quiet c) {chm rssd : ℕ}
    (hready : (s.cam c).runtime.isOnline = true → (s.cam c).runtime.commandedPaused = false →
      chm = 0 ∧ rssd = 0) : (s.msgcbReadyStatus chm rssd).Quiet c := by
  have hset : (s.setReady (chm ≠ 0) (rssd ≠ 0)).Quiet c := ⟨h.mode, h.nameFirst⟩
  have hmap := hset.mapCameras (f := readyCamera (decide (chm ≠ 0)) (decide (rssd ≠ 0))) (fun _ => rfl) (by
    change (if (s.cam c).runtime.isOnline ∧ (s.cam c).runtime.commandedPaused = false
      then readyMode (s.cam c) (decide (chm ≠ 0)) (decide (rssd ≠ 0))
      else (s.cam c).runtime.recordingModeFlags) = 0
    split
    · rename_i honline
      obtain ⟨rfl, rfl⟩ := hready honline.1 honline.2
      rfl
    · exact h.mode)
  exact ⟨hmap.mode, hmap.nameFirst⟩

/-- A shutdown message leaves a camera quiet. -/
theorem Quiet.msgcbShutdownRec {s : Agent} {c : Slot} (h : s.Quiet c) (f : ShutdownFunction) :
    (s.msgcbShutdownRec f).Quiet c := by
  unfold Agent.msgcbShutdownRec
  split
  · rename_i t hdrives
    have ht : t.Quiet c := by
      cases f with
      | other => cases hdrives
      | _ => obtain rfl := Option.some.inj hdrives; exact ⟨h.mode, h.nameFirst⟩
    refine ht.mapCameras (fun _ => rfl) ?_
    change dropUnready _ _ (t.cam c).runtime.recordingModeFlags = 0
    rw [ht.mode]
    simp [dropUnready]
  · exact h

/-- A settings message which does not switch audio or the CHM on leaves a camera quiet. -/
theorem Quiet.msgcbCameraSettings {s : Agent} {c : Slot} (h : s.Quiet c) {d : CameraSettings}
    (hsettings : raconfFindCamera s.media (d.camera.take cameraNameLength) = some c →
      d.noAudioRecording ≠ 0 ∧ d.noChmRecording ≠ 0) : (s.msgcbCameraSettings d).Quiet c := by
  unfold Agent.msgcbCameraSettings
  split
  · rename_i e hfind
    refine h.frame (.modifyRuntime s _) ?_
    rintro rfl
    obtain ⟨haudio, hchm⟩ := hsettings hfind
    rw [cam_modifyRuntime_self]
    change settingsMode d (s.cam e).runtime.recordingModeFlags = 0
    rw [h.mode, settingsMode_zero haudio hchm]
  · exact ⟨h.mode, h.nameFirst⟩

/-- An input which does not undo the pause leaves the camera quiet and starts other cameras only. -/
theorem Quiet.handle {s : Agent} {c : Slot} (h : s.Quiet c) {i : Input} (hsafe : s.PauseSafe c i)
    (hsighup : ∀ opens, i.event ≠ .sighup none opens) :
    (s.handle i.event).Quiet c ∧ ∀ p ∈ s.startPoints i.event, p.2 ≠ c := by
  unfold PauseSafe at hsafe
  cases he : i.event with
  | cameraSettings d =>
    rw [he] at hsafe
    exact ⟨h.msgcbCameraSettings hsafe, by simp [startPoints]⟩
  | cameraResolution camera v =>
    rw [he] at hsafe
    exact h.changeParameter camera _ _ (fun _ => ⟨rfl, rfl, rfl⟩) hsafe
  | cameraCompression camera v =>
    rw [he] at hsafe
    exact h.changeParameter camera _ _ (fun _ => ⟨rfl, rfl, rfl⟩) hsafe
  | cameraFrameRate camera v =>
    rw [he] at hsafe
    exact h.changeParameter camera _ _ (fun _ => ⟨rfl, rfl, rfl⟩) hsafe
  | cameraRecordPause camera record =>
    rw [he] at hsafe
    have hno : raconfFindCamera s.media (camera.take cameraNameLength) = some c →
        ¬ s.StartCommanded c record := fun hfind hstart => hstart.2.2.2.2.1 (hsafe hfind)
    refine ⟨h.handleCameraRecordPause camera record hno, ?_⟩
    rintro p hp rfl
    exact hno (mem_recordStarts hp).1 (mem_recordStarts hp).2
  | readyStatus chm rssd =>
    rw [he] at hsafe
    exact ⟨h.msgcbReadyStatus hsafe, by simp [startPoints]⟩
  | shutdown f => exact ⟨h.msgcbShutdownRec f, by simp [startPoints]⟩
  | locomotiveId l => exact ⟨⟨h.mode, h.nameFirst⟩, by simp [startPoints]⟩
  | otherMessage => exact ⟨h, by simp [startPoints]⟩
  | timer answers arp =>
    have hpass := h.camonPass answers arp
    refine ⟨hpass.restartPass, ?_⟩
    rintro p hp rfl
    obtain ⟨d, hd, rfl⟩ := List.mem_map.mp hp
    have hdue : (s.camonPass answers arp).Due d := by simpa using (List.mem_filter.mp hd).2
    exact hdue.1 hpass.mode
  | workerDeath pid => exact ⟨⟨h.mode, h.nameFirst⟩, by simp [startPoints]⟩
  | sighup config opens =>
    rw [he] at hsafe
    cases config with
    | none => exact absurd he (hsighup opens)
    | some cfg => exact ⟨h.handleSighup hsafe opens, by simp [startPoints]⟩

/-- When no configuration can be re-read the message loop stops. -/
theorem handleSighup_none (s : Agent) (opens : Bool) :
    (s.handleSighup none opens).statics.ptcActive = false := by
  unfold Agent.handleSighup
  refine foldl_invariant (I := fun t : Agent => t.statics.ptcActive = false) rfl ?_
  exact fun t i _ ht => (restoreCamera_frame _ t i).ptcActive.trans ht

/-- The camera is quiet, or the agent has stopped. -/
def Silenced (c : Slot) (s : Agent) : Prop := s.statics.ptcActive = true → s.Quiet c

/-- A step which does not undo the pause keeps the camera silent and starts no worker for it. -/
theorem Silenced.step {s : Agent} {c : Slot} (h : s.Silenced c) {i : Input} (hsafe : s.PauseSafe c i) :
    (s.step i).Silenced c ∧ (s.step i).spawnsOf c = s.spawnsOf c := by
  unfold Agent.step
  split
  · rename_i hactive
    have hquiet : (s.withAnswers i.forks i.deaths).Quiet c := ⟨(h hactive).mode, (h hactive).nameFirst⟩
    have hgrew := (s.withAnswers i.forks i.deaths).handle_grewFrom i.event
    by_cases hnone : ∃ opens, i.event = .sighup none opens
    · obtain ⟨opens, he⟩ := hnone
      rw [he] at hgrew ⊢
      refine ⟨fun hstill => ?_, hgrew.spawnsOf (by simp [startPoints])⟩
      rw [Agent.handle, handleSighup_none] at hstill
      cases hstill
    · push Not at hnone
      have hhandle := hquiet.handle (i := i) hsafe hnone
      exact ⟨fun _ => hhandle.1, hgrew.spawnsOf hhandle.2⟩
  · exact ⟨h, rfl⟩

/-- A successful pause of a camera which is recording, or not commanded to, leaves it quiet. -/
theorem quiet_of_pause {s : Agent} {camera : CString} {c : Slot}
    (hfind : raconfFindCamera s.media (camera.take cameraNameLength) = some c)
    (hcommand : s.isRecording c = true ∨ (s.cam c).runtime.recordingModeFlags = 0)
    (hsuccess : (s.handleCameraRecordPause camera 0).1 = .success) :
    (s.handleCameraRecordPause camera 0).2.Quiet c := by
  have hfirst := nameFirst_of_find hfind
  rcases hcommand with hrecording | hmode
  · have hframe := (Frame.modifyRuntime s paused).trans (Frame.stopRecordingProcess (c := c) _)
    rw [handleCameraRecordPause_recording hfind hrecording hsuccess]
    refine ⟨?_, hfirst.congr hframe.names⟩
    rw [stopRecordingProcess_mode, cam_modifyRuntime_self]
    rfl
  · exact Quiet.handleCameraRecordPause ⟨hmode, hfirst⟩ camera 0 fun _ hstart => hstart.2.2.2.2.1 rfl

/-- A successful pause of a camera which was recording, or not commanded to, persists through every
run that does not undo it: no worker is started for the camera. -/
theorem run_spawnsOf_of_pause (s : Agent) (camera : CString) (forks deaths : List Bool) (c : Slot)
    (is : List Input) (hactive : s.statics.ptcActive = true)
    (hfind : raconfFindCamera s.media (camera.take cameraNameLength) = some c)
    (hcommand : s.isRecording c = true ∨ (s.cam c).runtime.recordingModeFlags = 0)
    (hsuccess : ((s.withAnswers forks deaths).handleCameraRecordPause camera 0).1 = .success)
    (hsafe : Guarded Agent.step (PauseSafe c) (s.step ⟨.cameraRecordPause camera 0, forks, deaths⟩) is) :
    (run Agent.step (s.step ⟨.cameraRecordPause camera 0, forks, deaths⟩) is).spawnsOf c =
      (s.step ⟨.cameraRecordPause camera 0, forks, deaths⟩).spawnsOf c := by
  have hstep : s.step ⟨.cameraRecordPause camera 0, forks, deaths⟩ =
      ((s.withAnswers forks deaths).handleCameraRecordPause camera 0).2 := by
    rw [Agent.step, if_pos hactive]
    rfl
  have hquiet := quiet_of_pause (s := s.withAnswers forks deaths) hfind hcommand hsuccess
  rw [← hstep] at hquiet
  exact run_observation (I := Silenced c) (fun s : Agent => s.spawnsOf c)
    (fun t i ht hi => ht.step hi) (fun _ => hquiet) hsafe

/-- A paused camera stays paused through timer passes, a ready status and a worker's death. -/
theorem run_spawnsOf_of_pause_cab :
    (run Agent.step ((run Agent.step (start (cabConfig true) true true true) cabRecording).step
        ⟨.cameraRecordPause ['C', 'A', 'B'] 0, [], []⟩)
      [cabTick, Event.quiet (.readyStatus 1 1), cabTick, Event.quiet (.workerDeath 1)]).spawnsOf 0 =
      ((run Agent.step (start (cabConfig true) true true true) cabRecording).step
        ⟨.cameraRecordPause ['C', 'A', 'B'] 0, [], []⟩).spawnsOf 0 :=
  run_spawnsOf_of_pause _ _ _ _ 0 _ (by decide) (by decide) (by decide) (by decide) (by decide)

/-- A pause of a camera commanded to record by a ready status, but not started yet, succeeds without
doing anything, and the timer starts the camera fifteen passes later. -/
theorem run_spawnsOf_after_pause :
    ((run Agent.step (start (cabConfig true) true true true)
          (List.replicate 3 cabTick ++ [Event.quiet (.readyStatus 1 1)])).handleCameraRecordPause
        ['C', 'A', 'B'] 0).1 = .success ∧
      ¬ (run Agent.step ((run Agent.step (start (cabConfig true) true true true)
            (List.replicate 3 cabTick ++ [Event.quiet (.readyStatus 1 1)])).step
          ⟨.cameraRecordPause ['C', 'A', 'B'] 0, [], []⟩) (List.replicate 15 cabTick)).spawnsOf 0 =
        ((run Agent.step (start (cabConfig true) true true true)
            (List.replicate 3 cabTick ++ [Event.quiet (.readyStatus 1 1)])).step
          ⟨.cameraRecordPause ['C', 'A', 'B'] 0, [], []⟩).spawnsOf 0 := by
  decide

end Agent

end RecordingAgent.Reagent
