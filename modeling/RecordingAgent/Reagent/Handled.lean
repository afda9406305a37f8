import RecordingAgent.Reagent.Reattach

/-!
# What an event does to the camera records

`Handled s e s'` lists what handling an event can do to the records of the cameras: let each of
them evolve, apply a settings message to one of them, mark each configured one by the drives a
ready status or a shutdown message leaves ready, or re-read them. Properties of every record
are proved once for each of these.
-/

namespace RecordingAgent.Reagent

open Foundation

/-- A camera after a settings message for it. -/
def CamDef.withSettings (p : CamDef) (d : CameraSettings) : CamDef :=
  { p with runtime := { p.runtime with
      resolution := d.resolution
      compression := d.compression
      frameRate := d.frameRate
      maxAge := d.groomingDuration
      recordingModeFlags := settingsMode d p.runtime.recordingModeFlags } }

/-- The audio half of the settings: a preference other than what the word has is applied. -/
def audioMode (noAudioRecording : ℕ) (mode : Flags) : Flags :=
  if noAudioRecording ≠ (decide ¬ Has mode (doRecordChmAudio ||| doRecordSsdAudio)).toNat then
    if noAudioRecording ≠ 0 then mode &&& ~~~(doRecordChmAudio ||| doRecordSsdAudio)
    else mode ||| (doRecordChmAudio ||| doRecordSsdAudio)
  else mode

/-- The CHM half of the settings. -/
def chmMode (noChmRecording : ℕ) (mode : Flags) : Flags :=
  if noChmRecording ≠ (decide ¬ Has mode doRecordChmVideo).toNat then
    if noChmRecording ≠ 0 then mode &&& ~~~(doRecordChmVideo ||| doRecordChmAudio)
    else mode ||| (doRecordChmVideo ||| doRecordChmAudio)
  else mode

theorem settingsMode_eq (d : CameraSettings) (mode : Flags) :
    settingsMode d mode = chmMode d.noChmRecording (audioMode d.noAudioRecording mode) := rfl

/-- Asking for no audio clears the audio bits. -/
theorem audioMode_of_ne_zero {n : ℕ} (h : n ≠ 0) (mode : Flags) :
    audioMode n mode = mode &&& ~~~(doRecordChmAudio ||| doRecordSsdAudio) := by
  unfold audioMode
  rw [if_pos h]
  split
  · rfl
  · rename_i hsame
    have haudio : ¬ Has mode (doRecordChmAudio ||| doRecordSsdAudio) := by
      intro hhas
      exact h (by simpa [hhas] using hsame)
    exact (clear_of_not_has haudio).symm

/-- Asking for audio sets both audio bits of a word that has neither. -/
theorem audioMode_zero (mode : Flags) : audioMode 0 mode =
    if Has mode (doRecordChmAudio ||| doRecordSsdAudio) then mode
    else mode ||| (doRecordChmAudio ||| doRecordSsdAudio) := by
  unfold audioMode
  by_cases haudio : Has mode (doRecordChmAudio ||| doRecordSsdAudio) <;> simp [haudio]

/-- Asking for the CHM sets both CHM bits of a word without CHM video. -/
theorem chmMode_zero (mode : Flags) : chmMode 0 mode =
    if Has mode doRecordChmVideo then mode else mode ||| (doRecordChmVideo ||| doRecordChmAudio) := by
  unfold chmMode
  by_cases hvideo : Has mode doRecordChmVideo <;> simp [hvideo]

/-- Asking for no CHM clears both CHM bits, unless the value is one and CHM video is off already. -/
theorem chmMode_of_ne_zero {n : ℕ} (h : n ≠ 0) (mode : Flags) : chmMode n mode =
    if n = 1 ∧ ¬ Has mode doRecordChmVideo then mode
    else mode &&& ~~~(doRecordChmVideo ||| doRecordChmAudio) := by
  unfold chmMode
  rw [if_pos h]
  by_cases hvideo : Has mode doRecordChmVideo
  · simp [hvideo, h]
  · by_cases hone : n = 1 <;> simp [hvideo, hone]

/-- The records were set one by one; no camera status was sent and no worker started. -/
structure Rewrites (s s' : Agent) (f : Slot → CamDef → CamDef) : Prop where
  nCameras : s'.media.nCameras = s.media.nCameras
  cam : ∀ i, s'.cam i = f i (s.cam i)
  sent : GrewBy (fun m => m.isCameraStatus = false) s.side.sent s'.side.sent
  recorders : s'.recorders = s.recorders
  os : s'.side.os = s.side.os

/-- What handling an event does to the camera records. -/
inductive Handled (s : Agent) (e : Event) (s' : Agent) : Prop
  | evolved (hdrives : ∀ chm rssd, e ≠ .readyStatus chm rssd) (h : AllEvolve s s')
  | settings (d : CameraSettings) (c : Slot) (he : e = .cameraSettings d)
      (hfind : raconfFindCamera s.media (d.camera.take cameraNameLength) = some c)
      (h : Rewrites s s' fun i p => if i = c then p.withSettings d else p)
      (hchm : s'.media.isChmReady = s.media.isChmReady) (hrssd : s'.media.isRssdReady = s.media.isRssdReady)
  | ready (chm rssd : ℕ) (he : e = .readyStatus chm rssd)
      (h : Rewrites s s' fun i p =>
        if i.val < s.media.nCameras then Agent.readyCamera (decide (chm ≠ 0)) (decide (rssd ≠ 0)) p else p)
      (hchm : s'.media.isChmReady = decide (chm ≠ 0)) (hrssd : s'.media.isRssdReady = decide (rssd ≠ 0))
  | shutdown (f : ShutdownFunction) (he : e = .shutdown f)
      (h : Rewrites s s' fun i p =>
        if i.val < s.media.nCameras then Agent.shutdownCamera s'.media.isChmReady s'.media.isRssdReady p else p)
      (hchm : s'.media.isChmReady = true → s.media.isChmReady = true)
      (hrssd : s'.media.isRssdReady = true → s.media.isRssdReady = true)
  | sighup (config : Option Config) (opens : Bool) (he : e = .sighup config opens)
      (hcam : ∀ i, s'.cam i = restored s.media.cameras ((s.reread config opens).cam i))
      (hsent : GrewBy (fun m => m.isCameraStatus = true → ∃ i, m = cameraStatus i (s'.cam i))
        s.side.sent s'.side.sent)
      (hspawned : s'.recorders.spawned = s.recorders.spawned)
      (hown : OwnPids s → OwnPids s')
      (hncams : s'.media.nCameras = (s.reread config opens).media.nCameras)
      (hchm : s'.media.isChmReady = s.media.isChmReady) (hrssd : s'.media.isRssdReady = s.media.isRssdReady)

/-- A camera as a configuration is re-read, before anything saved is restored. -/
structure Fresh (p : CamDef) : Prop where
  workerPid : p.workerPid = 0
  recordingModeFlags : p.runtime.recordingModeFlags = 0
  recordingStatusFlags : p.runtime.recordingStatusFlags = 0
  commandedPaused : p.runtime.commandedPaused = false

namespace Agent

/-- Before the saved cameras are restored every slot is fresh. -/
theorem reread_fresh (s : Agent) (config : Option Config) (opens : Bool) (i : Slot) :
    Fresh ((s.reread config opens).cam i) := by
  cases config with
  | none => exact ⟨rfl, rfl, rfl, rfl⟩
  | some cfg =>
    have hinit : Fresh (if i.val < cfg.nCameras then (cfg.cameras i).init else (cfg.cameras i).raw) := by
      split <;> exact ⟨rfl, rfl, rfl, rfl⟩
    cases opens <;> exact hinit

/-- A slot which is not configured is not assigned when a configuration is read. -/
theorem reread_unassigned (s : Agent) (config : Option Config) (opens : Bool) {i : Slot}
    (hi : (s.reread config opens).media.nCameras ≤ i.val) :
    ((s.reread config opens).cam i).runtime.isAssigned = false := by
  cases config with
  | none => rfl
  | some cfg =>
    have hn : cfg.nCameras ≤ i.val := by cases opens <;> exact hi
    have hraw : (if i.val < cfg.nCameras then (cfg.cameras i).init
        else (cfg.cameras i).raw).runtime.isAssigned = false := by
      rw [if_neg (by omega)]
      rfl
    cases opens <;> exact hraw

theorem msgcbCameraSettings_handled (s : Agent) (d : CameraSettings) :
    Handled s (.cameraSettings d) (s.msgcbCameraSettings d) := by
  unfold msgcbCameraSettings
  cases hfind : raconfFindCamera s.media (d.camera.take cameraNameLength) with
  | none => exact .evolved (by simp) ((AllEvolve.refl s).evolves (Evolves.send (c := 0) s rfl))
  | some c =>
    refine .settings d c rfl hfind ⟨rfl, fun i => ?_, .refl _, rfl, rfl⟩ rfl rfl
    by_cases hi : i = c
    · subst hi
      rw [if_pos rfl]
      exact cam_modifyRuntime_self s i _
    · rw [if_neg hi]
      exact cam_modifyRuntime_of_ne s c hi _

theorem msgcbReadyStatus_handled (s : Agent) (chm rssd : ℕ) :
    Handled s (.readyStatus chm rssd) (s.msgcbReadyStatus chm rssd) :=
  .ready chm rssd rfl ⟨rfl, fun _ => rfl, .singleton rfl rfl, rfl, rfl⟩ rfl rfl

theorem msgcbShutdownRec_handled (s : Agent) (f : ShutdownFunction) :
    Handled s (.shutdown f) (s.msgcbShutdownRec f) := by
  cases f with
  | chm => exact .shutdown .chm rfl ⟨rfl, fun _ => rfl, .refl _, rfl, rfl⟩ nofun id
  | removableSsd => exact .shutdown .removableSsd rfl ⟨rfl, fun _ => rfl, .refl _, rfl, rfl⟩ id nofun
  | all => exact .shutdown .all rfl ⟨rfl, fun _ => rfl, .refl _, rfl, rfl⟩ nofun nofun
  | other => exact .evolved (by simp) (.refl s)

theorem handleSighup_handled (s : Agent) (config : Option Config) (opens : Bool) :
    Handled s (.sighup config opens) (s.handleSighup config opens) := by
  have hdrives := s.handleSighup_drives config opens
  have hframes {I : Agent → Prop} (hI : ∀ c t t', Frame c t t' → I t → I t')
      (hinit : I (s.reread config opens)) : I (s.handleSighup config opens) :=
    handleSighup_of_frames hI hinit
  refine .sighup config opens rfl (s.handleSighup_cam config opens) (s.handleSighup_sent config opens)
    (s.handleSighup_spawned config opens) (fun hown => ?_) ?_ hdrives.isChmReady hdrives.isRssdReady
  · have hreread : OwnPids (s.reread config opens) := by
      unfold reread camonInit
      cases config <;> cases opens <;> exact ⟨hown.nodup, hown.le⟩
    refine foldl_invariant (I := OwnPids) hreread fun t i _ ht => ?_
    exact restoreCamera_ownPids s.media.cameras ht i
  · exact hframes (I := fun t => t.media.nCameras = (s.reread config opens).media.nCameras)
      (fun _ _ _ ht h => ht.nCameras.trans h) rfl

/-- Every event has one of these effects on the camera records. -/
theorem handle_handled (s : Agent) (e : Event) : Handled s e (s.handle e) := by
  cases e with
  | cameraSettings d => exact s.msgcbCameraSettings_handled d
  | readyStatus chm rssd => exact s.msgcbReadyStatus_handled chm rssd
  | shutdown f => exact s.msgcbShutdownRec_handled f
  | sighup config opens => exact s.handleSighup_handled config opens
  | _ => exact .evolved (by simp) (s.handle_allEvolve (by simp) (by simp) (by simp) (by simp))

end Agent

end RecordingAgent.Reagent
