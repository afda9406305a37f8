import RecordingAgent.Reagent.Handled
import RecordingAgent.Reagent.UsableDrive

/-!
# Whether cameras which are not essential stay off the CHM

A start marks a camera that is not essential with `DONT_USE_CHM` and commands the CHM for an
essential one only. A ready status, settings and a re-read configuration build the same word
without looking. In runs in which none of these puts CHM bits into the word of a camera that is
not essential, such cameras stay off the CHM.
-/

namespace RecordingAgent.Reagent

open Foundation

/-- The mode word has the CHM for an essential camera only, and not together with the mark of one
that is not. -/
structure ChmExclusive (p : CamDef) : Prop where
  nonEssential : p.runtime.isEssential = 0 →
    ¬ Has p.runtime.recordingModeFlags (doRecordChmVideo ||| doRecordChmAudio)
  exclusive : ¬ (Has p.runtime.recordingModeFlags dontUseChm ∧
    Has p.runtime.recordingModeFlags doRecordChmVideo)

/-- What keeps the words exclusive: the CHM for an essential camera only, the mark for others only. -/
structure ModeFitsKind (essential : ℤ) (mode : Flags) : Prop where
  nonEssential : essential = 0 → ¬ Has mode (doRecordChmVideo ||| doRecordChmAudio)
  essential : essential ≠ 0 → ¬ Has mode dontUseChm

namespace ModeFitsKind

variable {essential : ℤ} {mode : Flags} {p p' : CamDef}

theorem zero (essential : ℤ) : ModeFitsKind essential 0 := ⟨fun _ => not_has_zero _, fun _ => not_has_zero _⟩

theorem chmExclusive (h : ModeFitsKind p.runtime.isEssential p.runtime.recordingModeFlags) :
    ChmExclusive p := by
  refine ⟨h.nonEssential, fun ⟨hdont, hchm⟩ => ?_⟩
  by_cases hkind : p.runtime.isEssential = 0
  · exact h.nonEssential hkind ((has_mask_or _ _ _).mpr (.inl hchm))
  · exact h.essential hkind hdont

/-- Switching flags off keeps the word fitting. -/
theorem clear (h : ModeFitsKind essential mode) (flags : Flags) : ModeFitsKind essential (mode &&& ~~~flags) :=
  ⟨fun hkind hchm => h.nonEssential hkind (has_of_clear hchm), fun hkind hdont =>
    h.essential hkind (has_of_clear hdont)⟩

/-- A start commands what fits the kind of the camera. -/
theorem recordingMode (h : ModeFitsKind p.runtime.isEssential p.runtime.recordingModeFlags) :
    ModeFitsKind p.runtime.isEssential (Reagent.recordingMode p) := by
  have hmasks : ¬ Has dontUseChm (doRecordChmVideo ||| doRecordChmAudio) ∧
      ¬ Has doRecordSsdVideo (doRecordChmVideo ||| doRecordChmAudio) ∧
      ¬ Has doRecordSsdAudio (doRecordChmVideo ||| doRecordChmAudio) ∧
      ¬ Has doRecordChmVideo dontUseChm ∧ ¬ Has doRecordChmAudio dontUseChm ∧
      ¬ Has doRecordSsdVideo dontUseChm ∧ ¬ Has doRecordSsdAudio dontUseChm := by decide
  obtain ⟨h1, h2, h3, h4, h5, h6, h7⟩ := hmasks
  constructor
  · intro hkind
    unfold Reagent.recordingMode
    simp only [hkind, ne_eq, not_true_eq_false, if_false]
    split <;> simp [has_or, h.nonEssential hkind, h1, h2, h3]
  · intro hkind
    unfold Reagent.recordingMode
    simp only [ne_eq, hkind, not_false_eq_true, if_true]
    split <;> simp [has_or, h.essential hkind, h4, h5, h6, h7]

theorem launchMode (h : ModeFitsKind p.runtime.isEssential p.runtime.recordingModeFlags) (rssdReady : Bool) :
    ModeFitsKind p.runtime.isEssential (Reagent.launchMode rssdReady p) := by
  unfold Reagent.launchMode
  split
  · exact h.recordingMode.clear _
  · exact h.recordingMode

theorem adjusted {chmReady rssdReady : Bool} {launches : Flags → Prop}
    (hstep : Adjusted chmReady rssdReady launches p p')
    (h : ModeFitsKind p.runtime.isEssential p.runtime.recordingModeFlags) :
    ModeFitsKind p'.runtime.isEssential p'.runtime.recordingModeFlags := by
  cases hstep with
  | aside hsame =>
    rw [hsame.isEssential, hsame.recordingModeFlags]
    exact h
  | stopped => exact h
  | paused => exact zero _
  | resumed => exact h
  | commanded => exact h.recordingMode
  | limited => exact h.launchMode rssdReady
  | launched => exact h.launchMode rssdReady

theorem dropUnready (h : ModeFitsKind essential mode) (chmReady rssdReady : Bool) :
    ModeFitsKind essential (Reagent.dropUnready chmReady rssdReady mode) := by
  unfold Reagent.dropUnready
  cases chmReady <;> cases rssdReady
  · exact (h.clear _).clear _
  · exact h.clear _
  · exact h.clear _
  · exact h

/-- The word a ready status rebuilds has the CHM only if that is ready, and no mark. -/
theorem readyMode (p : CamDef) {chmReady : Bool} (rssdReady : Bool) (h : essential = 0 → chmReady = false) :
    ModeFitsKind essential (Reagent.readyMode p chmReady rssdReady) := by
  constructor
  · intro hkind
    rw [h hkind]
    unfold Reagent.readyMode
    cases rssdReady <;> cases str2bool p.doAudio <;> decide
  · intro _
    unfold Reagent.readyMode
    cases chmReady <;> cases rssdReady <;> cases str2bool p.doAudio <;> decide

/-- Asking for audio or for none leaves the CHM video bit and the mark alone. -/
theorem audioMode_has (n : ℕ) (mode : Flags) {mask : Flags}
    (hmask : (doRecordChmAudio ||| doRecordSsdAudio) &&& mask = 0) :
    Has (audioMode n mode) mask ↔ Has mode mask := by
  have hnone : ¬ Has (doRecordChmAudio ||| doRecordSsdAudio) mask := fun h => h hmask
  by_cases hn : n = 0
  · rw [hn, audioMode_zero]
    split
    · rfl
    · rw [has_or]
      exact or_iff_left hnone
  · rw [audioMode_of_ne_zero hn]
    exact has_clear_of_disjoint hmask mode

/-- Settings put no CHM bits into a word that has none, if they do not ask for the CHM and do not ask
for audio which the word lacks. -/
theorem settingsMode (h : ModeFitsKind essential mode) {d : CameraSettings}
    (hd : essential = 0 → d.noChmRecording ≠ 0 ∧ (d.noChmRecording = 1 → d.noAudioRecording = 0 →
      Has mode (doRecordChmAudio ||| doRecordSsdAudio))) :
    ModeFitsKind essential (Reagent.settingsMode d mode) := by
  rw [settingsMode_eq]
  constructor
  · intro hkind
    obtain ⟨hchm, haudio⟩ := hd hkind
    have hnone := h.nonEssential hkind
    rw [chmMode_of_ne_zero hchm]
    split
    · rename_i hone
      by_cases hn : d.noAudioRecording = 0
      · rw [hn, audioMode_zero, if_pos (haudio hone.1 hn)]
        exact hnone
      · rw [audioMode_of_ne_zero hn]
        exact fun hhas => hnone (has_of_clear hhas)
    · exact not_has_clear (by decide) _
  · intro hkind
    have hdont : ¬ Has (audioMode d.noAudioRecording mode) dontUseChm := by
      rw [audioMode_has _ _ (by decide)]
      exact h.essential hkind
    by_cases hn : d.noChmRecording = 0
    · rw [hn, chmMode_zero]
      split
      · exact hdont
      · rw [has_or]
        exact not_or.mpr ⟨hdont, by decide⟩
    · rw [chmMode_of_ne_zero hn]
      split
      · exact hdont
      · exact fun hhas => hdont (has_of_clear hhas)

end ModeFitsKind

namespace Agent

/-- The mode word of every camera fits its kind. -/
def ModesFit (s : Agent) : Prop :=
  ∀ d, ModeFitsKind (s.cam d).runtime.isEssential (s.cam d).runtime.recordingModeFlags

/-- The input puts no CHM bits into the word of a camera that is not essential: settings for one do
not ask for the CHM, nor for audio which its word lacks, a ready status which reports the CHM finds
none online and unpaused, and a re-read configuration changes the kind of no camera whose word
shows it. -/
def KeepsOffChm (s : Agent) (i : Input) : Prop :=
  match i.event with
  | .cameraSettings d => ∀ c, raconfFindCamera s.media (d.camera.take cameraNameLength) = some c →
      (s.cam c).runtime.isEssential = 0 → d.noChmRecording ≠ 0 ∧
        (d.noChmRecording = 1 → d.noAudioRecording = 0 →
          Has (s.cam c).runtime.recordingModeFlags (doRecordChmAudio ||| doRecordSsdAudio))
  | .readyStatus chm _ => chm ≠ 0 → ∀ c : Slot, c.val < s.media.nCameras →
      (s.cam c).runtime.isOnline = true → (s.cam c).runtime.commandedPaused = false →
        (s.cam c).runtime.isEssential ≠ 0
  | .sighup config opens => ∀ c j, ((s.reread config opens).cam c).name ≠ [] →
      savedCamera s.media.cameras ((s.reread config opens).cam c).name = some j →
      ((s.reread config opens).cam c).runtime.isAssigned = true →
      ModeFitsKind ((s.reread config opens).cam c).runtime.isEssential (s.cam j).runtime.recordingModeFlags
  | _ => True

instance (essential : ℤ) (mode : Flags) : Decidable (ModeFitsKind essential mode) :=
  decidable_of_iff ((essential = 0 → ¬ Has mode (doRecordChmVideo ||| doRecordChmAudio)) ∧
    (essential ≠ 0 → ¬ Has mode dontUseChm)) ⟨fun h => ⟨h.1, h.2⟩, fun h => ⟨h.1, h.2⟩⟩

instance (s : Agent) (i : Input) : Decidable (s.KeepsOffChm i) := by
  obtain ⟨e, forks, deaths⟩ := i
  apply Event.casesOn (motive := fun e => Decidable (s.KeepsOffChm ⟨e, forks, deaths⟩)) e <;> intros <;> unfold KeepsOffChm <;>
    infer_instance

theorem modesFit_start (cfg : Config) (chmReady rssdReady opens : Bool) :
    (start cfg chmReady rssdReady opens).ModesFit := by
  intro d
  have hinit : ModeFitsKind
      (if d.val < cfg.nCameras then (cfg.cameras d).init else (cfg.cameras d).raw).runtime.isEssential
      (if d.val < cfg.nCameras then (cfg.cameras d).init else (cfg.cameras d).raw).runtime.recordingModeFlags := by
    split <;> exact .zero _
  exact hinit

/-- A fresh camera which takes over a saved word that fits its kind. -/
theorem restored_modeFits {old : Slot → CamDef} {p : CamDef} (h : Fresh p)
    (hsaved : ∀ j, p.name ≠ [] → savedCamera old p.name = some j → p.runtime.isAssigned = true →
      ModeFitsKind p.runtime.isEssential (old j).runtime.recordingModeFlags) :
    ModeFitsKind (restored old p).runtime.isEssential (restored old p).runtime.recordingModeFlags := by
  have hfresh : ModeFitsKind p.runtime.isEssential p.runtime.recordingModeFlags := by
    rw [h.recordingModeFlags]
    exact .zero _
  exact restored_of_cases
    (P := fun p' => ModeFitsKind p'.runtime.isEssential p'.runtime.recordingModeFlags) hfresh hsaved
    (fun _ => hfresh) fun _ => hfresh

theorem ModesFit.handle {s : Agent} (h : s.ModesFit) {i : Input} (hoff : s.KeepsOffChm i) :
    (s.handle i.event).ModesFit := by
  cases s.handle_handled i.event with
  | evolved _ hall =>
    exact (hall.invariant
      (J := fun _ p => ModeFitsKind p.runtime.isEssential p.runtime.recordingModeFlags) h
      fun _ _ _ hstep hp => hp.adjusted hstep).1
  | settings d c he hfind hrw =>
    intro e
    rw [KeepsOffChm, he] at hoff
    rw [hrw.cam]
    split
    · rename_i hec
      subst hec
      exact (h e).settingsMode fun hkind => hoff e hfind hkind
    · exact h e
  | ready chm rssd he hrw =>
    intro e
    rw [KeepsOffChm, he] at hoff
    rw [hrw.cam]
    split
    · rename_i hconfigured
      unfold readyCamera
      dsimp only
      split
      · rename_i hon
        refine .readyMode _ _ fun hkind => ?_
        by_contra hchm
        exact hoff (by simpa using hchm) e hconfigured hon.1 hon.2 hkind
      · exact h e
    · exact h e
  | shutdown f _ hrw =>
    intro e
    rw [hrw.cam]
    split
    · exact (h e).dropUnready _ _
    · exact h e
  | sighup config opens he hcam =>
    intro e
    rw [KeepsOffChm, he] at hoff
    rw [hcam]
    exact restored_modeFits (s.reread_fresh config opens e) (hoff e)

theorem ModesFit.step {s : Agent} (h : s.ModesFit) {i : Input} (hoff : s.KeepsOffChm i) :
    (s.step i).ModesFit := by
  unfold Agent.step
  split
  · have hanswered : (s.withAnswers i.forks i.deaths).KeepsOffChm i := by
      obtain ⟨event, forks, deaths⟩ := i
      cases event with
      | sighup config opens => cases config <;> cases opens <;> exact hoff
      | _ => exact hoff
    exact ModesFit.handle (s := s.withAnswers i.forks i.deaths) h hanswered
  · exact h

/-- In a run which puts no CHM bits into the word of a camera that is not essential, such cameras
stay off the CHM, and no word has CHM video together with `DONT_USE_CHM`. -/
theorem run_chmExclusive (cfg : Config) (chmReady rssdReady opens : Bool) (is : List Input)
    (hoff : Guarded step KeepsOffChm (start cfg chmReady rssdReady opens) is) (c : Slot) :
    ChmExclusive ((run step (start cfg chmReady rssdReady opens) is).cam c) :=
  (run_invariant (I := ModesFit) (fun _ _ h hi => h.step hi)
    (modesFit_start cfg chmReady rssdReady opens) hoff c).chmExclusive

/-- With only the SSD reported ready, a camera that is not essential records off the CHM. -/
theorem run_chmExclusive_cab :
    ChmExclusive ((run step (start (cabConfig false) true true true)
      (cabRecording ++ [Event.quiet (.readyStatus 0 1)])).cam 0) :=
  run_chmExclusive (cabConfig false) true true true _ (by decide +kernel) 0

/-- A ready status which reports the CHM commands it for a camera that is not essential. -/
theorem run_not_chmExclusive :
    ∃ s : Agent, s.Reachable ∧ (s.cam 0).runtime.isEssential = 0 ∧ ¬ ChmExclusive (s.cam 0) :=
  ⟨run step (start (cabConfig false) true true true) (cabRecording ++ [Event.quiet (.readyStatus 1 1)]),
    ⟨cabConfig false, true, true, true, _, rfl⟩, by decide,
    fun h => h.nonEssential (by decide) (by decide)⟩

end Agent

end RecordingAgent.Reagent
