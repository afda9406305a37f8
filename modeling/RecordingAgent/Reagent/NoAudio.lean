import RecordingAgent.Reagent.StatusTruth
import RecordingAgent.Reagent.UsableDrive

/-!
# Whether a camera asked not to record audio stays silent

The permission to record audio is kept only in the mode word, which a start and a ready status
rebuild from the configured `do_audio`, and to which the CHM half of a settings message adds
its audio bit. A camera stays silent in runs in which its `do_audio` is off whenever its words
are rebuilt, and in which settings that bring the CHM back meet a word which has it.
-/

namespace RecordingAgent.Reagent

open Foundation

/-- The audio bits of mode and status words. -/
abbrev audioBits : Flags := doRecordChmAudio ||| doRecordSsdAudio

/-- The mode word has audio together with video for one of the drives. -/
def Audible (mode : Flags) : Prop :=
  (Has mode doRecordChmVideo ∧ Has mode doRecordChmAudio) ∨
    (Has mode doRecordSsdVideo ∧ Has mode doRecordSsdAudio)

instance (mode : Flags) : Decidable (Audible mode) := by unfold Audible; infer_instance

/-- No audio is marked, and none is commanded of a camera whose `do_audio` is off. -/
structure Silent (p : CamDef) : Prop where
  status : ¬ Has p.runtime.recordingStatusFlags audioBits
  mode : str2bool p.doAudio = false → ¬ Has p.runtime.recordingModeFlags audioBits

/-- Only a mode word with audio and video of one drive is marked as recording audio. -/
theorem recordingStatus_audio {mode : Flags} (h : Has (recordingStatus mode) audioBits) : Audible mode := by
  by_contra hquiet
  unfold Audible at hquiet
  obtain ⟨hchm, hssd⟩ := not_or.mp hquiet
  refine absurd h ?_
  unfold recordingStatus
  dsimp only
  split_ifs <;> simp_all <;> decide

theorem audible_of_has {mode : Flags} (h : Audible mode) : Has mode audioBits := by
  rw [has_mask_or]
  exact h.imp And.right And.right

/-- With `do_audio` off a start commands no audio which is not commanded already. -/
theorem recordingMode_audio {p : CamDef} (hoff : str2bool p.doAudio = false)
    (h : ¬ Has p.runtime.recordingModeFlags audioBits) : ¬ Has (recordingMode p) audioBits := by
  have hmasks : ¬ Has doRecordChmVideo audioBits ∧ ¬ Has doRecordSsdVideo audioBits ∧
      ¬ Has dontUseChm audioBits := by decide
  obtain ⟨hchm, hssd, hdont⟩ := hmasks
  unfold recordingMode
  simp only [hoff, Bool.false_eq_true, if_false]
  split <;> simp only [has_or, h, hchm, hssd, hdont, or_self, not_false_eq_true]

theorem launchMode_audio {p : CamDef} (rssdReady : Bool) (hoff : str2bool p.doAudio = false)
    (h : ¬ Has p.runtime.recordingModeFlags audioBits) : ¬ Has (launchMode rssdReady p) audioBits := by
  have hmode := recordingMode_audio hoff h
  unfold launchMode
  split
  · exact fun hhas => hmode (has_of_clear hhas)
  · exact hmode

/-- A camera that is not essential is launched without audio when the SSD is not ready and its mode
word has no CHM audio. -/
theorem launchMode_audio_of_no_drive {p : CamDef} (hkind : p.runtime.isEssential = 0)
    (h : ¬ Has p.runtime.recordingModeFlags doRecordChmAudio) : ¬ Has (launchMode false p) audioBits := by
  have hssd : Has (recordingMode p) doRecordSsdVideo := recordingMode_ssdVideo p
  have hmasks : ¬ Has doRecordSsdVideo doRecordChmAudio ∧ ¬ Has doRecordSsdAudio doRecordChmAudio ∧
      ¬ Has dontUseChm doRecordChmAudio := by decide
  obtain ⟨hvideo, haudio, hdont⟩ := hmasks
  have hchm : ¬ Has (recordingMode p) doRecordChmAudio := by
    unfold recordingMode
    simp only [hkind, ne_eq, not_true_eq_false, if_false]
    split <;> simp only [has_or, h, hvideo, haudio, hdont, or_self, not_false_eq_true]
  rw [launchMode, if_pos ⟨hssd, rfl⟩, has_mask_or]
  rintro (hhas | hhas)
  · exact hchm (has_of_clear hhas)
  · exact not_has_clear (by decide) _ hhas

namespace Silent

variable {p p' : CamDef}

theorem congr (h : Silent p) (hdo : p'.doAudio = p.doAudio)
    (hmode : p'.runtime.recordingModeFlags = p.runtime.recordingModeFlags)
    (hstatus : p'.runtime.recordingStatusFlags = p.runtime.recordingStatusFlags) : Silent p' :=
  ⟨hstatus ▸ h.status, hdo ▸ hmode ▸ h.mode⟩

theorem of_zero (hmode : p.runtime.recordingModeFlags = 0) (hstatus : p.runtime.recordingStatusFlags = 0) :
    Silent p :=
  ⟨hstatus ▸ not_has_zero _, fun _ => hmode ▸ not_has_zero _⟩

theorem stopped (h : Silent p) : Silent p.stopped :=
  ⟨fun hhas => h.status (has_of_clear (has_of_clear hhas)), h.mode⟩

/-- Adjustments keep a camera silent, if one whose `do_audio` is on launches without audio. -/
theorem adjusted {chmReady rssdReady : Bool} {launches : Flags → Prop}
    (hstep : Adjusted chmReady rssdReady launches p p') (h : Silent p)
    (hlaunches : str2bool p.doAudio = true → ∀ w, launches w → ¬ Has w audioBits) : Silent p' := by
  cases hstep with
  | aside hsame => exact h.congr hsame.doAudio hsame.recordingModeFlags hsame.recordingStatusFlags
  | stopped => exact h.stopped
  | paused => exact ⟨h.status, fun _ => not_has_zero _⟩
  | resumed => exact ⟨h.status, h.mode⟩
  | commanded => exact ⟨h.status, fun hoff => recordingMode_audio hoff (h.mode hoff)⟩
  | limited => exact ⟨h.status, fun hoff => launchMode_audio _ hoff (h.mode hoff)⟩
  | launched hpid hidle hassigned hready hlaunch =>
    have hword : ¬ Has (launchMode rssdReady p) audioBits := by
      cases hdo : str2bool p.doAudio with
      | false => exact launchMode_audio _ hdo (h.mode hdo)
      | true => exact hlaunches hdo _ hlaunch
    exact ⟨fun hhas => hword (audible_of_has (recordingStatus_audio hhas)), fun _ => hword⟩

/-- Settings which ask for no audio make a camera silent which is not marked as recording it, unless
they add the CHM bits to the word of one whose `do_audio` is off. -/
theorem withSettings (hstatus : ¬ Has p.runtime.recordingStatusFlags audioBits) {d : CameraSettings}
    (hno : d.noAudioRecording ≠ 0) (hchm : str2bool p.doAudio = false → d.noChmRecording = 0 →
      Has p.runtime.recordingModeFlags doRecordChmVideo) : Silent (p.withSettings d) := by
  refine ⟨hstatus, fun hoff => ?_⟩
  change ¬ Has (settingsMode d p.runtime.recordingModeFlags) audioBits
  have haudio : ¬ Has (audioMode d.noAudioRecording p.runtime.recordingModeFlags) audioBits := by
    rw [audioMode_of_ne_zero hno]
    exact not_has_clear (by decide) _
  rw [settingsMode_eq]
  by_cases hn : d.noChmRecording = 0
  · have hvideo : Has (audioMode d.noAudioRecording p.runtime.recordingModeFlags) doRecordChmVideo := by
      rw [audioMode_of_ne_zero hno, has_clear_of_disjoint (by decide)]
      exact hchm hoff hn
    rw [hn, chmMode_zero, if_pos hvideo]
    exact haudio
  · rw [chmMode_of_ne_zero hn]
    split
    · exact haudio
    · exact fun hhas => haudio (has_of_clear hhas)

/-- A ready status keeps a camera silent, if it marks no audio on one whose `do_audio` is on. -/
theorem readyCamera (h : Silent p) {chm rssd : Bool} (hon : str2bool p.doAudio = true → p.workerPid ≠ 0 →
    if p.runtime.isOnline = true ∧ p.runtime.commandedPaused = false then chm = false ∧ rssd = false
    else ¬ Audible p.runtime.recordingModeFlags) : Silent (Agent.readyCamera chm rssd p) := by
  set mode := (Agent.readyCamera chm rssd p).runtime.recordingModeFlags with hmode
  have hoff : str2bool p.doAudio = false → ¬ Has mode audioBits := by
    intro hoff
    rw [hmode]
    unfold Agent.readyCamera
    dsimp only
    split
    · unfold readyMode
      rw [hoff]
      cases chm <;> cases rssd <;> decide
    · exact h.mode hoff
  refine ⟨?_, hoff⟩
  by_cases hpid : p.workerPid > 0
  · have hstatus : (Agent.readyCamera chm rssd p).runtime.recordingStatusFlags = recordingStatus mode := if_pos hpid
    rw [hstatus]
    intro hhas
    have haudible := recordingStatus_audio hhas
    cases hdo : str2bool p.doAudio with
    | false => exact hoff hdo (audible_of_has haudible)
    | true =>
      have hquiet := hon hdo (Nat.ne_of_gt hpid)
      rw [hmode] at haudible
      unfold Agent.readyCamera at haudible
      dsimp only at haudible
      split at hquiet <;> rename_i hrebuilt
      · have hnothing : readyMode p false false = 0 := rfl
        rw [if_pos hrebuilt, hquiet.1, hquiet.2, hnothing] at haudible
        exact absurd haudible (by decide)
      · rw [if_neg hrebuilt] at haudible
        exact hquiet haudible
  · have hstatus : (Agent.readyCamera chm rssd p).runtime.recordingStatusFlags =
        p.runtime.recordingStatusFlags := if_neg hpid
    rw [hstatus]
    exact h.status

theorem shutdownCamera (h : Silent p) (chm rssd : Bool) : Silent (Agent.shutdownCamera chm rssd p) := by
  have hdrop : ∀ {f : Flags}, ¬ Has f audioBits → ¬ Has (dropUnready chm rssd f) audioBits := by
    intro f hf
    unfold dropUnready
    cases chm <;> cases rssd
    · exact fun hhas => hf (has_of_clear (has_of_clear hhas))
    · exact fun hhas => hf (has_of_clear hhas)
    · exact fun hhas => hf (has_of_clear hhas)
    · exact hf
  exact ⟨hdrop h.status, fun hoff => hdrop (h.mode hoff)⟩

/-- A fresh camera which takes over the words of a silent one. -/
theorem restored {old : Slot → CamDef} (h : Fresh p)
    (hsaved : ∀ j, p.name ≠ [] → savedCamera old p.name = some j → p.runtime.isAssigned = true →
      ¬ Has (old j).runtime.recordingStatusFlags audioBits ∧
        (str2bool p.doAudio = false → ¬ Has (old j).runtime.recordingModeFlags audioBits)) :
    Silent (Reagent.restored old p) := by
  have hfresh : Silent p := .of_zero h.recordingModeFlags h.recordingStatusFlags
  refine restored_of_cases hfresh (fun j hname hj hassigned => ?_) (fun _ => hfresh.stopped)
    fun _ => ⟨hfresh.status, hfresh.mode⟩
  obtain ⟨hstatus, hmode⟩ := hsaved j hname hj hassigned
  exact ⟨hstatus, hmode⟩

theorem noAudioRecording (h : Silent p) (c : Slot) : (cameraStatus c p).noAudioRecording = true := by
  have hnone : ¬ Has p.runtime.recordingStatusFlags (isRecordingChmAudio ||| isRecordingSsdAudio) := h.status
  simpa [cameraStatus, Sent.noAudioRecording] using hnone

end Silent

/-- Whether a message is the status of the camera. -/
def Sent.isStatusOf (c : Slot) : Sent → Bool
  | .cameraStatus slot .. => slot = c
  | _ => false

namespace Agent

/-- No start of the camera which goes through records audio on a drive, although `do_audio` is on: the
camera is not essential, the SSD is not ready and the mode word has no CHM audio. -/
def StartsSilent (s : Agent) (c : Slot) (e : Event) : Prop :=
  ∀ p ∈ s.startPoints e, p.2 = c → (p.1.cam c).runtime.isAssigned = true →
    (Has (recordingMode (p.1.cam c)) doRecordChmVideo → p.1.media.isChmReady = true) →
    (p.1.cam c).runtime.isEssential = 0 ∧ p.1.media.isRssdReady = false ∧
      ¬ Has (p.1.cam c).runtime.recordingModeFlags doRecordChmAudio

/-- The input gives the camera no occasion to record audio again. -/
def KeepsSilent (c : Slot) (s : Agent) (i : Input) : Prop :=
  match i.event with
  | .cameraSettings d => raconfFindCamera s.media (d.camera.take cameraNameLength) = some c →
      d.noAudioRecording ≠ 0 ∧ (str2bool (s.cam c).doAudio = false → d.noChmRecording = 0 →
        Has (s.cam c).runtime.recordingModeFlags doRecordChmVideo)
  | .readyStatus chm rssd => str2bool (s.cam c).doAudio = true → (s.cam c).workerPid ≠ 0 →
      if (s.cam c).runtime.isOnline = true ∧ (s.cam c).runtime.commandedPaused = false then chm = 0 ∧ rssd = 0
      else ¬ Audible (s.cam c).runtime.recordingModeFlags
  | .sighup config opens => ∀ j, ((s.reread config opens).cam c).name ≠ [] →
      savedCamera s.media.cameras ((s.reread config opens).cam c).name = some j →
      ((s.reread config opens).cam c).runtime.isAssigned = true →
      ¬ Has (s.cam j).runtime.recordingStatusFlags audioBits ∧
        (str2bool ((s.reread config opens).cam c).doAudio = false →
          ¬ Has (s.cam j).runtime.recordingModeFlags audioBits)
  | e => str2bool (s.cam c).doAudio = true → (s.withAnswers i.forks i.deaths).StartsSilent c e

instance (s : Agent) (c : Slot) (e : Event) : Decidable (s.StartsSilent c e) := by
  unfold StartsSilent; infer_instance

instance (c : Slot) (s : Agent) (i : Input) : Decidable (KeepsSilent c s i) := by
  obtain ⟨e, forks, deaths⟩ := i
  apply Event.casesOn (motive := fun e => Decidable (KeepsSilent c s ⟨e, forks, deaths⟩)) e <;> intros <;> unfold KeepsSilent <;>
    infer_instance

/-- Since the first state the camera got no worker which records audio, and no status of it reported
audio. -/
structure NoAudioSince (c : Slot) (s t : Agent) : Prop where
  spawned : ∀ sp ∈ t.recorders.spawned.drop s.recorders.spawned.length, sp.slot = c →
    ¬ Has sp.command.recordFlags audioBits
  sent : ∀ m ∈ t.side.sent.drop s.side.sent.length, m.isStatusOf c = true → m.noAudioRecording = true

/-- The camera is silent, and nothing audible was added to the histories. -/
structure StaysSilent (c : Slot) (s t : Agent) : Prop where
  silent : Silent (t.cam c)
  spawned : GrewBy (fun sp => sp.slot = c → ¬ Has sp.command.recordFlags audioBits)
    s.recorders.spawned t.recorders.spawned
  sent : GrewBy (fun m => m.isStatusOf c = true → m.noAudioRecording = true) s.side.sent t.side.sent

theorem isCameraStatus_of_isStatusOf {c : Slot} {m : Sent} (h : m.isStatusOf c = true) :
    m.isCameraStatus = true := by
  cases m with
  | cameraStatus => rfl
  | _ => cases h

theorem isStatusOf_cameraStatus {c d : Slot} {p : CamDef} (h : (cameraStatus d p).isStatusOf c = true) : d = c := by
  simpa [cameraStatus, Sent.isStatusOf] using h

/-- Nothing is added to the histories when records are only set one by one. -/
theorem StaysSilent.rewrites {c : Slot} {s s' : Agent} {f : Slot → CamDef → CamDef} (hrw : Rewrites s s' f)
    (h : Silent (f c (s.cam c))) : StaysSilent c s s' := by
  refine ⟨hrw.cam c ▸ h, .of_eq (by rw [hrw.recorders]), hrw.sent.mono fun m hm hstatus => ?_⟩
  rw [isCameraStatus_of_isStatusOf hstatus] at hm
  cases hm

/-- What the starts of a camera launch has no audio. -/
theorem launches_silent {c : Slot} {s : Agent} {e : Event} (hstarts : s.StartsSilent c e) {w : Flags}
    (h : LaunchedSince c s (s.handle e) w) : ¬ Has w audioBits := by
  obtain ⟨sp, hsp, hslot, rfl⟩ := h
  obtain ⟨new, heq, hpoints⟩ := s.handle_grewFrom e
  rw [heq, List.drop_left] at hsp
  obtain ⟨p, hp, hlaunch⟩ := hpoints sp hsp
  obtain rfl : p.2 = c := hlaunch.slot.symm.trans hslot
  obtain ⟨hkind, hrssd, haudio⟩ := hstarts p hp rfl hlaunch.assigned hlaunch.chm_ready
  rw [hlaunch.recordFlags, hrssd]
  exact launchMode_audio_of_no_drive hkind haudio

/-- While every record evolves, a silent camera stays silent if its starts are. -/
theorem StaysSilent.evolved {c : Slot} {s s' : Agent} (hall : AllEvolve s s') (h : Silent (s.cam c))
    (hlaunches : str2bool (s.cam c).doAudio = true → ∀ w, LaunchedSince c s s' w → ¬ Has w audioBits) :
    StaysSilent c s s' := by
  obtain ⟨hcam, hsent, hspawned⟩ := hall.invariant
    (J := fun d p => d = c → p.doAudio = (s.cam c).doAudio ∧ Silent p)
    (fun d hd => by rw [hd]; exact ⟨rfl, h⟩) fun d p p' hstep hp hd => by
      subst hd
      obtain ⟨hdo, hsilent⟩ := hp rfl
      exact ⟨hstep.doAudio.trans hdo, hsilent.adjusted hstep fun hon => hlaunches (hdo ▸ hon)⟩
  refine ⟨(hcam c rfl).2, hspawned.of_drop fun sp hsp hslot => ?_, hsent.mono fun m hm hstatus => ?_⟩
  · cases hdo : str2bool (s.cam c).doAudio with
    | true => exact hlaunches hdo _ ⟨sp, hsp, hslot, rfl⟩
    | false =>
      obtain ⟨p, hp, hflags⟩ := hspawned.mem_drop hsp
      obtain ⟨hdo', hsilent⟩ := hp hslot
      have hoff : str2bool p.doAudio = false := by rw [hdo', hdo]
      rw [hflags]
      exact launchMode_audio _ hoff (hsilent.mode hoff)
  · obtain ⟨d, p, hp, rfl⟩ := hm (isCameraStatus_of_isStatusOf hstatus)
    exact (hp (isStatusOf_cameraStatus hstatus)).2.noAudioRecording d

theorem StaysSilent.handle {c : Slot} {s : Agent} (h : Silent (s.cam c)) {i : Input}
    (hkeeps : KeepsSilent c s i) (hanswers : s.withAnswers i.forks i.deaths = s) :
    StaysSilent c s (s.handle i.event) := by
  cases s.handle_handled i.event with
  | evolved _ hall =>
    refine .evolved hall h fun hon w hw => ?_
    refine launches_silent ?_ hw
    unfold KeepsSilent at hkeeps
    rw [hanswers] at hkeeps
    split at hkeeps <;> rename_i he
    · rw [he]; exact fun p hp => absurd hp List.not_mem_nil
    · rw [he]; exact fun p hp => absurd hp List.not_mem_nil
    · rw [he]; exact fun p hp => absurd hp List.not_mem_nil
    · exact hkeeps hon
  | settings d e he hfind hrw =>
    refine .rewrites hrw ?_
    rw [KeepsSilent, he] at hkeeps
    split
    · rename_i hce
      subst hce
      exact .withSettings h.status (hkeeps hfind).1 (hkeeps hfind).2
    · exact h
  | ready chm rssd he hrw =>
    refine .rewrites hrw ?_
    rw [KeepsSilent, he] at hkeeps
    split
    · refine h.readyCamera fun hon hpid => ?_
      simpa using hkeeps hon hpid
    · exact h
  | shutdown f _ hrw =>
    refine .rewrites hrw ?_
    split
    · exact h.shutdownCamera _ _
    · exact h
  | sighup config opens he hcam hsent hspawned =>
    rw [KeepsSilent, he] at hkeeps
    have hsilent : Silent ((s.handle i.event).cam c) := by
      rw [hcam]
      exact .restored (s.reread_fresh config opens c) hkeeps
    refine ⟨hsilent, .of_eq hspawned, hsent.mono fun m hm hstatus => ?_⟩
    obtain ⟨d, rfl⟩ := hm (isCameraStatus_of_isStatusOf hstatus)
    obtain rfl := isStatusOf_cameraStatus hstatus
    exact hsilent.noAudioRecording d

theorem StaysSilent.step {c : Slot} {s : Agent} (h : Silent (s.cam c)) {i : Input} (hkeeps : KeepsSilent c s i) :
    StaysSilent c s (s.step i) := by
  unfold Agent.step
  split
  · have hanswered : KeepsSilent c (s.withAnswers i.forks i.deaths) i := by
      obtain ⟨event, forks, deaths⟩ := i
      cases event with
      | sighup config opens => cases config <;> cases opens <;> exact hkeeps
      | _ => exact hkeeps
    obtain ⟨hsilent, hspawned, hsent⟩ :=
      StaysSilent.handle (s := s.withAnswers i.forks i.deaths) h hanswered rfl
    exact ⟨hsilent, hspawned, hsent⟩
  · exact ⟨h, .refl _, .refl _⟩

theorem StaysSilent.trans {c : Slot} {s t u : Agent} (h : StaysSilent c s t) (h' : StaysSilent c t u) :
    StaysSilent c s u :=
  ⟨h'.silent, h.spawned.trans h'.spawned, h.sent.trans h'.sent⟩

theorem StaysSilent.noAudioSince {c : Slot} {s t : Agent} (h : StaysSilent c s t) : NoAudioSince c s t :=
  ⟨fun _ hsp => h.spawned.mem_drop hsp, fun _ hm => h.sent.mem_drop hm⟩

/-- After settings which ask for no audio were handled for a camera not marked as recording audio, a
run which gives it no occasion to record audio again starts no worker of it with audio and sends
no status of it with audio. -/
theorem run_noAudio (s : Agent) {c : Slot} {d : CameraSettings}
    (hfind : raconfFindCamera s.media (d.camera.take cameraNameLength) = some c)
    (_ : d.noAudioRecording = 1) (hstatus : ¬ Has (s.cam c).runtime.recordingStatusFlags audioBits)
    (forks deaths : List Bool) (is : List Input)
    (hkeeps : Guarded Agent.step (KeepsSilent c) s (⟨.cameraSettings d, forks, deaths⟩ :: is)) :
    NoAudioSince c (s.step ⟨.cameraSettings d, forks, deaths⟩)
      (run Agent.step (s.step ⟨.cameraSettings d, forks, deaths⟩) is) := by
  obtain ⟨hfirst, hrest⟩ := hkeeps
  cases hactive : s.statics.ptcActive with
  | false =>
    -- nothing is handled any more
    have hidle : ∀ i, s.step i = s := fun i => if_neg (by simp [hactive])
    have hrun : run Agent.step s is = s :=
      run_invariant_of_step (I := fun t => t = s) (fun t i ht => ht ▸ hidle i) rfl is
    rw [hidle, hrun]
    exact ⟨fun sp hsp => by simp at hsp, fun m hm => by simp at hm⟩
  | true =>
    have hsilent : Silent ((s.step ⟨.cameraSettings d, forks, deaths⟩).cam c) := by
      have hset : (s.step ⟨.cameraSettings d, forks, deaths⟩).cam c = (s.cam c).withSettings d := by
        have hfind' : raconfFindCamera (s.withAnswers forks deaths).media (d.camera.take cameraNameLength) =
          some c := hfind
        rw [Agent.step, if_pos hactive, handle, msgcbCameraSettings, hfind']
        exact cam_modifyRuntime_self _ c _
      rw [hset]
      exact .withSettings hstatus (hfirst hfind).1 (hfirst hfind).2
    have hall := run_invariant (I := StaysSilent c (s.step ⟨.cameraSettings d, forks, deaths⟩))
      (fun t i ht hi => ht.trans (.step ht.silent hi)) ⟨hsilent, .refl _, .refl _⟩ hrest
    exact hall.noAudioSince

/-- Settings for the camera `CAB` which ask for no audio and no CHM. -/
def silenced : CameraSettings := ⟨['C', 'A', 'B'], 1, 1, 1, 0, 1, 1⟩

/-- With `do_audio` off, a camera asked for no audio is paused, started again and reported without. -/
theorem run_noAudio_cab :
    NoAudioSince 0
      ((run step (start (cabConfig true) true true true) cabRecording).step (Event.quiet (.cameraSettings silenced)))
      (run Agent.step ((run step (start (cabConfig true) true true true) cabRecording).step
          (Event.quiet (.cameraSettings silenced)))
        [Event.quiet (.cameraRecordPause ['C', 'A', 'B'] 0), Event.quiet (.cameraRecordPause ['C', 'A', 'B'] 1)]) :=
  run_noAudio _ (by decide) (by decide) (by decide) [] [] _ (by decide)

/-- A configuration with the essential camera `CAB` only, whose `do_audio` is on. -/
def audioConfig : Config :=
  { cabConfig true with cameras := fun i => if i = 0 then { cabCamera true with doAudio := ['1'] } else .empty }

/-- With `do_audio` on, a record command starts a camera with audio which was asked for none. -/
theorem run_not_noAudio :
    ∃ s : Agent, s.Reachable ∧ raconfFindCamera s.media (silenced.camera.take cameraNameLength) = some 0 ∧
      silenced.noAudioRecording = 1 ∧
      ¬ NoAudioSince 0 (s.step (Event.quiet (.cameraSettings silenced)))
        ((s.step (Event.quiet (.cameraSettings silenced))).step
          (Event.quiet (.cameraRecordPause ['C', 'A', 'B'] 1))) := by
  refine ⟨run step (start audioConfig true true true) (List.replicate 3 cabTick),
    ⟨audioConfig, true, true, true, _, rfl⟩, by decide, rfl, fun h => ?_⟩
  refine absurd h.spawned ?_
  decide

end Agent

end RecordingAgent.Reagent
