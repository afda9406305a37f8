import Mathlib.Tactic.SplitIfs
import RecordingAgent.Reagent.Handled

/-!
# Whether the reported status is truthful

A status word has one of nine values: video or video with audio for each drive, and it is zero
for a camera without a worker. Every change of a record keeps that, so a camera is reported as
recording only while it has a worker, although the report tests the whole word for it.

A pause is carried out exactly when the status word has a video bit; a worker whose camera is
marked as recording nothing is not stopped.
-/

namespace RecordingAgent.Reagent

open Foundation Relation

/-- The values of a status word. -/
def statusWords : List Flags := [0#32, 1#32, 3#32, 4#32, 5#32, 7#32, 12#32, 13#32, 15#32]

/-- The status word is well formed, and zero without a worker. -/
structure StatusBacked (p : CamDef) : Prop where
  word : p.runtime.recordingStatusFlags ∈ statusWords
  worker : p.runtime.recordingStatusFlags ≠ 0 → p.workerPid ≠ 0

theorem forall_statusWords {P : Flags → Prop} : (∀ f ∈ statusWords, P f) ↔
    P 0 ∧ P 1 ∧ P 3 ∧ P 4 ∧ P 5 ∧ P 7 ∧ P 12 ∧ P 13 ∧ P 15 := by
  simp [statusWords]

theorem recordingStatus_mem (mode : Flags) : recordingStatus mode ∈ statusWords := by
  unfold recordingStatus
  dsimp only
  split_ifs <;> decide

/-- Clearing the bits of both drives clears a status word. -/
theorem stopped_status {p : CamDef} (h : p.runtime.recordingStatusFlags ∈ statusWords) :
    p.stopped.runtime.recordingStatusFlags = 0 := by
  have hclear : ∀ f ∈ statusWords, f &&& ~~~(doRecordChmVideo ||| doRecordChmAudio) &&&
      ~~~(doRecordSsdVideo ||| doRecordSsdAudio) = 0 := by
    rw [forall_statusWords]
    decide
  exact hclear _ h

theorem dropUnready_mem (chmReady rssdReady : Bool) {f : Flags} (h : f ∈ statusWords) :
    dropUnready chmReady rssdReady f ∈ statusWords := by
  have hdrop : ∀ f ∈ statusWords, dropUnready chmReady rssdReady f ∈ statusWords := by
    rw [forall_statusWords]
    cases chmReady <;> cases rssdReady <;> decide
  exact hdrop f h

theorem dropUnready_zero (chmReady rssdReady : Bool) : dropUnready chmReady rssdReady 0 = 0 := by
  cases chmReady <;> cases rssdReady <;> decide

namespace StatusBacked

variable {p p' : CamDef}

theorem of_zero (h : p.runtime.recordingStatusFlags = 0) : StatusBacked p :=
  ⟨by rw [h]; decide, fun hne => absurd h hne⟩

theorem congr (h : StatusBacked p) (hpid : p'.workerPid = p.workerPid)
    (hstatus : p'.runtime.recordingStatusFlags = p.runtime.recordingStatusFlags) : StatusBacked p' :=
  ⟨hstatus ▸ h.word, by rw [hstatus, hpid]; exact h.worker⟩

theorem adjusted {chmReady rssdReady : Bool} {launches : Flags → Prop}
    (hstep : Adjusted chmReady rssdReady launches p p')
    (h : StatusBacked p) : StatusBacked p' := by
  cases hstep with
  | aside hsame => exact h.congr hsame.workerPid hsame.recordingStatusFlags
  | stopped => exact .of_zero (stopped_status h.word)
  | paused => exact h.congr rfl rfl
  | resumed => exact h.congr rfl rfl
  | commanded => exact h.congr rfl rfl
  | limited => exact h.congr rfl rfl
  | launched hpid => exact ⟨recordingStatus_mem _, fun _ => hpid⟩

theorem readyCamera (h : StatusBacked p) (chmReady rssdReady : Bool) :
    StatusBacked (Agent.readyCamera chmReady rssdReady p) := by
  unfold Agent.readyCamera
  by_cases hpid : p.workerPid > 0
  · exact ⟨by simp only [if_pos hpid]; exact recordingStatus_mem _, fun _ => Nat.ne_of_gt hpid⟩
  · exact h.congr rfl (if_neg hpid)

theorem shutdownCamera (h : StatusBacked p) (chmReady rssdReady : Bool) :
    StatusBacked (Agent.shutdownCamera chmReady rssdReady p) := by
  refine ⟨dropUnready_mem _ _ h.word, fun hne => h.worker fun hzero => hne ?_⟩
  change dropUnready chmReady rssdReady p.runtime.recordingStatusFlags = 0
  rw [hzero, dropUnready_zero]

/-- A fresh camera which takes over what was saved takes the worker together with the word. -/
theorem restored {old : Slot → CamDef} (hold : ∀ j, StatusBacked (old j)) (h : Fresh p) :
    StatusBacked (Reagent.restored old p) := by
  have hfresh : StatusBacked p := .of_zero h.recordingStatusFlags
  exact restored_of_cases hfresh (fun j _ _ _ => ⟨(hold j).word, (hold j).worker⟩)
    (fun _ => .of_zero (stopped_status hfresh.word)) fun _ => .of_zero h.recordingStatusFlags

end StatusBacked

namespace Agent

/-- Every record is backed, and so was every record that was reported. -/
structure AllBacked (s : Agent) : Prop where
  cam : ∀ d, StatusBacked (s.cam d)
  sent : ∀ m ∈ s.side.sent, m.isCameraStatus = true → ∃ d p, StatusBacked p ∧ m = cameraStatus d p

theorem allBacked_start (cfg : Config) (chmReady rssdReady opens : Bool) :
    (start cfg chmReady rssdReady opens).AllBacked := by
  refine ⟨fun d => .of_zero ?_, fun m hm => absurd hm List.not_mem_nil⟩
  change (if d.val < cfg.nCameras then (cfg.cameras d).init
    else (cfg.cameras d).raw).runtime.recordingStatusFlags = 0
  split <;> rfl

/-- What was sent stays backed when only backed reports are added. -/
theorem AllBacked.grow {s s' : Agent} (h : s.AllBacked) (hcam : ∀ d, StatusBacked (s'.cam d))
    (hsent : GrewBy (fun m => m.isCameraStatus = true → ∃ d p, StatusBacked p ∧ m = cameraStatus d p)
      s.side.sent s'.side.sent) : s'.AllBacked := by
  obtain ⟨added, heq, hadded⟩ := hsent
  refine ⟨hcam, fun m hm => ?_⟩
  rw [heq] at hm
  exact (List.mem_append.mp hm).elim (h.sent m) (hadded m)

theorem AllBacked.rewrites {s s' : Agent} {f : Slot → CamDef → CamDef} (h : s.AllBacked)
    (hrewrites : Rewrites s s' f) (hf : ∀ i, StatusBacked (f i (s.cam i))) : s'.AllBacked :=
  h.grow (fun i => hrewrites.cam i ▸ hf i)
    (hrewrites.sent.mono fun _ hm hstatus => absurd hstatus (by simp [hm]))

theorem AllBacked.handle {s : Agent} (h : s.AllBacked) (e : Event) : (s.handle e).AllBacked := by
  cases s.handle_handled e with
  | evolved _ hall =>
    obtain ⟨hcam, hsent, -⟩ := hall.invariant (J := fun _ => StatusBacked) h.cam
      fun _ _ _ hstep hp => hp.adjusted hstep
    exact h.grow hcam hsent
  | settings d c _ _ hrewrites =>
    refine h.rewrites hrewrites fun i => ?_
    split
    · exact (h.cam i).congr rfl rfl
    · exact h.cam i
  | ready chm rssd _ hrewrites =>
    refine h.rewrites hrewrites fun i => ?_
    split
    · exact (h.cam i).readyCamera _ _
    · exact h.cam i
  | shutdown f _ hrewrites =>
    refine h.rewrites hrewrites fun i => ?_
    split
    · exact (h.cam i).shutdownCamera _ _
    · exact h.cam i
  | sighup config opens _ hcam hsent =>
    have hbacked : ∀ i, StatusBacked ((s.handle e).cam i) := fun i =>
      hcam i ▸ .restored h.cam (s.reread_fresh config opens i)
    exact h.grow hbacked (hsent.mono fun m hm hstatus =>
      (hm hstatus).elim fun i hi => ⟨i, _, hbacked i, hi⟩)

theorem AllBacked.step {s : Agent} (h : s.AllBacked) (i : Input) : (s.step i).AllBacked := by
  unfold Agent.step
  split
  · exact AllBacked.handle (s := s.withAnswers i.forks i.deaths) ⟨h.cam, h.sent⟩ i.event
  · exact h

theorem Reachable.allBacked {s : Agent} (h : s.Reachable) : s.AllBacked := by
  obtain ⟨cfg, chmReady, rssdReady, opens, is, rfl⟩ := h
  exact run_invariant_of_step (fun _ i ht => ht.step i) (allBacked_start cfg chmReady rssdReady opens) is

end Agent

/-- The fields of a camera status which tell whether, where and what the camera records. -/
def Sent.recording : Sent → Bool
  | .cameraStatus _ _ _ _ _ _ _ _ recording _ _ => recording
  | _ => false

def Sent.noAudioRecording : Sent → Bool
  | .cameraStatus _ _ _ _ _ _ noAudioRecording _ _ _ _ => noAudioRecording
  | _ => true

def Sent.noChmRecording : Sent → Bool
  | .cameraStatus _ _ _ _ _ _ _ noChmRecording _ _ _ => noChmRecording
  | _ => true

/-- The status word has no other bits than the four, audio only together with video, and none
without a worker; so the camera is reported as recording only if it has a worker. -/
structure Truthful (c : Slot) (p : CamDef) : Prop where
  worker : p.runtime.recordingStatusFlags ≠ 0 → 0 < p.workerPid
  bits : p.runtime.recordingStatusFlags &&& ~~~isRecordingAny = 0
  chmAudio : Has p.runtime.recordingStatusFlags isRecordingChmAudio →
    Has p.runtime.recordingStatusFlags isRecordingChmVideo
  ssdAudio : Has p.runtime.recordingStatusFlags isRecordingSsdAudio →
    Has p.runtime.recordingStatusFlags isRecordingSsdVideo
  recording : (cameraStatus c p).recording = true → 0 < p.workerPid
  audio : (cameraStatus c p).noAudioRecording = false → 0 < p.workerPid
  chm : (cameraStatus c p).noChmRecording = false → 0 < p.workerPid

theorem StatusBacked.truthful {p : CamDef} (h : StatusBacked p) (c : Slot) : Truthful c p := by
  have hword : ∀ f ∈ statusWords, f &&& ~~~isRecordingAny = 0 ∧
      (Has f isRecordingChmAudio → Has f isRecordingChmVideo) ∧
      (Has f isRecordingSsdAudio → Has f isRecordingSsdVideo) := by
    rw [forall_statusWords]
    decide
  obtain ⟨hbits, hchm, hssd⟩ := hword _ h.word
  have hworker : p.runtime.recordingStatusFlags ≠ 0 → 0 < p.workerPid := fun hne =>
    Nat.pos_of_ne_zero (h.worker hne)
  have hhas : ∀ mask, Has p.runtime.recordingStatusFlags mask → 0 < p.workerPid := by
    intro mask hmask
    refine hworker fun hzero => ?_
    rw [hzero] at hmask
    exact not_has_zero mask hmask
  refine ⟨hworker, hbits, hchm, hssd, fun hrec => hworker fun hzero => ?_, fun haudio => ?_, fun hvideo => ?_⟩
  · simp only [cameraStatus, Sent.recording, hzero, ne_eq, not_true_eq_false, if_false,
      decide_eq_true_eq] at hrec
    exact not_has_zero _ hrec
  · simp only [cameraStatus, Sent.noAudioRecording, Bool.not_eq_false', decide_eq_true_eq] at haudio
    exact hhas _ haudio
  · simp only [cameraStatus, Sent.noChmRecording, Bool.not_eq_false', decide_eq_true_eq] at hvideo
    exact hhas _ hvideo

namespace Agent

/-- In every reachable state the status of every configured camera is truthful, and so was every
camera status sent so far when it was sent. -/
theorem reachable_truthful {s : Agent} (h : s.Reachable) :
    (∀ c : Slot, c.val < s.media.nCameras → Truthful c (s.cam c)) ∧
      ∀ m ∈ s.side.sent, m.isCameraStatus = true → ∃ c p, Truthful c p ∧ m = cameraStatus c p := by
  refine ⟨fun c _ => (h.allBacked.cam c).truthful c, fun m hm hstatus => ?_⟩
  obtain ⟨c, p, hp, heq⟩ := h.allBacked.sent m hm hstatus
  exact ⟨c, p, hp.truthful c, heq⟩

/-- The recording camera is reported as recording, and has a worker. -/
theorem reachable_truthful_cab :
    (cameraStatus 0 ((run step (start (cabConfig true) true true true) cabRecording).cam 0)).recording = true ∧
      Truthful 0 ((run step (start (cabConfig true) true true true) cabRecording).cam 0) :=
  ⟨by decide, (reachable_truthful ⟨cabConfig true, true, true, true, cabRecording, rfl⟩).1 0 (by decide)⟩

theorem Reachable.ownPids {s : Agent} (h : s.Reachable) : OwnPids s := by
  obtain ⟨cfg, chmReady, rssdReady, opens, is, rfl⟩ := h
  refine run_invariant_of_step (fun s i hown => ?_) ⟨List.nodup_nil, fun p hp => absurd hp List.not_mem_nil⟩ is
  unfold Agent.step
  split
  · have hown' : OwnPids (s.withAnswers i.forks i.deaths) := ⟨hown.nodup, hown.le⟩
    have hrewrites {s' : Agent} {f : Slot → CamDef → CamDef}
        (hrw : Rewrites (s.withAnswers i.forks i.deaths) s' f) : OwnPids s' :=
      ⟨hrw.recorders ▸ hown'.nodup, hrw.recorders ▸ hrw.os ▸ hown'.le⟩
    cases (s.withAnswers i.forks i.deaths).handle_handled i.event with
    | evolved _ hall => exact hall.ownPids hown'
    | settings _ _ _ _ hrw => exact hrewrites hrw
    | ready _ _ _ hrw => exact hrewrites hrw
    | shutdown _ _ hrw => exact hrewrites hrw
    | sighup _ _ _ _ _ _ hsighup => exact hsighup hown'
  · exact hown

/-- The worker the camera had was terminated, and the camera is idle and marked as paused. -/
structure PauseCarriedOut (c : Slot) (s s' : Agent) : Prop where
  signalled : s'.recorders.signalled = s.recorders.signalled ++ [(s.cam c).workerPid]
  ended : (s.cam c).workerPid ∉ s'.recorders.running
  workerPid : (s'.cam c).workerPid = 0
  recordingStatusFlags : (s'.cam c).runtime.recordingStatusFlags = 0
  commandedPaused : (s'.cam c).runtime.commandedPaused = true

/-- In a reachable state a pause of an online, assigned camera with a worker is carried out exactly
when the camera is marked as recording video. -/
theorem reachable_pause_iff {s : Agent} (h : s.Reachable) (hactive : s.statics.ptcActive = true)
    (hshutdown : s.statics.shutdownInProcess = false) {camera : CString} {c : Slot}
    (hfind : raconfFindCamera s.media (camera.take cameraNameLength) = some c)
    (honline : (s.cam c).runtime.isOnline = true) (hassigned : (s.cam c).runtime.isAssigned = true)
    (hworker : 0 < (s.cam c).workerPid) (forks deaths : List Bool) :
    PauseCarriedOut c s (s.step ⟨.cameraRecordPause camera 0, forks, deaths⟩) ↔ s.isRecording c = true := by
  let t := s.withAnswers forks deaths
  have hstep : s.step ⟨.cameraRecordPause camera 0, forks, deaths⟩ = (t.handleCameraRecordPause camera 0).2 := by
    rw [Agent.step, if_pos hactive]
    rfl
  have hrecord : t.handleCameraRecordPause camera 0 =
      if s.isRecording c then (t.modifyRuntime c paused).stopRecordingProcess c else (.success, t) := by
    have hshutdown' : ¬ t.statics.shutdownInProcess = true := by
      change ¬ s.statics.shutdownInProcess = true
      simp [hshutdown]
    have hfind' : raconfFindCamera t.media (camera.take cameraNameLength) = some c := hfind
    have hcam : (t.cam c).runtime.isOnline = true ∧ (t.cam c).runtime.isAssigned = true := ⟨honline, hassigned⟩
    rw [handleCameraRecordPause, if_neg hshutdown', hfind']
    simp only [if_pos hcam]
    change (if (s.isRecording c).toNat ≠ 0 then if s.isRecording c then _ else _ else _) = _
    cases s.isRecording c <;> rfl
  rw [hstep, hrecord]
  cases hrecording : s.isRecording c with
  | false =>
    simp only [Bool.false_eq_true, if_false, iff_false]
    exact fun hpaused => absurd hpaused.workerPid (Nat.ne_of_gt hworker)
  | true =>
    simp only [if_true, iff_true]
    have hpid : ((t.modifyRuntime c paused).cam c).workerPid = (s.cam c).workerPid := by
      rw [cam_modifyRuntime_self]
      rfl
    obtain ⟨-, hcam, -, hrecorders⟩ := stopRecordingProcess_of_worker (t.modifyRuntime c paused) c
      (by rw [hpid]; exact Nat.ne_of_gt hworker)
    rw [hpid] at hrecorders
    rw [cam_modifyRuntime_self] at hcam
    refine ⟨by rw [hrecorders]; rfl, ?_, by rw [hcam]; rfl, ?_, by rw [hcam]; rfl⟩
    · rw [hrecorders]
      exact h.ownPids.nodup.not_mem_erase
    · rw [hcam]
      exact stopped_status (p := { t.cam c with runtime := paused (t.cam c).runtime }) (h.allBacked.cam c).word

/-- The pause of the recording camera is carried out. -/
theorem reachable_pause_iff_cab :
    PauseCarriedOut 0 (run step (start (cabConfig true) true true true) cabRecording)
      ((run step (start (cabConfig true) true true true) cabRecording).step
        (Event.quiet (.cameraRecordPause ['C', 'A', 'B'] 0))) :=
  (reachable_pause_iff ⟨cabConfig true, true, true, true, cabRecording, rfl⟩ (by decide) (by decide)
    (by decide) (by decide) (by decide) (by decide) [] []).mpr (by decide)

/-- When both drives were reported unready while the camera records, its worker runs on with an
empty status word, and a pause does nothing. -/
theorem reachable_pause_ignored :
    ∃ s : Agent, s.Reachable ∧ s.statics.ptcActive = true ∧ s.statics.shutdownInProcess = false ∧
      raconfFindCamera s.media ['C', 'A', 'B'] = some 0 ∧ (s.cam 0).runtime.isOnline = true ∧
      (s.cam 0).runtime.isAssigned = true ∧ 0 < (s.cam 0).workerPid ∧
      ¬ PauseCarriedOut 0 s (s.step (Event.quiet (.cameraRecordPause ['C', 'A', 'B'] 0))) :=
  ⟨run step (start (cabConfig true) true true true) (cabRecording ++ [Event.quiet (.readyStatus 0 0)]),
    ⟨cabConfig true, true, true, true, _, rfl⟩, by decide, by decide, by decide, by decide, by decide,
    by decide, fun h => absurd h.workerPid (by decide)⟩

end Agent

end RecordingAgent.Reagent
