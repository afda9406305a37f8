import RecordingAgent.Reagent.Commands

/-!
# Who sets the picture parameters

The resolution, the compression and the frame rate of a camera are set by the messages about them and when the
configuration is read, and so is the locomotive identifier by its own message. Looking after the workers leaves all of
them as they are.
-/

namespace RecordingAgent.Reagent

open Foundation

/-- The picture parameters of a camera. -/
def CamRuntime.picture (r : CamRuntime) : ℤ × ℤ × ℤ := (r.resolution, r.compression, r.frameRate)

/-- The picture parameters of all cameras are the same, and so is the locomotive identifier. -/
structure PictureKept (s s' : Agent) : Prop where
  picture : ∀ d, (s'.cam d).runtime.picture = (s.cam d).runtime.picture
  locoId : s'.media.locoId = s.media.locoId

namespace PictureKept

variable {s s' s'' : Agent} {c : Slot}

theorem refl (s : Agent) : PictureKept s s := ⟨fun _ => rfl, rfl⟩

theorem trans (h : PictureKept s s') (h' : PictureKept s' s'') : PictureKept s s'' :=
  ⟨fun d => (h'.picture d).trans (h.picture d), h'.locoId.trans h.locoId⟩

theorem of_media (h : s'.media = s.media) : PictureKept s s' := by
  refine ⟨fun d => ?_, by rw [h]⟩
  rw [Agent.cam, Agent.cam, h]

theorem modifyCam (s : Agent) {f : CamDef → CamDef} (h : (f (s.cam c)).runtime.picture = (s.cam c).runtime.picture) :
    PictureKept s (s.modifyCam c f) := by
  refine ⟨fun d => ?_, rfl⟩
  by_cases hd : d = c
  · rw [hd, Agent.cam_modifyCam_self, h]
  · rw [Agent.cam_modifyCam_of_ne s c hd]

theorem modifyRuntime (s : Agent) (f : CamRuntime → CamRuntime) (h : ∀ r, (f r).picture = r.picture) :
    PictureKept s (s.modifyRuntime c f) := modifyCam s (h _)

theorem cameraRecordingJustStopped (s : Agent) (c : Slot) : PictureKept s (s.cameraRecordingJustStopped c) :=
  @trans s (s.modifyCam c CamDef.stopped) _ (modifyCam s rfl) ⟨fun _ => rfl, rfl⟩

theorem checkWorkerStatus (s : Agent) (pid : ℕ) : PictureKept s (s.checkWorkerStatus pid).2 :=
  of_media (s.checkWorkerStatus_frame pid).1

theorem stopRecordingProcess (s : Agent) (c : Slot) : PictureKept s (s.stopRecordingProcess c).2 := by
  unfold Agent.stopRecordingProcess
  dsimp only
  split
  · have hstopped : PictureKept s (((s.terminate (s.cam c).workerPid).cameraRecordingJustStopped c).modifyCam c
        fun p => { p with workerPid := 0 }) :=
      (@trans s (s.terminate (s.cam c).workerPid) _ (of_media rfl) (cameraRecordingJustStopped _ c)).trans
        (modifyCam _ rfl)
    split
    · exact hstopped.trans (of_media rfl)
    · exact hstopped
  · exact refl s

theorem workerStarted (s : Agent) (c : Slot) (pid : ℕ) : PictureKept s (s.workerStarted c pid) := by
  have hcam := @modifyCam c s (fun p => { p with
    workerPid := pid
    runtime := { p.runtime with recordingStatusFlags := recordingStatus p.runtime.recordingModeFlags } }) rfl
  unfold Agent.workerStarted
  dsimp only
  split
  · exact hcam.trans ⟨fun _ => rfl, rfl⟩
  · exact hcam.trans ⟨fun _ => rfl, rfl⟩

theorem launchWorker (s : Agent) (c cid : Slot) : PictureKept s (s.launchWorker c cid).2 := by
  have hspawn : ∀ command, PictureKept s (s.spawnProcess c command).2 := by
    intro command
    unfold Agent.spawnProcess
    split
    · exact of_media rfl
    · exact of_media rfl
  have hkept : ∀ r : Agent, PictureKept s r → PictureKept s r.handleMetarec.handleSpaceMonitor :=
    fun r hr => hr.trans (of_media rfl)
  unfold Agent.launchWorker
  refine hkept _ ?_
  split
  · have hspawned := hspawn (raconfPrepareForRecording s.media (s.cam c))
    split
    · rename_i pid t heq
      rw [heq] at hspawned
      exact (hspawned.trans (@of_media t (t.setRetry cid 0) rfl)).trans (workerStarted _ c pid)
    · rename_i t heq
      rw [heq] at hspawned
      exact hspawned.trans (of_media rfl)
  · exact refl s

theorem startRecordingProcess (s : Agent) (c : Slot) : PictureKept s (s.startRecordingProcess c).2 := by
  have hmode : ∀ t : Agent, ∀ mode, PictureKept t (t.setMode c mode) := fun t mode =>
    modifyRuntime t (fun r => { r with recordingModeFlags := mode }) fun _ => rfl
  have hretry : ∀ t : Agent, ∀ cid n, PictureKept t (t.setRetry cid n) := fun t cid n => of_media rfl
  unfold Agent.startRecordingProcess
  dsimp only
  split
  · exact modifyRuntime s (fun r => { r with isAssigned := false }) fun _ => rfl
  · split
    · split
      · exact (hmode _ _).trans (hretry _ _ _)
      · split
        · exact ((hmode _ _).trans (hmode _ _)).trans (launchWorker _ _ _)
        · exact (hmode _ _).trans (launchWorker _ _ _)
    · exact (hmode _ _).trans (hretry _ _ _)

/-- Looking after the worker of a camera leaves the picture parameters alone. -/
theorem respects (c : Slot) : Respects c PictureKept where
  refl := refl
  trans := trans
  checkWorkerStatus := checkWorkerStatus
  startRecordingProcess s := startRecordingProcess s c
  stopRecordingProcess s := stopRecordingProcess s c
  setCamonTtl _ _ := of_media rfl
  setRpTtl _ _ := of_media rfl
  cleared s _ := modifyRuntime s clearRecordingStatus fun _ => rfl
  lost s := (modifyCam s rfl).trans (cameraRecordingJustStopped _ c)
  died s := (modifyCam s rfl).trans (cameraRecordingJustStopped _ c)

theorem restartCamera (s : Agent) (c : Slot) : PictureKept s (s.restartCamera c) := (respects c).restartCamera s

theorem reflectProbe (arp : Slot → Option CString) (s : Agent) (c : Slot) : PictureKept s (s.reflectProbe arp c) := by
  refine (respects c).reflectProbe ?_ ?_ ?_ s
  · intro s isAlive
    exact @trans s (s.modifyRuntime c fun r => { r with isOnline := isAlive }) _ (modifyRuntime s _ fun _ => rfl)
      (of_media rfl)
  · intro s j alive
    exact of_media rfl
  · intro s
    unfold Agent.lookupAddress
    dsimp only
    split
    · split
      · exact @trans s { s with statics := { s.statics with startTimer := 0 } } _ (of_media rfl) (modifyCam _ rfl)
      · exact of_media rfl
    · exact of_media rfl

theorem camonPass (s : Agent) (answers : List CamonStatus) (arp : Slot → Option CString) :
    PictureKept s (s.camonPass answers arp) :=
  Agent.camonPass_invariant (refl s) (fun _ _ _ h => h.trans (of_media rfl))
    fun t c _ h => h.trans (reflectProbe arp t c)

theorem restartPass (s : Agent) : PictureKept s s.restartPass :=
  Agent.restartPass_invariant (refl s) (fun _ h => h.trans (of_media rfl)) fun t c _ h => h.trans (restartCamera t c)

theorem handleCameraRecordPause (s : Agent) (camera : CString) (record : ℕ) :
    PictureKept s (s.handleCameraRecordPause camera record).2 := by
  unfold Agent.handleCameraRecordPause
  dsimp only
  repeat' split
  · exact refl s
  · exact refl s
  · exact (modifyRuntime s Agent.paused fun _ => rfl).trans (stopRecordingProcess _ _)
  · exact (modifyRuntime s Agent.resumed fun _ => rfl).trans (startRecordingProcess _ _)
  · exact refl s
  · exact refl s
  · exact of_media rfl

theorem resetCameraStream (s : Agent) (camera : CString) : PictureKept s (s.resetCameraStream camera).2 := by
  have hpaused := handleCameraRecordPause s (camera.take cameraNameLength) 0
  unfold Agent.resetCameraStream
  dsimp only
  split
  · exact hpaused
  · split
    · exact hpaused.trans (handleCameraRecordPause _ _ 1)
    · exact hpaused.trans (handleCameraRecordPause _ _ 1)

theorem attachSaved (s : Agent) (i : Slot) (saved : CamDef) : PictureKept s (s.attachSaved i saved) := by
  have hworker := @modifyCam i s (fun p => { p with workerPid := saved.workerPid }) rfl
  unfold Agent.attachSaved
  dsimp only
  split
  · refine hworker.trans (modifyRuntime _ _ ?_)
    exact fun _ => rfl
  · split
    · exact hworker.trans (stopRecordingProcess _ i)
    · exact hworker

theorem restoreCamera (old : Slot → CamDef) (s : Agent) (i : Slot) : PictureKept s (Agent.restoreCamera old s i) := by
  unfold Agent.restoreCamera
  split
  · split
    · exact (attachSaved s i _).trans (of_media rfl)
    · exact of_media rfl
  · exact refl s

theorem handleSighup (s : Agent) (config : Option Config) (opens : Bool) :
    PictureKept (s.reread config opens) (s.handleSighup config opens) :=
  Foundation.foldl_invariant (refl _) fun t i _ h => h.trans (restoreCamera s.media.cameras t i)

end PictureKept

end RecordingAgent.Reagent
