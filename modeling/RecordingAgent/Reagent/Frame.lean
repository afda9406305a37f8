import RecordingAgent.Reagent.Timer

/-!
# What one camera's handling leaves alone

`Frame c s s'` says that the agent went from `s` to `s'` touching, besides the helpers and
the messages sent, only what belongs to camera `c`: its record, its countdowns, its worker
starts and the number of recording cameras. Names, drives, the shutdown flag and the sockets
stay. The operations on one camera are framed by that camera, and frames compose.

The later sections compute what each operation does to the camera itself.

The handlers that look after a camera's worker are followed once, for any relation of states that
holds across the steps they are made of.
-/

namespace RecordingAgent.Reagent

open Foundation

/-- A reflexive and transitive relation of states which holds across the steps that look after the
worker of camera `c`. -/
structure Respects (c : Slot) (R : Agent → Agent → Prop) : Prop where
  refl : ∀ s, R s s
  trans : ∀ {s s' s''}, R s s' → R s' s'' → R s s''
  checkWorkerStatus : ∀ s pid, R s (s.checkWorkerStatus pid).2
  startRecordingProcess : ∀ s, R s (s.startRecordingProcess c).2
  stopRecordingProcess : ∀ s, R s (s.stopRecordingProcess c).2
  setCamonTtl : ∀ s n, R s (s.setCamonTtl c n)
  setRpTtl : ∀ s n, R s (s.setRpTtl c n)
  cleared : ∀ s, (s.cam c).workerPid = 0 → R s (s.modifyRuntime c clearRecordingStatus)
  lost : ∀ s, R s ((s.modifyCam c fun p => { p with workerPid := 0 }).cameraRecordingJustStopped c)
  died : ∀ s, R s ((s.modifyCam c fun p => { p with
    workerPid := 0, runtime := { p.runtime with isOnline := false } }).cameraRecordingJustStopped c)

namespace Respects

variable {c : Slot} {R : Agent → Agent → Prop}

theorem reflectOffline (hR : Respects c R) (s : Agent) : R s (s.reflectOffline c) := by
  unfold Agent.reflectOffline
  split
  · dsimp only
    split
    · have h := hR.checkWorkerStatus s (s.cam c).workerPid
      split <;> rename_i heq <;> rw [heq] at h
      · exact hR.trans h (hR.lost _)
      · exact hR.trans h (hR.stopRecordingProcess _)
    · rename_i hidle
      exact hR.cleared s (Nat.eq_zero_of_not_pos hidle)
  · exact hR.refl s

theorem reflectOnline (hR : Respects c R) (s : Agent) : R s (s.reflectOnline c) := by
  unfold Agent.reflectOnline
  split
  · dsimp only
    split
    · have h := hR.checkWorkerStatus s (s.cam c).workerPid
      split <;> rename_i heq <;> rw [heq] at h
      · exact hR.trans h (hR.startRecordingProcess _)
      · exact hR.trans h (hR.setCamonTtl _ _)
    · split
      · exact hR.setCamonTtl _ _
      · exact hR.trans (hR.setCamonTtl s _) (hR.startRecordingProcess _)
  · exact hR.refl s

theorem reflectCameraOnlineStatus (hR : Respects c R) (hset : ∀ s isAlive, R s (s.setOnline c isAlive))
    (s : Agent) (isAlive : Bool) : R s (s.reflectCameraOnlineStatus c isAlive).2 := by
  unfold Agent.reflectCameraOnlineStatus
  have hfirst : R s (if isAlive then s.setCamonTtl c camonTtlStart else s) := by
    split
    · exact hR.setCamonTtl _ _
    · exact hR.refl s
  generalize (if isAlive then s.setCamonTtl c camonTtlStart else s) = t at hfirst ⊢
  dsimp only
  split
  · exact hfirst
  · split
    · exact hR.trans hfirst (hR.setCamonTtl _ _)
    · have hsecond : R t (if isAlive then t.reflectOnline c else t.reflectOffline c) := by
        split
        · exact hR.reflectOnline t
        · exact hR.reflectOffline t
      generalize (if isAlive then t.reflectOnline c else t.reflectOffline c) = u at hsecond ⊢
      split
      · exact hR.trans hfirst hsecond
      · exact hR.trans (hR.trans hfirst hsecond) (hset _ _)

theorem reflectProbe (hR : Respects c R) (hset : ∀ s isAlive, R s (s.setOnline c isAlive))
    {arp : Slot → Option CString} (halive : ∀ s j alive, R s (s.setCamonAlive j alive))
    (hlookup : ∀ s, R s (s.lookupAddress c arp)) (s : Agent) : R s (s.reflectProbe arp c) := by
  unfold Agent.reflectProbe
  split
  · split
    · exact hR.trans (hR.reflectCameraOnlineStatus hset _ _) (halive _ _ _)
    · dsimp only
      split
      · exact hR.trans (hR.reflectCameraOnlineStatus hset _ _) (hlookup _)
      · exact hR.reflectCameraOnlineStatus hset _ _
  · exact hR.refl s

theorem restartCamera (hR : Respects c R) (s : Agent) : R s (s.restartCamera c) := by
  unfold Agent.restartCamera
  dsimp only
  split
  · split
    · have h := hR.checkWorkerStatus (s.setRpTtl c 0) (s.cam c).workerPid
      split <;> rename_i heq <;> rw [heq] at h
      · exact hR.trans (hR.trans (hR.setRpTtl s 0) h) (hR.died _)
      · exact hR.trans (hR.setRpTtl s 0) h
    · split
      · split
        · exact hR.trans (hR.setRpTtl s 0) (hR.startRecordingProcess _)
        · exact hR.setRpTtl s _
      · exact hR.refl s
  · exact hR.refl s

end Respects

/-- Only what belongs to camera `c` changed, apart from helpers and messages. -/
structure Frame (c : Slot) (s s' : Agent) : Prop where
  nCameras : s'.media.nCameras = s.media.nCameras
  isChmReady : s'.media.isChmReady = s.media.isChmReady
  isRssdReady : s'.media.isRssdReady = s.media.isRssdReady
  shutdown : s'.statics.shutdownInProcess = s.statics.shutdownInProcess
  ptcActive : s'.statics.ptcActive = s.statics.ptcActive
  sockets : s'.sockets = s.sockets
  camonSock : s'.media.camonSock = s.media.camonSock
  name : (s'.cam c).name = (s.cam c).name
  cam : ∀ d, d ≠ c → s'.cam d = s.cam d
  rpTtl : ∀ d, d ≠ c → s'.statics.rpTtl d = s.statics.rpTtl d
  spawnsOf : ∀ d, d ≠ c → s'.spawnsOf d = s.spawnsOf d
  running : ∀ p ∈ s'.recorders.running, p ∈ s.recorders.running ∨ p ≠ 0

namespace Frame

variable {c : Slot} {s s' s'' : Agent}

theorem refl (c : Slot) (s : Agent) : Frame c s s :=
  ⟨rfl, rfl, rfl, rfl, rfl, rfl, rfl, rfl, fun _ _ => rfl, fun _ _ => rfl, fun _ _ => rfl, fun _ => Or.inl⟩

theorem trans (h : Frame c s s') (h' : Frame c s' s'') : Frame c s s'' where
  nCameras := h'.nCameras.trans h.nCameras
  isChmReady := h'.isChmReady.trans h.isChmReady
  isRssdReady := h'.isRssdReady.trans h.isRssdReady
  shutdown := h'.shutdown.trans h.shutdown
  ptcActive := h'.ptcActive.trans h.ptcActive
  sockets := h'.sockets.trans h.sockets
  camonSock := h'.camonSock.trans h.camonSock
  name := h'.name.trans h.name
  cam d hd := (h'.cam d hd).trans (h.cam d hd)
  rpTtl d hd := (h'.rpTtl d hd).trans (h.rpTtl d hd)
  spawnsOf d hd := (h'.spawnsOf d hd).trans (h.spawnsOf d hd)
  running p hp := (h'.running p hp).elim (h.running p) Or.inr

/-- Every camera keeps its name, not only the others. -/
theorem names (h : Frame c s s') (d : Slot) : (s'.cam d).name = (s.cam d).name := by
  by_cases hd : d = c
  · rw [hd]
    exact h.name
  · rw [h.cam d hd]

/-- The configured slots stay. -/
theorem configured (h : Frame c s s') : s'.media.configured = s.media.configured := by
  rw [MediaInfo.configured, MediaInfo.configured, h.nCameras]

/-- Cameras are found by the same names. -/
theorem raconfFindCamera (h : Frame c s s') (name : CString) :
    raconfFindCamera s'.media name = raconfFindCamera s.media name :=
  Agent.raconfFindCamera_congr h.nCameras h.names name

/-- A change of the camera's record which keeps its name is framed by it. -/
theorem modifyCam (s : Agent) {f : CamDef → CamDef} (hname : (f (s.cam c)).name = (s.cam c).name) :
    Frame c s (s.modifyCam c f) where
  nCameras := rfl
  isChmReady := rfl
  isRssdReady := rfl
  shutdown := rfl
  ptcActive := rfl
  sockets := rfl
  camonSock := rfl
  name := by rw [Agent.cam_modifyCam_self, hname]
  cam d hd := Agent.cam_modifyCam_of_ne s c hd f
  rpTtl _ _ := rfl
  spawnsOf _ _ := rfl
  running _ := Or.inl

theorem modifyRuntime (s : Agent) (f : CamRuntime → CamRuntime) : Frame c s (s.modifyRuntime c f) :=
  modifyCam s rfl

/-- A change of helpers, messages or counters is framed by any camera. -/
theorem of_media (hmedia : s'.media = s.media) (hspawned : s'.recorders.spawned = s.recorders.spawned)
    (hsockets : s'.sockets = s.sockets) (hstatics : s'.statics = s.statics)
    (hrunning : s'.recorders.running ⊆ s.recorders.running) : Frame c s s' := by
  refine ⟨by rw [hmedia], by rw [hmedia], by rw [hmedia], by rw [hstatics], by rw [hstatics], hsockets,
    by rw [hmedia], ?_, fun d _ => ?_, fun d _ => by rw [hstatics], fun d _ => ?_, fun p hp => Or.inl (hrunning hp)⟩
  · simp only [Agent.cam, hmedia]
  · simp only [Agent.cam, hmedia]
  · simp only [Agent.spawnsOf, hspawned]

theorem send (s : Agent) (m : Sent) : Frame c s (s.send m) := of_media rfl rfl rfl rfl (List.Subset.refl _)

theorem sendCameraStatus (s : Agent) (d : Slot) : Frame c s (s.sendCameraStatus d) := send s _

theorem sendRecordingStatusMsg (s : Agent) : Frame c s s.sendRecordingStatusMsg := send s _

theorem helpers (s : Agent) : Frame c s s.handleMetarec.handleSpaceMonitor := of_media rfl rfl rfl rfl (List.Subset.refl _)

theorem stopSpaceMonitor (s : Agent) : Frame c s s.stopSpaceMonitor := of_media rfl rfl rfl rfl (List.Subset.refl _)

theorem checkWorkerStatus (s : Agent) (pid : ℕ) : Frame c s (s.checkWorkerStatus pid).2 := by
  obtain ⟨hmedia, hstatics, hsockets, hspawned, _⟩ := s.checkWorkerStatus_frame pid
  exact of_media hmedia hspawned hsockets hstatics (s.checkWorkerStatus_running pid)

theorem setCamsRecording (s : Agent) (n : ℕ) : Frame c s (s.setCamsRecording n) :=
  ⟨rfl, rfl, rfl, rfl, rfl, rfl, rfl, rfl, fun _ _ => rfl, fun _ _ => rfl, fun _ _ => rfl, fun _ => Or.inl⟩

theorem setRetry (s : Agent) (d : Slot) (n : ℕ) : Frame c s (s.setRetry d n) :=
  ⟨rfl, rfl, rfl, rfl, rfl, rfl, rfl, rfl, fun _ _ => rfl, fun _ _ => rfl, fun _ _ => rfl, fun _ => Or.inl⟩

theorem setCamonTtl (s : Agent) (d : Slot) (n : ℤ) : Frame c s (s.setCamonTtl d n) :=
  ⟨rfl, rfl, rfl, rfl, rfl, rfl, rfl, rfl, fun _ _ => rfl, fun _ _ => rfl, fun _ _ => rfl, fun _ => Or.inl⟩

theorem setRpTtl (s : Agent) (n : ℤ) : Frame c s (s.setRpTtl c n) where
  nCameras := rfl
  isChmReady := rfl
  isRssdReady := rfl
  shutdown := rfl
  ptcActive := rfl
  sockets := rfl
  camonSock := rfl
  name := rfl
  cam _ _ := rfl
  rpTtl d hd := by simp [Agent.setRpTtl, hd]
  spawnsOf _ _ := rfl
  running _ := Or.inl

theorem terminate (s : Agent) (pid : ℕ) : Frame c s (s.terminate pid) :=
  of_media rfl rfl rfl rfl List.erase_subset

/-- Starting a worker for the camera adds to no other camera's starts. -/
theorem spawnProcess (s : Agent) (command : Command) : Frame c s (s.spawnProcess c command).2 := by
  unfold Agent.spawnProcess
  split
  · exact of_media rfl rfl rfl rfl (List.Subset.refl _)
  · rename_i pid os heq
    refine ⟨rfl, rfl, rfl, rfl, rfl, rfl, rfl, rfl, fun _ _ => rfl, fun _ _ => rfl, fun d hd => ?_,
      fun p hp => ?_⟩
    · simp [Agent.spawnsOf, Ne.symm hd]
    · rcases List.mem_cons.mp hp with rfl | hp
      · exact Or.inr (Os.fork_ne_zero heq)
      · exact Or.inl hp

theorem cameraRecordingJustStopped (s : Agent) : Frame c s (s.cameraRecordingJustStopped c) :=
  ((((modifyCam s rfl).trans (sendCameraStatus _ _)).trans (sendRecordingStatusMsg _)).trans
    (setCamsRecording _ _)).trans (helpers _)

theorem stopRecordingProcess (s : Agent) : Frame c s (s.stopRecordingProcess c).2 := by
  unfold Agent.stopRecordingProcess
  dsimp only
  split
  · have h := ((terminate s (s.cam c).workerPid).trans (cameraRecordingJustStopped (c := c) _)).trans
      (modifyCam _ (f := fun p => { p with workerPid := 0 }) rfl)
    split
    · exact h.trans (stopSpaceMonitor _)
    · exact h
  · exact refl c s

theorem workerStarted (s : Agent) (pid : ℕ) : Frame c s (s.workerStarted c pid) := by
  unfold Agent.workerStarted
  dsimp only
  split
  · exact ((((modifyCam s rfl).trans (setCamsRecording _ _)).trans (sendCameraStatus _ _)).trans
      (sendRecordingStatusMsg _)).trans (stopSpaceMonitor _)
  · exact (((modifyCam s rfl).trans (setCamsRecording _ _)).trans (sendCameraStatus _ _)).trans
      (sendRecordingStatusMsg _)

theorem launchWorker (s : Agent) (cid : Slot) : Frame c s (s.launchWorker c cid).2 := by
  unfold Agent.launchWorker
  refine Frame.trans ?_ (helpers _)
  split
  · have h := spawnProcess (c := c) s (raconfPrepareForRecording s.media (s.cam c))
    split <;> rename_i heq <;> rw [heq] at h
    · exact (h.trans (setRetry _ _ _)).trans (workerStarted _ _)
    · exact h.trans (setRetry _ _ _)
  · exact refl c s

theorem startRecordingProcess (s : Agent) : Frame c s (s.startRecordingProcess c).2 := by
  unfold Agent.startRecordingProcess
  dsimp only
  have hmode : ∀ s : Agent, ∀ mode, Frame c s (s.setMode c mode) := fun s mode => modifyRuntime s _
  split
  · exact modifyRuntime s fun r => { r with isAssigned := false }
  · split
    · split
      · exact (hmode _ _).trans (setRetry _ _ _)
      · split
        · exact ((hmode _ _).trans (hmode _ _)).trans (launchWorker _ _)
        · exact (hmode _ _).trans (launchWorker _ _)
    · exact (hmode _ _).trans (setRetry _ _ _)

theorem respects (c : Slot) : Respects c (Frame c) where
  refl := refl c
  trans := trans
  checkWorkerStatus := checkWorkerStatus
  startRecordingProcess := startRecordingProcess
  stopRecordingProcess := stopRecordingProcess
  setCamonTtl s := setCamonTtl s c
  setRpTtl := setRpTtl
  cleared s _ := modifyRuntime s _
  lost s := (modifyCam s rfl).trans (cameraRecordingJustStopped _)
  died s := (modifyCam s rfl).trans (cameraRecordingJustStopped _)

theorem reflectOffline (s : Agent) : Frame c s (s.reflectOffline c) := (respects c).reflectOffline s

theorem reflectOnline (s : Agent) : Frame c s (s.reflectOnline c) := (respects c).reflectOnline s

theorem setOnline (s : Agent) (isAlive : Bool) : Frame c s (s.setOnline c isAlive) :=
  ((modifyRuntime s _).trans (sendCameraStatus _ _)).trans (setCamonTtl _ _ _)

theorem reflectCameraOnlineStatus (s : Agent) (isAlive : Bool) :
    Frame c s (s.reflectCameraOnlineStatus c isAlive).2 :=
  (respects c).reflectCameraOnlineStatus setOnline s isAlive

theorem lookupAddress (s : Agent) (arp : Slot → Option CString) : Frame c s (s.lookupAddress c arp) := by
  unfold Agent.lookupAddress
  have hticks : ∀ n, Frame c s { s with statics := { s.statics with startTimer := n } } := fun n =>
    ⟨rfl, rfl, rfl, rfl, rfl, rfl, rfl, rfl, fun _ _ => rfl, fun _ _ => rfl, fun _ _ => rfl, fun _ => Or.inl⟩
  dsimp only
  split
  · split
    · exact (hticks 0).trans (modifyCam _ rfl)
    · exact hticks _
  · exact hticks _

theorem setCamonAlive (s : Agent) (j : ℕ) (alive : Bool) : Frame c s (s.setCamonAlive j alive) :=
  ⟨rfl, rfl, rfl, rfl, rfl, rfl, rfl, rfl, fun _ _ => rfl, fun _ _ => rfl, fun _ _ => rfl, fun _ => Or.inl⟩

theorem reflectProbe (arp : Slot → Option CString) (s : Agent) : Frame c s (s.reflectProbe arp c) :=
  (respects c).reflectProbe setOnline setCamonAlive (fun s => lookupAddress s arp) s

theorem restartCamera (s : Agent) : Frame c s (s.restartCamera c) := (respects c).restartCamera s

end Frame

namespace Agent

/-- Stopping a camera leaves the counters. -/
theorem stopRecordingProcess_statics (s : Agent) (c : Slot) :
    (s.stopRecordingProcess c).2.statics = s.statics := by
  unfold stopRecordingProcess
  dsimp only
  split
  · dsimp only
    split
    · rfl
    · rfl
  · rfl

/-- So does what a camera that goes offline has running. -/
theorem reflectOffline_statics (s : Agent) (c : Slot) : (s.reflectOffline c).statics = s.statics := by
  unfold reflectOffline
  split
  · dsimp only
    split
    · have hcheck := (s.checkWorkerStatus_frame (s.cam c).workerPid).2.1
      split <;> rename_i heq <;> rw [heq] at hcheck
      · exact hcheck
      · exact (stopRecordingProcess_statics _ c).trans hcheck
    · rfl
  · rfl

end Agent

end RecordingAgent.Reagent
