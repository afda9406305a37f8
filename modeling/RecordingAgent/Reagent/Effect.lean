import RecordingAgent.Reagent.Frame

/-!
# What an operation does to a camera's worker

The accounting side of an operation on one camera: its worker stays as it is, a running one
is given up and the count of recording cameras goes down, or a camera without one gets a
fresh one and the count goes up. Starting, stopping and the two timer halves each have
exactly one of these effects, and only a start which goes through adds to the history of
worker starts.
-/

namespace RecordingAgent.Reagent

open Foundation

/-- The mode word a start puts on the worker's command line. -/
def launchMode (rssdReady : Bool) (p : CamDef) : Flags :=
  if Has (recordingMode p) doRecordSsdVideo ∧ rssdReady = false then
    recordingMode p &&& ~~~(doRecordSsdVideo ||| doRecordSsdAudio)
  else recordingMode p

/-- A start of camera `c` as it goes through in state `s`. -/
structure LaunchedFrom (c : Slot) (s : Agent) (sp : Spawn) : Prop where
  slot : sp.slot = c
  chmReady : sp.chmReady = s.media.isChmReady
  rssdReady : sp.rssdReady = s.media.isRssdReady
  recordFlags : sp.command.recordFlags = launchMode s.media.isRssdReady (s.cam c)
  chm_ready : Has (recordingMode (s.cam c)) doRecordChmVideo → s.media.isChmReady = true
  assigned : (s.cam c).runtime.isAssigned = true

/-- The camera's worker, the count and the start history are as they were. -/
structure WorkerKept (c : Slot) (s s' : Agent) : Prop where
  pid : (s'.cam c).workerPid = (s.cam c).workerPid
  count : s'.media.nCamsRecording = s.media.nCamsRecording
  spawned : s'.recorders.spawned = s.recorders.spawned

/-- The camera gave up its worker, and one camera less is counted. -/
structure WorkerLost (c : Slot) (s s' : Agent) : Prop where
  pid_before : (s.cam c).workerPid ≠ 0
  pid : (s'.cam c).workerPid = 0
  count : s'.media.nCamsRecording = s.media.nCamsRecording - 1
  spawned : s'.recorders.spawned = s.recorders.spawned

/-- The camera had no worker and got a fresh one, and one camera more is counted. -/
structure WorkerStarted (c : Slot) (s s' : Agent) : Prop where
  pid_before : (s.cam c).workerPid = 0
  pid : (s'.cam c).workerPid ≠ 0
  count : s'.media.nCamsRecording = s.media.nCamsRecording + 1
  spawned : ∃ sp, LaunchedFrom c s sp ∧ s'.recorders.spawned = s.recorders.spawned ++ [sp]

theorem WorkerKept.refl (c : Slot) (s : Agent) : WorkerKept c s s := ⟨rfl, rfl, rfl⟩

theorem WorkerKept.trans {c : Slot} {s s' s'' : Agent} (h : WorkerKept c s s')
    (h' : WorkerKept c s' s'') : WorkerKept c s s'' :=
  ⟨h'.pid.trans h.pid, h'.count.trans h.count, h'.spawned.trans h.spawned⟩

/-- What keeps the worker may come before an operation which gives it up. -/
theorem WorkerKept.lost {c : Slot} {s s' s'' : Agent} (h : WorkerKept c s s')
    (h' : WorkerLost c s' s'') : WorkerLost c s s'' :=
  ⟨h.pid ▸ h'.pid_before, h'.pid, h.count ▸ h'.count, h'.spawned.trans h.spawned⟩

/-- What keeps the worker may come after an operation which gives it up. -/
theorem WorkerLost.kept {c : Slot} {s s' s'' : Agent} (h : WorkerLost c s s')
    (h' : WorkerKept c s' s'') : WorkerLost c s s'' :=
  ⟨h.pid_before, h'.pid.trans h.pid, h'.count.trans h.count, h'.spawned.trans h.spawned⟩

namespace Agent

variable (s : Agent) (c : Slot)

theorem checkWorkerStatus_cam (pid : ℕ) (d : Slot) : (s.checkWorkerStatus pid).2.cam d = s.cam d := by
  rw [cam, (s.checkWorkerStatus_frame pid).1, cam]

/-- Once a camera has just stopped it has no worker and is marked as recording nothing. -/
theorem cameraRecordingJustStopped_cam :
    (s.cameraRecordingJustStopped c).cam c = (s.cam c).stopped :=
  cam_modifyCam_self s c CamDef.stopped

theorem cameraRecordingJustStopped_count :
    (s.cameraRecordingJustStopped c).media.nCamsRecording = s.media.nCamsRecording - 1 := by
  change (if s.media.nCamsRecording > 0 then s.media.nCamsRecording - 1 else s.media.nCamsRecording) = _
  split <;> omega

/-- A camera without a worker is not stopped. -/
theorem stopRecordingProcess_of_idle (h : (s.cam c).workerPid = 0) :
    s.stopRecordingProcess c = (.failure, s) := by
  unfold stopRecordingProcess
  simp [h]

/-- Stopping a camera which has a worker succeeds, signals that worker and clears the camera. -/
theorem stopRecordingProcess_of_worker (h : (s.cam c).workerPid ≠ 0) :
    (s.stopRecordingProcess c).1 = .success ∧
      (s.stopRecordingProcess c).2.cam c = (s.cam c).stopped ∧
      (s.stopRecordingProcess c).2.media.nCamsRecording = s.media.nCamsRecording - 1 ∧
      (s.stopRecordingProcess c).2.recorders =
        { s.recorders with
          running := s.recorders.running.erase (s.cam c).workerPid
          signalled := s.recorders.signalled ++ [(s.cam c).workerPid] } := by
  unfold stopRecordingProcess
  simp only [ne_eq, h, not_false_eq_true, if_true, true_and]
  have hcam : ∀ t : Agent, t.cam c = s.cam c →
      ((t.cameraRecordingJustStopped c).modifyCam c fun p => { p with workerPid := 0 }).cam c =
        (s.cam c).stopped := by
    intro t ht
    rw [cam_modifyCam_self, cameraRecordingJustStopped_cam, ht]
    rfl
  have hcount := cameraRecordingJustStopped_count (s.terminate (s.cam c).workerPid) c
  split
  · exact ⟨hcam (s.terminate _) rfl, hcount, rfl⟩
  · exact ⟨hcam (s.terminate _) rfl, hcount, rfl⟩

/-- A failed fork leaves the media record and the workers alone. -/
theorem spawnProcess_none {command : Command} {t : Agent} (h : s.spawnProcess c command = (none, t)) :
    t.media = s.media ∧ t.recorders = s.recorders := by
  unfold spawnProcess at h
  split at h
  · obtain ⟨-, rfl⟩ := Prod.mk.inj h
    exact ⟨rfl, rfl⟩
  · cases (Prod.mk.inj h).1

/-- A successful fork gives a fresh worker and records its start. -/
theorem spawnProcess_some {command : Command} {pid : ℕ} {t : Agent}
    (h : s.spawnProcess c command = (some pid, t)) :
    pid ≠ 0 ∧ t.media = s.media ∧
      t.recorders.spawned = s.recorders.spawned ++
        [⟨c, pid, command, s.media.isChmReady, s.media.isRssdReady⟩] := by
  unfold spawnProcess at h
  split at h
  · cases (Prod.mk.inj h).1
  · rename_i pid' os hfork
    obtain ⟨hpid, rfl⟩ := Prod.mk.inj h
    obtain rfl := Option.some.inj hpid
    exact ⟨Os.fork_ne_zero hfork, rfl, rfl⟩

/-- Forking sends nothing. -/
theorem spawnProcess_sent (command : Command) : (s.spawnProcess c command).2.side.sent = s.side.sent := by
  unfold spawnProcess
  split <;> rfl

/-- Recording a started worker sets the camera's pid and counts the camera. -/
theorem workerStarted_effect (pid : ℕ) :
    ((s.workerStarted c pid).cam c).workerPid = pid ∧
      (s.workerStarted c pid).media.nCamsRecording = s.media.nCamsRecording + 1 ∧
      (s.workerStarted c pid).recorders = s.recorders := by
  have hcam : ((s.modifyCam c fun p =>
      { p with
        workerPid := pid
        runtime := { p.runtime with
          recordingStatusFlags := recordingStatus p.runtime.recordingModeFlags } }).cam c).workerPid
        = pid := by
    rw [cam_modifyCam_self]
  unfold workerStarted
  dsimp only
  split <;> exact ⟨hcam, rfl, rfl⟩

/-- A launch either leaves the camera's worker as it is, or starts one with its mode word. -/
theorem launchWorker_cases (cid : Slot) :
    (((s.launchWorker c cid).2.cam c).workerPid = (s.cam c).workerPid ∧
        (s.launchWorker c cid).2.media.nCamsRecording = s.media.nCamsRecording ∧
        (s.launchWorker c cid).2.recorders.spawned = s.recorders.spawned) ∨
      (s.cam c).runtime.isAssigned = true ∧ (s.cam c).workerPid = 0 ∧
        ((s.launchWorker c cid).2.cam c).workerPid ≠ 0 ∧
        (s.launchWorker c cid).2.media.nCamsRecording = s.media.nCamsRecording + 1 ∧
        ∃ pid, (s.launchWorker c cid).2.recorders.spawned = s.recorders.spawned ++
          [⟨c, pid, raconfPrepareForRecording s.media (s.cam c), s.media.isChmReady,
            s.media.isRssdReady⟩] := by
  unfold launchWorker
  by_cases hlaunch : (s.cam c).runtime.isAssigned = true ∧ (s.cam c).workerPid = 0
  · simp only [if_pos hlaunch]
    rcases hspawn : s.spawnProcess c (raconfPrepareForRecording s.media (s.cam c)) with ⟨_ | pid, t⟩
    · left
      obtain ⟨hmedia, hrecorders⟩ := s.spawnProcess_none c hspawn
      refine ⟨?_, ?_, ?_⟩
      · change (t.media.cameras c).workerPid = _
        rw [hmedia]
        rfl
      · exact congrArg MediaInfo.nCamsRecording hmedia
      · exact congrArg Recorders.spawned hrecorders
    · right
      obtain ⟨hne, hmedia, hspawned⟩ := s.spawnProcess_some c hspawn
      obtain ⟨hpid, hcount, hrecorders⟩ := (t.setRetry cid 0).workerStarted_effect c pid
      refine ⟨hlaunch.1, hlaunch.2, ?_, ?_, pid, ?_⟩
      · exact hpid.trans_ne hne
      · exact hcount.trans (congrArg (MediaInfo.nCamsRecording · + 1) hmedia)
      · exact (congrArg Recorders.spawned hrecorders).trans hspawned
  · simp only [if_neg hlaunch]
    exact Or.inl ⟨rfl, rfl, rfl⟩

/-- Setting the mode word twice leaves the second one. -/
theorem setMode_setMode (mode mode' : Flags) : (s.setMode c mode).setMode c mode' = s.setMode c mode' := by
  simp [setMode, modifyRuntime, modifyCam, cam]

@[simp] theorem setMode_cam (mode : Flags) :
    (s.setMode c mode).cam c =
      { s.cam c with runtime := { (s.cam c).runtime with recordingModeFlags := mode } } := by
  simp [setMode]

/-- A launch with the launch mode word set, seen from the state before it was set. -/
theorem launchWorker_effect (cid : Slot) {mode : Flags}
    (hmode : mode = launchMode s.media.isRssdReady (s.cam c))
    (hready : Has (recordingMode (s.cam c)) doRecordChmVideo → s.media.isChmReady = true) :
    WorkerKept c s ((s.setMode c mode).launchWorker c cid).2 ∨
      WorkerStarted c s ((s.setMode c mode).launchWorker c cid).2 := by
  rcases (s.setMode c mode).launchWorker_cases c cid with
    ⟨hpid, hcount, hspawned⟩ | ⟨hassigned, hpid, hpid', hcount, pid, hspawned⟩
  · rw [setMode_cam] at hpid
    exact Or.inl ⟨hpid, hcount, hspawned⟩
  · rw [setMode_cam] at hassigned hpid
    refine Or.inr ⟨hpid, hpid', hcount, _, ⟨rfl, rfl, rfl, ?_, hready, hassigned⟩, hspawned⟩
    change ((s.setMode c mode).cam c).runtime.recordingModeFlags = _
    rw [setMode_cam, hmode]

/-- Starting a camera leaves its worker as it is, or starts one with the launch mode word. -/
theorem startRecordingProcess_effect :
    WorkerKept c s (s.startRecordingProcess c).2 ∨ WorkerStarted c s (s.startRecordingProcess c).2 := by
  have hset : ∀ mode, ((s.setMode c mode).cam c).workerPid = (s.cam c).workerPid := by
    intro mode
    rw [setMode_cam]
  unfold startRecordingProcess
  dsimp only
  split
  · refine Or.inl ⟨?_, rfl, rfl⟩
    rw [cam_modifyRuntime_self]
  · split
    · split
      · exact Or.inl ⟨hset _, rfl, rfl⟩
      · rename_i hchm
        have hready : Has (recordingMode (s.cam c)) doRecordChmVideo → s.media.isChmReady = true := by
          intro h
          by_contra hno
          have hno' : s.media.isChmReady = false := by simpa using hno
          exact hchm ⟨h, hno'⟩
        split
        · rename_i hssd
          have hssd' : Has (recordingMode (s.cam c)) doRecordSsdVideo ∧ s.media.isRssdReady = false := hssd
          rw [setMode_setMode]
          exact launchWorker_effect s c _ (by rw [launchMode, if_pos hssd']) hready
        · rename_i hssd
          have hssd' : ¬ (Has (recordingMode (s.cam c)) doRecordSsdVideo ∧ s.media.isRssdReady = false) :=
            hssd
          exact launchWorker_effect s c _ (by rw [launchMode, if_neg hssd']) hready
    · exact Or.inl ⟨hset _, rfl, rfl⟩

/-- A camera which already has a worker is not started a second time. -/
theorem startRecordingProcess_of_worker (h : (s.cam c).workerPid ≠ 0) :
    WorkerKept c s (s.startRecordingProcess c).2 :=
  (s.startRecordingProcess_effect c).resolve_right fun hstarted => h hstarted.pid_before

/-- Stopping a camera gives up its worker, if it has one. -/
theorem stopRecordingProcess_effect :
    WorkerKept c s (s.stopRecordingProcess c).2 ∨ WorkerLost c s (s.stopRecordingProcess c).2 := by
  by_cases h : (s.cam c).workerPid = 0
  · rw [s.stopRecordingProcess_of_idle c h]
    exact Or.inl (.refl c s)
  · obtain ⟨-, hcam, hcount, hrecorders⟩ := s.stopRecordingProcess_of_worker c h
    exact Or.inr ⟨h, by rw [hcam]; rfl, hcount, by rw [hrecorders]⟩

/-- A change of the run-time part only keeps the worker. -/
theorem modifyRuntime_kept (f : CamRuntime → CamRuntime) : WorkerKept c s (s.modifyRuntime c f) :=
  ⟨by rw [cam_modifyRuntime_self], rfl, rfl⟩

theorem setRpTtl_kept (n : ℤ) : WorkerKept c s (s.setRpTtl c n) := ⟨rfl, rfl, rfl⟩

theorem setCamonTtl_kept (n : ℤ) : WorkerKept c s (s.setCamonTtl c n) := ⟨rfl, rfl, rfl⟩

theorem checkWorkerStatus_kept (pid : ℕ) : WorkerKept c s (s.checkWorkerStatus pid).2 := by
  obtain ⟨hmedia, -, -, hspawned, -⟩ := s.checkWorkerStatus_frame pid
  exact ⟨by rw [checkWorkerStatus_cam], by rw [hmedia], hspawned⟩

/-- A worker found dead is given up, whatever else its camera's record is set to before. -/
theorem cameraRecordingJustStopped_lost (h : (s.cam c).workerPid ≠ 0) {f : CamDef → CamDef} :
    WorkerLost c s ((s.modifyCam c f).cameraRecordingJustStopped c) := by
  refine ⟨h, ?_, ?_, rfl⟩
  · rw [cameraRecordingJustStopped_cam]
    rfl
  · exact (s.modifyCam c f).cameraRecordingJustStopped_count c

/-- A camera which goes offline loses its worker, if it is marked as recording with one. -/
theorem reflectOffline_effect :
    WorkerKept c s (s.reflectOffline c) ∨ WorkerLost c s (s.reflectOffline c) := by
  unfold reflectOffline
  split
  · dsimp only
    split
    · rename_i hpid
      have hkept := s.checkWorkerStatus_kept c (s.cam c).workerPid
      split <;> rename_i heq <;> rw [heq] at hkept
      · right
        exact hkept.lost (cameraRecordingJustStopped_lost _ c (by rw [hkept.pid]; omega))
      · rcases stopRecordingProcess_effect _ c with h | h
        · exact Or.inl (hkept.trans h)
        · exact Or.inr (hkept.lost h)
    · refine Or.inl ⟨?_, rfl, rfl⟩
      rw [cam_modifyRuntime_self]
  · exact Or.inl (.refl c s)

/-- A camera which comes online with a full countdown is not started anew. -/
theorem reflectOnline_kept (httl : s.statics.camonTtl c = camonTtlStart) :
    WorkerKept c s (s.reflectOnline c) := by
  unfold reflectOnline
  split
  · dsimp only
    split
    · rename_i hpid
      have hkept := s.checkWorkerStatus_kept c (s.cam c).workerPid
      split <;> rename_i heq <;> rw [heq] at hkept
      · exact hkept.trans (startRecordingProcess_of_worker _ c (by rw [hkept.pid]; omega))
      · exact hkept.trans ⟨rfl, rfl, rfl⟩
    · rw [if_pos (by rw [httl, camonTtlStart]; omega)]
      exact ⟨rfl, rfl, rfl⟩
  · exact .refl c s

theorem setOnline_kept (isAlive : Bool) : WorkerKept c s (s.setOnline c isAlive) := by
  refine ⟨?_, rfl, rfl⟩
  change ((s.modifyRuntime c fun r => { r with isOnline := isAlive }).cam c).workerPid = _
  rw [cam_modifyRuntime_self]

/-- Reflecting the online status of a camera never starts a worker. -/
theorem reflectCameraOnlineStatus_effect (isAlive : Bool) :
    WorkerKept c s (s.reflectCameraOnlineStatus c isAlive).2 ∨
      WorkerLost c s (s.reflectCameraOnlineStatus c isAlive).2 := by
  unfold reflectCameraOnlineStatus
  cases isAlive with
  | true =>
    have hkept : WorkerKept c s ((s.setCamonTtl c camonTtlStart).reflectOnline c) :=
      (setCamonTtl_kept s c _).trans (reflectOnline_kept _ c (Function.update_self c _ _))
    simp only [if_true, Bool.true_eq_false, false_and, if_false]
    left
    split
    · exact ⟨rfl, rfl, rfl⟩
    · split
      · exact hkept
      · exact hkept.trans (setOnline_kept _ c _)
  | false =>
    simp only [Bool.false_eq_true, if_false, true_and]
    split
    · exact Or.inl (.refl c s)
    · split
      · exact Or.inl ⟨rfl, rfl, rfl⟩
      · split
        · exact s.reflectOffline_effect c
        · rcases s.reflectOffline_effect c with h | h
          · exact Or.inl (h.trans (setOnline_kept _ c _))
          · exact Or.inr (h.kept (setOnline_kept _ c _))

theorem lookupAddress_kept (arp : Slot → Option CString) : WorkerKept c s (s.lookupAddress c arp) := by
  unfold lookupAddress
  dsimp only
  split
  · split
    · exact ⟨by rw [cam_modifyCam_self]; rfl, rfl, rfl⟩
    · exact ⟨rfl, rfl, rfl⟩
  · exact ⟨rfl, rfl, rfl⟩

/-- The monitor half never starts a worker. -/
theorem reflectProbe_effect (arp : Slot → Option CString) :
    WorkerKept c s (s.reflectProbe arp c) ∨ WorkerLost c s (s.reflectProbe arp c) := by
  unfold reflectProbe
  split
  · split
    · rename_i j _
      rcases s.reflectCameraOnlineStatus_effect c
          (((s.statics.camonStatus[j]?).map CamonStatus.isAlive).getD false) with h | h
      · exact Or.inl (h.trans ⟨rfl, rfl, rfl⟩)
      · exact Or.inr (h.kept ⟨rfl, rfl, rfl⟩)
    · have hoffline := s.reflectCameraOnlineStatus_effect c false
      dsimp only
      split
      · rcases hoffline with h | h
        · exact Or.inl (h.trans (lookupAddress_kept _ c arp))
        · exact Or.inr (h.kept (lookupAddress_kept _ c arp))
      · exact hoffline
  · exact Or.inl (.refl c s)

/-- A camera the restart half is about to start: commanded, online, assigned, without a worker
and waiting for more than twelve passes. -/
def Due (s : Agent) (c : Slot) : Prop :=
  (s.cam c).runtime.recordingModeFlags ≠ 0 ∧ (s.cam c).workerPid = 0 ∧
    (s.cam c).runtime.isOnline = true ∧ (s.cam c).runtime.isAssigned = true ∧
    s.statics.rpTtl c > 2 * camonTtlStart

/-- The restart half gives up a worker which ended and starts one only for a due camera. -/
theorem restartCamera_effect :
    WorkerKept c s (s.restartCamera c) ∨ WorkerLost c s (s.restartCamera c) ∨
      s.Due c ∧ WorkerStarted c s (s.restartCamera c) := by
  unfold restartCamera
  dsimp only
  split
  · rename_i hmode
    split
    · rename_i hpid
      have hkept : WorkerKept c s ((s.setRpTtl c 0).checkWorkerStatus (s.cam c).workerPid).2 :=
        (setRpTtl_kept s c 0).trans (checkWorkerStatus_kept _ c _)
      split <;> rename_i heq <;> rw [heq] at hkept
      · right; left
        exact hkept.lost (cameraRecordingJustStopped_lost _ c (hkept.pid ▸ hpid))
      · exact Or.inl hkept
    · rename_i hpid
      split
      · rename_i honline
        split
        · rename_i hdue
          rcases (s.setRpTtl c 0).startRecordingProcess_effect c with h | h
          · exact Or.inl ((setRpTtl_kept s c 0).trans h)
          · right; right
            refine ⟨⟨hmode, by simpa using hpid, honline.1, honline.2, hdue⟩, ?_⟩
            obtain ⟨hbefore, hafter, hcount, sp, hlaunch, hspawned⟩ := h
            exact ⟨hbefore, hafter, hcount, sp, ⟨hlaunch.1, hlaunch.2, hlaunch.3, hlaunch.4, hlaunch.5,
              hlaunch.6⟩, hspawned⟩
        · exact Or.inl ⟨rfl, rfl, rfl⟩
      · exact Or.inl (.refl c s)
  · exact Or.inl (.refl c s)

end Agent

end RecordingAgent.Reagent
