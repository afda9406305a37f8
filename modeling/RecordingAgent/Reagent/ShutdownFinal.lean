import RecordingAgent.Reagent.Drives
import RecordingAgent.Reagent.UsableDrive

/-!
# Whether a shutdown is final

After a shutdown of the whole recorder no drive is ready and record/pause commands are
refused. Two things can still start a worker: a later ready status which makes a drive ready
again, and a due camera whose start does not command the CHM, which the missing SSD check
lets through. Runs without either start nothing.
-/

namespace RecordingAgent.Reagent

open Foundation

namespace Agent

/-- The recorder is shut down: the flag is set and no drive is ready. -/
structure ShutDown (s : Agent) : Prop where
  shutdown : s.statics.shutdownInProcess = true
  isChmReady : s.media.isChmReady = false
  isRssdReady : s.media.isRssdReady = false

/-- The input reports no ready drive, and each camera the restart half of a timer pass finds due
commands the CHM. -/
def StaysShutDown (s : Agent) (i : Input) : Prop :=
  match i.event with
  | .readyStatus chm rssd => chm = 0 ∧ rssd = 0
  | .timer answers arp =>
    let t := (s.withAnswers i.forks i.deaths).camonPass answers arp
    ∀ c ∈ t.media.configured, t.Due c →
      (t.cam c).runtime.isEssential ≠ 0 ∨ Has (t.cam c).runtime.recordingModeFlags doRecordChmVideo
  | _ => True

instance (s : Agent) (i : Input) : Decidable (s.StaysShutDown i) := by
  obtain ⟨e, forks, deaths⟩ := i
  apply Event.casesOn (motive := fun e => Decidable (s.StaysShutDown ⟨e, forks, deaths⟩)) e <;> intros <;> unfold StaysShutDown <;>
    infer_instance

theorem ShutDown.of_drives {s s' : Agent} (h : s.ShutDown) (hsame : SameDrives s s') : s'.ShutDown :=
  ⟨hsame.shutdown.trans h.shutdown, hsame.isChmReady.trans h.isChmReady,
    hsame.isRssdReady.trans h.isRssdReady⟩

/-- A shutdown of the whole recorder shuts it down and starts nothing. -/
theorem msgcbShutdownRec_all (s : Agent) : (s.msgcbShutdownRec .all).ShutDown := ⟨rfl, rfl, rfl⟩

/-- A shutdown message never makes a drive ready. -/
theorem ShutDown.msgcbShutdownRec {s : Agent} (h : s.ShutDown) (f : ShutdownFunction) :
    (s.msgcbShutdownRec f).ShutDown := by
  cases f with
  | chm => exact ⟨h.shutdown, rfl, h.isRssdReady⟩
  | removableSsd => exact ⟨h.shutdown, h.isChmReady, rfl⟩
  | all => exact s.msgcbShutdownRec_all
  | other => exact h

/-- A recorder which is shut down stays so while no ready drive is reported. -/
theorem ShutDown.handle {s : Agent} (h : s.ShutDown) {e : Event}
    (hready : ∀ chm rssd, e = .readyStatus chm rssd → chm = 0 ∧ rssd = 0) : (s.handle e).ShutDown := by
  by_cases hr : ∃ chm rssd, e = .readyStatus chm rssd
  · obtain ⟨chm, rssd, rfl⟩ := hr
    obtain ⟨rfl, rfl⟩ := hready chm rssd rfl
    exact ⟨h.shutdown, rfl, rfl⟩
  · by_cases hf : ∃ f, e = .shutdown f
    · obtain ⟨f, rfl⟩ := hf
      exact h.msgcbShutdownRec f
    · push Not at hr hf
      exact h.of_drives (s.handle_drives e hr hf)

/-- Record/pause commands start nothing once the shutdown flag is set. -/
theorem ShutDown.recordStarts {s : Agent} (h : s.ShutDown) (camera : CString) (record : ℕ) :
    s.recordStarts camera record = [] := by
  refine List.eq_nil_iff_forall_not_mem.mpr fun p hp => ?_
  have hshutdown := (mem_recordStarts hp).2.1
  rw [h.shutdown] at hshutdown
  cases hshutdown

/-- Stream resets start nothing once the shutdown flag is set. -/
theorem ShutDown.resetStarts {s : Agent} (h : s.ShutDown) (camera : CString)
    (set : CamRuntime → CamRuntime) : s.resetStarts camera set = [] := by
  unfold Agent.resetStarts
  split
  · rename_i c _
    have hset : SameDrives s (s.modifyRuntime c set) := .of_frame (.modifyRuntime s set)
    exact ((h.of_drives hset).of_drives (handleCameraRecordPause_drives _ _ 0)).recordStarts _ _
  · rfl

/-- No worker is launched from a camera which commands the CHM while the CHM is not ready. -/
theorem ShutDown.not_launched {s : Agent} (h : s.ShutDown) {c : Slot}
    (hchm : (s.cam c).runtime.isEssential ≠ 0 ∨ Has (s.cam c).runtime.recordingModeFlags doRecordChmVideo)
    (sp : Spawn) : ¬ LaunchedFrom c s sp := by
  intro hlaunch
  have hready := hlaunch.chm_ready ((recordingMode_chmVideo (s.cam c)).mpr hchm)
  rw [h.isChmReady] at hready
  cases hready

/-- A step which stays shut down starts no worker. -/
theorem ShutDown.step {s : Agent} (h : s.ShutDown) {i : Input} (hi : s.StaysShutDown i) :
    (s.step i).ShutDown ∧ (s.step i).recorders.spawned = s.recorders.spawned := by
  unfold Agent.step
  split
  · have hs : (s.withAnswers i.forks i.deaths).ShutDown := ⟨h.1, h.2, h.3⟩
    have hgrew := (s.withAnswers i.forks i.deaths).handle_grewFrom i.event
    unfold StaysShutDown at hi
    refine ⟨hs.handle fun chm rssd he => by rw [he] at hi; exact hi, ?_⟩
    have hnone : ∀ p ∈ (s.withAnswers i.forks i.deaths).startPoints i.event, ∀ sp,
        ¬ LaunchedFrom p.2 p.1 sp := by
      cases he : i.event with
      | timer answers arp =>
        rw [he] at hi
        intro p hp
        obtain ⟨c, hc, rfl⟩ := List.mem_map.mp hp
        obtain ⟨hconf, hdue⟩ := List.mem_filter.mp hc
        exact (hs.of_drives (camonPass_drives _ answers arp)).not_launched (hi c hconf (by simpa using hdue))
      | cameraRecordPause camera record => simp [startPoints, hs.recordStarts]
      | cameraResolution camera v => simp [startPoints, hs.resetStarts]
      | cameraCompression camera v => simp [startPoints, hs.resetStarts]
      | cameraFrameRate camera v => simp [startPoints, hs.resetStarts]
      | _ => simp [startPoints]
    exact hgrew.eq_of_not_launched hnone
  · exact ⟨h, rfl⟩

/-- An agent whose message loop has stopped takes no further step. -/
theorem run_of_inactive {s : Agent} (h : s.statics.ptcActive = false) (is : List Input) :
    run Agent.step s is = s :=
  run_invariant_of_step (I := (· = s)) (fun t i ht => by rw [ht, Agent.step, h]; rfl) rfl is

/-- After a shutdown of the whole recorder, a run which stays shut down starts no worker. -/
theorem run_spawned_of_shutdown (s : Agent) (forks deaths : List Bool) (is : List Input)
    (hstays : Guarded Agent.step StaysShutDown (s.step ⟨.shutdown .all, forks, deaths⟩) is) :
    (run Agent.step (s.step ⟨.shutdown .all, forks, deaths⟩) is).recorders.spawned =
      s.recorders.spawned := by
  cases hactive : s.statics.ptcActive with
  | false =>
    have hstep : s.step ⟨.shutdown .all, forks, deaths⟩ = s := by
      rw [Agent.step, hactive]
      rfl
    rw [hstep, run_of_inactive hactive]
  | true =>
    have hstep : s.step ⟨.shutdown .all, forks, deaths⟩ =
        (s.withAnswers forks deaths).msgcbShutdownRec .all := by
      rw [Agent.step, hactive]
      rfl
    rw [hstep] at hstays ⊢
    exact run_observation (I := ShutDown) (fun s : Agent => s.recorders.spawned)
      (fun t i ht hi => ht.step hi) (msgcbShutdownRec_all _) hstays

/-- A recording camera is shut down for good while no ready drive is reported. -/
theorem run_spawned_of_shutdown_cab :
    (run Agent.step ((run Agent.step (start (cabConfig true) true true true) cabRecording).step
        ⟨.shutdown .all, [], []⟩)
      [Event.quiet (.readyStatus 0 0), Event.quiet (.cameraRecordPause ['C', 'A', 'B'] 1), cabTick,
        cabTick]).recorders.spawned =
      (run Agent.step (start (cabConfig true) true true true) cabRecording).recorders.spawned :=
  run_spawned_of_shutdown _ _ _ _ (by decide)

/-- A ready status after the shutdown lets the timer start a worker again. -/
theorem run_spawned_after_shutdown :
    ¬ (run Agent.step ((run Agent.step (start (cabConfig true) true true true)
          (List.replicate 3 cabTick)).step ⟨.shutdown .all, [], []⟩)
        (Event.quiet (.readyStatus 1 1) :: List.replicate 15 cabTick)).recorders.spawned =
      (run Agent.step (start (cabConfig true) true true true) (List.replicate 3 cabTick)).recorders.spawned :=
  fun h => absurd (congrArg List.length h) (by decide)

end Agent

end RecordingAgent.Reagent
