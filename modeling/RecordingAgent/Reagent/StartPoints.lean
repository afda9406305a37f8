import RecordingAgent.Reagent.Commands

/-!
# Where workers are started

`startPoints s e` lists the calls of `start_recording_process` for a camera without a worker
while the agent handles event `e` in state `s`, each with a state that has the camera's
record and the drives as the call finds them. The history of worker starts grows by nothing
else: every new entry was launched from one of these points. Later results about starts
only have to look at the points.
-/

namespace RecordingAgent.Reagent

open Foundation

namespace Agent

instance (s : Agent) (c : Slot) : Decidable (s.Due c) := by unfold Due; infer_instance

instance (s : Agent) (c : Slot) (record : ℕ) : Decidable (s.StartCommanded c record) := by
  unfold StartCommanded; infer_instance

/-- The start a record/pause command makes, if any. -/
def recordStarts (s : Agent) (camera : CString) (record : ℕ) : List (Agent × Slot) :=
  match raconfFindCamera s.media (camera.take cameraNameLength) with
  | some c =>
    if s.StartCommanded c record ∧ (s.cam c).workerPid = 0 then [(s.modifyRuntime c resumed, c)] else []
  | none => []

/-- The start a parameter change makes after it paused the camera, if any. -/
def resetStarts (s : Agent) (camera : CString) (set : CamRuntime → CamRuntime) : List (Agent × Slot) :=
  match raconfFindCamera s.media (camera.take cameraNameLength) with
  | some c =>
    recordStarts ((s.modifyRuntime c set).handleCameraRecordPause (camera.take cameraNameLength) 0).2
      (camera.take cameraNameLength) 1
  | none => []

/-- The starts the restart half of a timer pass makes. -/
def restartStarts (s : Agent) : List (Agent × Slot) :=
  (s.media.configured.filter fun c => s.Due c).map fun c => (s, c)

/-- The calls of `start_recording_process` for idle cameras while an event is handled. -/
def startPoints (s : Agent) : Event → List (Agent × Slot)
  | .cameraRecordPause camera record => s.recordStarts camera record
  | .cameraResolution camera v => s.resetStarts camera fun r => { r with resolution := v }
  | .cameraCompression camera v => s.resetStarts camera fun r => { r with compression := v }
  | .cameraFrameRate camera v => s.resetStarts camera fun r => { r with frameRate := v }
  | .timer answers arp => (s.camonPass answers arp).restartStarts
  | _ => []

/-- A record/pause command's start point is the camera it names, commanded to record. -/
theorem mem_recordStarts {s : Agent} {camera : CString} {record : ℕ} {p : Agent × Slot}
    (h : p ∈ s.recordStarts camera record) :
    raconfFindCamera s.media (camera.take cameraNameLength) = some p.2 ∧ s.StartCommanded p.2 record := by
  unfold recordStarts at h
  split at h
  · rename_i c hfind
    split at h
    · rename_i hstart
      obtain rfl := List.mem_singleton.mp h
      exact ⟨hfind, hstart.1⟩
    · cases h
  · cases h

/-- The start history grew only by launches from the given points. -/
def GrewFrom (points : List (Agent × Slot)) (s s' : Agent) : Prop :=
  ∃ new, s'.recorders.spawned = s.recorders.spawned ++ new ∧
    ∀ sp ∈ new, ∃ p ∈ points, LaunchedFrom p.2 p.1 sp

theorem GrewFrom.of_eq {points : List (Agent × Slot)} {s s' : Agent}
    (h : s'.recorders.spawned = s.recorders.spawned) : GrewFrom points s s' :=
  ⟨[], by simpa using h, by simp⟩

theorem GrewFrom.of_launch {points : List (Agent × Slot)} {s s' t : Agent} {c : Slot} {sp : Spawn}
    (hpoint : (t, c) ∈ points) (hlaunch : LaunchedFrom c t sp)
    (h : s'.recorders.spawned = s.recorders.spawned ++ [sp]) : GrewFrom points s s' :=
  ⟨[sp], h, by simpa using ⟨t, c, hpoint, hlaunch⟩⟩

theorem GrewFrom.eq_left {points : List (Agent × Slot)} {s s' t : Agent} (h : GrewFrom points s s')
    (heq : t.recorders.spawned = s.recorders.spawned) : GrewFrom points t s' := by
  obtain ⟨new, hnew, hpoints⟩ := h
  exact ⟨new, by rw [hnew, heq], hpoints⟩

theorem GrewFrom.eq_right {points : List (Agent × Slot)} {s s' t : Agent} (h : GrewFrom points s s')
    (heq : t.recorders.spawned = s'.recorders.spawned) : GrewFrom points s t := by
  obtain ⟨new, hnew, hpoints⟩ := h
  exact ⟨new, heq.trans hnew, hpoints⟩

/-- Points which all refuse to launch start nothing. -/
theorem GrewFrom.eq_of_not_launched {points : List (Agent × Slot)} {s s' : Agent}
    (h : GrewFrom points s s') (hnone : ∀ p ∈ points, ∀ sp, ¬ LaunchedFrom p.2 p.1 sp) :
    s'.recorders.spawned = s.recorders.spawned := by
  obtain ⟨new, hnew, hpoints⟩ := h
  have hempty : new = [] := List.eq_nil_iff_forall_not_mem.mpr fun sp hsp => by
    obtain ⟨p, hp, hlaunch⟩ := hpoints sp hsp
    exact hnone p hp sp hlaunch
  rw [hnew, hempty, List.append_nil]

/-- A property of every launch from the points extends to the whole history. -/
theorem GrewFrom.forall {points : List (Agent × Slot)} {s s' : Agent} (h : GrewFrom points s s')
    {P : Spawn → Prop} (hold : ∀ sp ∈ s.recorders.spawned, P sp)
    (hnew : ∀ p ∈ points, ∀ sp, LaunchedFrom p.2 p.1 sp → P sp) : ∀ sp ∈ s'.recorders.spawned, P sp := by
  obtain ⟨new, heq, hpoints⟩ := h
  intro sp hsp
  rw [heq] at hsp
  rcases List.mem_append.mp hsp with hsp | hsp
  · exact hold sp hsp
  · obtain ⟨p, hp, hlaunch⟩ := hpoints sp hsp
    exact hnew p hp sp hlaunch

/-- A camera at none of the points gets no new worker. -/
theorem GrewFrom.spawnsOf {points : List (Agent × Slot)} {s s' : Agent} (h : GrewFrom points s s')
    {c : Slot} (hc : ∀ p ∈ points, p.2 ≠ c) : s'.spawnsOf c = s.spawnsOf c := by
  obtain ⟨new, heq, hpoints⟩ := h
  have hnone : new.filter (fun sp => sp.slot = c) = [] := by
    refine List.filter_eq_nil_iff.mpr fun sp hsp => ?_
    obtain ⟨p, hp, hlaunch⟩ := hpoints sp hsp
    simpa [hlaunch.slot] using hc p hp
  rw [Agent.spawnsOf, heq, List.filter_append, hnone, List.append_nil, Agent.spawnsOf]

/-- A record/pause command starts at most the camera its point names. -/
theorem handleCameraRecordPause_grewFrom (s : Agent) (camera : CString) (record : ℕ) :
    GrewFrom (s.recordStarts camera record) s (s.handleCameraRecordPause camera record).2 := by
  rcases s.handleCameraRecordPause_cases camera record with
    hidle | ⟨c, hfind, ⟨-, heq⟩ | ⟨hstart, heq⟩⟩
  · exact .of_eq (by rw [hidle.recorders])
  · rw [heq]
    rcases (s.modifyRuntime c paused).stopRecordingProcess_effect c with h | h
    · exact .of_eq h.spawned
    · exact .of_eq h.spawned
  · rw [heq]
    rcases (s.modifyRuntime c resumed).startRecordingProcess_effect c with h | ⟨hpid, -, -, sp, hlaunch, h⟩
    · exact .of_eq h.spawned
    · have hpid' : (s.cam c).workerPid = 0 := by
        rw [cam_modifyRuntime_self] at hpid
        exact hpid
      refine .of_launch (t := s.modifyRuntime c resumed) (c := c) ?_ hlaunch h
      simp [recordStarts, hfind, hstart, hpid']

/-- The pause half of a stream reset starts nothing. -/
theorem pause_spawned (s : Agent) (camera : CString) :
    (s.handleCameraRecordPause camera 0).2.recorders.spawned = s.recorders.spawned := by
  have h := s.handleCameraRecordPause_grewFrom camera 0
  have hnone : s.recordStarts camera 0 = [] := List.eq_nil_iff_forall_not_mem.mpr fun p hp =>
    absurd rfl (mem_recordStarts hp).2.2.2.2.2.1
  rw [hnone] at h
  exact h.eq_of_not_launched (by simp)

/-- A stream reset starts at most the camera the point of its record half names. -/
theorem resetCameraStream_grewFrom (s : Agent) (camera : CString) :
    GrewFrom (recordStarts (s.handleCameraRecordPause (camera.take cameraNameLength) 0).2
      (camera.take cameraNameLength) 1) s (s.resetCameraStream camera).2 := by
  have hpause := s.pause_spawned (camera.take cameraNameLength)
  have hrecord := (s.handleCameraRecordPause (camera.take cameraNameLength) 0).2.handleCameraRecordPause_grewFrom
    (camera.take cameraNameLength) 1
  unfold resetCameraStream
  dsimp only
  split
  · exact .of_eq hpause
  · split
    · exact hrecord.eq_left hpause.symm
    · exact hrecord.eq_left hpause.symm

/-- A parameter change starts at most the camera its point names. -/
theorem changeParameter_grewFrom (s : Agent) (camera : CString) (set : CamRuntime → CamRuntime)
    (error : VideoApplicationError) :
    GrewFrom (s.resetStarts camera set) s (s.changeParameter camera set error) := by
  unfold changeParameter resetStarts
  cases raconfFindCamera s.media (camera.take cameraNameLength) with
  | none => exact .of_eq rfl
  | some c =>
    have hreset := (s.modifyRuntime c set).resetCameraStream_grewFrom (camera.take cameraNameLength)
    rw [List.take_take, min_self] at hreset
    replace hreset := hreset.eq_left (t := s) rfl
    dsimp only
    split
    · exact hreset.eq_right rfl
    · exact hreset

/-- The monitor half starts nothing. -/
theorem camonPass_spawned (s : Agent) (answers : List CamonStatus) (arp : Slot → Option CString) :
    (s.camonPass answers arp).recorders.spawned = s.recorders.spawned := by
  refine camonPass_invariant (I := fun t : Agent => t.recorders.spawned = s.recorders.spawned) rfl
    (fun _ _ _ ht => ht) ?_
  intro t c _ ht
  rcases t.reflectProbe_effect c arp with h | h
  · exact h.spawned.trans ht
  · exact h.spawned.trans ht

/-- The restart half starts only cameras which were due when it began. -/
theorem restartPass_grewFrom (s : Agent) : GrewFrom s.restartStarts s s.restartPass := by
  unfold restartPass
  refine GrewFrom.eq_right ?_ rfl
  let I : Agent → Prop := fun t =>
    t.media.isChmReady = s.media.isChmReady ∧ t.media.isRssdReady = s.media.isRssdReady ∧
      GrewFrom s.restartStarts s t
  let Known : Slot → Agent → Prop := fun c t =>
    t.cam c = s.cam c ∧ t.statics.rpTtl c = s.statics.rpTtl c
  refine (foldl_invariant_of_nodup (I := I) Known s.media.nodup_configured ⟨rfl, rfl, .of_eq rfl⟩
    (fun c _ => ⟨rfl, rfl⟩) ?_ ?_).2.2
  · rintro t c hc ⟨hchm, hrssd, hgrew⟩ ⟨hcam, httl⟩
    have hframe := Frame.restartCamera (c := c) t
    refine ⟨hframe.isChmReady.trans hchm, hframe.isRssdReady.trans hrssd, ?_⟩
    rcases t.restartCamera_effect c with h | h | ⟨hdue, -, -, -, sp, hlaunch, h⟩
    · exact hgrew.eq_right h.spawned
    · exact hgrew.eq_right h.spawned
    · have hdue' : s.Due c := by
        rw [Due, hcam, httl] at hdue
        exact hdue
      have hpoint : (s, c) ∈ s.restartStarts := by
        simpa [restartStarts, hdue'] using hc
      have hlaunch' : LaunchedFrom c s sp := by
        obtain ⟨hslot, hsc, hsr, hflags, hready, hassigned⟩ := hlaunch
        rw [hcam, hrssd] at hflags
        rw [hcam, hchm] at hready
        exact ⟨hslot, hsc.trans hchm, hsr.trans hrssd, hflags, hready, hcam ▸ hassigned⟩
      obtain ⟨new, hnew, hpoints⟩ := hgrew
      refine ⟨new ++ [sp], by rw [h, hnew, List.append_assoc], ?_⟩
      intro sp' hsp'
      rcases List.mem_append.mp hsp' with hin | hin
      · exact hpoints sp' hin
      · obtain rfl := List.mem_singleton.mp hin
        exact ⟨(s, c), hpoint, hlaunch'⟩
  · rintro t c - d hd ⟨hcam, httl⟩
    have hframe := Frame.restartCamera (c := c) t
    exact ⟨(hframe.cam d hd).trans hcam, (hframe.rpTtl d hd).trans httl⟩

/-- Restoring one saved camera starts nothing. -/
theorem restoreCamera_spawned (s : Agent) (old : Slot → CamDef) (i : Slot) :
    (restoreCamera old s i).recorders.spawned = s.recorders.spawned := by
  refine restoreCamera_preserves (Q := fun t => t.recorders.spawned = s.recorders.spawned) ?_ ?_ ?_ ?_ old rfl
  · intro t worker ht
    exact ht
  · intro t set ht
    exact ht
  · intro t ht
    rcases t.stopRecordingProcess_effect i with h | h
    · exact h.spawned.trans ht
    · exact h.spawned.trans ht
  · intro t ht
    exact ht

/-- Re-reading the configuration starts nothing. -/
theorem handleSighup_spawned (s : Agent) (config : Option Config) (opens : Bool) :
    (s.handleSighup config opens).recorders.spawned = s.recorders.spawned := by
  have hreread : (s.reread config opens).recorders.spawned = s.recorders.spawned := by
    unfold reread camonInit
    cases config <;> cases opens <;> rfl
  unfold handleSighup
  refine foldl_invariant (I := fun t : Agent => t.recorders.spawned = s.recorders.spawned) hreread ?_
  exact fun t i _ ht => (restoreCamera_spawned t _ i).trans ht

/-- While an event is handled, workers are started only at its start points. -/
theorem handle_grewFrom (s : Agent) (e : Event) : GrewFrom (s.startPoints e) s (s.handle e) := by
  cases e with
  | cameraRecordPause camera record => exact s.handleCameraRecordPause_grewFrom camera record
  | cameraResolution camera v => exact s.changeParameter_grewFrom camera _ _
  | cameraCompression camera v => exact s.changeParameter_grewFrom camera _ _
  | cameraFrameRate camera v => exact s.changeParameter_grewFrom camera _ _
  | timer answers arp =>
    exact (restartPass_grewFrom _).eq_left (s.camonPass_spawned answers arp).symm
  | sighup config opens => exact .of_eq (s.handleSighup_spawned config opens)
  | cameraSettings d =>
    refine .of_eq ?_
    change (s.msgcbCameraSettings d).recorders.spawned = _
    unfold msgcbCameraSettings
    split <;> rfl
  | shutdown f =>
    refine .of_eq ?_
    cases f <;> rfl
  | readyStatus chm rssd => exact .of_eq rfl
  | locomotiveId l => exact .of_eq rfl
  | otherMessage => exact .of_eq rfl
  | workerDeath pid => exact .of_eq rfl

end Agent

end RecordingAgent.Reagent
