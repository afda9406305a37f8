import RecordingAgent.Reagent.Commands
import RecordingAgent.Reagent.SighupLeaks
import RecordingAgent.Reagent.StatusTruth

/-!
# Whether a camera message touches only the camera it names

A message carries a camera name without the padding of the configured names, and the lookup
compares only the characters it carries. The camera found is therefore the named one exactly
when no camera before it in the table has a name that begins the same way, up to case. The
handlers then leave every other camera alone; its worker too, unless it is recorded as that
of the named camera as well and a pause would end it.
-/

namespace RecordingAgent.Reagent

open Foundation

/-- The event is a message about the camera of that name. -/
def Event.NamesCamera (m : CString) : Event → Prop
  | .cameraSettings d => d.camera = m
  | .cameraRecordPause camera _ => camera = m
  | e => e.ChangesParameter m

theorem Event.NamesCamera.cases {m : CString} {e : Event} (h : e.NamesCamera m) :
    (∃ d, e = .cameraSettings d ∧ d.camera = m) ∨ (∃ record, e = .cameraRecordPause m record) ∨
      e.ChangesParameter m := by
  cases e with
  | cameraSettings d => exact Or.inl ⟨d, rfl, h⟩
  | cameraRecordPause camera record =>
    obtain rfl : camera = m := h
    exact Or.inr (Or.inl ⟨record, rfl⟩)
  | _ => exact Or.inr (Or.inr h)

namespace Agent

/-- Every other camera has the same record, no new worker, and its running worker still runs. -/
structure TouchesOnly (c : Slot) (s s' : Agent) : Prop where
  cam : ∀ d, d ≠ c → s'.cam d = s.cam d
  spawnsOf : ∀ d, d ≠ c → s'.spawnsOf d = s.spawnsOf d
  running : ∀ d, d ≠ c → (s.cam d).workerPid ∈ s.recorders.running →
    (s.cam d).workerPid ∈ s'.recorders.running

/-- No camera before this one in the table has a name which begins with the given one. -/
def FirstNamed (s : Agent) (m : CString) (c : Slot) : Prop :=
  ∀ i < c, i.val < s.media.nCameras → strncasecmpEq m (s.cam i).name m.length = false

/-- If a pause would be carried out, no other camera has this one's running worker recorded. -/
def SoleWorker (s : Agent) (c : Slot) : Prop :=
  s.PauseCommanded c 0 → (s.cam c).workerPid ∈ s.recorders.running →
    ∀ d, d ≠ c → (s.cam d).workerPid ≠ (s.cam c).workerPid

instance (s : Agent) (m : CString) (c : Slot) : Decidable (s.FirstNamed m c) := by
  unfold FirstNamed; infer_instance

instance (s : Agent) (c : Slot) : Decidable (s.SoleWorker c) := by
  unfold SoleWorker PauseCommanded; infer_instance

/-- Launching a worker ends none. -/
theorem launchWorker_running (s : Agent) (c cid : Slot) :
    s.recorders.running ⊆ (s.launchWorker c cid).2.recorders.running := by
  unfold launchWorker
  by_cases hlaunch : (s.cam c).runtime.isAssigned = true ∧ (s.cam c).workerPid = 0
  · simp only [if_pos hlaunch]
    have hspawned : s.recorders.running ⊆
        (s.spawnProcess c (raconfPrepareForRecording s.media (s.cam c))).2.recorders.running := by
      unfold spawnProcess
      split
      · exact List.Subset.refl _
      · exact List.subset_cons_self _ _
    rcases hspawn : s.spawnProcess c (raconfPrepareForRecording s.media (s.cam c)) with ⟨_ | pid, t⟩
    · rw [hspawn] at hspawned
      exact hspawned
    · rw [hspawn] at hspawned
      have hrecorders := ((t.setRetry cid 0).workerStarted_effect c pid).2.2
      change s.recorders.running ⊆ ((t.setRetry cid 0).workerStarted c pid).recorders.running
      rw [hrecorders]
      exact hspawned
  · simp only [if_neg hlaunch]
    exact List.Subset.refl _

/-- Starting a camera ends no worker. -/
theorem startRecordingProcess_running (s : Agent) (c : Slot) :
    s.recorders.running ⊆ (s.startRecordingProcess c).2.recorders.running := by
  unfold startRecordingProcess
  dsimp only
  split
  · exact List.Subset.refl _
  · split
    · split
      · exact List.Subset.refl _
      · split
        · exact launchWorker_running ((s.setMode c (recordingMode (s.cam c))).setMode c _) c _
        · exact launchWorker_running (s.setMode c (recordingMode (s.cam c))) c _
    · exact List.Subset.refl _

/-- A record/pause command ends no worker but that of a camera it pauses. -/
theorem handleCameraRecordPause_running {s : Agent} {camera : CString} {record p : ℕ}
    (hp : p ∈ s.recorders.running)
    (hother : ∀ c, raconfFindCamera s.media (camera.take cameraNameLength) = some c →
      s.PauseCommanded c record → p ≠ (s.cam c).workerPid) :
    p ∈ (s.handleCameraRecordPause camera record).2.recorders.running := by
  rcases s.handleCameraRecordPause_cases camera record with
    hidle | ⟨c, hfind, ⟨hpause, heq⟩ | ⟨-, heq⟩⟩
  · rw [hidle.recorders]
    exact hp
  · rw [heq]
    have hpid : ((s.modifyRuntime c paused).cam c).workerPid = (s.cam c).workerPid := by
      rw [cam_modifyRuntime_self]
    by_cases hzero : ((s.modifyRuntime c paused).cam c).workerPid = 0
    · rw [stopRecordingProcess_of_idle _ c hzero]
      exact hp
    · obtain ⟨-, -, -, hrecorders⟩ := stopRecordingProcess_of_worker _ c hzero
      rw [hrecorders, hpid]
      exact (List.mem_erase_of_ne (hother c hfind hpause)).mpr hp
  · rw [heq]
    exact startRecordingProcess_running _ c hp

/-- Setting a picture parameter does not change whether a pause would be carried out. -/
theorem pauseCommanded_modifyRuntime {s : Agent} {c : Slot} {set : CamRuntime → CamRuntime}
    (hset : PictureOnly set) {record : ℕ}
    (h : (s.modifyRuntime c set).PauseCommanded c record) : s.PauseCommanded c record := by
  obtain ⟨hshutdown, hon, hassigned, hrecording, hrecord⟩ := h
  rw [cam_modifyRuntime_self] at hon hassigned
  refine ⟨hshutdown, (hset.isOnline _).symm.trans hon, (hset.isAssigned _).symm.trans hassigned, ?_, hrecord⟩
  unfold isRecording at hrecording ⊢
  rw [cam_modifyRuntime_self, (hset.sameCommand (s.cam c)).recordingStatusFlags] at hrecording
  exact hrecording

/-- A stream reset ends no worker but that of a camera a pause would end. -/
theorem resetCameraStream_running {s : Agent} {camera : CString} {p : ℕ} (hp : p ∈ s.recorders.running)
    (hother : ∀ c, raconfFindCamera s.media (camera.take cameraNameLength) = some c →
      s.PauseCommanded c 0 → p ≠ (s.cam c).workerPid) :
    p ∈ (s.resetCameraStream camera).2.recorders.running := by
  have htwice : (camera.take cameraNameLength).take cameraNameLength = camera.take cameraNameLength := by
    rw [List.take_take, min_self]
  have hpaused : p ∈ (s.handleCameraRecordPause (camera.take cameraNameLength) 0).2.recorders.running := by
    refine handleCameraRecordPause_running hp fun c hfind => ?_
    rw [htwice] at hfind
    exact hother c hfind
  have hresumed := @handleCameraRecordPause_running _ (camera.take cameraNameLength) _ _ hpaused
    fun _ _ hpause => absurd rfl hpause.2.2.2.2
  unfold resetCameraStream
  dsimp only
  split
  · exact hpaused
  · split
    · exact hresumed
    · exact hresumed

/-- A record/pause command touches only what belongs to the camera it finds. -/
theorem handleCameraRecordPause_frame {s : Agent} {camera : CString} {c : Slot} (record : ℕ)
    (hfind : raconfFindCamera s.media (camera.take cameraNameLength) = some c) :
    Frame c s (s.handleCameraRecordPause camera record).2 := by
  rcases s.handleCameraRecordPause_cases camera record with
    hidle | ⟨d, hd, ⟨-, heq⟩ | ⟨-, heq⟩⟩
  · exact hidle.frame c
  · obtain rfl := Option.some.inj (hfind.symm.trans hd)
    rw [heq]
    exact (Frame.modifyRuntime s paused).trans (.stopRecordingProcess _)
  · obtain rfl := Option.some.inj (hfind.symm.trans hd)
    rw [heq]
    exact (Frame.modifyRuntime s resumed).trans (.startRecordingProcess _)

/-- A stream reset touches only what belongs to the camera it finds. -/
theorem resetCameraStream_frame {s : Agent} {camera : CString} {c : Slot}
    (hfind : raconfFindCamera s.media (camera.take cameraNameLength) = some c) :
    Frame c s (s.resetCameraStream camera).2 := by
  have htwice : (camera.take cameraNameLength).take cameraNameLength = camera.take cameraNameLength := by
    rw [List.take_take, min_self]
  have hpaused : Frame c s (s.handleCameraRecordPause (camera.take cameraNameLength) 0).2 :=
    handleCameraRecordPause_frame 0 (by rw [htwice]; exact hfind)
  have hresumed := @handleCameraRecordPause_frame _ (camera.take cameraNameLength) _ 1
    ((hpaused.raconfFindCamera _).trans (by rw [htwice]; exact hfind))
  unfold resetCameraStream
  dsimp only
  split
  · exact hpaused
  · split
    · exact hpaused.trans hresumed
    · exact hpaused.trans hresumed

/-- A handled message touches only the camera it finds, if that is its worker's only camera. -/
theorem TouchesOnly.of_frame {c : Slot} {s s' : Agent} (hframe : Frame c s s') (hsole : s.SoleWorker c)
    (hrunning : ∀ p ∈ s.recorders.running, (s.PauseCommanded c 0 → p ≠ (s.cam c).workerPid) →
      p ∈ s'.recorders.running) : TouchesOnly c s s' := by
  refine ⟨hframe.cam, hframe.spawnsOf, fun d hd hp => hrunning _ hp fun hpause hsame => ?_⟩
  exact hsole hpause (hsame ▸ hp) d hd hsame

theorem TouchesOnly.changeParameter {c : Slot} {s : Agent} (hsole : s.SoleWorker c) {m : CString}
    (hfind : raconfFindCamera s.media (m.take cameraNameLength) = some c) {set : CamRuntime → CamRuntime}
    (hset : PictureOnly set) (error : VideoApplicationError) :
    TouchesOnly c s (s.changeParameter m set error) := by
  have htwice : (m.take cameraNameLength).take cameraNameLength = m.take cameraNameLength := by
    rw [List.take_take, min_self]
  have hchanged : Frame c s (s.modifyRuntime c set) := .modifyRuntime s set
  have hfind' : raconfFindCamera (s.modifyRuntime c set).media ((m.take cameraNameLength).take cameraNameLength) =
      some c := by
    rw [htwice, hchanged.raconfFindCamera]
    exact hfind
  have hreset := resetCameraStream_frame hfind'
  have hrunning : ∀ p ∈ s.recorders.running, (s.PauseCommanded c 0 → p ≠ (s.cam c).workerPid) →
      p ∈ ((s.modifyRuntime c set).resetCameraStream (m.take cameraNameLength)).2.recorders.running := by
    intro p hp hother
    refine resetCameraStream_running hp fun d hd hpause => ?_
    obtain rfl := Option.some.inj (hfind'.symm.trans hd)
    rw [cam_modifyRuntime_self]
    exact hother (pauseCommanded_modifyRuntime hset hpause)
  unfold Agent.changeParameter
  rw [hfind]
  dsimp only
  split
  · exact .of_frame ((hchanged.trans hreset).trans (.send _ _)) hsole hrunning
  · exact .of_frame (hchanged.trans hreset) hsole hrunning

/-- A message which finds the camera touches only that camera. -/
theorem TouchesOnly.handle {c : Slot} {s : Agent} (hsole : s.SoleWorker c) {m : CString}
    (hfind : raconfFindCamera s.media (m.take cameraNameLength) = some c) {e : Event} (he : e.NamesCamera m) :
    TouchesOnly c s (s.handle e) := by
  rcases he.cases with ⟨d, rfl, rfl⟩ | ⟨record, rfl⟩ | hchange
  · change TouchesOnly c s (s.msgcbCameraSettings d)
    rw [msgcbCameraSettings, hfind]
    exact .of_frame (.modifyRuntime s _) hsole fun p hp _ => hp
  · refine .of_frame (handleCameraRecordPause_frame record hfind) hsole fun p hp hother => ?_
    refine handleCameraRecordPause_running hp fun d hd hpause => ?_
    obtain rfl := Option.some.inj (hfind.symm.trans hd)
    exact hother ⟨hpause.1, hpause.2.1, hpause.2.2.1, hpause.2.2.2.1, by decide⟩
  · obtain ⟨set, error, hset, heq⟩ := handle_changesParameter hchange
    rw [heq]
    exact .changeParameter hsole hfind hset error

/-- Settings for a name touch the camera it finds. -/
theorem settings_touch {s : Agent} {m : CString} {c : Slot}
    (hfind : raconfFindCamera s.media (m.take cameraNameLength) = some c) :
    ∃ d : CameraSettings, d.camera = m ∧ (s.handle (.cameraSettings d)).cam c ≠ s.cam c := by
  have hset : ∀ d : CameraSettings, d.camera = m →
      ((s.handle (.cameraSettings d)).cam c).runtime.resolution = d.resolution := by
    rintro d rfl
    change ((s.msgcbCameraSettings d).cam c).runtime.resolution = _
    rw [msgcbCameraSettings, hfind, cam_modifyRuntime_self]
  by_cases hzero : (s.cam c).runtime.resolution = 0
  · refine ⟨⟨m, 1, 0, 0, 0, 0, 0⟩, rfl, fun hsame => ?_⟩
    have hone := hset ⟨m, 1, 0, 0, 0, 0, 0⟩ rfl
    rw [hsame, hzero] at hone
    simp at hone
  · refine ⟨⟨m, 0, 0, 0, 0, 0, 0⟩, rfl, fun hsame => ?_⟩
    have hnone := hset ⟨m, 0, 0, 0, 0, 0, 0⟩ rfl
    rw [hsame] at hnone
    exact hzero (by simpa using hnone)

/-- In a reachable state the messages about a configured camera touch only that camera exactly when
no camera before it has a name beginning with theirs, and no other camera shares a worker which
a pause would end. -/
theorem reachable_touchesOnly_iff {s : Agent} (h : s.Reachable) (hactive : s.statics.ptcActive = true) {c : Slot}
    (hc : c.val < s.media.nCameras) {m : CString} (hm : m ≠ []) (hlength : m.length ≤ cameraNameLength)
    (hname : padUnderscores m cameraNameLength = (s.cam c).name) :
    (∀ e : Event, e.NamesCamera m → ∀ forks deaths, TouchesOnly c s (s.step ⟨e, forks, deaths⟩)) ↔
      s.FirstNamed m c ∧ s.SoleWorker c := by
  have hstep : ∀ e forks deaths, s.step ⟨e, forks, deaths⟩ = (s.withAnswers forks deaths).handle e :=
    fun _ _ _ => if_pos hactive
  have htake : m.take cameraNameLength = m := List.take_of_length_le hlength
  have hmatch : strncasecmpEq m (s.cam c).name m.length = true := by
    rw [← hname]
    exact strncasecmpEq_padUnderscores m _
  constructor
  · intro hall
    have hfirst : s.FirstNamed m c := by
      intro i hi hconf
      by_contra hmatched
      obtain ⟨d, hfind⟩ : ∃ d, raconfFindCamera s.media m = some d := by
        rw [raconfFindCamera, if_pos (List.length_pos_of_ne_nil hm), ← Option.isSome_iff_exists, List.find?_isSome]
        exact ⟨i, by simpa using hconf, Bool.of_not_eq_false hmatched⟩
      have hd : d ≠ c := by
        rintro rfl
        exact hmatched (((raconfFindCamera_eq_some_iff hm).mp hfind).2.2 i hi hconf)
      have hfind' : raconfFindCamera (s.withAnswers [] []).media (m.take cameraNameLength) = some d := by
        rw [htake]
        exact hfind
      obtain ⟨settings, hcamera, htouched⟩ := settings_touch hfind'
      have honly := hall (.cameraSettings settings) hcamera [] []
      rw [hstep] at honly
      exact htouched (honly.cam d hd)
    have hfind : raconfFindCamera s.media (m.take cameraNameLength) = some c := by
      rw [htake]
      exact (raconfFindCamera_eq_some_iff hm).mpr ⟨hc, hmatch, hfirst⟩
    refine ⟨hfirst, fun hpause hrunning d hd hsame => ?_⟩
    have honly := hall (.cameraRecordPause m 0) rfl [] []
    rw [hstep] at honly
    have hkept := honly.running d hd (hsame ▸ hrunning)
    have hworker : (s.cam c).workerPid ≠ 0 := fun hzero => h.sound.running 0 (hzero ▸ hrunning) rfl
    have hfind : raconfFindCamera (s.withAnswers [] []).media (m.take cameraNameLength) = some c := by
      rw [htake]
      exact (raconfFindCamera_eq_some_iff hm).mpr ⟨hc, hmatch, hfirst⟩
    have hpid : (((s.withAnswers [] []).modifyRuntime c paused).cam c).workerPid = (s.cam c).workerPid := by
      rw [cam_modifyRuntime_self]
      rfl
    obtain ⟨-, -, -, hrecorders⟩ := stopRecordingProcess_of_worker ((s.withAnswers [] []).modifyRuntime c paused) c
      (by rw [hpid]; exact hworker)
    change (s.cam d).workerPid ∈ ((s.withAnswers [] []).handleCameraRecordPause m 0).2.recorders.running at hkept
    rw [handleCameraRecordPause_of_pause hfind hpause, hrecorders, hpid, hsame] at hkept
    exact h.ownPids.nodup.not_mem_erase hkept
  · rintro ⟨hfirst, hsole⟩ e he forks deaths
    rw [hstep]
    have hfind : raconfFindCamera (s.withAnswers forks deaths).media (m.take cameraNameLength) = some c := by
      rw [htake]
      exact (raconfFindCamera_eq_some_iff hm).mpr ⟨hc, hmatch, hfirst⟩
    obtain ⟨hcam, hspawns, hrunning⟩ := TouchesOnly.handle (s := s.withAnswers forks deaths) hsole hfind he
    exact ⟨hcam, hspawns, hrunning⟩

/-- A pause of the only camera touches no other slot. -/
theorem reachable_touchesOnly_iff_cab :
    TouchesOnly 0 (run step (start (cabConfig true) true true true) cabRecording)
      ((run step (start (cabConfig true) true true true) cabRecording).step
        ⟨.cameraRecordPause ['C', 'A', 'B'] 0, [], []⟩) :=
  have hcab := reachable_touchesOnly_iff (m := ['C', 'A', 'B']) (c := 0)
    ⟨cabConfig true, true, true, true, cabRecording, rfl⟩ (by decide) (by decide) (by decide) (by decide)
    (by decide)
  hcab.mpr (by decide) (.cameraRecordPause ['C', 'A', 'B'] 0) rfl [] []

/-- A configuration with a camera `CAB2` before the camera `CAB`. -/
def twinConfig : Config :=
  { cabConfig true with
    cameras := fun i =>
      if i = 0 then { cabCamera true with name := ['C', 'A', 'B', '2'], name_length := by decide }
      else if i = 1 then cabCamera true
      else .empty }

/-- Settings for the camera `CAB` are applied to the camera `CAB2` before it. -/
theorem reachable_not_touchesOnly :
    ∃ s : Agent, s.Reachable ∧ s.statics.ptcActive = true ∧ (1 : Slot).val < s.media.nCameras ∧
      padUnderscores ['C', 'A', 'B'] cameraNameLength = (s.cam 1).name ∧
      ¬ TouchesOnly 1 s (s.step (Event.quiet (.cameraSettings ⟨['C', 'A', 'B'], 2, 1, 1, 0, 0, 0⟩))) := by
  refine ⟨start twinConfig true true true, ⟨twinConfig, true, true, true, [], rfl⟩, rfl, by decide, by decide,
    fun h => ?_⟩
  have hsame := congrArg (fun p => p.runtime.resolution) (h.cam 0 (by decide))
  exact absurd hsame (by decide)

end Agent

end RecordingAgent.Reagent
