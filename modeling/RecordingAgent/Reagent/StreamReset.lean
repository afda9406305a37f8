import RecordingAgent.Reagent.StatusTruth
import RecordingAgent.Reagent.UsableDrive

/-!
# Whether a changed picture parameter costs the recording

A picture parameter is changed by a pause and a start. The pause forgets the mode word and the
start builds another one from the configuration and the ready drives, after admission rules
under which the camera need not have come to record. With forks that succeed, the camera
records again as before exactly when the start is admitted, commands the CHM if that was
recorded on, and the mode word was the one the configuration and the ready drives give.
-/

namespace RecordingAgent.Reagent

open Foundation

/-- The mode word which the configuration of a camera and the ready drives give. -/
def configuredMode (p : CamDef) (rssdReady : Bool) : Flags :=
  (if p.runtime.isEssential ≠ 0 then
      if str2bool p.doAudio then doRecordChmVideo ||| doRecordChmAudio else doRecordChmVideo
    else dontUseChm) |||
    (if rssdReady then
      if str2bool p.doAudio then doRecordSsdVideo ||| doRecordSsdAudio else doRecordSsdVideo
    else 0)

/-- A start from an empty mode word sets the configured one. -/
theorem launchMode_of_zero {p : CamDef} (h : p.runtime.recordingModeFlags = 0) (rssdReady : Bool) :
    launchMode rssdReady p = configuredMode p rssdReady := by
  unfold launchMode recordingMode configuredMode
  rw [h]
  by_cases hessential : p.runtime.isEssential = 0
  · cases hdo : str2bool p.doAudio <;> cases rssdReady <;> simp [hessential] <;> decide
  · cases hdo : str2bool p.doAudio <;> cases rssdReady <;> simp [hessential] <;> decide

/-- Every coming fork succeeds. -/
def Os.ForksSucceed (os : Os) : Prop := ∀ answer ∈ os.forks, answer = true

namespace Os.ForksSucceed

variable {os os' : Os}

theorem fork (h : os.ForksSucceed) : os.fork.1 = some (os.lastPid + 1) ∧ os.fork.2.ForksSucceed := by
  unfold Os.fork
  split
  · rename_i rest hforks
    have hfalse := h false (by rw [hforks]; exact List.mem_cons_self)
    cases hfalse
  · exact ⟨rfl, fun answer hanswer => h answer (List.mem_of_mem_tail hanswer)⟩

theorem poll (h : os.ForksSucceed) : os.poll.2.ForksSucceed := by
  unfold Os.poll
  split
  · exact h
  · exact h

theorem start (h : os.ForksSucceed) : (Helper.start os).2.ForksSucceed := by
  have hfork := h.fork.2
  unfold Helper.start
  split <;> rename_i heq <;> rw [heq] at hfork <;> exact hfork

theorem keepRunning (h : os.ForksSucceed) (helper : Helper) : (helper.keepRunning os).2.ForksSucceed := by
  have hpoll := h.poll
  unfold Helper.keepRunning
  split
  · exact h.start
  · split
    · exact h.start
    · split <;> rename_i heq <;> rw [heq] at hpoll
      · exact hpoll.start
      · exact hpoll

end Os.ForksSucceed

namespace Agent

/-- Looking after the helpers does not make forks fail. -/
theorem helpers_forksSucceed {s : Agent} (h : s.side.os.ForksSucceed) :
    s.handleMetarec.handleSpaceMonitor.side.os.ForksSucceed := by
  have hmetarec : (s.side.handleMetarec s.media).os.ForksSucceed := by
    unfold Side.handleMetarec
    split
    · exact h.keepRunning _
    · exact h
  change ((s.side.handleMetarec s.media).handleSpaceMonitor s.media).os.ForksSucceed
  unfold Side.handleSpaceMonitor
  split
  · exact hmetarec.keepRunning _
  · exact hmetarec

/-- Stopping a camera does not make forks fail. -/
theorem stopRecordingProcess_forksSucceed {s : Agent} (h : s.side.os.ForksSucceed) (c : Slot) :
    (s.stopRecordingProcess c).2.side.os.ForksSucceed := by
  unfold stopRecordingProcess
  dsimp only
  split
  · have hstopped : ((s.terminate (s.cam c).workerPid).cameraRecordingJustStopped c).side.os.ForksSucceed :=
      helpers_forksSucceed h
    split
    · exact hstopped
    · exact hstopped
  · exact h

/-- A worker was started for the camera with its launch mode word, and recorded as its worker. -/
structure Launched (c : Slot) (s s' : Agent) (sp : Spawn) : Prop where
  slot : sp.slot = c
  pid_ne_zero : sp.pid ≠ 0
  recordFlags : sp.command.recordFlags = launchMode s.media.isRssdReady (s.cam c)
  spawned : s'.recorders.spawned = s.recorders.spawned ++ [sp]
  running : sp.pid ∈ s'.recorders.running
  cam : s'.cam c = ((s.cam c).withMode (launchMode s.media.isRssdReady (s.cam c))).withWorker sp.pid

/-- A worker is started and runs when the fork succeeds. -/
theorem spawnProcess_of_forks {s : Agent} (h : s.side.os.ForksSucceed) (c : Slot) (command : Command) :
    ∃ pid t, s.spawnProcess c command = (some pid, t) ∧ pid ∈ t.recorders.running := by
  have hfork := h.fork.1
  unfold spawnProcess
  split <;> rename_i heq <;> rw [heq] at hfork
  · cases hfork
  · exact ⟨_, _, rfl, List.mem_cons_self⟩

theorem workerStarted_cam (s : Agent) (c : Slot) (pid : ℕ) :
    (s.workerStarted c pid).cam c = (s.cam c).withWorker pid := by
  unfold workerStarted
  dsimp only
  split <;> exact cam_modifyCam_self s c fun p => p.withWorker pid

/-- An assigned camera without a worker gets one when the fork succeeds. -/
theorem launchWorker_launched {s : Agent} {c : Slot} (cid : Slot) {mode : Flags}
    (hmode : mode = launchMode s.media.isRssdReady (s.cam c)) (hassigned : (s.cam c).runtime.isAssigned = true)
    (hidle : (s.cam c).workerPid = 0) (hforks : s.side.os.ForksSucceed) :
    ((s.setMode c mode).launchWorker c cid).1 = .success ∧
      ∃ sp, Launched c s ((s.setMode c mode).launchWorker c cid).2 sp := by
  have hcam : (s.setMode c mode).cam c = (s.cam c).withMode mode := s.setMode_cam c mode
  have hlaunch : ((s.setMode c mode).cam c).runtime.isAssigned = true ∧ ((s.setMode c mode).cam c).workerPid = 0 := by
    rw [hcam]
    exact ⟨hassigned, hidle⟩
  obtain ⟨pid, t, hspawn, hrunning⟩ := spawnProcess_of_forks (s := s.setMode c mode) hforks c
    (raconfPrepareForRecording (s.setMode c mode).media ((s.setMode c mode).cam c))
  obtain ⟨hpid, hmedia, hspawned⟩ := spawnProcess_some _ c hspawn
  obtain ⟨-, -, hrecorders⟩ := (t.setRetry cid 0).workerStarted_effect c pid
  unfold launchWorker
  simp only [if_pos hlaunch, hspawn]
  refine ⟨trivial, _, rfl, hpid, ?_, (congrArg Recorders.spawned hrecorders).trans hspawned, ?_, ?_⟩
  · change ((s.setMode c mode).cam c).runtime.recordingModeFlags = _
    rw [hcam, hmode]
    rfl
  · change pid ∈ ((t.setRetry cid 0).workerStarted c pid).recorders.running
    rw [hrecorders]
    exact hrunning
  · change ((t.setRetry cid 0).workerStarted c pid).cam c = _
    have htcam : (t.setRetry cid 0).cam c = (s.cam c).withMode mode := by
      rw [← hcam]
      exact congrFun (congrArg MediaInfo.cameras hmedia) c
    rw [workerStarted_cam, htcam, hmode]

/-- A start is admitted: the camera may be tried again, and the CHM is ready if it is commanded. -/
def Admitted (s : Agent) (c : Slot) : Prop :=
  s.statics.retryCount (s.retryIndex c) ≤ 2 ∧
    (Has (recordingMode (s.cam c)) doRecordChmVideo → s.media.isChmReady = true)

/-- An admitted start of an assigned camera without a worker launches one. -/
theorem startRecordingProcess_launched {s : Agent} {c : Slot} (hadmitted : s.Admitted c)
    (hassigned : (s.cam c).runtime.isAssigned = true) (hidle : (s.cam c).workerPid = 0)
    (hforks : s.side.os.ForksSucceed) : ∃ sp, Launched c s (s.startRecordingProcess c).2 sp := by
  obtain ⟨hretry, hready⟩ := hadmitted
  have hvideo : Has (recordingMode (s.cam c)) (doRecordChmVideo ||| doRecordSsdVideo) :=
    (has_mask_or _ _ _).mpr (.inr (recordingMode_ssdVideo _))
  have hchm : ¬ (Has (recordingMode (s.cam c)) doRecordChmVideo ∧
      (s.setMode c (recordingMode (s.cam c))).media.isChmReady = false) := by
    rintro ⟨hhas, hnot⟩
    change s.media.isChmReady = false at hnot
    rw [hready hhas] at hnot
    cases hnot
  unfold startRecordingProcess
  dsimp only
  rw [if_neg (not_lt.mpr hretry), if_pos hvideo, if_neg hchm]
  split
  · rename_i hssd
    have hssd' : Has (recordingMode (s.cam c)) doRecordSsdVideo ∧ s.media.isRssdReady = false := hssd
    rw [setMode_setMode]
    exact (launchWorker_launched _ (by rw [launchMode, if_pos hssd']) hassigned hidle hforks).2
  · rename_i hssd
    have hssd' : ¬ (Has (recordingMode (s.cam c)) doRecordSsdVideo ∧ s.media.isRssdReady = false) := hssd
    exact (launchWorker_launched _ (by rw [launchMode, if_neg hssd']) hassigned hidle hforks).2

/-- A start which is not admitted launches none. -/
theorem startRecordingProcess_refused {s : Agent} {c : Slot} (hrefused : ¬ s.Admitted c) :
    (s.startRecordingProcess c).2.recorders = s.recorders := by
  have hvideo : Has (recordingMode (s.cam c)) (doRecordChmVideo ||| doRecordSsdVideo) :=
    (has_mask_or _ _ _).mpr (.inr (recordingMode_ssdVideo _))
  unfold startRecordingProcess
  dsimp only
  by_cases hretry : s.statics.retryCount (s.retryIndex c) > 2
  · rw [if_pos hretry]
    rfl
  · rw [if_neg hretry, if_pos hvideo]
    have hchm : Has (recordingMode (s.cam c)) doRecordChmVideo ∧ s.media.isChmReady = false := by
      by_contra hready
      refine hrefused ⟨not_lt.mp hretry, fun hhas => ?_⟩
      by_contra hnot
      exact hready ⟨hhas, Bool.of_not_eq_true hnot⟩
    have hchm' : Has (recordingMode (s.cam c)) doRecordChmVideo ∧
        (s.setMode c (recordingMode (s.cam c))).media.isChmReady = false := hchm
    rw [if_pos hchm']
    rfl

/-- The agent after the pause half of a stream reset, about to start the camera again. -/
structure AboutToResume (c : Slot) (s t : Agent) : Prop where
  frame : Frame c s t
  retryCount : t.statics.retryCount = s.statics.retryCount
  spawned : t.recorders.spawned = s.recorders.spawned
  forks : s.side.os.ForksSucceed → t.side.os.ForksSucceed
  workerPid : (t.cam c).workerPid = 0
  recordingModeFlags : (t.cam c).runtime.recordingModeFlags = 0
  commandedPaused : (t.cam c).runtime.commandedPaused = false
  isAssigned : (t.cam c).runtime.isAssigned = (s.cam c).runtime.isAssigned
  isEssential : (t.cam c).runtime.isEssential = (s.cam c).runtime.isEssential
  doAudio : (t.cam c).doAudio = (s.cam c).doAudio

theorem AboutToResume.retryIndex {c : Slot} {s t : Agent} (h : AboutToResume c s t) :
    t.retryIndex c = s.retryIndex c := by
  unfold Agent.retryIndex
  rw [h.frame.configured]
  simp only [h.frame.names]

/-- The mode word a start finds after a pause is empty. -/
theorem AboutToResume.chmCommanded {c : Slot} {s t : Agent} (h : AboutToResume c s t) :
    Has (recordingMode (t.cam c)) doRecordChmVideo ↔ (s.cam c).runtime.isEssential ≠ 0 := by
  rw [recordingMode_chmVideo, h.recordingModeFlags, h.isEssential]
  exact or_iff_left (not_has_zero _)

theorem AboutToResume.launchMode {c : Slot} {s t : Agent} (h : AboutToResume c s t) :
    launchMode t.media.isRssdReady (t.cam c) = configuredMode (s.cam c) s.media.isRssdReady := by
  rw [launchMode_of_zero h.recordingModeFlags, h.frame.isRssdReady, configuredMode, h.isEssential, h.doAudio,
    configuredMode]

/-- Setting picture parameters before makes no difference. -/
theorem AboutToResume.of_picture {c : Slot} {s t : Agent} {set : CamRuntime → CamRuntime} (hset : PictureOnly set)
    (h : AboutToResume c (s.modifyRuntime c set) t) : AboutToResume c s t := by
  have hsame := hset.sameCommand (s.cam c)
  obtain ⟨hframe, hretry, hspawned, hforks, hpid, hmode, hpaused, hassigned, hessential, hdo⟩ := h
  rw [cam_modifyRuntime_self] at hassigned hessential hdo
  exact ⟨(Frame.modifyRuntime s set).trans hframe, hretry, hspawned, hforks, hpid, hmode, hpaused,
    hassigned.trans (hset.isAssigned _), hessential.trans hsame.isEssential, hdo⟩

/-- If the pause succeeds, the reset is the pause and the start behind it. -/
theorem resetCameraStream_of_success {s t : Agent} {camera : CString}
    (h : s.handleCameraRecordPause (camera.take cameraNameLength) 0 = (.success, t)) :
    (s.resetCameraStream camera).2 = (t.handleCameraRecordPause (camera.take cameraNameLength) 1).2 := by
  unfold resetCameraStream
  rw [h]
  dsimp only
  rw [if_neg (by decide)]
  split
  · rfl
  · rfl

/-- After the worker of a paused camera was stopped and its pause mark taken away, the camera is as it is
before a start. -/
theorem aboutToResume_of_stopped {s : Agent} {c : Slot} (hworker : ((s.modifyRuntime c paused).cam c).workerPid ≠ 0) :
    AboutToResume c s (((s.modifyRuntime c paused).stopRecordingProcess c).2.modifyRuntime c resumed) := by
  obtain ⟨-, hcam, -, hrecorders⟩ := stopRecordingProcess_of_worker (s.modifyRuntime c paused) c hworker
  have hframe : Frame c s ((s.modifyRuntime c paused).stopRecordingProcess c).2 :=
    (Frame.modifyRuntime s paused).trans (.stopRecordingProcess _)
  have hstatics : ((s.modifyRuntime c paused).stopRecordingProcess c).2.statics = s.statics :=
    stopRecordingProcess_statics (s.modifyRuntime c paused) c
  have hspawned : ((s.modifyRuntime c paused).stopRecordingProcess c).2.recorders.spawned = s.recorders.spawned := by
    rw [hrecorders]
    rfl
  have hforks : s.side.os.ForksSucceed →
      ((s.modifyRuntime c paused).stopRecordingProcess c).2.side.os.ForksSucceed :=
    fun h => stopRecordingProcess_forksSucceed (s := s.modifyRuntime c paused) h c
  have hresume : (((s.modifyRuntime c paused).stopRecordingProcess c).2.modifyRuntime c resumed).cam c =
      { (s.cam c).stopped with
        runtime := { (s.cam c).stopped.runtime with recordingModeFlags := 0, commandedPaused := false } } := by
    rw [cam_modifyRuntime_self, hcam, cam_modifyRuntime_self]
    rfl
  exact ⟨hframe.trans (.modifyRuntime _ _), congrArg Statics.retryCount hstatics, hspawned, hforks,
    congrArg (·.workerPid) hresume, congrArg (·.runtime.recordingModeFlags) hresume,
    congrArg (·.runtime.commandedPaused) hresume, congrArg (·.runtime.isAssigned) hresume,
    congrArg (·.runtime.isEssential) hresume, congrArg (·.doAudio) hresume⟩

/-- Resetting the stream of a recording camera stops it and starts it again. -/
theorem resetCameraStream_resumes {s : Agent} {camera : CString} {c : Slot}
    (hfind : raconfFindCamera s.media (camera.take cameraNameLength) = some c) (hpause : s.PauseCommanded c 0)
    (hbacked : StatusBacked (s.cam c)) (hdrives : s.media.isChmReady = true ∨ s.media.isRssdReady = true) :
    ∃ t, AboutToResume c s t ∧ (s.resetCameraStream camera).2 = (t.startRecordingProcess c).2 := by
  obtain ⟨hshutdown, honline, hassigned, hrecording, -⟩ := hpause
  have htwice : (camera.take cameraNameLength).take cameraNameLength = camera.take cameraNameLength := by
    rw [List.take_take, min_self]
  have hworker : ((s.modifyRuntime c paused).cam c).workerPid ≠ 0 := by
    rw [cam_modifyRuntime_self]
    refine hbacked.worker fun hzero => ?_
    unfold isRecording at hrecording
    rw [hzero] at hrecording
    exact absurd hrecording (by decide)
  obtain ⟨hsuccess, hcam, -, -⟩ := stopRecordingProcess_of_worker (s.modifyRuntime c paused) c hworker
  have hframe : Frame c s ((s.modifyRuntime c paused).stopRecordingProcess c).2 :=
    (Frame.modifyRuntime s paused).trans (.stopRecordingProcess _)
  rw [cam_modifyRuntime_self] at hcam
  have hpaused : s.handleCameraRecordPause (camera.take cameraNameLength) 0 =
      (s.modifyRuntime c paused).stopRecordingProcess c :=
    handleCameraRecordPause_of_pause (by rw [htwice]; exact hfind)
      ⟨hshutdown, honline, hassigned, hrecording, by decide⟩
  have habout := aboutToResume_of_stopped hworker
  generalize ht : ((s.modifyRuntime c paused).stopRecordingProcess c).2 = t at hcam hframe habout
  have hstart : t.StartCommanded c 1 := by
    refine ⟨hframe.shutdown.trans hshutdown, ?_, ?_, ?_, by decide, ?_⟩
    · rw [hcam]
      exact honline
    · rw [hcam]
      exact hassigned
    · have hzero : (t.cam c).runtime.recordingStatusFlags = 0 := by
        rw [hcam]
        exact stopped_status (p := { s.cam c with runtime := paused (s.cam c).runtime }) hbacked.word
      unfold isRecording
      rw [hzero]
      decide
    · rw [hframe.isChmReady, hframe.isRssdReady]
      exact hdrives
  have hfind' : raconfFindCamera t.media ((camera.take cameraNameLength).take cameraNameLength) = some c := by
    rw [htwice, hframe.raconfFindCamera]
    exact hfind
  refine ⟨t.modifyRuntime c resumed, habout, ?_⟩
  rw [resetCameraStream_of_success (hpaused.trans (Prod.ext hsuccess ht)), handleCameraRecordPause_of_start hfind' hstart]

/-- The camera has a new worker, which records on every ready drive it was recorded on before, and its
pause mark and mode word are as before. -/
structure StreamKept (c : Slot) (s s' : Agent) : Prop where
  worker : ∃ sp ∈ s'.recorders.spawned.drop s.recorders.spawned.length,
    sp.slot = c ∧ sp.pid ≠ 0 ∧ sp.pid = (s'.cam c).workerPid ∧ sp.pid ∈ s'.recorders.running ∧
      (Has (s.cam c).runtime.recordingStatusFlags isRecordingChmVideo → s.media.isChmReady = true →
        Has sp.command.recordFlags doRecordChmVideo) ∧
      (Has (s.cam c).runtime.recordingStatusFlags isRecordingSsdVideo → s.media.isRssdReady = true →
        Has sp.command.recordFlags doRecordSsdVideo)
  commandedPaused : (s'.cam c).runtime.commandedPaused = (s.cam c).runtime.commandedPaused
  recordingModeFlags : (s'.cam c).runtime.recordingModeFlags = (s.cam c).runtime.recordingModeFlags

/-- A start of the camera would be admitted and record on the CHM if the camera does, and the camera
is commanded what its configuration and the ready drives give. -/
structure ResetHarmless (s : Agent) (c : Slot) : Prop where
  retries : s.statics.retryCount (s.retryIndex c) ≤ 2
  essential : (s.cam c).runtime.isEssential ≠ 0 → s.media.isChmReady = true
  chm : Has (s.cam c).runtime.recordingStatusFlags isRecordingChmVideo → s.media.isChmReady = true →
    (s.cam c).runtime.isEssential ≠ 0
  unpaused : (s.cam c).runtime.commandedPaused = false
  mode : (s.cam c).runtime.recordingModeFlags = configuredMode (s.cam c) s.media.isRssdReady

theorem AboutToResume.admitted_iff {c : Slot} {s t : Agent} (h : AboutToResume c s t) :
    t.Admitted c ↔ s.statics.retryCount (s.retryIndex c) ≤ 2 ∧
      ((s.cam c).runtime.isEssential ≠ 0 → s.media.isChmReady = true) := by
  rw [Admitted, h.retryCount, h.retryIndex, h.chmCommanded, h.frame.isChmReady]

/-- What a reset which comes to start the camera leaves of its recording. -/
theorem AboutToResume.streamKept_iff {c : Slot} {s t : Agent} (h : AboutToResume c s t)
    (hassigned : (s.cam c).runtime.isAssigned = true) (hforks : s.side.os.ForksSucceed) :
    StreamKept c s (t.startRecordingProcess c).2 ↔ s.ResetHarmless c := by
  by_cases hadmitted : t.Admitted c
  · obtain ⟨sp, hslot, hpid, hflags, hspawned, hrunning, hcam⟩ := startRecordingProcess_launched hadmitted
      (h.isAssigned.trans hassigned) h.workerPid (h.forks hforks)
    rw [h.spawned] at hspawned
    have hnew : (t.startRecordingProcess c).2.recorders.spawned.drop s.recorders.spawned.length = [sp] := by
      rw [hspawned, List.drop_left]
    have hchm : Has sp.command.recordFlags doRecordChmVideo ↔ (s.cam c).runtime.isEssential ≠ 0 := by
      rw [hflags, launchMode_chmVideo, h.chmCommanded]
    have hssd : Has sp.command.recordFlags doRecordSsdVideo ↔ s.media.isRssdReady = true := by
      rw [hflags, launchMode_ssdVideo, h.frame.isRssdReady]
    have hpaused : ((t.startRecordingProcess c).2.cam c).runtime.commandedPaused = false := by
      rw [hcam]
      exact h.commandedPaused
    have hmode : ((t.startRecordingProcess c).2.cam c).runtime.recordingModeFlags =
        configuredMode (s.cam c) s.media.isRssdReady := by
      rw [hcam, h.launchMode]
      rfl
    obtain ⟨hretries, hessential⟩ := h.admitted_iff.mp hadmitted
    constructor
    · rintro ⟨⟨sp', hsp', -, -, -, -, hchm', -⟩, hpaused', hmode'⟩
      rw [hnew] at hsp'
      obtain rfl := List.mem_singleton.mp hsp'
      exact ⟨hretries, hessential, fun hhas hready => hchm.mp (hchm' hhas hready), hpaused'.symm.trans hpaused,
        hmode'.symm.trans hmode⟩
    · intro hharmless
      refine ⟨⟨sp, by rw [hnew]; exact List.mem_singleton_self sp, hslot, hpid, ?_, hrunning, ?_, ?_⟩,
        hpaused.trans hharmless.unpaused.symm, hmode.trans hharmless.mode.symm⟩
      · rw [hcam]
        rfl
      · exact fun hhas hready => hchm.mpr (hharmless.chm hhas hready)
      · exact fun _ hready => hssd.mpr hready
  · have hnone : (t.startRecordingProcess c).2.recorders.spawned = s.recorders.spawned := by
      rw [startRecordingProcess_refused hadmitted, h.spawned]
    constructor
    · rintro ⟨⟨sp, hsp, -⟩, -, -⟩
      rw [hnone, List.drop_length] at hsp
      cases hsp
    · intro hharmless
      exact absurd (h.admitted_iff.mpr ⟨hharmless.retries, hharmless.essential⟩) hadmitted

/-- What a message sent afterwards does not change. -/
theorem StreamKept.congr {c : Slot} {s s' t : Agent} (hrecorders : t.recorders = s'.recorders)
    (hmedia : t.media = s'.media) : StreamKept c s t ↔ StreamKept c s s' := by
  have hcam : t.cam c = s'.cam c := by rw [cam, hmedia, cam]
  constructor
  · rintro ⟨hworker, hpaused, hmode⟩
    rw [hrecorders, hcam] at hworker
    rw [hcam] at hpaused hmode
    exact ⟨hworker, hpaused, hmode⟩
  · rintro ⟨hworker, hpaused, hmode⟩
    rw [← hrecorders, ← hcam] at hworker
    rw [← hcam] at hpaused hmode
    exact ⟨hworker, hpaused, hmode⟩

/-- In a reachable state, changing a picture parameter of an online, assigned camera which records on
a ready drive leaves it recording as before exactly when the reset is harmless for it. -/
theorem reachable_streamKept_iff {s : Agent} (h : s.Reachable) (hactive : s.statics.ptcActive = true)
    (hshutdown : s.statics.shutdownInProcess = false) {camera : CString} {c : Slot}
    (hfind : raconfFindCamera s.media (camera.take cameraNameLength) = some c)
    (honline : (s.cam c).runtime.isOnline = true) (hassigned : (s.cam c).runtime.isAssigned = true)
    (hrecording : (Has (s.cam c).runtime.recordingStatusFlags isRecordingChmVideo ∧ s.media.isChmReady = true) ∨
      (Has (s.cam c).runtime.recordingStatusFlags isRecordingSsdVideo ∧ s.media.isRssdReady = true))
    {e : Event} (he : e.ChangesParameter camera) {forks : List Bool} (hforks : ∀ answer ∈ forks, answer = true)
    (deaths : List Bool) : StreamKept c s (s.step ⟨e, forks, deaths⟩) ↔ s.ResetHarmless c := by
  obtain ⟨set, error, hset, heq⟩ := handle_changesParameter he
  have hstep : s.step ⟨e, forks, deaths⟩ = (s.withAnswers forks deaths).changeParameter camera set error := by
    rw [← heq]
    exact if_pos hactive
  have hfind' : raconfFindCamera (s.withAnswers forks deaths).media (camera.take cameraNameLength) = some c := hfind
  have htwice : (camera.take cameraNameLength).take cameraNameLength = camera.take cameraNameLength := by
    rw [List.take_take, min_self]
  set t := (s.withAnswers forks deaths).modifyRuntime c set with ht
  have htcam : t.cam c = { s.cam c with runtime := set (s.cam c).runtime } := by
    rw [ht, cam_modifyRuntime_self]
    rfl
  have hsame : SameCommand (s.cam c) (t.cam c) := htcam ▸ hset.sameCommand (s.cam c)
  have hpause : t.PauseCommanded c 0 := by
    refine ⟨hshutdown, ?_, ?_, ?_, by decide⟩
    · rw [htcam]
      exact (hset.isOnline _).trans honline
    · rw [htcam]
      exact (hset.isAssigned _).trans hassigned
    · unfold isRecording
      rw [hsame.recordingStatusFlags, decide_eq_true_iff, has_mask_or]
      exact hrecording.imp And.left And.left
  have hbacked : StatusBacked (t.cam c) :=
    (h.allBacked.cam c).congr hsame.workerPid hsame.recordingStatusFlags
  obtain ⟨u, hresume, hreset⟩ := resetCameraStream_resumes (s := t)
    (by rw [htwice]; exact ((Frame.modifyRuntime (s.withAnswers forks deaths) set).raconfFindCamera _).trans hfind)
    hpause hbacked (hrecording.imp And.right And.right)
  have hresume' : AboutToResume c (s.withAnswers forks deaths) u := hresume.of_picture hset
  have hiff : StreamKept c s (u.startRecordingProcess c).2 ↔ s.ResetHarmless c := by
    have hanswered := hresume'.streamKept_iff hassigned hforks
    constructor
    · rintro ⟨hworker, hpaused, hmode⟩
      obtain ⟨hretries, hessential, hchm, hunpaused, hmode'⟩ := hanswered.mp ⟨hworker, hpaused, hmode⟩
      exact ⟨hretries, hessential, hchm, hunpaused, hmode'⟩
    · rintro ⟨hretries, hessential, hchm, hunpaused, hmode⟩
      obtain ⟨hworker, hpaused, hmode'⟩ := hanswered.mpr ⟨hretries, hessential, hchm, hunpaused, hmode⟩
      exact ⟨hworker, hpaused, hmode'⟩
  have hrecorders : (t.resetCameraStream (camera.take cameraNameLength)).2.recorders =
      (u.startRecordingProcess c).2.recorders := congrArg recorders hreset
  have hmedia : (t.resetCameraStream (camera.take cameraNameLength)).2.media =
      (u.startRecordingProcess c).2.media := congrArg media hreset
  rw [hstep, ← hiff]
  unfold changeParameter
  rw [hfind']
  dsimp only
  split
  · exact StreamKept.congr hrecorders hmedia
  · exact StreamKept.congr hrecorders hmedia

/-- The recording camera takes another resolution and records on. -/
theorem reachable_streamKept_iff_cab :
    StreamKept 0 (run step (start (cabConfig true) true true true) cabRecording)
      ((run step (start (cabConfig true) true true true) cabRecording).step
        (Event.quiet (.cameraResolution ['C', 'A', 'B'] 2))) :=
  (reachable_streamKept_iff ⟨cabConfig true, true, true, true, cabRecording, rfl⟩ (by decide +kernel) (by decide +kernel)
    (by decide +kernel) (by decide +kernel) (by decide +kernel) (by decide +kernel)
    (show Event.ChangesParameter ['C', 'A', 'B'] (.cameraResolution ['C', 'A', 'B'] 2) from rfl)
    (fun _ hanswer => absurd hanswer List.not_mem_nil) []).mpr
    ⟨by decide +kernel, by decide +kernel, by decide +kernel, by decide +kernel, by decide +kernel⟩

/-- After the CHM was shut down, an essential camera records on the SSD, and another resolution ends
that. -/
theorem reachable_not_streamKept :
    ∃ s : Agent, s.Reachable ∧ s.statics.ptcActive = true ∧ s.statics.shutdownInProcess = false ∧
      raconfFindCamera s.media ['C', 'A', 'B'] = some 0 ∧ (s.cam 0).runtime.isOnline = true ∧
      (s.cam 0).runtime.isAssigned = true ∧
      (Has (s.cam 0).runtime.recordingStatusFlags isRecordingSsdVideo ∧ s.media.isRssdReady = true) ∧
      ¬ StreamKept 0 s (s.step (Event.quiet (.cameraResolution ['C', 'A', 'B'] 2))) :=
  ⟨run step (start (cabConfig true) true true true) (cabRecording ++ [Event.quiet (.shutdown .chm)]),
    ⟨cabConfig true, true, true, true, _, rfl⟩, by decide +kernel, by decide +kernel, by decide +kernel,
    by decide +kernel, by decide +kernel, by decide +kernel, fun h => absurd h.worker (by decide +kernel)⟩

end Agent

end RecordingAgent.Reagent
