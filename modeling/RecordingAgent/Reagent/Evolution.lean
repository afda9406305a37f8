import Mathlib.Logic.Relation
import RecordingAgent.Foundation.Growth
import RecordingAgent.Reagent.Effect

/-!
# How the record of one camera evolves

While the agent looks after a camera, its record goes through changes of a few kinds, which
`Adjusted` lists: the mode word is cleared by a pause or rebuilt by a start, a worker is
started with a status word which follows the mode word, or the camera is stopped. Everything
else leaves the words, the worker and the pause mark as they were.

`Evolves c s s'` refines `Frame c s s'`: the record of the camera went through such changes,
each status reported on the way is that of the record at some point of them, and each worker
started on the way had the launch mode word of such a record.
-/

namespace RecordingAgent.Reagent

open Foundation Relation

/-- The mode and status words, the worker, the pause mark and what a start reads are the same; a
camera may be given up. -/
structure SameCommand (p p' : CamDef) : Prop where
  name : p'.name = p.name
  doAudio : p'.doAudio = p.doAudio
  isEssential : p'.runtime.isEssential = p.runtime.isEssential
  workerPid : p'.workerPid = p.workerPid
  recordingModeFlags : p'.runtime.recordingModeFlags = p.runtime.recordingModeFlags
  recordingStatusFlags : p'.runtime.recordingStatusFlags = p.runtime.recordingStatusFlags
  commandedPaused : p'.runtime.commandedPaused = p.runtime.commandedPaused
  isAssigned : p'.runtime.isAssigned = true → p.runtime.isAssigned = true

theorem SameCommand.refl (p : CamDef) : SameCommand p p := ⟨rfl, rfl, rfl, rfl, rfl, rfl, rfl, id⟩

/-- The camera with another mode word. -/
def CamDef.withMode (p : CamDef) (mode : Flags) : CamDef :=
  { p with runtime := { p.runtime with recordingModeFlags := mode } }

/-- The camera with a worker which records what its mode word commands. -/
def CamDef.withWorker (p : CamDef) (pid : ℕ) : CamDef :=
  { p with
    workerPid := pid
    runtime := { p.runtime with recordingStatusFlags := recordingStatus p.runtime.recordingModeFlags } }

/-- One change of a camera's record, with the given drives ready and workers launched with the given
mode words. -/
inductive Adjusted (chmReady rssdReady : Bool) (launches : Flags → Prop) : CamDef → CamDef → Prop
  | aside {p p' : CamDef} (h : SameCommand p p') : Adjusted chmReady rssdReady launches p p'
  | stopped (p : CamDef) : Adjusted chmReady rssdReady launches p p.stopped
  | paused (p : CamDef) : Adjusted chmReady rssdReady launches p { p with runtime := Agent.paused p.runtime }
  | resumed (p : CamDef) :
      Adjusted chmReady rssdReady launches p { p with runtime := Agent.resumed p.runtime }
  /-- A start which is refused has rebuilt the mode word. -/
  | commanded (p : CamDef) : Adjusted chmReady rssdReady launches p (p.withMode (recordingMode p))
  /-- A start which is not refused, but launches no worker. -/
  | limited (p : CamDef) : Adjusted chmReady rssdReady launches p (p.withMode (launchMode rssdReady p))
  | launched (p : CamDef) {pid : ℕ} (hpid : pid ≠ 0) (hidle : p.workerPid = 0)
      (hassigned : p.runtime.isAssigned = true)
      (hready : Has (recordingMode p) doRecordChmVideo → chmReady = true)
      (hlaunch : launches (launchMode rssdReady p)) :
      Adjusted chmReady rssdReady launches p ((p.withMode (launchMode rssdReady p)).withWorker pid)

/-- With more launches allowed, the changes stay changes. -/
theorem Adjusted.mono {chmReady rssdReady : Bool} {launches launches' : Flags → Prop} {p p' : CamDef}
    (h : Adjusted chmReady rssdReady launches p p') (hmono : ∀ w, launches w → launches' w) :
    Adjusted chmReady rssdReady launches' p p' := by
  cases h with
  | aside hsame => exact .aside hsame
  | stopped => exact .stopped p
  | paused => exact .paused p
  | resumed => exact .resumed p
  | commanded => exact .commanded p
  | limited => exact .limited p
  | launched hpid hidle hassigned hready hlaunch => exact .launched p hpid hidle hassigned hready (hmono _ hlaunch)

/-- No change touches the audio option. -/
theorem Adjusted.doAudio {chmReady rssdReady : Bool} {launches : Flags → Prop} {p p' : CamDef}
    (h : Adjusted chmReady rssdReady launches p p') : p'.doAudio = p.doAudio := by
  cases h with
  | aside hsame => exact hsame.doAudio
  | _ => rfl

/-- A worker was started for the camera with this mode word since the first state. -/
def LaunchedSince (c : Slot) (s s' : Agent) (word : Flags) : Prop :=
  ∃ sp ∈ s'.recorders.spawned.drop s.recorders.spawned.length, sp.slot = c ∧ sp.command.recordFlags = word

/-- The changes a camera's record went through from one state to the other. -/
def Changes (c : Slot) (s s' : Agent) : CamDef → CamDef → Prop :=
  ReflTransGen (Adjusted s.media.isChmReady s.media.isRssdReady (LaunchedSince c s s'))

theorem Changes.mono_left {c : Slot} {s s' s'' : Agent} {p p' : CamDef} (h : Changes c s s' p p')
    (hspawned : s'.recorders.spawned.drop s.recorders.spawned.length ⊆
      s''.recorders.spawned.drop s.recorders.spawned.length) : Changes c s s'' p p' := by
  have hmono : ∀ w, LaunchedSince c s s' w → LaunchedSince c s s'' w := by
    rintro w ⟨sp, hsp, hword⟩
    exact ⟨sp, hspawned hsp, hword⟩
  exact ReflTransGen.mono (fun _ _ hstep => Adjusted.mono hstep hmono) _ _ h

theorem Changes.mono_right {c : Slot} {s s' s'' : Agent} {p p' : CamDef} (h : Changes c s' s'' p p')
    (hspawned : s''.recorders.spawned.drop s'.recorders.spawned.length ⊆
      s''.recorders.spawned.drop s.recorders.spawned.length)
    (hchm : s'.media.isChmReady = s.media.isChmReady) (hrssd : s'.media.isRssdReady = s.media.isRssdReady) :
    Changes c s s'' p p' := by
  unfold Changes at h ⊢
  rw [hchm, hrssd] at h
  have hmono : ∀ w, LaunchedSince c s' s'' w → LaunchedSince c s s'' w := by
    rintro w ⟨sp, hsp, hword⟩
    exact ⟨sp, hspawned hsp, hword⟩
  exact ReflTransGen.mono (fun _ _ hstep => Adjusted.mono hstep hmono) _ _ h

/-- Whether a message is a camera status. -/
def Sent.isCameraStatus : Sent → Bool
  | .cameraStatus .. => true
  | _ => false

/-- A message is no camera status, or reports a record which the camera's evolved into. -/
def Reports (c : Slot) (s s' : Agent) (m : Sent) : Prop :=
  m.isCameraStatus = true → ∃ p, Changes c s s' (s.cam c) p ∧ m = cameraStatus c p

/-- A worker was started for the camera with the launch mode word of a record which its evolved
into. -/
def Launches (c : Slot) (s s' : Agent) (sp : Spawn) : Prop :=
  sp.slot = c ∧ ∃ p, Changes c s s' (s.cam c) p ∧
    sp.command.recordFlags = launchMode s.media.isRssdReady p

/-- Looking after the helper processes sends nothing. -/
theorem Agent.helpers_sent (s : Agent) : s.handleMetarec.handleSpaceMonitor.side.sent = s.side.sent := by
  have hmetarec : ∀ side : Side, ∀ m, (side.handleMetarec m).sent = side.sent := by
    intro side m
    unfold Side.handleMetarec
    split <;> rfl
  have hspace : ∀ side : Side, ∀ m, (side.handleSpaceMonitor m).sent = side.sent := by
    intro side m
    unfold Side.handleSpaceMonitor
    split <;> rfl
  exact (hspace _ _).trans (hmetarec _ _)

/-- Pids are given in ascending order. -/
theorem Os.fork_lastPid (os : Os) : os.lastPid ≤ os.fork.2.lastPid := by
  unfold Os.fork
  split
  · exact le_rfl
  · exact Nat.le_succ _

/-- A new process has the last pid given, which was not given before. -/
theorem Os.fork_some {os os' : Os} {pid : ℕ} (h : os.fork = (some pid, os')) :
    os.lastPid < pid ∧ os'.lastPid = pid := by
  unfold Os.fork at h
  split at h
  · cases h
  · obtain ⟨hpid, rfl⟩ := Prod.mk.inj h
    obtain rfl := Option.some.inj hpid
    exact ⟨Nat.lt_succ_self _, rfl⟩

theorem Helper.start_lastPid (os : Os) : os.lastPid ≤ (Helper.start os).2.lastPid := by
  have h := os.fork_lastPid
  unfold Helper.start
  split <;> rename_i heq <;> rw [heq] at h <;> exact h

theorem Helper.keepRunning_lastPid (h : Helper) (os : Os) : os.lastPid ≤ (h.keepRunning os).2.lastPid := by
  have hpoll : os.poll.2.lastPid = os.lastPid := by
    unfold Os.poll
    split <;> rfl
  unfold Helper.keepRunning
  split
  · exact Helper.start_lastPid os
  · split
    · exact Helper.start_lastPid os
    · split <;> rename_i heq <;> rw [heq] at hpoll
      · exact hpoll.ge.trans (Helper.start_lastPid _)
      · exact hpoll.ge

/-- Looking after the helper processes gives pids in ascending order. -/
theorem Agent.helpers_lastPid (s : Agent) :
    s.side.os.lastPid ≤ s.handleMetarec.handleSpaceMonitor.side.os.lastPid := by
  have hmetarec : ∀ side : Side, ∀ m, side.os.lastPid ≤ (side.handleMetarec m).os.lastPid := by
    intro side m
    unfold Side.handleMetarec
    split
    · exact Helper.keepRunning_lastPid _ _
    · exact le_rfl
  have hspace : ∀ side : Side, ∀ m, side.os.lastPid ≤ (side.handleSpaceMonitor m).os.lastPid := by
    intro side m
    unfold Side.handleSpaceMonitor
    split
    · exact Helper.keepRunning_lastPid _ _
    · exact le_rfl
  exact (hmetarec _ _).trans (hspace _ _)

/-- The running workers have different pids, none of them above the last one given. -/
structure OwnPids (s : Agent) : Prop where
  nodup : s.recorders.running.Nodup
  le : ∀ p ∈ s.recorders.running, p ≤ s.side.os.lastPid

/-- Workers which end keep the pids of the others apart. -/
theorem OwnPids.sublist {s s' : Agent} (h : OwnPids s)
    (hrunning : s'.recorders.running.Sublist s.recorders.running)
    (hpid : s.side.os.lastPid ≤ s'.side.os.lastPid) : OwnPids s' :=
  ⟨h.nodup.sublist hrunning, fun p hp => (h.le p (hrunning.subset hp)).trans hpid⟩

/-- Starting a worker keeps the pids apart: the new one is above all others. -/
theorem OwnPids.spawnProcess {s : Agent} (h : OwnPids s) (c : Slot) (command : Command) :
    OwnPids (s.spawnProcess c command).2 := by
  unfold Agent.spawnProcess
  split
  · rename_i os hfork
    refine h.sublist (.refl _) ?_
    have hpid := s.side.os.fork_lastPid
    rw [hfork] at hpid
    exact hpid
  · rename_i pid os hfork
    have hpid := s.side.os.fork_lastPid
    obtain ⟨hnew, hlast⟩ := Os.fork_some hfork
    rw [hfork] at hpid
    refine ⟨List.nodup_cons.mpr ⟨fun hmem => ?_, h.nodup⟩, fun p hp => ?_⟩
    · have := h.le pid hmem
      omega
    · rcases List.mem_cons.mp hp with rfl | hp
      · exact hlast.ge
      · exact (h.le p hp).trans hpid

/-- Only camera `c` changed, its record by adjustments. -/
structure Evolves (c : Slot) (s s' : Agent) : Prop where
  frame : Frame c s s'
  cam : Changes c s s' (s.cam c) (s'.cam c)
  sent : GrewBy (Reports c s s') s.side.sent s'.side.sent
  spawned : GrewBy (Launches c s s') s.recorders.spawned s'.recorders.spawned
  ownPids : OwnPids s → OwnPids s'

namespace Evolves

variable {c : Slot} {s s' s'' : Agent}

/-- What leaves the camera, the messages and the starts alone. -/
theorem of_frame (h : Frame c s s') (hcam : s'.cam c = s.cam c) (hsent : s'.side.sent = s.side.sent)
    (hspawned : s'.recorders.spawned = s.recorders.spawned)
    (hown : OwnPids s → OwnPids s') : Evolves c s s' :=
  ⟨h, hcam ▸ .refl, .of_eq hsent, .of_eq hspawned, hown⟩

theorem refl (c : Slot) (s : Agent) : Evolves c s s := of_frame (.refl c s) rfl rfl rfl id

theorem trans (h : Evolves c s s') (h' : Evolves c s' s'') : Evolves c s s'' := by
  have hspawned := h.spawned.dropped h'.spawned
  have hfirst : ∀ {p}, Changes c s s' (s.cam c) p → Changes c s s'' (s.cam c) p := fun hp =>
    hp.mono_left hspawned.1
  have hboth : ∀ {p}, Changes c s' s'' (s'.cam c) p → Changes c s s'' (s.cam c) p := fun hp =>
    (hfirst h.cam).trans (hp.mono_right hspawned.2 h.frame.isChmReady h.frame.isRssdReady)
  refine ⟨h.frame.trans h'.frame, hboth h'.cam, (h.sent.mono fun m hm hstatus => ?_).trans
    (h'.sent.mono fun m hm hstatus => ?_), (h.spawned.mono fun sp hsp => ?_).trans
    (h'.spawned.mono fun sp hsp => ?_), fun hown => h'.ownPids (h.ownPids hown)⟩
  · obtain ⟨p, hp, rfl⟩ := hm hstatus
    exact ⟨p, hfirst hp, rfl⟩
  · obtain ⟨p, hp, rfl⟩ := hm hstatus
    exact ⟨p, hboth hp, rfl⟩
  · obtain ⟨hslot, p, hp, hflags⟩ := hsp
    exact ⟨hslot, p, hfirst hp, hflags⟩
  · obtain ⟨hslot, p, hp, hflags⟩ := hsp
    rw [h.frame.isRssdReady] at hflags
    exact ⟨hslot, p, hboth hp, hflags⟩

/-- A change of the camera's record which is an adjustment. -/
theorem modifyCam (s : Agent) {f : CamDef → CamDef} (hname : (f (s.cam c)).name = (s.cam c).name)
    (h : Adjusted s.media.isChmReady s.media.isRssdReady (LaunchedSince c s (s.modifyCam c f))
      (s.cam c) (f (s.cam c))) :
    Evolves c s (s.modifyCam c f) := by
  refine ⟨.modifyCam s hname, ?_, .refl _, .refl _, fun h => ⟨h.nodup, h.le⟩⟩
  rw [Agent.cam_modifyCam_self]
  exact .single h

theorem modifyRuntime (s : Agent) {f : CamRuntime → CamRuntime}
    (h : Adjusted s.media.isChmReady s.media.isRssdReady (LaunchedSince c s (s.modifyRuntime c f))
      (s.cam c) { s.cam c with runtime := f (s.cam c).runtime }) : Evolves c s (s.modifyRuntime c f) :=
  modifyCam s rfl h

theorem send (s : Agent) {m : Sent} (hm : m.isCameraStatus = false) : Evolves c s (s.send m) :=
  ⟨.send s m, .refl, .singleton (fun h => by simp [hm] at h) rfl, .refl _, fun h => ⟨h.nodup, h.le⟩⟩

theorem sendCameraStatus (s : Agent) : Evolves c s (s.sendCameraStatus c) :=
  ⟨.sendCameraStatus s c, .refl, .singleton (fun _ => ⟨_, .refl, rfl⟩) rfl, .refl _,
    fun h => ⟨h.nodup, h.le⟩⟩

theorem sendRecordingStatusMsg (s : Agent) : Evolves c s s.sendRecordingStatusMsg := send s rfl

theorem helpers (s : Agent) : Evolves c s s.handleMetarec.handleSpaceMonitor :=
  of_frame (.helpers s) rfl (Agent.helpers_sent s) rfl fun h =>
    h.sublist (.refl _) (Agent.helpers_lastPid s)

theorem stopSpaceMonitor (s : Agent) : Evolves c s s.stopSpaceMonitor :=
  of_frame (.stopSpaceMonitor s) rfl rfl rfl fun h => ⟨h.nodup, h.le⟩

theorem checkWorkerStatus (s : Agent) (pid : ℕ) : Evolves c s (s.checkWorkerStatus pid).2 := by
  refine of_frame (.checkWorkerStatus s pid) (s.checkWorkerStatus_cam pid c) ?_
    (s.checkWorkerStatus_frame pid).2.2.2.1 fun h => ?_
  · unfold Agent.checkWorkerStatus
    split <;> rfl
  · have hpoll : s.side.os.poll.2.lastPid = s.side.os.lastPid := by
      unfold Os.poll
      split <;> rfl
    unfold Agent.checkWorkerStatus
    split
    · refine h.sublist ?_ hpoll.ge
      dsimp only
      split
      · exact List.erase_sublist
      · exact .refl _
    · exact h

theorem setCamsRecording (s : Agent) (n : ℕ) : Evolves c s (s.setCamsRecording n) :=
  of_frame (.setCamsRecording s n) rfl rfl rfl fun h => ⟨h.nodup, h.le⟩

theorem setRetry (s : Agent) (d : Slot) (n : ℕ) : Evolves c s (s.setRetry d n) :=
  of_frame (.setRetry s d n) rfl rfl rfl fun h => ⟨h.nodup, h.le⟩

theorem setCamonTtl (s : Agent) (d : Slot) (n : ℤ) : Evolves c s (s.setCamonTtl d n) :=
  of_frame (.setCamonTtl s d n) rfl rfl rfl fun h => ⟨h.nodup, h.le⟩

theorem setRpTtl (s : Agent) (n : ℤ) : Evolves c s (s.setRpTtl c n) :=
  of_frame (.setRpTtl s n) rfl rfl rfl fun h => ⟨h.nodup, h.le⟩

theorem terminate (s : Agent) (pid : ℕ) : Evolves c s (s.terminate pid) :=
  of_frame (.terminate s pid) rfl rfl rfl fun h => h.sublist List.erase_sublist le_rfl

/-- The reports after a camera's record was set to a stopped one. -/
theorem justStopped {t : Agent} (h : Evolves c s (t.modifyCam c CamDef.stopped)) :
    Evolves c s (t.cameraRecordingJustStopped c) :=
  (((h.trans (sendCameraStatus _)).trans (sendRecordingStatusMsg _)).trans (setCamsRecording _ _)).trans
    (helpers _)

theorem cameraRecordingJustStopped (s : Agent) : Evolves c s (s.cameraRecordingJustStopped c) :=
  justStopped (modifyCam s rfl (.stopped _))

/-- A camera whose worker was found dead ends up stopped, whatever else is set before. -/
theorem foundDead (s : Agent) {f : CamDef → CamDef} (hname : (f (s.cam c)).name = (s.cam c).name)
    (h : SameCommand (s.cam c).stopped (f (s.cam c)).stopped) :
    Evolves c s ((s.modifyCam c f).cameraRecordingJustStopped c) := by
  refine justStopped ⟨(Frame.modifyCam s hname).trans (Frame.modifyCam _ rfl), ?_, .refl _, .refl _,
    fun h => ⟨h.nodup, h.le⟩⟩
  rw [Agent.cam_modifyCam_self, Agent.cam_modifyCam_self]
  exact .tail (.single (.stopped _)) (.aside h)

theorem stopRecordingProcess (s : Agent) : Evolves c s (s.stopRecordingProcess c).2 := by
  unfold Agent.stopRecordingProcess
  dsimp only
  split
  · have hstopped := (terminate (c := c) s (s.cam c).workerPid).trans (cameraRecordingJustStopped _)
    have hidle : Evolves c ((s.terminate (s.cam c).workerPid).cameraRecordingJustStopped c)
        (((s.terminate (s.cam c).workerPid).cameraRecordingJustStopped c).modifyCam c
          fun p => { p with workerPid := 0 }) := by
      refine modifyCam _ rfl (.aside ⟨rfl, rfl, rfl, ?_, rfl, rfl, rfl, id⟩)
      rw [Agent.cameraRecordingJustStopped_cam]
      rfl
    split
    · exact (hstopped.trans hidle).trans (stopSpaceMonitor _)
    · exact hstopped.trans hidle
  · exact refl c s

/-- The reports after a camera's record was given a worker. -/
theorem justStarted {t : Agent} {pid : ℕ} (h : Evolves c s (t.modifyCam c fun p => p.withWorker pid)) :
    Evolves c s (t.workerStarted c pid) := by
  have hreported := ((h.trans (setCamsRecording _ (t.media.nCamsRecording + 1))).trans
    (sendCameraStatus _)).trans (sendRecordingStatusMsg _)
  unfold Agent.workerStarted
  dsimp only
  split
  · exact hreported.trans (stopSpaceMonitor _)
  · exact hreported

/-- A refused start has rebuilt the mode word. -/
theorem refused (s : Agent) (d : Slot) :
    Evolves c s ((s.setMode c (recordingMode (s.cam c))).setRetry d 0) :=
  (modifyRuntime s (.commanded _)).trans (setRetry _ d 0)

/-- A start which went through set the launch mode word and may have launched a worker. -/
theorem launchWorker (s : Agent) (cid : Slot)
    (hready : Has (recordingMode (s.cam c)) doRecordChmVideo → s.media.isChmReady = true) :
    Evolves c s ((s.setMode c (launchMode s.media.isRssdReady (s.cam c))).launchWorker c cid).2 := by
  set mode := launchMode s.media.isRssdReady (s.cam c) with hmode
  have hlimited : Evolves c s (s.setMode c mode) := modifyRuntime s (.limited _)
  have hcam : (s.setMode c mode).cam c = (s.cam c).withMode mode := s.setMode_cam c mode
  unfold Agent.launchWorker
  refine Evolves.trans ?_ (helpers _)
  split
  · rename_i hlaunch
    rcases hspawn : (s.setMode c mode).spawnProcess c
      (raconfPrepareForRecording (s.setMode c mode).media ((s.setMode c mode).cam c)) with ⟨_ | pid, t⟩
    · obtain ⟨hmedia, hrecorders⟩ := Agent.spawnProcess_none _ c hspawn
      have hframe := Frame.spawnProcess (c := c) (s.setMode c mode)
        (raconfPrepareForRecording (s.setMode c mode).media ((s.setMode c mode).cam c))
      have hsent := Agent.spawnProcess_sent (s.setMode c mode) c
        (raconfPrepareForRecording (s.setMode c mode).media ((s.setMode c mode).cam c))
      have hown (h : OwnPids (s.setMode c mode)) := h.spawnProcess c
        (raconfPrepareForRecording (s.setMode c mode).media ((s.setMode c mode).cam c))
      rw [hspawn] at hframe hsent hown
      refine (hlimited.trans (of_frame hframe ?_ hsent (by rw [hrecorders]) hown)).trans (setRetry _ _ _)
      rw [Agent.cam, hmedia, Agent.cam]
    · obtain ⟨hpid, hmedia, hspawned⟩ := Agent.spawnProcess_some _ c hspawn
      have hframe := Frame.spawnProcess (c := c) (s.setMode c mode)
        (raconfPrepareForRecording (s.setMode c mode).media ((s.setMode c mode).cam c))
      have hsent := Agent.spawnProcess_sent (s.setMode c mode) c
        (raconfPrepareForRecording (s.setMode c mode).media ((s.setMode c mode).cam c))
      have hown (h : OwnPids (s.setMode c mode)) := h.spawnProcess c
        (raconfPrepareForRecording (s.setMode c mode).media ((s.setMode c mode).cam c))
      rw [hspawn] at hframe hsent hown
      rw [hcam] at hlaunch
      have hassigned : (s.cam c).runtime.isAssigned = true := hlaunch.1
      have hidle : (s.cam c).workerPid = 0 := hlaunch.2
      obtain ⟨launched, hspawned', hslot, hword⟩ : ∃ launched : Spawn,
          t.recorders.spawned = s.recorders.spawned ++ [launched] ∧ launched.slot = c ∧
            launched.command.recordFlags = launchMode s.media.isRssdReady (s.cam c) := by
        refine ⟨_, hspawned, rfl, ?_⟩
        change ((s.setMode c mode).cam c).runtime.recordingModeFlags = _
        rw [hcam, hmode]
        rfl
      have hworker : Evolves c s ((t.setRetry cid 0).modifyCam c fun p => p.withWorker pid) := by
        have hframe' : Frame c s ((t.setRetry cid 0).modifyCam c fun p => p.withWorker pid) :=
          ((hlimited.frame.trans hframe).trans (.setRetry _ _ _)).trans (.modifyCam _ rfl)
        refine ⟨hframe', ?_, .of_eq hsent, .singleton ⟨hslot, s.cam c, .refl, hword⟩ hspawned', fun h => ?_⟩
        · have htcam : (t.setRetry cid 0).cam c = (s.cam c).withMode mode := by
            rw [← hcam]
            exact congrFun (congrArg MediaInfo.cameras hmedia) c
          rw [Agent.cam_modifyCam_self, htcam]
          refine .single (.launched _ hpid hidle hassigned hready ⟨launched, ?_, hslot, hword⟩)
          change launched ∈ t.recorders.spawned.drop s.recorders.spawned.length
          rw [hspawned', List.drop_left]
          exact List.mem_singleton_self _
        · have hstarted := hown ⟨h.nodup, h.le⟩
          exact ⟨hstarted.nodup, hstarted.le⟩
      exact justStarted hworker
  · exact hlimited

theorem startRecordingProcess (s : Agent) : Evolves c s (s.startRecordingProcess c).2 := by
  unfold Agent.startRecordingProcess
  dsimp only
  split
  · exact modifyRuntime s (f := fun r => { r with isAssigned := false })
      (.aside ⟨rfl, rfl, rfl, rfl, rfl, rfl, rfl, nofun⟩)
  · split
    · split
      · exact refused s _
      · rename_i hchm
        have hready : Has (recordingMode (s.cam c)) doRecordChmVideo → s.media.isChmReady = true := by
          intro h
          by_contra hno
          have hno' : s.media.isChmReady = false := by simpa using hno
          exact hchm ⟨h, hno'⟩
        have hlaunch := launchWorker (c := c) s (s.retryIndex c) hready
        split
        · rename_i hssd
          have hssd' : Has (recordingMode (s.cam c)) doRecordSsdVideo ∧ s.media.isRssdReady = false := hssd
          rw [launchMode, if_pos hssd'] at hlaunch
          rw [Agent.setMode_setMode]
          exact hlaunch
        · rename_i hssd
          have hssd' : ¬ (Has (recordingMode (s.cam c)) doRecordSsdVideo ∧ s.media.isRssdReady = false) := hssd
          rw [launchMode, if_neg hssd'] at hlaunch
          exact hlaunch
    · exact refused s _

/-- Clearing the status of a camera without a worker is what stopping it leaves. -/
theorem cleared (s : Agent) (hidle : (s.cam c).workerPid = 0) :
    Evolves c s (s.modifyRuntime c clearRecordingStatus) := by
  refine modifyRuntime s ?_
  have hstopped : { s.cam c with runtime := clearRecordingStatus (s.cam c).runtime } = (s.cam c).stopped := by
    rw [CamDef.stopped, CamDef.mk.injEq]
    exact ⟨rfl, rfl, rfl, rfl, rfl, rfl, rfl, rfl, hidle⟩
  rw [hstopped]
  exact .stopped _

theorem respects (c : Slot) : Respects c (Evolves c) where
  refl := refl c
  trans := trans
  checkWorkerStatus := checkWorkerStatus
  startRecordingProcess := startRecordingProcess
  stopRecordingProcess := stopRecordingProcess
  setCamonTtl s := setCamonTtl s c
  setRpTtl := setRpTtl
  cleared := cleared
  lost s := foundDead s rfl (.refl _)
  died s := foundDead s rfl ⟨rfl, rfl, rfl, rfl, rfl, rfl, rfl, id⟩

theorem reflectOffline (s : Agent) : Evolves c s (s.reflectOffline c) := (respects c).reflectOffline s

theorem reflectOnline (s : Agent) : Evolves c s (s.reflectOnline c) := (respects c).reflectOnline s

theorem setOnline (s : Agent) (isAlive : Bool) : Evolves c s (s.setOnline c isAlive) :=
  ((modifyRuntime s (f := fun r => { r with isOnline := isAlive })
    (.aside ⟨rfl, rfl, rfl, rfl, rfl, rfl, rfl, id⟩)).trans (sendCameraStatus _)).trans (setCamonTtl _ _ _)

theorem reflectCameraOnlineStatus (s : Agent) (isAlive : Bool) :
    Evolves c s (s.reflectCameraOnlineStatus c isAlive).2 :=
  (respects c).reflectCameraOnlineStatus setOnline s isAlive

theorem lookupAddress (s : Agent) (arp : Slot → Option CString) : Evolves c s (s.lookupAddress c arp) := by
  have hframe := Frame.lookupAddress (c := c) s arp
  unfold Agent.lookupAddress at hframe ⊢
  dsimp only at hframe ⊢
  split <;> rename_i hticks
  · rw [if_pos hticks] at hframe
    split <;> rename_i harp <;> rw [harp] at hframe
    · refine ⟨hframe, ?_, .refl _, .refl _, fun h => ⟨h.nodup, h.le⟩⟩
      rw [Agent.cam_modifyCam_self]
      exact .single (.aside ⟨rfl, rfl, rfl, rfl, rfl, rfl, rfl, id⟩)
    · exact of_frame hframe rfl rfl rfl fun h => ⟨h.nodup, h.le⟩
  · rw [if_neg hticks] at hframe
    exact of_frame hframe rfl rfl rfl fun h => ⟨h.nodup, h.le⟩

theorem setCamonAlive (s : Agent) (j : ℕ) (alive : Bool) : Evolves c s (s.setCamonAlive j alive) :=
  of_frame (.setCamonAlive s j alive) rfl rfl rfl fun h => ⟨h.nodup, h.le⟩

theorem reflectProbe (arp : Slot → Option CString) (s : Agent) : Evolves c s (s.reflectProbe arp c) :=
  (respects c).reflectProbe setOnline setCamonAlive (fun s => lookupAddress s arp) s

theorem restartCamera (s : Agent) : Evolves c s (s.restartCamera c) := (respects c).restartCamera s

end Evolves

/-- Every camera evolved, with the drives as they were. -/
structure AllEvolve (s s' : Agent) : Prop where
  nCameras : s'.media.nCameras = s.media.nCameras
  isChmReady : s'.media.isChmReady = s.media.isChmReady
  isRssdReady : s'.media.isRssdReady = s.media.isRssdReady
  cam : ∀ d, Changes d s s' (s.cam d) (s'.cam d)
  sent : GrewBy (fun m => m.isCameraStatus = true → ∃ d p, Changes d s s' (s.cam d) p ∧ m = cameraStatus d p)
    s.side.sent s'.side.sent
  spawned : GrewBy (fun sp => ∃ p, Changes sp.slot s s' (s.cam sp.slot) p ∧
    sp.command.recordFlags = launchMode s.media.isRssdReady p) s.recorders.spawned s'.recorders.spawned
  ownPids : OwnPids s → OwnPids s'

namespace AllEvolve

variable {c : Slot} {s t t' : Agent}

theorem refl (s : Agent) : AllEvolve s s :=
  ⟨rfl, rfl, rfl, fun _ => .refl, .refl _, .refl _, id⟩

/-- The evolution of one camera continues that of all. -/
theorem evolves (h : AllEvolve s t) (h' : Evolves c t t') : AllEvolve s t' := by
  have hspawned := h.spawned.dropped h'.spawned
  have hfirst : ∀ {d p}, Changes d s t (s.cam d) p → Changes d s t' (s.cam d) p := fun hp =>
    hp.mono_left hspawned.1
  have hboth : ∀ {p}, Changes c t t' (t.cam c) p → Changes c s t' (s.cam c) p := fun hp =>
    (hfirst (h.cam c)).trans (hp.mono_right hspawned.2 h.isChmReady h.isRssdReady)
  refine ⟨h'.frame.nCameras.trans h.nCameras, h'.frame.isChmReady.trans h.isChmReady,
    h'.frame.isRssdReady.trans h.isRssdReady, fun d => ?_, (h.sent.mono fun m hm hstatus => ?_).trans
    (h'.sent.mono fun m hm hstatus => ?_), (h.spawned.mono fun sp hsp => ?_).trans
    (h'.spawned.mono fun sp hsp => ?_), fun hpids => h'.ownPids (h.ownPids hpids)⟩
  · by_cases hd : d = c
    · subst hd
      exact hboth h'.cam
    · rw [h'.frame.cam d hd]
      exact hfirst (h.cam d)
  · obtain ⟨d, p, hp, rfl⟩ := hm hstatus
    exact ⟨d, p, hfirst hp, rfl⟩
  · obtain ⟨p, hp, rfl⟩ := hm hstatus
    exact ⟨c, p, hboth hp, rfl⟩
  · obtain ⟨p, hp, hflags⟩ := hsp
    exact ⟨p, hfirst hp, hflags⟩
  · obtain ⟨rfl, p, hp, hflags⟩ := hsp
    rw [h.isRssdReady] at hflags
    exact ⟨p, hboth hp, hflags⟩

/-- What holds of the cameras' records and is kept by adjustments holds of the records after, of
those reported on the way and of those launched on the way. -/
theorem invariant (h : AllEvolve s t) {J : Slot → CamDef → Prop} (hJ : ∀ d, J d (s.cam d))
    (hadjusted : ∀ d p p', Adjusted s.media.isChmReady s.media.isRssdReady (LaunchedSince d s t) p p' →
      J d p → J d p') :
    (∀ d, J d (t.cam d)) ∧
      GrewBy (fun m => m.isCameraStatus = true → ∃ d p, J d p ∧ m = cameraStatus d p)
        s.side.sent t.side.sent ∧
      GrewBy (fun sp => ∃ p, J sp.slot p ∧ sp.command.recordFlags = launchMode s.media.isRssdReady p)
        s.recorders.spawned t.recorders.spawned := by
  have hgen : ∀ d p, Changes d s t (s.cam d) p → J d p := by
    intro d p hp
    induction hp with
    | refl => exact hJ d
    | tail _ hstep ih => exact hadjusted d _ _ hstep ih
  refine ⟨fun d => hgen d _ (h.cam d), h.sent.mono fun m hm hstatus => ?_, h.spawned.mono fun sp hsp => ?_⟩
  · obtain ⟨d, p, hp, rfl⟩ := hm hstatus
    exact ⟨d, p, hgen d p hp, rfl⟩
  · obtain ⟨p, hp, hflags⟩ := hsp
    exact ⟨p, hgen sp.slot p hp, hflags⟩

end AllEvolve

end RecordingAgent.Reagent
