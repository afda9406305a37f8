import RecordingAgent.Reagent.Hysteresis
import RecordingAgent.Reagent.StreamReset

/-!
# Which failures count against a camera

`start_recording_process` gives a camera up, and marks it as not assigned, when its failure
counter has reached three. The counters are kept by slot: a start counts at the first
configured camera with the same name, ignoring case. A failed spawn counts one up, a successful
one and a refused start count from zero again, and a re-read of the configuration keeps the
counters whoever is configured in their slots afterwards.

`Calling s calls s'` says that the agent went from `s` to `s'` with these calls of
`start_recording_process`, each with the state it was made in, and changed no counter otherwise.
Every handler is such a walk along its calls. As long as re-reads leave the counters which are
not zero to their cameras, and names which agree up to case are the same, a counter never exceeds
the failed spawns its camera has just had in a row.
-/

namespace RecordingAgent.Reagent

open Foundation

namespace Agent

instance (s : Agent) (c : Slot) : Decidable (s.Admitted c) := by unfold Admitted; infer_instance

/-- Whether the spawn succeeds which a start attempts, or `none` when it attempts none. -/
def spawnAttempt (s : Agent) (c : Slot) : Option Bool :=
  if s.Admitted c ∧ (s.cam c).runtime.isAssigned = true ∧ (s.cam c).workerPid = 0 then
    some s.side.os.fork.1.isSome
  else none

/-- A start takes the camera's assignment away. -/
def ClearsAssigned (s : Agent) (c : Slot) : Prop :=
  (s.cam c).runtime.isAssigned = true ∧ ((s.startRecordingProcess c).2.cam c).runtime.isAssigned = false

/-- The start `reflect_camera_online_status` makes when a camera is about to come online. -/
def onlineCall (s : Agent) (c : Slot) : Option Agent :=
  if (s.cam c).runtime.isAssigned ∧ (s.cam c).runtime.recordingModeFlags ≠ 0 then
    let pid := (s.cam c).workerPid
    if pid > 0 then
      match s.checkWorkerStatus pid with
      | (true, s) => some s
      | (false, _) => none
    else
      let ttl := s.statics.camonTtl c - 1
      if ttl ≥ 0 then none else some (s.setCamonTtl c ttl)
  else none

/-- The start of an online check. -/
def checkCall (s : Agent) (c : Slot) (isAlive : Bool) : Option Agent :=
  let s := if isAlive then s.setCamonTtl c camonTtlStart else s
  if (s.cam c).runtime.isOnline = isAlive then none
  else if isAlive then s.onlineCall c
  else none

/-- The start of the matching pass's turn for a camera. -/
def probeCall (s : Agent) (c : Slot) : Option Agent :=
  if (s.cam c).runtime.isAssigned then s.checkCall c (s.aliveAnswer c) else none

/-- The start of the restart half's turn for a camera. -/
def restartCall (s : Agent) (c : Slot) : Option Agent :=
  if (s.cam c).runtime.recordingModeFlags ≠ 0 then
    if (s.cam c).workerPid ≠ 0 then none
    else if (s.cam c).runtime.isOnline ∧ (s.cam c).runtime.isAssigned then
      if s.statics.rpTtl c > 2 * camonTtlStart then some (s.setRpTtl c 0) else none
    else none
  else none

/-- The start of a record/pause command. -/
def commandCalls (s : Agent) (camera : CString) (record : ℕ) : List (Agent × Slot) :=
  match raconfFindCamera s.media (camera.take cameraNameLength) with
  | some c => if s.StartCommanded c record then [(s.modifyRuntime c resumed, c)] else []
  | none => []

/-- The starts of a stream reset. -/
def resetCalls (s : Agent) (camera : CString) : List (Agent × Slot) :=
  let paused := s.handleCameraRecordPause (camera.take cameraNameLength) 0
  s.commandCalls (camera.take cameraNameLength) 0 ++
    if paused.1 = .failure then [] else paused.2.commandCalls (camera.take cameraNameLength) 1

/-- The starts of a parameter change. -/
def changeCalls (s : Agent) (camera : CString) (set : CamRuntime → CamRuntime) : List (Agent × Slot) :=
  match raconfFindCamera s.media (camera.take cameraNameLength) with
  | some c => (s.modifyRuntime c set).resetCalls (camera.take cameraNameLength)
  | none => []

/-- The starts of a loop over cameras, given the start of its body. -/
def loopCalls (body : Agent → Slot → Agent) (call : Agent → Slot → Option Agent) :
    Agent → List Slot → List (Agent × Slot)
  | _, [] => []
  | s, c :: cs => ((call s c).map (·, c)).toList ++ loopCalls body call (body s c) cs

/-- The starts of a timer pass. -/
def timerCalls (s : Agent) (answers : List CamonStatus) (arp : Slot → Option CString) : List (Agent × Slot) :=
  (if s.statics.passFlag = false then
      loopCalls (reflectProbe arp) probeCall { s with statics := { s.statics with passFlag := true } }
        s.media.configured
    else []) ++
    loopCalls restartCamera restartCall (s.camonPass answers arp) (s.camonPass answers arp).media.configured

/-- The calls of `start_recording_process` while an event is handled. -/
def handleCalls (s : Agent) : Event → List (Agent × Slot)
  | .cameraResolution camera v => s.changeCalls camera fun r => { r with resolution := v }
  | .cameraCompression camera v => s.changeCalls camera fun r => { r with compression := v }
  | .cameraFrameRate camera v => s.changeCalls camera fun r => { r with frameRate := v }
  | .cameraRecordPause camera record => s.commandCalls camera record
  | .timer answers arp => s.timerCalls answers arp
  | _ => []

/-- The calls of `start_recording_process` in a step. -/
def stepCalls (s : Agent) (i : Input) : List (Agent × Slot) :=
  if s.statics.ptcActive then (s.withAnswers i.forks i.deaths).handleCalls i.event else []

/-- The calls of `start_recording_process` in a run, in order. -/
def runCalls (s : Agent) : List Input → List (Agent × Slot)
  | [] => []
  | i :: is => s.stepCalls i ++ runCalls (s.step i) is

end Agent

/-- The counters, and the names by which they are found, are the same. -/
structure SameCounters (s s' : Agent) : Prop where
  retryCount : s'.statics.retryCount = s.statics.retryCount
  nCameras : s'.media.nCameras = s.media.nCameras
  name : ∀ d, (s'.cam d).name = (s.cam d).name

namespace SameCounters

variable {s s' s'' : Agent} {c : Slot}

theorem trans (h : SameCounters s s') (h' : SameCounters s' s'') : SameCounters s s'' where
  retryCount := h'.retryCount.trans h.retryCount
  nCameras := h'.nCameras.trans h.nCameras
  name d := (h'.name d).trans (h.name d)

theorem of_frame (h : Frame c s s') (hretry : s'.statics.retryCount = s.statics.retryCount) : SameCounters s s' :=
  ⟨hretry, h.nCameras, h.names⟩

theorem refl (s : Agent) : SameCounters s s := ⟨rfl, rfl, fun _ => rfl⟩

theorem modifyRuntime (s : Agent) (f : CamRuntime → CamRuntime) : SameCounters s (s.modifyRuntime c f) :=
  of_frame (.modifyRuntime s f) rfl

theorem checkWorkerStatus (s : Agent) (pid : ℕ) : SameCounters s (s.checkWorkerStatus pid).2 :=
  of_frame (c := 0) (.checkWorkerStatus s pid) (congrArg Statics.retryCount (s.checkWorkerStatus_frame pid).2.1)

theorem stopRecordingProcess (s : Agent) : SameCounters s (s.stopRecordingProcess c).2 :=
  of_frame (.stopRecordingProcess s) (congrArg Statics.retryCount (s.stopRecordingProcess_statics c))

theorem cameraRecordingJustStopped (s : Agent) : SameCounters s (s.cameraRecordingJustStopped c) :=
  of_frame (.cameraRecordingJustStopped s) rfl

theorem reflectOffline (s : Agent) : SameCounters s (s.reflectOffline c) :=
  of_frame (.reflectOffline s) (congrArg Statics.retryCount (s.reflectOffline_statics c))

theorem mapCameras (s : Agent) {f : CamDef → CamDef} (hf : ∀ p, (f p).name = p.name) :
    SameCounters s (s.mapCameras f) := by
  refine ⟨rfl, rfl, fun d => ?_⟩
  change (if d.val < s.media.nCameras then f (s.cam d) else s.cam d).name = _
  split
  · exact hf _
  · rfl

theorem restoreCamera (s : Agent) (old : Slot → CamDef) (i : Slot) : SameCounters s (s.restoreCamera old i) := by
  refine of_frame (Agent.restoreCamera_frame old s i) ?_
  refine Agent.restoreCamera_preserves (Q := fun t => t.statics.retryCount = s.statics.retryCount) ?_ ?_ ?_ ?_ old rfl
  · intro t worker ht
    exact ht
  · intro t set ht
    exact ht
  · intro t ht
    exact (stopRecordingProcess t).retryCount.trans ht
  · intro t ht
    exact ht

end SameCounters

/-- The agent went from one state to the other with these calls of `start_recording_process` for configured
cameras, and changed no counter otherwise. -/
inductive Calling : Agent → List (Agent × Slot) → Agent → Prop
  | quiet {s s' : Agent} (h : SameCounters s s') : Calling s [] s'
  | call {s t s' : Agent} {c : Slot} {calls : List (Agent × Slot)} (h : SameCounters s t)
      (hc : c.val < t.media.nCameras) (hrest : Calling (t.startRecordingProcess c).2 calls s') :
      Calling s ((t, c) :: calls) s'

namespace Calling

open Agent

variable {s s' s'' : Agent} {c : Slot} {calls calls' : List (Agent × Slot)}

theorem before (h : SameCounters s s') (h' : Calling s' calls s'') : Calling s calls s'' := by
  cases h' with
  | quiet hquiet => exact .quiet (h.trans hquiet)
  | call hcall hc hrest => exact .call (h.trans hcall) hc hrest

theorem append (h : Calling s calls s') (h' : Calling s' calls' s'') : Calling s (calls ++ calls') s'' := by
  induction h with
  | quiet hquiet => exact before hquiet h'
  | call hcall hc _ ih => exact .call hcall hc (ih h')

theorem after (h : Calling s calls s') (h' : SameCounters s' s'') : Calling s calls s'' := by
  have happend := h.append (.quiet h')
  rwa [List.append_nil] at happend

/-- A single call. -/
theorem single {t : Agent} (h : SameCounters s t) (hc : c.val < t.media.nCameras)
    (h' : SameCounters (t.startRecordingProcess c).2 s') : Calling s [(t, c)] s' :=
  .call h hc (.quiet h')

theorem reflectOnline (hc : c.val < s.media.nCameras) :
    Calling s ((s.onlineCall c).map (·, c)).toList (s.reflectOnline c) := by
  have httl : ∀ (t : Agent) n, SameCounters t (t.setCamonTtl c n) := fun t n =>
    .of_frame (c := c) (.setCamonTtl t c n) rfl
  unfold Agent.reflectOnline onlineCall
  split
  · dsimp only
    split
    · have hcheck := SameCounters.checkWorkerStatus s (s.cam c).workerPid
      generalize s.checkWorkerStatus (s.cam c).workerPid = r at hcheck ⊢
      rcases r with ⟨_ | _, t⟩
      · exact .quiet (hcheck.trans (httl _ _))
      · exact single hcheck (by rw [hcheck.nCameras]; exact hc) (.refl _)
    · split
      · exact .quiet (httl _ _)
      · exact single (httl _ _) hc (.refl _)
  · exact .quiet (.refl s)

theorem reflectCameraOnlineStatus (hc : c.val < s.media.nCameras) (isAlive : Bool) :
    Calling s ((s.checkCall c isAlive).map (·, c)).toList (s.reflectCameraOnlineStatus c isAlive).2 := by
  have httl : ∀ (t : Agent) n, SameCounters t (t.setCamonTtl c n) := fun t n =>
    .of_frame (c := c) (.setCamonTtl t c n) rfl
  have honline : ∀ t : Agent, SameCounters t (t.setOnline c isAlive) := fun t =>
    .of_frame (c := c) (.setOnline t isAlive) rfl
  unfold Agent.reflectCameraOnlineStatus checkCall
  cases isAlive with
  | true =>
    simp only [if_true, Bool.true_eq_false, false_and, if_false]
    split
    · exact .quiet (httl _ _)
    · have hcall := (reflectOnline (s := s.setCamonTtl c camonTtlStart) (c := c) hc).before (httl s camonTtlStart)
      split
      · exact hcall
      · exact hcall.after (honline _)
  | false =>
    simp only [Bool.false_eq_true, if_false, true_and]
    split
    · exact .quiet (.refl s)
    · split
      · exact .quiet (httl _ _)
      · split
        · exact .quiet (.reflectOffline s)
        · exact .quiet ((SameCounters.reflectOffline s).trans (honline _))

theorem reflectProbe (hc : c.val < s.media.nCameras) (arp : Slot → Option CString) :
    Calling s ((s.probeCall c).map (·, c)).toList (s.reflectProbe arp c) := by
  by_cases hassigned : (s.cam c).runtime.isAssigned = true
  · have hcheck := reflectCameraOnlineStatus hc (s.aliveAnswer c)
    unfold probeCall
    rw [if_pos hassigned]
    rcases s.reflectProbe_cases arp hassigned with ⟨j, -, heq⟩ | ⟨-, heq | heq⟩
    · rw [heq]
      exact hcheck.after (.of_frame (c := c) (.setCamonAlive _ _ _) rfl)
    · rw [heq]
      exact hcheck
    · rw [heq]
      refine hcheck.after (.of_frame (.lookupAddress _ arp) ?_)
      unfold lookupAddress
      dsimp only
      split
      · split <;> rfl
      · rfl
  · unfold probeCall Agent.reflectProbe
    rw [if_neg hassigned, if_neg hassigned]
    exact .quiet (.refl s)

theorem restartCamera (hc : c.val < s.media.nCameras) :
    Calling s ((s.restartCall c).map (·, c)).toList (s.restartCamera c) := by
  have httl : ∀ (t : Agent) n, SameCounters t (t.setRpTtl c n) := fun t n => .of_frame (.setRpTtl t n) rfl
  unfold Agent.restartCamera restartCall
  dsimp only
  split
  · split
    · have hcheck := SameCounters.checkWorkerStatus (s.setRpTtl c 0) (s.cam c).workerPid
      generalize (s.setRpTtl c 0).checkWorkerStatus (s.cam c).workerPid = r at hcheck ⊢
      rcases r with ⟨_ | _, t⟩
      · exact .quiet ((httl s 0).trans hcheck)
      · refine .quiet ((((httl s 0).trans hcheck).trans (.of_frame (c := c) (.modifyCam t ?_) rfl)).trans
          (.cameraRecordingJustStopped _))
        rfl
    · split
      · split
        · exact single (httl s 0) hc (.refl _)
        · exact .quiet (httl _ _)
      · exact .quiet (.refl s)
  · exact .quiet (.refl s)

/-- A loop whose body makes a call walks along the calls of the loop. -/
theorem loop {body : Agent → Slot → Agent} {call : Agent → Slot → Option Agent}
    (hbody : ∀ (t : Agent) (d : Slot), d.val < t.media.nCameras →
      Calling t ((call t d).map (·, d)).toList (body t d))
    (hn : ∀ (t : Agent) (d : Slot), (body t d).media.nCameras = t.media.nCameras) (cs : List Slot)
    (hcs : ∀ d ∈ cs, d.val < s.media.nCameras) : Calling s (loopCalls body call s cs) (cs.foldl body s) := by
  induction cs generalizing s with
  | nil => exact .quiet (.refl s)
  | cons d cs ih =>
    refine (hbody s d (hcs d List.mem_cons_self)).append (ih fun e he => ?_)
    rw [hn]
    exact hcs e (List.mem_cons_of_mem _ he)

theorem camonPass (s : Agent) (answers : List CamonStatus) (arp : Slot → Option CString) :
    Calling s
      (if s.statics.passFlag = false then
        loopCalls (Agent.reflectProbe arp) probeCall { s with statics := { s.statics with passFlag := true } }
          s.media.configured
      else []) (s.camonPass answers arp) := by
  unfold Agent.camonPass
  split
  · have hflag : SameCounters s { s with statics := { s.statics with passFlag := true } } :=
      ⟨rfl, rfl, fun _ => rfl⟩
    have hloop := (loop (fun t d hd => reflectProbe hd arp) (fun t d => (Frame.reflectProbe arp t).nCameras)
      s.media.configured (by simp)).before hflag
    exact hloop.after ⟨rfl, rfl, fun _ => rfl⟩
  · exact .quiet ⟨rfl, rfl, fun _ => rfl⟩

theorem timerCallback (s : Agent) (answers : List CamonStatus) (arp : Slot → Option CString) :
    Calling s (s.timerCalls answers arp) (s.timerCallback answers arp) := by
  have hloop : Calling (s.camonPass answers arp) _ _ := loop (fun t d hd => restartCamera hd)
    (fun t d => (Frame.restartCamera t).nCameras) (s.camonPass answers arp).media.configured (by simp)
  exact (camonPass s answers arp).append (hloop.after ⟨rfl, rfl, fun _ => rfl⟩)

theorem handleCameraRecordPause (s : Agent) (camera : CString) (record : ℕ) :
    Calling s (s.commandCalls camera record) (s.handleCameraRecordPause camera record).2 := by
  unfold commandCalls
  cases hfind : raconfFindCamera s.media (camera.take cameraNameLength) with
  | none =>
    have hidle : Idle s (s.handleCameraRecordPause camera record).2 := by
      rcases s.handleCameraRecordPause_cases camera record with hidle | ⟨c, hc, -⟩
      · exact hidle
      · rw [hfind] at hc
        cases hc
    exact .quiet (.of_frame (hidle.frame 0) (by rw [hidle.statics]))
  | some c =>
    dsimp only
    by_cases hstart : s.StartCommanded c record
    · rw [if_pos hstart, handleCameraRecordPause_of_start hfind hstart]
      exact single (.modifyRuntime s resumed) (raconfFindCamera_some hfind).1 (.refl _)
    · rw [if_neg hstart]
      rcases s.handleCameraRecordPause_cases camera record with hidle | ⟨d, hd, ⟨-, heq⟩ | ⟨hstart', -⟩⟩
      · exact .quiet (.of_frame (hidle.frame 0) (by rw [hidle.statics]))
      · rw [heq]
        exact .quiet ((SameCounters.modifyRuntime s paused).trans (.stopRecordingProcess _))
      · obtain rfl := Option.some.inj (hfind.symm.trans hd)
        exact absurd hstart' hstart

theorem resetCameraStream (s : Agent) (camera : CString) :
    Calling s (s.resetCalls camera) (s.resetCameraStream camera).2 := by
  have hpause := handleCameraRecordPause s (camera.take cameraNameLength) 0
  have hresume := handleCameraRecordPause (s.handleCameraRecordPause (camera.take cameraNameLength) 0).2
    (camera.take cameraNameLength) 1
  unfold resetCalls Agent.resetCameraStream
  dsimp only
  split
  · exact hpause.append (.quiet (.refl _))
  · split
    · exact hpause.append hresume
    · exact hpause.append hresume

theorem changeParameter (s : Agent) (camera : CString) (set : CamRuntime → CamRuntime)
    (error : VideoApplicationError) : Calling s (s.changeCalls camera set) (s.changeParameter camera set error) := by
  unfold changeCalls Agent.changeParameter
  cases raconfFindCamera s.media (camera.take cameraNameLength) with
  | none => exact .quiet (.refl s)
  | some c =>
    have hreset := (resetCameraStream (s.modifyRuntime c set) (camera.take cameraNameLength)).before
      (.modifyRuntime s set)
    dsimp only
    split
    · exact hreset.after ⟨rfl, rfl, fun _ => rfl⟩
    · exact hreset

/-- Every event but a re-read is handled along its calls. -/
theorem handle (s : Agent) {e : Event} (hsighup : ∀ config opens, e ≠ .sighup config opens) :
    Calling s (s.handleCalls e) (s.handle e) := by
  cases e with
  | cameraSettings d =>
    refine .quiet ?_
    change SameCounters s (s.msgcbCameraSettings d)
    unfold msgcbCameraSettings
    split
    · exact .modifyRuntime s _
    · exact ⟨rfl, rfl, fun _ => rfl⟩
  | cameraResolution camera v => exact changeParameter s camera _ _
  | cameraCompression camera v => exact changeParameter s camera _ _
  | cameraFrameRate camera v => exact changeParameter s camera _ _
  | cameraRecordPause camera record => exact handleCameraRecordPause s camera record
  | readyStatus chm rssd =>
    exact .quiet ⟨rfl, rfl, (SameCounters.mapCameras (s.setReady (chm ≠ 0) (rssd ≠ 0)) (f := readyCamera _ _)
      fun _ => rfl).name⟩
  | shutdown f =>
    cases f with
    | other => exact .quiet (.refl s)
    | _ => exact .quiet ⟨rfl, rfl, (SameCounters.mapCameras _ (f := shutdownCamera _ _) fun _ => rfl).name⟩
  | locomotiveId l => exact .quiet ⟨rfl, rfl, fun _ => rfl⟩
  | otherMessage => exact .quiet (.refl s)
  | timer answers arp => exact timerCallback s answers arp
  | workerDeath pid => exact .quiet ⟨rfl, rfl, fun _ => rfl⟩
  | sighup config opens => exact absurd rfl (hsighup config opens)

end Calling

namespace Agent

section Start

variable (s : Agent) (c : Slot)

/-- A launch counts its spawn at the given counter and keeps the camera's assignment. -/
theorem launchWorker_counts (cid : Slot) :
    (s.launchWorker c cid).2.statics.retryCount =
        (if (s.cam c).runtime.isAssigned = true ∧ (s.cam c).workerPid = 0 then
          Function.update s.statics.retryCount cid
            (if s.side.os.fork.1.isSome then 0 else s.statics.retryCount cid + 1)
        else s.statics.retryCount) ∧
      ((s.launchWorker c cid).2.cam c).runtime.isAssigned = (s.cam c).runtime.isAssigned := by
  unfold launchWorker
  by_cases hlaunch : (s.cam c).runtime.isAssigned = true ∧ (s.cam c).workerPid = 0
  · simp only [if_pos hlaunch]
    unfold spawnProcess
    rcases s.side.os.fork with ⟨_ | pid, os⟩
    · exact ⟨rfl, rfl⟩
    · have hstatics : ∀ t : Agent, (t.workerStarted c pid).statics.retryCount = t.statics.retryCount := by
        intro t
        unfold workerStarted
        dsimp only
        split <;> rfl
      have hassigned : ∀ t : Agent, ((t.workerStarted c pid).cam c).runtime.isAssigned =
          (t.cam c).runtime.isAssigned := by
        intro t
        rw [workerStarted_cam]
        rfl
      exact ⟨hstatics _, hassigned _⟩
  · simp only [if_neg hlaunch]
    exact ⟨rfl, rfl⟩

/-- A start at the retry limit gives the camera up. -/
theorem startRecordingProcess_of_limit (h : s.statics.retryCount (s.retryIndex c) > 2) :
    s.startRecordingProcess c = (.failure, s.modifyRuntime c fun r => { r with isAssigned := false }) := by
  unfold startRecordingProcess
  dsimp only
  rw [if_pos h]

/-- The counters have counted a camera's spawn attempt, if there is one; else they may count from zero again. -/
def CountsAttempt (retryCount : Slot → ℕ) : Prop :=
  match s.spawnAttempt c with
  | some succeeded => retryCount = Function.update s.statics.retryCount (s.retryIndex c)
      (if succeeded then 0 else s.statics.retryCount (s.retryIndex c) + 1)
  | none => retryCount = s.statics.retryCount ∨
      retryCount = Function.update s.statics.retryCount (s.retryIndex c) 0

/-- A launch counts the attempt of the start it is part of, whatever mode word was set before it. -/
theorem launchWorker_countsAttempt (hadmitted : s.Admitted c) {t : Agent} (hstatics : t.statics = s.statics)
    (hside : t.side = s.side) (hassigned : (t.cam c).runtime.isAssigned = (s.cam c).runtime.isAssigned)
    (hpid : (t.cam c).workerPid = (s.cam c).workerPid) :
    ((t.launchWorker c (s.retryIndex c)).2.cam c).runtime.isAssigned = (s.cam c).runtime.isAssigned ∧
      s.CountsAttempt c (t.launchWorker c (s.retryIndex c)).2.statics.retryCount := by
  obtain ⟨hcount, hkept⟩ := t.launchWorker_counts c (s.retryIndex c)
  rw [hassigned, hpid, hstatics, hside] at hcount
  refine ⟨hkept.trans hassigned, ?_⟩
  unfold CountsAttempt spawnAttempt
  by_cases hattempt : (s.cam c).runtime.isAssigned = true ∧ (s.cam c).workerPid = 0
  · rw [if_pos ⟨hadmitted, hattempt⟩]
    rw [if_pos hattempt] at hcount
    exact hcount
  · rw [if_neg fun h => hattempt h.2]
    rw [if_neg hattempt] at hcount
    exact Or.inl hcount

/-- Below the limit a start counts its spawn attempt and keeps the camera's assignment. -/
theorem startRecordingProcess_counts (h : ¬ s.statics.retryCount (s.retryIndex c) > 2) :
    ((s.startRecordingProcess c).2.cam c).runtime.isAssigned = (s.cam c).runtime.isAssigned ∧
      s.CountsAttempt c (s.startRecordingProcess c).2.statics.retryCount := by
  have hvideo : Has (recordingMode (s.cam c)) (doRecordChmVideo ||| doRecordSsdVideo) :=
    (has_mask_or _ _ _).mpr (.inr (recordingMode_ssdVideo _))
  have hmode : ∀ (t : Agent) mode, ((t.setMode c mode).cam c).runtime.isAssigned = (t.cam c).runtime.isAssigned := by
    intro t mode
    rw [setMode_cam]
  have hpid : ∀ mode, ((s.setMode c mode).cam c).workerPid = (s.cam c).workerPid := by
    intro mode
    rw [setMode_cam]
  unfold startRecordingProcess
  dsimp only
  rw [if_neg h, if_pos hvideo]
  by_cases hchm : Has (recordingMode (s.cam c)) doRecordChmVideo ∧ s.media.isChmReady = false
  · have hchm' : Has (recordingMode (s.cam c)) doRecordChmVideo ∧
        (s.setMode c (recordingMode (s.cam c))).media.isChmReady = false := hchm
    have hrefused : ¬ s.Admitted c := fun hadmitted => by
      have hready := hadmitted.2 hchm.1
      rw [hchm.2] at hready
      cases hready
    have hnone : s.spawnAttempt c = none := if_neg fun hattempt => hrefused hattempt.1
    rw [if_pos hchm', CountsAttempt, hnone]
    exact ⟨hmode _ _, Or.inr rfl⟩
  · have hchm' : ¬ (Has (recordingMode (s.cam c)) doRecordChmVideo ∧
        (s.setMode c (recordingMode (s.cam c))).media.isChmReady = false) := hchm
    have hadmitted : s.Admitted c :=
      ⟨not_lt.mp h, fun hhas => Bool.of_not_eq_false fun hnot => hchm ⟨hhas, hnot⟩⟩
    rw [if_neg hchm']
    split
    · refine launchWorker_countsAttempt _ _ hadmitted rfl rfl ((hmode _ _).trans (hmode _ _)) ?_
      rw [setMode_setMode]
      exact hpid _
    · exact launchWorker_countsAttempt _ _ hadmitted rfl rfl (hmode _ _) (hpid _)

/-- A start takes an assignment away exactly at the retry limit. -/
theorem clearsAssigned_iff :
    s.ClearsAssigned c ↔ (s.cam c).runtime.isAssigned = true ∧ s.statics.retryCount (s.retryIndex c) > 2 := by
  refine and_congr_right fun hassigned => ?_
  by_cases h : s.statics.retryCount (s.retryIndex c) > 2
  · rw [s.startRecordingProcess_of_limit c h]
    simp [h]
  · rw [(s.startRecordingProcess_counts c h).1, hassigned]
    simp [h]

end Start

/-- Configured cameras whose names agree up to case have the same name. -/
def NamesApart (s : Agent) : Prop :=
  ∀ c d : Slot, c.val < s.media.nCameras → d.val < s.media.nCameras →
    strncasecmpEq (s.cam c).name (s.cam d).name cameraNameLength = true → (s.cam c).name = (s.cam d).name

instance (s : Agent) : Decidable s.NamesApart := by unfold NamesApart; infer_instance

/-- A counter is found by the names of the configured cameras. -/
theorem retryIndex_congr {s s' : Agent} {c d : Slot} (hn : s'.media.nCameras = s.media.nCameras)
    (hnames : ∀ e, (s'.cam e).name = (s.cam e).name) (hcd : (s.cam c).name = (s.cam d).name) :
    s'.retryIndex c = s.retryIndex d := by
  have hconfigured : s'.media.configured = s.media.configured := by
    rw [MediaInfo.configured, MediaInfo.configured, hn]
  unfold retryIndex
  rw [hconfigured, hnames, hcd]
  simp only [hnames]

/-- When names differ by more than case, a camera counts at a camera of its name. -/
theorem NamesApart.name_retryIndex {s : Agent} (h : s.NamesApart) {c : Slot} (hc : c.val < s.media.nCameras) :
    (s.cam (s.retryIndex c)).name = (s.cam c).name := by
  obtain ⟨j, hj⟩ : ∃ j, (s.media.configured.find? fun i =>
      strncasecmpEq (s.cam c).name (s.cam i).name cameraNameLength) = some j := by
    rw [← Option.isSome_iff_exists, List.find?_isSome]
    exact ⟨c, by simpa using hc, strncasecmpEq_refl _ _⟩
  have hindex : s.retryIndex c = j := by
    rw [retryIndex, hj, Option.getD_some]
  have hj' : j.val < s.media.nCameras := by simpa using List.mem_of_find?_eq_some hj
  rw [hindex]
  exact (h c j hc hj' (List.find?_some (p := fun i => strncasecmpEq _ (s.cam i).name _) hj)).symm

/-- The spawn attempts of the calls: for which camera, and whether the spawn succeeded. -/
def attempts (calls : List (Agent × Slot)) : List (CString × Bool) :=
  calls.filterMap fun call => (call.1.spawnAttempt call.2).map ((call.1.cam call.2).name, ·)

/-- How the spawn attempts for a camera ended, oldest first. -/
def outcomes (name : CString) (calls : List (Agent × Slot)) : List Bool :=
  ((attempts calls).filter fun attempt => attempt.1 = name).map Prod.snd

theorem outcomes_append (name : CString) (calls : List (Agent × Slot)) (t : Agent) (c : Slot) :
    outcomes name (calls ++ [(t, c)]) = outcomes name calls ++
      if (t.cam c).name = name then (t.spawnAttempt c).toList else [] := by
  unfold outcomes attempts
  rw [List.filterMap_append, List.filter_append, List.map_append]
  congr 1
  cases hattempt : t.spawnAttempt c with
  | none => simp [hattempt]
  | some succeeded => by_cases hname : (t.cam c).name = name <;> simp [hattempt, hname]

/-- No counter exceeds the failed attempts its camera has just had in a row. -/
structure Earned (s : Agent) (calls : List (Agent × Slot)) : Prop where
  namesApart : s.NamesApart
  counters : ∀ c : Slot, c.val < s.media.nCameras →
    List.replicate (s.statics.retryCount (s.retryIndex c)) false <:+ outcomes (s.cam c).name calls

theorem Earned.of_same {s s' : Agent} {calls : List (Agent × Slot)} (h : Earned s calls) (hsame : SameCounters s s') :
    Earned s' calls where
  namesApart c d hc hd := by
    rw [hsame.nCameras] at hc hd
    rw [hsame.name, hsame.name]
    exact h.namesApart c d hc hd
  counters c hc := by
    rw [hsame.nCameras] at hc
    rw [hsame.retryCount, retryIndex_congr hsame.nCameras hsame.name rfl, hsame.name]
    exact h.counters c hc

/-- A start which takes an assignment away follows three failed attempts, and every start keeps the counters
earned. -/
theorem Earned.call {t : Agent} {calls : List (Agent × Slot)} (h : Earned t calls) {c : Slot}
    (hc : c.val < t.media.nCameras) :
    (t.ClearsAssigned c → List.replicate 3 false <:+ outcomes (t.cam c).name calls) ∧
      Earned (t.startRecordingProcess c).2 (calls ++ [(t, c)]) := by
  have hframe : Frame c t (t.startRecordingProcess c).2 := .startRecordingProcess t
  have hindex : ∀ d : Slot, d.val < t.media.nCameras → (t.cam d).name ≠ (t.cam c).name →
      t.retryIndex d ≠ t.retryIndex c := by
    intro d hd hname heq
    rw [← h.namesApart.name_retryIndex hd, ← h.namesApart.name_retryIndex hc, heq] at hname
    exact hname rfl
  refine ⟨fun hclears => ?_, fun d e hd he => ?_, fun d hd => ?_⟩
  · have hlimit := ((t.clearsAssigned_iff c).mp hclears).2
    refine List.IsSuffix.trans ?_ (h.counters c hc)
    exact List.suffix_replicate_iff.mpr ⟨by rw [List.length_replicate]; omega, by rw [List.length_replicate]⟩
  · rw [hframe.nCameras] at hd he
    rw [hframe.names, hframe.names]
    exact h.namesApart d e hd he
  · rw [hframe.nCameras] at hd
    rw [retryIndex_congr hframe.nCameras hframe.names rfl, hframe.names, outcomes_append]
    have hcounter := h.counters d hd
    by_cases hlimit : t.statics.retryCount (t.retryIndex c) > 2
    · have hnone : t.spawnAttempt c = none := if_neg fun hattempt => absurd hattempt.1.1 (by omega)
      rw [t.startRecordingProcess_of_limit c hlimit, hnone, Option.toList_none, ite_self, List.append_nil]
      exact hcounter
    · have hcounts := (t.startRecordingProcess_counts c hlimit).2
      unfold CountsAttempt at hcounts
      cases hattempt : t.spawnAttempt c with
      | none =>
        rw [hattempt] at hcounts
        rw [Option.toList_none, ite_self, List.append_nil]
        rcases hcounts with hsame | hreset
        · rw [hsame]
          exact hcounter
        · rw [hreset]
          by_cases hd' : t.retryIndex d = t.retryIndex c
          · rw [hd', Function.update_self]
            exact List.nil_suffix
          · rw [Function.update_of_ne hd']
            exact hcounter
      | some succeeded =>
        rw [hattempt] at hcounts
        dsimp only at hcounts
        rw [hcounts]
        by_cases hname : (t.cam d).name = (t.cam c).name
        · have hd' : t.retryIndex d = t.retryIndex c := retryIndex_congr rfl (fun _ => rfl) hname
          rw [hd'] at hcounter
          rw [hd', Function.update_self, if_pos hname.symm, Option.toList_some]
          cases succeeded with
          | true => exact List.nil_suffix
          | false =>
            obtain ⟨earlier, hearlier⟩ := hcounter
            refine ⟨earlier, ?_⟩
            rw [if_neg Bool.false_ne_true, List.replicate_succ', ← List.append_assoc, hearlier]
        · rw [Function.update_of_ne (hindex d hd hname), if_neg fun h => hname h.symm, List.append_nil]
          exact hcounter

/-- Every call which takes an assignment away follows three failed attempts in a row for its camera. -/
def GivesUpJustly : List (Agent × Slot) → List (Agent × Slot) → Prop
  | _, [] => True
  | earlier, (t, c) :: calls =>
    (t.ClearsAssigned c → List.replicate 3 false <:+ outcomes (t.cam c).name earlier) ∧
      GivesUpJustly (earlier ++ [(t, c)]) calls

theorem GivesUpJustly.append {earlier calls calls' : List (Agent × Slot)} (h : GivesUpJustly earlier calls)
    (h' : GivesUpJustly (earlier ++ calls) calls') : GivesUpJustly earlier (calls ++ calls') := by
  induction calls generalizing earlier with
  | nil => rwa [List.append_nil] at h'
  | cons call calls ih =>
    refine ⟨h.1, ih h.2 ?_⟩
    rwa [List.append_assoc, List.singleton_append]

/-- Along a walk through its calls the counters stay earned. -/
theorem Earned.calling {s s' : Agent} {calls earlier : List (Agent × Slot)} (hcalling : Calling s calls s')
    (h : Earned s earlier) : GivesUpJustly earlier calls ∧ Earned s' (earlier ++ calls) := by
  induction hcalling generalizing earlier with
  | quiet hsame =>
    rw [List.append_nil]
    exact ⟨trivial, h.of_same hsame⟩
  | call hsame hc _ ih =>
    obtain ⟨hjust, hnext⟩ := (h.of_same hsame).call hc
    obtain ⟨hrest, hearned⟩ := ih hnext
    rw [List.append_assoc, List.singleton_append] at hearned
    exact ⟨⟨hjust, hrest⟩, hearned⟩

/-- A re-read leaves every counter which is not zero to the camera it belonged to, and configures no two cameras
whose names differ only in case. -/
def LeavesCounters (s : Agent) (i : Input) : Prop :=
  match i.event with
  | .sighup config opens =>
    (s.reread config opens).NamesApart ∧ ∀ c : Slot, c.val < (s.reread config opens).media.nCameras →
      s.statics.retryCount ((s.reread config opens).retryIndex c) ≠ 0 →
        ∃ d : Slot, d.val < s.media.nCameras ∧ (s.cam d).name = ((s.reread config opens).cam c).name ∧
          s.retryIndex d = (s.reread config opens).retryIndex c
  | _ => True

instance (s : Agent) (i : Input) : Decidable (LeavesCounters s i) := by
  obtain ⟨e, forks, deaths⟩ := i
  apply Event.casesOn (motive := fun e => Decidable (LeavesCounters s ⟨e, forks, deaths⟩)) e <;> intros <;>
    unfold LeavesCounters <;> infer_instance

/-- A re-read which leaves the counters to their cameras keeps them earned. -/
theorem Earned.handleSighup {s : Agent} {calls : List (Agent × Slot)} (h : Earned s calls) {config : Option Config}
    {opens : Bool} (hapart : (s.reread config opens).NamesApart)
    (hleaves : ∀ c : Slot, c.val < (s.reread config opens).media.nCameras →
      s.statics.retryCount ((s.reread config opens).retryIndex c) ≠ 0 →
        ∃ d : Slot, d.val < s.media.nCameras ∧ (s.cam d).name = ((s.reread config opens).cam c).name ∧
          s.retryIndex d = (s.reread config opens).retryIndex c) :
    Earned (s.handleSighup config opens) calls := by
  have hretry : (s.reread config opens).statics.retryCount = s.statics.retryCount := by
    unfold reread camonInit
    cases config <;> cases opens <;> rfl
  have hreread : Earned (s.reread config opens) calls := by
    refine ⟨hapart, fun c hc => ?_⟩
    rw [hretry]
    by_cases hzero : s.statics.retryCount ((s.reread config opens).retryIndex c) = 0
    · rw [hzero]
      exact List.nil_suffix
    · obtain ⟨d, hd, hname, hindex⟩ := hleaves c hc hzero
      rw [← hindex, ← hname]
      exact h.counters d hd
  unfold Agent.handleSighup
  exact foldl_invariant (I := fun t : Agent => Earned t calls) hreread fun t i _ ht =>
    ht.of_same (.restoreCamera t _ i)

/-- A step which leaves the counters to their cameras keeps them earned. -/
theorem Earned.step {s : Agent} {calls : List (Agent × Slot)} (h : Earned s calls) {i : Input}
    (hleaves : LeavesCounters s i) :
    GivesUpJustly calls (s.stepCalls i) ∧ Earned (s.step i) (calls ++ s.stepCalls i) := by
  unfold stepCalls Agent.step
  by_cases hactive : s.statics.ptcActive = true
  · rw [if_pos hactive, if_pos hactive]
    have hanswers : Earned (s.withAnswers i.forks i.deaths) calls := h.of_same ⟨rfl, rfl, fun _ => rfl⟩
    by_cases hsighup : ∃ config opens, i.event = .sighup config opens
    · obtain ⟨config, opens, he⟩ := hsighup
      unfold LeavesCounters at hleaves
      rw [he] at hleaves ⊢
      refine ⟨trivial, ?_⟩
      rw [show (s.withAnswers i.forks i.deaths).handleCalls (.sighup config opens) = [] from rfl, List.append_nil]
      have hreread : (s.withAnswers i.forks i.deaths).reread config opens =
          (s.reread config opens).withAnswers i.forks i.deaths := by
        cases config <;> cases opens <;> rfl
      exact hanswers.handleSighup (by rw [hreread]; exact hleaves.1) (by rw [hreread]; exact hleaves.2)
    · push Not at hsighup
      exact hanswers.calling (.handle _ hsighup)
  · rw [if_neg hactive, if_neg hactive, List.append_nil]
    exact ⟨trivial, h⟩

/-- In every run whose re-reads leave the counters to their cameras, an assignment is taken away only after the
three most recent spawn attempts for that camera failed. -/
theorem givesUpJustly_runCalls (cfg : Config) (chmReady rssdReady opens : Bool)
    (hnames : (start cfg chmReady rssdReady opens).NamesApart) (is : List Input)
    (hrun : Guarded Agent.step LeavesCounters (start cfg chmReady rssdReady opens) is) :
    GivesUpJustly [] ((start cfg chmReady rssdReady opens).runCalls is) := by
  have hearned : Earned (start cfg chmReady rssdReady opens) [] := ⟨hnames, fun _ _ => List.nil_suffix⟩
  generalize start cfg chmReady rssdReady opens = s at hearned hrun
  generalize ([] : List (Agent × Slot)) = calls at hearned
  induction is generalizing s calls with
  | nil => trivial
  | cons i is ih =>
    obtain ⟨hjust, hnext⟩ := hearned.step hrun.1
    exact hjust.append (ih _ hrun.2 _ hnext)

instance (s : Agent) (c : Slot) : Decidable (s.ClearsAssigned c) := instDecidableAnd

instance decidableGivesUpJustly : (earlier calls : List (Agent × Slot)) → Decidable (GivesUpJustly earlier calls)
  | _, [] => isTrue trivial
  | earlier, (t, c) :: calls =>
    have := decidableGivesUpJustly (earlier ++ [(t, c)]) calls
    inferInstanceAs (Decidable (_ ∧ _))

/-- A camera of another name and address beside `CAB`. -/
def rearCamera : CamConfig :=
  { cabCamera true with
    name := ['R', 'E', 'A', 'R'], dispMac := ['0', '2'], homepage := ("http://8/").toList, name_length := by decide }

/-- A timer pass whose monitor answers report `CAB` and `REAR` alive. -/
def pairTick : Input :=
  Event.quiet (.timer [⟨['9'], ['0', '1'], true⟩, ⟨['8'], ['0', '2'], true⟩] fun _ => none)

/-- A configuration of the cameras `CAB` and `REAR`, in this order or the other. -/
def pairConfig (cabFirst : Bool) : Config :=
  { cabConfig true with
    cameras := fun i =>
      if i = 0 then (if cabFirst then cabCamera true else rearCamera)
      else if i = 1 then (if cabFirst then rearCamera else cabCamera true)
      else .empty }

/-- A record command for `CAB` whose spawn fails. -/
def failedRecord : Input := ⟨.cameraRecordPause ['C', 'A', 'B'] 1, [false], []⟩

/-- `CAB` comes online and three record commands for it fail. -/
def cabFailing : List Input := List.replicate 3 cabTick ++ List.replicate 3 failedRecord

/-- A fourth record command for the failing camera gives it up. -/
theorem givesUpJustly_runCalls_cab : GivesUpJustly []
    ((start (cabConfig true) true true true).runCalls (cabFailing ++ [failedRecord])) :=
  givesUpJustly_runCalls (cabConfig true) true true true (by decide +kernel) (cabFailing ++ [failedRecord])
    (by decide +kernel)

/-- When `REAR` takes the slot of the failing camera, its first record command gives it up. -/
theorem not_givesUpJustly_rear : (start (pairConfig true) true true true).NamesApart ∧
    ¬ GivesUpJustly [] ((start (pairConfig true) true true true).runCalls (cabFailing ++
      [Event.quiet (.sighup (some (pairConfig false)) true), pairTick, pairTick, pairTick,
        Event.quiet (.cameraRecordPause ['R', 'E', 'A', 'R'] 1)])) := by
  decide +kernel

end Agent

end RecordingAgent.Reagent
