import RecordingAgent.Reagent.Commands
import RecordingAgent.Reagent.Probe

/-!
# When a camera is taken to be offline

An online camera has `camonTtlStart` lives. A report that it is not alive takes one, and the
last one taken turns the camera offline; a report that it is alive restores them all. Nothing
else touches a camera's lives: `Steady` changes keep all lives and put no camera online, and
the handlers other than the online check are steady.

The misses counted along a run are the reports that the camera is not alive since it was last
reported alive or came online.
-/

namespace RecordingAgent.Reagent

open Foundation

/-- No camera came online, and every camera has the lives it had. -/
structure Steady (s s' : Agent) : Prop where
  camonTtl : s'.statics.camonTtl = s.statics.camonTtl
  isOnline : ∀ d, (s'.cam d).runtime.isOnline = true → (s.cam d).runtime.isOnline = true

namespace Steady

open Agent

variable {s s' s'' : Agent} {c : Slot}

theorem trans (h : Steady s s') (h' : Steady s' s'') : Steady s s'' where
  camonTtl := h'.camonTtl.trans h.camonTtl
  isOnline d hd := h.isOnline d (h'.isOnline d hd)

theorem of_media (hmedia : s'.media = s.media) (hstatics : s'.statics = s.statics) : Steady s s' where
  camonTtl := by rw [hstatics]
  isOnline d hd := by rwa [cam, hmedia] at hd

theorem refl (s : Agent) : Steady s s := of_media rfl rfl

theorem modifyRuntime (s : Agent) (f : CamRuntime → CamRuntime)
    (honline : ∀ r, (f r).isOnline = true → r.isOnline = true) : Steady s (s.modifyRuntime c f) where
  camonTtl := rfl
  isOnline d hd := by
    by_cases hdc : d = c
    · subst hdc
      rw [cam_modifyRuntime_self] at hd
      exact honline _ hd
    · rwa [cam_modifyRuntime_of_ne s c hdc] at hd

theorem stopRecordingProcess (s : Agent) : Steady s (s.stopRecordingProcess c).2 where
  camonTtl := congrArg Statics.camonTtl (s.stopRecordingProcess_statics c)
  isOnline := (ProbeKept.stopRecordingProcess s).isOnline

theorem launchWorker_camonTtl (s : Agent) (cid : Slot) :
    (s.launchWorker c cid).2.statics.camonTtl = s.statics.camonTtl := by
  have hspawn : (s.spawnProcess c (raconfPrepareForRecording s.media (s.cam c))).2.statics.camonTtl =
      s.statics.camonTtl := by
    unfold spawnProcess
    split <;> rfl
  unfold Agent.launchWorker
  by_cases hlaunch : (s.cam c).runtime.isAssigned = true ∧ (s.cam c).workerPid = 0
  · simp only [if_pos hlaunch]
    generalize s.spawnProcess c (raconfPrepareForRecording s.media (s.cam c)) = r at hspawn ⊢
    rcases r with ⟨_ | pid, t⟩
    · exact hspawn
    · have hstarted : ((t.setRetry cid 0).workerStarted c pid).statics.camonTtl = t.statics.camonTtl := by
        unfold workerStarted
        dsimp only
        split <;> rfl
      exact hstarted.trans hspawn
  · simp only [if_neg hlaunch]
    rfl

theorem startRecordingProcess (s : Agent) : Steady s (s.startRecordingProcess c).2 where
  camonTtl := by
    unfold Agent.startRecordingProcess
    dsimp only
    split
    · rfl
    · split
      · split
        · rfl
        · split
          · exact launchWorker_camonTtl _ _
          · exact launchWorker_camonTtl _ _
      · rfl
  isOnline := (ProbeKept.startRecordingProcess s).isOnline

theorem reflectOffline (s : Agent) : Steady s (s.reflectOffline c) where
  camonTtl := congrArg Statics.camonTtl (s.reflectOffline_statics c)
  isOnline := (ProbeKept.reflectOffline s).isOnline

theorem restartCamera (s : Agent) (c : Slot) : Steady s (s.restartCamera c) where
  camonTtl := by
    unfold Agent.restartCamera
    dsimp only
    split
    · split
      · have hcheck := congrArg Statics.camonTtl
          ((s.setRpTtl c 0).checkWorkerStatus_frame (s.cam c).workerPid).2.1
        split <;> rename_i heq <;> rw [heq] at hcheck <;> exact hcheck
      · split
        · split
          · exact (startRecordingProcess _).camonTtl
          · rfl
        · rfl
    · rfl
  isOnline := (ProbeKept.restartCamera s c).isOnline

theorem restartPass (s : Agent) : Steady s s.restartPass :=
  restartPass_invariant (refl s) (fun _ h => h.trans (of_media rfl rfl)) fun _ c _ h => h.trans (restartCamera _ c)

theorem handleCameraRecordPause (s : Agent) (camera : CString) (record : ℕ) :
    Steady s (s.handleCameraRecordPause camera record).2 := by
  rcases s.handleCameraRecordPause_cases camera record with hidle | ⟨c, -, ⟨-, heq⟩ | ⟨-, heq⟩⟩
  · exact of_media hidle.media hidle.statics
  · rw [heq]
    exact (modifyRuntime s paused fun _ => id).trans (stopRecordingProcess _)
  · rw [heq]
    exact (modifyRuntime s resumed fun _ => id).trans (startRecordingProcess _)

theorem changeParameter (s : Agent) (camera : CString) {set : CamRuntime → CamRuntime} (hset : PictureOnly set)
    (error : VideoApplicationError) : Steady s (s.changeParameter camera set error) := by
  unfold Agent.changeParameter
  split
  · exact refl s
  · rename_i c _
    have hchanged : Steady s (s.modifyRuntime c set) := modifyRuntime s set fun r => by rw [hset.isOnline]; exact id
    have hreset : Steady s ((s.modifyRuntime c set).resetCameraStream (camera.take cameraNameLength)).2 := by
      unfold resetCameraStream
      dsimp only
      split
      · exact hchanged.trans (handleCameraRecordPause _ _ _)
      · split <;> exact (hchanged.trans (handleCameraRecordPause _ _ _)).trans (handleCameraRecordPause _ _ _)
    dsimp only
    split
    · exact hreset.trans (of_media rfl rfl)
    · exact hreset

theorem mapCameras (s : Agent) {f : CamDef → CamDef} (hf : ∀ p, (f p).runtime.isOnline = p.runtime.isOnline) :
    Steady s (s.mapCameras f) where
  camonTtl := rfl
  isOnline d hd := by
    change (if d.val < s.media.nCameras then f (s.cam d) else s.cam d).runtime.isOnline = true at hd
    split at hd
    · rwa [hf] at hd
    · exact hd

/-- Every handler but the timer's and the re-read is steady. -/
theorem handle (s : Agent) {e : Event} (htimer : ∀ answers arp, e ≠ .timer answers arp)
    (hsighup : ∀ config opens, e ≠ .sighup config opens) : Steady s (s.handle e) := by
  by_cases hpicture : ∃ m, e.ChangesParameter m
  · obtain ⟨m, hm⟩ := hpicture
    obtain ⟨set, error, hset, heq⟩ := handle_changesParameter hm
    rw [heq]
    exact changeParameter s m hset error
  · cases e with
    | cameraResolution camera v => exact absurd ⟨camera, rfl⟩ hpicture
    | cameraCompression camera v => exact absurd ⟨camera, rfl⟩ hpicture
    | cameraFrameRate camera v => exact absurd ⟨camera, rfl⟩ hpicture
    | cameraSettings d =>
      change Steady s (s.msgcbCameraSettings d)
      unfold msgcbCameraSettings
      split
      · exact modifyRuntime s _ fun _ => id
      · exact of_media rfl rfl
    | cameraRecordPause camera record => exact handleCameraRecordPause s camera record
    | readyStatus chm rssd =>
      exact ⟨rfl, (mapCameras (s.setReady (chm ≠ 0) (rssd ≠ 0)) (f := readyCamera _ _) fun _ => rfl).isOnline⟩
    | shutdown f =>
      cases f with
      | other => exact refl s
      | _ => exact ⟨rfl, (mapCameras _ (f := shutdownCamera _ _) fun _ => rfl).isOnline⟩
    | locomotiveId l => exact ⟨rfl, fun _ => id⟩
    | otherMessage => exact refl s
    | timer answers arp => exact absurd rfl (htimer answers arp)
    | workerDeath pid => exact of_media rfl rfl
    | sighup config opens => exact absurd rfl (hsighup config opens)

end Steady

namespace Agent

section Reflect

variable (s : Agent) (c : Slot)

/-- A camera reported alive is online and has all its lives. -/
theorem reflectCameraOnlineStatus_alive :
    ((s.reflectCameraOnlineStatus c true).2.cam c).runtime.isOnline = true ∧
      (s.reflectCameraOnlineStatus c true).2.statics.camonTtl c = camonTtlStart := by
  unfold reflectCameraOnlineStatus
  simp only [if_true, Bool.true_eq_false, false_and, if_false]
  split
  · rename_i honline
    exact ⟨honline, Function.update_self _ _ _⟩
  · rename_i hoffline
    have hkept : ¬ (((s.setCamonTtl c camonTtlStart).reflectOnline c).cam c).runtime.isOnline = true :=
      fun h => hoffline ((ProbeKept.reflectOnline _).isOnline c h)
    rw [if_neg hkept]
    refine ⟨?_, Function.update_self _ _ _⟩
    change ((Agent.modifyRuntime _ c fun r => { r with isOnline := true }).cam c).runtime.isOnline = true
    rw [cam_modifyRuntime_self]

/-- A camera which is offline stays so when it is not reported alive. -/
theorem reflectCameraOnlineStatus_missed_offline (h : (s.cam c).runtime.isOnline = false) :
    s.reflectCameraOnlineStatus c false = (false, s) := by
  unfold reflectCameraOnlineStatus
  simp [h]

/-- A missed camera which has another life loses one. -/
theorem reflectCameraOnlineStatus_missed (honline : (s.cam c).runtime.isOnline = true)
    (httl : 1 < s.statics.camonTtl c) :
    s.reflectCameraOnlineStatus c false = (true, s.setCamonTtl c (s.statics.camonTtl c - 1)) := by
  unfold reflectCameraOnlineStatus
  simp [honline, httl]

/-- A missed camera on its last life goes offline. -/
theorem reflectCameraOnlineStatus_last (honline : (s.cam c).runtime.isOnline = true)
    (httl : s.statics.camonTtl c ≤ 1) :
    ((s.reflectCameraOnlineStatus c false).2.cam c).runtime.isOnline = false := by
  have hlast : ¬ 1 < s.statics.camonTtl c := by omega
  unfold reflectCameraOnlineStatus
  simp only [Bool.false_eq_true, if_false, honline, Bool.true_eq_false, true_and, gt_iff_lt, hlast]
  split
  · assumption
  · change ((Agent.modifyRuntime _ c fun r => { r with isOnline := false }).cam c).runtime.isOnline = false
    rw [cam_modifyRuntime_self]

/-- The online check of one camera keeps the lives of the others. -/
theorem reflectCameraOnlineStatus_camonTtl (isAlive : Bool) {d : Slot} (hd : d ≠ c) :
    (s.reflectCameraOnlineStatus c isAlive).2.statics.camonTtl d = s.statics.camonTtl d := by
  have hset : ∀ (t : Agent) n, (t.setCamonTtl c n).statics.camonTtl d = t.statics.camonTtl d := fun _ _ =>
    Function.update_of_ne hd _ _
  have honline : ∀ t : Agent, (t.reflectOnline c).statics.camonTtl d = t.statics.camonTtl d := by
    intro t
    unfold reflectOnline
    split
    · dsimp only
      split
      · have hcheck := congrArg Statics.camonTtl (t.checkWorkerStatus_frame (t.cam c).workerPid).2.1
        split <;> rename_i heq <;> rw [heq] at hcheck
        · rw [(Steady.startRecordingProcess _).camonTtl]
          exact congrFun hcheck d
        · exact (hset _ _).trans (congrFun hcheck d)
      · split
        · exact hset _ _
        · rw [(Steady.startRecordingProcess _).camonTtl]
          exact hset _ _
    · rfl
  have hoffline : ∀ t : Agent, (t.reflectOffline c).statics.camonTtl d = t.statics.camonTtl d := fun t => by
    rw [(Steady.reflectOffline t).camonTtl]
  unfold reflectCameraOnlineStatus
  cases isAlive with
  | true =>
    simp only [if_true, Bool.true_eq_false, false_and, if_false]
    split
    · exact hset _ _
    · split
      · exact (honline _).trans (hset _ _)
      · exact (hset _ _).trans ((honline _).trans (hset _ _))
  | false =>
    simp only [Bool.false_eq_true, if_false, true_and]
    split
    · rfl
    · split
      · exact hset _ _
      · split
        · exact hoffline _
        · exact (hset _ _).trans (hoffline _)

end Reflect

/-- A camera which is online has lost a life for every miss, and has one left. -/
def LivesCounted (c : Slot) (s : Agent) (misses : ℕ) : Prop :=
  (s.cam c).runtime.isOnline = true →
    s.statics.camonTtl c = camonTtlStart - misses ∧ (misses : ℤ) < camonTtlStart

/-- The misses after another report. -/
def missesAfter (misses : ℕ) (isAlive : Bool) : ℕ := if isAlive then 0 else misses + 1

theorem LivesCounted.of_steady {c : Slot} {s s' : Agent} {misses : ℕ} (h : LivesCounted c s misses)
    (hsteady : Steady s s') : LivesCounted c s' misses := by
  intro honline
  rw [hsteady.camonTtl]
  exact h (hsteady.isOnline c honline)

/-- The lives count the misses over an online check, which turns the camera offline at the last one. -/
theorem LivesCounted.reflect {c : Slot} {s : Agent} {misses : ℕ} (h : LivesCounted c s misses) (isAlive : Bool) :
    LivesCounted c (s.reflectCameraOnlineStatus c isAlive).2 (missesAfter misses isAlive) ∧
      ((s.cam c).runtime.isOnline = true →
        (((s.reflectCameraOnlineStatus c isAlive).2.cam c).runtime.isOnline = false ↔
          isAlive = false ∧ (misses : ℤ) + 1 = camonTtlStart)) := by
  cases isAlive with
  | true =>
    obtain ⟨honline, httl⟩ := s.reflectCameraOnlineStatus_alive c
    have hafter : missesAfter misses true = 0 := rfl
    refine ⟨fun _ => ?_, fun _ => by simp [honline]⟩
    rw [httl, hafter]
    decide
  | false =>
    rcases Bool.eq_false_or_eq_true (s.cam c).runtime.isOnline with honline | hoffline
    · obtain ⟨httl, hmisses⟩ := h honline
      by_cases hspare : 1 < s.statics.camonTtl c
      · rw [reflectCameraOnlineStatus_missed s c honline hspare]
        have honline' : ((s.setCamonTtl c (s.statics.camonTtl c - 1)).cam c).runtime.isOnline = true := honline
        refine ⟨fun _ => ?_, fun _ => ?_⟩
        · have hupdated : (s.setCamonTtl c (s.statics.camonTtl c - 1)).statics.camonTtl c =
              s.statics.camonTtl c - 1 := Function.update_self _ _ _
          have hafter : missesAfter misses false = misses + 1 := rfl
          rw [hupdated, hafter]
          omega
        · rw [honline']
          simp only [Bool.true_eq_false, true_and, false_iff]
          omega
      · have hoffline' := reflectCameraOnlineStatus_last s c honline (by omega)
        refine ⟨fun h => ?_, fun _ => ?_⟩
        · rw [hoffline'] at h
          cases h
        · rw [hoffline']
          simp only [true_and, true_iff]
          omega
    · rw [reflectCameraOnlineStatus_missed_offline s c hoffline]
      refine ⟨fun h => ?_, fun h => ?_⟩ <;> rw [hoffline] at h <;> cases h

/-- Looking up an address keeps the camera's status and all lives. -/
theorem lookupAddress_steady (s : Agent) (c : Slot) (arp : Slot → Option CString) :
    ((s.lookupAddress c arp).cam c).runtime = (s.cam c).runtime ∧
      (s.lookupAddress c arp).statics.camonTtl = s.statics.camonTtl := by
  unfold lookupAddress
  dsimp only
  split
  · split
    · refine ⟨?_, rfl⟩
      rw [cam_modifyCam_self]
      rfl
    · exact ⟨rfl, rfl⟩
  · exact ⟨rfl, rfl⟩

/-- For an assigned camera the loop body is the online check, as far as status and lives go. -/
theorem reflectProbe_eq_reflect (s : Agent) (arp : Slot → Option CString) {c : Slot}
    (h : (s.cam c).runtime.isAssigned = true) :
    ((reflectProbe arp s c).cam c).runtime = ((s.reflectCameraOnlineStatus c (s.aliveAnswer c)).2.cam c).runtime ∧
      (reflectProbe arp s c).statics.camonTtl =
        (s.reflectCameraOnlineStatus c (s.aliveAnswer c)).2.statics.camonTtl := by
  rcases s.reflectProbe_cases arp h with ⟨j, -, heq⟩ | ⟨-, heq | heq⟩
  · rw [heq]
    exact ⟨rfl, rfl⟩
  · rw [heq]
    exact ⟨rfl, rfl⟩
  · rw [heq]
    exact lookupAddress_steady _ c arp

/-- The lives of a camera are never affected when the pass comes to another one. -/
theorem reflectProbe_camonTtl (s : Agent) (arp : Slot → Option CString) {c d : Slot} (h : c ≠ d) :
    (reflectProbe arp s d).statics.camonTtl c = s.statics.camonTtl c := by
  by_cases hassigned : (s.cam d).runtime.isAssigned = true
  · rw [(s.reflectProbe_eq_reflect arp hassigned).2]
    exact s.reflectCameraOnlineStatus_camonTtl d _ h
  · unfold reflectProbe
    rw [if_neg hassigned]

/-- The cameras before and after a configured one. -/
theorem configured_split (m : MediaInfo) {c : Slot} (hc : c.val < m.nCameras) :
    ∃ later, m.configured = m.configured.takeWhile (· ≠ c) ++ c :: later ∧ c ∉ later := by
  obtain ⟨earlier, later, hsplit⟩ := List.append_of_mem ((m.mem_configured c).mpr hc)
  have hnodup := m.nodup_configured
  rw [hsplit] at hnodup ⊢
  have hearlier : ∀ d ∈ earlier, d ≠ c := fun d hd => (List.nodup_append.mp hnodup).2.2 d hd c List.mem_cons_self
  refine ⟨later, ?_, (List.nodup_cons.mp hnodup.of_append_right).1⟩
  rw [List.takeWhile_append_of_pos (by simpa using hearlier), List.takeWhile_cons_of_neg (by simp), List.append_nil]

/-- What a loop over other cameras keeps of one. -/
theorem foldl_reflectProbe_others (arp : Slot → Option CString) {c : Slot} {cs : List Slot} (hcs : c ∉ cs)
    (s : Agent) : (cs.foldl (reflectProbe arp) s).cam c = s.cam c ∧
      (cs.foldl (reflectProbe arp) s).statics.camonTtl c = s.statics.camonTtl c := by
  refine foldl_invariant (I := fun t : Agent => t.cam c = s.cam c ∧ t.statics.camonTtl c = s.statics.camonTtl c)
    ⟨rfl, rfl⟩ ?_
  rintro t d hd ⟨hcam, httl⟩
  have hdc : c ≠ d := fun h => hcs (h ▸ hd)
  exact ⟨((Frame.reflectProbe arp t).cam c hdc).trans hcam, (t.reflectProbe_camonTtl arp hdc).trans httl⟩

/-- A camera and its lives after the matching pass are as its own turn leaves them. -/
theorem camonPass_at {s : Agent} (hflag : s.statics.passFlag = false) (answers : List CamonStatus)
    (arp : Slot → Option CString) {c : Slot} (hc : c.val < s.media.nCameras) :
    (s.camonPass answers arp).cam c = (reflectProbe arp (s.matchingAt arp c) c).cam c ∧
      (s.camonPass answers arp).statics.camonTtl c =
        (reflectProbe arp (s.matchingAt arp c) c).statics.camonTtl c := by
  obtain ⟨later, hsplit, hlater⟩ := configured_split s.media hc
  have hpass := foldl_reflectProbe_others arp hlater (reflectProbe arp (s.matchingAt arp c) c)
  unfold camonPass
  rw [if_pos hflag]
  dsimp only
  rw [hsplit, List.foldl_append, List.foldl_cons]
  exact hpass

/-- When the pass comes to a camera, its record and lives are as they were. -/
theorem matchingAt_kept (s : Agent) (arp : Slot → Option CString) (c : Slot) :
    (s.matchingAt arp c).cam c = s.cam c ∧ (s.matchingAt arp c).statics.camonTtl c = s.statics.camonTtl c := by
  refine foldl_reflectProbe_others arp (fun hc => ?_) _
  simpa using List.mem_takeWhile_imp hc

/-- The report a step's matching pass makes about a camera, if it makes one. -/
def report (s : Agent) (i : Input) (c : Slot) : Option Bool :=
  match i.event with
  | .timer _ arp =>
    if s.statics.ptcActive = true ∧ s.statics.passFlag = false ∧ c.val < s.media.nCameras ∧
        (s.cam c).runtime.isAssigned = true then
      some ((s.withAnswers i.forks i.deaths).treatedAlive arp c)
    else none
  | _ => none

/-- Count the reports that a camera is not alive since it was reported alive or came online. -/
def countMisses (c : Slot) (x : Agent × ℕ) (i : Input) : Agent × ℕ :=
  let s' := x.1.step i
  (s',
    if x.1.report i c = some true ∨
        (x.1.cam c).runtime.isOnline = false ∧ (s'.cam c).runtime.isOnline = true then 0
    else if x.1.report i c = some false then x.2 + 1
    else x.2)

/-- A matching pass which reports on a camera counts a miss, or starts the count again, and turns the camera
offline at the last miss. -/
theorem LivesCounted.camonPass {c : Slot} {s : Agent} {misses : ℕ} (h : LivesCounted c s misses)
    (hflag : s.statics.passFlag = false) (hc : c.val < s.media.nCameras)
    (hassigned : (s.cam c).runtime.isAssigned = true) (answers : List CamonStatus) (arp : Slot → Option CString) :
    LivesCounted c (s.camonPass answers arp) (missesAfter misses (s.treatedAlive arp c)) ∧
      (s.treatedAlive arp c = false → ((s.camonPass answers arp).cam c).runtime.isOnline = true →
        (s.cam c).runtime.isOnline = true) ∧
      ((s.cam c).runtime.isOnline = true →
        (((s.camonPass answers arp).cam c).runtime.isOnline = false ↔
          s.treatedAlive arp c = false ∧ (misses : ℤ) + 1 = camonTtlStart)) := by
  obtain ⟨hcam, httl⟩ := camonPass_at hflag answers arp hc
  obtain ⟨hcam₀, httl₀⟩ := s.matchingAt_kept arp c
  have hturn : LivesCounted c (s.matchingAt arp c) misses := by
    intro honline
    rw [httl₀]
    rw [hcam₀] at honline
    exact h honline
  obtain ⟨hruntime, hlives⟩ := (s.matchingAt arp c).reflectProbe_eq_reflect arp (c := c) (by rwa [hcam₀])
  rw [hlives] at httl
  have honline : ((s.camonPass answers arp).cam c).runtime.isOnline =
      (((s.matchingAt arp c).reflectCameraOnlineStatus c (s.treatedAlive arp c)).2.cam c).runtime.isOnline := by
    rw [hcam, hruntime]
    rfl
  obtain ⟨hcounted, hlast⟩ := hturn.reflect (s.treatedAlive arp c)
  refine ⟨fun hon => ?_, fun hmissed hon => ?_, fun hon => ?_⟩
  · rw [httl]
    rw [honline] at hon
    exact hcounted hon
  · by_contra hoff
    have hoff' : ((s.matchingAt arp c).cam c).runtime.isOnline = false := by
      rw [hcam₀]
      simpa using hoff
    rw [honline, hmissed, reflectCameraOnlineStatus_missed_offline _ c hoff', hoff'] at hon
    cases hon
  · rw [honline]
    exact hlast (by rwa [hcam₀])

/-- A pass which makes no report about a camera keeps its record and lives. -/
theorem camonPass_unreported {s : Agent} {c : Slot} (answers : List CamonStatus) (arp : Slot → Option CString)
    (h : ¬ (s.statics.passFlag = false ∧ c.val < s.media.nCameras ∧ (s.cam c).runtime.isAssigned = true)) :
    (s.camonPass answers arp).cam c = s.cam c ∧
      (s.camonPass answers arp).statics.camonTtl c = s.statics.camonTtl c := by
  by_cases hflag : s.statics.passFlag = false
  · by_cases hc : c.val < s.media.nCameras
    · obtain ⟨hcam, httl⟩ := camonPass_at hflag answers arp hc
      obtain ⟨hcam₀, httl₀⟩ := s.matchingAt_kept arp c
      have hunassigned : ¬ ((s.matchingAt arp c).cam c).runtime.isAssigned = true := by
        rw [hcam₀]
        exact fun hassigned => h ⟨hflag, hc, hassigned⟩
      have hsame : reflectProbe arp (s.matchingAt arp c) c = s.matchingAt arp c := by
        unfold reflectProbe
        rw [if_neg hunassigned]
      rw [hsame] at hcam httl
      exact ⟨hcam.trans hcam₀, httl.trans httl₀⟩
    · unfold Agent.camonPass
      rw [if_pos hflag]
      exact foldl_reflectProbe_others arp (by simpa using hc)
        { s with statics := { s.statics with passFlag := true } }
  · unfold Agent.camonPass
    rw [if_neg hflag]
    exact ⟨rfl, rfl⟩

/-- A step which makes no report about a camera does not put it online and keeps its lives. -/
theorem step_unreported {s : Agent} {i : Input} {c : Slot}
    (hsighup : ∀ config opens, i.event ≠ .sighup config opens) (h : s.report i c = none) :
    (((s.step i).cam c).runtime.isOnline = true → (s.cam c).runtime.isOnline = true) ∧
      (s.step i).statics.camonTtl c = s.statics.camonTtl c := by
  unfold step
  by_cases hactive : s.statics.ptcActive = true
  · rw [if_pos hactive]
    by_cases htimer : ∃ answers arp, i.event = .timer answers arp
    · obtain ⟨answers, arp, he⟩ := htimer
      unfold report at h
      rw [he] at h ⊢
      have hunreported : ¬ (s.statics.passFlag = false ∧ c.val < s.media.nCameras ∧
          (s.cam c).runtime.isAssigned = true) := by
        intro hreported
        dsimp only at h
        rw [if_pos ⟨hactive, hreported⟩] at h
        cases h
      obtain ⟨hcam, httl⟩ := camonPass_unreported (s := s.withAnswers i.forks i.deaths) answers arp hunreported
      have hsteady := Steady.restartPass ((s.withAnswers i.forks i.deaths).camonPass answers arp)
      refine ⟨fun hon => ?_, ?_⟩
      · have hpass := hsteady.isOnline c hon
        rw [hcam] at hpass
        exact hpass
      · exact (congrFun hsteady.camonTtl c).trans httl
    · push Not at htimer
      have hsteady := Steady.handle (s.withAnswers i.forks i.deaths) htimer hsighup
      exact ⟨hsteady.isOnline c, congrFun hsteady.camonTtl c⟩
  · rw [if_neg hactive]
    exact ⟨id, rfl⟩

/-- A step's report is made by the matching pass of an active agent. -/
theorem report_eq_some {s : Agent} {i : Input} {c : Slot} {isAlive : Bool} (h : s.report i c = some isAlive) :
    ∃ answers arp, i.event = .timer answers arp ∧ s.statics.ptcActive = true ∧ s.statics.passFlag = false ∧
      c.val < s.media.nCameras ∧ (s.cam c).runtime.isAssigned = true ∧
      (s.withAnswers i.forks i.deaths).treatedAlive arp c = isAlive := by
  unfold report at h
  split at h
  · rename_i answers arp he
    split at h
    · rename_i hreported
      obtain ⟨hactive, hflag, hc, hassigned⟩ := hreported
      exact ⟨answers, arp, he, hactive, hflag, hc, hassigned, Option.some.inj h⟩
    · cases h
  · cases h

/-- The lives of a camera count its misses over every step which is not a re-read. -/
theorem LivesCounted.step {c : Slot} {x : Agent × ℕ} (h : LivesCounted c x.1 x.2) {i : Input}
    (hsighup : ∀ config opens, i.event ≠ .sighup config opens) :
    LivesCounted c (countMisses c x i).1 (countMisses c x i).2 := by
  obtain ⟨s, misses⟩ := x
  cases hreport : s.report i c with
  | none =>
    obtain ⟨honline, httl⟩ := step_unreported hsighup hreport
    have hmisses : (countMisses c (s, misses) i).2 = misses := by
      have hcame : ¬ ((s.cam c).runtime.isOnline = false ∧ ((s.step i).cam c).runtime.isOnline = true) := by
        rintro ⟨hoff, hon⟩
        rw [honline hon] at hoff
        cases hoff
      simp [countMisses, hreport, hcame]
    rw [hmisses]
    intro hon
    have hlives := h (honline hon)
    rwa [← httl] at hlives
  | some isAlive =>
    obtain ⟨answers, arp, he, hactive, hflag, hc, hassigned, halive⟩ := report_eq_some hreport
    have hstart : LivesCounted c (s.withAnswers i.forks i.deaths) misses := h
    obtain ⟨hcounted, hstays, -⟩ := hstart.camonPass hflag hc hassigned answers arp
    rw [halive] at hcounted hstays
    have hstep : s.step i = ((s.withAnswers i.forks i.deaths).camonPass answers arp).restartPass := by
      unfold Agent.step
      rw [if_pos hactive, he]
      rfl
    have hsteady := Steady.restartPass ((s.withAnswers i.forks i.deaths).camonPass answers arp)
    have hmisses : (countMisses c (s, misses) i).2 = missesAfter misses isAlive := by
      cases isAlive with
      | true => simp [countMisses, hreport, missesAfter]
      | false =>
        have hcame : ¬ ((s.cam c).runtime.isOnline = false ∧ ((s.step i).cam c).runtime.isOnline = true) := by
          rintro ⟨hoff, hon⟩
          rw [hstep] at hon
          have hon' : (s.cam c).runtime.isOnline = true := hstays rfl (hsteady.isOnline c hon)
          rw [hon'] at hoff
          cases hoff
        simp [countMisses, hreport, hcame, missesAfter]
    rw [hmisses]
    change LivesCounted c (s.step i) _
    rw [hstep]
    exact hcounted.of_steady hsteady

/-- The misses of a camera in a row at the end of a run. -/
def misses (c : Slot) (s : Agent) (is : List Input) : ℕ := (run (countMisses c) (s, 0) is).2

theorem run_countMisses_fst (c : Slot) (x : Agent × ℕ) (is : List Input) :
    (run (countMisses c) x is).1 = run step x.1 is := by
  induction is generalizing x with
  | nil => rfl
  | cons i is ih => exact ih _

/-- The lives of a camera count its misses over a run without a re-read. -/
theorem counted_run {c : Slot} {s : Agent} (h : LivesCounted c s 0) {is : List Input}
    (hsighup : ∀ i ∈ is, ∀ config opens, i.event ≠ .sighup config opens) :
    LivesCounted c (run step s is) (misses c s is) := by
  have hcounted : LivesCounted c (run (countMisses c) (s, 0) is).1 (run (countMisses c) (s, 0) is).2 :=
    foldl_invariant (I := fun x : Agent × ℕ => LivesCounted c x.1 x.2) h fun x i hi hx => hx.step (hsighup i hi)
  rwa [run_countMisses_fst] at hcounted

/-- When the agent starts, no camera is online. -/
theorem start_counted (cfg : Config) (chmReady rssdReady opens : Bool) (c : Slot) :
    LivesCounted c (start cfg chmReady rssdReady opens) 0 :=
  fun _ => ⟨rfl, by decide⟩

/-- In every run without a re-read, an online camera which is reported on is turned offline exactly by the last
of `camonTtlStart` misses in a row, and no camera's lives are affected when another's turn comes. -/
theorem offline_iff_last_miss (cfg : Config) (chmReady rssdReady opens : Bool) (is : List Input)
    (hsighup : ∀ i ∈ is, ∀ config opens, i.event ≠ .sighup config opens) (c : Slot) :
    (∀ (i : Input) (isAlive : Bool) (answers : List CamonStatus) (arp : Slot → Option CString),
      i.event = .timer answers arp →
      (run step (start cfg chmReady rssdReady opens) is).report i c = some isAlive →
      ((run step (start cfg chmReady rssdReady opens) is).cam c).runtime.isOnline = true →
      (((((run step (start cfg chmReady rssdReady opens) is).withAnswers i.forks i.deaths).camonPass answers
          arp).cam c).runtime.isOnline = false ↔
        isAlive = false ∧ (misses c (start cfg chmReady rssdReady opens) is : ℤ) + 1 = camonTtlStart)) ∧
    ∀ (s : Agent) (arp : Slot → Option CString) (d : Slot), c ≠ d →
      (reflectProbe arp s d).statics.camonTtl c = s.statics.camonTtl c := by
  refine ⟨fun i isAlive answers arp he hreport honline => ?_, fun s arp d hd => s.reflectProbe_camonTtl arp hd⟩
  have hcounted := counted_run (start_counted cfg chmReady rssdReady opens c) hsighup
  obtain ⟨answers', arp', he', -, hflag, hc, hassigned, rfl⟩ := report_eq_some hreport
  obtain ⟨rfl, rfl⟩ := Event.timer.inj (he'.symm.trans he)
  have hstart : LivesCounted c ((run step (start cfg chmReady rssdReady opens) is).withAnswers i.forks i.deaths)
      (misses c (start cfg chmReady rssdReady opens) is) := hcounted
  exact (hstart.camonPass hflag hc hassigned answers' arp').2.2 honline

/-- A timer pass without answers. -/
def missedTick : Input := Event.quiet (.timer [] fun _ => none)

/-- A camera which came online goes offline with the sixth miss. -/
theorem offline_iff_last_miss_cab :
    ((((run step (start (cabConfig true) true true true) (List.replicate 3 cabTick ++
      List.replicate 11 missedTick)).withAnswers [] []).camonPass [] fun _ => none).cam 0).runtime.isOnline = false :=
  ((offline_iff_last_miss (cabConfig true) true true true (List.replicate 3 cabTick ++ List.replicate 11 missedTick)
    (fun i hi config opens => by
      rcases List.mem_append.mp hi with hi | hi <;> rw [List.eq_of_mem_replicate hi] <;> nofun) 0).1
    missedTick false [] (fun _ => none) rfl (by decide +kernel) (by decide +kernel)).mpr (by decide +kernel)

end Agent

end RecordingAgent.Reagent
