import RecordingAgent.Reagent.Drives

/-!
# Re-attaching the saved workers

The loop which restores the saved cameras gives each named camera of the re-read
configuration the worker of the first saved camera of that name, or terminates that worker
when the camera is no longer assigned. Every slot is settled by its own iteration.
-/

namespace RecordingAgent.Reagent

open Foundation

/-- The pid a re-read camera of the given name takes from the saved cameras, zero if none. -/
def savedPid (old : Slot → CamDef) (name : CString) : ℕ :=
  if name = [] then 0
  else match savedCamera old name with
    | some j => (old j).workerPid
    | none => 0

namespace Agent

/-- The slot holds its saved worker, and nothing was signalled. -/
structure Attached (i : Slot) (worker : ℕ) (s s' : Agent) : Prop where
  pid : (s'.cam i).workerPid = worker
  count : s'.media.nCamsRecording = s.media.nCamsRecording
  recorders : s'.recorders = s.recorders
  assigned : worker ≠ 0 → (s.cam i).runtime.isAssigned = true

/-- The saved worker of the slot was terminated. -/
structure Terminated (i : Slot) (worker : ℕ) (s s' : Agent) : Prop where
  worker_ne : worker ≠ 0
  pid : (s'.cam i).workerPid = 0
  count : s'.media.nCamsRecording = s.media.nCamsRecording - 1
  signalled : s'.recorders.signalled = s.recorders.signalled ++ [worker]

/-- Re-attaching one saved camera attaches or terminates its worker. -/
theorem attachSaved_effect (s : Agent) (i : Slot) (saved : CamDef) :
    Attached i saved.workerPid s (s.attachSaved i saved) ∨
      Terminated i saved.workerPid s (s.attachSaved i saved) := by
  have hpid : ((s.modifyCam i fun p => { p with workerPid := saved.workerPid }).cam i).workerPid =
      saved.workerPid := by
    rw [cam_modifyCam_self]
  unfold attachSaved
  dsimp only
  split
  · rename_i hassigned
    rw [cam_modifyCam_self] at hassigned
    exact Or.inl ⟨by rw [cam_modifyRuntime_self]; exact hpid, rfl, rfl, fun _ => hassigned⟩
  · split
    · rename_i hpos
      have hne : ((s.modifyCam i fun p => { p with workerPid := saved.workerPid }).cam i).workerPid ≠ 0 := by
        omega
      obtain ⟨-, hcam, hcount, hrecorders⟩ := stopRecordingProcess_of_worker _ i hne
      rw [hpid] at hne hrecorders
      exact Or.inr ⟨hne, by rw [hcam]; rfl, hcount, by rw [hrecorders]; rfl⟩
    · rename_i hzero
      exact Or.inl ⟨hpid, rfl, rfl, fun hne => absurd (Nat.pos_of_ne_zero hne) (hpid ▸ hzero)⟩

/-- Restoring a slot without a worker attaches or terminates the worker saved under its name. -/
theorem restoreCamera_effect (old : Slot → CamDef) {s : Agent} {i : Slot}
    (hpid : (s.cam i).workerPid = 0) :
    Attached i (savedPid old (s.cam i).name) s (restoreCamera old s i) ∨
      Terminated i (savedPid old (s.cam i).name) s (restoreCamera old s i) := by
  unfold restoreCamera savedPid
  by_cases hname : (s.cam i).name = []
  · rw [if_neg (not_not.mpr hname), if_pos hname]
    exact Or.inl ⟨hpid, rfl, rfl, fun hne => absurd rfl hne⟩
  · rw [if_pos hname, if_neg hname]
    cases savedCamera old (s.cam i).name with
    | none => exact Or.inl ⟨hpid, rfl, rfl, fun hne => absurd rfl hne⟩
    | some j =>
      rcases s.attachSaved_effect i (old j) with h | h
      · exact Or.inl ⟨h.pid, h.count, h.recorders, h.assigned⟩
      · exact Or.inr ⟨h.worker_ne, h.pid, h.count, h.signalled⟩

/-- Restoring a slot signals at most the worker saved under its name. -/
theorem restoreCamera_signalled (old : Slot → CamDef) (s : Agent) (i : Slot) :
    ∃ new, (restoreCamera old s i).recorders.signalled = s.recorders.signalled ++ new ∧
      ∀ p ∈ new, p = savedPid old (s.cam i).name := by
  unfold restoreCamera savedPid
  by_cases hname : (s.cam i).name = []
  · rw [if_neg (not_not.mpr hname)]
    exact ⟨[], by simp, by simp⟩
  · rw [if_pos hname, if_neg hname]
    cases savedCamera old (s.cam i).name with
    | none => exact ⟨[], (List.append_nil _).symm, by simp⟩
    | some j =>
      rcases s.attachSaved_effect i (old j) with h | h
      · exact ⟨[], by rw [List.append_nil]; exact congrArg Recorders.signalled h.recorders, by simp⟩
      · exact ⟨[(old j).workerPid], h.signalled, by simp⟩

/-- Before the saved cameras are restored no slot has a worker. -/
theorem reread_workerPid (s : Agent) (config : Option Config) (opens : Bool) (i : Slot) :
    ((s.reread config opens).cam i).workerPid = 0 := by
  cases config with
  | none => rfl
  | some cfg =>
    have hinit : (if i.val < cfg.nCameras then (cfg.cameras i).init else (cfg.cameras i).raw).workerPid = 0 := by
      split <;> rfl
    cases opens <;> exact hinit

/-- The count follows the slots as the restoring loop settles them. -/
theorem restore_count (old : Slot → CamDef) {items : List Slot} (hnodup : items.Nodup) {s : Agent} {k : ℕ}
    (hpid : ∀ i ∈ items, (s.cam i).workerPid = 0)
    (hcount : s.media.nCamsRecording =
      k + items.countP fun i => savedPid old (s.cam i).name ≠ 0) :
    (items.foldl (restoreCamera old) s).media.nCamsRecording =
      k + items.countP fun i => ((items.foldl (restoreCamera old) s).cam i).workerPid ≠ 0 := by
  induction items generalizing s k with
  | nil => exact hcount
  | cons i rest ih =>
    obtain ⟨hnotin, hnodup'⟩ := List.nodup_cons.mp hnodup
    have hframe := restoreCamera_frame old s i
    have hpid' : ∀ j ∈ rest, ((restoreCamera old s i).cam j).workerPid = 0 := by
      intro j hj
      rw [hframe.cam j (fun h => hnotin (h ▸ hj))]
      exact hpid j (by simp [hj])
    have hsettled : ((rest.foldl (restoreCamera old) (restoreCamera old s i)).cam i).workerPid =
        ((restoreCamera old s i).cam i).workerPid := by
      refine foldl_invariant (I := fun t : Agent =>
        (t.cam i).workerPid = ((restoreCamera old s i).cam i).workerPid) rfl ?_
      intro t j hj ht
      rw [(restoreCamera_frame old t j).cam i (fun h => hnotin (h ▸ hj))]
      exact ht
    rw [List.countP_cons] at hcount
    rw [List.foldl_cons, List.countP_cons, hsettled]
    have hrest := ih hnodup' (s := restoreCamera old s i)
      (k := k + if ((restoreCamera old s i).cam i).workerPid ≠ 0 then 1 else 0) hpid' (by
        simp only [hframe.names]
        rcases restoreCamera_effect old (hpid i (by simp)) with h | h
        · rw [h.count, h.pid]
          simp only [decide_eq_true_eq] at hcount
          omega
        · rw [h.count, h.pid]
          have hne := h.worker_ne
          simp [hne] at hcount ⊢
          omega)
    simp only [decide_eq_true_eq]
    omega

end Agent

/-- An assigned camera of the re-read configuration with what was saved of it. -/
def CamDef.attached (p saved : CamDef) : CamDef :=
  { p with
    workerPid := saved.workerPid
    runtime := { p.runtime with
      recordingModeFlags := saved.runtime.recordingModeFlags
      recordingStatusFlags := saved.runtime.recordingStatusFlags
      isOnline := Has saved.runtime.recordingStatusFlags isRecordingAny || p.runtime.isOnline } }

/-- A camera of the re-read configuration after the saved cameras are restored. -/
def restored (old : Slot → CamDef) (p : CamDef) : CamDef :=
  if p.name ≠ [] then
    match savedCamera old p.name with
    | some j =>
      if p.runtime.isAssigned then p.attached (old j)
      else if (old j).workerPid > 0 then { p with workerPid := (old j).workerPid }.stopped
      else { p with workerPid := (old j).workerPid }
    | none => p
  else p

/-- What is to hold of a restored camera holds of it as it was read, with what was saved when it is
assigned, and with or without the saved worker, which is stopped, when it is not. -/
theorem restored_of_cases {P : CamDef → Prop} {old : Slot → CamDef} {p : CamDef} (hfresh : P p)
    (hattached : ∀ j, p.name ≠ [] → savedCamera old p.name = some j → p.runtime.isAssigned = true →
      P (p.attached (old j)))
    (hstopped : ∀ pid, P { p with workerPid := pid }.stopped)
    (hidle : ∀ pid, P { p with workerPid := pid }) : P (restored old p) := by
  unfold restored
  split
  · rename_i hname
    split
    · rename_i j hj
      split
      · rename_i hassigned
        exact hattached j hname hj hassigned
      · split
        · exact hstopped _
        · exact hidle _
    · exact hfresh
  · exact hfresh

namespace Agent

/-- Stopping a camera reports it as stopped. -/
theorem stopRecordingProcess_sent (s : Agent) (c : Slot) :
    GrewBy (fun m => m.isCameraStatus = true → m = cameraStatus c (s.cam c).stopped) s.side.sent
      (s.stopRecordingProcess c).2.side.sent := by
  by_cases hpid : (s.cam c).workerPid = 0
  · rw [s.stopRecordingProcess_of_idle c hpid]
    exact .refl _
  · have hreports : GrewBy (fun m => m.isCameraStatus = true → m = cameraStatus c (s.cam c).stopped)
        s.side.sent ((s.terminate (s.cam c).workerPid).cameraRecordingJustStopped c).side.sent := by
      have hhelpers (t : Agent) : t.handleMetarec.handleSpaceMonitor.side.sent = t.side.sent :=
        helpers_sent t
      unfold cameraRecordingJustStopped
      dsimp only
      rw [hhelpers]
      refine ⟨[_, _], List.append_assoc .., ?_⟩
      intro m hm hstatus
      rcases List.mem_cons.mp hm with rfl | hm
      · rw [cam_modifyCam_self]
        rfl
      · obtain rfl := List.mem_singleton.mp hm
        cases hstatus
    unfold stopRecordingProcess
    simp only [ne_eq, hpid, not_false_eq_true, if_true]
    split <;> exact hreports

/-- Restoring a slot gives its camera what was saved of it. -/
theorem restoreCamera_cam (old : Slot → CamDef) (s : Agent) (i : Slot) :
    (restoreCamera old s i).cam i = restored old (s.cam i) := by
  unfold restoreCamera restored
  by_cases hname : (s.cam i).name = []
  · rw [if_neg (not_not.mpr hname), if_neg (not_not.mpr hname)]
  · rw [if_pos hname, if_pos hname]
    cases savedCamera old (s.cam i).name with
    | none => rfl
    | some j =>
      change (s.attachSaved i (old j)).cam i = _
      unfold attachSaved
      dsimp only
      rw [cam_modifyCam_self]
      split
      · rw [cam_modifyRuntime_self, cam_modifyCam_self]
        rfl
      · dsimp only
        split
        · rename_i hpid
          have hpid' : ((s.modifyCam i fun p => { p with workerPid := (old j).workerPid }).cam i).workerPid ≠ 0 := by
            rw [cam_modifyCam_self]
            exact Nat.ne_of_gt hpid
          rw [(stopRecordingProcess_of_worker _ i hpid').2.1, cam_modifyCam_self]
        · rw [cam_modifyCam_self]

/-- Restoring a slot reports its camera as it is afterwards. -/
theorem restoreCamera_sent (old : Slot → CamDef) (s : Agent) (i : Slot) :
    GrewBy (fun m => m.isCameraStatus = true → m = cameraStatus i (restored old (s.cam i)))
      s.side.sent (restoreCamera old s i).side.sent := by
  have hcam := restoreCamera_cam old s i
  have hreport (t : Agent) (ht : (t.sendCameraStatus i).cam i = restored old (s.cam i)) :
      GrewBy (fun m => m.isCameraStatus = true → m = cameraStatus i (restored old (s.cam i)))
        t.side.sent (t.sendCameraStatus i).side.sent :=
    .singleton (fun _ => congrArg (cameraStatus i) ht) rfl
  unfold restoreCamera at hcam ⊢
  by_cases hname : (s.cam i).name = []
  · rw [if_neg (not_not.mpr hname)]
    exact .refl _
  · rw [if_pos hname] at hcam ⊢
    cases hsaved : savedCamera old (s.cam i).name with
    | none =>
      rw [hsaved] at hcam
      exact hreport s hcam
    | some j =>
      rw [hsaved] at hcam
      refine GrewBy.trans ?_ (hreport _ hcam)
      change (s.attachSaved i (old j)).cam i = _ at hcam
      unfold attachSaved at hcam ⊢
      dsimp only at hcam ⊢
      split
      · exact .refl _
      · rename_i hassigned
        rw [if_neg hassigned] at hcam
        split
        · rename_i hpid
          rw [if_pos hpid] at hcam
          have hne : ((s.modifyCam i fun p => { p with workerPid := (old j).workerPid }).cam i).workerPid ≠ 0 := by
            omega
          rw [(stopRecordingProcess_of_worker _ i hne).2.1] at hcam
          have hsent := stopRecordingProcess_sent
            (s.modifyCam i fun p => { p with workerPid := (old j).workerPid }) i
          rw [hcam] at hsent
          exact hsent
        · exact .refl _

/-- Restoring a slot keeps the pids of the running workers apart. -/
theorem restoreCamera_ownPids (old : Slot → CamDef) {s : Agent} (h : OwnPids s) (i : Slot) :
    OwnPids (restoreCamera old s i) := by
  refine restoreCamera_preserves ?_ ?_ ?_ ?_ old h
  · intro t worker ht
    exact ⟨ht.nodup, ht.le⟩
  · intro t set ht
    exact ⟨ht.nodup, ht.le⟩
  · intro t ht
    exact (Evolves.stopRecordingProcess (c := i) t).ownPids ht
  · intro t ht
    exact ⟨ht.nodup, ht.le⟩

/-- After a SIGHUP every slot has its re-read camera with what was saved of it. -/
theorem handleSighup_cam (s : Agent) (config : Option Config) (opens : Bool) (i : Slot) :
    (s.handleSighup config opens).cam i = restored s.media.cameras ((s.reread config opens).cam i) := by
  refine foldl_establishes (fun i t => Agent.cam t i = (s.reread config opens).cam i)
    (fun i t => Agent.cam t i = restored s.media.cameras ((s.reread config opens).cam i))
    nodup_allSlots (fun _ _ => rfl) ?_ ?_ ?_ i (mem_allSlots i)
  · intro t d _ ht
    rw [restoreCamera_cam, ht]
  · intro t e _ d hd ht
    rw [(restoreCamera_frame _ t e).cam d hd]
    exact ht
  · intro t e _ d hd ht
    rw [(restoreCamera_frame _ t e).cam d hd]
    exact ht

/-- A SIGHUP reports the cameras as they are afterwards. -/
theorem handleSighup_sent (s : Agent) (config : Option Config) (opens : Bool) :
    GrewBy (fun m => m.isCameraStatus = true → ∃ i, m = cameraStatus i ((s.handleSighup config opens).cam i))
      s.side.sent (s.handleSighup config opens).side.sent := by
  have hreread : (s.reread config opens).side.sent = s.side.sent := by
    unfold reread camonInit
    cases config <;> cases opens <;> rfl
  let I : Agent → Prop := fun t => GrewBy (fun m => m.isCameraStatus = true →
    ∃ i, m = cameraStatus i ((s.handleSighup config opens).cam i)) s.side.sent t.side.sent
  refine foldl_invariant_of_nodup (I := I) (fun i t => Agent.cam t i = (s.reread config opens).cam i)
    nodup_allSlots (.of_eq hreread) (fun _ _ => rfl) ?_ ?_
  · intro t i _ ht hcam
    refine GrewBy.trans ht ((restoreCamera_sent s.media.cameras t i).mono fun m hm hstatus => ⟨i, ?_⟩)
    rw [hm hstatus, handleSighup_cam, hcam]
  · intro t e _ d hd ht
    rw [(restoreCamera_frame _ t e).cam d hd]
    exact ht

end Agent

end RecordingAgent.Reagent
