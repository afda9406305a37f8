import RecordingAgent.Reagent.Reattach

/-!
# What a re-read configuration leaks

`raconf_init` zeroes the media record before it looks for what the old one still holds, so
neither the old monitor socket nor a worker it does not re-attach is cleaned up. A re-read
therefore leaks nothing exactly when no monitor socket was open and every running worker is
the one that some camera of the new configuration takes over by name.
-/

namespace RecordingAgent.Reagent

open Foundation

namespace Agent

/-- The pids signalled between two states of one history. -/
def signalledSince (s s' : Agent) : List ℕ :=
  s'.recorders.signalled.drop s.recorders.signalled.length

/-- Every worker and monitor socket of the first state is kept by the second or was given up. -/
def LeakFree (s s' : Agent) : Prop :=
  (∀ p ∈ s.recorders.running,
      (∃ i : Slot, i.val < s'.media.nCameras ∧ (s'.cam i).workerPid = p) ∨ p ∈ signalledSince s s') ∧
    ∀ k ∈ s.sockets.opened, s'.media.camonSock = some k ∨ k ∉ s'.sockets.opened

/-- The names of the slots of a re-read configuration. -/
def rereadName (config : Option Config) (i : Slot) : CString :=
  match config with
  | some cfg => ((raconfInit cfg false false none).cameras i).name
  | none => []

/-- No monitor socket is open, and each running worker is saved under a re-read camera's name. -/
def TakesOver (s : Agent) (config : Option Config) : Prop :=
  s.sockets.opened = [] ∧
    ∀ p ∈ s.recorders.running, ∃ i, savedPid s.media.cameras (rereadName config i) = p

instance (s s' : Agent) : Decidable (LeakFree s s') := by unfold LeakFree; infer_instance

instance (s : Agent) (config : Option Config) : Decidable (s.TakesOver config) := by
  unfold TakesOver; infer_instance

/-- Workers have real process ids, and the next monitor socket is a new one. -/
structure Sound (s : Agent) : Prop where
  running : ∀ p ∈ s.recorders.running, p ≠ 0
  sockets : ∀ k ∈ s.sockets.opened, k < s.sockets.next

theorem Sound.frame {s s' : Agent} (h : s.Sound) {c : Slot} (hframe : Frame c s s') : s'.Sound := by
  refine ⟨fun p hp => ?_, by rw [hframe.sockets]; exact h.sockets⟩
  rcases hframe.running p hp with hold | hnew
  · exact h.running p hold
  · exact hnew

theorem Sound.handle {s : Agent} (h : s.Sound) (e : Event) : (s.handle e).Sound := by
  have hframes : ∀ c t t', Frame c t t' → t.Sound → t'.Sound := fun _ _ _ hf ht => ht.frame hf
  cases e with
  | readyStatus chm rssd => exact ⟨h.running, h.sockets⟩
  | shutdown f => cases f <;> exact ⟨h.running, h.sockets⟩
  | sighup config opens =>
    refine handleSighup_of_frames hframes ?_
    unfold reread camonInit
    cases config <;> cases opens
    · exact ⟨h.running, h.sockets⟩
    · exact ⟨h.running, h.sockets⟩
    · exact ⟨h.running, h.sockets⟩
    · refine ⟨h.running, fun k hk => ?_⟩
      rcases List.mem_cons.mp hk with rfl | hk
      · exact Nat.lt_succ_self _
      · exact Nat.lt_succ_of_lt (h.sockets k hk)
  | _ => exact handle_of_frames hframes h (by simp) (by simp) (by simp)

/-- Every reachable state is sound. -/
theorem Reachable.sound {s : Agent} (h : s.Reachable) : s.Sound := by
  obtain ⟨cfg, chmReady, rssdReady, opens, is, rfl⟩ := h
  refine run_invariant_of_step (I := Sound) (fun s i hs => ?_) ?_ is
  · unfold Agent.step
    split
    · have hs' : (s.withAnswers i.forks i.deaths).Sound := ⟨hs.running, hs.sockets⟩
      exact hs'.handle i.event
    · exact hs
  · refine ⟨by simp [start], fun k hk => ?_⟩
    cases opens <;> simp [start] at hk ⊢
    exact hk

/-- The slot holds its saved worker as a configured camera, or that worker was signalled since. -/
def Settled (s : Agent) (worker : ℕ) (i : Slot) (t : Agent) : Prop :=
  (t.cam i).workerPid = worker ∧ (worker ≠ 0 → i.val < t.media.nCameras) ∨
    (t.cam i).workerPid = 0 ∧ ∃ new, t.recorders.signalled = s.recorders.signalled ++ new ∧ worker ∈ new

/-- Only configured slots of a re-read configuration are assigned. -/
theorem reread_assigned {s : Agent} {config : Option Config} {opens : Bool} {i : Slot}
    (h : ((s.reread config opens).cam i).runtime.isAssigned = true) :
    i.val < (s.reread config opens).media.nCameras := by
  cases config with
  | none => cases h
  | some cfg =>
    have hinit : (if i.val < cfg.nCameras then (cfg.cameras i).init
        else (cfg.cameras i).raw).runtime.isAssigned = true → i.val < cfg.nCameras := by
      intro hassigned
      by_contra hge
      rw [if_neg hge] at hassigned
      cases hassigned
    cases opens <;> exact hinit h

/-- The names of the re-read slots are those of the configuration. -/
theorem reread_name (s : Agent) (config : Option Config) (opens : Bool) (i : Slot) :
    ((s.reread config opens).cam i).name = rereadName config i := by
  cases config <;> cases opens <;> rfl

/-- Restoring the saved cameras settles every slot. -/
theorem restore_settled (s : Agent) (config : Option Config) (opens : Bool) (i : Slot) :
    Settled s (savedPid s.media.cameras (rereadName config i)) i (s.handleSighup config opens) := by
  let r := s.reread config opens
  let Known : Slot → Agent → Prop := fun i t =>
    t.cam i = r.cam i ∧ t.media.nCameras = r.media.nCameras ∧
      ∃ new, t.recorders.signalled = s.recorders.signalled ++ new
  have hsignalled : r.recorders.signalled = s.recorders.signalled := by
    change (s.reread config opens).recorders.signalled = _
    unfold reread camonInit
    cases config <;> cases opens <;> rfl
  have hgrow : ∀ t j, (∃ new, t.recorders.signalled = s.recorders.signalled ++ new) →
      ∃ new, (restoreCamera s.media.cameras t j).recorders.signalled = s.recorders.signalled ++ new := by
    rintro t j ⟨new, hnew⟩
    obtain ⟨more, hmore, -⟩ := restoreCamera_signalled s.media.cameras t j
    exact ⟨new ++ more, by rw [hmore, hnew, List.append_assoc]⟩
  refine foldl_establishes Known
    (fun i t => Settled s (savedPid s.media.cameras (rereadName config i)) i t) nodup_allSlots
    (fun _ _ => ⟨rfl, rfl, [], by rw [hsignalled, List.append_nil]⟩) ?_ ?_ ?_ i (mem_allSlots i)
  · rintro t j - ⟨hcam, hn, new, hnew⟩
    have hpid : (t.cam j).workerPid = 0 := by
      rw [hcam]
      exact s.reread_workerPid config opens j
    have hname : (t.cam j).name = rereadName config j := by
      rw [hcam]
      exact s.reread_name config opens j
    rcases restoreCamera_effect s.media.cameras hpid with h | h <;> rw [hname] at h
    · refine Or.inl ⟨h.pid, fun hne => ?_⟩
      have hassigned := h.assigned hne
      rw [hcam] at hassigned
      rw [(restoreCamera_frame _ t j).nCameras, hn]
      exact reread_assigned hassigned
    · exact Or.inr ⟨h.pid, new ++ [savedPid s.media.cameras (rereadName config j)],
        by rw [h.signalled, hnew, List.append_assoc], by simp⟩
  · rintro t j - d hd ⟨hcam, hn, hnew⟩
    have hframe := restoreCamera_frame s.media.cameras t j
    exact ⟨(hframe.cam d hd).trans hcam, hframe.nCameras.trans hn, hgrow t j hnew⟩
  · rintro t j - d hd hdone
    have hframe := restoreCamera_frame s.media.cameras t j
    rcases hdone with ⟨hpid, hconf⟩ | ⟨hpid, new, hnew, hmem⟩
    · refine Or.inl ⟨?_, fun hne => ?_⟩
      · rw [hframe.cam d hd]
        exact hpid
      · rw [hframe.nCameras]
        exact hconf hne
    · obtain ⟨more, hmore, -⟩ := restoreCamera_signalled s.media.cameras t j
      refine Or.inr ⟨?_, new ++ more, by rw [hmore, hnew, List.append_assoc], List.mem_append_left _ hmem⟩
      rw [hframe.cam d hd]
      exact hpid

/-- A re-read configuration signals saved workers only. -/
theorem handleSighup_signalled (s : Agent) (config : Option Config) (opens : Bool) :
    ∃ new, (s.handleSighup config opens).recorders.signalled = s.recorders.signalled ++ new ∧
      ∀ p ∈ new, ∃ i, savedPid s.media.cameras (rereadName config i) = p := by
  let I : Agent → Prop := fun t =>
    (∀ i, (t.cam i).name = rereadName config i) ∧
      ∃ new, t.recorders.signalled = s.recorders.signalled ++ new ∧
        ∀ p ∈ new, ∃ i, savedPid s.media.cameras (rereadName config i) = p
  have hreread : I (s.reread config opens) := by
    refine ⟨s.reread_name config opens, [], ?_, by simp⟩
    cases config <;> cases opens <;> exact (List.append_nil _).symm
  refine (foldl_invariant (I := I) hreread ?_).2
  rintro t i - ⟨hnames, new, hnew, hsaved⟩
  obtain ⟨more, hmore, hworker⟩ := restoreCamera_signalled s.media.cameras t i
  refine ⟨fun j => ((restoreCamera_frame s.media.cameras t i).names j).trans (hnames j), new ++ more,
    by rw [hmore, hnew, List.append_assoc], fun p hp => ?_⟩
  rcases List.mem_append.mp hp with hp | hp
  · exact hsaved p hp
  · exact ⟨i, by rw [hworker p hp, hnames]⟩

/-- A re-read configuration closes no monitor socket, and its own is a new one. -/
theorem handleSighup_sockets {s : Agent} (h : s.Sound) (config : Option Config) (opens : Bool) :
    ∀ k ∈ s.sockets.opened, (s.handleSighup config opens).media.camonSock ≠ some k ∧
      k ∈ (s.handleSighup config opens).sockets.opened := by
  intro k hk
  refine handleSighup_of_frames (I := fun t => t.media.camonSock ≠ some k ∧ k ∈ t.sockets.opened)
    (fun c t t' hframe ht => by rw [hframe.camonSock, hframe.sockets]; exact ht) ?_
  have hlt := h.sockets k hk
  have hnew : some s.sockets.next ≠ some k := fun heq => absurd (Option.some.inj heq) (by omega)
  cases config with
  | none => exact ⟨by rintro ⟨⟩, hk⟩
  | some cfg =>
    cases opens with
    | false => exact ⟨by rintro ⟨⟩, hk⟩
    | true => exact ⟨hnew, List.mem_cons_of_mem _ hk⟩

/-- A re-read configuration leaks nothing exactly when no monitor socket was open and each running
worker is taken over by name. -/
theorem handleSighup_leakFree_iff (s : Agent) (h : s.Reachable) (config : Option Config)
    (opens : Bool) : LeakFree s (s.handleSighup config opens) ↔ s.TakesOver config := by
  have hsound := h.sound
  obtain ⟨new, hnew, hsaved⟩ := s.handleSighup_signalled config opens
  have hsince : signalledSince s (s.handleSighup config opens) = new := by
    rw [signalledSince, hnew, List.drop_left]
  have hsockets := handleSighup_sockets hsound config opens
  constructor
  · rintro ⟨hworkers, hsock⟩
    refine ⟨List.eq_nil_iff_forall_not_mem.mpr fun k hk => ?_, fun p hp => ?_⟩
    · rcases hsock k hk with hmine | hclosed
      · exact (hsockets k hk).1 hmine
      · exact hclosed (hsockets k hk).2
    · rcases hworkers p hp with ⟨i, -, hpid⟩ | hsignalled
      · rcases s.restore_settled config opens i with ⟨hattached, -⟩ | ⟨hzero, -⟩
        · exact ⟨i, hattached.symm.trans hpid⟩
        · exact absurd (hpid.symm.trans hzero) (hsound.running p hp)
      · rw [hsince] at hsignalled
        exact hsaved p hsignalled
  · rintro ⟨hnone, hworkers⟩
    refine ⟨fun p hp => ?_, by rw [hnone]; simp⟩
    obtain ⟨i, rfl⟩ := hworkers p hp
    rcases s.restore_settled config opens i with ⟨hattached, hconf⟩ | ⟨-, new', hnew', hmem⟩
    · exact Or.inl ⟨i, hconf (hsound.running _ hp), hattached⟩
    · right
      rw [signalledSince, hnew', List.drop_left]
      exact hmem

/-- A recording camera of an agent without a monitor socket is taken over by a configuration which
names it. -/
theorem handleSighup_leakFree_cab :
    LeakFree (run step (start (cabConfig true) true true false) cabRecording)
      ((run step (start (cabConfig true) true true false) cabRecording).handleSighup
        (some (cabConfig true)) true) :=
  (handleSighup_leakFree_iff _ ⟨_, _, _, _, _, rfl⟩ _ _).mpr (by decide)

/-- A re-read configuration without the recording camera leaks its worker and the monitor socket. -/
theorem handleSighup_leaks :
    ¬ LeakFree (run step (start (cabConfig true) true true true) cabRecording)
      ((run step (start (cabConfig true) true true true) cabRecording).handleSighup (some noCameras) true) := by
  decide

end Agent

end RecordingAgent.Reagent
