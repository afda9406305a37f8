import RecordingAgent.Reagent.StatusTruth
import RecordingAgent.Reagent.UsableDrive

/-!
# Whether a camera is marked as recording on an absent drive

A ready status copies the mode word of every camera with a worker into its status word, but
rebuilds the mode word only for cameras which are online and not paused. A mode word which
still names a drive that is reported unready then shows in the status word. In runs in which
no ready status meets such a camera, status words name ready drives only.
-/

namespace RecordingAgent.Reagent

open Foundation

/-- The status word names ready drives only. -/
structure OnReadyDrives (chmReady rssdReady : Bool) (p : CamDef) : Prop where
  chm : Has p.runtime.recordingStatusFlags (isRecordingChmVideo ||| isRecordingChmAudio) → chmReady = true
  rssd : Has p.runtime.recordingStatusFlags (isRecordingSsdVideo ||| isRecordingSsdAudio) → rssdReady = true

theorem recordingStatus_chm (mode : Flags) :
    Has (recordingStatus mode) (isRecordingChmVideo ||| isRecordingChmAudio) ↔ Has mode doRecordChmVideo := by
  unfold recordingStatus
  dsimp only
  split_ifs <;> simp only [*, iff_true, iff_false] <;> decide

theorem recordingStatus_ssd (mode : Flags) :
    Has (recordingStatus mode) (isRecordingSsdVideo ||| isRecordingSsdAudio) ↔ Has mode doRecordSsdVideo := by
  unfold recordingStatus
  dsimp only
  split_ifs <;> simp only [*, iff_true, iff_false] <;> decide

/-- The mode word of a camera that is to record on every ready drive names those. -/
theorem readyMode_drives (p : CamDef) (chmReady rssdReady : Bool) :
    (Has (readyMode p chmReady rssdReady) doRecordChmVideo → chmReady = true) ∧
      (Has (readyMode p chmReady rssdReady) doRecordSsdVideo → rssdReady = true) := by
  unfold readyMode
  cases chmReady <;> cases rssdReady <;> cases str2bool p.doAudio <;> decide

/-- Nothing is left on unready drives once their bits are dropped. -/
theorem dropUnready_drives (chmReady rssdReady : Bool) {f : Flags} (h : f ∈ statusWords) :
    (Has (dropUnready chmReady rssdReady f) (isRecordingChmVideo ||| isRecordingChmAudio) → chmReady = true) ∧
      (Has (dropUnready chmReady rssdReady f) (isRecordingSsdVideo ||| isRecordingSsdAudio) →
        rssdReady = true) := by
  have hdrop : ∀ f ∈ statusWords,
      (Has (dropUnready chmReady rssdReady f) (isRecordingChmVideo ||| isRecordingChmAudio) → chmReady = true) ∧
      (Has (dropUnready chmReady rssdReady f) (isRecordingSsdVideo ||| isRecordingSsdAudio) →
        rssdReady = true) := by
    rw [forall_statusWords]
    cases chmReady <;> cases rssdReady <;> decide
  exact hdrop f h

theorem OnReadyDrives.of_zero {chmReady rssdReady : Bool} {p : CamDef}
    (h : p.runtime.recordingStatusFlags = 0) : OnReadyDrives chmReady rssdReady p :=
  ⟨fun hhas => absurd hhas (h ▸ not_has_zero _), fun hhas => absurd hhas (h ▸ not_has_zero _)⟩

/-- A record in order: its word is backed and names ready drives, and is zero in a slot which is
not configured. -/
structure RecordsOnReady (chmReady rssdReady : Bool) (nCameras : ℕ) (d : Slot) (p : CamDef) : Prop where
  backed : StatusBacked p
  drives : OnReadyDrives chmReady rssdReady p
  unconfigured : nCameras ≤ d.val → p.runtime.isAssigned = false ∧ p.runtime.recordingStatusFlags = 0

namespace RecordsOnReady

variable {chmReady rssdReady : Bool} {n : ℕ} {d : Slot} {p p' : CamDef}

/-- The record stays in order while its status word and worker stay and it is not assigned anew. -/
theorem congr (h : RecordsOnReady chmReady rssdReady n d p) (hpid : p'.workerPid = p.workerPid)
    (hstatus : p'.runtime.recordingStatusFlags = p.runtime.recordingStatusFlags)
    (hassigned : p'.runtime.isAssigned = true → p.runtime.isAssigned = true) :
    RecordsOnReady chmReady rssdReady n d p' := by
  refine ⟨h.backed.congr hpid hstatus, ⟨hstatus ▸ h.drives.chm, hstatus ▸ h.drives.rssd⟩, fun hd => ?_⟩
  obtain ⟨hunassigned, hzero⟩ := h.unconfigured hd
  refine ⟨Bool.eq_false_iff.mpr fun htrue => ?_, hstatus.trans hzero⟩
  rw [hassigned htrue] at hunassigned
  cases hunassigned

theorem of_zero (hzero : p.runtime.recordingStatusFlags = 0)
    (hassigned : n ≤ d.val → p.runtime.isAssigned = false) : RecordsOnReady chmReady rssdReady n d p :=
  ⟨.of_zero hzero, .of_zero hzero, fun hd => ⟨hassigned hd, hzero⟩⟩

theorem adjusted {launches : Flags → Prop} (hstep : Adjusted chmReady rssdReady launches p p')
    (h : RecordsOnReady chmReady rssdReady n d p) :
    RecordsOnReady chmReady rssdReady n d p' := by
  cases hstep with
  | aside hsame => exact h.congr hsame.workerPid hsame.recordingStatusFlags hsame.isAssigned
  | stopped => exact .of_zero (stopped_status h.backed.word) fun hd => (h.unconfigured hd).1
  | paused => exact h.congr rfl rfl id
  | resumed => exact h.congr rfl rfl id
  | commanded => exact h.congr rfl rfl id
  | limited => exact h.congr rfl rfl id
  | launched hpid hidle hassigned hready =>
    refine ⟨⟨recordingStatus_mem _, fun _ => hpid⟩, ⟨fun hchm => ?_, fun hssd => ?_⟩, fun hd => ?_⟩
    · exact hready ((launchMode_chmVideo rssdReady p).mp ((recordingStatus_chm _).mp hchm))
    · exact (launchMode_ssdVideo rssdReady p).mp ((recordingStatus_ssd _).mp hssd)
    · have hunassigned := (h.unconfigured hd).1
      rw [hassigned] at hunassigned
      cases hunassigned

/-- A ready status is copied into the status word of a camera with a worker; a mode word which it
does not rebuild has to name drives it reports ready. -/
theorem readyCamera {chm rssd : Bool} (h : RecordsOnReady chmReady rssdReady n d p) (hd : d.val < n)
    (hmode : p.workerPid ≠ 0 → ¬ (p.runtime.isOnline = true ∧ p.runtime.commandedPaused = false) →
      (Has p.runtime.recordingModeFlags doRecordChmVideo → chm = true) ∧
        (Has p.runtime.recordingModeFlags doRecordSsdVideo → rssd = true)) :
    RecordsOnReady chm rssd n d (Agent.readyCamera chm rssd p) := by
  refine ⟨h.backed.readyCamera chm rssd, ?_, fun hn => absurd hd (by omega)⟩
  by_cases hpid : p.workerPid > 0
  · have hnames : (Has (Agent.readyCamera chm rssd p).runtime.recordingModeFlags doRecordChmVideo → chm = true) ∧
        (Has (Agent.readyCamera chm rssd p).runtime.recordingModeFlags doRecordSsdVideo → rssd = true) := by
      unfold Agent.readyCamera
      dsimp only
      split
      · exact readyMode_drives p chm rssd
      · rename_i hkept
        exact hmode (Nat.ne_of_gt hpid) hkept
    have hstatus : (Agent.readyCamera chm rssd p).runtime.recordingStatusFlags =
        recordingStatus (Agent.readyCamera chm rssd p).runtime.recordingModeFlags := if_pos hpid
    constructor
    · rw [hstatus, recordingStatus_chm]
      exact hnames.1
    · rw [hstatus, recordingStatus_ssd]
      exact hnames.2
  · refine .of_zero ?_
    have hkept : (Agent.readyCamera chm rssd p).runtime.recordingStatusFlags =
        p.runtime.recordingStatusFlags := if_neg hpid
    by_contra hne
    exact hpid (Nat.pos_of_ne_zero (h.backed.worker (hkept ▸ hne)))

theorem shutdownCamera {chm rssd : Bool} (h : RecordsOnReady chmReady rssdReady n d p) (hd : d.val < n) :
    RecordsOnReady chm rssd n d (Agent.shutdownCamera chm rssd p) :=
  ⟨h.backed.shutdownCamera chm rssd, ⟨(dropUnready_drives chm rssd h.backed.word).1,
    (dropUnready_drives chm rssd h.backed.word).2⟩, fun hn => absurd hd (by omega)⟩

/-- A slot which is not configured records nothing, whatever is reported ready. -/
theorem of_unconfigured {chm rssd : Bool} (h : RecordsOnReady chmReady rssdReady n d p) (hd : n ≤ d.val) :
    RecordsOnReady chm rssd n d p :=
  .of_zero (h.unconfigured hd).2 fun _ => (h.unconfigured hd).1

/-- A fresh camera which takes over what was saved of a record in order is in order. -/
theorem restored {old : Slot → CamDef} {m : ℕ} (hold : ∀ j, RecordsOnReady chmReady rssdReady m j (old j))
    (h : Fresh p) (hassigned : n ≤ d.val → p.runtime.isAssigned = false) :
    RecordsOnReady chmReady rssdReady n d (Reagent.restored old p) := by
  have hfresh : RecordsOnReady chmReady rssdReady n d p := .of_zero h.recordingStatusFlags hassigned
  refine restored_of_cases hfresh (fun j _ _ htrue => ?_)
    (fun _ => .of_zero (stopped_status hfresh.backed.word) hassigned)
    fun _ => .of_zero h.recordingStatusFlags hassigned
  refine ⟨⟨(hold j).backed.word, (hold j).backed.worker⟩, ⟨(hold j).drives.chm, (hold j).drives.rssd⟩,
    fun hd => ?_⟩
  rw [hassigned hd] at htrue
  cases htrue

end RecordsOnReady

namespace Agent

/-- Every record is in order with the drives as they are. -/
def AllOnReady (s : Agent) : Prop :=
  ∀ d, RecordsOnReady s.media.isChmReady s.media.isRssdReady s.media.nCameras d (s.cam d)

/-- A ready status does not meet a configured camera with a worker which is offline or paused and
whose mode word names a drive that it reports unready. -/
def ReadyFitsModes (s : Agent) (i : Input) : Prop :=
  match i.event with
  | .readyStatus chm rssd => ∀ c : Slot, c.val < s.media.nCameras → (s.cam c).workerPid ≠ 0 →
      ¬ ((s.cam c).runtime.isOnline = true ∧ (s.cam c).runtime.commandedPaused = false) →
      (Has (s.cam c).runtime.recordingModeFlags doRecordChmVideo → chm ≠ 0) ∧
        (Has (s.cam c).runtime.recordingModeFlags doRecordSsdVideo → rssd ≠ 0)
  | _ => True

instance (s : Agent) (i : Input) : Decidable (s.ReadyFitsModes i) := by
  obtain ⟨e, forks, deaths⟩ := i
  apply Event.casesOn (motive := fun e => Decidable (s.ReadyFitsModes ⟨e, forks, deaths⟩)) e <;> intros <;> unfold ReadyFitsModes <;>
    infer_instance

theorem allOnReady_start (cfg : Config) (chmReady rssdReady opens : Bool) :
    (start cfg chmReady rssdReady opens).AllOnReady := by
  intro d
  have hinit : RecordsOnReady chmReady rssdReady cfg.nCameras d
      (if d.val < cfg.nCameras then (cfg.cameras d).init else (cfg.cameras d).raw) := by
    split
    · exact .of_zero rfl fun hd => by omega
    · exact .of_zero rfl fun _ => rfl
  exact hinit

theorem AllOnReady.handle {s : Agent} (h : s.AllOnReady) {i : Input} (hfits : s.ReadyFitsModes i) :
    (s.handle i.event).AllOnReady := by
  unfold AllOnReady
  cases s.handle_handled i.event with
  | evolved _ hall =>
    rw [hall.isChmReady, hall.isRssdReady, hall.nCameras]
    exact (hall.invariant h fun d _ _ hstep hp => hp.adjusted hstep).1
  | settings d c _ _ hrw hchm hrssd =>
    intro e
    rw [hchm, hrssd, hrw.nCameras, hrw.cam]
    split
    · exact (h e).congr rfl rfl id
    · exact h e
  | ready chm rssd he hrw hchm hrssd =>
    intro e
    rw [ReadyFitsModes, he] at hfits
    rw [hchm, hrssd, hrw.nCameras, hrw.cam]
    split
    · rename_i hconfigured
      refine (h e).readyCamera hconfigured fun hpid hkept => ?_
      obtain ⟨hchm', hrssd'⟩ := hfits e hconfigured hpid hkept
      exact ⟨fun hhas => decide_eq_true (hchm' hhas), fun hhas => decide_eq_true (hrssd' hhas)⟩
    · exact (h e).of_unconfigured (by omega)
  | shutdown f _ hrw hchm hrssd =>
    intro e
    rw [hrw.nCameras, hrw.cam]
    split
    · rename_i hconfigured
      exact (h e).shutdownCamera hconfigured
    · exact (h e).of_unconfigured (by omega)
  | sighup config opens _ hcam _ _ _ hn hchm hrssd =>
    intro e
    rw [hchm, hrssd, hn, hcam]
    exact .restored h (s.reread_fresh config opens e) (s.reread_unassigned config opens)

theorem AllOnReady.step {s : Agent} (h : s.AllOnReady) {i : Input} (hfits : s.ReadyFitsModes i) :
    (s.step i).AllOnReady := by
  unfold Agent.step
  split
  · exact AllOnReady.handle (s := s.withAnswers i.forks i.deaths) h hfits
  · exact h

/-- In a run whose ready statuses fit the mode words they do not rebuild, the status word of every
configured camera names ready drives only. -/
theorem run_onReadyDrives (cfg : Config) (chmReady rssdReady opens : Bool) (is : List Input)
    (hfits : Guarded step ReadyFitsModes (start cfg chmReady rssdReady opens) is) (c : Slot)
    (_ : c.val < (run step (start cfg chmReady rssdReady opens) is).media.nCameras) :
    OnReadyDrives (run step (start cfg chmReady rssdReady opens) is).media.isChmReady
      (run step (start cfg chmReady rssdReady opens) is).media.isRssdReady
      ((run step (start cfg chmReady rssdReady opens) is).cam c) := by
  have hall := run_invariant (I := AllOnReady) (fun _ _ h hi => h.step hi)
    (allOnReady_start cfg chmReady rssdReady opens) hfits
  exact (hall c).drives

/-- A camera which records on both drives is marked as recording on the CHM only when a ready status
no longer reports the SSD. -/
theorem run_onReadyDrives_cab :
    OnReadyDrives true false ((run step (start (cabConfig true) true true true)
      (cabRecording ++ [Event.quiet (.readyStatus 1 0)])).cam 0) :=
  run_onReadyDrives (cabConfig true) true true true (cabRecording ++ [Event.quiet (.readyStatus 1 0)])
    (by decide) 0 (by decide)

/-- Settings which ask for audio but not for the CHM. -/
def audioOnly : CameraSettings := ⟨['C', 'A', 'B'], 1, 1, 1, 0, 0, 1⟩

/-- A paused camera which settings made the timer start again keeps the CHM in its words when a ready
status reports the CHM unready. -/
theorem run_not_onReadyDrives :
    ∃ s : Agent, s.Reachable ∧ ((0 : Slot).val < s.media.nCameras) ∧
      ¬ OnReadyDrives s.media.isChmReady s.media.isRssdReady (s.cam 0) :=
  ⟨run step (start (cabConfig true) true true true) (cabRecording ++
      [Event.quiet (.cameraRecordPause ['C', 'A', 'B'] 0), Event.quiet (.cameraSettings audioOnly)] ++
      List.replicate 15 cabTick ++ [Event.quiet (.readyStatus 0 1)]),
    ⟨cabConfig true, true, true, true, _, rfl⟩, by decide +kernel,
    fun h => absurd (h.chm (by decide +kernel)) (by decide +kernel)⟩

end Agent

end RecordingAgent.Reagent
