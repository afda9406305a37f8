import RecordingAgent.Reagent.StartPoints

/-!
# Whether a started worker has a drive to record on

A start commands the SSD, and the CHM for an essential camera or one whose mode word already
has it. It refuses when the CHM is commanded and not ready, but it drops the SSD bits of an
SSD which is not ready without looking at what is left. So every drive on a worker's command
line is ready, and a worker has at least one exactly when its camera has a target: it is
essential, its mode word has the CHM, or the SSD is ready.
-/

namespace RecordingAgent.Reagent

open Foundation

/-- The worker's flag word names a drive for video, and only drives which were ready. -/
def Spawn.Usable (sp : Spawn) : Prop :=
  (Has sp.command.recordFlags doRecordChmVideo ∨ Has sp.command.recordFlags doRecordSsdVideo) ∧
    (Has sp.command.recordFlags doRecordChmVideo → sp.chmReady = true) ∧
    (Has sp.command.recordFlags doRecordSsdVideo → sp.rssdReady = true)

instance (sp : Spawn) : Decidable sp.Usable := by unfold Spawn.Usable; infer_instance

/-- A start of the camera would leave it a drive, if it goes through. -/
def Agent.HasTarget (s : Agent) (c : Slot) : Prop :=
  (s.cam c).runtime.isEssential ≠ 0 ∨ Has (s.cam c).runtime.recordingModeFlags doRecordChmVideo ∨
    s.media.isRssdReady = true

instance (s : Agent) (c : Slot) : Decidable (s.HasTarget c) := by unfold Agent.HasTarget; infer_instance

/-- A start always commands SSD video. -/
theorem recordingMode_ssdVideo (p : CamDef) : Has (recordingMode p) doRecordSsdVideo := by
  have hssd : Has doRecordSsdVideo doRecordSsdVideo := by decide
  unfold recordingMode
  dsimp only
  split <;> simp [has_or, hssd]

/-- A start commands CHM video for an essential camera, and where the mode word has it. -/
theorem recordingMode_chmVideo (p : CamDef) :
    Has (recordingMode p) doRecordChmVideo ↔
      p.runtime.isEssential ≠ 0 ∨ Has p.runtime.recordingModeFlags doRecordChmVideo := by
  have hchm : Has doRecordChmVideo doRecordChmVideo := by decide
  have haudio : ¬ Has doRecordChmAudio doRecordChmVideo := by decide
  have hssd : ¬ Has doRecordSsdVideo doRecordChmVideo := by decide
  have hssdAudio : ¬ Has doRecordSsdAudio doRecordChmVideo := by decide
  have hdont : ¬ Has dontUseChm doRecordChmVideo := by decide
  unfold recordingMode
  dsimp only
  by_cases hessential : p.runtime.isEssential ≠ 0
  · split <;> simp [hessential, has_or, hchm]
  · split <;> simp [hessential, has_or, hssd, hssdAudio, hdont]

/-- The launch mode word keeps what a start commands on the CHM. -/
theorem launchMode_chmVideo (rssdReady : Bool) (p : CamDef) :
    Has (launchMode rssdReady p) doRecordChmVideo ↔ Has (recordingMode p) doRecordChmVideo := by
  unfold launchMode
  split
  · exact has_clear_of_disjoint (by decide) _
  · rfl

/-- The launch mode word has SSD video exactly when the SSD is ready. -/
theorem launchMode_ssdVideo (rssdReady : Bool) (p : CamDef) :
    Has (launchMode rssdReady p) doRecordSsdVideo ↔ rssdReady = true := by
  unfold launchMode
  cases rssdReady with
  | false =>
    simp only [recordingMode_ssdVideo, true_and, if_true, Bool.false_eq_true, iff_false]
    exact not_has_clear (by decide) _
  | true => simp [recordingMode_ssdVideo]

/-- Every drive on a launched worker's command line was ready. -/
theorem LaunchedFrom.drives_ready {c : Slot} {s : Agent} {sp : Spawn} (h : LaunchedFrom c s sp) :
    (Has sp.command.recordFlags doRecordChmVideo → sp.chmReady = true) ∧
      (Has sp.command.recordFlags doRecordSsdVideo → sp.rssdReady = true) := by
  constructor
  · rw [h.recordFlags, h.chmReady, launchMode_chmVideo]
    exact h.chm_ready
  · rw [h.recordFlags, h.rssdReady, launchMode_ssdVideo]
    exact id

/-- A launched worker is usable exactly when its camera had a target. -/
theorem LaunchedFrom.usable_iff {c : Slot} {s : Agent} {sp : Spawn} (h : LaunchedFrom c s sp) :
    sp.Usable ↔ s.HasTarget c := by
  have hvideo : (Has sp.command.recordFlags doRecordChmVideo ∨
      Has sp.command.recordFlags doRecordSsdVideo) ↔ s.HasTarget c := by
    rw [h.recordFlags, launchMode_chmVideo, launchMode_ssdVideo, recordingMode_chmVideo, or_assoc]
    rfl
  rw [Spawn.Usable, hvideo]
  exact and_iff_left h.drives_ready

namespace Agent

/-- Every camera the input starts while it has no worker has a target. -/
def StartsHaveTarget (s : Agent) (i : Input) : Prop :=
  ∀ p ∈ (s.withAnswers i.forks i.deaths).startPoints i.event, p.1.HasTarget p.2

instance (s : Agent) (i : Input) : Decidable (s.StartsHaveTarget i) := by
  unfold StartsHaveTarget; infer_instance

/-- A step whose starts have a target adds only usable workers. -/
theorem step_usable (s : Agent) (i : Input) (hold : ∀ sp ∈ s.recorders.spawned, sp.Usable)
    (htarget : s.StartsHaveTarget i) : ∀ sp ∈ (s.step i).recorders.spawned, sp.Usable := by
  unfold step
  split
  · refine ((s.withAnswers i.forks i.deaths).handle_grewFrom i.event).forall hold ?_
    exact fun p hp sp hlaunch => hlaunch.usable_iff.mpr (htarget p hp)
  · exact hold

/-- In a run whose starts all have a target, every worker started was usable. -/
theorem run_spawned_usable (cfg : Config) (chmReady rssdReady opens : Bool) (is : List Input)
    (htarget : Guarded step StartsHaveTarget (start cfg chmReady rssdReady opens) is) :
    ∀ sp ∈ (run step (start cfg chmReady rssdReady opens) is).recorders.spawned, sp.Usable :=
  run_invariant (I := fun s : Agent => ∀ sp ∈ s.recorders.spawned, sp.Usable)
    (fun s i hold hi => s.step_usable i hold hi) (by simp [start]) htarget

/-- With the SSD ready, a camera which comes online and is commanded to record gets a usable worker. -/
theorem run_spawned_usable_cab :
    (run step (start (cabConfig false) false true true) cabRecording).recorders.spawned.length = 1 ∧
      ∀ sp ∈ (run step (start (cabConfig false) false true true) cabRecording).recorders.spawned, sp.Usable :=
  ⟨by decide, run_spawned_usable _ _ _ _ _ (by decide)⟩

/-- With only the CHM ready, the worker of a camera that is not essential has no drive at all. -/
theorem run_spawned_unusable :
    ¬ ∀ sp ∈ (run step (start (cabConfig false) true false true) cabRecording).recorders.spawned, sp.Usable := by
  decide

end Agent

end RecordingAgent.Reagent
