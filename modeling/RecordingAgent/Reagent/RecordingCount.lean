import RecordingAgent.Foundation.Counting
import RecordingAgent.Reagent.Reattach

/-!
# Whether the number of recording cameras is exact

`nCamsRecording` goes up where a worker is started and down where one is given up, so it
stays the number of configured cameras with a worker through every message and timer pass.
A re-read configuration keeps the number but re-attaches workers by name: it stays exact as
long as every camera with a worker is still named.

A configuration is valid when its named cameras come first and have different names.
-/

namespace RecordingAgent.Reagent

open Foundation

/-- Named cameras come first, and no two of them share their padded name. -/
structure Config.Valid (cfg : Config) : Prop where
  named_first : ∀ i : Slot, cfg.nCameras ≤ i.val → (cfg.cameras i).name = []
  distinct : ∀ i j : Slot, i.val < cfg.nCameras → j.val < cfg.nCameras →
    padUnderscores (cfg.cameras i).name cameraNameLength =
      padUnderscores (cfg.cameras j).name cameraNameLength → i = j

instance (cfg : Config) : Decidable cfg.Valid :=
  decidable_of_iff ((∀ i : Slot, cfg.nCameras ≤ i.val → (cfg.cameras i).name = []) ∧
    ∀ i j : Slot, i.val < cfg.nCameras → j.val < cfg.nCameras →
      padUnderscores (cfg.cameras i).name cameraNameLength =
        padUnderscores (cfg.cameras j).name cameraNameLength → i = j)
    ⟨fun h => ⟨h.1, h.2⟩, fun h => ⟨h.1, h.2⟩⟩

/-- The number of configured cameras which have a worker. -/
def MediaInfo.camsWithWorker (m : MediaInfo) : ℕ :=
  m.configured.countP fun i => (m.cameras i).workerPid ≠ 0

/-- The number of recording cameras is that of the configured cameras with a worker, so it is zero
exactly when none has one. -/
def Agent.CountExact (s : Agent) : Prop :=
  s.media.nCamsRecording = s.media.camsWithWorker ∧
    (s.media.nCamsRecording = 0 ↔ ∀ i ∈ s.media.configured, (s.cam i).workerPid = 0)

instance (s : Agent) : Decidable s.CountExact := by unfold Agent.CountExact; infer_instance

/-- The configured cameras have different names of full length, the other slots none. -/
structure MediaInfo.Named (m : MediaInfo) : Prop where
  length : ∀ i : Slot, i.val < m.nCameras → (m.cameras i).name.length = cameraNameLength
  unnamed : ∀ i : Slot, m.nCameras ≤ i.val → (m.cameras i).name = []
  distinct : ∀ i j : Slot, i.val < m.nCameras → j.val < m.nCameras →
    (m.cameras i).name = (m.cameras j).name → i = j

namespace Agent

/-- The count is exact, and only named cameras have workers. -/
structure Counted (s : Agent) : Prop where
  named : s.media.Named
  idle : ∀ i : Slot, s.media.nCameras ≤ i.val → (s.cam i).workerPid = 0
  count : s.media.nCamsRecording = slotCount fun i => (s.cam i).workerPid ≠ 0

/-- When only configured cameras have workers, they are the ones counted. -/
theorem Counted.exact {s : Agent} (h : s.Counted) : s.CountExact := by
  have hcount : s.media.nCamsRecording = s.media.camsWithWorker := by
    rw [h.count, slotCount, MediaInfo.camsWithWorker, MediaInfo.configured, List.countP_filter]
    refine List.countP_congr fun i _ => ?_
    rw [decide_eq_true_iff, Bool.and_eq_true, decide_eq_true_iff, decide_eq_true_iff]
    exact ⟨fun hpid => ⟨hpid, not_le.mp fun hle => hpid (h.idle i hle)⟩, fun hpid => hpid.1⟩
  refine ⟨hcount, ?_⟩
  rw [hcount, MediaInfo.camsWithWorker, List.countP_eq_zero]
  simp [Agent.cam]

/-- An operation on one configured camera which keeps, gives up or starts its worker keeps the
count exact. -/
theorem Counted.move {s s' : Agent} (h : s.Counted) {c : Slot} (hc : c.val < s.media.nCameras)
    (hframe : Frame c s s')
    (heffect : WorkerKept c s s' ∨ WorkerLost c s s' ∨ WorkerStarted c s s') : s'.Counted := by
  have hchange := slotCount_change (p := fun i => (s.cam i).workerPid ≠ 0)
    (q := fun i => (s'.cam i).workerPid ≠ 0) c fun i hi => by rw [hframe.cam i hi]
  refine ⟨⟨?_, ?_, ?_⟩, ?_, ?_⟩
  · intro i hi
    rw [hframe.nCameras] at hi
    exact (congrArg List.length (hframe.names i)).trans (h.named.length i hi)
  · intro i hi
    rw [hframe.nCameras] at hi
    exact (hframe.names i).trans (h.named.unnamed i hi)
  · intro i j hi hj hij
    rw [hframe.nCameras] at hi hj
    exact h.named.distinct i j hi hj ((hframe.names i).symm.trans (hij.trans (hframe.names j)))
  · intro i hi
    rw [hframe.nCameras] at hi
    rw [hframe.cam i (fun hic => absurd hc (not_lt.mpr (hic ▸ hi)))]
    exact h.idle i hi
  · rcases heffect with ⟨hpid, hcount, -⟩ | ⟨hbefore, hpid, hcount, -⟩ | ⟨hbefore, hpid, hcount, -⟩
    · rw [hpid] at hchange
      rw [hcount, h.count]
      omega
    · simp only [hbefore, hpid, not_true_eq_false, not_false_eq_true, ne_eq, if_true, if_false] at hchange
      rw [hcount, h.count]
      simp only [ne_eq] at hchange ⊢
      omega
    · simp only [hbefore, hpid, not_true_eq_false, not_false_eq_true, ne_eq, if_true, if_false] at hchange
      rw [hcount, h.count]
      simp only [ne_eq] at hchange ⊢
      omega

/-- A change which keeps names, workers and the count keeps it exact. -/
theorem Counted.plain {s s' : Agent} (h : s.Counted) (hn : s'.media.nCameras = s.media.nCameras)
    (hcount : s'.media.nCamsRecording = s.media.nCamsRecording)
    (hname : ∀ i, (s'.cam i).name = (s.cam i).name)
    (hpid : ∀ i, (s'.cam i).workerPid = (s.cam i).workerPid) : s'.Counted := by
  refine ⟨⟨?_, ?_, ?_⟩, ?_, ?_⟩
  · intro i hi
    exact (congrArg List.length (hname i)).trans (h.named.length i (hn ▸ hi))
  · intro i hi
    exact (hname i).trans (h.named.unnamed i (hn ▸ hi))
  · intro i j hi hj hij
    exact h.named.distinct i j (hn ▸ hi) (hn ▸ hj) ((hname i).symm.trans (hij.trans (hname j)))
  · intro i hi
    exact (hpid i).trans (h.idle i (hn ▸ hi))
  · rw [hcount, h.count]
    exact slotCount_congr fun i => by rw [hpid i]

/-- A change which leaves the media record alone keeps the count exact. -/
theorem Counted.of_media {s s' : Agent} (h : s.Counted) (hmedia : s'.media = s.media) : s'.Counted :=
  h.plain (by rw [hmedia]) (by rw [hmedia]) (fun i => by rw [cam, hmedia, cam])
    (fun i => by rw [cam, hmedia, cam])

/-- A record/pause command keeps the count exact. -/
theorem Counted.handleCameraRecordPause {s : Agent} (h : s.Counted) (camera : CString) (record : ℕ) :
    (s.handleCameraRecordPause camera record).2.Counted := by
  rcases s.handleCameraRecordPause_cases camera record with hidle | ⟨c, hfind, ⟨-, heq⟩ | ⟨-, heq⟩⟩
  · exact h.of_media hidle.media
  · have hc := (raconfFindCamera_some hfind).1
    have hset := h.move hc (.modifyRuntime s paused) (Or.inl (s.modifyRuntime_kept c paused))
    rw [heq]
    exact hset.move hc (.stopRecordingProcess _)
      ((stopRecordingProcess_effect _ c).imp_right Or.inl)
  · have hc := (raconfFindCamera_some hfind).1
    have hset := h.move hc (.modifyRuntime s resumed) (Or.inl (s.modifyRuntime_kept c resumed))
    rw [heq]
    exact hset.move hc (.startRecordingProcess _)
      ((startRecordingProcess_effect _ c).imp_right Or.inr)

/-- A parameter change keeps the count exact. -/
theorem Counted.changeParameter {s : Agent} (h : s.Counted) (camera : CString)
    (set : CamRuntime → CamRuntime) (error : VideoApplicationError) :
    (s.changeParameter camera set error).Counted := by
  unfold Agent.changeParameter
  split
  · exact h
  · rename_i c hfind
    have hset := h.move (raconfFindCamera_some hfind).1 (.modifyRuntime s set)
      (Or.inl (s.modifyRuntime_kept c set))
    have hpaused := hset.handleCameraRecordPause
      ((camera.take cameraNameLength).take cameraNameLength) 0
    have hresumed := hpaused.handleCameraRecordPause
      ((camera.take cameraNameLength).take cameraNameLength) 1
    have hreset : ((s.modifyRuntime c set).resetCameraStream (camera.take cameraNameLength)).2.Counted := by
      unfold resetCameraStream
      dsimp only
      split
      · exact hpaused
      · split <;> exact hresumed
    dsimp only
    split
    · exact hreset.of_media rfl
    · exact hreset

/-- A timer pass keeps the count exact. -/
theorem Counted.timerCallback {s : Agent} (h : s.Counted) (answers : List CamonStatus)
    (arp : Slot → Option CString) : (s.timerCallback answers arp).Counted := by
  have hmonitor : (s.camonPass answers arp).Counted ∧
      (s.camonPass answers arp).media.nCameras = s.media.nCameras := by
    refine camonPass_invariant (I := fun t => t.Counted ∧ t.media.nCameras = s.media.nCameras)
      ⟨h, rfl⟩ (fun t _ _ ht => ⟨ht.1.of_media rfl, ht.2⟩) ?_
    rintro t c hc ⟨ht, hn⟩
    have hframe := Frame.reflectProbe (c := c) arp t
    refine ⟨ht.move ?_ hframe ((t.reflectProbe_effect c arp).imp_right Or.inl), hframe.nCameras.trans hn⟩
    rw [hn]
    exact s.media.mem_configured c |>.mp hc
  have hrestart : ∀ u : Agent, u.Counted → u.restartPass.Counted := by
    intro u hu
    refine (restartPass_invariant (I := fun t => t.Counted ∧ t.media.nCameras = u.media.nCameras)
      ⟨hu, rfl⟩ (fun t ht => ⟨ht.1.of_media rfl, ht.2⟩) ?_).1
    rintro t c hc ⟨ht, hn⟩
    have hframe := Frame.restartCamera (c := c) t
    refine ⟨ht.move ?_ hframe ?_, hframe.nCameras.trans hn⟩
    · rw [hn]
      exact u.media.mem_configured c |>.mp hc
    · exact (t.restartCamera_effect c).imp_right (Or.imp_right And.right)
  exact hrestart _ hmonitor.1

/-- A change of every camera which keeps names and workers keeps the count exact. -/
theorem Counted.mapCameras {s : Agent} (h : s.Counted) {f : CamDef → CamDef}
    (hname : ∀ p, (f p).name = p.name) (hpid : ∀ p, (f p).workerPid = p.workerPid) :
    (s.mapCameras f).Counted := by
  refine h.plain rfl rfl (fun i => ?_) (fun i => ?_)
  · change (if i.val < s.media.nCameras then f (s.cam i) else s.cam i).name = (s.cam i).name
    split
    · exact hname _
    · rfl
  · change (if i.val < s.media.nCameras then f (s.cam i) else s.cam i).workerPid = (s.cam i).workerPid
    split
    · exact hpid _
    · rfl

/-- A settings message keeps the count exact. -/
theorem Counted.msgcbCameraSettings {s : Agent} (h : s.Counted) (d : CameraSettings) :
    (s.msgcbCameraSettings d).Counted := by
  unfold Agent.msgcbCameraSettings
  split
  · rename_i c hfind
    exact h.move (raconfFindCamera_some hfind).1 (.modifyRuntime _ _) (Or.inl (modifyRuntime_kept _ c _))
  · exact h.of_media rfl

/-- A ready status keeps the count exact. -/
theorem Counted.msgcbReadyStatus {s : Agent} (h : s.Counted) (chm rssd : ℕ) :
    (s.msgcbReadyStatus chm rssd).Counted := by
  have hset : (s.setReady (chm ≠ 0) (rssd ≠ 0)).Counted :=
    h.plain rfl rfl (fun _ => rfl) (fun _ => rfl)
  have hmap := hset.mapCameras (f := readyCamera (decide (chm ≠ 0)) (decide (rssd ≠ 0)))
    (fun _ => rfl) (fun _ => rfl)
  exact hmap.of_media rfl

/-- A shutdown message keeps the count exact. -/
theorem Counted.msgcbShutdownRec {s : Agent} (h : s.Counted) (f : ShutdownFunction) :
    (s.msgcbShutdownRec f).Counted := by
  unfold Agent.msgcbShutdownRec
  split
  · rename_i t hdrives
    have ht : t.Counted := by
      cases f with
      | other => cases hdrives
      | _ =>
        obtain rfl := Option.some.inj hdrives
        exact h.plain rfl rfl (fun _ => rfl) (fun _ => rfl)
    exact ht.mapCameras (fun _ => rfl) (fun _ => rfl)
  · exact h

/-- A name of full length is saved under at most the slot which has it. -/
theorem savedCamera_eq_some_iff {m : MediaInfo} (h : m.Named) {name : CString}
    (hlength : name.length = cameraNameLength) (j : Slot) :
    savedCamera m.cameras name = some j ↔ (m.cameras j).name = name := by
  have hne : name ≠ [] := by
    rintro rfl
    cases hlength
  have hmatch : ∀ j, strncmpEq name (m.cameras j).name name.length = true ↔ (m.cameras j).name = name := by
    intro j
    rcases lt_or_ge j.val m.nCameras with hj | hj
    · rw [strncmpEq_length_iff (hlength.trans (h.length j hj).symm)]
      exact eq_comm
    · rw [h.unnamed j hj, strncmpEq]
      simp [hne, hne.symm]
  have hconfigured : ∀ j, (m.cameras j).name = name → j.val < m.nCameras := by
    intro j hj
    by_contra hge
    exact hne (hj.symm.trans (h.unnamed j (not_lt.mp hge)))
  rw [savedCamera, find?_eq_some_iff_first pairwise_allSlots]
  constructor
  · exact fun hfirst => (hmatch j).mp hfirst.2.1
  · intro hj
    refine ⟨mem_allSlots j, (hmatch j).mpr hj, fun i _ hi => ?_⟩
    by_contra hother
    have hname := (hmatch i).mp (Bool.of_not_eq_false hother)
    have heq := h.distinct i j (hconfigured i hname) (hconfigured j hj) (hname.trans hj.symm)
    exact absurd hi (by rw [heq]; exact lt_irrefl j)

/-- A valid configuration gives a media record with different names of full length. -/
theorem named_raconfInit {cfg : Config} (h : cfg.Valid) (chmReady rssdReady : Bool) (sock : Option ℕ) :
    (raconfInit cfg chmReady rssdReady sock).Named := by
  have hname : ∀ i : Slot, i.val < cfg.nCameras →
      ((raconfInit cfg chmReady rssdReady sock).cameras i).name =
        padUnderscores (cfg.cameras i).name cameraNameLength := by
    intro i hi
    change (if i.val < cfg.nCameras then (cfg.cameras i).init else (cfg.cameras i).raw).name = _
    rw [if_pos hi]
    rfl
  refine ⟨?_, ?_, ?_⟩
  · intro i hi
    rw [hname i hi, padUnderscores, List.length_append, List.length_replicate]
    have hlength := (cfg.cameras i).name_length
    unfold cameraNameLength
    omega
  · intro i hi
    change (if i.val < cfg.nCameras then (cfg.cameras i).init else (cfg.cameras i).raw).name = []
    have hi' : cfg.nCameras ≤ i.val := hi
    rw [if_neg (not_lt.mpr hi')]
    exact h.named_first i hi'
  · intro i j hi hj hij
    rw [hname i hi, hname j hj] at hij
    exact h.distinct i j hi hj hij

/-- Every camera with a worker is still named by the re-read configuration. -/
def WorkersNamed (s : Agent) (cfg : Config) : Prop :=
  ∀ j, (s.cam j).workerPid ≠ 0 →
    ∃ i : Slot, i.val < cfg.nCameras ∧ padUnderscores (cfg.cameras i).name cameraNameLength = (s.cam j).name

instance (s : Agent) (cfg : Config) : Decidable (s.WorkersNamed cfg) := by
  unfold WorkersNamed; infer_instance

/-- As many re-read cameras take a saved worker as there were cameras with a worker. -/
theorem Counted.saved_count {s : Agent} (h : s.Counted) {m : MediaInfo} (hm : m.Named)
    (hworkers : ∀ j, (s.cam j).workerPid ≠ 0 →
      ∃ i : Slot, i.val < m.nCameras ∧ (m.cameras i).name = (s.cam j).name) :
    (slotCount fun i => savedPid s.media.cameras (m.cameras i).name ≠ 0) =
      slotCount fun j => (s.cam j).workerPid ≠ 0 := by
  have hconfigured : ∀ i, savedPid s.media.cameras (m.cameras i).name ≠ 0 → i.val < m.nCameras := by
    intro i hi
    by_contra hge
    exact hi (by rw [hm.unnamed i (not_lt.mp hge)]; rfl)
  have htakes : ∀ i : Slot, ∀ j, i.val < m.nCameras → (s.cam j).name = (m.cameras i).name →
      savedCamera s.media.cameras (m.cameras i).name = some j ∧
        savedPid s.media.cameras (m.cameras i).name = (s.cam j).workerPid := by
    intro i j hi hj
    have hsaved := (savedCamera_eq_some_iff h.named (hm.length i hi) j).mpr hj
    refine ⟨hsaved, ?_⟩
    have hne : (m.cameras i).name ≠ [] := by
      intro hnil
      have hlength := hm.length i hi
      rw [hnil] at hlength
      cases hlength
    rw [savedPid, if_neg hne, hsaved]
    rfl
  have hfrom : ∀ i, savedPid s.media.cameras (m.cameras i).name ≠ 0 →
      ∃ j, savedCamera s.media.cameras (m.cameras i).name = some j ∧ (s.cam j).workerPid ≠ 0 ∧
        (s.cam j).name = (m.cameras i).name := by
    intro i hi
    cases hsaved : savedCamera s.media.cameras (m.cameras i).name with
    | none => exact absurd (by rw [savedPid, hsaved]; split <;> rfl) hi
    | some j =>
      have hj := (savedCamera_eq_some_iff h.named (hm.length i (hconfigured i hi)) j).mp hsaved
      exact ⟨j, rfl, (htakes i j (hconfigured i hi) hj).2 ▸ hi, hj⟩
  refine slotCount_eq_of_matching
    (fun i => (savedCamera s.media.cameras (m.cameras i).name).getD 0) ?_ ?_ ?_
  · intro i hi
    obtain ⟨j, hsaved, hpid, -⟩ := hfrom i hi
    simpa [hsaved] using hpid
  · intro i i' hi hi' heq
    obtain ⟨j, hsaved, -, hname⟩ := hfrom i hi
    obtain ⟨j', hsaved', -, hname'⟩ := hfrom i' hi'
    simp only [hsaved, hsaved', Option.getD_some] at heq
    subst heq
    exact hm.distinct i i' (hconfigured i hi) (hconfigured i' hi') (hname.symm.trans hname')
  · intro j hj
    obtain ⟨i, hi, hname⟩ := hworkers j hj
    obtain ⟨hsaved, hpid⟩ := htakes i j hi hname.symm
    exact ⟨i, hpid ▸ hj, by rw [hsaved]; rfl⟩

/-- The restoring loop keeps names and configured slots, and gives no worker to an unnamed slot. -/
theorem restore_frame (old : Slot → CamDef) (s : Agent) :
    (allSlots.foldl (restoreCamera old) s).media.nCameras = s.media.nCameras ∧
      (∀ i, ((allSlots.foldl (restoreCamera old) s).cam i).name = (s.cam i).name) ∧
      ∀ i, (s.cam i).name = [] →
        ((allSlots.foldl (restoreCamera old) s).cam i).workerPid = (s.cam i).workerPid := by
  let I : Agent → Prop := fun t =>
    t.media.nCameras = s.media.nCameras ∧ (∀ i, (t.cam i).name = (s.cam i).name) ∧
      ∀ i, (s.cam i).name = [] → (t.cam i).workerPid = (s.cam i).workerPid
  refine foldl_invariant (I := I) ⟨rfl, fun _ => rfl, fun _ _ => rfl⟩ ?_
  rintro t i - ⟨hn, hnames, hpids⟩
  have hframe := restoreCamera_frame old t i
  refine ⟨hframe.nCameras.trans hn, fun j => (hframe.names j).trans (hnames j), fun j hj => ?_⟩
  by_cases hji : j = i
  · subst hji
    rw [restoreCamera, if_neg (not_not.mpr ((hnames j).trans hj))]
    exact hpids j hj
  · rw [hframe.cam j hji]
    exact hpids j hj

/-- Restoring the saved workers in a named media record without workers keeps the count exact. -/
theorem Counted.restore {s r : Agent} (h : s.Counted) (hr : r.media.Named)
    (hpid : ∀ i, (r.cam i).workerPid = 0) (hcount : r.media.nCamsRecording = s.media.nCamsRecording)
    (hworkers : ∀ j, (s.cam j).workerPid ≠ 0 →
      ∃ i : Slot, i.val < r.media.nCameras ∧ (r.cam i).name = (s.cam j).name) :
    (allSlots.foldl (restoreCamera s.media.cameras) r).Counted := by
  obtain ⟨hn, hnames, hpids⟩ := restore_frame s.media.cameras r
  refine ⟨⟨?_, ?_, ?_⟩, ?_, ?_⟩
  · intro i hi
    exact (congrArg List.length (hnames i)).trans (hr.length i (hn ▸ hi))
  · intro i hi
    exact (hnames i).trans (hr.unnamed i (hn ▸ hi))
  · intro i j hi hj hij
    exact hr.distinct i j (hn ▸ hi) (hn ▸ hj) ((hnames i).symm.trans (hij.trans (hnames j)))
  · intro i hi
    exact (hpids i (hr.unnamed i (hn ▸ hi))).trans (hpid i)
  · have hsaved := h.saved_count hr hworkers
    have hloop := restore_count s.media.cameras nodup_allSlots (s := r) (k := 0) (fun i _ => hpid i) (by
      rw [hcount, h.count, ← hsaved, zero_add]
      rfl)
    rw [hloop, zero_add]
    rfl

/-- A re-read valid configuration which still names every camera with a worker keeps the count exact. -/
theorem Counted.handleSighup {s : Agent} (h : s.Counted) {cfg : Config} (hvalid : cfg.Valid)
    (hworkers : s.WorkersNamed cfg) (opens : Bool) : (s.handleSighup (some cfg) opens).Counted := by
  have hread : ∃ sock, (s.reread (some cfg) opens).media =
      { raconfInit cfg s.media.isChmReady s.media.isRssdReady sock with
        nCamsRecording := s.media.nCamsRecording } := by
    cases opens
    · exact ⟨none, rfl⟩
    · exact ⟨some s.sockets.next, rfl⟩
  obtain ⟨sock, hmedia⟩ := hread
  have hnamed : (s.reread (some cfg) opens).media.Named := by
    have hinit := named_raconfInit hvalid s.media.isChmReady s.media.isRssdReady sock
    rw [hmedia]
    exact ⟨hinit.length, hinit.unnamed, hinit.distinct⟩
  refine h.restore hnamed (s.reread_workerPid _ _) (by rw [hmedia]) ?_
  intro j hj
  obtain ⟨i, hi, hname⟩ := hworkers j hj
  refine ⟨i, by rw [hmedia]; exact hi, ?_⟩
  rw [cam, hmedia]
  change (if i.val < cfg.nCameras then (cfg.cameras i).init else (cfg.cameras i).raw).name = _
  rw [if_pos hi]
  exact hname

/-- An unreadable configuration keeps the count exact when no camera has a worker. -/
theorem Counted.handleSighup_none {s : Agent} (h : s.Counted)
    (hworkers : ∀ j, (s.cam j).workerPid = 0) (opens : Bool) : (s.handleSighup none opens).Counted := by
  refine h.restore ⟨?_, fun _ _ => rfl, ?_⟩ (s.reread_workerPid _ _) rfl
    fun j hj => absurd (hworkers j) hj
  · intro i hi
    cases hi
  · intro i j hi
    cases hi

/-- A re-read configuration is valid and still names every camera which has a worker. -/
def KeepsWorkersNamed (s : Agent) (i : Input) : Prop :=
  match i.event with
  | .sighup (some cfg) _ => cfg.Valid ∧ s.WorkersNamed cfg
  | .sighup none _ => ∀ j, (s.cam j).workerPid = 0
  | _ => True

instance (s : Agent) (i : Input) : Decidable (s.KeepsWorkersNamed i) := by
  obtain ⟨e, forks, deaths⟩ := i
  apply Event.casesOn (motive := fun e => Decidable (s.KeepsWorkersNamed ⟨e, forks, deaths⟩)) e
  case sighup =>
    intro config opens
    apply Option.casesOn (motive := fun config => Decidable (s.KeepsWorkersNamed ⟨.sighup config opens, forks, deaths⟩))
      config <;> intros <;> unfold KeepsWorkersNamed <;> infer_instance
  all_goals intros; unfold KeepsWorkersNamed; infer_instance

/-- A step whose re-read configuration, if any, names every camera with a worker keeps the count
exact. -/
theorem Counted.step {s : Agent} (h : s.Counted) {i : Input} (hi : s.KeepsWorkersNamed i) :
    (s.step i).Counted := by
  unfold Agent.step
  split
  · have hs : (s.withAnswers i.forks i.deaths).Counted := h.of_media rfl
    unfold KeepsWorkersNamed at hi
    cases he : i.event with
    | cameraSettings d => exact hs.msgcbCameraSettings d
    | cameraResolution camera v => exact hs.changeParameter camera _ _
    | cameraCompression camera v => exact hs.changeParameter camera _ _
    | cameraFrameRate camera v => exact hs.changeParameter camera _ _
    | cameraRecordPause camera record => exact hs.handleCameraRecordPause camera record
    | readyStatus chm rssd => exact hs.msgcbReadyStatus chm rssd
    | shutdown f => exact hs.msgcbShutdownRec f
    | locomotiveId l => exact hs.plain rfl rfl (fun _ => rfl) (fun _ => rfl)
    | otherMessage => exact hs
    | timer answers arp => exact hs.timerCallback answers arp
    | workerDeath pid => exact hs.of_media rfl
    | sighup config opens =>
      rw [he] at hi
      cases config with
      | none => exact hs.handleSighup_none hi opens
      | some cfg => exact hs.handleSighup hi.1 hi.2 opens
  · exact h

/-- The count is exact when the agent starts from a valid configuration. -/
theorem counted_start {cfg : Config} (h : cfg.Valid) (chmReady rssdReady opens : Bool) :
    (start cfg chmReady rssdReady opens).Counted := by
  have hpid : ∀ i, ((start cfg chmReady rssdReady opens).cam i).workerPid = 0 := by
    intro i
    change (if i.val < cfg.nCameras then (cfg.cameras i).init else (cfg.cameras i).raw).workerPid = 0
    split <;> rfl
  refine ⟨named_raconfInit h _ _ _, fun i _ => hpid i, ?_⟩
  exact (slotCount_eq_zero.mpr fun i hi => hi (hpid i)).symm

/-- In a run from a valid configuration whose re-read configurations are valid and name every camera
with a worker, the number of recording cameras is exact. -/
theorem run_countExact (cfg : Config) (chmReady rssdReady opens : Bool) (is : List Input)
    (hvalid : cfg.Valid)
    (hkeeps : Guarded step KeepsWorkersNamed (start cfg chmReady rssdReady opens) is) :
    (run step (start cfg chmReady rssdReady opens) is).CountExact :=
  (run_invariant (I := Counted) (fun _ _ hs hi => hs.step hi)
    (counted_start hvalid chmReady rssdReady opens) hkeeps).exact

/-- A recording camera which the re-read configuration still names stays counted. -/
theorem run_countExact_cab :
    (run step (start (cabConfig true) true true true)
      (cabRecording ++ [Event.quiet (.sighup (some (cabConfig false)) true)])).CountExact :=
  run_countExact _ _ _ _ _ (by decide) (by decide)

/-- A recording camera which the re-read configuration drops stays counted without being there. -/
theorem run_count_inexact :
    ¬ (run step (start (cabConfig true) true true true)
      (cabRecording ++ [Event.quiet (.sighup (some noCameras) true)])).CountExact := by
  decide

end Agent

end RecordingAgent.Reagent
