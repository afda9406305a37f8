import RecordingAgent.Reagent.Evolution
import RecordingAgent.Reagent.Step

/-!
# What the commands do

Case analyses of the record/pause command and of the stream reset built on it, in terms of
the operations on one camera, and the invariance rule for the loops of a timer pass. A
command which does not resolve to an online, assigned camera changes no camera at all.
-/

namespace RecordingAgent.Reagent

open Foundation

/-- The event changes a picture parameter of the camera of that name. -/
def Event.ChangesParameter (m : CString) : Event → Prop
  | .cameraResolution camera _ => camera = m
  | .cameraCompression camera _ => camera = m
  | .cameraFrameRate camera _ => camera = m
  | _ => False

namespace Agent

/-- Nothing but the helpers and the messages sent changed. -/
structure Idle (s s' : Agent) : Prop where
  media : s'.media = s.media
  recorders : s'.recorders = s.recorders
  statics : s'.statics = s.statics
  sockets : s'.sockets = s.sockets

theorem Idle.refl (s : Agent) : Idle s s := ⟨rfl, rfl, rfl, rfl⟩

theorem Idle.cam {s s' : Agent} (h : Idle s s') (c : Slot) : s'.cam c = s.cam c := by
  rw [Agent.cam, h.media, Agent.cam]

/-- A pause command for a camera which is marked as recording. -/
def PauseCommanded (s : Agent) (c : Slot) (record : ℕ) : Prop :=
  s.statics.shutdownInProcess = false ∧ (s.cam c).runtime.isOnline = true ∧
    (s.cam c).runtime.isAssigned = true ∧ s.isRecording c = true ∧ record ≠ 1

/-- A record command for a camera which is not marked as recording, with a drive ready. -/
def StartCommanded (s : Agent) (c : Slot) (record : ℕ) : Prop :=
  s.statics.shutdownInProcess = false ∧ (s.cam c).runtime.isOnline = true ∧
    (s.cam c).runtime.isAssigned = true ∧ s.isRecording c = false ∧ record ≠ 0 ∧
    (s.media.isChmReady = true ∨ s.media.isRssdReady = true)

/-- A successful pause of a camera which is marked as recording stops it. -/
theorem handleCameraRecordPause_recording {s : Agent} {camera : CString} {c : Slot}
    (hfind : raconfFindCamera s.media (camera.take cameraNameLength) = some c)
    (hrecording : s.isRecording c = true)
    (hsuccess : (s.handleCameraRecordPause camera 0).1 = .success) :
    s.handleCameraRecordPause camera 0 = (s.modifyRuntime c paused).stopRecordingProcess c := by
  unfold handleCameraRecordPause at hsuccess ⊢
  by_cases hshutdown : s.statics.shutdownInProcess = true
  · rw [if_pos hshutdown] at hsuccess
    cases hsuccess
  · rw [if_neg hshutdown, hfind] at hsuccess ⊢
    dsimp only at hsuccess ⊢
    by_cases hcam : (s.cam c).runtime.isOnline = true ∧ (s.cam c).runtime.isAssigned = true
    · rw [if_pos hcam, if_pos (by simp [hrecording]), if_pos hrecording]
    · rw [if_neg hcam] at hsuccess
      cases hsuccess

/-- A pause which is carried out stops the camera. -/
theorem handleCameraRecordPause_of_pause {s : Agent} {camera : CString} {record : ℕ} {c : Slot}
    (hfind : raconfFindCamera s.media (camera.take cameraNameLength) = some c) (h : s.PauseCommanded c record) :
    s.handleCameraRecordPause camera record = (s.modifyRuntime c paused).stopRecordingProcess c := by
  obtain ⟨hshutdown, honline, hassigned, hrecording, hrecord⟩ := h
  have hother : ¬ true.toNat = record := fun h => hrecord h.symm
  unfold handleCameraRecordPause
  simp only [hshutdown, Bool.false_eq_true, if_false, hfind, honline, hassigned, and_self, if_true, hrecording,
    ne_eq, hother, not_false_eq_true]

/-- A record command which is carried out starts the camera. -/
theorem handleCameraRecordPause_of_start {s : Agent} {camera : CString} {record : ℕ} {c : Slot}
    (hfind : raconfFindCamera s.media (camera.take cameraNameLength) = some c) (h : s.StartCommanded c record) :
    s.handleCameraRecordPause camera record = (s.modifyRuntime c resumed).startRecordingProcess c := by
  obtain ⟨hshutdown, honline, hassigned, hrecording, hrecord, hdrives⟩ := h
  have hother : ¬ false.toNat = record := fun h => hrecord h.symm
  unfold handleCameraRecordPause
  simp only [hshutdown, Bool.false_eq_true, if_false, hfind, honline, hassigned, and_self, if_true, hrecording,
    ne_eq, hother, not_false_eq_true, if_pos hdrives]

/-- A record/pause command stops its camera, starts it, or changes no camera. -/
theorem handleCameraRecordPause_cases (s : Agent) (camera : CString) (record : ℕ) :
    Idle s (s.handleCameraRecordPause camera record).2 ∨
      ∃ c, raconfFindCamera s.media (camera.take cameraNameLength) = some c ∧
        (s.PauseCommanded c record ∧
            s.handleCameraRecordPause camera record =
              (s.modifyRuntime c paused).stopRecordingProcess c ∨
          s.StartCommanded c record ∧
            s.handleCameraRecordPause camera record =
              (s.modifyRuntime c resumed).startRecordingProcess c) := by
  unfold handleCameraRecordPause
  split
  · exact Or.inl (.refl s)
  · rename_i hshutdown
    have hshutdown' : s.statics.shutdownInProcess = false := by simpa using hshutdown
    split
    · exact Or.inl (.refl s)
    · rename_i c hfind
      dsimp only
      split
      · rename_i hcam
        split
        · rename_i hrecord
          split
          · rename_i hrec
            refine Or.inr ⟨c, hfind, Or.inl ⟨⟨hshutdown', hcam.1, hcam.2, hrec, ?_⟩, rfl⟩⟩
            rw [hrec] at hrecord
            exact fun h => hrecord h.symm
          · rename_i hrec
            have hrec' : s.isRecording c = false := by simpa using hrec
            split
            · rename_i hdrives
              refine Or.inr ⟨c, hfind, Or.inr ⟨⟨hshutdown', hcam.1, hcam.2, hrec', ?_, hdrives⟩, rfl⟩⟩
              rw [hrec'] at hrecord
              exact fun h => hrecord h.symm
            · exact Or.inl (.refl s)
        · exact Or.inl (.refl s)
      · exact Or.inl ⟨rfl, rfl, rfl, rfl⟩

/-- The monitor half keeps what each of its iterations and its own flags keep. -/
theorem camonPass_invariant {I : Agent → Prop} {s : Agent} {answers : List CamonStatus}
    {arp : Slot → Option CString} (hinit : I s)
    (hflags : ∀ t flag table, I t →
      I { t with statics := { t.statics with passFlag := flag, camonStatus := table } })
    (hbody : ∀ t, ∀ c ∈ s.media.configured, I t → I (reflectProbe arp t c)) :
    I (s.camonPass answers arp) := by
  unfold camonPass
  split
  · have hloop : I (s.media.configured.foldl (reflectProbe arp)
        { s with statics := { s.statics with passFlag := true } }) :=
      foldl_invariant (hflags s true s.statics.camonStatus hinit) hbody
    exact hflags _ _ [] hloop
  · exact hflags s false _ hinit

/-- The restart half keeps what each of its iterations and the helpers keep. -/
theorem restartPass_invariant {I : Agent → Prop} {s : Agent} (hinit : I s)
    (hhelpers : ∀ t : Agent, I t → I t.handleMetarec.handleSpaceMonitor)
    (hbody : ∀ t, ∀ c ∈ s.media.configured, I t → I (restartCamera t c)) : I s.restartPass :=
  hhelpers _ (foldl_invariant hinit hbody)

theorem Idle.frame {s s' : Agent} (h : Idle s s') (c : Slot) : Frame c s s' :=
  .of_media h.media (by rw [h.recorders]) h.sockets h.statics (by rw [h.recorders]; exact List.Subset.refl _)

/-- What the parts of restoring a saved camera keep, restoring it keeps. -/
theorem restoreCamera_preserves {Q : Agent → Prop} {i : Slot}
    (hpid : ∀ t worker, Q t → Q (t.modifyCam i fun p => { p with workerPid := worker }))
    (hruntime : ∀ t set, Q t → Q (t.modifyRuntime i set)) (hstop : ∀ t, Q t → Q (t.stopRecordingProcess i).2)
    (hsend : ∀ t, Q t → Q (t.sendCameraStatus i)) (old : Slot → CamDef) {s : Agent} (h : Q s) :
    Q (restoreCamera old s i) := by
  unfold restoreCamera
  split
  · split
    · rename_i j _
      have hmoved := hpid s (old j).workerPid h
      apply hsend
      unfold attachSaved
      dsimp only
      split
      · exact hruntime _ _ hmoved
      · split
        · exact hstop _ hmoved
        · exact hmoved
    · exact hsend s h
  · exact h

/-- Restoring a saved camera is framed by its slot. -/
theorem restoreCamera_frame (old : Slot → CamDef) (s : Agent) (i : Slot) :
    Frame i s (restoreCamera old s i) := by
  refine restoreCamera_preserves (Q := Frame i s) ?_ ?_ ?_ ?_ old (.refl i s)
  · intro t worker ht
    exact ht.trans (.modifyCam t rfl)
  · intro t set ht
    exact ht.trans (.modifyRuntime _ _)
  · intro t ht
    exact ht.trans (.stopRecordingProcess t)
  · intro t ht
    exact ht.trans (.sendCameraStatus t i)

/-- Only picture parameters are set. -/
def PictureOnly (set : CamRuntime → CamRuntime) : Prop :=
  ∀ r, ∃ resolution compression frameRate,
    set r = { r with resolution := resolution, compression := compression, frameRate := frameRate }

theorem PictureOnly.sameCommand {set : CamRuntime → CamRuntime} (h : PictureOnly set) (p : CamDef) :
    SameCommand p { p with runtime := set p.runtime } := by
  obtain ⟨resolution, compression, frameRate, heq⟩ := h p.runtime
  rw [heq]
  exact ⟨rfl, rfl, rfl, rfl, rfl, rfl, rfl, id⟩

theorem PictureOnly.isOnline {set : CamRuntime → CamRuntime} (h : PictureOnly set) (r : CamRuntime) :
    (set r).isOnline = r.isOnline := by
  obtain ⟨resolution, compression, frameRate, heq⟩ := h r
  rw [heq]

theorem PictureOnly.isAssigned {set : CamRuntime → CamRuntime} (h : PictureOnly set) (r : CamRuntime) :
    (set r).isAssigned = r.isAssigned := by
  obtain ⟨resolution, compression, frameRate, heq⟩ := h r
  rw [heq]

/-- The three messages about picture parameters are handled alike. -/
theorem handle_changesParameter {e : Event} {m : CString} (he : e.ChangesParameter m) :
    ∃ set error, PictureOnly set ∧ ∀ s : Agent, s.handle e = s.changeParameter m set error := by
  cases e with
  | cameraResolution camera v =>
    obtain rfl : camera = m := he
    exact ⟨fun r => { r with resolution := v }, _, fun r => ⟨_, r.compression, r.frameRate, rfl⟩, fun s => rfl⟩
  | cameraCompression camera v =>
    obtain rfl : camera = m := he
    exact ⟨fun r => { r with compression := v }, _, fun r => ⟨r.resolution, _, r.frameRate, rfl⟩, fun s => rfl⟩
  | cameraFrameRate camera v =>
    obtain rfl : camera = m := he
    exact ⟨fun r => { r with frameRate := v }, _, fun r => ⟨r.resolution, r.compression, _, rfl⟩, fun s => rfl⟩
  | _ => exact absurd he id

/-- A record/pause command lets one camera evolve. -/
theorem handleCameraRecordPause_evolves (s : Agent) (camera : CString) (record : ℕ) :
    ∃ c, Evolves c s (s.handleCameraRecordPause camera record).2 := by
  unfold handleCameraRecordPause
  split
  · exact ⟨0, .refl 0 s⟩
  · split
    · exact ⟨0, .refl 0 s⟩
    · rename_i c _
      refine ⟨c, ?_⟩
      dsimp only
      split
      · split
        · split
          · exact (Evolves.modifyRuntime s (.paused _)).trans (.stopRecordingProcess _)
          · split
            · exact (Evolves.modifyRuntime s (.resumed _)).trans (.startRecordingProcess _)
            · exact .refl c s
        · exact .refl c s
      · exact .send s rfl

section Evolutions

variable {I : Agent → Prop} (hevolves : ∀ c t t', Evolves c t t' → I t → I t')

include hevolves

/-- A record/pause command keeps what every evolution keeps. -/
theorem handleCameraRecordPause_of_evolves {s : Agent} (h : I s) (camera : CString) (record : ℕ) :
    I (s.handleCameraRecordPause camera record).2 := by
  obtain ⟨c, hc⟩ := s.handleCameraRecordPause_evolves camera record
  exact hevolves c _ _ hc h

/-- A parameter change keeps what every evolution keeps. -/
theorem changeParameter_of_evolves {s : Agent} (h : I s) (camera : CString)
    {set : CamRuntime → CamRuntime} (hset : ∀ p : CamDef, SameCommand p { p with runtime := set p.runtime })
    (error : VideoApplicationError) : I (s.changeParameter camera set error) := by
  unfold changeParameter
  split
  · exact h
  · rename_i c _
    have hchanged : I (s.modifyRuntime c set) := hevolves c _ _ (.modifyRuntime s (.aside (hset _))) h
    have hpaused := handleCameraRecordPause_of_evolves hevolves hchanged
      ((camera.take cameraNameLength).take cameraNameLength) 0
    have hresumed := handleCameraRecordPause_of_evolves hevolves hpaused
      ((camera.take cameraNameLength).take cameraNameLength) 1
    have hreset : I ((s.modifyRuntime c set).resetCameraStream (camera.take cameraNameLength)).2 := by
      unfold resetCameraStream
      dsimp only
      split
      · exact hpaused
      · split <;> exact hresumed
    dsimp only
    split
    · exact hevolves c _ _ (.send _ rfl) hreset
    · exact hreset

/-- The monitor half of a timer pass keeps what every evolution keeps. -/
theorem camonPass_of_evolves {s : Agent} (h : I s) (answers : List CamonStatus)
    (arp : Slot → Option CString) : I (s.camonPass answers arp) := by
  refine camonPass_invariant h (fun t flag table => ?_) fun t c _ => hevolves c _ _ (.reflectProbe arp t)
  refine hevolves 0 t _ (.of_frame ?_ rfl rfl rfl fun h => ⟨h.nodup, h.le⟩)
  exact ⟨rfl, rfl, rfl, rfl, rfl, rfl, rfl, rfl, fun _ _ => rfl, fun _ _ => rfl, fun _ _ => rfl,
    fun _ => Or.inl⟩

/-- The restart half of a timer pass keeps what every evolution keeps. -/
theorem restartPass_of_evolves {s : Agent} (h : I s) : I s.restartPass :=
  restartPass_invariant h (fun t => hevolves 0 _ _ (.helpers t))
    fun t c _ => hevolves c _ _ (.restartCamera t)

/-- Every event keeps what every evolution keeps, apart from those which set the words of several
cameras, or of one camera otherwise than by a start or a stop. -/
theorem handle_of_evolves {s : Agent} (h : I s) {e : Event} (hsettings : ∀ d, e ≠ .cameraSettings d)
    (hready : ∀ chm rssd, e ≠ .readyStatus chm rssd) (hshutdown : ∀ f, e ≠ .shutdown f)
    (hsighup : ∀ config opens, e ≠ .sighup config opens) : I (s.handle e) := by
  cases e with
  | cameraSettings d => exact absurd rfl (hsettings d)
  | cameraResolution camera v =>
    exact changeParameter_of_evolves hevolves h camera (fun _ => ⟨rfl, rfl, rfl, rfl, rfl, rfl, rfl, id⟩) _
  | cameraCompression camera v =>
    exact changeParameter_of_evolves hevolves h camera (fun _ => ⟨rfl, rfl, rfl, rfl, rfl, rfl, rfl, id⟩) _
  | cameraFrameRate camera v =>
    exact changeParameter_of_evolves hevolves h camera (fun _ => ⟨rfl, rfl, rfl, rfl, rfl, rfl, rfl, id⟩) _
  | cameraRecordPause camera record => exact handleCameraRecordPause_of_evolves hevolves h camera record
  | readyStatus chm rssd => exact absurd rfl (hready chm rssd)
  | shutdown f => exact absurd rfl (hshutdown f)
  | locomotiveId l =>
    refine hevolves 0 s _ (.of_frame ?_ rfl rfl rfl fun h => ⟨h.nodup, h.le⟩) h
    exact ⟨rfl, rfl, rfl, rfl, rfl, rfl, rfl, rfl, fun _ _ => rfl, fun _ _ => rfl, fun _ _ => rfl,
      fun _ => Or.inl⟩
  | otherMessage => exact h
  | timer answers arp =>
    exact restartPass_of_evolves hevolves (camonPass_of_evolves hevolves h answers arp)
  | workerDeath pid =>
    exact hevolves 0 s _ (.of_frame (.of_media rfl rfl rfl rfl List.erase_subset) rfl rfl rfl
      fun h => h.sublist List.erase_sublist le_rfl) h
  | sighup config opens => exact absurd rfl (hsighup config opens)

end Evolutions

/-- An event which sets no words otherwise than by starts and stops lets every camera evolve. -/
theorem handle_allEvolve (s : Agent) {e : Event} (hsettings : ∀ d, e ≠ .cameraSettings d)
    (hready : ∀ chm rssd, e ≠ .readyStatus chm rssd) (hshutdown : ∀ f, e ≠ .shutdown f)
    (hsighup : ∀ config opens, e ≠ .sighup config opens) : AllEvolve s (s.handle e) :=
  handle_of_evolves (I := AllEvolve s) (fun _ _ _ ht h => h.evolves ht) (.refl s) hsettings hready
    hshutdown hsighup

section Frames

variable {I : Agent → Prop} (hframe : ∀ c t t', Frame c t t' → I t → I t')

include hframe

/-- A record/pause command keeps what every frame keeps. -/
theorem handleCameraRecordPause_of_frames {s : Agent} (h : I s) (camera : CString) (record : ℕ) :
    I (s.handleCameraRecordPause camera record).2 :=
  handleCameraRecordPause_of_evolves (fun c t t' ht => hframe c t t' ht.frame) h camera record

/-- The monitor half of a timer pass keeps what every frame keeps. -/
theorem camonPass_of_frames {s : Agent} (h : I s) (answers : List CamonStatus)
    (arp : Slot → Option CString) : I (s.camonPass answers arp) :=
  camonPass_of_evolves (fun c t t' ht => hframe c t t' ht.frame) h answers arp

/-- Re-attaching the saved cameras keeps what every frame keeps. -/
theorem handleSighup_of_frames {s : Agent} {config : Option Config} {opens : Bool}
    (h : I (s.reread config opens)) : I (s.handleSighup config opens) := by
  unfold handleSighup
  exact foldl_invariant h fun t i _ => hframe i _ _ (restoreCamera_frame _ t i)

/-- Every event keeps what every frame keeps, the ready status, shutdown and SIGHUP apart. -/
theorem handle_of_frames {s : Agent} (h : I s) {e : Event}
    (hready : ∀ chm rssd, e ≠ .readyStatus chm rssd) (hshutdown : ∀ f, e ≠ .shutdown f)
    (hsighup : ∀ config opens, e ≠ .sighup config opens) : I (s.handle e) := by
  by_cases hsettings : ∃ d, e = .cameraSettings d
  · obtain ⟨d, rfl⟩ := hsettings
    change I (s.msgcbCameraSettings d)
    unfold msgcbCameraSettings
    split
    · rename_i c _
      exact hframe c _ _ (.modifyRuntime s _) h
    · exact hframe 0 _ _ (.send s _) h
  · push Not at hsettings
    exact handle_of_evolves (fun c t t' ht => hframe c t t' ht.frame) h hsettings hready hshutdown hsighup

end Frames

end Agent

end RecordingAgent.Reagent
