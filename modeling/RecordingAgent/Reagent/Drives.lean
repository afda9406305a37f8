import RecordingAgent.Reagent.StartPoints

/-!
# What changes the drives

Only a ready status and a shutdown message change which drives are ready, and only a shutdown
message sets the shutdown flag. Every other event, the re-read configuration included, leaves
all three as they were.
-/

namespace RecordingAgent.Reagent

open Foundation

/-- The drives' readiness, the shutdown flag and the message loop are as they were. -/
structure SameDrives (s s' : Agent) : Prop where
  isChmReady : s'.media.isChmReady = s.media.isChmReady
  isRssdReady : s'.media.isRssdReady = s.media.isRssdReady
  shutdown : s'.statics.shutdownInProcess = s.statics.shutdownInProcess

namespace SameDrives

variable {s s' s'' : Agent}

theorem refl (s : Agent) : SameDrives s s := ⟨rfl, rfl, rfl⟩

theorem trans (h : SameDrives s s') (h' : SameDrives s' s'') : SameDrives s s'' :=
  ⟨h'.1.trans h.1, h'.2.trans h.2, h'.3.trans h.3⟩

theorem of_frame {c : Slot} (h : Frame c s s') : SameDrives s s' :=
  ⟨h.isChmReady, h.isRssdReady, h.shutdown⟩

end SameDrives

namespace Agent

theorem sameDrives_of_frames (s : Agent) :
    ∀ c t t', Frame c t t' → SameDrives s t → SameDrives s t' :=
  fun _ _ _ hframe h => h.trans (.of_frame hframe)

/-- A record/pause command leaves the drives alone. -/
theorem handleCameraRecordPause_drives (s : Agent) (camera : CString) (record : ℕ) :
    SameDrives s (s.handleCameraRecordPause camera record).2 :=
  handleCameraRecordPause_of_frames s.sameDrives_of_frames (.refl s) camera record

/-- The monitor half of a timer pass leaves the drives alone. -/
theorem camonPass_drives (s : Agent) (answers : List CamonStatus) (arp : Slot → Option CString) :
    SameDrives s (s.camonPass answers arp) :=
  camonPass_of_frames s.sameDrives_of_frames (.refl s) answers arp

/-- Re-reading the configuration leaves the drives alone. -/
theorem handleSighup_drives (s : Agent) (config : Option Config) (opens : Bool) :
    SameDrives s (s.handleSighup config opens) := by
  have hreread : SameDrives s (s.reread config opens) := by
    cases config <;> cases opens <;> exact ⟨rfl, rfl, rfl⟩
  exact handleSighup_of_frames s.sameDrives_of_frames hreread

/-- Only ready status and shutdown messages change the drives or the shutdown flag. -/
theorem handle_drives (s : Agent) (e : Event) (hready : ∀ chm rssd, e ≠ .readyStatus chm rssd)
    (hshutdown : ∀ f, e ≠ .shutdown f) : SameDrives s (s.handle e) := by
  by_cases hsighup : ∃ config opens, e = .sighup config opens
  · obtain ⟨config, opens, rfl⟩ := hsighup
    exact s.handleSighup_drives config opens
  · push Not at hsighup
    exact handle_of_frames s.sameDrives_of_frames (.refl s) hready hshutdown hsighup

end Agent

end RecordingAgent.Reagent
