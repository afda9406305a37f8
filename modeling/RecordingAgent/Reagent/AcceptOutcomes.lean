import RecordingAgent.Reagent.DomUtil

/-!
# Failed steps of accepting a configuration

The steps a run needs follow from the files alone. What the run returns is what the last save returned:
a copy does not count, and a save of the base file counts only if the current file is not saved after it.
-/

namespace RecordingAgent.Reagent.DomUtil

open Foundation

section

variable (lib : XmlLib) (o : Outcomes) (recorderSn ucLocoid : Option CString) (ptab : Option (List CameraListElement))
  (files : ConfigTexts)

/-- A run returns 0 only if all steps it needed succeeded. -/
def FailureReported : Prop :=
  ∀ r, duAcceptUserConfig lib o recorderSn ucLocoid ptab files = some r → r.rc = 0 → ∀ step ∈ r.steps, o.result step = 0

/-- The steps which are needed to bring two files to the user's cameras. -/
def neededSteps : Option (List Step) :=
  match ptab, files.base.bind lib.load with
  | some ptab, some pdom =>
    (patchBase recorderSn ucLocoid (userCamdefs ptab) (makeUsercamDom lib (userCamdefs ptab)) pdom).bind fun b =>
      match b.doReplaceCamdefs, files.current.bind lib.load with
      | false, some pdcur =>
        (patchCurrent recorderSn ucLocoid (userCamdefs ptab) pdcur).map fun cur =>
          b.steps ++ if cur.1 then [.saveCurrent] else []
      | _, _ => some (b.steps ++ [.copyBase])
  | _, _ => some []

/-- The copy fails, and the base file did not have to be saved or could be. -/
def CopyFails (steps : List Step) : Prop :=
  .copyBase ∈ steps ∧ o.result .copyBase ≠ 0 ∧ (.saveBase ∈ steps → o.result .saveBase = 0)

/-- The base file cannot be saved, but the current file can. -/
def OnlyBaseFails (steps : List Step) : Prop :=
  .saveBase ∈ steps ∧ .saveCurrent ∈ steps ∧ o.result .saveBase ≠ 0 ∧ o.result .saveCurrent = 0

/-- What the last save among the steps returns. -/
def lastSave (steps : List Step) : ℤ :=
  if .saveCurrent ∈ steps then o.result .saveCurrent
  else if .saveBase ∈ steps then o.result .saveBase
  else 0

end

section

variable {lib : XmlLib} {o : Outcomes} {recorderSn ucLocoid : Option CString} {ptab : Option (List CameraListElement)}
  {users : List CameraListElement} {files : ConfigTexts} {b : BaseResult} {pdom pdcur : Nodes}

theorem neededSteps_copied (hload : files.base.bind lib.load = some pdom)
    (hb : patchBase recorderSn ucLocoid (userCamdefs users) (makeUsercamDom lib (userCamdefs users)) pdom = some b)
    (hcopy : b.doReplaceCamdefs = true ∨ files.current.bind lib.load = none) :
    neededSteps lib recorderSn ucLocoid (some users) files = some (b.steps ++ [.copyBase]) := by
  unfold neededSteps
  rw [hload]
  dsimp only
  rw [hb, Option.bind_some]
  exact match_copied _ _ _ _ hcopy

theorem neededSteps_patched (hload : files.base.bind lib.load = some pdom)
    (hb : patchBase recorderSn ucLocoid (userCamdefs users) (makeUsercamDom lib (userCamdefs users)) pdom = some b)
    (hreplace : b.doReplaceCamdefs = false) (hcurrent : files.current.bind lib.load = some pdcur) :
    neededSteps lib recorderSn ucLocoid (some users) files =
      (patchCurrent recorderSn ucLocoid (userCamdefs users) pdcur).map fun cur =>
        b.steps ++ if cur.1 then [.saveCurrent] else [] := by
  unfold neededSteps
  rw [hload]
  dsimp only
  rw [hb, Option.bind_some, hreplace, hcurrent]

theorem patched_steps (cur : Bool × Nodes) :
    (patched lib o files b cur).steps = b.steps ++ if cur.1 then [.saveCurrent] else [] := by
  unfold patched
  split
  · rfl
  · exact (List.append_nil _).symm

/-- A run needs the steps which follow from the files, however they end. -/
theorem duAcceptUserConfig_steps :
    (duAcceptUserConfig lib o recorderSn ucLocoid ptab files).map Accepted.steps =
      neededSteps lib recorderSn ucLocoid ptab files := by
  cases ptab with
  | none => rfl
  | some users =>
    cases hload : files.base.bind lib.load with
    | none =>
      rw [duAcceptUserConfig_unreadable hload]
      unfold neededSteps
      rw [hload]
      rfl
    | some pdom =>
      cases hb : patchBase recorderSn ucLocoid (userCamdefs users) (makeUsercamDom lib (userCamdefs users)) pdom with
      | none =>
        unfold duAcceptUserConfig neededSteps
        rw [hload]
        dsimp only
        rw [hb]
        rfl
      | some b =>
        by_cases hcopy : b.doReplaceCamdefs = true ∨ files.current.bind lib.load = none
        · rw [duAcceptUserConfig_copied hload hb hcopy, neededSteps_copied hload hb hcopy]
          rfl
        · obtain ⟨hreplace, hcurrent⟩ := not_or.mp hcopy
          obtain ⟨pdcur, hpdcur⟩ := Option.ne_none_iff_exists'.mp hcurrent
          rw [Bool.not_eq_true] at hreplace
          rw [duAcceptUserConfig_patched hload hb hreplace hpdcur, neededSteps_patched hload hb hreplace hpdcur,
            Option.map_map]
          congr 1
          exact funext patched_steps

/-- A run that needs a step returns what the last save did, and does not both copy and save the current file. -/
theorem duAcceptUserConfig_rc {r : Accepted} (h : duAcceptUserConfig lib o recorderSn ucLocoid ptab files = some r)
    (hsteps : r.steps ≠ []) : r.rc = lastSave o r.steps ∧ (.copyBase ∈ r.steps → .saveCurrent ∉ r.steps) := by
  cases ptab with
  | none =>
    cases h
    exact absurd rfl hsteps
  | some users =>
    cases hload : files.base.bind lib.load with
    | none =>
      rw [duAcceptUserConfig_unreadable hload] at h
      cases h
      exact absurd rfl hsteps
    | some pdom =>
      obtain ⟨b, -, ⟨-, rfl⟩ | ⟨-, pdcur, cur, -, -, rfl⟩⟩ := duAcceptUserConfig_cases hload h
      · refine ⟨?_, fun _ => ?_⟩
        · unfold copied BaseResult.steps BaseResult.rc
          cases b.isDirty <;> rfl
        · change Step.saveCurrent ∉ b.steps ++ [.copyBase]
          unfold BaseResult.steps
          split <;> decide
      · refine ⟨?_, fun hcopy => absurd hcopy ?_⟩
        · unfold patched BaseResult.steps BaseResult.rc
          cases cur.1 <;> cases b.isDirty <;> rfl
        · rw [patched_steps, BaseResult.steps]
          split <;> split <;> decide

end

/-- A camera of the user. -/
def cabCamera : CameraListElement where
  camera := "CAB".toList
  isEssential := 1
  cameraMaxRecordingHours := 72
  resolution := 2
  compression := 30
  frameRate := 15
  audioEnable := 0

/-- A document with this camera at a frame rate. -/
def cabNodes (frameRate : CString) : Nodes :=
  .element "recorder".toList [] (.element "camera".toList []
    (dataElements .nil [("name".toList, "CAB".toList), ("frame_rate".toList, frameRate)]) .nil) .nil

/-- What a step returns when it fails: the status of a command that exits with 1, or the -1 of a save. -/
def Step.failure : Step → ℤ
  | .copyBase => 256
  | _ => -1

/-- All steps but one succeed. -/
def failing (step : Step) : Outcomes := ⟨fun s => if s = step then step.failure else 0, fun _ => none⟩

/-- A base file with the camera at ten frames, and a current file. -/
def cabFiles (current : Option Nodes) : ConfigTexts where
  base := some ((userLib [cabCamera]).save (cabNodes "10".toList))
  current := current.map (userLib [cabCamera]).save

theorem cabFiles_base (current : Option Nodes) :
    (cabFiles current).base.bind (userLib [cabCamera]).load = some (cabNodes "10".toList) :=
  (userLib [cabCamera]).load_save (cabNodes "10".toList)

theorem cabFiles_current (pdcur : Nodes) :
    (cabFiles (some pdcur)).current.bind (userLib [cabCamera]).load = some pdcur :=
  (userLib [cabCamera]).load_save pdcur

theorem patchBase_cab (userdom : Option Nodes) :
    patchBase none none (userCamdefs [cabCamera]) userdom (cabNodes "10".toList) =
      some ⟨true, false, cabNodes "15".toList⟩ := rfl

theorem patchCurrent_cab :
    patchCurrent none none (userCamdefs [cabCamera]) (cabNodes "10".toList) = some (true, cabNodes "15".toList) := rfl

end RecordingAgent.Reagent.DomUtil
