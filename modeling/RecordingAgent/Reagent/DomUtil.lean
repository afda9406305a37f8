import RecordingAgent.Foundation.NodesText
import RecordingAgent.Reagent.UsercamXml

/-!
# The configuration files as documents

Accepting the user's camera list works on the documents of the two configuration files: the base file
is patched in place if it has the user's cameras, and otherwise its cameras are replaced by those of the
generated text; the current file is patched in place, or copied from the base file. What the system and
the library for XML do is a parameter: what a text is loaded as, how a document is saved, and how the
saves and the copy end.
-/

namespace RecordingAgent.Reagent.DomUtil

open Foundation

/-- `mxmlLoadFile` and `mxmlLoadString`, and `mxmlSaveFile`. What has been saved is loaded again. -/
structure XmlLib where
  load : CString → Option Nodes
  save : Nodes → CString
  load_save : ∀ t, load (save t) = some t

/-- A library that reads one text of a document besides those it has saved. -/
def XmlLib.reading (userdom : Nodes) (xmlbuf : CString) : XmlLib where
  load s := if s = '<' :: xmlbuf then some userdom else Nodes.ofOps s
  save := Nodes.ops
  load_save t := by
    have hread := Nodes.ofOps_ops t
    split
    next heq =>
      rw [heq, Nodes.ofOps_bracket] at hread
      cases hread
    · exact hread

/-- `du_set_child_new_data`: whether an element below a node got a new value, and the document then. A null
pointer for an element without data is not to be compared. -/
def duSetChildNewData (node : NodePath) (tag newVal : CString) (pdom : Nodes) : Option (Bool × Nodes) :=
  match pdom.findBelow node tag with
  | none => some (false, pdom)
  | some pnode =>
    match pdom.getData pnode with
    | none => none
    | some curValue => some (if newVal = curValue then (false, pdom) else (true, pdom.setData pnode newVal))

/-- Set several elements below a node, one after another. -/
def setChildren (node : NodePath) : List (CString × CString) → Nodes → Option (Bool × Nodes)
  | [], pdom => some (false, pdom)
  | setting :: settings, pdom =>
    (duSetChildNewData node setting.1 setting.2 pdom).bind fun set =>
      (setChildren node settings set.2).map fun rest => (set.1 || rest.1, rest.2)

/-- A parameter of the recorder that is given. -/
def givenParam (tag : CString) : Option CString → List (CString × CString)
  | some (c :: text) => [(tag, c :: text)]
  | _ => []

/-- The parameters of the recorder which are set. -/
def recorderParams (recorderSn ucLocoid : Option CString) : List (CString × CString) :=
  givenParam "serial_number".toList recorderSn ++ givenParam "loco_id".toList ucLocoid

/-- `patch_recorder_params` -/
def patchRecorderParams (recorderSn ucLocoid : Option CString) (pdom : Nodes) : Option (Bool × Nodes) :=
  setChildren [] (recorderParams recorderSn ucLocoid) pdom

/-- The elements of a camera which are set. -/
def cameraOptions (u : CameraListElement) : List (CString × CString) :=
  [("resolution".toList, signedDigits u.resolution), ("compression".toList, signedDigits u.compression),
    ("frame_rate".toList, signedDigits u.frameRate), ("record_audio".toList, signedDigits u.audioEnable),
    ("camera_essential".toList, signedDigits u.isEssential),
    ("camera_max_recording_age".toList, signedDigits u.cameraMaxRecordingHours)]

/-- The first camera of the user with a name. -/
def matchingUser (ucCameras : List CameraListElement) (name : CString) : Option CameraListElement :=
  ucCameras.find? fun u => u.camera ≠ [] && strncasecmpEq name u.camera cameraNameLength

/-- What patching cameras gives. -/
structure Patched where
  isDirty : Bool
  matched : ℕ
  pdom : Nodes
  deriving DecidableEq

/-- Patch the camera at a node. -/
def patchCamera (ucCameras : List CameraListElement) (node : NodePath) (pdom : Nodes) : Option Patched :=
  match pdom.findBelow node "name".toList, ucCameras with
  | none, _ => some ⟨false, 0, pdom⟩
  | some _, [] => some ⟨false, 0, pdom⟩
  | some ptmp, u :: us =>
    (pdom.getData ptmp).bind fun name =>
      match matchingUser (u :: us) name with
      | none => some ⟨false, 0, pdom⟩
      | some u => (setChildren node (cameraOptions u) pdom).map fun set => ⟨set.1, 1, set.2⟩

/-- The loop over the cameras in an index. -/
def patchIndexed (ucCameras : List CameraListElement) : List NodePath → Nodes → Option Patched
  | [], pdom => some ⟨false, 0, pdom⟩
  | node :: idx, pdom =>
    (patchCamera ucCameras node pdom).bind fun camera =>
      (patchIndexed ucCameras idx camera.pdom).map fun rest =>
        ⟨camera.isDirty || rest.isDirty, camera.matched + rest.matched, rest.pdom⟩

/-- The cameras of a document. -/
def cameraIndex (pdom : Nodes) : List NodePath := pdom.findAllBelow [] "camera".toList

/-- `patch_camdefs` -/
def patchCamdefs (ucCameras : List CameraListElement) (pdom : Nodes) : Option Patched :=
  (patchIndexed ucCameras (cameraIndex pdom) pdom).map fun patched =>
    { patched with isDirty := patched.isDirty || patched.matched != ucCameras.length }

/-- `du_del_children_by_tag` for the cameras: all of them are deleted, with what is below them. -/
def deleteCameras : Nodes → Nodes
  | .element tag attrs children next => .element tag attrs (children.remove "camera".toList) next
  | pdom => pdom

/-- `du_adopt_child_nodes`: the cameras of another document become the last children of the recorder. -/
def adoptCameras (pdom userdom : Nodes) : Nodes :=
  match pdom.findBelow [] "recorder".toList with
  | some recorder => pdom.addChildren recorder
      (.ofElements "camera".toList (userdom.childrenOf.outermost "camera".toList))
  | none => pdom

/-- Replace the cameras of a document by those of the generated one, if that could be loaded. -/
def replaceCamdefs (pdom : Nodes) : Option Nodes → Nodes
  | some userdom => adoptCameras (deleteCameras pdom) userdom
  | none => deleteCameras pdom

/-- The entries before the first without a name, as `count_user_camdefs` counts them. -/
def userCamdefs (ptab : List CameraListElement) : List CameraListElement :=
  (ptab.take maxCams).takeWhile (·.camera ≠ [])

/-- `make_usercam_dom` -/
def makeUsercamDom (lib : XmlLib) (ucCameras : List CameraListElement) : Option Nodes :=
  if 0 < ucCameras.length then lib.load (usercamXml ucCameras) else none

/-- Elements with data, each on a line of its own. -/
def dataElements (last : Nodes) : List (CString × CString) → Nodes
  | [] => last
  | (tag, data) :: rest => .text "\n   ".toList (.element tag [] (.text data .nil) (dataElements last rest))

/-- The elements of a camera in the generated text, in the order of the template. -/
def CameraListElement.elements (u : CameraListElement) : List (CString × CString) :=
  [("name".toList, u.camera), ("camera_essential".toList, signedDigits u.isEssential),
    ("camera_max_recording_age".toList, signedDigits u.cameraMaxRecordingHours),
    ("resolution".toList, signedDigits u.resolution), ("compression".toList, signedDigits u.compression),
    ("frame_rate".toList, signedDigits u.frameRate), ("record_audio".toList, signedDigits u.audioEnable),
    ("auto_record_to_chm".toList, "0".toList), ("auto_record_to_rssd".toList, "0".toList),
    ("mount_type".toList, "N".toList)]

/-- The document of the generated text, for names without markup. -/
def usercamNodes (ucCameras : List CameraListElement) : Nodes :=
  .element "recorder".toList [] (ucCameras.foldr (fun u next => .text "\n\n ".toList
    (.element "camera".toList [] (dataElements (.text "\n ".toList .nil) (CameraListElement.elements u)) next))
    (.text "\n".toList .nil)) .nil

/-- A library that reads this document from the text generated for a list. -/
def userLib (ucCameras : List CameraListElement) : XmlLib :=
  .reading (usercamNodes ucCameras) (usercamXml ucCameras).tail

theorem makeUsercamDom_userLib {ucCameras : List CameraListElement} (hcount : 0 < ucCameras.length)
    (hcomplete : XmlComplete ucCameras) : makeUsercamDom (userLib ucCameras) ucCameras = some (usercamNodes ucCameras) := by
  have hbracket : usercamXml ucCameras = '<' :: (usercamXml ucCameras).tail := by
    rw [hcomplete.text]
    rfl
  rw [makeUsercamDom, if_pos hcount]
  exact if_pos hbracket

/-- What is to be written to the base file. -/
structure BaseResult where
  isDirty : Bool
  doReplaceCamdefs : Bool
  pdom : Nodes
  deriving DecidableEq

section

variable (recorderSn ucLocoid : Option CString) (ucCameras : List CameraListElement)

/-- Bring the document of the base file to the user's cameras. -/
def patchBase (userdom : Option Nodes) (pdom : Nodes) : Option BaseResult :=
  (patchRecorderParams recorderSn ucLocoid pdom).bind fun params =>
    if 0 < ucCameras.length ∧ (cameraIndex params.2).length = ucCameras.length then
      (patchCamdefs ucCameras params.2).map fun cams =>
        if cams.matched ≠ (cameraIndex params.2).length then ⟨true, true, replaceCamdefs cams.pdom userdom⟩
        else ⟨params.1 || cams.isDirty, false, cams.pdom⟩
    else some ⟨true, true, replaceCamdefs params.2 userdom⟩

/-- Bring the document of the current file to the user's cameras. How many matched is not looked at. -/
def patchCurrent (pdcur : Nodes) : Option (Bool × Nodes) :=
  (patchRecorderParams recorderSn ucLocoid pdcur).bind fun params =>
    (patchCamdefs ucCameras params.2).map fun cams => (params.1 || cams.isDirty, cams.pdom)

end

/-- The texts of the two files; a file that cannot be opened has none. -/
structure ConfigTexts where
  base : Option CString
  current : Option CString
  deriving DecidableEq

/-- What is done to the files. -/
inductive Step
  | saveBase
  | copyBase
  | saveCurrent
  deriving DecidableEq

/-- What the steps return, and what is left of a file by a step that fails. -/
structure Outcomes where
  result : Step → ℤ
  left : Step → Option CString

/-- All steps succeed. -/
def Outcomes.success : Outcomes := ⟨fun _ => 0, fun _ => none⟩

/-- A file after a step which is to give it a text. -/
def Outcomes.written (o : Outcomes) (step : Step) (text : Option CString) : Option CString :=
  if o.result step = 0 then text else o.left step

/-- What a run returns, which steps it needed, and what it leaves in the files. -/
structure Accepted where
  rc : ℤ
  steps : List Step
  files : ConfigTexts
  deriving DecidableEq

/-- `du_accept_user_config`. The list is missing if a pointer is null. What the copy command returns is
not looked at. -/
def duAcceptUserConfig (lib : XmlLib) (o : Outcomes) (recorderSn ucLocoid : Option CString)
    (ptab : Option (List CameraListElement)) (files : ConfigTexts) : Option Accepted :=
  match ptab, files.base.bind lib.load with
  | none, _ => some ⟨0, [], files⟩
  | some _, none => some ⟨1, [], files⟩
  | some ptab, some pdom =>
    (patchBase recorderSn ucLocoid (userCamdefs ptab) (makeUsercamDom lib (userCamdefs ptab)) pdom).bind fun b =>
      let base := if b.isDirty then o.written .saveBase (some (lib.save b.pdom)) else files.base
      let rc := if b.isDirty then o.result .saveBase else 0
      let steps := if b.isDirty then [.saveBase] else []
      match b.doReplaceCamdefs, files.current.bind lib.load with
      | false, some pdcur =>
        (patchCurrent recorderSn ucLocoid (userCamdefs ptab) pdcur).map fun cur =>
          if cur.1 then
            ⟨o.result .saveCurrent, steps ++ [.saveCurrent], base, o.written .saveCurrent (some (lib.save cur.2))⟩
          else ⟨rc, steps, base, files.current⟩
      | _, _ => some ⟨rc, steps ++ [.copyBase], base, o.written .copyBase base⟩

section

variable (lib : XmlLib) (o : Outcomes) (files : ConfigTexts) (b : BaseResult)

/-- The steps for the base file. -/
def BaseResult.steps : List Step := if b.isDirty then [.saveBase] else []

/-- What the base file is left with. -/
def BaseResult.written : Option CString :=
  if b.isDirty then o.written .saveBase (some (lib.save b.pdom)) else files.base

/-- What saving the base file returns. -/
def BaseResult.rc : ℤ := if b.isDirty then o.result .saveBase else 0

/-- The end of a run that copies the base file. -/
def copied : Accepted :=
  ⟨b.rc o, b.steps ++ [.copyBase], b.written lib o files, o.written .copyBase (b.written lib o files)⟩

/-- The end of a run that patches the current file. -/
def patched (cur : Bool × Nodes) : Accepted :=
  if cur.1 then
    ⟨o.result .saveCurrent, b.steps ++ [.saveCurrent], b.written lib o files,
      o.written .saveCurrent (some (lib.save cur.2))⟩
  else ⟨b.rc o, b.steps, b.written lib o files, files.current⟩

variable {lib o files b} {recorderSn ucLocoid : Option CString} {users : List CameraListElement} {pdom pdcur : Nodes}

/-- What is done when the current file is to be copied or cannot be read. -/
theorem match_copied {α : Type} (replace : Bool) (current : Option Nodes) (patch : Nodes → α) (copy : α) :
    replace = true ∨ current = none →
      (match replace, current with
        | false, some pdcur => patch pdcur
        | _, _ => copy) = copy := by
  rintro (rfl | rfl)
  · rfl
  · cases replace <;> rfl

theorem duAcceptUserConfig_unreadable (h : files.base.bind lib.load = none) :
    duAcceptUserConfig lib o recorderSn ucLocoid (some users) files = some ⟨1, [], files⟩ := by
  unfold duAcceptUserConfig
  rw [h]

theorem duAcceptUserConfig_copied (hload : files.base.bind lib.load = some pdom)
    (hb : patchBase recorderSn ucLocoid (userCamdefs users) (makeUsercamDom lib (userCamdefs users)) pdom = some b)
    (hcopy : b.doReplaceCamdefs = true ∨ files.current.bind lib.load = none) :
    duAcceptUserConfig lib o recorderSn ucLocoid (some users) files = some (copied lib o files b) := by
  unfold duAcceptUserConfig
  rw [hload]
  dsimp only
  rw [hb, Option.bind_some]
  exact match_copied _ _ _ _ hcopy

theorem duAcceptUserConfig_patched (hload : files.base.bind lib.load = some pdom)
    (hb : patchBase recorderSn ucLocoid (userCamdefs users) (makeUsercamDom lib (userCamdefs users)) pdom = some b)
    (hreplace : b.doReplaceCamdefs = false) (hcurrent : files.current.bind lib.load = some pdcur) :
    duAcceptUserConfig lib o recorderSn ucLocoid (some users) files =
      (patchCurrent recorderSn ucLocoid (userCamdefs users) pdcur).map (patched lib o files b) := by
  unfold duAcceptUserConfig
  rw [hload]
  dsimp only
  rw [hb, Option.bind_some, hreplace, hcurrent]
  rfl

/-- A run copies the base file, or patches the current file in place. -/
theorem duAcceptUserConfig_cases {r : Accepted} (hload : files.base.bind lib.load = some pdom)
    (h : duAcceptUserConfig lib o recorderSn ucLocoid (some users) files = some r) :
    ∃ b, patchBase recorderSn ucLocoid (userCamdefs users) (makeUsercamDom lib (userCamdefs users)) pdom = some b ∧
      ((b.doReplaceCamdefs = true ∨ files.current.bind lib.load = none) ∧ r = copied lib o files b ∨
        b.doReplaceCamdefs = false ∧ ∃ pdcur cur, files.current.bind lib.load = some pdcur ∧
          patchCurrent recorderSn ucLocoid (userCamdefs users) pdcur = some cur ∧ r = patched lib o files b cur) := by
  have hrun := h
  unfold duAcceptUserConfig at hrun
  rw [hload] at hrun
  obtain ⟨b, hb, -⟩ := Option.bind_eq_some_iff.mp hrun
  refine ⟨b, hb, ?_⟩
  by_cases hcopy : b.doReplaceCamdefs = true ∨ files.current.bind lib.load = none
  · rw [duAcceptUserConfig_copied hload hb hcopy] at h
    exact .inl ⟨hcopy, (Option.some.inj h).symm⟩
  · obtain ⟨hreplace, hcurrent⟩ := not_or.mp hcopy
    obtain ⟨pdcur, hpdcur⟩ := Option.ne_none_iff_exists'.mp hcurrent
    rw [Bool.not_eq_true] at hreplace
    rw [duAcceptUserConfig_patched hload hb hreplace hpdcur] at h
    obtain ⟨cur, hcur, hr⟩ := Option.map_eq_some_iff.mp h
    exact .inr ⟨hreplace, pdcur, cur, hpdcur, hcur, hr.symm⟩

end

end RecordingAgent.Reagent.DomUtil
