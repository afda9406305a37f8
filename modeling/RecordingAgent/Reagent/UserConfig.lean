import Mathlib.Algebra.GroupWithZero.Nat
import RecordingAgent.Foundation.Entries
import RecordingAgent.Reagent.Config

/-!
# Accepting the user's camera list

The two configuration files are brought to the camera list of the user: the base file is patched
where its cameras are the user's, and rebuilt otherwise; the current file is patched, or copied
from the base file. A document is kept as far as the functions read or write it: the parameters
of the recorder, and for each camera the texts of its elements. Files can be saved and copied.
-/

namespace RecordingAgent.Reagent

open Foundation

/-- The elements of a camera. -/
inductive CameraTag
  | name
  | cameraEssential
  | cameraMaxRecordingAge
  | resolution
  | compression
  | frameRate
  | recordAudio
  | autoRecordToChm
  | autoRecordToRssd
  | mountType
  | other (tag : CString)
  deriving DecidableEq

/-- The elements of a recorder besides its cameras. -/
inductive RecorderTag
  | serialNumber
  | locoId
  | other (tag : CString)
  deriving DecidableEq

/-- A camera: its elements with their texts. -/
abbrev CameraElement := List (CameraTag × CString)

/-- A configuration document. -/
structure Document where
  /-- Whether a `recorder` element lies below the root. -/
  hasRecorder : Bool
  params : List (RecorderTag × CString)
  cameras : List CameraElement
  deriving DecidableEq

/-- The characters a camera name may have; none of them means anything in XML. -/
def isNameChar (c : Char) : Bool := c.isAlphanum || c == '_' || c == '-'

/-- An entry of the user's camera list. -/
structure UserCamera where
  camera : CString
  resolution : ℕ
  compression : ℕ
  frameRate : ℕ
  audioEnable : ℕ
  isEssential : ℕ
  cameraMaxRecordingHours : ℕ
  camera_length : camera.length ≤ cameraNameLength := by decide
  camera_chars : camera.all isNameChar = true := by decide
  deriving DecidableEq

/-- The elements a user camera sets, in the order they are patched. -/
def UserCamera.options (u : UserCamera) : List (CameraTag × CString) :=
  [(.resolution, Nat.toDigits 10 u.resolution), (.compression, Nat.toDigits 10 u.compression),
    (.frameRate, Nat.toDigits 10 u.frameRate), (.recordAudio, Nat.toDigits 10 u.audioEnable),
    (.cameraEssential, Nat.toDigits 10 u.isEssential),
    (.cameraMaxRecordingAge, Nat.toDigits 10 u.cameraMaxRecordingHours)]

/-- What the template `usercam_tpl` makes of a user camera. -/
def UserCamera.element (u : UserCamera) : CameraElement :=
  [(.name, u.camera.take cameraNameLength), (.cameraEssential, Nat.toDigits 10 u.isEssential),
    (.cameraMaxRecordingAge, Nat.toDigits 10 u.cameraMaxRecordingHours),
    (.resolution, Nat.toDigits 10 u.resolution), (.compression, Nat.toDigits 10 u.compression),
    (.frameRate, Nat.toDigits 10 u.frameRate), (.recordAudio, Nat.toDigits 10 u.audioEnable),
    (.autoRecordToChm, ['0']), (.autoRecordToRssd, ['0']), (.mountType, ['N'])]

/-- The entries before the first without a name, `count_user_camdefs`. -/
def userCamdefs (ptab : List UserCamera) : List UserCamera := (ptab.take maxCams).takeWhile (·.camera ≠ [])

/-- The length of the template, and of the conversions in it. -/
def usercamTplLength : ℕ := 397
def usercamTplConversions : ℕ := 14

/-- How long the text of the user's cameras gets. -/
def userXmlLength (users : List UserCamera) : ℕ :=
  11 + (users.map fun u => usercamTplLength - usercamTplConversions + u.camera.length +
    (u.options.map fun o => o.2.length).sum).sum + 12

/-- The size of the buffer for that text, as it is estimated. -/
def xmlbufSize (nUserCamdefs : ℕ) : ℕ :=
  nUserCamdefs * usercamTplLength + nUserCamdefs * (cameraNameLength + 1) + 64

/-- The cameras of the user as a document. A text which is cut at the end of its buffer does not parse. -/
def makeUsercamDom (users : List UserCamera) : Option (List CameraElement) :=
  if 0 < users.length ∧ userXmlLength users + 2 ≤ xmlbufSize users.length then some (users.map UserCamera.element)
  else none

/-- Give an element a new text if it has another one. -/
def duSetChildNewData {κ : Type} [DecidableEq κ] (pdom : List (κ × CString)) (tag : κ) (newVal : CString) :
    Bool × List (κ × CString) :=
  match pdom.lookup tag with
  | some curValue => if newVal = curValue then (false, pdom) else (true, setFirst tag newVal pdom)
  | none => (false, pdom)

/-- Set several elements, and tell whether one of them was changed. -/
def setChildren {κ : Type} [DecidableEq κ] (settings pdom : List (κ × CString)) : Bool × List (κ × CString) :=
  settings.foldl (fun p s =>
    (p.1 || (duSetChildNewData p.2 s.1 s.2).1, (duSetChildNewData p.2 s.1 s.2).2)) (false, pdom)

/-- A parameter which is given is a setting. -/
def givenParam (tag : RecorderTag) : Option CString → List (RecorderTag × CString)
  | some (c :: text) => [(tag, c :: text)]
  | _ => []

/-- `patch_recorder_params`. -/
def patchRecorderParams (pdom : Document) (recorderSn ucLocoid : Option CString) : Bool × Document :=
  let patched := setChildren (givenParam .serialNumber recorderSn ++ givenParam .locoId ucLocoid) pdom.params
  (patched.1, { pdom with params := patched.2 })

/-- The first user camera with the name of the camera. -/
def matchingUser (users : List UserCamera) (node : CameraElement) : Option UserCamera :=
  (node.lookup .name).bind fun text =>
    users.find? fun u => u.camera ≠ [] && strncasecmpEq text u.camera cameraNameLength

/-- What patching a list of cameras gives. -/
structure Patched where
  isDirty : Bool
  matched : ℕ
  cameras : List CameraElement

/-- Patch one camera. -/
def patchNode (users : List UserCamera) (node : CameraElement) : Bool × CameraElement :=
  match matchingUser users node with
  | some u => setChildren u.options node
  | none => (false, node)

/-- `patch_camdefs`. -/
def patchCamdefs (cameras : List CameraElement) (users : List UserCamera) : Patched where
  isDirty := cameras.any (fun node => (patchNode users node).1) ||
    cameras.countP (fun node => (matchingUser users node).isSome) != users.length
  matched := cameras.countP fun node => (matchingUser users node).isSome
  cameras := cameras.map fun node => (patchNode users node).2

/-- `du_del_children_by_tag` and `du_adopt_child_nodes` for the cameras. -/
def replaceCamdefs (pdom : Document) (userdom : Option (List CameraElement)) : Document :=
  match userdom with
  | some cameras => { pdom with cameras := if pdom.hasRecorder then cameras else [] }
  | none => { pdom with cameras := [] }

/-- The two configuration files; a file which cannot be read or parsed has no document. -/
structure ConfigFiles where
  base : Option Document
  current : Option Document

/-- Bring the current file to the user's cameras without rebuilding it. -/
def patchCurrent (pdcur : Document) (recorderSn ucLocoid : Option CString) (users : List UserCamera) : Document :=
  let params := patchRecorderParams pdcur recorderSn ucLocoid
  -- how many cameras matched is not looked at
  let patched := patchCamdefs params.2.cameras users
  if params.1 || patched.isDirty then { params.2 with cameras := patched.cameras } else pdcur

/-- `du_accept_user_config`. -/
def duAcceptUserConfig (files : ConfigFiles) (recorderSn ucLocoid : Option CString) (ucCameras : List UserCamera) :
    ℤ × ConfigFiles :=
  match files.base with
  | none => (1, files)
  | some base =>
    let params := patchRecorderParams base recorderSn ucLocoid
    let users := userCamdefs ucCameras
    let userdom := makeUsercamDom users
    let baseNCamdefs := params.2.cameras.length
    let patched := patchCamdefs params.2.cameras users
    let compares := 0 < users.length && baseNCamdefs == users.length
    let doReplace := !compares || patched.matched != baseNCamdefs
    let pdom := if compares then { params.2 with cameras := patched.cameras } else params.2
    let pdom := if doReplace then replaceCamdefs pdom userdom else pdom
    let isDirty := params.1 || compares && patched.isDirty || doReplace
    let base' := if isDirty then pdom else base
    match files.current with
    -- a current file which cannot be read is copied from the base file, whether that was saved or not
    | none => (0, ⟨some base', some base'⟩)
    | some pdcur =>
      if doReplace then (0, ⟨some base', some base'⟩)
      else (0, ⟨some base', some (patchCurrent pdcur recorderSn ucLocoid users)⟩)

end RecordingAgent.Reagent
