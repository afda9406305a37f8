import Mathlib.Algebra.Order.BigOperators.Group.List
import RecordingAgent.Foundation.Decimal
import RecordingAgent.Foundation.FieldMemory
import RecordingAgent.Reagent.UserConfig

/-!
# The text of the user's cameras

The cameras of the user are printed into a buffer as a document, from a template and with a size that
is estimated from the length of the template. What is printed for a camera may be longer than the
directives of the template, and then the estimate is too small for many cameras.
-/

namespace RecordingAgent.Reagent

open Foundation

/-- `camera_list_element_t`, with the settings as the numbers that are printed. -/
structure CameraListElement where
  camera : CString
  isEssential : ℤ
  cameraMaxRecordingHours : ℤ
  resolution : ℤ
  compression : ℤ
  frameRate : ℤ
  audioEnable : ℤ
  camera_length : camera.length ≤ cameraNameLength := by decide
  camera_nul : nul ∉ camera := by decide

/-- `usercam_tpl` -/
def usercamTpl : CString :=
  "\n <camera>\n".toList ++
    "   <name>%s</name>\n".toList ++
    "   <camera_essential>%d</camera_essential>\n".toList ++
    "   <camera_max_recording_age>%d</camera_max_recording_age>\n".toList ++
    "   <resolution>%d</resolution>\n".toList ++
    "   <compression>%d</compression>\n".toList ++
    "   <frame_rate>%d</frame_rate>\n".toList ++
    "   <record_audio>%d</record_audio>\n".toList ++
    "   <auto_record_to_chm>0</auto_record_to_chm>\n".toList ++
    "   <auto_record_to_rssd>0</auto_record_to_rssd>\n".toList ++
    "   <mount_type>N</mount_type>\n".toList ++
    " </camera>\n".toList

/-- A format of directives of two characters, with the texts that are printed for them. -/
def formatted : CString → List CString → CString
  | '%' :: _ :: tpl, arg :: args => arg ++ formatted tpl args
  | c :: tpl, args => c :: formatted tpl args
  | [], _ => []

/-- The number of directives. -/
def directives : CString → ℕ
  | '%' :: _ :: tpl => directives tpl + 1
  | _ :: tpl => directives tpl
  | [] => 0

/-- What is printed for a camera, in the order of the template. -/
def CameraListElement.printed (u : CameraListElement) : List CString :=
  [u.camera.take cameraNameLength, signedDigits u.isEssential, signedDigits u.cameraMaxRecordingHours,
    signedDigits u.resolution, signedDigits u.compression, signedDigits u.frameRate, signedDigits u.audioEnable]

/-- The texts which are printed one after another. -/
def xmlPieces (ptab : List CameraListElement) : List CString :=
  "<recorder>\n".toList :: (ptab.map fun u => formatted usercamTpl u.printed) ++ ["</recorder>\n".toList]

/-- What `snprintf` writes of a text with the size `maxbuf-pos-1`. A negative size is a very large `size_t`. -/
def writtenPart (maxbuf pos : ℕ) (text : CString) : CString :=
  if pos + 1 < maxbuf then text.take (maxbuf - pos - 2) else text

/-- `snprintf(pbuf+pos, maxbuf-pos-1, "%s", text)`. With the size zero nothing is written. -/
def printAt (maxbuf : ℕ) (pbuf : Memory) (pos : ℕ) (text : CString) : Memory := fun a =>
  if maxbuf ≠ pos + 1 ∧ pos ≤ a ∧ a ≤ pos + (writtenPart maxbuf pos text).length then
    (writtenPart maxbuf pos text)[a - pos]?.getD nul
  else pbuf a

/-- Print texts from a position on: the buffer, and the position after each text. -/
def printAll (maxbuf : ℕ) : List CString → Memory → ℕ → Memory × List ℕ
  | [], pbuf, _ => (pbuf, [])
  | text :: texts, pbuf, pos =>
    let rest := printAll maxbuf texts (printAt maxbuf pbuf pos text) (pos + text.length)
    (rest.1, (pos + text.length) :: rest.2)

/-- `user_camdefs_to_xml`, into a buffer which is zeroed first. -/
def userCamdefsToXml (ptab : List CameraListElement) (maxbuf : ℕ) : Memory × List ℕ :=
  printAll maxbuf (xmlPieces ptab) (fun _ => nul) 0

/-- The size `make_usercam_dom` estimates. -/
def estimatedSize (nUserCamdefs : ℕ) : ℕ :=
  nUserCamdefs * usercamTpl.length + nUserCamdefs * (cameraNameLength + 1) + 64

/-- The string that is then in the buffer. -/
def usercamXml (ptab : List CameraListElement) : CString :=
  (userCamdefsToXml ptab (estimatedSize ptab.length)).1.text 0 (estimatedSize ptab.length)

/-- The whole document is in the buffer, and no position is behind its end. -/
structure XmlComplete (ptab : List CameraListElement) : Prop where
  text : usercamXml ptab = (xmlPieces ptab).flatten
  positions : ∀ pos ∈ (userCamdefsToXml ptab (estimatedSize ptab.length)).2, pos ≤ estimatedSize ptab.length

/-- How many characters are printed for the directives of all cameras. -/
def printedLength (ptab : List CameraListElement) : ℕ :=
  (ptab.map fun u => (u.printed.map List.length).sum).sum

/-- The template has seven directives among its characters. -/
theorem usercamTpl_spec : usercamTpl.length = 397 ∧ directives usercamTpl = 7 ∧ nul ∉ usercamTpl := by decide +kernel

/-- Each directive is replaced by what is printed for it. -/
theorem formatted_length {tpl : CString} {args : List CString} (h : directives tpl = args.length) :
    (formatted tpl args).length + 2 * args.length = tpl.length + (args.map List.length).sum := by
  fun_induction formatted tpl args with
  | case1 c tpl arg args ih =>
    rw [directives, List.length_cons] at h
    have hrest := ih (by omega)
    simp only [List.length_append, List.length_cons, List.map_cons, List.sum_cons]
    omega
  | case2 c tpl args hnot ih =>
    have hrest : directives (c :: tpl) = directives tpl := by
      by_cases hdirective : c = '%' ∧ ∃ d rest, tpl = d :: rest
      · obtain ⟨rfl, d, rest, rfl⟩ := hdirective
        cases args with
        | nil => cases h
        | cons arg args => exact absurd rfl fun heq => hnot d rest arg args rfl rfl heq
      · rw [directives]
        exact fun d rest hpercent htpl => hdirective ⟨hpercent, d, rest, htpl⟩
    have hlength := ih (hrest ▸ h)
    simp only [List.length_cons]
    omega
  | case3 args =>
    rw [directives] at h
    rw [List.length_eq_zero_iff.mp h.symm]
    rfl

/-- The text of a camera is the template without its directives, and what is printed. -/
theorem camera_length_eq (u : CameraListElement) :
    (formatted usercamTpl u.printed).length = 383 + (u.printed.map List.length).sum := by
  have hdirectives : directives usercamTpl = u.printed.length := usercamTpl_spec.2.1
  have hlength := formatted_length hdirectives
  rw [usercamTpl_spec.1, show u.printed.length = 7 from rfl] at hlength
  omega

theorem xmlPieces_length (ptab : List CameraListElement) :
    (xmlPieces ptab).flatten.length = 23 + 383 * ptab.length + printedLength ptab := by
  have hopen : "<recorder>\n".toList.length = 11 := by decide
  have hclose : "</recorder>\n".toList.length = 12 := by decide
  have hcameras : ((ptab.map fun u => formatted usercamTpl u.printed).flatten).length =
      383 * ptab.length + printedLength ptab := by
    induction ptab with
    | nil => rfl
    | cons u ptab ih =>
      rw [List.map_cons, List.flatten_cons, List.length_append, ih, camera_length_eq, printedLength, printedLength,
        List.map_cons, List.sum_cons, List.length_cons]
      omega
  rw [xmlPieces, List.cons_append, List.flatten_cons, List.flatten_append, List.length_append, List.length_append,
    hcameras, List.flatten_singleton, hopen, hclose]
  omega

/-- A text behind which two characters stay free is printed as a whole. -/
theorem printAt_of_fits {maxbuf : ℕ} {pbuf : Memory} {done text : CString} (hbuf : ∀ a, pbuf a = done[a]?.getD nul)
    (hfits : done.length + text.length + 2 ≤ maxbuf) (a : ℕ) :
    printAt maxbuf pbuf done.length text a = (done ++ text)[a]?.getD nul := by
  have hwhole : writtenPart maxbuf done.length text = text := by
    rw [writtenPart, if_pos (by omega), List.take_of_length_le (by omega)]
  unfold printAt
  rw [hwhole]
  split
  next hin => rw [List.getElem?_append_right hin.2.1]
  next hout =>
    rw [hbuf]
    by_cases hlow : a < done.length
    · rw [List.getElem?_append_left hlow]
    · have hhigh : done.length + text.length < a := by omega
      rw [List.getElem?_eq_none (by omega), List.getElem?_eq_none (by rw [List.length_append]; omega)]

/-- A text behind which two characters would not stay free is cut, and a NUL stands in the last character
but one. -/
theorem printAt_of_not_fits {maxbuf pos : ℕ} {pbuf : Memory} {text : CString} (hpos : pos + 2 ≤ maxbuf)
    (hlong : maxbuf < pos + text.length + 2) : printAt maxbuf pbuf pos text (maxbuf - 2) = nul := by
  have hcut : (writtenPart maxbuf pos text).length = maxbuf - pos - 2 := by
    rw [writtenPart, if_pos (by omega), List.length_take]
    omega
  unfold printAt
  rw [if_pos ⟨by omega, by omega, by omega⟩, List.getElem?_eq_none (by omega), Option.getD_none]

/-- From a position behind it on, this character is left alone. -/
theorem printAll_last {maxbuf : ℕ} (texts : List CString) {pbuf : Memory} {pos : ℕ} (hpos : maxbuf < pos + 2)
    (hmaxbuf : 2 ≤ maxbuf) : (printAll maxbuf texts pbuf pos).1 (maxbuf - 2) = pbuf (maxbuf - 2) := by
  induction texts generalizing pbuf pos with
  | nil => rfl
  | cons text texts ih =>
    rw [printAll, ih (by omega), printAt, if_neg (by omega)]

/-- Texts behind which two characters stay free are printed as a whole. -/
theorem printAll_of_fits {maxbuf : ℕ} (texts : List CString) {pbuf : Memory} {done : CString}
    (hbuf : ∀ a, pbuf a = done[a]?.getD nul) (hfits : done.length + texts.flatten.length + 2 ≤ maxbuf) :
    (∀ a, (printAll maxbuf texts pbuf done.length).1 a = (done ++ texts.flatten)[a]?.getD nul) ∧
      ∀ pos ∈ (printAll maxbuf texts pbuf done.length).2, pos ≤ maxbuf := by
  induction texts generalizing pbuf done with
  | nil =>
    refine ⟨fun a => ?_, nofun⟩
    rw [List.flatten_nil, List.append_nil]
    exact hbuf a
  | cons text texts ih =>
    rw [List.flatten_cons, List.length_append] at hfits
    have hprinted : ∀ a, printAt maxbuf pbuf done.length text a = (done ++ text)[a]?.getD nul :=
      printAt_of_fits hbuf (by omega)
    have hnext : (done ++ text).length + texts.flatten.length + 2 ≤ maxbuf := by
      rw [List.length_append]
      omega
    obtain ⟨hrest, hpositions⟩ := ih hprinted hnext
    rw [List.length_append] at hrest hpositions
    refine ⟨fun a => ?_, List.forall_mem_cons.mpr ⟨by omega, hpositions⟩⟩
    rw [List.flatten_cons, ← List.append_assoc]
    exact hrest a

/-- Texts which are longer are cut. -/
theorem printAll_of_not_fits {maxbuf : ℕ} (texts : List CString) {pbuf : Memory} {pos : ℕ} (hpos : pos + 2 ≤ maxbuf)
    (hlong : maxbuf < pos + texts.flatten.length + 2) : (printAll maxbuf texts pbuf pos).1 (maxbuf - 2) = nul := by
  induction texts generalizing pbuf pos with
  | nil => exact absurd hlong (by simpa using hpos)
  | cons text texts ih =>
    rw [List.flatten_cons, List.length_append] at hlong
    rw [printAll]
    by_cases hfits : pos + text.length + 2 ≤ maxbuf
    · exact ih hfits (by omega)
    · rw [printAll_last texts (by omega) (by omega)]
      exact printAt_of_not_fits hpos (by omega)

/-- What is printed has no NUL in it. -/
theorem nul_not_mem_formatted {tpl : CString} {args : List CString} (htpl : nul ∉ tpl) (hargs : ∀ arg ∈ args, nul ∉ arg) :
    nul ∉ formatted tpl args := by
  fun_induction formatted tpl args with
  | case1 c tpl arg args ih =>
    obtain ⟨harg, hrest⟩ := List.forall_mem_cons.mp hargs
    rw [List.mem_append, not_or]
    exact ⟨harg, ih (fun h => htpl (List.mem_cons_of_mem _ (List.mem_cons_of_mem _ h))) hrest⟩
  | case2 c tpl args hnot ih =>
    rw [List.mem_cons, not_or] at htpl ⊢
    exact ⟨htpl.1, ih htpl.2 hargs⟩
  | case3 args => exact List.not_mem_nil

theorem nul_not_mem_signedDigits (z : ℤ) : nul ∉ signedDigits z := by
  intro h
  rcases mem_signedDigits h with hdigit | hminus
  · exact absurd hdigit (by decide)
  · exact absurd hminus (by decide)

theorem nul_not_mem_xmlPieces (ptab : List CameraListElement) : nul ∉ (xmlPieces ptab).flatten := by
  rw [xmlPieces, List.cons_append, List.flatten_cons, List.flatten_append, List.mem_append, List.mem_append, not_or, not_or]
  refine ⟨by decide, fun h => ?_, by decide⟩
  obtain ⟨text, htext, hmem⟩ := List.mem_flatten.mp h
  obtain ⟨u, -, rfl⟩ := List.mem_map.mp htext
  refine nul_not_mem_formatted usercamTpl_spec.2.2 (fun arg harg => ?_) hmem
  simp only [CameraListElement.printed, List.mem_cons, List.not_mem_nil, or_false] at harg
  rcases harg with rfl | rfl | rfl | rfl | rfl | rfl | rfl
  · exact fun hname => u.camera_nul (List.mem_of_mem_take hname)
  all_goals exact nul_not_mem_signedDigits _

/-- Texts without a NUL behind which two characters stay free are then in the buffer. -/
theorem text_printAll {maxbuf : ℕ} {texts : List CString} (hnul : nul ∉ texts.flatten)
    (hfits : texts.flatten.length + 2 ≤ maxbuf) :
    (printAll maxbuf texts (fun _ => nul) 0).1.text 0 maxbuf = texts.flatten ∧
      ∀ pos ∈ (printAll maxbuf texts (fun _ => nul) 0).2, pos ≤ maxbuf := by
  have hnothing : ∀ a : ℕ, nul = ([] : CString)[a]?.getD nul := fun _ => rfl
  have hroom : ([] : CString).length + texts.flatten.length + 2 ≤ maxbuf := by
    rw [List.length_nil, Nat.zero_add]
    exact hfits
  obtain ⟨hbuf, hpositions⟩ := printAll_of_fits texts hnothing hroom
  refine ⟨?_, hpositions⟩
  have hread : ∀ i < maxbuf, (printAll maxbuf texts (fun _ => nul) 0).1 (0 + i) = texts.flatten[i]?.getD nul := by
    intro i _
    rw [Nat.zero_add]
    exact hbuf i
  rw [Memory.text_of_getElem hnul hread, List.take_of_length_le (by omega)]

/-- The document is complete exactly if two characters stay free behind it. -/
theorem xmlComplete_iff_length (ptab : List CameraListElement) :
    XmlComplete ptab ↔ (xmlPieces ptab).flatten.length + 2 ≤ estimatedSize ptab.length := by
  have hroom : 2 ≤ estimatedSize ptab.length := by
    rw [estimatedSize]
    omega
  constructor
  · intro h
    by_contra hlong
    have hcut : (userCamdefsToXml ptab (estimatedSize ptab.length)).1 (estimatedSize ptab.length - 2) = nul :=
      printAll_of_not_fits (xmlPieces ptab) (by omega) (by omega)
    have hshort : (usercamXml ptab).length ≤ estimatedSize ptab.length - 2 :=
      Memory.text_length_le (by rwa [Nat.zero_add]) _
    rw [h.text] at hshort
    omega
  · intro hfits
    obtain ⟨htext, hpositions⟩ := text_printAll (nul_not_mem_xmlPieces ptab) hfits
    exact ⟨htext, hpositions⟩

/-- Thirteen cameras fit, if their settings have at most three characters. -/
theorem xmlComplete_of_thirteen {ptab : List CameraListElement} (hcount : ptab.length ≤ 13)
    (hsettings : ∀ u ∈ ptab, ∀ text ∈ u.printed.tail, text.length ≤ 3) : XmlComplete ptab := by
  have hcamera : ∀ u ∈ ptab, (u.printed.map List.length).sum ≤ 30 := by
    intro u hu
    have htail : (u.printed.tail.map List.length).sum ≤ 6 * 3 :=
      List.sum_le_card_nsmul _ 3 (List.forall_mem_map.mpr (hsettings u hu))
    have hname := (List.length_take_le cameraNameLength u.camera).trans (le_refl 12)
    have hprinted : u.printed = u.camera.take cameraNameLength :: u.printed.tail := rfl
    rw [hprinted, List.map_cons, List.sum_cons]
    omega
  have htotal : printedLength ptab ≤ ptab.length * 30 := by
    have hsum := List.sum_le_card_nsmul _ 30 (List.forall_mem_map.mpr hcamera)
    rwa [List.length_map] at hsum
  rw [xmlComplete_iff_length, xmlPieces_length, estimatedSize, usercamTpl_spec.1, cameraNameLength]
  omega

/-- A camera of the list with a plain name and settings that are not negative. -/
def UserCamera.listElement (u : UserCamera) : CameraListElement where
  camera := u.camera
  isEssential := u.isEssential
  cameraMaxRecordingHours := u.cameraMaxRecordingHours
  resolution := u.resolution
  compression := u.compression
  frameRate := u.frameRate
  audioEnable := u.audioEnable
  camera_length := u.camera_length
  camera_nul h := by
    have hchar : isNameChar nul = true := List.all_eq_true.mp u.camera_chars nul h
    exact absurd hchar (by decide)

theorem signedDigits_natCast (n : ℕ) : signedDigits (n : ℤ) = Nat.toDigits 10 n := by
  rw [signedDigits, if_neg (by omega), Int.natAbs_natCast]

/-- The length of the text is what it was taken for when the lists were merged. -/
theorem xmlPieces_length_listElement (users : List UserCamera) :
    (xmlPieces (users.map UserCamera.listElement)).flatten.length = userXmlLength users := by
  have hcamera : ∀ u : UserCamera, 383 + (u.listElement.printed.map List.length).sum =
      usercamTplLength - usercamTplConversions + u.camera.length + (u.options.map fun o => o.2.length).sum := by
    intro u
    have hname : (u.camera.take cameraNameLength).length = u.camera.length := by
      rw [List.take_of_length_le u.camera_length]
    simp only [CameraListElement.printed, UserCamera.listElement, UserCamera.options, signedDigits_natCast, hname,
      List.map_cons, List.map_nil, List.sum_cons, List.sum_nil, usercamTplLength, usercamTplConversions]
    omega
  have hcameras : 383 * users.length + printedLength (users.map UserCamera.listElement) =
      (users.map fun u => usercamTplLength - usercamTplConversions + u.camera.length +
        (u.options.map fun o => o.2.length).sum).sum := by
    simp only [← hcamera]
    induction users with
    | nil => rfl
    | cons u users ih =>
      simp only [printedLength, List.map_cons, List.sum_cons, List.length_cons] at ih ⊢
      omega
  rw [xmlPieces_length, List.length_map, userXmlLength, ← hcameras]
  omega

/-- The document is complete exactly when the list was taken to have a document. -/
theorem xmlComplete_listElement_iff (users : List UserCamera) :
    XmlComplete (users.map UserCamera.listElement) ↔ userXmlLength users + 2 ≤ xmlbufSize users.length := by
  rw [xmlComplete_iff_length, xmlPieces_length_listElement, List.length_map, estimatedSize, usercamTpl_spec.1]
  exact Iff.rfl

/-- A camera with a name of twelve characters and settings of three digits. -/
def widestCamera : CameraListElement where
  camera := "FRONT-CAMERA".toList
  isEssential := 100
  cameraMaxRecordingHours := 720
  resolution := 100
  compression := 100
  frameRate := 100
  audioEnable := 100

end RecordingAgent.Reagent
