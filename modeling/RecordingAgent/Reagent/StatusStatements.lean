import RecordingAgent.Reagent.NamePadding
import RecordingAgent.Reagent.Pictures
import RecordingAgent.Reagent.UsercamXml

/-!
# The statements which carry the status to Lua

At the end of a pass the 1 Hz timer prints a Lua statement with the run-time values of the media record, and one for
each configured camera, into a buffer of 256 bytes, and has them executed. The values of a camera are those from
before its worker is looked after. A statement is printed piece by piece: the name of an attribute and its value, for
each row of a table.
-/

namespace RecordingAgent.Reagent

open Foundation

/-- The value of a row of `media_attr` or `camera_attr`, a string or not. -/
inductive AttrValue
  | int (n : ℤ)
  | string (text : CString)
  deriving DecidableEq

/-- A row: the name of the attribute, and its value. -/
abbrev Attr := CString × AttrValue

/-- How a value is printed, a string between quotes. -/
def AttrValue.printed (quote : Char) : AttrValue → CString
  | .int n => signedDigits n
  | .string text => quote :: (text ++ [quote])

/-- The rows of `media_attr`. -/
def mediaAttr (m : MediaInfo) : List Attr :=
  [("is_chm_ready".toList, .int m.isChmReady.toInt), ("is_rssd_ready".toList, .int m.isRssdReady.toInt),
    ("n_cams_recording".toList, .int m.nCamsRecording), ("loco_id".toList, .string m.locoId)]

/-- The rows of `camera_attr`. -/
def cameraAttr (r : CamRuntime) : List Attr :=
  [("is_assigned".toList, .int r.isAssigned.toInt), ("is_online".toList, .int r.isOnline.toInt),
    ("resolution".toList, .int r.resolution), ("compression".toList, .int r.compression),
    ("frame_rate".toList, .int r.frameRate), ("recording_mode_flags".toList, .int r.recordingModeFlags.toInt),
    ("recording_status_flags".toList, .int r.recordingStatusFlags.toInt),
    ("commanded_paused".toList, .int r.commandedPaused.toInt)]

/-- The loop over the rows of a table: the name behind a comma, but for the first row, and the value. -/
def attrPieces (quote : Char) (first : CString) : List Attr → List CString
  | [] => []
  | (attrName, value) :: rest => (first ++ attrName ++ ['=']) :: value.printed quote :: attrPieces quote ", ".toList rest

/-- What is printed for the media record. -/
def mediaPieces (m : MediaInfo) : List CString :=
  "shared.sMedia='local mstatus=\x7b ".toList :: (attrPieces '"' [] (mediaAttr m) ++ [" \x7d; return mstatus ;'".toList])

/-- What is printed for a camera. -/
def cameraPieces (nCameras i : ℕ) (r : CamRuntime) (name : CString) : List CString :=
  (if i = 0 then ["shared.n_cameras=".toList ++ signedDigits nCameras ++ ";".toList] else []) ++
    ("shared.sCam".toList ++ signedDigits (i + 1) ++ "='local cstatus=\x7b ".toList) ::
    (attrPieces '\'' [] (cameraAttr r) ++ [" \x7d; return cstatus,\"".toList ++ name ++ "\" ;'".toList])

/-- `sizeof(string)` -/
def sizeofString : ℕ := 256

/-- The size argument `sizeof(string)-len-1`, a `size_t`. -/
def sizeArg (len : ℕ) : ℕ := (((sizeofString : ℤ) - len - 1) % 2 ^ 64).toNat

/-- `len` after these pieces were printed. -/
def lenAfter (pieces : List CString) : ℕ := (printAll sizeofString pieces (fun _ => nul) 0).2.getLastD 0

/-- The statement in the buffer, as `luaL_dostring` reads it. -/
def statement (pieces : List CString) : CString :=
  (printAll sizeofString pieces (fun _ => nul) 0).1.text 0 sizeofString

/-- `names[i]`: up to twelve characters of the name, truncated in place. -/
def shownName (name : CString) : CString :=
  (truncNameAt (stored (name.take cameraNameLength)) cameraNameLength).text 0 cameraNameLength

/-- What is copied of a camera: its slot, its run-time record `c_status[i]`, and `names[i]`. -/
abbrev CameraCopy := Slot × CamRuntime × CString

namespace Agent

/-- The loop over the cameras: each is copied before its worker is looked after. -/
def restartCopying (s : Agent) : List Slot → List CameraCopy × Agent
  | [] => ([], s)
  | c :: cs =>
    let rest := (s.restartCamera c).restartCopying cs
    ((c, (s.cam c).runtime, shownName (s.cam c).name) :: rest.1, rest.2)

/-- The restart half of a pass with the statements it has Lua execute at its end, the media record's first. -/
def pushStatus (s : Agent) : List CString × Agent :=
  let copied := s.restartCopying s.media.configured
  let s := copied.2.handleMetarec.handleSpaceMonitor
  (statement (mediaPieces s.media) ::
    copied.1.map fun c => statement (cameraPieces s.media.nCameras c.1 c.2.1 c.2.2), s)

end Agent

/-- Each piece is printed as a whole, with a size which is what the buffer has left but one character. -/
def PrintedWhole (pieces : List CString) : Prop :=
  ∀ done piece rest, pieces = done ++ piece :: rest →
    piece.length < sizeArg (lenAfter done) ∧ lenAfter done + sizeArg (lenAfter done) + 1 = sizeofString

/-- The values a camera's record takes at run time: the picture parameters are what three characters or a message
hold, and the words have the flags which are defined. -/
structure CamRuntime.InRange (r : CamRuntime) : Prop where
  resolution : -99 ≤ r.resolution ∧ r.resolution ≤ 999
  compression : -99 ≤ r.compression ∧ r.compression ≤ 999
  frameRate : -99 ≤ r.frameRate ∧ r.frameRate ≤ 999
  recordingModeFlags : r.recordingModeFlags < 0x20
  recordingStatusFlags : r.recordingStatusFlags < 0x20

/-! ## Lengths -/

theorem lenAfter_eq (pieces : List CString) : lenAfter pieces = pieces.flatten.length := by
  have hlast : ∀ (pieces : List CString) (pbuf : Memory) (pos : ℕ),
      (printAll sizeofString pieces pbuf pos).2.getLastD pos = pos + pieces.flatten.length := by
    intro pieces
    induction pieces with
    | nil => intro pbuf pos; rfl
    | cons piece pieces ih =>
      intro pbuf pos
      rw [printAll, List.getLastD_cons, ih, List.flatten_cons, List.length_append, Nat.add_assoc]
  rw [lenAfter, hlast, Nat.zero_add]

/-- Pieces which leave two bytes of the buffer free are printed whole. -/
theorem printedWhole_of_length {pieces : List CString} (h : pieces.flatten.length + 2 ≤ sizeofString) :
    PrintedWhole pieces := by
  rintro done piece rest rfl
  rw [List.flatten_append, List.flatten_cons, List.length_append, List.length_append] at h
  rw [lenAfter_eq, sizeArg, Int.emod_eq_of_lt (by rw [sizeofString] at h ⊢; omega) (by rw [sizeofString]; omega)]
  omega

/-- Their text is then the statement, if there is no NUL in it. -/
theorem statement_eq {pieces : List CString} (hnul : nul ∉ pieces.flatten)
    (h : pieces.flatten.length + 2 ≤ sizeofString) : statement pieces = pieces.flatten :=
  (text_printAll hnul h).1

/-- The characters of a row: two for the comma and the blank, the name, an equals sign and the value. -/
theorem attrPieces_length (quote : Char) (first : CString) {attrs : List Attr} (hne : attrs ≠ []) :
    (attrPieces quote first attrs).flatten.length + 2 =
      first.length + (attrs.map fun a => a.1.length).sum + 3 * attrs.length +
        (attrs.map fun a => (a.2.printed quote).length).sum := by
  induction attrs generalizing first with
  | nil => exact absurd rfl hne
  | cons attr rest ih =>
    obtain ⟨attrName, value⟩ := attr
    simp only [attrPieces, List.flatten_cons, List.length_append, List.length_cons, List.map_cons, List.sum_cons,
      List.length_nil]
    cases rest with
    | nil =>
      simp only [attrPieces, List.flatten_nil, List.length_nil, List.map_nil, List.sum_nil]
      omega
    | cons next rest =>
      have hrest := ih ", ".toList (List.cons_ne_nil next rest)
      rw [show ", ".toList.length = 2 from rfl] at hrest
      omega

theorem signedDigits_toInt_length (b : Bool) : (signedDigits b.toInt).length = 1 := by
  cases b <;> decide

theorem signedDigits_natCast_length {n : ℕ} (h : n < 100) : (signedDigits n).length ≤ 2 := by
  have hlength := signedDigits_length (z := n) (show 0 < 2 by decide) (by simpa using h)
  rwa [if_neg (by omega)] at hlength

theorem signedDigits_picture_length {z : ℤ} (h : -99 ≤ z ∧ z ≤ 999) : (signedDigits z).length ≤ 3 := by
  by_cases hneg : z < 0
  · have hlength := signedDigits_length (z := z) (show 0 < 2 by decide) (by omega)
    rwa [if_pos hneg] at hlength
  · have hlength := signedDigits_length (z := z) (show 0 < 3 by decide) (by omega)
    rwa [if_neg hneg] at hlength

theorem signedDigits_flags_length {flags : Flags} (h : flags < 0x20) : (signedDigits flags.toInt).length ≤ 2 := by
  have hsmall : flags.toNat < 32 := h
  rw [BitVec.toInt_eq_toNat_of_lt (by omega)]
  exact signedDigits_natCast_length (by omega)

/-- The media statement has at most 177 characters. -/
theorem mediaPieces_length {m : MediaInfo} (hcount : m.nCamsRecording < 2 ^ 31) (hloco : m.locoId.length ≤ 32) :
    (mediaPieces m).flatten.length ≤ 177 := by
  have hrows := attrPieces_length '"' [] (show mediaAttr m ≠ [] from List.cons_ne_nil _ _)
  have hnames : ((mediaAttr m).map fun a => a.1.length).sum = 48 := rfl
  have hvalues : ((mediaAttr m).map fun a => (a.2.printed '"').length).sum =
      1 + (1 + ((signedDigits m.nCamsRecording).length + (m.locoId.length + 2))) := by
    simp [mediaAttr, AttrValue.printed, signedDigits_toInt_length]
  have hdigits := signedDigits_length_le (z := m.nCamsRecording) (by omega)
  rw [hnames, hvalues, show (mediaAttr m).length = 4 from rfl, List.length_nil] at hrows
  rw [mediaPieces, List.flatten_cons, List.flatten_append, List.length_append, List.length_append, List.flatten_singleton,
    show "shared.sMedia='local mstatus=\x7b ".toList.length = 31 from rfl,
    show " \x7d; return mstatus ;'".toList.length = 21 from rfl]
  omega

/-- A camera statement has at most 234 characters. -/
theorem cameraPieces_length {nCameras i : ℕ} (hn : nCameras ≤ maxCams) (hi : i < nCameras) {r : CamRuntime}
    (hr : r.InRange) {name : CString} (hname : name.length ≤ cameraNameLength) :
    (cameraPieces nCameras i r name).flatten.length ≤ 234 := by
  have hrows := attrPieces_length '\'' [] (show cameraAttr r ≠ [] from List.cons_ne_nil _ _)
  have hnames : ((cameraAttr r).map fun a => a.1.length).sum = 109 := rfl
  have hvalues : ((cameraAttr r).map fun a => (a.2.printed '\'').length).sum ≤ 16 := by
    have hresolution := signedDigits_picture_length hr.resolution
    have hcompression := signedDigits_picture_length hr.compression
    have hframeRate := signedDigits_picture_length hr.frameRate
    have hmode := signedDigits_flags_length hr.recordingModeFlags
    have hstatus := signedDigits_flags_length hr.recordingStatusFlags
    simp only [cameraAttr, AttrValue.printed, signedDigits_toInt_length, List.map_cons, List.map_nil, List.sum_cons,
      List.sum_nil]
    omega
  rw [hnames, show (cameraAttr r).length = 8 from rfl, List.length_nil] at hrows
  have hcount := signedDigits_natCast_length (n := nCameras) (by rw [maxCams] at hn; omega)
  have hnumber := signedDigits_natCast_length (n := i + 1) (by rw [maxCams] at hn; omega)
  rw [cameraNameLength] at hname
  have hfirst : ((if i = 0 then ["shared.n_cameras=".toList ++ signedDigits nCameras ++ ";".toList] else []) :
      List CString).flatten.length ≤ 20 := by
    split
    · simp only [List.flatten_singleton, List.length_append, show "shared.n_cameras=".toList.length = 17 from rfl,
        show ";".toList.length = 1 from rfl]
      omega
    · exact Nat.zero_le _
  simp only [cameraPieces, List.flatten_append, List.flatten_cons, List.flatten_nil, List.length_append,
    show "shared.sCam".toList.length = 11 from rfl, show "='local cstatus=\x7b ".toList.length = 18 from rfl,
    show " \x7d; return cstatus,\"".toList.length = 20 from rfl, show "\" ;'".toList.length = 4 from rfl, List.length_nil]
  push_cast at hnumber
  omega

/-- No statement is cut, whatever is in the media record and in the record of a camera: every size is what the buffer
has left. -/
theorem statements_printedWhole {m : MediaInfo} (hn : m.nCameras ≤ maxCams) (hcount : m.nCamsRecording < 2 ^ 31)
    (hloco : m.locoId.length ≤ 32) :
    PrintedWhole (mediaPieces m) ∧
      ∀ i < m.nCameras, ∀ r : CamRuntime, r.InRange → ∀ name : CString, name.length ≤ cameraNameLength →
        PrintedWhole (cameraPieces m.nCameras i r name) := by
  constructor
  · have hlength := mediaPieces_length hcount hloco
    exact printedWhole_of_length (by rw [sizeofString]; omega)
  · intro i hi r hr name hname
    have hlength := cameraPieces_length hn hi hr hname
    exact printedWhole_of_length (by rw [sizeofString]; omega)

/-- A recorder with one camera. -/
def cabMedia : MediaInfo := raconfInit (cabConfig true) true true none

theorem statements_printedWhole_cab :
    PrintedWhole (mediaPieces cabMedia) ∧
      ∀ i < cabMedia.nCameras, ∀ r : CamRuntime, r.InRange → ∀ name : CString, name.length ≤ cameraNameLength →
        PrintedWhole (cameraPieces cabMedia.nCameras i r name) :=
  statements_printedWhole (by decide) (by decide) (by decide)

/-! ## What a pass prints -/

/-- The restart half of a pass is as it was followed without the statements. -/
theorem Agent.pushStatus_agent (s : Agent) : s.pushStatus.2 = s.restartPass := by
  have hfold : ∀ (cs : List Slot) (s : Agent), (s.restartCopying cs).2 = cs.foldl restartCamera s := by
    intro cs
    induction cs with
    | nil => exact fun s => rfl
    | cons c cs ih => exact fun s => ih (s.restartCamera c)
  rw [pushStatus, restartPass, ← hfold]

/-- Looking after the workers of other cameras leaves a camera's record as it is when it is copied. -/
theorem Agent.restartCopying_eq {cs : List Slot} (hcs : cs.Nodup) (s : Agent) :
    (s.restartCopying cs).1 = cs.map fun c => (c, (s.cam c).runtime, shownName (s.cam c).name) := by
  induction cs generalizing s with
  | nil => rfl
  | cons c cs ih =>
    obtain ⟨hc, hcs⟩ := List.nodup_cons.mp hcs
    rw [restartCopying, ih hcs, List.map_cons]
    refine congrArg _ (List.map_congr_left fun d hd => ?_)
    have hother : d ≠ c := fun heq => hc (heq ▸ hd)
    rw [(Frame.restartCamera s).cam d hother]

theorem Agent.restartPass_media (s : Agent) :
    s.restartPass.media.nCameras = s.media.nCameras ∧ s.restartPass.media.locoId = s.media.locoId := by
  have hcount : s.restartPass.media.nCameras = s.media.nCameras :=
    @restartPass_invariant (fun t => t.media.nCameras = s.media.nCameras) s rfl (fun _ h => h)
      fun t c _ h => (Frame.restartCamera t).nCameras.trans h
  exact ⟨hcount, (PictureKept.restartPass s).locoId⟩

/-- The statements of a pass: the media record's values are those after it, the cameras' those before. -/
theorem Agent.pushStatus_statements (s : Agent) :
    s.pushStatus.1 = statement (mediaPieces s.restartPass.media) :: s.media.configured.map fun c : Slot =>
      statement (cameraPieces s.media.nCameras c (s.cam c).runtime (shownName (s.cam c).name)) := by
  have hafter : (s.restartCopying s.media.configured).2.handleMetarec.handleSpaceMonitor = s.restartPass :=
    s.pushStatus_agent
  rw [pushStatus, hafter, restartCopying_eq s.media.nodup_configured, List.map_map, s.restartPass_media.1]
  rfl

end RecordingAgent.Reagent
