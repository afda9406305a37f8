import RecordingAgent.Reagent.UserConfig

/-!
# When both files end with the user's cameras

Accepting a camera list patches the cameras of both files in place, or replaces those of the
base file and copies it. The base file ends right when it is rebuilt, or when its cameras were
the user's. The current file is rebuilt only together with the base file: where it names other
cameras than the base file it keeps them.
-/

namespace RecordingAgent.Reagent

open Foundation

/-- The camera has the name of the user camera. -/
def Named (node : CameraElement) (u : UserCamera) : Prop :=
  ∃ text, node.lookup .name = some text ∧ strncasecmpEq text u.camera cameraNameLength = true

/-- The names of the cameras are those of the user's list. -/
structure NamesAgree (cameras : List CameraElement) (users : List UserCamera) : Prop where
  known : ∀ node ∈ cameras, ∃ u ∈ users, Named node u
  present : ∀ u ∈ users, ∃ node ∈ cameras, Named node u

/-- The cameras are the user's, with the user's settings. -/
structure Agrees (cameras : List CameraElement) (users : List UserCamera) : Prop extends NamesAgree cameras users where
  options : ∀ node ∈ cameras, ∀ u ∈ users, Named node u → ∀ o ∈ u.options, node.lookup o.1 = some o.2

/-- Different entries of the list have different names. -/
def NamesDistinct (users : List UserCamera) : Prop :=
  ∀ u ∈ users, ∀ v ∈ users, strncasecmpEq u.camera v.camera cameraNameLength = true → u = v

/-- The elements a user camera sets. -/
def optionTags : List CameraTag :=
  [.resolution, .compression, .frameRate, .recordAudio, .cameraEssential, .cameraMaxRecordingAge]

/-- Every camera has all elements which a user camera sets. -/
def CarryOptions (cameras : List CameraElement) : Prop :=
  ∀ node ∈ cameras, ∀ tag ∈ optionTags, (node.lookup tag).isSome = true

theorem options_map_fst (u : UserCamera) : u.options.map Prod.fst = optionTags := rfl

/-- Two names which compare equal to a third compare equal. -/
theorem strncasecmpEq_trans {text a b : CString} {n : ℕ} (ha : strncasecmpEq text a n = true)
    (hb : strncasecmpEq text b n = true) : strncasecmpEq a b n = true := by
  simp only [strncasecmpEq, beq_iff_eq] at *
  exact ha.symm.trans hb

section Settings

variable {κ : Type} [DecidableEq κ]

/-- A new text is set in either case. -/
theorem duSetChildNewData_snd (pdom : List (κ × CString)) (tag : κ) (newVal : CString) :
    (duSetChildNewData pdom tag newVal).2 = setFirst tag newVal pdom := by
  unfold duSetChildNewData
  split
  · rename_i cur hcur
    split
    · rename_i hsame
      rw [setFirst_of_lookup fun v hv => Option.some.inj (hv.symm.trans (hcur.trans (congrArg some hsame.symm)))]
    · rfl
  · rename_i hnone
    rw [setFirst_of_lookup fun v hv => absurd (hnone.symm.trans hv) (Option.some_ne_none v).symm]

/-- What was not changed is as before. -/
theorem duSetChildNewData_clean {pdom : List (κ × CString)} {tag : κ} {newVal : CString}
    (h : (duSetChildNewData pdom tag newVal).1 = false) : (duSetChildNewData pdom tag newVal).2 = pdom := by
  unfold duSetChildNewData at *
  split at h
  · split at h
    · rename_i hsame
      simp only [if_pos hsame]
    · cases h
  · rfl

/-- The settings are made one after the other, and the accumulated flag is kept. -/
theorem setChildren_foldl (settings : List (κ × CString)) (p : Bool × List (κ × CString)) :
    let r := settings.foldl (fun p s =>
      (p.1 || (duSetChildNewData p.2 s.1 s.2).1, (duSetChildNewData p.2 s.1 s.2).2)) p
    r.2 = setAll settings p.2 ∧ (r.1 = false → p.1 = false ∧ r.2 = p.2) := by
  induction settings generalizing p with
  | nil => exact ⟨rfl, fun h => ⟨h, rfl⟩⟩
  | cons s settings ih =>
    obtain ⟨hset, hclean⟩ := ih (p.1 || (duSetChildNewData p.2 s.1 s.2).1, (duSetChildNewData p.2 s.1 s.2).2)
    refine ⟨?_, fun h => ?_⟩
    · rw [List.foldl_cons, hset, duSetChildNewData_snd]
      rfl
    · obtain ⟨hfirst, hrest⟩ := hclean h
      rw [Bool.or_eq_false_iff] at hfirst
      exact ⟨hfirst.1, hrest.trans (duSetChildNewData_clean hfirst.2)⟩

theorem setChildren_snd (settings pdom : List (κ × CString)) : (setChildren settings pdom).2 = setAll settings pdom :=
  (setChildren_foldl settings (false, pdom)).1

theorem setChildren_clean {settings pdom : List (κ × CString)} (h : (setChildren settings pdom).1 = false) :
    (setChildren settings pdom).2 = pdom :=
  ((setChildren_foldl settings (false, pdom)).2 h).2

end Settings

section Patch

variable {users : List UserCamera} {node : CameraElement}

/-- The user camera found is one of the list with the camera's name. -/
theorem matchingUser_eq_some {u : UserCamera} (h : matchingUser users node = some u) : u ∈ users ∧ Named node u := by
  obtain ⟨text, htext, hfind⟩ := Option.bind_eq_some_iff.mp h
  have hfound := List.find?_some hfind
  rw [Bool.and_eq_true] at hfound
  exact ⟨List.mem_of_find?_eq_some hfind, text, htext, hfound.2⟩

/-- A user camera is found exactly when one with a name has the camera's. -/
theorem matchingUser_isSome_iff (hnonempty : ∀ u ∈ users, u.camera ≠ []) :
    (matchingUser users node).isSome = true ↔ ∃ u ∈ users, Named node u := by
  constructor
  · intro h
    obtain ⟨u, hu⟩ := Option.isSome_iff_exists.mp h
    exact ⟨u, matchingUser_eq_some hu⟩
  · rintro ⟨u, hu, text, htext, hname⟩
    unfold matchingUser
    rw [htext, Option.bind_some, List.find?_isSome]
    exact ⟨u, hu, by simp [hnonempty u hu, hname]⟩

/-- Patching a camera keeps its name. -/
theorem named_patchNode (u : UserCamera) : Named (patchNode users node).2 u ↔ Named node u := by
  have hname : (patchNode users node).2.lookup .name = node.lookup .name := by
    unfold patchNode
    split
    · rename_i v _
      have hother : CameraTag.name ∉ v.options.map Prod.fst := by
        rw [options_map_fst]
        decide
      rw [setChildren_snd, lookup_setAll_of_notMem hother]
    · rfl
  unfold Named
  rw [hname]

/-- A camera of the user's list carries the user's settings once it is patched. -/
theorem options_patchNode (hdistinct : NamesDistinct users) (hnonempty : ∀ u ∈ users, u.camera ≠ [])
    (hcarry : ∀ tag ∈ optionTags, (node.lookup tag).isSome = true) {u : UserCamera} (hu : u ∈ users)
    (hnamed : Named node u) : ∀ o ∈ u.options, (patchNode users node).2.lookup o.1 = some o.2 := by
  obtain ⟨v, hv⟩ := Option.isSome_iff_exists.mp ((matchingUser_isSome_iff hnonempty).mpr ⟨u, hu, hnamed⟩)
  obtain ⟨hvu, text, htext, hname⟩ := matchingUser_eq_some hv
  obtain ⟨text', htext', hname'⟩ := hnamed
  obtain rfl := Option.some.inj (htext'.symm.trans htext)
  obtain rfl := hdistinct u hu v hvu (strncasecmpEq_trans hname' hname)
  have hnodup : (u.options.map Prod.fst).Nodup := by
    rw [options_map_fst]
    decide
  have hentries : ∀ s ∈ u.options, (node.lookup s.1).isSome = true := fun s hs =>
    hcarry s.1 (options_map_fst u ▸ List.mem_map_of_mem hs)
  intro o ho
  unfold patchNode
  rw [hv]
  dsimp only
  rw [setChildren_snd]
  exact lookup_setAll hnodup hentries o ho

/-- Patched cameras are the user's exactly when they had the user's names. -/
theorem agrees_patchCamdefs_iff {cameras : List CameraElement} (hdistinct : NamesDistinct users)
    (hnonempty : ∀ u ∈ users, u.camera ≠ []) (hcarry : CarryOptions cameras) :
    Agrees (patchCamdefs cameras users).cameras users ↔ NamesAgree cameras users := by
  have hmem : ∀ node, node ∈ (patchCamdefs cameras users).cameras ↔
      ∃ old ∈ cameras, (patchNode users old).2 = node := fun node => List.mem_map
  constructor
  · intro h
    refine ⟨fun node hnode => ?_, fun u hu => ?_⟩
    · obtain ⟨u, hu, hnamed⟩ := h.known _ ((hmem _).mpr ⟨node, hnode, rfl⟩)
      exact ⟨u, hu, (named_patchNode u).mp hnamed⟩
    · obtain ⟨node, hnode, hnamed⟩ := h.present u hu
      obtain ⟨old, hold, rfl⟩ := (hmem node).mp hnode
      exact ⟨old, hold, (named_patchNode u).mp hnamed⟩
  · intro h
    refine ⟨⟨fun node hnode => ?_, fun u hu => ?_⟩, fun node hnode u hu hnamed => ?_⟩
    · obtain ⟨old, hold, rfl⟩ := (hmem node).mp hnode
      obtain ⟨u, hu, hnamed⟩ := h.known old hold
      exact ⟨u, hu, (named_patchNode u).mpr hnamed⟩
    · obtain ⟨node, hnode, hnamed⟩ := h.present u hu
      exact ⟨_, (hmem _).mpr ⟨node, hnode, rfl⟩, (named_patchNode u).mpr hnamed⟩
    · obtain ⟨old, hold, rfl⟩ := (hmem node).mp hnode
      exact options_patchNode hdistinct hnonempty (hcarry old hold) hu ((named_patchNode u).mp hnamed)

/-- Where nothing was dirty the cameras are as before. -/
theorem patchCamdefs_clean {cameras : List CameraElement} (h : (patchCamdefs cameras users).isDirty = false) :
    (patchCamdefs cameras users).cameras = cameras := by
  have hclean : ∀ node ∈ cameras, (patchNode users node).1 = false := by
    intro node hnode
    have hany := (Bool.or_eq_false_iff.mp h).1
    rw [List.any_eq_false] at hany
    exact Bool.eq_false_iff.mpr (hany node hnode)
  have hsame : ∀ node ∈ cameras, (patchNode users node).2 = node := by
    intro node hnode
    have hnode' := hclean node hnode
    unfold patchNode at hnode' ⊢
    split
    · rename_i u hu
      rw [hu] at hnode'
      exact setChildren_clean hnode'
    · rfl
  exact (List.map_congr_left hsame).trans (List.map_id' cameras)

end Patch

/-- The cameras made of the user's list are the user's. -/
theorem agrees_element {users : List UserCamera} (hdistinct : NamesDistinct users) :
    Agrees (users.map UserCamera.element) users := by
  have hname : ∀ u : UserCamera, u.element.lookup .name = some (u.camera.take cameraNameLength) := fun _ => rfl
  have hcompare : ∀ u v : UserCamera, strncasecmpEq (u.camera.take cameraNameLength) v.camera cameraNameLength =
      strncasecmpEq u.camera v.camera cameraNameLength := by
    intro u v
    rw [strncasecmpEq, strncasecmpEq, List.take_take, min_self]
  have hself : ∀ u : UserCamera, Named u.element u := fun u =>
    ⟨_, hname u, (hcompare u u).trans (strncasecmpEq_refl _ _)⟩
  refine ⟨⟨fun node hnode => ?_, fun u hu => ⟨u.element, List.mem_map_of_mem hu, hself u⟩⟩,
    fun node hnode u hu hnamed => ?_⟩
  · obtain ⟨u, hu, rfl⟩ := List.mem_map.mp hnode
    exact ⟨u, hu, hself u⟩
  · obtain ⟨v, hv, rfl⟩ := List.mem_map.mp hnode
    obtain ⟨text, htext, hsame⟩ := hnamed
    obtain rfl := Option.some.inj ((hname v).symm.trans htext)
    obtain rfl := hdistinct v hv u hu ((hcompare v u).symm.trans hsame)
    intro o ho
    simp only [UserCamera.options, List.mem_cons, List.not_mem_nil, or_false] at ho
    rcases ho with rfl | rfl | rfl | rfl | rfl | rfl <;> rfl

theorem not_agrees_nil {users : List UserCamera} (h : users ≠ []) : ¬ Agrees [] users := by
  intro hagrees
  obtain ⟨u, hu⟩ := List.exists_mem_of_ne_nil users h
  obtain ⟨node, hnode, -⟩ := hagrees.present u hu
  exact absurd hnode List.not_mem_nil

/-- As many cameras as the user has, all with names of the user's. -/
def KeepsCameras (cameras : List CameraElement) (users : List UserCamera) : Prop :=
  cameras.length = users.length ∧ ∀ node ∈ cameras, ∃ u ∈ users, Named node u

/-- The text of the user's cameras fits its buffer. -/
def XmlFits (users : List UserCamera) : Prop := userXmlLength users + 2 ≤ xmlbufSize users.length

instance (users : List UserCamera) : Decidable (XmlFits users) := inferInstanceAs (Decidable (_ ≤ _))

namespace ConfigFiles

/-- Both files have the user's cameras with the user's settings. -/
def Converged (files : ConfigFiles) (users : List UserCamera) : Prop :=
  ∃ base current, files.base = some base ∧ files.current = some current ∧ Agrees base.cameras users ∧
    Agrees current.cameras users

/-- The cameras of both files have all elements which a user camera sets. -/
def Complete (files : ConfigFiles) : Prop :=
  ∀ doc, files.base = some doc ∨ files.current = some doc → CarryOptions doc.cameras

/-- Where the cameras of the base file are kept they are the user's, and so are those of the current file
if it can be read; where they are not kept the base file can take the user's. -/
def Convergent (files : ConfigFiles) (users : List UserCamera) : Prop :=
  ∀ base, files.base = some base →
    (KeepsCameras base.cameras users →
      NamesAgree base.cameras users ∧ ∀ current, files.current = some current → NamesAgree current.cameras users) ∧
    (¬ KeepsCameras base.cameras users → base.hasRecorder = true ∧ XmlFits users)

end ConfigFiles

/-- Patching the current file patches its cameras. -/
theorem patchCurrent_cameras (pdcur : Document) (recorderSn ucLocoid : Option CString) (users : List UserCamera) :
    (patchCurrent pdcur recorderSn ucLocoid users).cameras = (patchCamdefs pdcur.cameras users).cameras := by
  unfold patchCurrent patchRecorderParams
  dsimp only
  split
  · rfl
  · rename_i hclean
    rw [Bool.not_eq_true, Bool.or_eq_false_iff] at hclean
    exact (patchCamdefs_clean hclean.2).symm

/-- Rebuilding takes the cameras of the user where their text fits and there is an element to take them. -/
theorem replaced_cameras {users : List UserCamera} (hsome : users ≠ []) {pdom base : Document}
    (hrecorder : pdom.hasRecorder = base.hasRecorder) :
    (replaceCamdefs pdom (makeUsercamDom users)).cameras =
      if base.hasRecorder = true ∧ XmlFits users then users.map UserCamera.element else [] := by
  have hlength := List.length_pos_iff.mpr hsome
  unfold makeUsercamDom
  by_cases hfits : XmlFits users
  · rw [if_pos ⟨hlength, hfits⟩, replaceCamdefs, hrecorder]
    simp only [hfits, and_true]
  · rw [if_neg fun h => hfits h.2, if_neg fun h => hfits h.2, replaceCamdefs]

/-- The test of `du_accept_user_config` for keeping the cameras of the base file. -/
theorem keepsCameras_iff {cameras : List CameraElement} {users : List UserCamera} (hsome : users ≠ [])
    (hnonempty : ∀ u ∈ users, u.camera ≠ []) :
    (!(decide (0 < users.length) && cameras.length == users.length) ||
      (patchCamdefs cameras users).matched != cameras.length) = false ↔ KeepsCameras cameras users := by
  have hmatched : (patchCamdefs cameras users).matched = cameras.length ↔
      ∀ node ∈ cameras, ∃ u ∈ users, Named node u := by
    rw [patchCamdefs, List.countP_eq_length]
    exact forall₂_congr fun node _ => matchingUser_isSome_iff hnonempty
  rw [Bool.or_eq_false_iff, Bool.not_eq_false', Bool.and_eq_true, decide_eq_true_eq, beq_iff_eq, bne_eq_false_iff_eq,
    hmatched]
  exact and_congr_left' (and_iff_right (List.length_pos_iff.mpr hsome))

/-- What the list does to the files: the cameras of both are patched, or both have those of the user if
the base file can take them. -/
theorem duAcceptUserConfig_spec {files : ConfigFiles} {base : Document} (hbase : files.base = some base)
    (recorderSn ucLocoid : Option CString) {ptab : List UserCamera} (hsome : userCamdefs ptab ≠ [])
    (hnonempty : ∀ u ∈ userCamdefs ptab, u.camera ≠ []) :
    ∃ base', (duAcceptUserConfig files recorderSn ucLocoid ptab).1 = 0 ∧
      (duAcceptUserConfig files recorderSn ucLocoid ptab).2.base = some base' ∧
      (KeepsCameras base.cameras (userCamdefs ptab) →
        base'.cameras = (patchCamdefs base.cameras (userCamdefs ptab)).cameras ∧
        (duAcceptUserConfig files recorderSn ucLocoid ptab).2.current = some
          (match files.current with
          | none => base'
          | some pdcur => patchCurrent pdcur recorderSn ucLocoid (userCamdefs ptab))) ∧
      (¬ KeepsCameras base.cameras (userCamdefs ptab) →
        base'.cameras = (if base.hasRecorder = true ∧ XmlFits (userCamdefs ptab) then
          (userCamdefs ptab).map UserCamera.element else []) ∧
        (duAcceptUserConfig files recorderSn ucLocoid ptab).2.current = some base') := by
  have htest := @keepsCameras_iff base.cameras _ hsome hnonempty
  have hparams : (patchRecorderParams base recorderSn ucLocoid).2.cameras = base.cameras := rfl
  unfold duAcceptUserConfig
  rw [hbase]
  dsimp only
  rw [hparams]
  by_cases hkeeps : KeepsCameras base.cameras (userCamdefs ptab)
  · have hkept := htest.mpr hkeeps
    have hcompares := (Bool.or_eq_false_iff.mp hkept).1
    rw [Bool.not_eq_false'] at hcompares
    rw [hkept, hcompares]
    simp only [if_true, Bool.false_eq_true, if_false, Bool.true_and, Bool.or_false]
    refine ⟨patchCurrent base recorderSn ucLocoid (userCamdefs ptab), ?_⟩
    cases files.current with
    | none =>
      exact ⟨rfl, rfl, fun _ => ⟨patchCurrent_cameras base recorderSn ucLocoid _, rfl⟩, fun h => absurd hkeeps h⟩
    | some pdcur =>
      exact ⟨rfl, rfl, fun _ => ⟨patchCurrent_cameras base recorderSn ucLocoid _, rfl⟩, fun h => absurd hkeeps h⟩
  · have hreplaced := eq_true_of_ne_false (mt htest.mp hkeeps)
    rw [hreplaced]
    simp only [if_true, Bool.or_true]
    have hrecorder : ∀ b : Bool, (if b = true then { (patchRecorderParams base recorderSn ucLocoid).2 with
        cameras := (patchCamdefs base.cameras (userCamdefs ptab)).cameras }
        else (patchRecorderParams base recorderSn ucLocoid).2).hasRecorder = base.hasRecorder := by
      intro b
      split <;> rfl
    cases files.current with
    | none => exact ⟨_, rfl, rfl, fun h => absurd h hkeeps, fun _ => ⟨replaced_cameras hsome (hrecorder _), rfl⟩⟩
    | some pdcur => exact ⟨_, rfl, rfl, fun h => absurd h hkeeps, fun _ => ⟨replaced_cameras hsome (hrecorder _), rfl⟩⟩

/-- A run that succeeds and leaves two documents has made them the user's if their cameras are. -/
theorem converged_iff {result : ℤ × ConfigFiles} {users : List UserCamera} {base current : Document}
    (hrc : result.1 = 0) (hbase : result.2.base = some base) (hcurrent : result.2.current = some current) :
    (result.1 = 0 → result.2.Converged users) ↔ Agrees base.cameras users ∧ Agrees current.cameras users := by
  constructor
  · intro h
    obtain ⟨b, c, hb, hc, hagrees⟩ := h hrc
    obtain rfl := Option.some.inj (hbase.symm.trans hb)
    obtain rfl := Option.some.inj (hcurrent.symm.trans hc)
    exact hagrees
  · exact fun h _ => ⟨base, current, hbase, hcurrent, h⟩

/-- Whether the files are convergent is a matter of the base document. -/
theorem convergent_iff {files : ConfigFiles} {users : List UserCamera} {base : Document}
    (hbase : files.base = some base) :
    files.Convergent users ↔
      (KeepsCameras base.cameras users → NamesAgree base.cameras users ∧
        ∀ current, files.current = some current → NamesAgree current.cameras users) ∧
      (¬ KeepsCameras base.cameras users → base.hasRecorder = true ∧ XmlFits users) :=
  ⟨fun h => h base hbase, fun h doc hdoc => by
    obtain rfl := Option.some.inj (hbase.symm.trans hdoc)
    exact h⟩

/-- A user camera `CAB`. -/
def userCab : UserCamera where
  camera := ['C', 'A', 'B']
  resolution := 2
  compression := 2
  frameRate := 3
  audioEnable := 1
  isEssential := 1
  cameraMaxRecordingHours := 0

/-- A document with a camera of this name. -/
def cabDocument (name : CString) : Document where
  hasRecorder := true
  params := [(.serialNumber, ['1']), (.locoId, ['B', 'N', 'S', 'F'])]
  cameras := [[(.name, name), (.cameraEssential, ['1']), (.cameraMaxRecordingAge, ['0']), (.resolution, ['2']),
    (.compression, ['2']), (.frameRate, ['3']), (.recordAudio, ['1'])]]

theorem carryOptions_cabDocument (name : CString) : CarryOptions (cabDocument name).cameras := by
  intro node hnode tag htag
  obtain rfl := List.mem_singleton.mp hnode
  simp only [optionTags, List.mem_cons, List.not_mem_nil, or_false] at htag
  rcases htag with rfl | rfl | rfl | rfl | rfl | rfl <;> rfl

end RecordingAgent.Reagent
