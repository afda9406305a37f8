import Mathlib.Data.List.Pairwise
import RecordingAgent.Reagent.Config
import RecordingAgent.Reagent.XmlUtil

/-!
# The tag table and what the configuration parser fills in

`cfg_tag_tpl` names the elements of a recorder's file and points each at a field of the template
configuration. The fields of the first camera stand for those of all cameras, a definition's size
apart from each other.

No two fields share a byte, whichever cameras they belong to. So the writes which a document comes
down to leave every field with the text of its own element.
-/

namespace RecordingAgent.Reagent

open Foundation

/-- The longest serial number, `MAX_SER_NUM_SIZE`. -/
def maxSerNumSize : ℕ := 7

/-- The size of a directory or an address, `MAX_URI`. -/
def maxUri : ℕ := 64

/-- The address of the cameras in the template configuration, behind 12 bytes of serial number, 8 of
chunk length, three directories and 12 bytes of maximal age. -/
def camerasOffset : ℕ := 224

/-- The bytes at the beginning of a camera definition which hold strings. -/
def camdefStrings : ℕ := 360

/-- What the platform decides about the template configuration: the size of a camera definition, and
where the locomotive id stands, which comes after all cameras. -/
structure ConfLayout where
  camdefSize : ℕ
  locoId : ℕ
  strings : camdefStrings ≤ camdefSize
  cameras : camerasOffset + maxCams * camdefSize ≤ locoId

/-- The entry for the locomotive id. -/
def locoIdParam (layout : ConfLayout) : CfgParam :=
  ⟨1, false, ("loco_id").toList, some layout.locoId, maxLocoIdSize + 1⟩

/-- The entries for the elements which hold others; a camera moves the offset by its definition. -/
def containerParams (layout : ConfLayout) : List CfgParam :=
  [⟨1, false, ("video_storage").toList, none, 0⟩,
    ⟨1, false, ("camera").toList, none, layout.camdefSize⟩]

/-- The entry for the serial number. -/
def serialNumberParam : CfgParam := ⟨1, false, ("serial_number").toList, some 0, maxSerNumSize + 1⟩

/-- The entries for the video storage. -/
def storageParams : List CfgParam :=
  [⟨2, false, ("staging_base_dir").toList, some 20, maxUri⟩,
    ⟨2, false, ("video_chunk_duration").toList, some 12, 6⟩,
    ⟨2, false, ("chm_video_base_dir").toList, some 84, maxUri⟩,
    ⟨2, false, ("rssd_video_base_dir").toList, some 148, maxUri⟩,
    ⟨2, false, ("max_age").toList, some 212, 12⟩]

/-- The entries for a camera; the values are those of the first one. -/
def cameraParams : List CfgParam :=
  [⟨2, true, ("name").toList, some (camerasOffset + 4), cameraNameLength + 1⟩,
    ⟨2, true, ("serial").toList, some (camerasOffset + 20), 18 + 1⟩,
    ⟨2, true, ("model").toList, some (camerasOffset + 42), 22 - 1⟩,
    ⟨2, true, ("home_page").toList, some (camerasOffset + 64), maxUri⟩,
    ⟨2, true, ("stream_url").toList, some (camerasOffset + 128), maxUri⟩,
    ⟨2, true, ("mjpeg_url").toList, some (camerasOffset + 256), maxUri⟩,
    ⟨2, true, ("snapshot_url").toList, some (camerasOffset + 192), maxUri⟩,
    ⟨2, true, ("auto_record_to_chm").toList, some (camerasOffset + 320), 4⟩,
    ⟨2, true, ("auto_record_to_rssd").toList, some (camerasOffset + 324), 4⟩,
    ⟨2, true, ("camera_essential").toList, some (camerasOffset + 352), 4⟩,
    ⟨2, true, ("camera_max_recording_age").toList, some (camerasOffset + 356), 4⟩,
    ⟨2, true, ("resolution").toList, some (camerasOffset + 328), 4⟩,
    ⟨2, true, ("compression").toList, some (camerasOffset + 332), 4⟩,
    ⟨2, true, ("frame_rate").toList, some (camerasOffset + 336), 4⟩,
    ⟨2, true, ("record_audio").toList, some (camerasOffset + 340), 4⟩,
    ⟨2, true, ("mount_type").toList, some (camerasOffset + 344), 4⟩,
    ⟨2, true, ("accessory_power").toList, some (camerasOffset + 348), 4⟩]

/-- The tag table, `cfg_tag_tpl`. -/
def cfgTagTpl (layout : ConfLayout) : List CfgParam :=
  serialNumberParam :: locoIdParam layout :: containerParams layout ++ storageParams ++ cameraParams

/-! ## The fields of the table -/

/-- The parameters whose fields come before the cameras. -/
def lowParams : List CfgParam := serialNumberParam :: storageParams

namespace CfgParam

/-- The fields of two parameters share no byte. -/
def Apart (p q : CfgParam) : Prop :=
  ∀ v ∈ p.value, ∀ u ∈ q.value, v + p.maxValLen ≤ u ∨ u + q.maxValLen ≤ v

instance (p q : CfgParam) : Decidable (p.Apart q) :=
  inferInstanceAs (Decidable (∀ v ∈ p.value, ∀ u ∈ q.value, v + p.maxValLen ≤ u ∨ u + q.maxValLen ≤ v))

/-- The field of a parameter is between two addresses and has room for a character. -/
def Within (p : CfgParam) (low high : ℕ) : Prop :=
  ∀ v ∈ p.value, low ≤ v ∧ v + p.maxValLen ≤ high ∧ 1 < p.maxValLen

instance (p : CfgParam) (low high : ℕ) : Decidable (p.Within low high) :=
  inferInstanceAs (Decidable (∀ v ∈ p.value, low ≤ v ∧ v + p.maxValLen ≤ high ∧ 1 < p.maxValLen))

/-- The address of a parameter's field for a camera. -/
def address (layout : ConfLayout) (p : CfgParam) (value k : ℕ) : ℕ :=
  value + if p.isPerCamera then k * layout.camdefSize else 0

end CfgParam

instance : Std.Symm CfgParam.Apart := ⟨fun _ _ h v hv u hu => (h u hu v hv).symm⟩

theorem lowParams_apart : lowParams.Pairwise CfgParam.Apart := by decide

theorem cameraParams_apart : cameraParams.Pairwise CfgParam.Apart := by decide

theorem lowParams_within : ∀ p ∈ lowParams, p.isPerCamera = false ∧ p.Within 0 camerasOffset := by
  decide

theorem cameraParams_within :
    ∀ p ∈ cameraParams, p.isPerCamera = true ∧ p.Within camerasOffset (camerasOffset + camdefStrings) := by
  decide

variable {layout : ConfLayout}

/-- A parameter with a value has its field before, in or behind the cameras. -/
theorem mem_cfgTagTpl {p : CfgParam} (h : p ∈ cfgTagTpl layout) {value : ℕ} (hvalue : value ∈ p.value) :
    p ∈ lowParams ∨ p ∈ cameraParams ∨ p = locoIdParam layout := by
  simp only [cfgTagTpl, lowParams, containerParams, List.mem_append, List.mem_cons, List.cons_append,
    List.nil_append] at h ⊢
  rcases h with h | h | h | h | h
  · exact Or.inl (Or.inl h)
  · exact Or.inr (Or.inr h)
  · subst h
    cases hvalue
  · subst h
    cases hvalue
  · rcases h with h | h
    · exact Or.inl (Or.inr h)
    · exact Or.inr (Or.inl h)

/-- The smallest layout. -/
def smallestLayout : ConfLayout where
  camdefSize := camdefStrings
  locoId := camerasOffset + maxCams * camdefStrings
  strings := le_refl _
  cameras := le_refl _

/-- The names of the table, with their levels, are different. -/
theorem keys_nodup (layout : ConfLayout) : ((cfgTagTpl layout).map fun p => (p.depth, p.name)).Nodup := by
  have hkeys : ((cfgTagTpl layout).map fun p => (p.depth, p.name)) =
      (cfgTagTpl smallestLayout).map fun p => (p.depth, p.name) := rfl
  rw [hkeys]
  decide

/-- The levels of the parameters: those of cameras are on the second. -/
theorem depth_of_mem {p : CfgParam} (h : p ∈ cfgTagTpl layout) :
    p.depth = 1 ∧ p.isPerCamera = false ∨ p.depth = 2 := by
  have hlevels : ((cfgTagTpl layout).map fun p => (p.depth, p.isPerCamera)) =
      (cfgTagTpl smallestLayout).map fun p => (p.depth, p.isPerCamera) := rfl
  have hall : ∀ level ∈ (cfgTagTpl smallestLayout).map fun p => (p.depth, p.isPerCamera),
      level.1 = 1 ∧ level.2 = false ∨ level.1 = 2 := by decide
  rw [← hlevels] at hall
  exact hall _ (List.mem_map_of_mem h)

/-- A parameter is found under its own name. -/
theorem matchingParam_of_mem {params : List CfgParam} (hkeys : (params.map fun p => (p.depth, p.name)).Nodup)
    {p : CfgParam} (h : p ∈ params) : matchingParam params p.depth p.name = some p := by
  have hsome : (matchingParam params p.depth p.name).isSome := by
    refine List.find?_isSome.mpr ⟨p, h, ?_⟩
    simp
  obtain ⟨q, hq⟩ := Option.isSome_iff_exists.mp hsome
  have hfound := List.find?_some hq
  simp only [decide_eq_true_eq] at hfound
  have heq : q = p := List.inj_on_of_nodup_map hkeys (List.mem_of_find?_eq_some hq) h
    (Prod.ext hfound.2 hfound.1)
  rw [hq, heq]

theorem mem_of_matchingParam {params : List CfgParam} {level : ℕ} {name : CString} {p : CfgParam}
    (h : matchingParam params level name = some p) : p ∈ params ∧ p.depth = level ∧ p.name = name := by
  have hfound := List.find?_some h
  simp only [decide_eq_true_eq] at hfound
  exact ⟨List.mem_of_find?_eq_some h, hfound.2, hfound.1⟩

theorem stride_camera (layout : ConfLayout) :
    stride (cfgTagTpl layout) 1 ("camera").toList = layout.camdefSize := by
  have hcamera := matchingParam_of_mem (keys_nodup layout)
    (p := ⟨1, false, ("camera").toList, none, layout.camdefSize⟩) (by simp [cfgTagTpl, containerParams])
  rw [stride, if_pos rfl, hcamera]
  rfl

theorem cfgTagTpl_containers (layout : ConfLayout) : Containers (cfgTagTpl layout) where
  root p hp := by
    have hdepth := depth_of_mem hp
    omega
  storage p hp := by
    rw [matchingParam_of_mem (keys_nodup layout) (p := ⟨1, false, ("video_storage").toList, none, 0⟩)
      (by simp [cfgTagTpl, containerParams])] at hp
    cases hp
    rfl
  camera p hp := by
    rw [matchingParam_of_mem (keys_nodup layout) (p := ⟨1, false, ("camera").toList, none, layout.camdefSize⟩)
      (by simp [cfgTagTpl, containerParams])] at hp
    cases hp
    rfl

/-- The fields of the table have room for a character. -/
theorem one_lt_maxValLen {p : CfgParam} (h : p ∈ cfgTagTpl layout) {value : ℕ} (hvalue : value ∈ p.value) :
    1 < p.maxValLen := by
  rcases mem_cfgTagTpl h hvalue with h | h | rfl
  · exact ((lowParams_within p h).2 value hvalue).2.2
  · exact ((cameraParams_within p h).2 value hvalue).2.2
  · exact Nat.lt_add_of_pos_left (by decide)

/-- A field before the cameras. -/
theorem low_place (layout : ConfLayout) {p : CfgParam} (h : p ∈ lowParams) {v : ℕ} (hv : v ∈ p.value) (j : ℕ) :
    p.address layout v j = v ∧ v + p.maxValLen ≤ camerasOffset := by
  obtain ⟨hrecorder, hwithin⟩ := lowParams_within p h
  refine ⟨?_, (hwithin v hv).2.1⟩
  rw [CfgParam.address, hrecorder]
  rfl

/-- A field of a camera is in this camera's definition. -/
theorem camera_place (layout : ConfLayout) {p : CfgParam} (h : p ∈ cameraParams) {v : ℕ} (hv : v ∈ p.value)
    (j : ℕ) :
    p.address layout v j = v + j * layout.camdefSize ∧
      camerasOffset ≤ v ∧ v + p.maxValLen ≤ camerasOffset + layout.camdefSize := by
  obtain ⟨hcamera, hwithin⟩ := cameraParams_within p h
  have hstrings := layout.strings
  have hv := hwithin v hv
  refine ⟨?_, hv.1, by omega⟩
  rw [CfgParam.address, hcamera]
  rfl

/-- Cameras stand behind each other. -/
theorem camdef_le (layout : ConfLayout) {j k : ℕ} (h : j < k) :
    j * layout.camdefSize + layout.camdefSize ≤ k * layout.camdefSize := by
  rw [← Nat.succ_mul]
  exact Nat.mul_le_mul_right _ h

/-- The locomotive id stands behind the cameras. -/
theorem loco_place {v : ℕ} (hv : v ∈ (locoIdParam layout).value) (j : ℕ) :
    (locoIdParam layout).address layout v j = v ∧ camerasOffset + maxCams * layout.camdefSize ≤ v := by
  cases hv
  exact ⟨rfl, layout.cameras⟩

/-- Two fields of at most 16 cameras are the same or share no byte. -/
theorem fields_apart {p q : CfgParam} (hp : p ∈ cfgTagTpl layout) (hq : q ∈ cfgTagTpl layout) {v u : ℕ}
    (hv : v ∈ p.value) (hu : u ∈ q.value) {j k : ℕ} (hj : j < maxCams) (hk : k < maxCams) :
    (p = q ∧ (p.isPerCamera = true → j = k)) ∨
      p.address layout v j + p.maxValLen ≤ q.address layout u k ∨
        q.address layout u k + q.maxValLen ≤ p.address layout v j := by
  have hjlast := camdef_le layout hj
  have hklast := camdef_le layout hk
  rcases mem_cfgTagTpl hp hv with hp | hp | rfl
  · have hpj := low_place layout hp hv j
    rcases mem_cfgTagTpl hq hu with hq | hq | rfl
    · have hqk := low_place layout hq hu k
      by_cases hsame : p = q
      · exact Or.inl ⟨hsame, fun h => by rw [(lowParams_within p hp).1] at h; cases h⟩
      · rw [hpj.1, hqk.1]
        exact Or.inr (lowParams_apart.forall hp hq hsame v hv u hu)
    · have hqk := camera_place layout hq hu k
      omega
    · have hqk := loco_place hu k
      omega
  · have hpj := camera_place layout hp hv j
    rcases mem_cfgTagTpl hq hu with hq | hq | rfl
    · have hqk := low_place layout hq hu k
      omega
    · have hqk := camera_place layout hq hu k
      -- Two cameras stand apart by a definition's size; one camera's fields are apart in it.
      rcases Nat.lt_trichotomy j k with hlt | rfl | hlt
      · have hbehind := camdef_le layout hlt
        omega
      · by_cases hsame : p = q
        · exact Or.inl ⟨hsame, fun _ => rfl⟩
        · have hbetween := cameraParams_apart.forall hp hq hsame v hv u hu
          omega
      · have hbehind := camdef_le layout hlt
        omega
    · have hqk := loco_place hu k
      omega
  · have hpj := loco_place hv j
    rcases mem_cfgTagTpl hq hu with hq | hq | rfl
    · have hqk := low_place layout hq hu k
      omega
    · have hqk := camera_place layout hq hu k
      omega
    · exact Or.inl ⟨rfl, fun h => by cases h⟩

/-! ## The elements of a document -/

namespace CfgItem

/-- The option elements of the recorder itself. -/
def options (items : List CfgItem) : List OptionElement :=
  items.filterMap fun
    | option o => some o
    | _ => none

/-- The option elements of the video storages. -/
def storages (items : List CfgItem) : List (List OptionElement) :=
  items.filterMap fun
    | storage options => some options
    | _ => none

/-- The option elements of the cameras. -/
def cameras (items : List CfgItem) : List (List OptionElement) :=
  items.filterMap fun
    | camera options => some options
    | _ => none

/-- The option elements of a camera, none when there are fewer cameras. -/
def cameraOptions (items : List CfgItem) (k : ℕ) : List OptionElement := (cameras items)[k]?.getD []

theorem options_option (o : OptionElement) (items : List CfgItem) :
    options (option o :: items) = o :: options items := rfl

theorem storages_storage (os : List OptionElement) (items : List CfgItem) :
    storages (storage os :: items) = os :: storages items := rfl

theorem mem_cameraOptions {o : OptionElement} {items : List CfgItem} {k : ℕ} :
    o ∈ cameraOptions items k ↔ ∃ options, (cameras items)[k]? = some options ∧ o ∈ options := by
  unfold cameraOptions
  cases (cameras items)[k]? <;> simp

theorem cameraOptions_zero (os : List OptionElement) (items : List CfgItem) :
    cameraOptions (camera os :: items) 0 = os := rfl

theorem cameraOptions_succ (os : List OptionElement) (items : List CfgItem) (k : ℕ) :
    cameraOptions (camera os :: items) (k + 1) = cameraOptions items k := rfl

end CfgItem

/-- Option elements which can be read and belong where they are: no name comes twice, and none is
the name of another kind of parameter. -/
structure OptionsOf (params : List CfgParam) (level : ℕ) (isPerCamera : Bool) (options : List OptionElement) :
    Prop where
  readable : ∀ o ∈ options, o.Readable
  nodup : (options.map OptionElement.name).Nodup
  own : ∀ o ∈ options, ∀ p ∈ matchingParam params level o.name, p.isPerCamera = isPerCamera

/-- A document of a recorder with at most 16 cameras. -/
structure CfgDocument.WellFormed (params : List CfgParam) (doc : CfgDocument) : Prop where
  options : OptionsOf params 1 false (CfgItem.options doc.items)
  storages : ∀ options ∈ CfgItem.storages doc.items, OptionsOf params 2 false options
  cameras : ∀ options ∈ CfgItem.cameras doc.items, OptionsOf params 2 true options
  oneStorage : (CfgItem.storages doc.items).length ≤ 1
  cameras_le : (CfgItem.cameras doc.items).length ≤ maxCams

/-- The elements among which a parameter's is, for a camera when the parameter is one of cameras. -/
def CfgDocument.elements (doc : CfgDocument) (p : CfgParam) (k : ℕ) : List OptionElement :=
  if p.isPerCamera then CfgItem.cameraOptions doc.items k
  else if p.depth = 1 then CfgItem.options doc.items
  else (CfgItem.storages doc.items).flatten

/-- What a field is to hold: the text of the parameter's element without the blanks around it. -/
def CfgDocument.fieldText (doc : CfgDocument) (p : CfgParam) (k : ℕ) : CString :=
  (((doc.elements p k).find? fun o => o.name = p.name).map fun o => trim o.text).getD []

/-! ## The writes of a document -/

section Writes

variable {params : List CfgParam} {level offset : ℕ} {o : OptionElement} {w : FieldWrite}

theorem OptionElement.fieldWrite_eq_some :
    o.fieldWrite params level offset = some w ↔
      ∃ p, matchingParam params level o.name = some p ∧ ∃ value ∈ p.value,
        w = ⟨value + (if p.isPerCamera then offset else 0), p.maxValLen - 1, trim o.text⟩ := by
  simp only [OptionElement.fieldWrite, Option.bind_eq_some_iff, Option.map_eq_some_iff, Option.mem_def,
    eq_comm (a := w)]

/-- The offset matters to the parameters of cameras only. -/
theorem OptionElement.fieldWrite_offset
    (h : ∀ p, matchingParam params level o.name = some p → p.isPerCamera = false) (offset : ℕ) :
    o.fieldWrite params level offset = o.fieldWrite params level 0 := by
  unfold OptionElement.fieldWrite
  cases hmatch : matchingParam params level o.name with
  | none => rfl
  | some p =>
    simp only [Option.bind_some, h p hmatch]
    rfl

/-- The writes of the recorder's children: the offset of a camera counts the cameras before it. -/
theorem CfgItem.mem_allWrites {items : List CfgItem}
    (hoptions : ∀ o ∈ options items, ∀ p, matchingParam params 1 o.name = some p → p.isPerCamera = false)
    (hstorages : ∀ o ∈ (storages items).flatten, ∀ p, matchingParam params 2 o.name = some p →
      p.isPerCamera = false) :
    w ∈ allWrites params offset items ↔
      (∃ o ∈ options items, o.fieldWrite params 1 0 = some w) ∨
        (∃ o ∈ (storages items).flatten, o.fieldWrite params 2 0 = some w) ∨
          ∃ k, ∃ o ∈ cameraOptions items k,
            o.fieldWrite params 2 (offset + k * stride params 1 ("camera").toList) = some w := by
  induction items generalizing offset with
  | nil => simp [allWrites, options, storages, cameraOptions, cameras]
  | cons item items ih =>
    rw [allWrites, List.mem_append]
    cases item with
    | option o =>
      have hwrite := OptionElement.fieldWrite_offset (hoptions o List.mem_cons_self) offset
      rw [ih (fun o' ho' => hoptions o' (List.mem_cons_of_mem _ ho')) hstorages, writes, hwrite,
        Option.mem_toList, options_option, List.exists_mem_cons_iff, or_assoc]
      rfl
    | storage os =>
      have hown : ∀ o ∈ os, o.fieldWrite params 2 offset = o.fieldWrite params 2 0 := fun o ho =>
        OptionElement.fieldWrite_offset (hstorages o (List.mem_append_left _ ho)) offset
      have hwrites : (∃ o ∈ (storages (storage os :: items)).flatten, o.fieldWrite params 2 0 = some w) ↔
          (∃ o ∈ os, o.fieldWrite params 2 offset = some w) ∨
            ∃ o ∈ (storages items).flatten, o.fieldWrite params 2 0 = some w := by
        simp only [storages_storage, List.flatten_cons, List.mem_append, or_and_right, exists_or]
        exact or_congr_left (exists_congr fun o => and_congr_right fun ho => by rw [hown o ho])
      rw [ih hoptions fun o ho => hstorages o (List.mem_append_right _ ho), writes, List.mem_filterMap,
        or_left_comm, ← or_assoc (c := ∃ k, _), hwrites]
      rfl
    | camera os =>
      have hwrites : (∃ k, ∃ o ∈ cameraOptions (camera os :: items) k,
            o.fieldWrite params 2 (offset + k * stride params 1 ("camera").toList) = some w) ↔
          (∃ o ∈ os, o.fieldWrite params 2 offset = some w) ∨
            ∃ k, ∃ o ∈ cameraOptions items k, o.fieldWrite params 2
              ((camera os).nextOffset params offset + k * stride params 1 ("camera").toList) = some w := by
        refine Nat.or_exists_add_one.symm.trans (or_congr ?_ (exists_congr fun k => ?_))
        · rw [cameraOptions_zero, Nat.zero_mul, Nat.add_zero]
        · rw [cameraOptions_succ, Nat.succ_mul, Nat.add_comm (k * _), ← Nat.add_assoc]
          rfl
      rw [ih hoptions hstorages, writes, List.mem_filterMap, hwrites, or_left_comm,
        or_left_comm (b := ∃ o ∈ (storages items).flatten, _)]
      rfl

end Writes

namespace CfgDocument

variable {doc : CfgDocument}

theorem WellFormed.readable {params : List CfgParam} (h : doc.WellFormed params) :
    ∀ item ∈ doc.items, item.Readable := by
  intro item hitem
  cases item with
  | option o => exact h.options.readable o (List.mem_filterMap.mpr ⟨_, hitem, rfl⟩)
  | storage options => exact (h.storages options (List.mem_filterMap.mpr ⟨_, hitem, rfl⟩)).readable
  | camera options => exact (h.cameras options (List.mem_filterMap.mpr ⟨_, hitem, rfl⟩)).readable

/-- The elements among which a parameter's is have different names. -/
theorem WellFormed.elements_nodup {params : List CfgParam} (h : doc.WellFormed params) (p : CfgParam) (k : ℕ) :
    ((doc.elements p k).map OptionElement.name).Nodup := by
  unfold elements
  split
  · unfold CfgItem.cameraOptions
    cases hcamera : (CfgItem.cameras doc.items)[k]? with
    | none => exact List.nodup_nil
    | some options => exact (h.cameras options (List.mem_of_getElem? hcamera)).nodup
  split
  · exact h.options.nodup
  · have hone := h.oneStorage
    have hstorages := h.storages
    generalize CfgItem.storages doc.items = storages at hone hstorages
    match storages with
    | [] => exact List.nodup_nil
    | [options] =>
      rw [List.flatten_singleton]
      exact (hstorages options List.mem_cons_self).nodup
    | _ :: _ :: _ =>
      simp only [List.length_cons] at hone
      omega

theorem WellFormed.elements_notNul {params : List CfgParam} (h : doc.WellFormed params) {p : CfgParam} {k : ℕ}
    {o : OptionElement} (ho : o ∈ doc.elements p k) : nul ∉ o.text := by
  unfold elements at ho
  split at ho
  · obtain ⟨options, hcamera, ho⟩ := CfgItem.mem_cameraOptions.mp ho
    exact ((h.cameras options (List.mem_of_getElem? hcamera)).readable o ho).notNul
  split at ho
  · exact (h.options.readable o ho).notNul
  · obtain ⟨options, hoptions, ho⟩ := List.mem_flatten.mp ho
    exact ((h.storages options hoptions).readable o ho).notNul

/-- A document's element decides what its field is to hold. -/
theorem WellFormed.fieldText_of_mem {params : List CfgParam} (h : doc.WellFormed params) {p : CfgParam} {k : ℕ}
    {o : OptionElement} (ho : o ∈ doc.elements p k) (hname : o.name = p.name) :
    doc.fieldText p k = trim o.text := by
  unfold fieldText
  cases hfind : (doc.elements p k).find? fun o => o.name = p.name with
  | none =>
    rw [List.find?_eq_none] at hfind
    exact absurd (decide_eq_true hname) (hfind o ho)
  | some o' =>
    have hname' : o'.name = p.name := by simpa using List.find?_some hfind
    rw [List.inj_on_of_nodup_map (h.elements_nodup p k) (List.mem_of_find?_eq_some hfind) ho
      (hname'.trans hname.symm)]
    rfl

/-- The writes of a document are those of its elements to their own fields. -/
theorem WellFormed.mem_allWrites (h : doc.WellFormed (cfgTagTpl layout)) {w : FieldWrite} :
    w ∈ CfgItem.allWrites (cfgTagTpl layout) 0 doc.items ↔
      ∃ p ∈ cfgTagTpl layout, ∃ value ∈ p.value, ∃ k < maxCams, ∃ o ∈ doc.elements p k,
        o.name = p.name ∧ w = ⟨p.address layout value k, p.maxValLen - 1, trim o.text⟩ := by
  have hstorages : ∀ o ∈ (CfgItem.storages doc.items).flatten, ∀ p,
      matchingParam (cfgTagTpl layout) 2 o.name = some p → p.isPerCamera = false := fun o ho p hp => by
    obtain ⟨options, hoptions, ho⟩ := List.mem_flatten.mp ho
    exact (h.storages options hoptions).own o ho p hp
  rw [CfgItem.mem_allWrites h.options.own hstorages]
  simp only [OptionElement.fieldWrite_eq_some, stride_camera, Nat.zero_add]
  constructor
  · rintro (⟨o, ho, p, hp, value, hvalue, rfl⟩ | ⟨o, ho, p, hp, value, hvalue, rfl⟩ |
      ⟨k, o, ho, p, hp, value, hvalue, rfl⟩)
    · obtain ⟨hmem, hdepth, hname⟩ := mem_of_matchingParam hp
      have hown := h.options.own o ho p hp
      refine ⟨p, hmem, value, hvalue, 0, by decide, o, ?_, hname.symm, ?_⟩
      · rwa [elements, hown, if_neg Bool.false_ne_true, if_pos hdepth]
      · rw [CfgParam.address, Nat.zero_mul]
    · obtain ⟨hmem, hdepth, hname⟩ := mem_of_matchingParam hp
      have hown := hstorages o ho p hp
      refine ⟨p, hmem, value, hvalue, 0, by decide, o, ?_, hname.symm, ?_⟩
      · rwa [elements, hown, if_neg Bool.false_ne_true, hdepth, if_neg (by decide)]
      · rw [CfgParam.address, Nat.zero_mul]
    · obtain ⟨hmem, hdepth, hname⟩ := mem_of_matchingParam hp
      obtain ⟨options, hcamera, ho'⟩ := CfgItem.mem_cameraOptions.mp ho
      have hown := (h.cameras options (List.mem_of_getElem? hcamera)).own o ho' p hp
      have hk := (List.getElem?_eq_some_iff.mp hcamera).1
      refine ⟨p, hmem, value, hvalue, k, hk.trans_le h.cameras_le, o, ?_, hname.symm, rfl⟩
      rwa [elements, if_pos hown]
  · rintro ⟨p, hmem, value, hvalue, k, -, o, ho, hname, rfl⟩
    have hmatch := matchingParam_of_mem (keys_nodup layout) hmem
    rw [← hname] at hmatch
    unfold elements at ho
    rcases depth_of_mem hmem with ⟨hdepth, hrecorder⟩ | hdepth
    · rw [hrecorder, if_neg Bool.false_ne_true, if_pos hdepth] at ho
      rw [hdepth] at hmatch
      refine Or.inl ⟨o, ho, p, hmatch, value, hvalue, ?_⟩
      rw [CfgParam.address, hrecorder]
      rfl
    · rw [hdepth] at hmatch
      cases hown : p.isPerCamera with
      | false =>
        rw [hown, if_neg Bool.false_ne_true, hdepth, if_neg (by decide)] at ho
        refine Or.inr (Or.inl ⟨o, ho, p, hmatch, value, hvalue, ?_⟩)
        rw [CfgParam.address, hown]
        rfl
      | true =>
        rw [if_pos hown] at ho
        exact Or.inr (Or.inr ⟨k, o, ho, p, hmatch, value, hvalue, rfl⟩)

/-- Every write of a document goes to a parameter's field or misses it. -/
theorem WellFormed.write_cases (h : doc.WellFormed (cfgTagTpl layout)) {w : FieldWrite}
    (hw : w ∈ CfgItem.allWrites (cfgTagTpl layout) 0 doc.items) {p : CfgParam} (hp : p ∈ cfgTagTpl layout)
    {value : ℕ} (hvalue : value ∈ p.value) {k : ℕ} (hk : k < maxCams) :
    0 < w.length ∧ (w.Misses (p.address layout value k) p.maxValLen ∨
      w.Meets (p.address layout value k) (p.maxValLen - 1) ∧ w.text = doc.fieldText p k ∧
        ∃ o ∈ doc.elements p k, o.name = p.name) := by
  obtain ⟨q, hq, u, hu, j, hj, o, ho, hname, rfl⟩ := h.mem_allWrites.mp hw
  refine ⟨Nat.sub_pos_of_lt (one_lt_maxValLen hq hu), ?_⟩
  rcases fields_apart hq hp hu hvalue hj hk with ⟨rfl, hsame⟩ | hapart
  · obtain rfl : u = value := Option.some.inj (hu.symm.trans hvalue)
    have hplace : q.address layout u j = q.address layout u k ∧ doc.elements q j = doc.elements q k := by
      unfold CfgParam.address elements
      cases hown : q.isPerCamera with
      | false => exact ⟨rfl, rfl⟩
      | true => rw [hsame hown]; exact ⟨rfl, rfl⟩
    rw [hplace.2] at ho
    rw [hplace.1]
    exact Or.inr ⟨⟨rfl, rfl⟩, (h.fieldText_of_mem ho hname).symm, o, ho, hname⟩
  · left
    unfold FieldWrite.Misses
    have hroom := one_lt_maxValLen hq hu
    simp only
    omega

theorem WellFormed.fieldText_notNul {params : List CfgParam} (h : doc.WellFormed params) (p : CfgParam) (k : ℕ) :
    nul ∉ doc.fieldText p k := by
  unfold fieldText
  cases hfind : (doc.elements p k).find? fun o => o.name = p.name with
  | none => exact List.not_mem_nil
  | some o => exact fun hnul => h.elements_notNul (List.mem_of_find?_eq_some hfind) (mem_of_mem_trim hnul)

theorem fieldText_of_missing {p : CfgParam} {k : ℕ} (h : ¬ ∃ o ∈ doc.elements p k, o.name = p.name) :
    doc.fieldText p k = [] := by
  unfold fieldText
  rw [List.find?_eq_none.mpr fun o ho => ?_]
  · rfl
  · simpa using fun hname => h ⟨o, ho, hname⟩

section Filled

variable {p : CfgParam} {value k : ℕ}

/-- After its writes a document's field holds the text of its element; without an element, an empty
field stays empty. -/
theorem WellFormed.text_foldl (conf : Memory) (h : doc.WellFormed (cfgTagTpl layout)) (hp : p ∈ cfgTagTpl layout)
    (hvalue : value ∈ p.value) (hk : k < maxCams)
    (hheld : (∃ o ∈ doc.elements p k, o.name = p.name) ∨
      conf.text (p.address layout value k) (p.maxValLen - 1) = []) :
    ((CfgItem.allWrites (cfgTagTpl layout) 0 doc.items).foldl FieldWrite.apply conf).text
        (p.address layout value k) (p.maxValLen - 1) =
      (doc.fieldText p k).take (p.maxValLen - 1) := by
  refine FieldWrite.text_foldl (h.fieldText_notNul p k) (fun w hw => ?_) ?_
  · obtain ⟨hlength, hmisses | ⟨hmeets, htext, -⟩⟩ := h.write_cases hw hp hvalue hk
    · refine ⟨hlength, Or.inl ?_⟩
      unfold FieldWrite.Misses at hmisses ⊢
      omega
    · exact ⟨hlength, Or.inr ⟨hmeets, htext⟩⟩
  · by_cases hthere : ∃ o ∈ doc.elements p k, o.name = p.name
    · obtain ⟨o, ho, hname⟩ := hthere
      refine Or.inl ⟨⟨p.address layout value k, p.maxValLen - 1, trim o.text⟩, ?_, ⟨rfl, rfl⟩, ?_⟩
      · exact h.mem_allWrites.mpr ⟨p, hp, value, hvalue, k, hk, o, ho, hname, rfl⟩
      · exact (h.fieldText_of_mem ho hname).symm
    · rw [fieldText_of_missing hthere, List.take_nil]
      exact Or.inr (hheld.resolve_left hthere)

/-- The last byte of a field is never written. -/
theorem WellFormed.last_foldl {conf : Memory} (h : doc.WellFormed (cfgTagTpl layout)) (hp : p ∈ cfgTagTpl layout)
    (hvalue : value ∈ p.value) (hk : k < maxCams) :
    (CfgItem.allWrites (cfgTagTpl layout) 0 doc.items).foldl FieldWrite.apply conf
        (p.address layout value k + (p.maxValLen - 1)) =
      conf (p.address layout value k + (p.maxValLen - 1)) := by
  have hroom := one_lt_maxValLen hp hvalue
  refine FieldWrite.foldl_of_misses (n := 1) (fun w hw => ?_) (le_refl _) (Nat.lt_succ_self _)
  obtain ⟨hlength, hcases⟩ := h.write_cases hw hp hvalue hk
  refine ⟨hlength, ?_⟩
  unfold FieldWrite.Misses at hcases ⊢
  unfold FieldWrite.Meets at hcases
  omega

end Filled

end CfgDocument

/-- The first parameter is the one which is cleaned before a file is read. -/
theorem cleanParamData_cfgTagTpl (layout : ConfLayout) (conf : Memory) :
    XmlParser.cleanParamData (cfgTagTpl layout) conf = Function.update conf 0 nul := rfl

/-- A configuration is filled in as a document says. A recorder's field holds the text of its element,
without the blanks around it and cut to its size. So does every camera's field in a configuration
which was all zeros, and it is empty when the camera, or this element of it, is not there. The last
byte of a field is left as it was. -/
structure CfgDocument.FilledIn (layout : ConfLayout) (doc : CfgDocument) (before conf : Memory) : Prop where
  recorder : ∀ p ∈ cfgTagTpl layout, p.isPerCamera = false → ∀ value ∈ p.value,
    ∀ o ∈ doc.elements p 0, o.name = p.name →
      conf.text value (p.maxValLen - 1) = (trim o.text).take (p.maxValLen - 1)
  camera : (∀ a, before a = nul) → ∀ p ∈ cfgTagTpl layout, p.isPerCamera = true → ∀ value ∈ p.value,
    ∀ k < maxCams,
      conf.text (value + k * layout.camdefSize) (p.maxValLen - 1) =
        (doc.fieldText p k).take (p.maxValLen - 1)
  last : ∀ p ∈ cfgTagTpl layout, ∀ value ∈ p.value, ∀ k < maxCams,
    conf (p.address layout value k + (p.maxValLen - 1)) =
      before (p.address layout value k + (p.maxValLen - 1))

/-- The parser fills in the configuration as the document says, however the library splits the text
and the reader the file. -/
theorem XmlParser.doFile_filledIn (layout : ConfLayout) (st : XmlParser) {doc : CfgDocument}
    (hdoc : doc.WellFormed (cfgTagTpl layout)) {blocks : List (List Callback)}
    (hblocks : doc.Delivers blocks.flatten) :
    (st.doFile (cfgTagTpl layout) (some (blocks.map fun cbs => .block cbs true))).1 = true ∧
      doc.FilledIn layout st.conf
        (st.doFile (cfgTagTpl layout) (some (blocks.map fun cbs => .block cbs true))).2.conf := by
  obtain ⟨hok, hconf⟩ := st.doFile_conf (cfgTagTpl_containers layout) hdoc.readable hblocks
  rw [cleanParamData_cfgTagTpl] at hconf
  refine ⟨hok, ?_⟩
  rw [hconf]
  constructor
  case recorder =>
    intro p hp hrecorder value hvalue o ho hname
    have htext := hdoc.text_foldl (Function.update st.conf 0 nul) hp hvalue (k := 0) (by decide)
      (Or.inl ⟨o, ho, hname⟩)
    rwa [hdoc.fieldText_of_mem ho hname, CfgParam.address, hrecorder, if_neg Bool.false_ne_true,
      Nat.add_zero] at htext
  case camera =>
    intro hzeros p hp hcamera value hvalue k hk
    have hempty : Function.update st.conf 0 nul (p.address layout value k) = nul := by
      rw [Function.update_apply, hzeros, ite_self]
    have htext := hdoc.text_foldl _ hp hvalue hk (Or.inr (Memory.text_of_nul hempty _))
    rwa [CfgParam.address, if_pos hcamera] at htext
  case last =>
    intro p hp value hvalue k hk
    have hroom := one_lt_maxValLen hp hvalue
    rw [hdoc.last_foldl hp hvalue hk]
    exact Function.update_of_ne (by omega) _ _

/-- A recorder with two cameras. -/
def twoCameras : CfgDocument where
  root := ("recorder").toList
  items :=
    [.option ⟨("serial_number").toList, (" 1153721").toList⟩,
      .storage [⟨("max_age").toList, ("999").toList⟩],
      .camera [⟨("name").toList, ("FORWARD").toList⟩],
      .camera [⟨("name").toList, ("INWARD ").toList⟩, ⟨("record_audio").toList, []⟩]]

/-- The callbacks for it when the first block ends in the serial number. -/
def twoCamerasBlocks : List (List Callback) :=
  [[.startElement ("recorder").toList, .charData [' '], .startElement ("serial_number").toList,
      .charData (" 115").toList],
    [.charData ("37").toList, .charData ("21").toList, .endElement ("serial_number").toList,
      .startElement ("video_storage").toList, .startElement ("max_age").toList, .charData ("999").toList,
      .endElement ("max_age").toList, .endElement ("video_storage").toList,
      .startElement ("camera").toList, .startElement ("name").toList, .charData ("FORWARD").toList,
      .endElement ("name").toList, .endElement ("camera").toList,
      .startElement ("camera").toList, .startElement ("name").toList, .charData ("INWARD ").toList,
      .endElement ("name").toList, .startElement ("record_audio").toList,
      .endElement ("record_audio").toList, .endElement ("camera").toList],
    [.endElement ("recorder").toList]]

theorem twoCameras_delivers : twoCameras.Delivers twoCamerasBlocks.flatten := by
  have hserial : OptionElement.Delivers ⟨("serial_number").toList, (" 1153721").toList⟩ _ :=
    .pieces [(" 115").toList, ("37").toList, ("21").toList] rfl
  have hage : OptionElement.Delivers ⟨("max_age").toList, ("999").toList⟩ _ := .pieces [("999").toList] rfl
  have hforward : OptionElement.Delivers ⟨("name").toList, ("FORWARD").toList⟩ _ :=
    .pieces [("FORWARD").toList] rfl
  have hinward : OptionElement.Delivers ⟨("name").toList, ("INWARD ").toList⟩ _ :=
    .pieces [("INWARD ").toList] rfl
  have haudio : OptionElement.Delivers ⟨("record_audio").toList, []⟩ _ := .pieces [] rfl
  have hcameras : DeliversAll CfgItem.Delivers (twoCameras.items.drop 2) _ :=
    .element (CfgItem.Delivers.camera (.element hforward .nil))
      (.element (CfgItem.Delivers.camera (.element hinward (.element haudio .nil))) .nil)
  have hitems : DeliversAll CfgItem.Delivers twoCameras.items _ :=
    .text [' '] (.element (CfgItem.Delivers.option hserial)
      (.element (CfgItem.Delivers.storage (.element hage .nil)) hcameras))
  exact .root hitems

theorem twoCameras_wellFormed : twoCameras.WellFormed (cfgTagTpl smallestLayout) where
  options := ⟨by decide +kernel, by decide, by decide⟩
  storages := by
    intro options hoptions
    rw [List.mem_singleton.mp hoptions]
    exact ⟨by decide +kernel, by decide, by decide⟩
  cameras := by
    intro options hoptions
    rcases List.mem_pair.mp hoptions with rfl | rfl
    · exact ⟨by decide +kernel, by decide, by decide⟩
    · exact ⟨by decide +kernel, by decide, by decide⟩
  oneStorage := by decide
  cameras_le := by decide

/-- What reading it comes to. -/
def twoCamerasRead : Bool × XmlParser :=
  XmlParser.doFile (cfgTagTpl smallestLayout) ⟨0, 0, none, false, [], false, fun _ => nul⟩
    (some (twoCamerasBlocks.map fun cbs => .block cbs true))

/-- The serial number, which the first block cuts, and the name of the second camera come out whole. -/
theorem XmlParser.doFile_filledIn_twoCameras :
    twoCamerasRead.1 = true ∧ twoCamerasRead.2.conf.text 0 maxSerNumSize = ("1153721").toList ∧
      twoCamerasRead.2.conf.text (camerasOffset + 4 + 1 * camdefStrings) cameraNameLength =
        ("INWARD").toList := by
  obtain ⟨hok, hfilled⟩ := doFile_filledIn smallestLayout ⟨0, 0, none, false, [], false, fun _ => nul⟩
    twoCameras_wellFormed twoCameras_delivers
  refine ⟨hok, ?_, ?_⟩
  · exact hfilled.recorder serialNumberParam List.mem_cons_self rfl 0 rfl
      ⟨("serial_number").toList, (" 1153721").toList⟩ List.mem_cons_self rfl
  · have hname := hfilled.camera (fun _ => rfl)
      ⟨2, true, ("name").toList, some (camerasOffset + 4), cameraNameLength + 1⟩ (by decide) rfl
      (camerasOffset + 4) rfl 1 (by decide)
    exact hname.trans (by decide)

end RecordingAgent.Reagent
