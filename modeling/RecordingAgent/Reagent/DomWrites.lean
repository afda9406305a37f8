import RecordingAgent.Reagent.DomUtil

/-!
# What a pass over a document writes

Patching a document gives data to elements which are found by their tags. Neither where they are found nor
which user a camera belongs to is changed by that, so what a pass writes can be told before it writes
anything, and a second pass writes the same.
-/

namespace RecordingAgent.Reagent.DomUtil

open Foundation

/-- Data for the elements below a node, where they are found. -/
def childWrites (node : NodePath) (settings : List (CString × CString)) (t : Nodes) : List (NodePath × CString) :=
  settings.filterMap fun setting => (t.findBelow node setting.1).map (·, setting.2)

/-- The user's camera with the name of the one at a node. -/
def cameraUser (ucCameras : List CameraListElement) (t : Nodes) (node : NodePath) : Option CameraListElement :=
  (t.findBelow node "name".toList).bind fun ptmp => (t.getData ptmp).bind (matchingUser ucCameras)

/-- Data for the elements of a camera. -/
def cameraWrites (ucCameras : List CameraListElement) (t : Nodes) (node : NodePath) : List (NodePath × CString) :=
  match cameraUser ucCameras t node with
  | some u => childWrites node (cameraOptions u) t
  | none => []

/-- Data for the elements of all cameras. -/
def camdefWrites (ucCameras : List CameraListElement) (t : Nodes) : List (NodePath × CString) :=
  (cameraIndex t).flatMap (cameraWrites ucCameras t)

/-- Data for the parameters of the recorder. -/
def paramWrites (recorderSn ucLocoid : Option CString) (t : Nodes) : List (NodePath × CString) :=
  childWrites [] (recorderParams recorderSn ucLocoid) t

/-- All data a pass over a document writes. -/
def passWrites (recorderSn ucLocoid : Option CString) (ucCameras : List CameraListElement) (t : Nodes) :
    List (NodePath × CString) :=
  paramWrites recorderSn ucLocoid t ++ camdefWrites ucCameras t

/-- The cameras of a document are as many as the user's, and each has the name of one. -/
def PatchedInPlace (ucCameras : List CameraListElement) (t : Nodes) : Prop :=
  0 < ucCameras.length ∧ (cameraIndex t).length = ucCameras.length ∧
    ∀ node ∈ cameraIndex t, (cameraUser ucCameras t node).isSome

instance decidablePatchedInPlace (ucCameras : List CameraListElement) (t : Nodes) : Decidable (PatchedInPlace ucCameras t) :=
  inferInstanceAs (Decidable (_ ∧ _))

/-- The name of a camera and what is written to it have data to be compared with. -/
structure CameraHasData (ucCameras : List CameraListElement) (t : Nodes) (node : NodePath) : Prop where
  name : ∀ ptmp, t.findBelow node "name".toList = some ptmp → t.getData ptmp ≠ none
  writes : ∀ w ∈ cameraWrites ucCameras t node, t.getData w.1 ≠ none

/-- A pass over a document meets no element without data. The cameras are looked at if they are as many as
the user's. -/
structure HasData (recorderSn ucLocoid : Option CString) (ucCameras : List CameraListElement) (t : Nodes) : Prop where
  params : ∀ w ∈ paramWrites recorderSn ucLocoid t, t.getData w.1 ≠ none
  cameras : 0 < ucCameras.length ∧ (cameraIndex t).length = ucCameras.length →
    ∀ node ∈ cameraIndex t, CameraHasData ucCameras t node

/-- The document with the parameters set and the cameras rebuilt. -/
def rebuilt (recorderSn ucLocoid : Option CString) (userdom : Option Nodes) (t : Nodes) : Nodes :=
  replaceCamdefs (.applyWrites (paramWrites recorderSn ucLocoid t) t) userdom

/-- No name is written. -/
def SparesNames (ws : List (NodePath × CString)) (t : Nodes) : Prop :=
  ∀ w ∈ ws, (t.nodesAt w.1).tagOf ≠ some "name".toList

variable {recorderSn ucLocoid : Option CString} {ucCameras : List CameraListElement} {s t : Nodes} {node : NodePath}
  {settings : List (CString × CString)} {ws : List (NodePath × CString)}

theorem childWrites_congr (h : s.shape = t.shape) (node : NodePath) (settings : List (CString × CString)) :
    childWrites node settings s = childWrites node settings t := by
  unfold childWrites
  simp only [Nodes.findBelow_congr h]

theorem cameraIndex_congr (h : s.shape = t.shape) : cameraIndex s = cameraIndex t := by
  rw [cameraIndex, cameraIndex, ← Nodes.findAllBelow_shape, h, Nodes.findAllBelow_shape]

theorem sparesNames_childWrites (h : ∀ setting ∈ settings, setting.1 ≠ "name".toList) :
    SparesNames (childWrites node settings t) t := by
  intro w hw
  obtain ⟨setting, hsetting, hfound⟩ := List.mem_filterMap.mp hw
  obtain ⟨p, hp, rfl⟩ := Option.map_eq_some_iff.mp hfound
  rw [Nodes.tagOf_of_findBelow hp]
  exact fun heq => h setting hsetting (Option.some.inj heq)

theorem tag_of_givenParam {tag : CString} {value : Option CString} {setting : CString × CString}
    (h : setting ∈ givenParam tag value) : setting.1 = tag := by
  unfold givenParam at h
  split at h
  · rw [List.mem_singleton.mp h]
  · cases h

theorem sparesNames_paramWrites : SparesNames (paramWrites recorderSn ucLocoid t) t := by
  refine sparesNames_childWrites fun setting hsetting => ?_
  rcases List.mem_append.mp hsetting with hserial | hloco
  · rw [tag_of_givenParam hserial]
    decide
  · rw [tag_of_givenParam hloco]
    decide

theorem sparesNames_cameraWrites : SparesNames (cameraWrites ucCameras t node) t := by
  unfold cameraWrites
  split
  next u _ => exact sparesNames_childWrites (show ∀ setting ∈ cameraOptions u, setting.1 ≠ "name".toList by
    simp only [cameraOptions, List.forall_mem_cons]
    decide)
  · exact nofun

theorem sparesNames_camdefWrites : SparesNames (camdefWrites ucCameras t) t := by
  intro w hw
  obtain ⟨node, -, hwrite⟩ := List.mem_flatMap.mp hw
  exact sparesNames_cameraWrites w hwrite

theorem sparesNames_passWrites : SparesNames (passWrites recorderSn ucLocoid ucCameras t) t := by
  intro w hw
  rcases List.mem_append.mp hw with hparam | hcamera
  · exact sparesNames_paramWrites w hparam
  · exact sparesNames_camdefWrites w hcamera

theorem cameraUser_applyWrites (h : SparesNames ws t) (node : NodePath) :
    cameraUser ucCameras (.applyWrites ws t) node = cameraUser ucCameras t node := by
  unfold cameraUser
  rw [Nodes.findBelow_congr (Nodes.shape_applyWrites ws t)]
  cases hname : t.findBelow node "name".toList with
  | none => rfl
  | some ptmp =>
    have hother : ∀ w ∈ ws, w.1 ≠ ptmp := fun w hw heq => h w hw (heq ▸ Nodes.tagOf_of_findBelow hname)
    rw [Option.bind_some, Option.bind_some, Nodes.getData_applyWrites hother]

theorem cameraWrites_applyWrites (h : SparesNames ws t) (node : NodePath) :
    cameraWrites ucCameras (.applyWrites ws t) node = cameraWrites ucCameras t node := by
  unfold cameraWrites
  rw [cameraUser_applyWrites h]
  simp only [childWrites_congr (Nodes.shape_applyWrites ws t)]

theorem camdefWrites_applyWrites (h : SparesNames ws t) :
    camdefWrites ucCameras (.applyWrites ws t) = camdefWrites ucCameras t := by
  unfold camdefWrites
  rw [cameraIndex_congr (Nodes.shape_applyWrites ws t), funext (cameraWrites_applyWrites h)]

theorem paramWrites_applyWrites (ws : List (NodePath × CString)) (t : Nodes) :
    paramWrites recorderSn ucLocoid (.applyWrites ws t) = paramWrites recorderSn ucLocoid t :=
  childWrites_congr (Nodes.shape_applyWrites ws t) _ _

/-- A second pass writes the same. -/
theorem passWrites_applyWrites (h : SparesNames ws t) :
    passWrites recorderSn ucLocoid ucCameras (.applyWrites ws t) = passWrites recorderSn ucLocoid ucCameras t := by
  rw [passWrites, paramWrites_applyWrites, camdefWrites_applyWrites h, passWrites]

theorem patchedInPlace_applyWrites (h : SparesNames ws t) :
    PatchedInPlace ucCameras (.applyWrites ws t) ↔ PatchedInPlace ucCameras t := by
  unfold PatchedInPlace
  simp only [cameraIndex_congr (Nodes.shape_applyWrites ws t), cameraUser_applyWrites h]

/-- Setting an element writes its data, and reports no change only if it had the data. -/
theorem duSetChildNewData_eq {tag newVal : CString} {r : Bool × Nodes} (h : duSetChildNewData node tag newVal t = some r) :
    r.2 = .applyWrites (childWrites node [(tag, newVal)] t) t ∧ (r.1 = false → r.2 = t) := by
  unfold duSetChildNewData at h
  split at h
  next hnone =>
    cases h
    rw [childWrites, List.filterMap_cons_none (by rw [hnone]; rfl)]
    exact ⟨rfl, fun _ => rfl⟩
  next pnode hfound =>
    have hwrite : childWrites node [(tag, newVal)] t = [(pnode, newVal)] := by
      rw [childWrites, List.filterMap_cons_some (by rw [hfound]; rfl)]
      rfl
    rw [hwrite]
    split at h
    · cases h
    next curValue hdata =>
      cases h
      split
      next heq =>
        rw [Nodes.applyWrites_cons, Nodes.setData_of_getData fun w hw => Option.some.inj (hw.symm.trans (heq ▸ hdata))]
        exact ⟨rfl, fun _ => rfl⟩
      · exact ⟨rfl, nofun⟩

theorem setChildren_eq {r : Bool × Nodes} (h : setChildren node settings t = some r) :
    r.2 = .applyWrites (childWrites node settings t) t ∧ (r.1 = false → r.2 = t) := by
  induction settings generalizing t r with
  | nil =>
    cases h
    exact ⟨rfl, fun _ => rfl⟩
  | cons setting settings ih =>
    obtain ⟨set, hset, h⟩ := Option.bind_eq_some_iff.mp h
    obtain ⟨rest, hrest, rfl⟩ := Option.map_eq_some_iff.mp h
    obtain ⟨hsetDom, hsetClean⟩ := duSetChildNewData_eq hset
    obtain ⟨hrestDom, hrestClean⟩ := ih hrest
    have hwrites : childWrites node (setting :: settings) t =
        childWrites node [setting] t ++ childWrites node settings t := by
      rw [childWrites, childWrites, childWrites, ← List.filterMap_append]
      rfl
    constructor
    · rw [hwrites, Nodes.applyWrites_append, ← hsetDom, hrestDom, hsetDom,
        childWrites_congr (Nodes.shape_applyWrites _ t)]
    · intro hclean
      obtain ⟨hset, hrest⟩ := Bool.or_eq_false_iff.mp hclean
      exact (hrestClean hrest).trans (hsetClean hset)

theorem patchCamera_eq {r : Patched} (h : patchCamera ucCameras node t = some r) :
    r.pdom = .applyWrites (cameraWrites ucCameras t node) t ∧ (r.isDirty = false → r.pdom = t) ∧
      r.matched = if (cameraUser ucCameras t node).isSome then 1 else 0 := by
  unfold patchCamera at h
  cases hname : t.findBelow node "name".toList with
  | none =>
    rw [hname] at h
    cases h
    have huser : cameraUser ucCameras t node = none := by rw [cameraUser, hname, Option.bind_none]
    rw [cameraWrites, huser]
    exact ⟨rfl, fun _ => rfl, rfl⟩
  | some ptmp =>
    cases ucCameras with
    | nil =>
      rw [hname] at h
      cases h
      have huser : cameraUser [] t node = none := by
        rw [cameraUser, hname, Option.bind_some]
        cases t.getData ptmp <;> rfl
      rw [cameraWrites, huser]
      exact ⟨rfl, fun _ => rfl, rfl⟩
    | cons u us =>
      rw [hname] at h
      obtain ⟨name, hdata, h⟩ := Option.bind_eq_some_iff.mp h
      have huser : cameraUser (u :: us) t node = matchingUser (u :: us) name := by
        rw [cameraUser, hname, Option.bind_some, hdata, Option.bind_some]
      split at h
      next hmatch =>
        cases h
        rw [cameraWrites, huser, hmatch]
        exact ⟨rfl, fun _ => rfl, rfl⟩
      next v hmatch =>
        obtain ⟨set, hset, rfl⟩ := Option.map_eq_some_iff.mp h
        obtain ⟨hdom, hclean⟩ := setChildren_eq hset
        rw [cameraWrites, huser, hmatch]
        exact ⟨hdom, hclean, rfl⟩

/-- The loop over cameras writes the data for each of them, and counts those of a user. -/
theorem patchIndexed_eq {idx : List NodePath} {r : Patched} (h : patchIndexed ucCameras idx t = some r) :
    r.pdom = .applyWrites (idx.flatMap (cameraWrites ucCameras t)) t ∧ (r.isDirty = false → r.pdom = t) ∧
      r.matched = idx.countP fun node => (cameraUser ucCameras t node).isSome := by
  induction idx generalizing t r with
  | nil =>
    cases h
    exact ⟨rfl, fun _ => rfl, rfl⟩
  | cons node idx ih =>
    obtain ⟨camera, hcamera, h⟩ := Option.bind_eq_some_iff.mp h
    obtain ⟨rest, hrest, rfl⟩ := Option.map_eq_some_iff.mp h
    obtain ⟨hdom, hclean, hmatched⟩ := patchCamera_eq hcamera
    obtain ⟨hrestDom, hrestClean, hrestMatched⟩ := ih hrest
    rw [hdom, funext (cameraWrites_applyWrites sparesNames_cameraWrites)] at hrestDom
    rw [hdom] at hrestMatched
    simp only [cameraUser_applyWrites sparesNames_cameraWrites] at hrestMatched
    refine ⟨?_, fun h => ?_, ?_⟩
    · rw [List.flatMap_cons, Nodes.applyWrites_append]
      exact hrestDom
    · obtain ⟨hcameraClean, hotherClean⟩ := Bool.or_eq_false_iff.mp h
      exact (hrestClean hotherClean).trans (hclean hcameraClean)
    · rw [List.countP_cons, ← hrestMatched, ← hmatched, Nat.add_comm]

theorem patchRecorderParams_eq {r : Bool × Nodes} (h : patchRecorderParams recorderSn ucLocoid t = some r) :
    r.2 = .applyWrites (paramWrites recorderSn ucLocoid t) t ∧ (r.1 = false → r.2 = t) := setChildren_eq h

theorem patchCamdefs_eq {r : Patched} (h : patchCamdefs ucCameras t = some r) :
    r.pdom = .applyWrites (camdefWrites ucCameras t) t ∧ (r.isDirty = false → r.pdom = t) ∧
      r.matched = (cameraIndex t).countP fun node => (cameraUser ucCameras t node).isSome := by
  obtain ⟨patched, hpatched, rfl⟩ := Option.map_eq_some_iff.mp h
  obtain ⟨hdom, hclean, hmatched⟩ := patchIndexed_eq hpatched
  exact ⟨hdom, fun h => hclean (Bool.or_eq_false_iff.mp h).1, hmatched⟩

/-- Patching the current file writes what the pass over it does. -/
theorem patchCurrent_eq {r : Bool × Nodes} (h : patchCurrent recorderSn ucLocoid ucCameras t = some r) :
    r.2 = .applyWrites (passWrites recorderSn ucLocoid ucCameras t) t ∧ (r.1 = false → r.2 = t) := by
  obtain ⟨params, hparams, h⟩ := Option.bind_eq_some_iff.mp h
  obtain ⟨cams, hcams, rfl⟩ := Option.map_eq_some_iff.mp h
  obtain ⟨hparamsDom, hparamsClean⟩ := patchRecorderParams_eq hparams
  obtain ⟨hcamsDom, hcamsClean, -⟩ := patchCamdefs_eq hcams
  constructor
  · rw [passWrites, Nodes.applyWrites_append, ← camdefWrites_applyWrites sparesNames_paramWrites, ← hparamsDom, ← hcamsDom]
  · intro hclean
    obtain ⟨hparams, hcams⟩ := Bool.or_eq_false_iff.mp hclean
    exact (hcamsClean hcams).trans (hparamsClean hparams)

theorem deleteCameras_setData (h : node ∈ cameraIndex t) (q : NodePath) (v : CString) :
    deleteCameras (t.setData (node ++ .child :: q) v) = deleteCameras t := by
  obtain ⟨p, hp, rfl⟩ := List.mem_map.mp h
  cases t with
  | nil => cases hp
  | element tag attrs children next =>
    have hremove := Nodes.remove_setData_below hp q v
    exact congrArg (Nodes.element tag attrs · next) hremove
  | text data next => cases hp

/-- What is written below cameras goes with them. -/
theorem deleteCameras_applyWrites (h : ∀ w ∈ ws, ∃ node ∈ cameraIndex t, ∃ q, w.1 = node ++ .child :: q) :
    deleteCameras (.applyWrites ws t) = deleteCameras t := by
  induction ws generalizing t with
  | nil => rfl
  | cons w ws ih =>
    obtain ⟨⟨node, hnode, q, hw⟩, hws⟩ := List.forall_mem_cons.mp h
    rw [Nodes.applyWrites_cons, ih (by rwa [cameraIndex_congr (Nodes.shape_setData w.1 w.2 t)]), hw,
      deleteCameras_setData hnode]

theorem deleteCameras_camdefWrites (ucCameras : List CameraListElement) (t : Nodes) :
    deleteCameras (.applyWrites (camdefWrites ucCameras t) t) = deleteCameras t := by
  refine deleteCameras_applyWrites fun w hw => ?_
  obtain ⟨node, hnode, hwrite⟩ := List.mem_flatMap.mp hw
  unfold cameraWrites at hwrite
  split at hwrite
  · obtain ⟨setting, -, hfound⟩ := List.mem_filterMap.mp hwrite
    obtain ⟨p, hp, rfl⟩ := Option.map_eq_some_iff.mp hfound
    obtain ⟨q, -, rfl⟩ := Option.map_eq_some_iff.mp hp
    exact ⟨node, hnode, q, rfl⟩
  · cases hwrite

theorem deleteCameras_deleteCameras (t : Nodes) : deleteCameras (deleteCameras t) = deleteCameras t := by
  cases t with
  | nil => rfl
  | element tag attrs children next =>
    exact congrArg (Nodes.element tag attrs · next) (Nodes.lacks_remove _ children).remove_eq
  | text data next => rfl

/-- Only what is not in a camera is kept when the cameras are replaced. -/
theorem replaceCamdefs_congr (h : deleteCameras s = deleteCameras t) (userdom : Option Nodes) :
    replaceCamdefs s userdom = replaceCamdefs t userdom := by
  cases userdom with
  | none => exact h
  | some userdom => exact congrArg (adoptCameras · userdom) h

/-- The cameras which have replaced others can be deleted again. -/
theorem deleteCameras_replaceCamdefs (userdom : Option Nodes) (t : Nodes) :
    deleteCameras (replaceCamdefs t userdom) = deleteCameras t := by
  cases userdom with
  | none => exact deleteCameras_deleteCameras t
  | some userdom =>
    rw [replaceCamdefs, adoptCameras]
    split
    next recorder hrecorder =>
      obtain ⟨q, -, rfl⟩ := Option.map_eq_some_iff.mp hrecorder
      cases t with
      | nil => rfl
      | element tag attrs children next =>
        exact congrArg (Nodes.element tag attrs · next)
          ((Nodes.lacks_remove _ children).remove_addChildren (Nodes.remove_ofElements _ _) q)
      | text data next => rfl
    · exact deleteCameras_deleteCameras t

/-- The base file is patched like the current file, or its cameras are rebuilt. -/
theorem patchBase_cases {userdom : Option Nodes} {b : BaseResult}
    (h : patchBase recorderSn ucLocoid ucCameras userdom t = some b) :
    (PatchedInPlace ucCameras t ∧ b.doReplaceCamdefs = false ∧
        patchCurrent recorderSn ucLocoid ucCameras t = some (b.isDirty, b.pdom)) ∨
      (¬ PatchedInPlace ucCameras t ∧ b = ⟨true, true, rebuilt recorderSn ucLocoid userdom t⟩) := by
  obtain ⟨params, hparams, h⟩ := Option.bind_eq_some_iff.mp h
  obtain ⟨hparamsDom, -⟩ := patchRecorderParams_eq hparams
  have hplace : PatchedInPlace ucCameras params.2 ↔ PatchedInPlace ucCameras t := by
    rw [hparamsDom, patchedInPlace_applyWrites sparesNames_paramWrites]
  rw [← hplace]
  split at h
  next hcount =>
    obtain ⟨cams, hcams, rfl⟩ := Option.map_eq_some_iff.mp h
    obtain ⟨hcamsDom, -, hmatched⟩ := patchCamdefs_eq hcams
    split
    next hne =>
      refine .inr ⟨fun hin => hne ?_, ?_⟩
      · rw [hmatched, List.countP_eq_length]
        exact hin.2.2
      · have hbelow : deleteCameras cams.pdom = deleteCameras params.2 :=
          hcamsDom ▸ deleteCameras_camdefWrites ucCameras params.2
        rw [replaceCamdefs_congr hbelow, rebuilt, hparamsDom]
    next heq =>
      refine .inl ⟨⟨hcount.1, hcount.2, ?_⟩, rfl, ?_⟩
      · rw [hmatched, not_not, List.countP_eq_length] at heq
        exact heq
      · rw [patchCurrent, hparams, Option.bind_some, hcams]
        rfl
  next hcount =>
    cases h
    refine .inr ⟨fun hin => hcount ⟨hin.1, hin.2.1⟩, ?_⟩
    rw [rebuilt, hparamsDom]

/-- An element that is found has data to be compared with. -/
theorem duSetChildNewData_isSome {tag newVal : CString} :
    (duSetChildNewData node tag newVal t).isSome ↔ ∀ p, t.findBelow node tag = some p → t.getData p ≠ none := by
  unfold duSetChildNewData
  split
  next hnone =>
    rw [hnone]
    exact ⟨fun _ => nofun, fun _ => rfl⟩
  next pnode hfound =>
    simp only [hfound, Option.some.injEq, forall_eq']
    split
    next hdata => exact ⟨nofun, fun h => absurd hdata h⟩
    next curValue hdata => exact ⟨fun _ h => Option.some_ne_none _ (hdata.symm.trans h), fun _ => rfl⟩

/-- What is written is what is found for the settings. -/
theorem forall_childWrites {P : NodePath → Prop} :
    (∀ w ∈ childWrites node settings t, P w.1) ↔
      ∀ setting ∈ settings, ∀ p, t.findBelow node setting.1 = some p → P p := by
  constructor
  · intro h setting hsetting p hp
    exact h (p, setting.2) (List.mem_filterMap.mpr ⟨setting, hsetting, by rw [hp]; rfl⟩)
  · intro h w hw
    obtain ⟨setting, hsetting, hfound⟩ := List.mem_filterMap.mp hw
    obtain ⟨p, hp, rfl⟩ := Option.map_eq_some_iff.mp hfound
    exact h setting hsetting p hp

theorem setChildren_isSome :
    (setChildren node settings t).isSome ↔ ∀ w ∈ childWrites node settings t, t.getData w.1 ≠ none := by
  rw [forall_childWrites (P := fun p => t.getData p ≠ none)]
  induction settings generalizing t with
  | nil => exact ⟨fun _ => nofun, fun _ => rfl⟩
  | cons setting settings ih =>
    rw [setChildren, List.forall_mem_cons, ← duSetChildNewData_isSome]
    cases hset : duSetChildNewData node setting.1 setting.2 t with
    | none => simp
    | some set =>
      have hrest := ih (t := set.2)
      rw [Option.bind_some, Option.isSome_map, hrest, (duSetChildNewData_eq hset).1]
      simp only [Nodes.findBelow_congr (Nodes.shape_applyWrites _ t), ne_eq, Nodes.getData_applyWrites_eq_none,
        Option.isSome_some, true_and]

theorem cameraHasData_applyWrites (h : SparesNames ws t) (node : NodePath) :
    CameraHasData ucCameras (.applyWrites ws t) node ↔ CameraHasData ucCameras t node := by
  have hname := Nodes.findBelow_congr (Nodes.shape_applyWrites ws t) node "name".toList
  have hdata := fun q => (Nodes.getData_applyWrites_eq_none ws q t).not
  have hwrites : cameraWrites ucCameras (.applyWrites ws t) node = cameraWrites ucCameras t node :=
    cameraWrites_applyWrites h node
  constructor
  · intro hcamera
    exact ⟨fun p hp => (hdata p).mp (hcamera.name p (hname.trans hp)),
      fun w hw => (hdata w.1).mp (hcamera.writes w (hwrites ▸ hw))⟩
  · intro hcamera
    exact ⟨fun p hp => (hdata p).mpr (hcamera.name p (hname.symm.trans hp)),
      fun w hw => (hdata w.1).mpr (hcamera.writes w (hwrites ▸ hw))⟩

theorem patchCamera_isSome (h : 0 < ucCameras.length) :
    (patchCamera ucCameras node t).isSome ↔ CameraHasData ucCameras t node := by
  obtain ⟨u, us, rfl⟩ := List.exists_cons_of_length_pos h
  unfold patchCamera
  cases hname : t.findBelow node "name".toList with
  | none =>
    have huser : cameraUser (u :: us) t node = none := by rw [cameraUser, hname, Option.bind_none]
    refine ⟨fun _ => ⟨fun p hp => ?_, ?_⟩, fun _ => rfl⟩
    · rw [hname] at hp
      cases hp
    · rw [cameraWrites, huser]
      exact nofun
  | some ptmp =>
    dsimp only
    cases hdata : t.getData ptmp with
    | none => exact ⟨nofun, fun hcamera => absurd hdata (hcamera.name ptmp hname)⟩
    | some name =>
      have hhas : ∀ p, t.findBelow node "name".toList = some p → t.getData p ≠ none := by
        intro p hp
        obtain rfl := Option.some.inj (hname.symm.trans hp)
        rw [hdata]
        exact Option.some_ne_none _
      have huser : cameraUser (u :: us) t node = matchingUser (u :: us) name := by
        rw [cameraUser, hname, Option.bind_some, hdata, Option.bind_some]
      rw [Option.bind_some]
      split
      next hmatch =>
        refine ⟨fun _ => ⟨hhas, ?_⟩, fun _ => rfl⟩
        rw [cameraWrites, huser, hmatch]
        exact nofun
      next v hmatch =>
        have hwrites : cameraWrites (u :: us) t node = childWrites node (cameraOptions v) t := by
          rw [cameraWrites, huser, hmatch]
        rw [Option.isSome_map, setChildren_isSome, ← hwrites]
        exact ⟨fun h => ⟨hhas, h⟩, fun h => h.writes⟩

theorem patchIndexed_isSome (h : 0 < ucCameras.length) {idx : List NodePath} :
    (patchIndexed ucCameras idx t).isSome ↔ ∀ node ∈ idx, CameraHasData ucCameras t node := by
  induction idx generalizing t with
  | nil => exact ⟨fun _ => nofun, fun _ => rfl⟩
  | cons node idx ih =>
    rw [patchIndexed, List.forall_mem_cons, ← patchCamera_isSome h]
    cases hcamera : patchCamera ucCameras node t with
    | none => simp
    | some camera =>
      rw [Option.bind_some, Option.isSome_map, ih, (patchCamera_eq hcamera).1]
      simp only [cameraHasData_applyWrites sparesNames_cameraWrites, Option.isSome_some, true_and]

/-- A pass over the base file ends if it meets no element without data. -/
theorem patchBase_isSome {userdom : Option Nodes} :
    (patchBase recorderSn ucLocoid ucCameras userdom t).isSome ↔ HasData recorderSn ucLocoid ucCameras t := by
  unfold patchBase
  cases hparams : patchRecorderParams recorderSn ucLocoid t with
  | none =>
    refine ⟨nofun, fun h => ?_⟩
    have hsome := setChildren_isSome.mpr h.params
    rw [← patchRecorderParams, hparams] at hsome
    cases hsome
  | some params =>
    have hgiven : ∀ w ∈ paramWrites recorderSn ucLocoid t, t.getData w.1 ≠ none :=
      setChildren_isSome.mp (Option.isSome_of_eq_some hparams)
    have hindex : cameraIndex params.2 = cameraIndex t := by
      rw [(patchRecorderParams_eq hparams).1, cameraIndex_congr (Nodes.shape_applyWrites _ t)]
    rw [Option.bind_some, hindex]
    split
    next hcount =>
      rw [Option.isSome_map, patchCamdefs, Option.isSome_map, patchIndexed_isSome hcount.1, hindex,
        (patchRecorderParams_eq hparams).1]
      simp only [cameraHasData_applyWrites sparesNames_paramWrites]
      exact ⟨fun h => ⟨hgiven, fun _ => h⟩, fun h => h.cameras hcount⟩
    next hcount => exact ⟨fun _ => ⟨hgiven, fun h => absurd h hcount⟩, fun _ => rfl⟩

end RecordingAgent.Reagent.DomUtil
