import RecordingAgent.Foundation.XmlWords

/-!
# A new address for a camera

When a camera has a new address, its pages are written to the configuration file. The walk over the document
sets a flag at an element with the name of the camera and takes it back at the next stream address; while the
flag is set, every page and address it comes to gets the new value, whatever camera it belongs to.
-/

namespace RecordingAgent.Reagent.DomUtil

open Foundation

/-- The values which `update_configuration_file` is given. -/
structure CameraPages where
  homePage : CString
  snapUrl : CString
  strmUrl : CString

/-- The value for an element of this name. -/
def CameraPages.valueFor (pages : CameraPages) (element : CString) : Option CString :=
  if element = "home_page".toList then some pages.homePage
  else if element = "snapshot_url".toList then some pages.snapUrl
  else if element = "stream_url".toList then some pages.strmUrl
  else none

/-- The variables of the walk, and the nodes below the root of the document. -/
structure UpdateState where
  isDirty : Bool
  prevElement : CString
  ucCameraTreeFound : Bool
  pdom : Nodes

/-- An element while the flag is set. Comparing the value of an element without a text is undefined. -/
def updatePage (pages : CameraPages) (st : UpdateState) (pnode : NodePath) (currElement : CString) :
    Option UpdateState :=
  match pages.valueFor currElement with
  | none => some st
  | some value =>
    (st.pdom.getData pnode).map fun currValue =>
      { st with
        isDirty := st.isDirty || (currElement == "stream_url".toList && value != currValue)
        ucCameraTreeFound := currElement != "stream_url".toList
        pdom := if value ≠ currValue then st.pdom.setData pnode value else st.pdom }

/-- The walk comes to an element. One which is a camera or a name is none of the pages. -/
def updateElement (tag : CString) (pages : CameraPages) (st : UpdateState) (pnode : NodePath) : Option UpdateState :=
  match st.pdom.tagAt pnode with
  | none => some st
  | some currElement =>
    if currElement = "camera".toList then some { st with prevElement := "camera".toList }
    else if currElement = "name".toList ∧ st.prevElement = "camera".toList then
      (st.pdom.getData pnode).map fun currValue =>
        { st with ucCameraTreeFound := st.ucCameraTreeFound || currValue == tag }
    else if st.ucCameraTreeFound then updatePage pages st pnode currElement
    else some st

/-- The loop over elements of the document. -/
def updateElements (tag : CString) (pages : CameraPages) : UpdateState → List NodePath → Option UpdateState
  | st, [] => some st
  | st, pnode :: nodes => (updateElement tag pages st pnode).bind fun st => updateElements tag pages st nodes

/-- `update_configuration_file`: what it returns, and the document then. No node moves during the walk. -/
def updateConfigurationFile (tag : CString) (pages : CameraPages) (pdom : Nodes) : Option (Bool × Nodes) :=
  (updateElements tag pages ⟨false, [], false, pdom⟩ pdom.elements).map fun st => (st.isDirty, st.pdom)

/-- The value for the element at a path. -/
def pageValue (pages : CameraPages) (t : Nodes) (p : NodePath) : Option CString := (t.tagAt p).bind pages.valueFor

/-- The element at a path is in the camera of a name. -/
def InCamera (tag : CString) (t : Nodes) (p : NodePath) : Prop :=
  ∃ camera ∈ t.findAll "camera".toList, p ∈ t.childElements camera ∧
    ∃ name ∈ t.childElements camera, t.tagAt name = some "name".toList ∧ joinWords (t.wordsOf name) = tag

instance (tag : CString) (t : Nodes) (p : NodePath) : Decidable (InCamera tag t p) :=
  inferInstanceAs (Decidable (∃ camera ∈ t.findAll "camera".toList, p ∈ t.childElements camera ∧
    ∃ name ∈ t.childElements camera, t.tagAt name = some "name".toList ∧ joinWords (t.wordsOf name) = tag))

/-- Cameras of the same name are the same. -/
def NamesDistinct (t : Nodes) : Prop :=
  ∀ camera ∈ t.findAll "camera".toList, ∀ camera' ∈ t.findAll "camera".toList,
    ∀ name ∈ t.childElements camera, ∀ name' ∈ t.childElements camera',
      t.tagAt name = some "name".toList → t.tagAt name' = some "name".toList →
        joinWords (t.wordsOf name) = joinWords (t.wordsOf name') → camera = camera'

/-- The update gives the elements of the camera the values, and leaves every other element as it is. -/
def TouchesCameraOnly (tag : CString) (pages : CameraPages) (t : Nodes) : Prop :=
  ∃ isDirty r, updateConfigurationFile tag pages t = some (isDirty, r) ∧ r.shape = t.shape ∧
    ∀ p ∈ t.elements,
      (∀ value, pageValue pages t p = some value → InCamera tag t p → joinWords (r.wordsOf p) = value) ∧
        (pageValue pages t p = none ∨ ¬ InCamera tag t p → r.wordsOf p = t.wordsOf p)

/-! ## The flag of the walk -/

/-- A camera has begun. -/
def CameraBegun (t : Nodes) (before : List NodePath) : Prop := ∃ p ∈ before, t.tagAt p = some "camera".toList

/-- The flag is set behind these elements: a name behind the beginning of a camera begins with the tag, and no
stream address follows it. -/
def Covered (tag : CString) (t : Nodes) (before : List NodePath) : Prop :=
  ∃ first name rest, before = first ++ name :: rest ∧ t.tagAt name = some "name".toList ∧ CameraBegun t first ∧
    t.getData name = some tag ∧ ∀ p ∈ rest, t.tagAt p ≠ some "stream_url".toList

/-- The variables of the walk which an element changes: the previous element and the flag. -/
abbrev Flags := CString × Bool

/-- The variables behind an element. -/
def flagStep (tag : CString) (t : Nodes) (f : Flags) (p : NodePath) : Flags :=
  if t.tagAt p = some "camera".toList then ("camera".toList, f.2)
  else if t.tagAt p = some "name".toList ∧ f.1 = "camera".toList then (f.1, f.2 || t.getData p == some tag)
  else if t.tagAt p = some "stream_url".toList then (f.1, false)
  else f

/-- The value which is written to an element. -/
def written (pages : CameraPages) (t : Nodes) (f : Flags) (p : NodePath) : Option CString :=
  if f.2 then pageValue pages t p else none

/-- The walk compares the value of the element. -/
def Compared (pages : CameraPages) (t : Nodes) (f : Flags) (p : NodePath) : Prop :=
  (t.tagAt p = some "name".toList ∧ f.1 = "camera".toList) ∨ (written pages t f p).isSome = true

/-- What the walk writes. -/
def updateWrites (tag : CString) (pages : CameraPages) (t : Nodes) : Flags → List NodePath → List (NodePath × CString)
  | _, [] => []
  | f, p :: nodes =>
    ((written pages t f p).map (p, ·)).toList ++ updateWrites tag pages t (flagStep tag t f p) nodes

variable {tag : CString} {pages : CameraPages} {t : Nodes} {p : NodePath} {f : Flags} {st st' : UpdateState}

/-- The variables of the walk in a state. -/
def UpdateState.flags (st : UpdateState) : Flags := (st.prevElement, st.ucCameraTreeFound)

/-- Whether the walk stops at an element: it compares a value that is not there. -/
def Stuck (pages : CameraPages) (t : Nodes) (f : Flags) (p : NodePath) : Prop :=
  Compared pages t f p ∧ t.getData p = none

theorem written_eq {currElement : CString} (h : t.tagAt p = some currElement) :
    written pages t f p = if f.2 then pages.valueFor currElement else none := by
  rw [written, pageValue, h, Option.bind_some]

/-- Writing a value that is there already changes nothing. -/
theorem setData_unless_same (pdom : Nodes) (pnode : NodePath) (value : CString) :
    (if pdom.getData pnode ≠ some value then pdom.setData pnode value else pdom) = pdom.setData pnode value := by
  split
  · rfl
  next hsame =>
    refine (Nodes.setData_of_getData fun w hw => ?_).symm
    exact Option.some.inj (hw.symm.trans (not_not.mp hsame))

/-- What the walk does with an element while the flag is set. -/
theorem updatePage_cases (currElement : CString) (hdata : st.pdom.getData p = t.getData p)
    (hfound : st.ucCameraTreeFound = true) :
    ((pages.valueFor currElement).isSome = true ∧ t.getData p = none ∧ updatePage pages st p currElement = none) ∨
      (((pages.valueFor currElement).isSome = true → t.getData p ≠ none) ∧
        ∃ isDirty, updatePage pages st p currElement = some ⟨isDirty, st.prevElement,
          currElement != "stream_url".toList,
          .applyWrites ((pages.valueFor currElement).map (p, ·)).toList st.pdom⟩) := by
  unfold updatePage
  rw [hdata]
  cases hvalue : pages.valueFor currElement with
  | none =>
    have hother : (currElement != "stream_url".toList) = true := by
      rw [bne_iff_ne]
      intro heq
      rw [heq] at hvalue
      cases hvalue
    refine Or.inr ⟨fun h => absurd h Bool.false_ne_true, st.isDirty, ?_⟩
    rw [hother, ← hfound]
    rfl
  | some value =>
    cases hcurrent : t.getData p with
    | none => exact Or.inl ⟨rfl, rfl, rfl⟩
    | some currValue =>
      have hwrite := setData_unless_same st.pdom p value
      rw [hdata, hcurrent] at hwrite
      refine Or.inr ⟨fun _ => Option.some_ne_none currValue,
        st.isDirty || (currElement == "stream_url".toList && value != currValue), ?_⟩
      rw [Option.map_some, Option.toList_some, Nodes.applyWrites_cons, Nodes.applyWrites_nil, ← hwrite]
      simp only [Option.map_some, ne_eq, Option.some.injEq, eq_comm]

variable (tag pages) in
/-- What the walk does at an element: it stops, or it goes on with other variables and perhaps a value written. -/
theorem updateElement_cases (htag : st.pdom.tagAt p = t.tagAt p) (hdata : st.pdom.getData p = t.getData p) :
    (Stuck pages t st.flags p ∧ updateElement tag pages st p = none) ∨
      (¬ Stuck pages t st.flags p ∧ ∃ isDirty, updateElement tag pages st p =
        some ⟨isDirty, (flagStep tag t st.flags p).1, (flagStep tag t st.flags p).2,
          .applyWrites ((written pages t st.flags p).map (p, ·)).toList st.pdom⟩) := by
  unfold updateElement flagStep Stuck Compared
  rw [htag]
  cases helement : t.tagAt p with
  | none =>
    have hwritten : written pages t st.flags p = none := by
      rw [written, pageValue, helement, Option.bind_none, ite_self]
    rw [hwritten]
    exact Or.inr ⟨by simp, st.isDirty, rfl⟩
  | some currElement =>
    have hprev : st.flags.1 = st.prevElement := rfl
    have hflag : st.flags.2 = st.ucCameraTreeFound := rfl
    rw [written_eq helement, hflag]
    simp only [Option.some.injEq, hprev]
    by_cases hcamera : currElement = "camera".toList
    · have hnone : pages.valueFor currElement = none := by rw [hcamera]; rfl
      have hname : currElement ≠ "name".toList := by rw [hcamera]; decide
      rw [if_pos hcamera, if_pos hcamera, hnone, ite_self]
      exact Or.inr ⟨fun h => h.1.elim (fun h => hname h.1) fun h => absurd h Bool.false_ne_true, st.isDirty, rfl⟩
    rw [if_neg hcamera, if_neg hcamera]
    by_cases hname : currElement = "name".toList ∧ st.prevElement = "camera".toList
    · have hnone : pages.valueFor currElement = none := by rw [hname.1]; rfl
      rw [if_pos hname, if_pos hname, hnone, ite_self, hdata]
      cases hcurrent : t.getData p with
      | none => exact Or.inl ⟨⟨Or.inl hname, rfl⟩, rfl⟩
      | some currValue => exact Or.inr ⟨fun h => absurd h.2 (Option.some_ne_none _), st.isDirty, rfl⟩
    rw [if_neg hname, if_neg hname]
    cases hfound : st.ucCameraTreeFound with
    | true =>
      rw [if_pos rfl, if_pos rfl]
      rcases updatePage_cases currElement hdata hfound with ⟨hvalue, hnone, hstuck⟩ | ⟨hvalue, isDirty, hpage⟩
      · exact Or.inl ⟨⟨Or.inr hvalue, hnone⟩, hstuck⟩
      · refine Or.inr ⟨fun h => hvalue (h.1.resolve_left hname) h.2, isDirty, ?_⟩
        rw [hpage]
        by_cases hstream : currElement = "stream_url".toList
        · rw [if_pos hstream, hstream]
          rfl
        · rw [if_neg hstream, bne_iff_ne.mpr hstream, hprev, hflag, hfound]
    | false =>
      rw [if_neg Bool.false_ne_true, if_neg Bool.false_ne_true]
      refine Or.inr ⟨fun h => h.1.elim hname fun h => absurd h Bool.false_ne_true, st.isDirty, ?_⟩
      split
      · rw [← hfound]
        rfl
      · rfl

/-- The variables behind some elements, from the beginning of the walk on. -/
def flagsAfter (tag : CString) (t : Nodes) (before : List NodePath) : Flags := before.foldl (flagStep tag t) ([], false)

theorem flagsAfter_concat (before : List NodePath) (p : NodePath) :
    flagsAfter tag t (before ++ [p]) = flagStep tag t (flagsAfter tag t before) p := by
  rw [flagsAfter, List.foldl_append]
  rfl

theorem cameraBegun_concat (before : List NodePath) (p : NodePath) :
    CameraBegun t (before ++ [p]) ↔ CameraBegun t before ∨ t.tagAt p = some "camera".toList := by
  simp [CameraBegun, or_and_right, exists_or]

variable (tag) in
/-- The previous element is a camera once one has begun. -/
theorem flagsAfter_fst_iff (before : List NodePath) :
    (flagsAfter tag t before).1 = "camera".toList ↔ CameraBegun t before := by
  induction before using List.reverseRecOn with
  | nil =>
    have hempty : ([] : CString) ≠ "camera".toList := by decide
    exact iff_of_false hempty fun ⟨_, h, _⟩ => List.not_mem_nil h
  | append_singleton before p ih =>
    rw [flagsAfter_concat, cameraBegun_concat, flagStep, ← ih]
    by_cases hcamera : t.tagAt p = some "camera".toList
    · rw [if_pos hcamera]
      exact iff_of_true rfl (Or.inr hcamera)
    · rw [if_neg hcamera, or_iff_left hcamera]
      split
      · rfl
      · split
        · rfl
        · rfl

/-- An element more: it is a name which sets the flag, or it leaves it set. -/
theorem covered_concat (before : List NodePath) (p : NodePath) :
    Covered tag t (before ++ [p]) ↔
      (t.tagAt p = some "name".toList ∧ CameraBegun t before ∧ t.getData p = some tag) ∨
        (Covered tag t before ∧ t.tagAt p ≠ some "stream_url".toList) := by
  constructor
  · rintro ⟨first, name, rest, heq, htag, hbegun, hdata, hrest⟩
    rcases List.eq_nil_or_concat rest with rfl | ⟨rest, q, rfl⟩
    · obtain ⟨rfl, hlast⟩ := List.append_inj' heq rfl
      obtain rfl := (List.cons.inj hlast).1
      exact Or.inl ⟨htag, hbegun, hdata⟩
    · rw [List.concat_eq_append] at heq hrest
      rw [← List.cons_append, ← List.append_assoc] at heq
      obtain ⟨rfl, hlast⟩ := List.append_inj' heq rfl
      obtain rfl := (List.cons.inj hlast).1
      refine Or.inr ⟨⟨first, name, rest, rfl, htag, hbegun, hdata, fun q hq => ?_⟩, ?_⟩
      · exact hrest q (List.mem_append_left _ hq)
      · exact hrest p (List.mem_append_right _ List.mem_cons_self)
  · rintro (⟨htag, hbegun, hdata⟩ | ⟨⟨first, name, rest, rfl, htag, hbegun, hdata, hrest⟩, hp⟩)
    · exact ⟨before, p, [], rfl, htag, hbegun, hdata, fun _ h => absurd h List.not_mem_nil⟩
    · refine ⟨first, name, rest ++ [p], by simp, htag, hbegun, hdata, fun q hq => ?_⟩
      rcases List.mem_append.mp hq with hq | hq
      · exact hrest q hq
      · rw [List.mem_singleton.mp hq]
        exact hp

/-- The flag is set where the elements before cover. -/
theorem flagsAfter_snd_iff (before : List NodePath) : (flagsAfter tag t before).2 = true ↔ Covered tag t before := by
  induction before using List.reverseRecOn with
  | nil =>
    refine iff_of_false Bool.false_ne_true fun ⟨first, name, rest, heq, _⟩ => ?_
    exact absurd heq.symm (List.append_ne_nil_of_right_ne_nil first (List.cons_ne_nil name rest))
  | append_singleton before p ih =>
    rw [flagsAfter_concat, covered_concat, flagStep, ← ih, ← flagsAfter_fst_iff tag]
    by_cases hcamera : t.tagAt p = some "camera".toList
    · rw [if_pos hcamera, hcamera]
      simp
    rw [if_neg hcamera]
    by_cases hname : t.tagAt p = some "name".toList ∧ (flagsAfter tag t before).1 = "camera".toList
    · have hother : t.tagAt p ≠ some "stream_url".toList := by rw [hname.1]; decide
      rw [if_pos hname, Bool.or_eq_true, beq_iff_eq, and_iff_left hother, ← and_assoc, and_iff_right hname, or_comm]
    rw [if_neg hname, ← and_assoc, or_iff_right fun h => hname h.1]
    split
    next hstream => exact iff_of_false Bool.false_ne_true fun h => h.2 hstream
    next hstream => rw [and_iff_left hstream]

/-! ## What the walk writes -/

variable (tag pages) in
/-- The walk stops at an element at which it is stuck, or writes what can be told from the document. -/
theorem updateElements_cases {nodes : List NodePath} (hnodup : nodes.Nodup) (hshape : st.pdom.shape = t.shape)
    (hdata : ∀ p ∈ nodes, st.pdom.getData p = t.getData p) :
    (updateElements tag pages st nodes = none ∧ ∃ before p after, nodes = before ++ p :: after ∧
        Stuck pages t (before.foldl (flagStep tag t) st.flags) p) ∨
      ((∀ before p after, nodes = before ++ p :: after → ¬ Stuck pages t (before.foldl (flagStep tag t) st.flags) p) ∧
        ∃ st', updateElements tag pages st nodes = some st' ∧
          st'.pdom = .applyWrites (updateWrites tag pages t st.flags nodes) st.pdom) := by
  induction nodes generalizing st with
  | nil =>
    refine Or.inr ⟨fun before p after heq => ?_, st, rfl, rfl⟩
    exact absurd heq.symm (List.append_ne_nil_of_right_ne_nil before (List.cons_ne_nil p after))
  | cons p nodes ih =>
    obtain ⟨hfirst, hrest⟩ := List.nodup_cons.mp hnodup
    rw [updateElements]
    rcases updateElement_cases tag pages (Nodes.tagAt_congr hshape p) (hdata p List.mem_cons_self)
      with ⟨hstuck, hnone⟩ | ⟨hstuck, isDirty, hsome⟩
    · rw [hnone]
      exact Or.inl ⟨rfl, [], p, nodes, rfl, hstuck⟩
    rw [hsome, Option.bind_some, updateWrites]
    set next : UpdateState := ⟨isDirty, (flagStep tag t st.flags p).1, (flagStep tag t st.flags p).2,
      .applyWrites ((written pages t st.flags p).map (p, ·)).toList st.pdom⟩ with hnext
    have hflags : next.flags = flagStep tag t st.flags p := rfl
    have hother : ∀ q ∈ nodes, next.pdom.getData q = t.getData q := by
      intro q hq
      rw [hnext, Nodes.getData_applyWrites, hdata q (List.mem_cons_of_mem _ hq)]
      intro w hw heq
      obtain ⟨value, -, rfl⟩ := Option.map_eq_some_iff.mp (Option.mem_toList.mp hw)
      obtain rfl : p = q := heq
      exact hfirst hq
    rcases ih hrest (by rw [hnext, Nodes.shape_applyWrites, hshape]) hother with
      ⟨hnone, before, q, after, rfl, hlater⟩ | ⟨hlater, st', hst', hpdom⟩
    · exact Or.inl ⟨hnone, p :: before, q, after, rfl, hlater⟩
    · refine Or.inr ⟨fun before q after heq => ?_, st', hst', ?_⟩
      · cases before with
        | nil =>
          obtain ⟨rfl, -⟩ := List.cons.inj heq
          exact hstuck
        | cons q' before =>
          obtain ⟨rfl, hlist⟩ := List.cons.inj heq
          exact hlater before q after hlist
      · rw [hpdom, Nodes.applyWrites_append]
        rfl

/-- What is written to an element is told by those before it. -/
theorem mem_updateWrites_iff {nodes : List NodePath} {w : NodePath × CString} :
    w ∈ updateWrites tag pages t f nodes ↔ ∃ before after, nodes = before ++ w.1 :: after ∧
      written pages t (before.foldl (flagStep tag t) f) w.1 = some w.2 := by
  induction nodes generalizing f with
  | nil =>
    refine iff_of_false List.not_mem_nil fun ⟨before, after, heq, _⟩ => ?_
    exact absurd heq.symm (List.append_ne_nil_of_right_ne_nil before (List.cons_ne_nil w.1 after))
  | cons p nodes ih =>
    rw [updateWrites, List.mem_append, ih, Option.mem_toList, Option.map_eq_some_iff]
    constructor
    · rintro (⟨value, hvalue, rfl⟩ | ⟨before, after, rfl, hvalue⟩)
      · exact ⟨[], nodes, rfl, hvalue⟩
      · exact ⟨p :: before, after, rfl, hvalue⟩
    · rintro ⟨before, after, heq, hvalue⟩
      cases before with
      | nil =>
        obtain ⟨rfl, -⟩ := List.cons.inj heq
        exact Or.inl ⟨w.2, hvalue, rfl⟩
      | cons q before =>
        obtain ⟨rfl, hlist⟩ := List.cons.inj heq
        exact Or.inr ⟨before, after, hlist, hvalue⟩

theorem updateWrites_sublist (nodes : List NodePath) :
    ((updateWrites tag pages t f nodes).map Prod.fst).Sublist nodes := by
  induction nodes generalizing f with
  | nil => exact List.Sublist.refl []
  | cons p nodes ih =>
    rw [updateWrites, List.map_append]
    cases written pages t f p with
    | none => exact (ih (f := flagStep tag t f p)).cons p
    | some value => exact (ih (f := flagStep tag t f p)).cons_cons p

/-- The elements before one, in the order of the document. -/
def preceding (t : Nodes) (p : NodePath) : List NodePath := t.elements.takeWhile (· ≠ p)

theorem preceding_eq {before after : List NodePath} (h : t.elements = before ++ p :: after) :
    preceding t p = before := by
  have hnodup := t.nodup_elements
  rw [h] at hnodup
  have hnotMem : ∀ q ∈ before, decide (q ≠ p) = true := fun q hq => decide_eq_true fun heq =>
    (List.nodup_append.mp hnodup).2.2 q hq p List.mem_cons_self heq
  rw [preceding, h, List.takeWhile_append_of_pos hnotMem, List.takeWhile_cons_of_neg (by simp), List.append_nil]

theorem exists_elements_eq (h : p ∈ t.elements) : ∃ after, t.elements = preceding t p ++ p :: after := by
  obtain ⟨before, after, heq⟩ := List.append_of_mem h
  exact ⟨after, by rw [preceding_eq heq, heq]⟩

/-- The names and the pages which the walk compares have texts. -/
def ComparesTexts (tag : CString) (pages : CameraPages) (t : Nodes) : Prop :=
  ∀ p ∈ t.elements, (t.tagAt p = some "name".toList ∧ CameraBegun t (preceding t p)) ∨
    ((pageValue pages t p).isSome = true ∧ Covered tag t (preceding t p)) → t.getData p ≠ none

theorem compared_flagsAfter_iff (before : List NodePath) :
    Compared pages t (flagsAfter tag t before) p ↔ (t.tagAt p = some "name".toList ∧ CameraBegun t before) ∨
      ((pageValue pages t p).isSome = true ∧ Covered tag t before) := by
  rw [Compared, flagsAfter_fst_iff, written, ← flagsAfter_snd_iff]
  cases (flagsAfter tag t before).2 <;> simp

/-- The update ends exactly when what it compares has texts. -/
theorem updateConfigurationFile_cases (tag : CString) (pages : CameraPages) (t : Nodes) :
    (¬ ComparesTexts tag pages t ∧ updateConfigurationFile tag pages t = none) ∨
      (ComparesTexts tag pages t ∧ ∃ isDirty, updateConfigurationFile tag pages t =
        some (isDirty, .applyWrites (updateWrites tag pages t ([], false) t.elements) t)) := by
  unfold updateConfigurationFile
  have hstart : (UpdateState.mk false [] false t).pdom.shape = t.shape := rfl
  rcases updateElements_cases tag pages t.nodup_elements hstart (fun _ _ => rfl) with
    ⟨hnone, before, p, after, heq, hcompared, hdata⟩ | ⟨hstuck, st', hst', hpdom⟩
  · refine Or.inl ⟨fun htexts => ?_, by rw [hnone]; rfl⟩
    refine htexts p (by rw [heq]; simp) ?_ hdata
    rw [preceding_eq heq]
    exact (compared_flagsAfter_iff before).mp hcompared
  · refine Or.inr ⟨fun p hp hcompared hdata => ?_, st'.isDirty, by rw [hst', Option.map_some, hpdom]; rfl⟩
    obtain ⟨after, heq⟩ := exists_elements_eq hp
    exact hstuck _ p after heq ⟨(compared_flagsAfter_iff (preceding t p)).mpr hcompared, hdata⟩

/-- The values which are written are those of the pages at which the flag is set. -/
theorem mem_updateWrites_elements_iff {value : CString} :
    (p, value) ∈ updateWrites tag pages t ([], false) t.elements ↔
      p ∈ t.elements ∧ pageValue pages t p = some value ∧ Covered tag t (preceding t p) := by
  have hwritten : ∀ before, written pages t (flagsAfter tag t before) p = some value ↔
      pageValue pages t p = some value ∧ Covered tag t before := by
    intro before
    rw [written, ← flagsAfter_snd_iff]
    cases (flagsAfter tag t before).2 <;> simp
  rw [mem_updateWrites_iff]
  constructor
  · rintro ⟨before, after, heq, hvalue⟩
    refine ⟨by rw [heq]; simp, ?_⟩
    rw [preceding_eq heq]
    exact (hwritten before).mp hvalue
  · rintro ⟨hp, hvalue⟩
    obtain ⟨after, heq⟩ := exists_elements_eq hp
    exact ⟨preceding t p, after, heq, (hwritten _).mpr hvalue⟩

/-- An element at which the flag is not set keeps its words, and so does one which is no page. -/
theorem wordsOf_updated_of_not (h : pageValue pages t p = none ∨ ¬ Covered tag t (preceding t p)) :
    Nodes.wordsOf p (.applyWrites (updateWrites tag pages t ([], false) t.elements) t) = t.wordsOf p := by
  refine Nodes.wordsOf_applyWrites_of_ne (fun w hw heq => ?_) t
  obtain ⟨q, value⟩ := w
  obtain rfl : q = p := heq
  obtain ⟨-, hvalue, hcovered⟩ := mem_updateWrites_elements_iff.mp hw
  rcases h with hnone | hnot
  · exact absurd (hvalue.symm.trans hnone) (Option.some_ne_none value)
  · exact hnot hcovered

/-- A page at which the flag is set begins with the value. -/
theorem wordsOf_updated_of_covered {value : CString} (htexts : ComparesTexts tag pages t) (hp : p ∈ t.elements)
    (hvalue : pageValue pages t p = some value) (hcovered : Covered tag t (preceding t p)) :
    Nodes.wordsOf p (.applyWrites (updateWrites tag pages t ([], false) t.elements) t) =
      value :: (t.wordsOf p).tail := by
  refine Nodes.wordsOf_applyWrites ?_ (mem_updateWrites_elements_iff.mpr ⟨hp, hvalue, hcovered⟩) ?_
  · exact (updateWrites_sublist t.elements).nodup t.nodup_elements
  · exact htexts p hp (Or.inr ⟨by rw [hvalue]; rfl, hcovered⟩)

/-- The page at a path is as it should be after the update. -/
def PageRight (tag : CString) (pages : CameraPages) (t r : Nodes) (p : NodePath) : Prop :=
  (∀ value, pageValue pages t p = some value → InCamera tag t p → joinWords (r.wordsOf p) = value) ∧
    (pageValue pages t p = none ∨ ¬ InCamera tag t p → r.wordsOf p = t.wordsOf p)

/-- The walk treats the page of a value as it should: one in the camera has one word, and the flag is set there,
or it has the value already; at one outside of the camera the flag is not set, or it has the value already. -/
def PageFits (tag : CString) (t : Nodes) (p : NodePath) (value : CString) : Prop :=
  (InCamera tag t p → (Covered tag t (preceding t p) ∧ ∀ w ∈ (t.wordsOf p).tail, w = []) ∨
      (¬ Covered tag t (preceding t p) ∧ joinWords (t.wordsOf p) = value)) ∧
    (¬ InCamera tag t p → Covered tag t (preceding t p) → t.getData p = some value)

theorem pageRight_iff (htexts : ComparesTexts tag pages t) (hp : p ∈ t.elements) :
    PageRight tag pages t (.applyWrites (updateWrites tag pages t ([], false) t.elements) t) p ↔
      ∀ value, pageValue pages t p = some value → PageFits tag t p value := by
  unfold PageRight PageFits
  cases hvalue : pageValue pages t p with
  | none => simp [wordsOf_updated_of_not (Or.inl hvalue)]
  | some value =>
    simp only [Option.some.injEq, forall_eq', reduceCtorEq, false_or]
    by_cases hcovered : Covered tag t (preceding t p)
    · have hdata := htexts p hp (Or.inr ⟨by rw [hvalue]; rfl, hcovered⟩)
      obtain ⟨d, hd⟩ := Option.ne_none_iff_exists'.mp hdata
      have hsame : value :: (t.wordsOf p).tail = t.wordsOf p ↔ t.getData p = some value := by
        rw [hd, Option.some.injEq]
        constructor
        · intro h
          rw [Nodes.wordsOf_of_getData hd] at h
          exact (List.cons.inj h).1.symm
        · rintro rfl
          exact (Nodes.wordsOf_of_getData hd).symm
      rw [wordsOf_updated_of_covered htexts hp hvalue hcovered, joinWords_cons_eq_iff, hsame]
      simp [hcovered]
    · rw [wordsOf_updated_of_not (Or.inr hcovered)]
      simp [hcovered]

/-- The update touches the pages of the camera only exactly when what it compares has texts and the flag is set
at these pages and at no others, apart from pages which have the value already. -/
theorem touchesCameraOnly_iff (tag : CString) (pages : CameraPages) (t : Nodes) :
    TouchesCameraOnly tag pages t ↔ ComparesTexts tag pages t ∧
      ∀ p ∈ t.elements, ∀ value, pageValue pages t p = some value → PageFits tag t p value := by
  unfold TouchesCameraOnly
  rcases updateConfigurationFile_cases tag pages t with ⟨htexts, hnone⟩ | ⟨htexts, isDirty, hsome⟩
  · refine iff_of_false ?_ fun h => htexts h.1
    rintro ⟨_, _, h, -⟩
    rw [hnone] at h
    cases h
  · rw [and_iff_right htexts]
    constructor
    · rintro ⟨_, r, h, -, hpages⟩
      rw [hsome] at h
      obtain ⟨-, rfl⟩ := Prod.mk.inj (Option.some.inj h)
      exact fun p hp => (pageRight_iff htexts hp).mp (hpages p hp)
    · intro hpages
      refine ⟨isDirty, _, hsome, Nodes.shape_applyWrites _ _, fun p hp => ?_⟩
      exact (pageRight_iff htexts hp).mpr (hpages p hp)

/-- A camera with a name and a page, but without a stream address. -/
def pageCamera (name page : String) (next : Nodes) : Nodes :=
  .element "camera".toList []
    (.element "name".toList [] (.text name.toList .nil)
      (.element "home_page".toList [] (.text page.toList .nil) .nil)) next

/-- Two cameras. -/
def twoCameras : Nodes :=
  .element "recorder".toList [] (pageCamera "CAB" "http://10.0.0.2" (pageCamera "REAR" "http://10.0.0.3" .nil)) .nil

/-- The page of the first camera is written to the second one too. -/
theorem not_touchesCameraOnly_noStream :
    ¬ ∀ (tag : CString) (pages : CameraPages) (t : Nodes), NamesDistinct t → TouchesCameraOnly tag pages t := by
  intro h
  have hdistinct : NamesDistinct twoCameras := by
    unfold NamesDistinct
    decide
  obtain ⟨isDirty, r, hr, -, hpages⟩ := h "CAB".toList ⟨"http://10.0.0.9".toList, [], []⟩ twoCameras hdistinct
  have hupdated : updateConfigurationFile "CAB".toList ⟨"http://10.0.0.9".toList, [], []⟩ twoCameras = some (false,
      .element "recorder".toList []
        (pageCamera "CAB" "http://10.0.0.9" (pageCamera "REAR" "http://10.0.0.9" .nil)) .nil) := by decide
  rw [hupdated] at hr
  obtain ⟨-, rfl⟩ := Prod.mk.inj (Option.some.inj hr)
  have hsecond := (hpages [.child, .sibling, .child, .sibling] (by decide)).2 (Or.inr (by decide))
  exact absurd hsecond (by decide)

end RecordingAgent.Reagent.DomUtil
