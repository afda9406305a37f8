import RecordingAgent.Foundation.FieldMemory

/-!
# The callbacks of the configuration parser

`do_file` feeds a file to the XML library, which answers with element and character-data
callbacks. The callbacks share a level, a byte offset into the camera array, the parameter of
the element they are in, and a buffer which pastes character data together until an element
begins or ends.

Character data of one element may come in any number of callbacks, and more of it between the
elements. The results below hold for every such delivery of a document: an option element of
fewer than 128 bytes of text comes down to one field write.
-/

namespace RecordingAgent.Reagent

open Foundation

/-- An entry of the tag table, `struct cfg_param`: `value` is an address in the configuration. -/
structure CfgParam where
  depth : ℕ
  isPerCamera : Bool
  name : CString
  value : Option ℕ
  maxValLen : ℕ
  deriving DecidableEq

/-- What the XML library calls back with. -/
inductive Callback
  | startElement (element : CString)
  | endElement (element : CString)
  | charData (s : CString)

/-- The variables of the parser and the configuration it fills. `charDataBuffer` is what is below `offs`. -/
structure XmlParser where
  curLevel : ℕ
  curOffset : ℕ
  curParam : Option CfgParam
  grabNextValue : Bool
  charDataBuffer : CString
  overflow : Bool
  conf : Memory

/-- The size of the character data buffer. -/
def charDataBufferSize : ℕ := 128

/-- A blank is any character up to the space. -/
def isBlank (c : Char) : Bool := c.toNat ≤ ' '.toNat

/-- Strip the blanks around a text, which is to have another character. -/
def trim (psrc : CString) : CString := (psrc.dropWhile isBlank).rdropWhile isBlank

/-- The first parameter of a name and a level. -/
def matchingParam (params : List CfgParam) (level : ℕ) (element : CString) : Option CfgParam :=
  params.find? fun p => p.name = element ∧ p.depth = level

namespace XmlParser

variable (params : List CfgParam)

/-- Make the parameter of an element at a level the current one. -/
def paramMatch (st : XmlParser) (level : ℕ) (element : CString) : Bool × XmlParser :=
  match matchingParam params level element with
  | some p => (true, { st with curParam := some p })
  | none => (false, st)

/-- Forget the character data. -/
def resetCharDataBuffer (st : XmlParser) : XmlParser :=
  { st with charDataBuffer := [], overflow := false, grabNextValue := false }

/-- Store the character data as the value of the current parameter. -/
def processCharDataBuffer (st : XmlParser) : XmlParser :=
  match st.grabNextValue, st.curParam with
  | true, some p =>
    let arrOff := if p.isPerCamera then st.curOffset else 0
    { st with
      conf := match p.value with
        | some value =>
          if st.charDataBuffer.length > 0 then
            st.conf.strncpy (value + arrOff) (trim st.charDataBuffer) (p.maxValLen - 1)
          else Function.update st.conf (value + arrOff) nul
        | none => st.conf }
  | _, _ => st

/-- An element begins. -/
def startElement (st : XmlParser) (element : CString) : XmlParser :=
  let st := st.processCharDataBuffer.resetCharDataBuffer
  let r := st.paramMatch params st.curLevel element
  let st :=
    if r.1 ∧ (r.2.curParam.bind CfgParam.value).isSome then { r.2 with grabNextValue := true } else r.2
  { st with curLevel := st.curLevel + 1 }

/-- An element ends; the end of a camera moves the offset to the next one. -/
def endElement (st : XmlParser) (el : CString) : XmlParser :=
  let st := st.processCharDataBuffer
  let st := { st with curLevel := st.curLevel - 1 }
  let r := st.paramMatch params st.curLevel el
  let st :=
    if r.1 ∧ el = ("camera").toList then
      { r.2 with curOffset := r.2.curOffset + (r.2.curParam.map CfgParam.maxValLen).getD 0 }
    else r.2
  st.resetCharDataBuffer

/-- Paste parts of an element's text together. -/
def charData (st : XmlParser) (s : CString) : XmlParser :=
  if st.grabNextValue ∧ st.overflow = false then
    if s.length + st.charDataBuffer.length ≥ charDataBufferSize then { st with overflow := true }
    else { st with charDataBuffer := st.charDataBuffer ++ s }
  else st

/-- React to a callback. -/
def handle (st : XmlParser) : Callback → XmlParser
  | .startElement element => st.startElement params element
  | .endElement el => st.endElement params el
  | .charData s => st.charData s

/-- React to callbacks one after the other. -/
def run (st : XmlParser) (cbs : List Callback) : XmlParser := cbs.foldl (handle params) st

/-- `clean_param_data`: the pointer never moves on, so only the first parameter is cleaned. -/
def cleanParamData (conf : Memory) : Memory :=
  match params with
  | [] => conf
  | p :: _ =>
    match p.value with
    | some value => Function.update conf value nul
    | none => conf

/-- What comes of a read of the file: a block with the callbacks the XML library makes for it and
whether it parses the block, or an error. -/
inductive ReadResult
  | block (callbacks : List Callback) (parsed : Bool)
  | failed

/-- The loop over the blocks of a file, with its return code so far. -/
def readBlocks (st : XmlParser) (ok : Bool) : List ReadResult → Bool × XmlParser
  | [] => (ok, st)
  | .failed :: _ => (false, st)
  | .block callbacks parsed :: rest => readBlocks (st.run params callbacks) (ok && parsed) rest

/-- Read a file, if it opens, into the configuration. -/
def doFile (st : XmlParser) (file : Option (List ReadResult)) : Bool × XmlParser :=
  match file with
  | some blocks =>
    let st := { st with curLevel := 0, curOffset := 0, conf := cleanParamData params st.conf }
    st.resetCharDataBuffer.readBlocks params true blocks
  | none => (false, st)

end XmlParser

/-! ## Documents and their delivery -/

/-- An element without children. -/
structure OptionElement where
  name : CString
  text : CString

/-- A child of the recorder element. -/
inductive CfgItem
  | option (o : OptionElement)
  | storage (options : List OptionElement)
  | camera (options : List OptionElement)

/-- A document: the name of its root and the root's children. -/
structure CfgDocument where
  root : CString
  items : List CfgItem

/-- The callbacks for an element without children, whose text comes in any pieces. -/
inductive OptionElement.Delivers (o : OptionElement) : List Callback → Prop
  | pieces (texts : List CString) (h : texts.flatten = o.text) :
      o.Delivers (.startElement o.name :: texts.map .charData ++ [.endElement o.name])

/-- The callbacks for elements in a row, with any text between them. -/
inductive DeliversAll {α : Type} (Delivers : α → List Callback → Prop) : List α → List Callback → Prop
  | nil : DeliversAll Delivers [] []
  | text {as : List α} {cbs : List Callback} (s : CString) :
      DeliversAll Delivers as cbs → DeliversAll Delivers as (.charData s :: cbs)
  | element {a : α} {as : List α} {cbs cbs' : List Callback} :
      Delivers a cbs → DeliversAll Delivers as cbs' → DeliversAll Delivers (a :: as) (cbs ++ cbs')

/-- The callbacks for an element around others. -/
def around (name : CString) (cbs : List Callback) : List Callback :=
  .startElement name :: cbs ++ [.endElement name]

/-- The callbacks for a child of the recorder element. -/
inductive CfgItem.Delivers : CfgItem → List Callback → Prop
  | option {o : OptionElement} {cbs : List Callback} : o.Delivers cbs → CfgItem.Delivers (.option o) cbs
  | storage {options : List OptionElement} {cbs : List Callback} :
      DeliversAll OptionElement.Delivers options cbs →
      CfgItem.Delivers (.storage options) (around ("video_storage").toList cbs)
  | camera {options : List OptionElement} {cbs : List Callback} :
      DeliversAll OptionElement.Delivers options cbs →
      CfgItem.Delivers (.camera options) (around ("camera").toList cbs)

/-- The callbacks for a document. -/
inductive CfgDocument.Delivers (doc : CfgDocument) : List Callback → Prop
  | root {cbs : List Callback} :
      DeliversAll CfgItem.Delivers doc.items cbs → doc.Delivers (around doc.root cbs)

/-! ## What the delivery of an element does -/

/-- An option element is empty or has a character which is not blank, and fits the buffer. -/
structure OptionElement.Readable (o : OptionElement) : Prop where
  notCamera : o.name ≠ ("camera").toList
  length_lt : o.text.length < charDataBufferSize
  notNul : nul ∉ o.text
  visible : o.text = [] ∨ ∃ c ∈ o.text, ¬ isBlank c

theorem visible_iff (s : CString) :
    (s = [] ∨ ∃ c ∈ s, ¬ isBlank c) ↔ s = [] ∨ (s.any fun c => ! isBlank c) = true := by
  simp only [List.any_eq_true, Bool.not_eq_true', Bool.not_eq_true]

instance (o : OptionElement) : Decidable o.Readable :=
  decidable_of_iff (o.name ≠ ("camera").toList ∧ o.text.length < charDataBufferSize ∧ nul ∉ o.text ∧
      (o.text = [] ∨ o.text.any fun c => ! isBlank c)) <| by
    rw [← visible_iff]
    exact ⟨fun h => ⟨h.1, h.2.1, h.2.2.1, h.2.2.2⟩, fun h => ⟨h.1, h.2, h.3, h.4⟩⟩

/-- The write an option element comes down to, when the table has a place for its value. -/
def OptionElement.fieldWrite (params : List CfgParam) (level offset : ℕ) (o : OptionElement) :
    Option FieldWrite :=
  (matchingParam params level o.name).bind fun p => p.value.map fun value =>
    ⟨value + (if p.isPerCamera then offset else 0), p.maxValLen - 1, trim o.text⟩

/-- What the end of an element adds to the offset. -/
def stride (params : List CfgParam) (level : ℕ) (name : CString) : ℕ :=
  if name = ("camera").toList then ((matchingParam params level name).map CfgParam.maxValLen).getD 0 else 0

theorem mem_of_mem_trim {c : Char} {s : CString} (h : c ∈ trim s) : c ∈ s :=
  (s.dropWhile_sublist _).mem ((List.rdropWhile_prefix _ _).mem h)

theorem trim_nil : trim [] = [] := rfl

/-- A text with a visible character keeps it. -/
theorem trim_ne_nil {s : CString} (h : ∃ c ∈ s, ¬ isBlank c) : trim s ≠ [] := by
  obtain ⟨c, hc, hvisible⟩ := h
  intro hnil
  rw [trim, List.rdropWhile_eq_nil_iff] at hnil
  rw [← List.takeWhile_append_dropWhile (p := isBlank) (l := s), List.mem_append] at hc
  rcases hc with hc | hc
  · exact hvisible (List.mem_takeWhile_imp hc)
  · exact hvisible (hnil c hc)

namespace XmlParser

variable (params : List CfgParam) {st : XmlParser} {level offset : ℕ} {conf : Memory}

/-- The parser is between two elements of a level. -/
structure Idle (st : XmlParser) (level offset : ℕ) (conf : Memory) : Prop where
  curLevel : st.curLevel = level
  curOffset : st.curOffset = offset
  grabNextValue : st.grabNextValue = false
  conf : st.conf = conf

/-- The parser is in an element whose value it takes, of which it has read a text. -/
structure Grabbing (st : XmlParser) (level offset : ℕ) (conf : Memory) (p : CfgParam) (s : CString) : Prop where
  curLevel : st.curLevel = level
  curOffset : st.curOffset = offset
  curParam : st.curParam = some p
  grabNextValue : st.grabNextValue = true
  charDataBuffer : st.charDataBuffer = s
  overflow : st.overflow = false
  conf : st.conf = conf

theorem run_append (st : XmlParser) (cbs cbs' : List Callback) :
    st.run params (cbs ++ cbs') = (st.run params cbs).run params cbs' :=
  List.foldl_append

theorem Idle.processCharDataBuffer (h : st.Idle level offset conf) : st.processCharDataBuffer = st := by
  unfold XmlParser.processCharDataBuffer
  rw [h.grabNextValue]

/-- Text between elements is passed over. -/
theorem Idle.charData (h : st.Idle level offset conf) (s : CString) : st.charData s = st := by
  unfold XmlParser.charData
  rw [h.grabNextValue]
  rfl

theorem Idle.run_charData (h : st.Idle level offset conf) (texts : List CString) :
    st.run params (texts.map .charData) = st := by
  induction texts with
  | nil => rfl
  | cons s texts ih =>
    change (st.charData s).run params (texts.map .charData) = st
    rw [h.charData, ih]

variable {params} in
theorem paramMatch_of_some {name : CString} {p : CfgParam} (h : matchingParam params level name = some p) :
    st.paramMatch params level name = (true, { st with curParam := some p }) := by
  unfold paramMatch
  rw [h]

variable {params} in
theorem paramMatch_of_none {name : CString} (h : matchingParam params level name = none) :
    st.paramMatch params level name = (false, st) := by
  unfold paramMatch
  rw [h]

@[simp] theorem resetCharDataBuffer_curLevel : st.resetCharDataBuffer.curLevel = st.curLevel := rfl

/-- The parser goes into an element which the table has no place for. -/
theorem Idle.startElement (h : st.Idle level offset conf) (name : CString)
    (hvalue : ∀ p, matchingParam params level name = some p → p.value = none) :
    (st.startElement params name).Idle (level + 1) offset conf := by
  unfold XmlParser.startElement
  rw [h.processCharDataBuffer]
  obtain ⟨rfl, rfl, -, rfl⟩ := h
  cases hmatch : matchingParam params st.curLevel name with
  | none =>
    simp only [resetCharDataBuffer_curLevel, paramMatch_of_none hmatch, Bool.false_eq_true, false_and, if_false]
    exact ⟨rfl, rfl, rfl, rfl⟩
  | some p =>
    simp only [resetCharDataBuffer_curLevel, paramMatch_of_some hmatch, Option.bind_some, hvalue p hmatch,
      Option.isSome_none, Bool.false_eq_true, and_false, if_false]
    exact ⟨rfl, rfl, rfl, rfl⟩

/-- The parser goes into an element whose value it takes. -/
theorem Idle.startElement_value (h : st.Idle level offset conf) {name : CString} {p : CfgParam}
    (hmatch : matchingParam params level name = some p) {value : ℕ} (hvalue : p.value = some value) :
    (st.startElement params name).Grabbing (level + 1) offset conf p [] := by
  unfold XmlParser.startElement
  rw [h.processCharDataBuffer]
  obtain ⟨rfl, rfl, -, rfl⟩ := h
  simp only [resetCharDataBuffer_curLevel, paramMatch_of_some hmatch, Option.bind_some, hvalue,
    Option.isSome_some, and_self, if_true]
  exact ⟨rfl, rfl, rfl, rfl, rfl, rfl, rfl⟩

/-- A piece of the text goes into the buffer. -/
theorem Grabbing.charData {p : CfgParam} {s : CString} (h : st.Grabbing level offset conf p s) {t : CString}
    (hfits : (s ++ t).length < charDataBufferSize) :
    (st.charData t).Grabbing level offset conf p (s ++ t) := by
  obtain ⟨rfl, rfl, hparam, hgrab, rfl, hoverflow, rfl⟩ := h
  unfold XmlParser.charData
  rw [List.length_append] at hfits
  rw [if_pos ⟨hgrab, hoverflow⟩, if_neg (by omega)]
  exact ⟨rfl, rfl, hparam, hgrab, rfl, hoverflow, rfl⟩

/-- The buffer pastes the pieces of a text together, however it is split. -/
theorem Grabbing.run_charData {p : CfgParam} {s : CString}
    (h : st.Grabbing level offset conf p s) (texts : List CString)
    (hfits : (s ++ texts.flatten).length < charDataBufferSize) :
    (st.run params (texts.map .charData)).Grabbing level offset conf p (s ++ texts.flatten) := by
  induction texts generalizing st s with
  | nil =>
    rw [List.flatten_nil, List.append_nil]
    exact h
  | cons t texts ih =>
    rw [List.flatten_cons, ← List.append_assoc] at hfits ⊢
    refine ih (h.charData ?_) hfits
    rw [List.length_append] at hfits
    omega

/-- Storing the character data changes the configuration only. -/
theorem processCharDataBuffer_eq (st : XmlParser) :
    st.processCharDataBuffer = { st with conf := st.processCharDataBuffer.conf } := by
  unfold processCharDataBuffer
  split <;> rfl

/-- After the end of an element the parser is at the level above. -/
theorem endElement_idle (hlevel : st.curLevel = level + 1) (name : CString) :
    (st.endElement params name).Idle level (st.curOffset + stride params level name)
      st.processCharDataBuffer.conf := by
  have hprev : st.curLevel - 1 = level := by rw [hlevel, Nat.add_sub_cancel]
  unfold endElement
  rw [processCharDataBuffer_eq]
  generalize st.processCharDataBuffer.conf = conf
  simp only [hprev]
  cases hmatch : matchingParam params level name with
  | none =>
    simp only [paramMatch_of_none hmatch, Bool.false_eq_true, false_and, if_false]
    have hstride : stride params level name = 0 := by
      rw [stride, hmatch]
      exact ite_self 0
    exact ⟨rfl, by rw [hstride]; rfl, rfl, rfl⟩
  | some p =>
    simp only [paramMatch_of_some hmatch, true_and]
    split
    · rename_i hcamera
      have hstride : stride params level name = p.maxValLen := by rw [stride, if_pos hcamera, hmatch]; rfl
      exact ⟨rfl, by rw [hstride]; rfl, rfl, rfl⟩
    · rename_i hcamera
      have hstride : stride params level name = 0 := if_neg hcamera
      exact ⟨rfl, by rw [hstride]; rfl, rfl, rfl⟩

theorem Idle.endElement (h : st.Idle (level + 1) offset conf) (name : CString) :
    (st.endElement params name).Idle level (offset + stride params level name) conf := by
  have hidle := endElement_idle params h.curLevel name
  rwa [h.processCharDataBuffer, h.curOffset, h.conf] at hidle

/-- The end of an element stores the text that was read. -/
theorem Grabbing.endElement {p : CfgParam} {s : CString} (h : st.Grabbing (level + 1) offset conf p s)
    {value : ℕ} (hvalue : p.value = some value) (hvisible : s = [] ∨ ∃ c ∈ s, ¬ isBlank c) (name : CString) :
    (st.endElement params name).Idle level (offset + stride params level name)
      (FieldWrite.apply conf ⟨value + (if p.isPerCamera then offset else 0), p.maxValLen - 1, trim s⟩) := by
  have hidle := endElement_idle params h.curLevel name
  obtain ⟨-, rfl, hparam, hgrab, rfl, -, rfl⟩ := h
  suffices hconf : st.processCharDataBuffer.conf =
      FieldWrite.apply st.conf ⟨value + (if p.isPerCamera then st.curOffset else 0), p.maxValLen - 1,
        trim st.charDataBuffer⟩ by rwa [hconf] at hidle
  unfold processCharDataBuffer FieldWrite.apply
  rw [hgrab, hparam]
  simp only [hvalue]
  rcases hvisible with hempty | hvisible
  · rw [hempty, if_pos trim_nil]
    rfl
  · obtain ⟨c, hc, -⟩ := id hvisible
    rw [if_pos (List.length_pos_of_mem hc), if_neg (trim_ne_nil hvisible)]

/-- An option element comes down to its write. -/
theorem Idle.run_option (h : st.Idle level offset conf) {o : OptionElement} (hread : o.Readable)
    {cbs : List Callback} (hcbs : o.Delivers cbs) :
    (st.run params cbs).Idle level offset
      ((o.fieldWrite params level offset).toList.foldl FieldWrite.apply conf) := by
  obtain ⟨texts, htexts⟩ := hcbs
  have hstride : stride params level o.name = 0 := if_neg hread.notCamera
  rw [run_append, ← List.singleton_append, run_append]
  change (((st.startElement params o.name).run params (texts.map .charData)).endElement params o.name).Idle _ _ _
  unfold OptionElement.fieldWrite
  cases hmatch : matchingParam params level o.name with
  | none =>
    have hin := h.startElement params o.name fun p hp => by rw [hmatch] at hp; cases hp
    rw [hin.run_charData]
    have hout := hin.endElement params o.name
    rwa [hstride] at hout
  | some p =>
    cases hvalue : p.value with
    | none =>
      have hin := h.startElement params o.name fun q hq => by
        rw [hmatch] at hq
        cases hq
        exact hvalue
      rw [hin.run_charData]
      have hout := hin.endElement params o.name
      rw [hstride] at hout
      simpa [hvalue] using hout
    | some value =>
      have hin := (h.startElement_value params hmatch hvalue).run_charData params texts (by
        rw [List.nil_append, htexts]
        exact hread.length_lt)
      rw [List.nil_append, htexts] at hin
      have hout := hin.endElement params hvalue hread.visible o.name
      rw [hstride] at hout
      simpa [hvalue] using hout

theorem Idle.run_options (h : st.Idle level offset conf) {options : List OptionElement}
    (hread : ∀ o ∈ options, o.Readable) {cbs : List Callback}
    (hcbs : DeliversAll OptionElement.Delivers options cbs) :
    (st.run params cbs).Idle level offset
      ((options.filterMap (OptionElement.fieldWrite params level offset)).foldl FieldWrite.apply conf) := by
  induction hcbs generalizing st conf with
  | nil => exact h
  | text s _ ih =>
    change ((st.charData s).run params _).Idle _ _ _
    rw [h.charData]
    exact ih h hread
  | element hcbs _ ih =>
    have hrest := ih (h.run_option params (hread _ List.mem_cons_self) hcbs) fun o ho =>
      hread o (List.mem_cons_of_mem _ ho)
    rw [run_append, List.filterMap_cons]
    cases hwrite : OptionElement.fieldWrite params level offset _ with
    | none => rwa [hwrite] at hrest
    | some w => rwa [hwrite] at hrest

/-- The parser goes through an element which the table has no place for as through what is in it. -/
theorem Idle.run_around (h : st.Idle level offset conf) (name : CString) {cbs : List Callback}
    (hvalue : ∀ p, matchingParam params level name = some p → p.value = none) {conf' : Memory} {offset' : ℕ}
    (hinner : ∀ {st : XmlParser}, st.Idle (level + 1) offset conf →
      (st.run params cbs).Idle (level + 1) offset' conf') :
    (st.run params (around name cbs)).Idle level (offset' + stride params level name) conf' := by
  rw [around, run_append]
  exact (hinner (h.startElement params name hvalue)).endElement params name

end XmlParser

namespace CfgItem

variable (params : List CfgParam)

/-- The option elements in a child of the recorder element can be read. -/
def Readable : CfgItem → Prop
  | option o => o.Readable
  | storage options | camera options => ∀ o ∈ options, o.Readable

/-- The writes a child of the recorder element comes down to. -/
def writes (offset : ℕ) : CfgItem → List FieldWrite
  | option o => (o.fieldWrite params 1 offset).toList
  | storage options | camera options => options.filterMap (OptionElement.fieldWrite params 2 offset)

/-- The offset after a child of the recorder element. -/
def nextOffset (offset : ℕ) : CfgItem → ℕ
  | camera _ => offset + stride params 1 ("camera").toList
  | _ => offset

/-- The writes of children in a row. -/
def allWrites : ℕ → List CfgItem → List FieldWrite
  | _, [] => []
  | offset, item :: items => item.writes params offset ++ allWrites (item.nextOffset params offset) items

/-- The offset after children in a row. -/
def lastOffset : ℕ → List CfgItem → ℕ
  | offset, [] => offset
  | offset, item :: items => lastOffset (item.nextOffset params offset) items

end CfgItem

/-- The table has no place for the root and for the elements which hold others. -/
structure Containers (params : List CfgParam) : Prop where
  root : ∀ p ∈ params, p.depth ≠ 0
  storage : ∀ p, matchingParam params 1 ("video_storage").toList = some p → p.value = none
  camera : ∀ p, matchingParam params 1 ("camera").toList = some p → p.value = none

namespace XmlParser

variable {params : List CfgParam} {st : XmlParser} {offset : ℕ} {conf : Memory}

theorem Idle.run_item (hparams : Containers params) (h : st.Idle 1 offset conf) {item : CfgItem}
    (hread : item.Readable) {cbs : List Callback} (hcbs : item.Delivers cbs) :
    (st.run params cbs).Idle 1 (item.nextOffset params offset)
      ((item.writes params offset).foldl FieldWrite.apply conf) := by
  cases hcbs with
  | option hcbs => exact h.run_option params hread hcbs
  | storage hcbs => exact h.run_around params _ hparams.storage fun h => h.run_options params hread hcbs
  | camera hcbs => exact h.run_around params _ hparams.camera fun h => h.run_options params hread hcbs

theorem Idle.run_items (hparams : Containers params) (h : st.Idle 1 offset conf) {items : List CfgItem}
    (hread : ∀ item ∈ items, item.Readable) {cbs : List Callback} (hcbs : DeliversAll CfgItem.Delivers items cbs) :
    (st.run params cbs).Idle 1 (CfgItem.lastOffset params offset items)
      ((CfgItem.allWrites params offset items).foldl FieldWrite.apply conf) := by
  induction hcbs generalizing st offset conf with
  | nil => exact h
  | text s _ ih =>
    change ((st.charData s).run params _).Idle _ _ _
    rw [h.charData]
    exact ih h hread
  | element hcbs _ ih =>
    rw [run_append, CfgItem.allWrites, List.foldl_append]
    exact ih (h.run_item hparams (hread _ List.mem_cons_self) hcbs) fun item hitem =>
      hread item (List.mem_cons_of_mem _ hitem)

/-- The parser state does not depend on how the file is cut into blocks. -/
theorem readBlocks_parsed (st : XmlParser) (blocks : List (List Callback)) :
    st.readBlocks params true (blocks.map fun cbs => .block cbs true) = (true, st.run params blocks.flatten) := by
  induction blocks generalizing st with
  | nil => rfl
  | cons cbs blocks ih =>
    rw [List.map_cons, List.flatten_cons, run_append]
    exact ih _

/-- Reading a document comes down to its writes, however the reader and the library cut it. -/
theorem doFile_conf (hparams : Containers params) (st : XmlParser) {doc : CfgDocument}
    (hread : ∀ item ∈ doc.items, item.Readable) {blocks : List (List Callback)}
    (hblocks : doc.Delivers blocks.flatten) :
    (st.doFile params (some (blocks.map fun cbs => .block cbs true))).1 = true ∧
      (st.doFile params (some (blocks.map fun cbs => .block cbs true))).2.conf =
        (CfgItem.allWrites params 0 doc.items).foldl FieldWrite.apply (cleanParamData params st.conf) := by
  simp only [doFile, readBlocks_parsed]
  generalize blocks.flatten = cbs at hblocks
  obtain ⟨hitems⟩ := hblocks
  refine ⟨trivial, ?_⟩
  have hstart : (resetCharDataBuffer { st with
      curLevel := 0, curOffset := 0, conf := cleanParamData params st.conf }).Idle 0 0
        (cleanParamData params st.conf) := ⟨rfl, rfl, rfl, rfl⟩
  refine (hstart.run_around params doc.root (fun p hp => ?_) fun h => h.run_items hparams hread hitems).conf
  have hdepth := List.find?_some hp
  simp only [decide_eq_true_eq] at hdepth
  exact absurd hdepth.2 (hparams.root p (List.mem_of_find?_eq_some hp))

end XmlParser

end RecordingAgent.Reagent
