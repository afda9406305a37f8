import RecordingAgent.Reagent.CfgTags

/-!
# The cameras of a configuration document and the camera table

A document may have elements of any names in any nesting. The parser stores the text of an element,
up to its first child, where the tag table has a place for its name at its level. A per-camera value
goes to the entry whose number is that of the camera elements closed so far, and nothing stops this
number at the end of the table.

So the parser stays in the table exactly if no per-camera value and no surplus camera's value comes
behind as many cameras as the table has entries. A text has to leave something to trim, too, also
when the character data buffer is too small for it.
-/

namespace RecordingAgent.Reagent

open Foundation

/-! ## Documents and what is stored of them -/

/-- Elements in a row, each with the text up to its first child, its children, and the text behind it. -/
inductive Contents (α : Type)
  | nil
  | element (name : CString) (text : α) (children : Contents α) (after : α) (next : Contents α)

/-- A document: the name of its root, the text up to the first child, and the children. -/
structure XmlDocument (α : Type) where
  root : CString
  text : α
  children : Contents α

/-- A value that is stored: its parameter, the address, and the text. -/
@[ext]
structure StoredValue (α : Type) where
  param : CfgParam
  address : ℕ
  text : α

variable {α β : Type}

/-- What is stored of an element with a text, if the table has a place for it. -/
def storedOf (params : List CfgParam) (level offset : ℕ) (name : CString) (text : α) : Option (StoredValue α) :=
  (matchingParam params level name).bind fun p => p.value.map fun value =>
    ⟨p, value + (if p.isPerCamera then offset else 0), text⟩

/-- The same value with another text. -/
def StoredValue.map (f : α → β) (v : StoredValue α) : StoredValue β := ⟨v.param, v.address, f v.text⟩

namespace Contents

/-- The same elements with other texts. -/
def map (f : α → β) : Contents α → Contents β
  | nil => nil
  | element name text children after next => element name (f text) (children.map f) (f after) (next.map f)

/-- The callbacks for elements whose texts come in pieces. -/
def callbacks : Contents (List CString) → List Callback
  | nil => []
  | element name text children after next =>
    .startElement name :: (text.map .charData ++ (children.callbacks ++ [.endElement name])) ++
      (after.map .charData ++ next.callbacks)

/-- Leave out the cameras behind a number of them. -/
def withoutSurplus : ℕ → Contents α → Contents α
  | _, nil => nil
  | n, element name text children after next =>
    if name = ("camera").toList then
      match n with
      | 0 => next.withoutSurplus 0
      | n + 1 => element name text children after (next.withoutSurplus n)
    else element name text children after (next.withoutSurplus n)

variable (params : List CfgParam)

/-- The offset after elements in a row. -/
def lastOffset : ℕ → ℕ → Contents α → ℕ
  | _, offset, nil => offset
  | level, offset, element name _ children _ next =>
    next.lastOffset level (children.lastOffset (level + 1) offset + stride params level name)

/-- The values that are stored of elements in a row. -/
def stored : ℕ → ℕ → Contents α → List (StoredValue α)
  | _, _, nil => []
  | level, offset, element name text children _ next =>
    (storedOf params level offset name text).toList ++ children.stored (level + 1) offset ++
      next.stored level (children.lastOffset params (level + 1) offset + stride params level name)

end Contents

namespace XmlDocument

/-- The same document with other texts. -/
def map (f : α → β) (doc : XmlDocument α) : XmlDocument β := ⟨doc.root, f doc.text, doc.children.map f⟩

/-- The callbacks for a document whose texts come in pieces. -/
def callbacks (doc : XmlDocument (List CString)) : List Callback :=
  .startElement doc.root :: (doc.text.map .charData ++ (doc.children.callbacks ++ [.endElement doc.root]))

/-- The document without the cameras which the table has no entry for. -/
def withoutSurplus (doc : XmlDocument α) : XmlDocument α :=
  ⟨doc.root, doc.text, doc.children.withoutSurplus maxCams⟩

end XmlDocument

/-! ## What the parser stores -/

/-- What comes of pasting pieces to a text, up to the first one that does not fit the buffer. -/
def paste (s : CString) : List CString → CString
  | [] => s
  | t :: texts => if t.length + s.length ≥ charDataBufferSize then s else paste (s ++ t) texts

/-- The configuration after a value is stored. -/
def StoredValue.apply (conf : Memory) (v : StoredValue CString) : Memory :=
  if v.text.length > 0 then conf.strncpy v.address (trim v.text) (v.param.maxValLen - 1)
  else Function.update conf v.address nul

namespace XmlParser

variable (params : List CfgParam)

/-- The value which the end of the current text stores. -/
def pending (st : XmlParser) : Option (StoredValue CString) :=
  match st.grabNextValue, st.curParam with
  | true, some p =>
    p.value.map fun value => ⟨p, value + (if p.isPerCamera then st.curOffset else 0), st.charDataBuffer⟩
  | _, _ => none

/-- The value which a callback stores. -/
def storedAt (st : XmlParser) : Callback → Option (StoredValue CString)
  | .charData _ => none
  | .startElement _ | .endElement _ => st.pending

/-- The values which callbacks store one after the other. -/
def stores (st : XmlParser) : List Callback → List (StoredValue CString)
  | [] => []
  | cb :: cbs => (st.storedAt cb).toList ++ (st.handle params cb).stores cbs

/-- The parser when a file has been opened. -/
def opened (st : XmlParser) : XmlParser :=
  resetCharDataBuffer { st with curLevel := 0, curOffset := 0, conf := cleanParamData params st.conf }

/-- The values which reading the blocks of a file stores. -/
def fileStores (st : XmlParser) (blocks : List (List Callback)) : List (StoredValue CString) :=
  (st.opened params).stores params blocks.flatten

variable {params} {st : XmlParser} {level offset : ℕ}

/-- Storing the character data is storing the value that is due. -/
theorem processCharDataBuffer_conf (st : XmlParser) :
    st.processCharDataBuffer.conf = st.pending.toList.foldl StoredValue.apply st.conf := by
  unfold processCharDataBuffer pending
  cases st.grabNextValue with
  | false => rfl
  | true =>
    cases st.curParam with
    | none => rfl
    | some p =>
      cases hvalue : p.value with
      | none => simp only [hvalue, Option.map_none, Option.toList_none, List.foldl_nil]
      | some value => simp only [hvalue]; rfl

@[simp] theorem resetCharDataBuffer_conf (st : XmlParser) : st.resetCharDataBuffer.conf = st.conf := rfl

theorem paramMatch_conf (st : XmlParser) (level : ℕ) (name : CString) :
    (st.paramMatch params level name).2.conf = st.conf := by
  unfold paramMatch
  cases matchingParam params level name <;> rfl

/-- What a callback does to the configuration is to store its value. -/
theorem handle_conf (st : XmlParser) (cb : Callback) :
    (st.handle params cb).conf = (st.storedAt cb).toList.foldl StoredValue.apply st.conf := by
  cases cb with
  | charData s =>
    change (st.charData s).conf = st.conf
    unfold charData
    split
    · split <;> rfl
    · rfl
  | startElement name =>
    refine Eq.trans ?_ st.processCharDataBuffer_conf
    change (st.startElement params name).conf = _
    unfold startElement
    simp only [apply_ite XmlParser.conf, paramMatch_conf, ite_self]
    rfl
  | endElement name =>
    refine Eq.trans ?_ st.processCharDataBuffer_conf
    change (st.endElement params name).conf = _
    unfold endElement
    simp only [resetCharDataBuffer_conf, apply_ite XmlParser.conf, paramMatch_conf, ite_self]

theorem run_conf (st : XmlParser) (cbs : List Callback) :
    (st.run params cbs).conf = (st.stores params cbs).foldl StoredValue.apply st.conf := by
  induction cbs generalizing st with
  | nil => rfl
  | cons cb cbs ih =>
    change ((st.handle params cb).run params cbs).conf = _
    rw [ih, handle_conf, stores, List.foldl_append]

/-- The configuration after reading a file is what storing its values makes of it. -/
theorem doFile_stores (st : XmlParser) (blocks : List (List Callback)) :
    (st.doFile params (some (blocks.map fun cbs => .block cbs true))).2.conf =
      (st.fileStores params blocks).foldl StoredValue.apply (cleanParamData params st.conf) := by
  simp only [doFile, readBlocks_parsed]
  exact run_conf _ _

theorem stores_append (st : XmlParser) (cbs cbs' : List Callback) :
    st.stores params (cbs ++ cbs') = st.stores params cbs ++ (st.run params cbs).stores params cbs' := by
  induction cbs generalizing st with
  | nil => rfl
  | cons cb cbs ih =>
    rw [List.cons_append, stores, stores, ih, List.append_assoc]
    rfl

theorem stores_charData (st : XmlParser) (texts : List CString) :
    st.stores params (texts.map .charData) = [] := by
  induction texts generalizing st with
  | nil => rfl
  | cons s texts ih => exact ih _

/-- Store the character data and forget it, as the next element callback does first. -/
def flush (st : XmlParser) : XmlParser := st.processCharDataBuffer.resetCharDataBuffer

variable {conf : Memory}

theorem Idle.pending (h : st.Idle level offset conf) : st.pending = none := by
  unfold XmlParser.pending
  rw [h.grabNextValue]

theorem flush_idle (st : XmlParser) : st.flush.Idle st.curLevel st.curOffset st.processCharDataBuffer.conf := by
  unfold flush
  rw [processCharDataBuffer_eq]
  exact ⟨rfl, rfl, rfl, rfl⟩

theorem startElement_flush (st : XmlParser) (name : CString) :
    st.flush.startElement params name = st.startElement params name := by
  unfold startElement
  rw [st.flush_idle.processCharDataBuffer]
  rfl

theorem endElement_flush (st : XmlParser) (name : CString) :
    st.flush.endElement params name = st.endElement params name := by
  unfold endElement
  rw [st.flush_idle.processCharDataBuffer]
  unfold flush
  generalize st.processCharDataBuffer = st
  cases hmatch : matchingParam params (st.curLevel - 1) name with
  | none =>
    simp only [resetCharDataBuffer_curLevel, paramMatch_of_none hmatch]
    rfl
  | some p =>
    simp only [resetCharDataBuffer_curLevel, paramMatch_of_some hmatch, true_and]
    split <;> rfl

variable (params) in
/-- What is due is stored before anything else happens at the next element callback. -/
theorem stores_flush (st : XmlParser) (c : Contents (List CString)) (name : CString) :
    st.stores params (c.callbacks ++ [.endElement name]) =
        st.pending.toList ++ st.flush.stores params (c.callbacks ++ [.endElement name]) ∧
      st.run params (c.callbacks ++ [.endElement name]) =
        st.flush.run params (c.callbacks ++ [.endElement name]) := by
  have hnothing := st.flush_idle.pending
  cases c with
  | nil =>
    constructor
    · change st.pending.toList ++ [] = st.pending.toList ++ (st.flush.pending.toList ++ [])
      rw [hnothing]
      rfl
    · exact (st.endElement_flush name).symm
  | element first text children after next =>
    constructor
    · change st.pending.toList ++ (st.startElement params first).stores params _ =
        st.pending.toList ++ (st.flush.pending.toList ++ (st.flush.startElement params first).stores params _)
      rw [hnothing, startElement_flush]
      rfl
    · change (st.startElement params first).run params _ = (st.flush.startElement params first).run params _
      rw [startElement_flush]

/-- A buffer which was too small takes no more character data. -/
theorem run_pieces_overflow (hfull : st.overflow = true) (texts : List CString) :
    st.run params (texts.map .charData) = st := by
  induction texts with
  | nil => rfl
  | cons s texts ih =>
    change (st.charData s).run params (texts.map .charData) = st
    unfold charData
    rw [hfull, if_neg fun h => Bool.noConfusion h.2, ih]

/-- Character data goes into the buffer only. -/
theorem run_pieces (hgrab : st.grabNextValue = true) (hroom : st.overflow = false) (texts : List CString) :
    ∃ overflow, st.run params (texts.map .charData) =
      { st with charDataBuffer := paste st.charDataBuffer texts, overflow := overflow } := by
  induction texts generalizing st with
  | nil => exact ⟨st.overflow, rfl⟩
  | cons s texts ih =>
    change ∃ overflow, (st.charData s).run params (texts.map .charData) = _
    unfold charData
    rw [if_pos ⟨hgrab, hroom⟩, paste]
    split
    next => exact ⟨true, run_pieces_overflow rfl texts⟩
    next => exact ih hgrab hroom

variable (params) in
/-- In an element, behind its text, its value is due. -/
theorem Idle.startElement_texts (h : st.Idle level offset conf) (name : CString) (texts : List CString) :
    let st' := (st.startElement params name).run params (texts.map .charData)
    st'.curLevel = level + 1 ∧ st'.curOffset = offset ∧
      st'.pending = (storedOf params level offset name texts).map (StoredValue.map (paste [])) := by
  simp only
  cases hmatch : matchingParam params level name with
  | none =>
    have hin := h.startElement params name fun p hp => by rw [hmatch] at hp; cases hp
    rw [hin.run_charData, hin.pending, storedOf, hmatch]
    exact ⟨hin.curLevel, hin.curOffset, rfl⟩
  | some p =>
    cases hvalue : p.value with
    | none =>
      have hin := h.startElement params name fun q hq => by
        rw [hmatch] at hq
        cases hq
        exact hvalue
      rw [hin.run_charData, hin.pending, storedOf, hmatch, Option.bind_some, hvalue]
      exact ⟨hin.curLevel, hin.curOffset, rfl⟩
    | some value =>
      have hin := h.startElement_value params hmatch hvalue
      obtain ⟨overflow, hrun⟩ := run_pieces hin.grabNextValue hin.overflow texts
      rw [hrun]
      refine ⟨hin.curLevel, hin.curOffset, ?_⟩
      unfold XmlParser.pending storedOf
      simp only [hin.grabNextValue, hin.curParam, hin.curOffset, hin.charDataBuffer, hmatch, hvalue, Option.bind_some,
        Option.map_some, StoredValue.map]

/-- What the parser stores of an element with children, and where it is behind it. -/
theorem Idle.stores_element (h : st.Idle level offset conf) (name : CString) (text : List CString)
    (children : Contents (List CString)) {values : List (StoredValue CString)} {offset' : ℕ}
    (hchildren : ∀ {st : XmlParser} {conf : Memory}, st.Idle (level + 1) offset conf →
      st.stores params children.callbacks = values ∧
        ∃ conf', (st.run params children.callbacks).Idle (level + 1) offset' conf') :
    st.stores params (.startElement name :: (text.map .charData ++ (children.callbacks ++ [.endElement name]))) =
        ((storedOf params level offset name text).map (StoredValue.map (paste []))).toList ++ values ∧
      ∃ conf', (st.run params (.startElement name ::
        (text.map .charData ++ (children.callbacks ++ [.endElement name])))).Idle level
          (offset' + stride params level name) conf' := by
  obtain ⟨hlevel, hoffset, hpending⟩ := h.startElement_texts params name text
  change (st.pending.toList ++ (st.startElement params name).stores params _ = _) ∧
    ∃ conf', ((st.startElement params name).run params _).Idle _ _ _
  rw [h.pending, stores_append, run_append, stores_charData]
  -- The first callback behind the text stores the element's own value.
  generalize (st.startElement params name).run params (text.map .charData) = inside at hlevel hoffset hpending ⊢
  obtain ⟨hstores, hrun⟩ := inside.stores_flush params children name
  have hflushed := inside.flush_idle
  rw [hlevel, hoffset] at hflushed
  obtain ⟨hvalues, conf', hbehind⟩ := hchildren hflushed
  rw [hstores, hrun, stores_append, run_append, hvalues, hpending]
  refine ⟨?_, conf', hbehind.endElement params name⟩
  change [] ++ ([] ++ (_ ++ (values ++ ((inside.flush.run params children.callbacks).pending.toList ++ [])))) = _
  rw [hbehind.pending, Option.toList_none, List.append_nil, List.append_nil, List.nil_append, List.nil_append]

/-- What the parser stores of elements in a row, and where it is behind them. -/
theorem Idle.stores_contents (h : st.Idle level offset conf) (c : Contents (List CString)) :
    st.stores params c.callbacks = (c.stored params level offset).map (StoredValue.map (paste [])) ∧
      ∃ conf', (st.run params c.callbacks).Idle level (c.lastOffset params level offset) conf' := by
  induction c generalizing st level offset conf with
  | nil => exact ⟨rfl, conf, h⟩
  | element name text children after next ihchildren ihnext =>
    obtain ⟨hstores, conf', hbehind⟩ := h.stores_element name text children ihchildren
    obtain ⟨hnext, hlast⟩ := ihnext hbehind
    rw [Contents.callbacks, stores_append, run_append, stores_append, run_append, stores_charData,
      hbehind.run_charData, hstores, hnext, List.nil_append]
    refine ⟨?_, hlast⟩
    rw [Contents.stored, List.map_append, List.map_append]
    cases storedOf params level offset name text <;> rfl

/-- What reading a document stores. -/
theorem fileStores_document (hroot : ∀ p ∈ params, p.depth ≠ 0) (st : XmlParser) (doc : XmlDocument (List CString))
    {blocks : List (List Callback)} (hblocks : blocks.flatten = doc.callbacks) :
    st.fileStores params blocks = (doc.children.stored params 1 0).map (StoredValue.map (paste [])) := by
  have hstart : (st.opened params).Idle 0 0 (cleanParamData params st.conf) := ⟨rfl, rfl, rfl, rfl⟩
  obtain ⟨hstores, -⟩ := hstart.stores_element doc.root doc.text doc.children fun h => h.stores_contents doc.children
  have hnone : matchingParam params 0 doc.root = none := by
    refine List.find?_eq_none.mpr fun p hp => ?_
    simp [hroot p hp]
  rw [fileStores, hblocks, XmlDocument.callbacks, hstores, storedOf, hnone]
  rfl

end XmlParser

/-! ## The children of the root -/

/-- A child of the root: its name, its text, and its own children with their texts. -/
structure RootChild (α : Type) where
  name : CString
  text : α
  options : List (CString × α)

namespace RootChild

/-- The same child with other texts. -/
def map (f : α → β) (child : RootChild α) : RootChild β :=
  ⟨child.name, f child.text, child.options.map (Prod.map id f)⟩

/-- The child is a camera. -/
def IsCamera (child : RootChild α) : Prop := child.name = ("camera").toList

instance (child : RootChild α) : Decidable child.IsCamera :=
  inferInstanceAs (Decidable (child.name = ("camera").toList))

/-- How many cameras there are. -/
def cameraCount (children : List (RootChild α)) : ℕ := children.countP fun child => child.IsCamera

/-- What is stored of a child when a number of cameras has been closed. -/
def stored (layout : ConfLayout) (k : ℕ) (child : RootChild α) : List (StoredValue α) :=
  (storedOf (cfgTagTpl layout) 1 (k * layout.camdefSize) child.name child.text).toList ++
    child.options.filterMap fun o => storedOf (cfgTagTpl layout) 2 (k * layout.camdefSize) o.1 o.2

/-- What is stored of children in a row. -/
def allStored (layout : ConfLayout) : ℕ → List (RootChild α) → List (StoredValue α)
  | _, [] => []
  | k, child :: children =>
    child.stored layout k ++ allStored layout (k + if child.IsCamera then 1 else 0) children

/-- Leave out the cameras behind a number of them. -/
def withoutSurplus : ℕ → List (RootChild α) → List (RootChild α)
  | _, [] => []
  | n, child :: children =>
    if child.IsCamera then
      match n with
      | 0 => withoutSurplus 0 children
      | n + 1 => child :: withoutSurplus n children
    else child :: withoutSurplus n children

end RootChild

namespace Contents

/-- The names and texts of elements in a row. -/
def siblings : Contents α → List (CString × α)
  | nil => []
  | element name text _ _ next => (name, text) :: next.siblings

/-- Elements in a row as children of the root. -/
def rootChildren : Contents α → List (RootChild α)
  | nil => []
  | element name text children _ next => ⟨name, text, children.siblings⟩ :: next.rootChildren

theorem siblings_map (f : α → β) (c : Contents α) : (c.map f).siblings = c.siblings.map (Prod.map id f) := by
  induction c with
  | nil => rfl
  | element name text children after next _ ih =>
    rw [map, siblings, siblings, List.map_cons, ih]
    rfl

theorem rootChildren_map (f : α → β) (c : Contents α) :
    (c.map f).rootChildren = c.rootChildren.map (RootChild.map f) := by
  induction c with
  | nil => rfl
  | element name text children after next _ ih =>
    rw [map, rootChildren, rootChildren, List.map_cons, ih, siblings_map]
    rfl

theorem rootChildren_withoutSurplus (n : ℕ) (c : Contents α) :
    (c.withoutSurplus n).rootChildren = RootChild.withoutSurplus n c.rootChildren := by
  induction c generalizing n with
  | nil => rfl
  | element name text children after next _ ih =>
    rw [rootChildren, withoutSurplus.eq_def, RootChild.withoutSurplus.eq_def]
    simp only
    by_cases hcamera : name = ("camera").toList
    · have hchild : RootChild.IsCamera ⟨name, text, children.siblings⟩ := hcamera
      rw [if_pos hcamera, if_pos hchild]
      cases n with
      | zero => exact ih 0
      | succ n => exact congrArg _ (ih n)
    · have hchild : ¬ RootChild.IsCamera ⟨name, text, children.siblings⟩ := hcamera
      rw [if_neg hcamera, if_neg hchild]
      exact congrArg _ (ih n)

end Contents

section Table

variable {layout : ConfLayout} {level offset : ℕ}

/-- The table has parameters on the first two levels. -/
theorem matchingParam_of_deep (h : 2 < level) (name : CString) :
    matchingParam (cfgTagTpl layout) level name = none := by
  refine Option.eq_none_iff_forall_ne_some.mpr fun p hp => ?_
  obtain ⟨hmem, hdepth, -⟩ := mem_of_matchingParam hp
  have hlevels := depth_of_mem hmem
  omega

/-- Only the first level has an element which moves the offset. -/
theorem stride_of_ne (h : level ≠ 1) (name : CString) : stride (cfgTagTpl layout) level name = 0 := by
  unfold stride
  split
  next hcamera =>
    have hnone : matchingParam (cfgTagTpl layout) level name = none := by
      refine Option.eq_none_iff_forall_ne_some.mpr fun p hp => ?_
      obtain ⟨hmem, rfl, hname⟩ := mem_of_matchingParam hp
      have hcameras : ∀ key ∈ (cfgTagTpl smallestLayout).map fun p => (p.depth, p.name),
          key.2 = ("camera").toList → key.1 = 1 := by decide
      exact h (hcameras (p.depth, p.name) (List.mem_map_of_mem (f := fun p => (p.depth, p.name)) hmem)
        (hname.trans hcamera))
    rw [hnone]
    rfl
  next => rfl

theorem stride_first (name : CString) :
    stride (cfgTagTpl layout) 1 name = (if name = ("camera").toList then 1 else 0) * layout.camdefSize := by
  by_cases hcamera : name = ("camera").toList
  · rw [if_pos hcamera, hcamera, stride_camera, Nat.one_mul]
  · rw [stride, if_neg hcamera, if_neg hcamera, Nat.zero_mul]

namespace Contents

theorem lastOffset_of_deep (h : 1 < level) (c : Contents α) :
    c.lastOffset (cfgTagTpl layout) level offset = offset := by
  induction c generalizing level offset with
  | nil => rfl
  | element name text children after next ihchildren ihnext =>
    rw [lastOffset, ihchildren (by omega), stride_of_ne (by omega), Nat.add_zero, ihnext h]

/-- Below the second level nothing is stored. -/
theorem stored_of_deep (h : 2 < level) (c : Contents α) : c.stored (cfgTagTpl layout) level offset = [] := by
  induction c generalizing level offset with
  | nil => rfl
  | element name text children after next ihchildren ihnext =>
    rw [stored, storedOf, matchingParam_of_deep h, ihchildren (by omega), ihnext h]
    rfl

theorem stored_second (c : Contents α) :
    c.stored (cfgTagTpl layout) 2 offset =
      c.siblings.filterMap fun o => storedOf (cfgTagTpl layout) 2 offset o.1 o.2 := by
  induction c with
  | nil => rfl
  | element name text children after next _ ih =>
    rw [stored, stored_of_deep (by decide), lastOffset_of_deep (by decide), stride_of_ne (by decide), Nat.add_zero, ih,
      siblings, List.filterMap_cons, List.append_nil]
    cases storedOf (cfgTagTpl layout) 2 offset name text <;> rfl

theorem stored_first (c : Contents α) (k : ℕ) :
    c.stored (cfgTagTpl layout) 1 (k * layout.camdefSize) = RootChild.allStored layout k c.rootChildren := by
  induction c generalizing k with
  | nil => rfl
  | element name text children after next _ ih =>
    rw [stored, stored_second, lastOffset_of_deep (by decide), stride_first, ← Nat.add_mul, ih]
    rfl

end Contents

end Table

/-! ## The texts -/

/-- Something is left of a text when the blanks around it are stripped, or there was nothing. -/
def LeavesText (s : CString) : Prop := s = [] ∨ ∃ c ∈ s, ¬ isBlank c

/-- A text leaves something in whatever pieces it comes: one that is too long for the buffer may be cut
behind its first character. -/
def Trimmable (text : CString) : Prop :=
  if text.length < charDataBufferSize then LeavesText text else ∃ c ∈ text.head?, ¬ isBlank c

theorem paste_of_fits {s : CString} {texts : List CString} (h : (s ++ texts.flatten).length < charDataBufferSize) :
    paste s texts = s ++ texts.flatten := by
  induction texts generalizing s with
  | nil => exact (List.append_nil s).symm
  | cons t texts ih =>
    rw [List.flatten_cons, ← List.append_assoc] at h
    rw [paste, if_neg, ih h, List.flatten_cons, List.append_assoc]
    rw [List.length_append, List.length_append] at h
    omega

/-- What is pasted is the beginning of the text. -/
theorem paste_prefix (s : CString) (texts : List CString) : paste s texts <+: s ++ texts.flatten := by
  induction texts generalizing s with
  | nil => exact List.prefix_append s []
  | cons t texts ih =>
    rw [paste]
    split
    · exact List.prefix_append s _
    · rw [List.flatten_cons, ← List.append_assoc]
      exact ih (s ++ t)

theorem paste_cut {text : CString} (h : ¬ text.length < charDataBufferSize) :
    paste [] [text.take 1, text.drop 1] = text.take 1 := by
  unfold charDataBufferSize at h
  rw [paste, if_neg, paste, if_pos, List.nil_append]
  · rw [List.nil_append, List.length_drop, List.length_take]
    unfold charDataBufferSize
    omega
  · rw [List.length_take, List.length_nil]
    unfold charDataBufferSize
    omega

/-- A text can be trimmed in whatever pieces it comes. -/
theorem Trimmable.leavesText {texts : List CString} (h : Trimmable texts.flatten) : LeavesText (paste [] texts) := by
  unfold Trimmable at h
  split at h
  next hfits =>
    rw [paste_of_fits hfits]
    exact h
  next =>
    obtain ⟨c, hc, hvisible⟩ := h
    obtain ⟨rest, hrest⟩ := paste_prefix [] texts
    cases hpaste : paste [] texts with
    | nil => exact Or.inl rfl
    | cons d s =>
      rw [hpaste, List.nil_append] at hrest
      rw [← hrest] at hc
      obtain rfl : d = c := Option.some.inj hc
      exact Or.inr ⟨d, List.mem_cons_self, hvisible⟩

/-- Cut behind its first character, a text shows whether it can be trimmed. -/
theorem trimmable_of_cut {text : CString} (h : LeavesText (paste [] [text.take 1, text.drop 1])) : Trimmable text := by
  unfold Trimmable
  have hwhole : [text.take 1, text.drop 1].flatten = text := by
    rw [List.flatten_cons, List.flatten_cons, List.flatten_nil, List.append_nil, List.take_append_drop]
  split
  next hfits =>
    rw [paste_of_fits (by rwa [List.nil_append, hwhole]), List.nil_append, hwhole] at h
    exact h
  next hlong =>
    rw [paste_cut hlong] at h
    cases text with
    | nil => exact absurd (by decide) hlong
    | cons d text =>
      obtain hnil | ⟨c, hc, hvisible⟩ := h
      · cases hnil
      · rw [List.mem_singleton.mp hc] at hvisible
        exact ⟨d, rfl, hvisible⟩

/-! ## The entries -/

theorem mem_storedOf {params : List CfgParam} {level offset : ℕ} {name : CString} {text : α} {v : StoredValue α} :
    v ∈ storedOf params level offset name text ↔ ∃ p ∈ matchingParam params level name, ∃ value ∈ p.value,
      v = ⟨p, value + (if p.isPerCamera then offset else 0), text⟩ := by
  unfold storedOf
  rw [Option.mem_def, Option.bind_eq_some_iff]
  constructor
  · rintro ⟨p, hp, hv⟩
    obtain ⟨value, hvalue, rfl⟩ := Option.map_eq_some_iff.mp hv
    exact ⟨p, hp, value, hvalue, rfl⟩
  · rintro ⟨p, hp, value, hvalue, rfl⟩
    exact ⟨p, hp, Option.map_eq_some_iff.mpr ⟨value, hvalue, rfl⟩⟩

/-- The bytes a value takes up: an empty one only a NUL. -/
def StoredValue.length (v : StoredValue CString) : ℕ := if v.text.length > 0 then v.param.maxValLen - 1 else 1

/-- A value is stored inside one of the entries of the camera table. -/
def StoredValue.InTable (layout : ConfLayout) (v : StoredValue CString) : Prop :=
  ∃ k < maxCams, camerasOffset + k * layout.camdefSize ≤ v.address ∧
    v.address + v.length ≤ camerasOffset + (k + 1) * layout.camdefSize

section Entries

variable {layout : ConfLayout} {p : CfgParam} {k : ℕ}

/-- The parameters of the first level are not for cameras. -/
theorem isPerCamera_of_first {name : CString} (h : p ∈ matchingParam (cfgTagTpl layout) 1 name) :
    p.isPerCamera = false := by
  obtain ⟨hmem, hdepth, -⟩ := mem_of_matchingParam h
  rcases depth_of_mem hmem with ⟨-, hrecorder⟩ | hsecond
  · exact hrecorder
  · omega

/-- The parameters of the second level have a value. -/
theorem value_isSome_of_second {name : CString} (h : p ∈ matchingParam (cfgTagTpl layout) 2 name) :
    ∃ value, value ∈ p.value := by
  obtain ⟨hmem, hdepth, -⟩ := mem_of_matchingParam h
  have hvalues : ∀ key ∈ (cfgTagTpl smallestLayout).map fun p => (p.depth, p.value.isSome),
      key.1 = 2 → key.2 = true := by decide
  have hsome := hvalues (p.depth, p.value.isSome)
    (List.mem_map_of_mem (f := fun p => (p.depth, p.value.isSome)) hmem) hdepth
  exact Option.isSome_iff_exists.mp hsome

/-- A per-camera value is inside an entry exactly if it is for one of the first cameras. -/
theorem inTable_iff (hmem : p ∈ cfgTagTpl layout) (hcamera : p.isPerCamera = true) {value : ℕ}
    (hvalue : value ∈ p.value) (text : CString) :
    StoredValue.InTable layout ⟨p, value + k * layout.camdefSize, text⟩ ↔ k < maxCams := by
  have hroom := one_lt_maxValLen hmem hvalue
  have hplace : camerasOffset ≤ value ∧ value + p.maxValLen ≤ camerasOffset + layout.camdefSize := by
    rcases mem_cfgTagTpl hmem hvalue with h | h | rfl
    · rw [(lowParams_within p h).1] at hcamera
      cases hcamera
    · exact (camera_place layout h hvalue 0).2
    · cases hcamera
  have hlength : 0 < StoredValue.length ⟨p, value + k * layout.camdefSize, text⟩ ∧
      StoredValue.length ⟨p, value + k * layout.camdefSize, text⟩ ≤ p.maxValLen - 1 := by
    unfold StoredValue.length
    simp only
    split <;> omega
  unfold StoredValue.InTable
  simp only [Nat.add_mul, Nat.one_mul]
  constructor
  · rintro ⟨j, hj, -, hend⟩
    by_contra hk
    have hbehind := camdef_le layout (show j < k by omega)
    omega
  · exact fun hk => ⟨k, hk, by omega, by omega⟩

end Entries

/-! ## Children behind the table's end -/

namespace RootChild

/-- A child which stores nothing for a camera, and nothing at all when it is a camera itself. -/
def Harmless (layout : ConfLayout) (child : RootChild α) : Prop :=
  ∀ o ∈ child.options, ∀ p ∈ matchingParam (cfgTagTpl layout) 2 o.1, ¬ child.IsCamera ∧ p.isPerCamera = false

/-- The children behind as many cameras as the table has entries are harmless. -/
def FitTable (layout : ConfLayout) (k : ℕ) (children : List (RootChild α)) : Prop :=
  ∀ before child after, children = before ++ child :: after → maxCams ≤ k + cameraCount before →
    child.Harmless layout

/-- The texts that are stored can be trimmed. -/
def TextsTrimmable (layout : ConfLayout) (child : RootChild CString) : Prop :=
  (∀ p ∈ matchingParam (cfgTagTpl layout) 1 child.name, p.value.isSome → Trimmable child.text) ∧
    ∀ o ∈ child.options, ∀ p ∈ matchingParam (cfgTagTpl layout) 2 o.1, p.value.isSome → Trimmable o.2

variable {layout : ConfLayout} {child : RootChild α} {children : List (RootChild α)} {k n : ℕ}

theorem mem_stored {v : StoredValue α} :
    v ∈ child.stored layout k ↔
      v ∈ storedOf (cfgTagTpl layout) 1 (k * layout.camdefSize) child.name child.text ∨
        ∃ o ∈ child.options, v ∈ storedOf (cfgTagTpl layout) 2 (k * layout.camdefSize) o.1 o.2 := by
  unfold stored
  rw [List.mem_append, Option.mem_toList, List.mem_filterMap]
  rfl

theorem cameraCount_cons (child : RootChild α) (children : List (RootChild α)) :
    cameraCount (child :: children) = (if child.IsCamera then 1 else 0) + cameraCount children := by
  unfold cameraCount
  rw [List.countP_cons, Nat.add_comm]
  simp only [decide_eq_true_eq]

theorem mem_allStored {v : StoredValue α} :
    v ∈ allStored layout k children ↔ ∃ before child after, children = before ++ child :: after ∧
      v ∈ child.stored layout (k + cameraCount before) := by
  induction children generalizing k with
  | nil => simp [allStored]
  | cons first children ih =>
    rw [allStored, List.mem_append, ih]
    constructor
    · rintro (hv | ⟨before, child, after, rfl, hv⟩)
      · exact ⟨[], first, children, rfl, hv⟩
      · refine ⟨first :: before, child, after, rfl, ?_⟩
        rwa [cameraCount_cons, ← Nat.add_assoc]
    · rintro ⟨before, child, after, hsplit, hv⟩
      cases before with
      | nil =>
        obtain ⟨rfl, rfl⟩ := List.cons.inj hsplit
        exact Or.inl hv
      | cons first' before =>
        obtain ⟨rfl, rfl⟩ := List.cons.inj hsplit
        refine Or.inr ⟨before, child, after, rfl, ?_⟩
        rwa [cameraCount_cons, ← Nat.add_assoc] at hv

theorem cameraCount_map (f : α → β) (children : List (RootChild α)) :
    cameraCount (children.map (map f)) = cameraCount children := by
  unfold cameraCount
  rw [List.countP_map]
  rfl

theorem harmless_map (f : α → β) : (child.map f).Harmless layout ↔ child.Harmless layout := by
  unfold Harmless map
  simp only [List.forall_mem_map]
  rfl

/-- Whether children fit the table does not depend on the texts. -/
theorem fitTable_map (f : α → β) : FitTable layout k (children.map (map f)) ↔ FitTable layout k children := by
  constructor
  · rintro h before child after rfl hbehind
    rw [← harmless_map f]
    refine h (before.map (map f)) _ (after.map (map f)) (by rw [List.map_append, List.map_cons]) ?_
    rwa [cameraCount_map]
  · intro h before child after hsplit hbehind
    obtain ⟨before, rest, rfl, rfl, hrest⟩ := List.map_eq_append_iff.mp hsplit
    obtain ⟨child, after, rfl, rfl, rfl⟩ := List.map_eq_cons_iff.mp hrest
    rw [harmless_map]
    rw [cameraCount_map] at hbehind
    exact h before child after rfl hbehind

/-- On the first level nothing is for a camera, and a camera itself stores nothing there. -/
theorem first_level {v : StoredValue α} {offset : ℕ} {text : α}
    (hv : v ∈ storedOf (cfgTagTpl layout) 1 offset child.name text) :
    ¬ child.IsCamera ∧ v.param.isPerCamera = false := by
  obtain ⟨p, hp, value, hvalue, rfl⟩ := mem_storedOf.mp hv
  refine ⟨fun hcamera => ?_, isPerCamera_of_first hp⟩
  rw [hcamera] at hp
  rw [(cfgTagTpl_containers layout).camera p hp] at hvalue
  cases hvalue

theorem Harmless.stored_cases (h : child.Harmless layout) {v : StoredValue α} (hv : v ∈ child.stored layout k) :
    ¬ child.IsCamera ∧ v.param.isPerCamera = false := by
  obtain hv | ⟨o, ho, hv⟩ := mem_stored.mp hv
  · exact first_level hv
  · obtain ⟨p, hp, value, hvalue, rfl⟩ := mem_storedOf.mp hv
    exact h o ho p hp

/-- How many values are stored of a child does not depend on the offset. -/
theorem stored_length (layout : ConfLayout) (k : ℕ) (child : RootChild α) :
    (child.stored layout k).length = (child.stored layout 0).length := by
  have hplaces : ∀ level name (text : α), (storedOf (cfgTagTpl layout) level (k * layout.camdefSize) name text).isSome =
      (storedOf (cfgTagTpl layout) level (0 * layout.camdefSize) name text).isSome := by
    intro level name text
    unfold storedOf
    cases matchingParam (cfgTagTpl layout) level name with
    | none => rfl
    | some p => rw [Option.bind_some, Option.bind_some, Option.isSome_map, Option.isSome_map]
  unfold stored
  rw [List.length_append, List.length_append, Option.length_toList, Option.length_toList,
    List.length_filterMap_eq_countP, List.length_filterMap_eq_countP]
  simp only [hplaces]

/-- How many values are stored of children in a row. -/
def storedCount (layout : ConfLayout) (children : List (RootChild α)) : ℕ :=
  (children.map fun child => (child.stored layout 0).length).sum

theorem allStored_length (k : ℕ) (children : List (RootChild α)) :
    (allStored layout k children).length = storedCount layout children := by
  induction children generalizing k with
  | nil => rfl
  | cons child children ih =>
    rw [allStored, List.length_append, stored_length, ih]
    rfl

theorem storedCount_cons (child : RootChild α) (children : List (RootChild α)) :
    storedCount layout (child :: children) = (child.stored layout 0).length + storedCount layout children := rfl

theorem storedCount_withoutSurplus_le (n : ℕ) (children : List (RootChild α)) :
    storedCount layout (withoutSurplus n children) ≤ storedCount layout children := by
  induction children generalizing n with
  | nil => exact le_refl _
  | cons child children ih =>
    rw [withoutSurplus.eq_def]
    simp only
    split
    · cases n with
      | zero => exact (ih 0).trans (Nat.le_add_left _ _)
      | succ n => exact Nat.add_le_add_left (ih n) _
    · exact Nat.add_le_add_left (ih n) _

/-- Without the surplus cameras a surplus camera's values are missing. -/
theorem storedCount_withoutSurplus {before after : List (RootChild α)} (hcamera : child.IsCamera)
    (hn : n ≤ cameraCount before) :
    storedCount layout (withoutSurplus n (before ++ child :: after)) + (child.stored layout 0).length ≤
      storedCount layout (before ++ child :: after) := by
  induction before generalizing n with
  | nil =>
    obtain rfl : n = 0 := Nat.le_zero.mp hn
    rw [List.nil_append, withoutSurplus, if_pos hcamera, storedCount_cons, Nat.add_comm]
    exact Nat.add_le_add_left (storedCount_withoutSurplus_le 0 after) _
  | cons first before ih =>
    rw [cameraCount_cons] at hn
    rw [List.cons_append, storedCount_cons, withoutSurplus.eq_def]
    simp only
    split at hn
    next hfirst =>
      rw [if_pos hfirst]
      cases n with
      | zero => exact (ih (Nat.zero_le _)).trans (Nat.le_add_left _ _)
      | succ n =>
        have hrest := @ih n (by omega)
        simp only [storedCount_cons]
        omega
    next hfirst =>
      have hrest := @ih n (by omega)
      rw [if_neg hfirst, storedCount_cons]
      omega

/-- A harmless child stores the same whatever the offset is. -/
theorem Harmless.stored_eq (h : child.Harmless layout) (k k' : ℕ) : child.stored layout k = child.stored layout k' := by
  have hplaces : ∀ level name (text : α), (∀ p ∈ matchingParam (cfgTagTpl layout) level name, p.isPerCamera = false) →
      storedOf (cfgTagTpl layout) level (k * layout.camdefSize) name text =
        storedOf (cfgTagTpl layout) level (k' * layout.camdefSize) name text := by
    intro level name text hrecorder
    unfold storedOf
    cases hp : matchingParam (cfgTagTpl layout) level name with
    | none => rfl
    | some p => simp only [Option.bind_some, hrecorder p hp, Bool.false_eq_true, if_false]
  unfold stored
  rw [hplaces 1 child.name child.text fun p hp => ?_]
  · congr 1
    exact List.filterMap_congr fun o ho => hplaces 2 o.1 o.2 fun p hp => (h o ho p hp).2
  · exact isPerCamera_of_first hp

/-- Behind the table's end the values of harmless children are those without the surplus cameras. -/
theorem allStored_behind (hharmless : ∀ child ∈ children, child.Harmless layout) (k k' : ℕ) :
    allStored layout k children = allStored layout k' (withoutSurplus 0 children) := by
  induction children generalizing k k' with
  | nil => rfl
  | cons child children ih =>
    have hchild := hharmless child List.mem_cons_self
    have hrest := ih fun child hmem => hharmless child (List.mem_cons_of_mem _ hmem)
    rw [allStored, withoutSurplus]
    split
    next hcamera =>
      have hnothing : child.stored layout k = [] :=
        List.eq_nil_iff_forall_not_mem.mpr fun v hv => (hchild.stored_cases hv).1 hcamera
      rw [hnothing, List.nil_append]
      exact hrest _ _
    next hcamera =>
      rw [allStored, hchild.stored_eq k k', hrest]

/-- What is stored of children which fit the table is what is stored without the surplus cameras. -/
theorem FitTable.allStored_withoutSurplus (h : FitTable layout k children) (hn : k + n = maxCams) :
    allStored layout k children = allStored layout k (withoutSurplus n children) := by
  induction children generalizing k n with
  | nil => rfl
  | cons child children ih =>
    have htail : FitTable layout (k + if child.IsCamera then 1 else 0) children := by
      rintro before child' after rfl hbehind
      refine h (child :: before) child' after rfl ?_
      rw [cameraCount_cons]
      omega
    cases n with
    | zero =>
      refine allStored_behind (fun child' hmem => ?_) k k
      obtain ⟨before, after, hsplit⟩ := List.append_of_mem hmem
      exact h before child' after hsplit (by omega)
    | succ n =>
      rw [withoutSurplus, allStored]
      split
      next hcamera =>
        rw [if_pos hcamera] at htail
        rw [allStored, if_pos hcamera, @ih (k + 1) n htail (by omega)]
      next hcamera =>
        rw [if_neg hcamera] at htail
        rw [allStored, if_neg hcamera, ih htail hn]

end RootChild

/-! ## Staying in the table -/

/-- The parser stays in the camera table over a document, from whatever state it starts, in whatever
pieces its texts come and however the file is cut into blocks: every value that is stored leaves
something to trim, one for a camera is inside an entry of the table, and the values are those of the
document without its surplus cameras. -/
def StaysInTable (layout : ConfLayout) (doc : XmlDocument CString) : Prop :=
  ∀ (st : XmlParser) (delivery : XmlDocument (List CString)) (blocks : List (List Callback)),
    delivery.map List.flatten = doc → blocks.flatten = delivery.callbacks →
      (∀ v ∈ st.fileStores (cfgTagTpl layout) blocks,
        LeavesText v.text ∧ (v.param.isPerCamera = true → v.InTable layout)) ∧
      st.fileStores (cfgTagTpl layout) blocks =
        st.fileStores (cfgTagTpl layout) [delivery.withoutSurplus.callbacks]

/-- A document which fits the table, and whose stored texts can be trimmed. -/
structure XmlDocument.FitsTable (layout : ConfLayout) (doc : XmlDocument CString) : Prop where
  texts : ∀ child ∈ doc.children.rootChildren, child.TextsTrimmable layout
  children : RootChild.FitTable layout 0 doc.children.rootChildren

variable {layout : ConfLayout} {doc : XmlDocument CString}

theorem cfgTagTpl_root (layout : ConfLayout) : ∀ p ∈ cfgTagTpl layout, p.depth ≠ 0 :=
  (cfgTagTpl_containers layout).root

/-- What reading a delivery of a document stores. -/
theorem XmlParser.fileStores_delivery (st : XmlParser) (delivery : XmlDocument (List CString))
    {blocks : List (List Callback)} (hblocks : blocks.flatten = delivery.callbacks) :
    st.fileStores (cfgTagTpl layout) blocks =
      (RootChild.allStored layout 0 delivery.children.rootChildren).map (StoredValue.map (paste [])) := by
  rw [fileStores_document (cfgTagTpl_root layout) st delivery hblocks, ← Contents.stored_first, Nat.zero_mul]

theorem XmlParser.fileStores_withoutSurplus (st : XmlParser) (delivery : XmlDocument (List CString)) :
    st.fileStores (cfgTagTpl layout) [delivery.withoutSurplus.callbacks] =
      (RootChild.allStored layout 0 (RootChild.withoutSurplus maxCams delivery.children.rootChildren)).map
        (StoredValue.map (paste [])) := by
  rw [st.fileStores_delivery delivery.withoutSurplus (List.append_nil _), XmlDocument.withoutSurplus,
    Contents.rootChildren_withoutSurplus]

namespace RootChild

variable {child : RootChild (List CString)} {k : ℕ}

/-- A value for a camera is inside an entry exactly if it is for one of the first cameras. -/
theorem inTable_of_stored {v : StoredValue (List CString)} (hv : v ∈ child.stored layout k)
    (hcamera : v.param.isPerCamera = true) : (v.map (paste [])).InTable layout ↔ k < maxCams := by
  have hplace : ∃ p ∈ cfgTagTpl layout, ∃ value ∈ p.value,
      v = ⟨p, value + (if p.isPerCamera then k * layout.camdefSize else 0), v.text⟩ := by
    obtain hv | ⟨o, -, hv⟩ := mem_stored.mp hv <;>
      obtain ⟨p, hp, value, hvalue, rfl⟩ := mem_storedOf.mp hv <;>
      exact ⟨p, (mem_of_matchingParam hp).1, value, hvalue, rfl⟩
  obtain ⟨p, hp, value, hvalue, heq⟩ := hplace
  rw [heq] at hcamera ⊢
  simp only at hcamera
  simp only [hcamera, if_true]
  exact inTable_iff hp hcamera hvalue _

theorem mem_stored_own (child : RootChild α) {p : CfgParam} (hp : p ∈ matchingParam (cfgTagTpl layout) 1 child.name)
    (hvalue : p.value.isSome) (k : ℕ) : ∃ v ∈ child.stored layout k, v.text = child.text := by
  obtain ⟨value, hvalue⟩ := Option.isSome_iff_exists.mp hvalue
  exact ⟨_, mem_stored.mpr (Or.inl (mem_storedOf.mpr ⟨p, hp, value, hvalue, rfl⟩)), rfl⟩

theorem mem_stored_option (child : RootChild α) {o : CString × α} (ho : o ∈ child.options) {p : CfgParam}
    (hp : p ∈ matchingParam (cfgTagTpl layout) 2 o.1) (k : ℕ) :
    ∃ v ∈ child.stored layout k, v.param = p ∧ v.text = o.2 := by
  obtain ⟨value, hvalue⟩ := value_isSome_of_second hp
  exact ⟨_, mem_stored.mpr (Or.inr ⟨o, ho, mem_storedOf.mpr ⟨p, hp, value, hvalue, rfl⟩⟩), rfl, rfl⟩

/-- The values of a child whose stored texts can be trimmed leave something, in whatever pieces they come. -/
theorem TextsTrimmable.leavesText (h : (child.map List.flatten).TextsTrimmable layout)
    {v : StoredValue (List CString)} (hv : v ∈ child.stored layout k) : LeavesText (paste [] v.text) := by
  obtain hv | ⟨o, ho, hv⟩ := mem_stored.mp hv
  · obtain ⟨p, hp, value, hvalue, rfl⟩ := mem_storedOf.mp hv
    exact (h.1 p hp (Option.isSome_iff_exists.mpr ⟨value, hvalue⟩)).leavesText
  · obtain ⟨p, hp, value, hvalue, rfl⟩ := mem_storedOf.mp hv
    exact (h.2 (Prod.map id List.flatten o) (List.mem_map_of_mem ho) p hp
      (Option.isSome_iff_exists.mpr ⟨value, hvalue⟩)).leavesText

end RootChild

/-- Over a document which fits it, the parser stays in the table. -/
theorem XmlDocument.FitsTable.staysInTable (h : doc.FitsTable layout) : StaysInTable layout doc := by
  rintro st delivery blocks rfl hblocks
  have hchildren : (delivery.map List.flatten).children.rootChildren =
      delivery.children.rootChildren.map (RootChild.map List.flatten) := Contents.rootChildren_map _ _
  have htexts := h.texts
  have hfit := h.children
  rw [hchildren] at htexts hfit
  rw [RootChild.fitTable_map] at hfit
  rw [st.fileStores_delivery delivery hblocks, st.fileStores_withoutSurplus delivery]
  refine ⟨fun v hv => ?_, congrArg _ (hfit.allStored_withoutSurplus (Nat.zero_add _))⟩
  obtain ⟨v, hstored, rfl⟩ := List.mem_map.mp hv
  obtain ⟨before, child, after, hsplit, hstored⟩ := RootChild.mem_allStored.mp hstored
  have hmem : child ∈ delivery.children.rootChildren := by
    rw [hsplit]
    exact List.mem_append_right _ List.mem_cons_self
  refine ⟨(htexts _ (List.mem_map_of_mem hmem)).leavesText hstored, fun hcamera => ?_⟩
  rw [RootChild.inTable_of_stored hstored hcamera]
  by_contra hbehind
  have hrecorder := ((hfit before child after hsplit (by omega)).stored_cases hstored).2
  exact Bool.false_ne_true (hrecorder.symm.trans hcamera)

/-- A text in two pieces, the first of which is a character. -/
def cut (text : CString) : List CString := [text.take 1, text.drop 1]

theorem flatten_cut (text : CString) : (cut text).flatten = text := by
  rw [cut, List.flatten_cons, List.flatten_cons, List.flatten_nil, List.append_nil, List.take_append_drop]

theorem Contents.flatten_cut (c : Contents CString) : (c.map cut).map List.flatten = c := by
  induction c with
  | nil => rfl
  | element name text children after next ihchildren ihnext =>
    rw [map, map, ihchildren, ihnext, Reagent.flatten_cut, Reagent.flatten_cut]

theorem XmlDocument.flatten_cut (doc : XmlDocument CString) : (doc.map cut).map List.flatten = doc := by
  rw [map, map, Contents.flatten_cut, Reagent.flatten_cut]

/-- Behind the table's end a camera's values would be missing without the surplus cameras. -/
theorem RootChild.stored_nil_of_surplus {children before after : List (RootChild α)} {child : RootChild α}
    (hsame : (allStored layout 0 children).length = (allStored layout 0 (withoutSurplus maxCams children)).length)
    (hsplit : children = before ++ child :: after) (hcamera : child.IsCamera) (hbehind : maxCams ≤ cameraCount before)
    (k : ℕ) : child.stored layout k = [] := by
  have hmissing : storedCount layout (withoutSurplus maxCams (before ++ child :: after)) +
      (child.stored layout 0).length ≤ storedCount layout (before ++ child :: after) :=
    storedCount_withoutSurplus hcamera hbehind
  rw [allStored_length, allStored_length, hsplit] at hsame
  refine List.eq_nil_of_length_eq_zero ?_
  rw [stored_length]
  omega

/-- What the parser stores of a document whose texts come in two pieces. -/
theorem StaysInTable.stored_cut (h : StaysInTable layout doc) {before after : List (RootChild (List CString))}
    {child : RootChild (List CString)}
    (hsplit : doc.children.rootChildren.map (RootChild.map cut) = before ++ child :: after) :
    (∀ v ∈ child.stored layout (RootChild.cameraCount before), LeavesText (paste [] v.text) ∧
        (v.param.isPerCamera = true → (v.map (paste [])).InTable layout)) ∧
      (child.IsCamera → maxCams ≤ RootChild.cameraCount before → ∀ k, child.stored layout k = []) := by
  let st : XmlParser := ⟨0, 0, none, false, [], false, fun _ => nul⟩
  have hchildren : (doc.map cut).children.rootChildren = doc.children.rootChildren.map (RootChild.map cut) :=
    Contents.rootChildren_map _ _
  obtain ⟨hvalues, hsame⟩ := h st (doc.map cut) [(doc.map cut).callbacks] doc.flatten_cut (List.append_nil _)
  rw [st.fileStores_delivery (doc.map cut) (List.append_nil _), hchildren] at hvalues hsame
  rw [st.fileStores_withoutSurplus (doc.map cut), hchildren] at hsame
  constructor
  · intro v hv
    rw [← Nat.zero_add (RootChild.cameraCount before)] at hv
    exact hvalues _ (List.mem_map_of_mem (RootChild.mem_allStored.mpr ⟨before, child, after, hsplit, hv⟩))
  · intro hcamera hbehind k
    have hlength := congrArg List.length hsame
    rw [List.length_map, List.length_map] at hlength
    exact RootChild.stored_nil_of_surplus hlength hsplit hcamera hbehind k

/-- A document over which the parser stays in the table fits it. -/
theorem StaysInTable.fitsTable (h : StaysInTable layout doc) : doc.FitsTable layout := by
  constructor
  case texts =>
    intro child hmem
    obtain ⟨before, after, hsplit⟩ := List.append_of_mem (List.mem_map_of_mem (f := RootChild.map cut) hmem)
    have hleaves := fun v hv => ((h.stored_cut hsplit).1 v hv).1
    constructor
    · intro p hp hvalue
      obtain ⟨v, hv, htext⟩ := (child.map cut).mem_stored_own hp hvalue _
      have hown := hleaves v hv
      rw [htext] at hown
      exact trimmable_of_cut hown
    · intro o ho p hp _
      obtain ⟨v, hv, -, htext⟩ := (child.map cut).mem_stored_option (List.mem_map_of_mem (f := Prod.map id cut) ho) hp _
      have hown := hleaves v hv
      rw [htext] at hown
      exact trimmable_of_cut hown
  case children =>
    rw [← RootChild.fitTable_map cut]
    intro before child after hsplit hbehind o ho p hp
    rw [Nat.zero_add] at hbehind
    obtain ⟨hvalues, hsurplus⟩ := h.stored_cut hsplit
    obtain ⟨v, hv, rfl, -⟩ := child.mem_stored_option ho hp (RootChild.cameraCount before)
    constructor
    · intro hcamera
      rw [hsurplus hcamera hbehind] at hv
      cases hv
    · by_contra hcamera
      rw [Bool.not_eq_false] at hcamera
      have hfirst := (RootChild.inTable_of_stored hv hcamera).mp ((hvalues v hv).2 hcamera)
      omega

/-- The parser stays in the camera table exactly over the documents which fit it. -/
theorem staysInTable_iff (layout : ConfLayout) (doc : XmlDocument CString) :
    StaysInTable layout doc ↔ doc.FitsTable layout :=
  ⟨StaysInTable.fitsTable, XmlDocument.FitsTable.staysInTable⟩

/-- Where the parser stays in the table, the surplus cameras change nothing in the configuration. -/
theorem StaysInTable.doFile_withoutSurplus (h : StaysInTable layout doc) (st : XmlParser)
    {delivery : XmlDocument (List CString)} (hdelivery : delivery.map List.flatten = doc)
    {blocks : List (List Callback)} (hblocks : blocks.flatten = delivery.callbacks) :
    (st.doFile (cfgTagTpl layout) (some (blocks.map fun cbs => .block cbs true))).2.conf =
      (st.doFile (cfgTagTpl layout)
        (some ([delivery.withoutSurplus.callbacks].map fun cbs => .block cbs true))).2.conf := by
  rw [XmlParser.doFile_stores, XmlParser.doFile_stores, (h st delivery blocks hdelivery hblocks).2]

/-- Cameras in a row which have a name. -/
def namedCameras : ℕ → Contents CString
  | 0 => .nil
  | n + 1 =>
    .element ("camera").toList [] (.element ("name").toList ("CAB").toList .nil [] .nil) [] (namedCameras n)

/-- The name of a seventeenth camera is stored behind the table. -/
theorem not_staysInTable_seventeen :
    ¬ StaysInTable smallestLayout ⟨("recorder").toList, [], namedCameras 17⟩ := by
  intro h
  have hharmless := h.fitsTable.children (namedCameras 16).rootChildren
    ⟨("camera").toList, [], [(("name").toList, ("CAB").toList)]⟩ [] rfl (by decide)
  exact (hharmless _ List.mem_cons_self
    ⟨2, true, ("name").toList, some (camerasOffset + 4), cameraNameLength + 1⟩ rfl).1 rfl

end RecordingAgent.Reagent
