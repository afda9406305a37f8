import Mathlib.Algebra.Order.BigOperators.Group.List
import RecordingAgent.Foundation.Decimal
import RecordingAgent.Foundation.XmlContent

/-!
# The records as XML

`xml_writer.c`. A record is written as an element whose children are elements with text. A child is printed
into a buffer of fixed size, its text as it is, and the offset of a time change as an `int`. What is read
back is what was recorded exactly if no text has markup in it or is too long, and every offset is an `int`.
-/

namespace RecordingAgent.Metacollector

open Foundation Foundation.Xml

/-- `isprint` -/
def isPrintable (c : Char) : Bool := 0x20 ≤ c.toNat && c.toNat ≤ 0x7E

/-- A printable text of a record's field. -/
@[ext]
structure Text where
  chars : CString
  printable : chars.all isPrintable = true
  deriving DecidableEq

/-- `time_seconds_tostr`: different times are different texts. -/
structure TimeFormat where
  tostr : UInt32 → Text
  injective : Function.Injective tostr

/-- `timeoffset_record_t` -/
structure TimeoffsetRecord where
  recordTime : UInt32
  timeoffsetSecM : Int64
  timeSrc : Text
  deriving DecidableEq

/-- `video_event_record_t`. The value fits an `int`. -/
structure VideoEventRecord where
  recordTime : UInt32
  digitalName : Text
  digitalValue : Int32
  deriving DecidableEq

/-- `locomotive_id_record_t` -/
structure LocomotiveIdRecord where
  recordTime : UInt32
  locoId : Text
  deriving DecidableEq

/-- How many characters `snprintf` leaves in the buffer of 255 bytes at most. -/
def elementRoom : ℕ := 253

/-- `"<%s>%s</%s>\n"` -/
def elementText (tagname tagvalue : CString) : CString :=
  '<' :: (tagname ++ '>' :: (tagvalue ++ '<' :: '/' :: (tagname ++ ['>', '\n'])))

/-- `get_str_element_tag` -/
def getStrElementTag (tagname tagvalue : CString) : CString := (elementText tagname tagvalue).take elementRoom

/-- `get_int_element_tag` -/
def getIntElementTag (tagname : CString) (tagvalue : Int32) : CString :=
  (elementText tagname (signedDigits tagvalue.toInt)).take elementRoom

/-- The names of the elements. -/
def timeTag : CString := "time".toList
def timeChangeTag : CString := "time_change".toList
def currentOffsetTag : CString := "current_offset".toList
def timeSourceTag : CString := "time_source".toList
def eventTag : CString := "event".toList
def eventNameTag : CString := "event_name".toList
def eventValueTag : CString := "event_value".toList
def locomotiveIdTag : CString := "locomotive_id".toList

/-- The lines around the children of a record. -/
def openLine (tag : CString) : CString := '<' :: (tag ++ ['>', '\n'])
def closeLine (tag : CString) : CString := '<' :: '/' :: (tag ++ ['>', '\n'])

variable (fmt : TimeFormat)

/-- `write_timeoffset`. The offset is passed as an `int`. -/
def writeTimeoffset (record : TimeoffsetRecord) : CString :=
  openLine timeChangeTag ++ getStrElementTag timeTag (fmt.tostr record.recordTime).chars ++
    getIntElementTag currentOffsetTag record.timeoffsetSecM.toInt32 ++
    getStrElementTag timeSourceTag record.timeSrc.chars ++ closeLine timeChangeTag

/-- `write_video_event` -/
def writeVideoEvent (record : VideoEventRecord) : CString :=
  openLine eventTag ++ getStrElementTag timeTag (fmt.tostr record.recordTime).chars ++
    getStrElementTag eventNameTag record.digitalName.chars ++
    getIntElementTag eventValueTag record.digitalValue ++ closeLine eventTag

/-- `write_locoid_event` -/
def writeLocoidEvent (record : LocomotiveIdRecord) : CString :=
  openLine eventTag ++ getStrElementTag timeTag (fmt.tostr record.recordTime).chars ++
    getStrElementTag locomotiveIdTag record.locoId.chars ++ closeLine eventTag

/-- `write_timeoffset_list` -/
def writeTimeoffsetList (records : List TimeoffsetRecord) : CString := records.flatMap (writeTimeoffset fmt)

/-- `write_event_list` -/
def writeEventList (records : List VideoEventRecord) : CString := records.flatMap (writeVideoEvent fmt)

/-- `write_locoID_list` -/
def writeLocoIDList (records : List LocomotiveIdRecord) : CString := records.flatMap (writeLocoidEvent fmt)

/-- The elements that say what was recorded. -/
def TimeoffsetRecord.element (record : TimeoffsetRecord) : Element where
  tag := timeChangeTag
  children := [(timeTag, (fmt.tostr record.recordTime).chars),
    (currentOffsetTag, signedDigits record.timeoffsetSecM.toInt), (timeSourceTag, record.timeSrc.chars)]

def VideoEventRecord.element (record : VideoEventRecord) : Element where
  tag := eventTag
  children := [(timeTag, (fmt.tostr record.recordTime).chars), (eventNameTag, record.digitalName.chars),
    (eventValueTag, signedDigits record.digitalValue.toInt)]

def LocomotiveIdRecord.element (record : LocomotiveIdRecord) : Element where
  tag := eventTag
  children := [(timeTag, (fmt.tostr record.recordTime).chars), (locomotiveIdTag, record.locoId.chars)]

/-- What was written is content with the elements of the records, and of no other records. -/
def ReadsBackAs {α : Type} (text : CString) (element : α → Element) (records : List α) : Prop :=
  ReadsAs text (records.map element) ∧ ∀ others : List α, ReadsAs text (others.map element) → others = records

/-- The text has no markup characters and does not end a section, and its element fits the buffer. -/
def Safe (tag text : CString) : Prop :=
  '<' ∉ text ∧ '&' ∉ text ∧ ¬ cdataEnd <:+: text ∧ 2 * tag.length + 5 + text.length ≤ elementRoom

/-- A child of an element: its tag, and its text as it is printed and as it was recorded. -/
structure Line where
  tag : CString
  printed : CString
  recorded : CString

/-- A record: the tag of its element, and its children. -/
structure Entry where
  tag : CString
  lines : List Line

/-- What counts of a character: the markup that names and numbers do not have. -/
def mark (c : Char) : ℕ := if c.isAlphanum || ['<', '>', '_', '-', '\n'].contains c then 0 else 1

/-- A name of an element without marks. -/
def PlainName (tag : CString) : Prop := isName tag = true ∧ weight mark tag = 0

/-- The text is printed as it was recorded, or has no markup and no more marks than it was recorded with. -/
structure Line.Regular (l : Line) : Prop where
  name : PlainName l.tag
  printable : l.printed.all isPrintable = true
  marks_le : weight mark l.printed ≤ weight mark l.recorded
  unmarked : l.printed = l.recorded ∨ ∀ c ∈ l.printed, c ≠ '<' ∧ c ≠ '&'

namespace Line

variable (l : Line)

def text : CString := (elementText l.tag l.printed).take elementRoom

/-- The buffer keeps the name of the end tag. -/
def Fits : Prop := 2 * l.tag.length + 5 + l.printed.length ≤ elementRoom

instance : Decidable l.Fits := inferInstanceAs (Decidable (_ ≤ _))

/-- The events of a line that fits: the line feed may be cut. -/
def events : List Event :=
  childEvents (l.tag, l.printed) ++
    if 2 * l.tag.length + 6 + l.printed.length ≤ elementRoom then [.char '\n'] else []

end Line

namespace Entry

variable (e : Entry)

def text : CString := openLine e.tag ++ e.lines.flatMap Line.text ++ closeLine e.tag

def printed : Element := ⟨e.tag, e.lines.map fun l => (l.tag, l.printed)⟩

def recorded : Element := ⟨e.tag, e.lines.map fun l => (l.tag, l.recorded)⟩

/-- The events of an entry whose lines fit. -/
def events : List Event :=
  .startTag e.tag :: .char '\n' :: (e.lines.flatMap Line.events ++ [.endTag e.tag, .char '\n'])

/-- The names are plain and the lines regular. -/
structure Regular : Prop where
  name : PlainName e.tag
  lines : ∀ l ∈ e.lines, l.Regular

end Entry

section Weight

/-- The marks of a printed child are those of its text, and the slash. -/
theorem weight_elementText {tag text : CString} (htag : weight mark tag = 0) :
    weight mark (elementText tag text) = weight mark text + 1 := by
  have hlt : mark '<' = 0 := by decide
  have hgt : mark '>' = 0 := by decide
  have hslash : mark '/' = 1 := by decide
  have hline : mark '\n' = 0 := by decide
  simp only [elementText, weight_cons, weight_append, weight_nil, htag, hlt, hgt, hslash, hline]
  omega

theorem eventsWeight_childEvents (child : CString × CString) :
    eventsWeight mark (childEvents child) = weight mark child.2 + 1 := by
  have hslash : mark '/' = 1 := by decide
  simp [childEvents, Event.weight, hslash]

/-- A child whose slash is cut off loses a mark. -/
theorem weight_take_lt {tag text : CString} (htag : weight mark tag = 0)
    (hcut : elementRoom < tag.length + text.length + 4) :
    weight mark ((elementText tag text).take elementRoom) < weight mark text + 1 := by
  have hsplit : elementText tag text = ('<' :: (tag ++ '>' :: (text ++ ['<']))) ++ '/' :: (tag ++ ['>', '\n']) := by
    simp [elementText]
  have hlength : ('<' :: (tag ++ '>' :: (text ++ ['<']))).length = tag.length + text.length + 3 := by
    simp
    omega
  rw [hsplit, List.take_append_of_le_length (by omega)]
  refine (weight_take_le _ _).trans_lt ?_
  have hlt : mark '<' = 0 := by decide
  have hgt : mark '>' = 0 := by decide
  simp only [weight_cons, weight_append, weight_nil, htag, hlt, hgt]
  omega

variable {l : Line} {e : Entry}

/-- A printed line has no more marks than its events were recorded with. -/
theorem Line.Regular.weight_le (h : l.Regular) : weight mark l.text ≤ weight mark l.recorded + 1 := by
  have hle := weight_take_le (w := mark) (elementText l.tag l.printed) elementRoom
  rw [weight_elementText h.name.2] at hle
  exact hle.trans (Nat.add_le_add_right h.marks_le 1)

/-- The lines have no more marks than their events were recorded with; if they have as many, no slash is cut. -/
theorem weight_entries_le {entries : List Entry} (h : ∀ e ∈ entries, e.Regular) :
    weight mark (entries.flatMap Entry.text) ≤ eventsWeight mark ((entries.map Entry.recorded).flatMap Element.events) ∧
      (eventsWeight mark ((entries.map Entry.recorded).flatMap Element.events) ≤
        weight mark (entries.flatMap Entry.text) →
        ∀ e ∈ entries, ∀ l ∈ e.lines, l.tag.length + l.printed.length + 4 ≤ elementRoom) := by
  rw [List.flatMap_map, weight_flatMap, eventsWeight_flatMap]
  refine sum_le_sum_and fun e he => ?_
  have hlines := sum_le_sum_and (l := e.lines) (f := fun l => weight mark l.text)
    (g := fun l => weight mark l.recorded + 1) (p := fun l => l.tag.length + l.printed.length + 4 ≤ elementRoom)
    fun l hl => by
      have hregular := (h e he).lines l hl
      refine ⟨hregular.weight_le, fun hge => not_lt.mp fun hcut => ?_⟩
      have hlt := weight_take_lt hregular.name.2 hcut
      have hmarks := hregular.marks_le
      change weight mark l.recorded + 1 ≤ weight mark ((elementText l.tag l.printed).take elementRoom) at hge
      omega
  have htext : weight mark e.text = (e.lines.map fun l => weight mark l.text).sum + 1 := by
    have hlt : mark '<' = 0 := by decide
    have hgt : mark '>' = 0 := by decide
    have hslash : mark '/' = 1 := by decide
    have hline : mark '\n' = 0 := by decide
    simp only [Entry.text, openLine, closeLine, weight_append, weight_cons, weight_nil, weight_flatMap,
      (h e he).name.2, hlt, hgt, hslash, hline]
    omega
  have hevents : eventsWeight mark e.recorded.events = (e.lines.map fun l => weight mark l.recorded + 1).sum + 1 := by
    have hslash : mark '/' = 1 := by decide
    simp only [Entry.recorded, Element.events, List.flatMap_map, eventsWeight_cons, eventsWeight_append,
      eventsWeight_nil, eventsWeight_flatMap, eventsWeight_childEvents, Event.weight, hslash]
    omega
  rw [htext, hevents]
  exact ⟨Nat.add_le_add_right hlines.1 1, fun hge => hlines.2 (by omega)⟩

/-- Where the events that were recorded are read back, no slash is cut, and no text has markup. -/
theorem marks_of_readsAs {entries : List Entry} (h : ∀ e ∈ entries, e.Regular)
    (hreads : ReadsAs (entries.flatMap Entry.text) (entries.map Entry.recorded)) :
    ∀ e ∈ entries, ∀ l ∈ e.lines, l.tag.length + l.printed.length + 4 ≤ elementRoom ∧
      ∀ c ∈ l.printed, c ≠ '<' ∧ c ≠ '&' := by
  obtain ⟨es, hes, -, hevents⟩ := hreads
  have hreference : ∀ c, mark c < mark '&' + mark ';' := by
    intro c
    have hone : mark c ≤ 1 := by
      unfold mark
      split <;> decide
    exact hone.trans_lt (by decide)
  obtain ⟨hle, hliteral⟩ := contentEvents_weight (w := mark) hreference (by decide) hes
  obtain ⟨hmarks, hkept⟩ := weight_entries_le h
  have hsub := elementContent_sublist 2 0 es
  have hsum : eventsWeight mark (elementContent 2 0 es) ≤ eventsWeight mark es :=
    (hsub.map _).sum_le_sum fun _ _ => Nat.zero_le _
  rw [hevents] at hsum hsub
  intro e he l hl
  refine ⟨hkept (by omega) e he l hl, ?_⟩
  rcases ((h e he).lines l hl).unmarked with hsame | hfree
  · intro c hc
    have hmem : Event.char c ∈ (entries.map Entry.recorded).flatMap Element.events := by
      refine List.mem_flatMap.mpr ⟨e.recorded, List.mem_map_of_mem he, List.mem_cons_of_mem _ ?_⟩
      refine List.mem_append_left _ (List.mem_flatMap.mpr ⟨(l.tag, l.recorded), List.mem_map_of_mem hl, ?_⟩)
      exact List.mem_cons_of_mem _ (List.mem_append_left _ (List.mem_map_of_mem (hsame ▸ hc)))
    exact hliteral (by omega) c (hsub.subset hmem)
  · exact hfree

end Weight

section Forward

variable {l : Line} {e : Entry}

/-- Printable characters are those of documents, and no line feeds. -/
theorem isChar_of_isPrintable {c : Char} (h : isPrintable c = true) : isChar c = true ∧ c ≠ '\n' := by
  simp only [isPrintable, Bool.and_eq_true, decide_eq_true_eq] at h
  constructor
  · rw [isChar, Bool.or_eq_true, Bool.and_eq_true, Bool.and_eq_true]
    refine Or.inr ⟨⟨decide_eq_true h.1, ?_⟩, ?_⟩
    · rw [bne_iff_ne]
      omega
    · rw [bne_iff_ne]
      omega
  · rintro rfl
    exact absurd h.1 (by decide)

/-- The line can be read: its end tag is not cut, and its text ends no section. -/
def Line.Readable (l : Line) : Prop := ¬ cdataEnd <:+: l.printed ∧ l.Fits

instance decidableReadable (l : Line) : Decidable l.Readable := inferInstanceAs (Decidable (_ ∧ _))

/-- A line without markup in its text, of which no slash is cut, is read if it can be. -/
theorem contentEvents_line (hregular : l.Regular) (hkept : l.tag.length + l.printed.length + 4 ≤ elementRoom)
    (hfree : ∀ c ∈ l.printed, c ≠ '<' ∧ c ≠ '&') (rest : CString) :
    contentEvents (l.text ++ '<' :: rest) =
      if l.Readable then (contentEvents ('<' :: rest)).map fun es => l.events ++ es else none := by
  have hchars : ∀ c ∈ l.printed, c ≠ '<' ∧ c ≠ '&' ∧ isChar c = true := fun c hc =>
    ⟨(hfree c hc).1, (hfree c hc).2, (isChar_of_isPrintable (List.all_eq_true.mp hregular.printable c hc)).1⟩
  -- the text up to the name of the end tag is whole
  have htext : l.text = '<' :: (l.tag ++ '>' :: (l.printed ++ '<' :: '/' :: ((l.tag ++ ['>', '\n']).take
      (elementRoom - (l.tag.length + l.printed.length + 4))))) := by
    have hsplit : elementText l.tag l.printed =
        ('<' :: (l.tag ++ '>' :: (l.printed ++ ['<', '/']))) ++ (l.tag ++ ['>', '\n']) := by simp [elementText]
    have hlength : ('<' :: (l.tag ++ '>' :: (l.printed ++ ['<', '/']))).length =
        l.tag.length + l.printed.length + 4 := by
      simp
      omega
    rw [Line.text, hsplit, List.take_append, hlength, List.take_of_length_le (by omega)]
    simp
  have hhead : ∀ more, contentEvents ('<' :: (l.tag ++ '>' :: (l.printed ++ '<' :: '/' :: more))) =
      if cdataEnd <:+: l.printed then none
      else (contentEvents ('<' :: '/' :: more)).map fun es => .startTag l.tag :: (l.printed.map .char ++ es) := by
    intro more
    rw [contentEvents_startTag hregular.name.1, contentEvents_chars hchars]
    split
    · rfl
    · rw [Option.map_map]
      rfl
  have hassoc : l.text ++ '<' :: rest = '<' :: (l.tag ++ '>' :: (l.printed ++ '<' :: '/' :: ((l.tag ++ ['>', '\n']).take
      (elementRoom - (l.tag.length + l.printed.length + 4)) ++ '<' :: rest))) := by
    rw [htext]
    simp
  rw [hassoc, hhead]
  by_cases hend : cdataEnd <:+: l.printed
  · rw [if_pos hend, if_neg fun h => h.1 hend]
  rw [if_neg hend]
  by_cases hfits : 2 * l.tag.length + 5 + l.printed.length ≤ elementRoom
  · rw [if_pos (show l.Readable from ⟨hend, hfits⟩), Line.events]
    by_cases hwhole : 2 * l.tag.length + 6 + l.printed.length ≤ elementRoom
    · rw [if_pos hwhole, List.take_of_length_le (by simp; omega), List.append_assoc, List.cons_append, List.cons_append,
        List.nil_append, contentEvents_endTag hregular.name.1, contentEvents_newline, Option.map_map, Option.map_map]
      simp only [childEvents, List.cons_append, List.append_assoc, List.nil_append]
      rfl
    · have hcut : (l.tag ++ ['>', '\n']).take (elementRoom - (l.tag.length + l.printed.length + 4)) = l.tag ++ ['>'] := by
        rw [List.take_append, List.take_of_length_le (by omega),
          show elementRoom - (l.tag.length + l.printed.length + 4) - l.tag.length = 1 by omega]
        rfl
      rw [if_neg hwhole, hcut, List.append_assoc, List.cons_append, List.nil_append,
        contentEvents_endTag hregular.name.1, Option.map_map]
      simp only [childEvents, List.cons_append, List.append_assoc, List.nil_append, List.append_nil]
      rfl
  · rw [if_neg fun h => hfits h.2, List.take_append_of_le_length (by omega), contentEvents_endTag_cut hregular.name.1]
    rfl

/-- The lines of an entry are read if all of them can be. -/
theorem contentEvents_lines {lines : List Line} (h : ∀ l ∈ lines, l.Regular ∧
      l.tag.length + l.printed.length + 4 ≤ elementRoom ∧ ∀ c ∈ l.printed, c ≠ '<' ∧ c ≠ '&') (rest : CString) :
    contentEvents (lines.flatMap Line.text ++ '<' :: rest) =
      if ∀ l ∈ lines, l.Readable then (contentEvents ('<' :: rest)).map fun es => lines.flatMap Line.events ++ es
      else none := by
  induction lines with
  | nil => simp
  | cons l lines ih =>
    obtain ⟨hregular, hkept, hfree⟩ := h l List.mem_cons_self
    have hrest := ih fun l' hl' => h l' (List.mem_cons_of_mem l hl')
    obtain ⟨more, hmore⟩ : ∃ more, lines.flatMap Line.text ++ '<' :: rest = '<' :: more := by
      cases lines with
      | nil => exact ⟨rest, rfl⟩
      | cons l' lines => exact ⟨_, rfl⟩
    rw [List.flatMap_cons, List.append_assoc, hmore, contentEvents_line hregular hkept hfree, ← hmore, hrest]
    by_cases hl : l.Readable
    · by_cases hlines : ∀ l' ∈ lines, l'.Readable
      · rw [if_pos hl, if_pos hlines, if_pos (List.forall_mem_cons.mpr ⟨hl, hlines⟩), Option.map_map,
          List.flatMap_cons]
        simp only [Function.comp_def, List.append_assoc]
      · rw [if_pos hl, if_neg hlines, if_neg fun hall => hlines (List.forall_mem_cons.mp hall).2]
        rfl
    · rw [if_neg hl, if_neg fun hall => hl (List.forall_mem_cons.mp hall).1]

/-- The entries are read if all their lines can be. -/
theorem contentEvents_entries {entries : List Entry} (h : ∀ e ∈ entries, e.Regular)
    (hmarks : ∀ e ∈ entries, ∀ l ∈ e.lines, l.tag.length + l.printed.length + 4 ≤ elementRoom ∧
      ∀ c ∈ l.printed, c ≠ '<' ∧ c ≠ '&') :
    contentEvents (entries.flatMap Entry.text) =
      if ∀ e ∈ entries, ∀ l ∈ e.lines, l.Readable then some (entries.flatMap Entry.events) else none := by
  induction entries with
  | nil => rfl
  | cons e entries ih =>
    have he := h e List.mem_cons_self
    have hrest := ih (fun e' he' => h e' (List.mem_cons_of_mem e he')) fun e' he' => hmarks e' (List.mem_cons_of_mem e he')
    have hrows : ∀ l ∈ e.lines, l.Regular ∧
        l.tag.length + l.printed.length + 4 ≤ elementRoom ∧ ∀ c ∈ l.printed, c ≠ '<' ∧ c ≠ '&' :=
      fun l hl => ⟨he.lines l hl, hmarks e List.mem_cons_self l hl⟩
    have hlines := contentEvents_lines hrows ('/' :: (e.tag ++ '>' :: '\n' :: entries.flatMap Entry.text))
    have htext : (e :: entries).flatMap Entry.text = '<' :: (e.tag ++ '>' :: '\n' :: (e.lines.flatMap Line.text ++
        '<' :: '/' :: (e.tag ++ '>' :: '\n' :: entries.flatMap Entry.text))) := by
      simp [Entry.text, openLine, closeLine]
    rw [htext, contentEvents_startTag he.name.1, contentEvents_newline, hlines, contentEvents_endTag he.name.1,
      contentEvents_newline, hrest]
    by_cases hgood : ∀ l ∈ e.lines, l.Readable
    · by_cases hall : ∀ e' ∈ entries, ∀ l ∈ e'.lines, l.Readable
      · rw [if_pos hgood, if_pos hall, if_pos (List.forall_mem_cons.mpr ⟨hgood, hall⟩)]
        simp [Entry.events]
      · rw [if_pos hgood, if_neg hall, if_neg fun h => hall (List.forall_mem_cons.mp h).2]
        rfl
    · rw [if_neg hgood, if_neg fun h => hgood (List.forall_mem_cons.mp h).1]
      rfl

/-- The events of entries are balanced, and those of their elements but for line feeds. -/
theorem events_entries (entries : List Entry) :
    balanced [] (entries.flatMap Entry.events) = true ∧
      elementContent 2 0 (entries.flatMap Entry.events) = (entries.map Entry.printed).flatMap Element.events := by
  have hline : ∀ (l : Line) (stack : List CString) (es : List Event), stack ≠ [] →
      balanced stack (l.events ++ es) = balanced stack es ∧
        elementContent 2 1 (l.events ++ es) = childEvents (l.tag, l.printed) ++ elementContent 2 1 es := by
    intro l stack es hstack
    obtain ⟨outer, stack, rfl⟩ := List.exists_cons_of_ne_nil hstack
    rw [Line.events, List.append_assoc, balanced_childEvents, elementContent_childEvents]
    split
    · exact ⟨rfl, rfl⟩
    · exact ⟨rfl, rfl⟩
  have hlines : ∀ (lines : List Line) (tag : CString) (es : List Event),
      balanced [tag] (lines.flatMap Line.events ++ es) = balanced [tag] es ∧
        elementContent 2 1 (lines.flatMap Line.events ++ es) =
          (lines.map fun l => (l.tag, l.printed)).flatMap childEvents ++ elementContent 2 1 es := by
    intro lines tag es
    induction lines with
    | nil => exact ⟨rfl, rfl⟩
    | cons l lines ih =>
      rw [List.flatMap_cons, List.append_assoc, (hline l [tag] _ (by simp)).1, (hline l [tag] _ (by simp)).2, ih.1,
        ih.2, List.map_cons, List.flatMap_cons, List.append_assoc]
      exact ⟨rfl, rfl⟩
  induction entries with
  | nil => exact ⟨rfl, rfl⟩
  | cons e entries ih =>
    have hevents : (e :: entries).flatMap Entry.events = .startTag e.tag :: .char '\n' ::
        (e.lines.flatMap Line.events ++ .endTag e.tag :: .char '\n' :: entries.flatMap Entry.events) := by
      simp [Entry.events]
    constructor
    · rw [hevents, balanced, balanced, (hlines e.lines e.tag _).1, balanced, beq_self_eq_true, Bool.true_and, balanced]
      exact ih.1
    · rw [hevents, elementContent, elementContent, if_pos (by decide), (hlines e.lines e.tag _).2, elementContent,
        elementContent, if_pos (by decide), ih.2]
      simp [Element.events, Entry.printed]

/-- What was recorded is read back exactly if every text is printed as it was recorded and is safe. -/
theorem readsAs_entries_iff {entries : List Entry} (h : ∀ e ∈ entries, e.Regular) :
    ReadsAs (entries.flatMap Entry.text) (entries.map Entry.recorded) ↔
      ∀ e ∈ entries, ∀ l ∈ e.lines, l.printed = l.recorded ∧ Safe l.tag l.printed := by
  obtain ⟨hbalanced, hcontent⟩ := events_entries entries
  constructor
  · intro hreads
    have hmarks := marks_of_readsAs h hreads
    obtain ⟨es, hes, -, hevents⟩ := hreads
    rw [contentEvents_entries h hmarks] at hes
    split at hes
    · rename_i hreadable
      obtain rfl := Option.some.inj hes
      have hsame := events_injective (hcontent.symm.trans hevents)
      intro e he l hl
      have hentry : e.printed = e.recorded := List.map_inj_left.mp hsame e he
      have hchild : (l.tag, l.printed) = (l.tag, l.recorded) :=
        List.map_inj_left.mp (congrArg Element.children hentry) l hl
      obtain ⟨hend, hfits⟩ := hreadable e he l hl
      have hfree := (hmarks e he l hl).2
      exact ⟨(Prod.mk.inj hchild).2, fun hc => (hfree _ hc).1 rfl, fun hc => (hfree _ hc).2 rfl, hend, hfits⟩
    · cases hes
  · intro hsafe
    have hmarks : ∀ e ∈ entries, ∀ l ∈ e.lines, l.tag.length + l.printed.length + 4 ≤ elementRoom ∧
        ∀ c ∈ l.printed, c ≠ '<' ∧ c ≠ '&' := by
      intro e he l hl
      obtain ⟨-, hlt, hamp, -, hfits⟩ := hsafe e he l hl
      refine ⟨by omega, fun c hc => ⟨?_, ?_⟩⟩
      · rintro rfl
        exact hlt hc
      · rintro rfl
        exact hamp hc
    refine ⟨_, ?_, hbalanced, ?_⟩
    · rw [contentEvents_entries h hmarks, if_pos fun e he l hl => ⟨(hsafe e he l hl).2.2.2.1, (hsafe e he l hl).2.2.2.2⟩]
    · rw [hcontent]
      congr 1
      refine List.map_congr_left fun e he => ?_
      rw [Entry.printed, Entry.recorded]
      congr 1
      exact List.map_congr_left fun l hl => by rw [(hsafe e he l hl).1]

end Forward

section Writers

/-- A child with a text. -/
def strLine (tag : CString) (text : Text) : Line := ⟨tag, text.chars, text.chars⟩

/-- A child with a number. -/
def intLine (tag : CString) (printed recorded : ℤ) : Line := ⟨tag, signedDigits printed, signedDigits recorded⟩

/-- A record with its children as they are printed. -/
def TimeoffsetRecord.entry (fmt : TimeFormat) (record : TimeoffsetRecord) : Entry where
  tag := timeChangeTag
  lines := [strLine timeTag (fmt.tostr record.recordTime),
    intLine currentOffsetTag record.timeoffsetSecM.toInt32.toInt record.timeoffsetSecM.toInt,
    strLine timeSourceTag record.timeSrc]

def VideoEventRecord.entry (fmt : TimeFormat) (record : VideoEventRecord) : Entry where
  tag := eventTag
  lines := [strLine timeTag (fmt.tostr record.recordTime), strLine eventNameTag record.digitalName,
    intLine eventValueTag record.digitalValue.toInt record.digitalValue.toInt]

def LocomotiveIdRecord.entry (fmt : TimeFormat) (record : LocomotiveIdRecord) : Entry where
  tag := eventTag
  lines := [strLine timeTag (fmt.tostr record.recordTime), strLine locomotiveIdTag record.locoId]

theorem plainName_tags : PlainName timeTag ∧ PlainName timeChangeTag ∧ PlainName currentOffsetTag ∧
    PlainName timeSourceTag ∧ PlainName eventTag ∧ PlainName eventNameTag ∧ PlainName eventValueTag ∧
    PlainName locomotiveIdTag := by
  unfold PlainName
  decide

theorem strLine_regular {tag : CString} (htag : PlainName tag) (text : Text) : (strLine tag text).Regular :=
  ⟨htag, text.printable, le_rfl, Or.inl rfl⟩

/-- The characters of a number are digits and the sign. -/
theorem signedDigits_char {z : ℤ} {c : Char} (h : c ∈ signedDigits z) :
    isPrintable c = true ∧ mark c = 0 ∧ c ≠ '<' ∧ c ≠ '&' ∧ c ≠ ']' := by
  rcases mem_signedDigits h with hdigit | rfl
  · have hrange := toNat_of_isDigit hdigit
    have hzero : '0'.toNat = 48 := rfl
    have hne : ∀ d : Char, d.isDigit = false → c ≠ d := by
      rintro d hd rfl
      rw [hd] at hdigit
      cases hdigit
    refine ⟨?_, ?_, hne _ rfl, hne _ rfl, hne _ rfl⟩
    · rw [isPrintable, Bool.and_eq_true, decide_eq_true_eq, decide_eq_true_eq]
      omega
    · rw [mark, Char.isAlphanum, hdigit]
      simp
  · decide

theorem weight_signedDigits (z : ℤ) : weight mark (signedDigits z) = 0 := by
  refine List.sum_eq_zero fun n hn => ?_
  obtain ⟨c, hc, rfl⟩ := List.mem_map.mp hn
  exact (signedDigits_char hc).2.1

theorem intLine_regular {tag : CString} (htag : PlainName tag) (printed recorded : ℤ) :
    (intLine tag printed recorded).Regular where
  name := htag
  printable := List.all_eq_true.mpr fun _ hc => (signedDigits_char hc).1
  marks_le := by
    rw [intLine, weight_signedDigits]
    exact Nat.zero_le _
  unmarked := Or.inr fun _ hc => ⟨(signedDigits_char hc).2.2.1, (signedDigits_char hc).2.2.2.1⟩

theorem signedDigits_inj {a b : ℤ} : signedDigits a = signedDigits b ↔ a = b :=
  ⟨fun h => by rw [← atoi_signedDigits a, h, atoi_signedDigits], congrArg signedDigits⟩

/-- A number that is an `int` is safe in a short element. -/
theorem safe_signedDigits {tag : CString} (htag : tag.length ≤ 20) (n : Int32) : Safe tag (signedDigits n.toInt) := by
  have hlength : (signedDigits n.toInt).length ≤ 11 := signedDigits_length_le ⟨n.le_toInt, n.toInt_lt⟩
  refine ⟨fun hc => (signedDigits_char hc).2.2.1 rfl, fun hc => (signedDigits_char hc).2.2.2.1 rfl, fun hend => ?_, ?_⟩
  · exact (signedDigits_char (hend.subset List.mem_cons_self)).2.2.2.2 rfl
  · rw [elementRoom]
    omega

/-- An offset is passed on as it is exactly if it is an `int`. -/
theorem toInt_toInt32_eq_iff (x : Int64) : x.toInt32.toInt = x.toInt ↔ -2 ^ 31 ≤ x.toInt ∧ x.toInt < 2 ^ 31 := by
  constructor
  · intro h
    rw [← h]
    exact ⟨x.toInt32.le_toInt, x.toInt32.toInt_lt⟩
  · rintro ⟨hlow, hhigh⟩
    rw [Int64.toInt_toInt32]
    exact Int.bmod_eq_of_le (by omega) (by omega)

variable {fmt : TimeFormat}

/-- What a list of entries is read back as. -/
theorem readsBackAs_iff {α : Type} (entry : α → Entry) (element : α → Element) (hregular : ∀ a, (entry a).Regular)
    (helement : ∀ a, (entry a).recorded = element a) (hinjective : Function.Injective element) (records : List α) :
    ReadsBackAs (records.flatMap fun a => (entry a).text) element records ↔
      ∀ a ∈ records, ∀ l ∈ (entry a).lines, l.printed = l.recorded ∧ Safe l.tag l.printed := by
  have hregular : ∀ e ∈ records.map entry, e.Regular := List.forall_mem_map.mpr fun a _ => hregular a
  have hentries := readsAs_entries_iff hregular
  rw [List.flatMap_map, List.map_map, List.forall_mem_map] at hentries
  have hrecorded : records.map (Entry.recorded ∘ entry) = records.map element :=
    List.map_congr_left fun a _ => helement a
  rw [hrecorded] at hentries
  rw [← hentries, ReadsBackAs]
  refine and_iff_left_of_imp fun hreads others hothers => ?_
  exact List.map_injective_iff.mpr hinjective (hothers.unique hreads)

theorem TimeoffsetRecord.element_injective : Function.Injective (TimeoffsetRecord.element fmt) := by
  rintro ⟨t, offset, ⟨src, _⟩⟩ ⟨t', offset', ⟨src', _⟩⟩ h
  simp only [TimeoffsetRecord.element, Element.mk.injEq, List.cons.injEq, Prod.mk.injEq, true_and, and_true,
    signedDigits_inj] at h
  obtain ⟨htime, hoffset, rfl⟩ := h
  obtain rfl := fmt.injective (Text.ext htime)
  obtain rfl := Int64.toInt_inj.mp hoffset
  rfl

theorem VideoEventRecord.element_injective : Function.Injective (VideoEventRecord.element fmt) := by
  rintro ⟨t, ⟨name, _⟩, value⟩ ⟨t', ⟨name', _⟩, value'⟩ h
  simp only [VideoEventRecord.element, Element.mk.injEq, List.cons.injEq, Prod.mk.injEq, true_and, and_true,
    signedDigits_inj] at h
  obtain ⟨htime, rfl, hvalue⟩ := h
  obtain rfl := fmt.injective (Text.ext htime)
  obtain rfl := Int32.toInt_inj.mp hvalue
  rfl

theorem LocomotiveIdRecord.element_injective : Function.Injective (LocomotiveIdRecord.element fmt) := by
  rintro ⟨t, ⟨loco, _⟩⟩ ⟨t', ⟨loco', _⟩⟩ h
  simp only [LocomotiveIdRecord.element, Element.mk.injEq, List.cons.injEq, Prod.mk.injEq, true_and, and_true] at h
  obtain ⟨htime, rfl⟩ := h
  obtain rfl := fmt.injective (Text.ext htime)
  rfl

theorem writeTimeoffset_eq (record : TimeoffsetRecord) : writeTimeoffset fmt record = (record.entry fmt).text := by
  simp [writeTimeoffset, TimeoffsetRecord.entry, Entry.text, Line.text, strLine, intLine, getStrElementTag,
    getIntElementTag]

theorem writeVideoEvent_eq (record : VideoEventRecord) : writeVideoEvent fmt record = (record.entry fmt).text := by
  simp [writeVideoEvent, VideoEventRecord.entry, Entry.text, Line.text, strLine, intLine, getStrElementTag,
    getIntElementTag]

theorem writeLocoidEvent_eq (record : LocomotiveIdRecord) : writeLocoidEvent fmt record = (record.entry fmt).text := by
  simp [writeLocoidEvent, LocomotiveIdRecord.entry, Entry.text, Line.text, strLine, getStrElementTag]

/-- The lists are read back as they were recorded exactly if the texts are safe in their elements, and the
offsets are those of an `int`. -/
theorem lists_readBack_iff (fmt : TimeFormat) :
    (∀ records : List TimeoffsetRecord,
      ReadsBackAs (writeTimeoffsetList fmt records) (TimeoffsetRecord.element fmt) records ↔
        ∀ r ∈ records, Safe timeTag (fmt.tostr r.recordTime).chars ∧
          (-2 ^ 31 ≤ r.timeoffsetSecM.toInt ∧ r.timeoffsetSecM.toInt < 2 ^ 31) ∧ Safe timeSourceTag r.timeSrc.chars) ∧
    (∀ records : List VideoEventRecord,
      ReadsBackAs (writeEventList fmt records) (VideoEventRecord.element fmt) records ↔
        ∀ r ∈ records, Safe timeTag (fmt.tostr r.recordTime).chars ∧ Safe eventNameTag r.digitalName.chars) ∧
    (∀ records : List LocomotiveIdRecord,
      ReadsBackAs (writeLocoIDList fmt records) (LocomotiveIdRecord.element fmt) records ↔
        ∀ r ∈ records, Safe timeTag (fmt.tostr r.recordTime).chars ∧ Safe locomotiveIdTag r.locoId.chars) := by
  obtain ⟨htime, hchange, hoffset, hsource, hevent, hname, hvalue, hloco⟩ := plainName_tags
  refine ⟨fun records => ?_, fun records => ?_, fun records => ?_⟩
  · rw [writeTimeoffsetList, funext writeTimeoffset_eq,
      readsBackAs_iff (TimeoffsetRecord.entry fmt) (TimeoffsetRecord.element fmt) (fun a => ⟨hchange, ?_⟩)
      (fun _ => rfl) TimeoffsetRecord.element_injective]
    · refine forall₂_congr fun r _ => ?_
      simp only [TimeoffsetRecord.entry, strLine, intLine, List.forall_mem_cons, List.not_mem_nil, true_and,
        signedDigits_inj, toInt_toInt32_eq_iff, safe_signedDigits (show currentOffsetTag.length ≤ 20 by decide), and_true]
      tauto
    · simp [TimeoffsetRecord.entry, strLine_regular, intLine_regular, htime, hoffset, hsource]
  · rw [writeEventList, funext writeVideoEvent_eq,
      readsBackAs_iff (VideoEventRecord.entry fmt) (VideoEventRecord.element fmt) (fun a => ⟨hevent, ?_⟩)
      (fun _ => rfl) VideoEventRecord.element_injective]
    · refine forall₂_congr fun r _ => ?_
      simp only [VideoEventRecord.entry, strLine, intLine, List.forall_mem_cons, List.not_mem_nil, true_and,
        safe_signedDigits (show eventValueTag.length ≤ 20 by decide), and_true]
      tauto
    · simp [VideoEventRecord.entry, strLine_regular, intLine_regular, htime, hname, hvalue]
  · rw [writeLocoIDList, funext writeLocoidEvent_eq,
      readsBackAs_iff (LocomotiveIdRecord.entry fmt) (LocomotiveIdRecord.element fmt) (fun a => ⟨hevent, ?_⟩)
      (fun _ => rfl) LocomotiveIdRecord.element_injective]
    · refine forall₂_congr fun r _ => ?_
      simp only [LocomotiveIdRecord.entry, strLine, List.forall_mem_cons, List.not_mem_nil, true_and]
      tauto
    · simp [LocomotiveIdRecord.entry, strLine_regular, htime, hloco]

/-- Times as their seconds. -/
def secondsFormat : TimeFormat where
  tostr t := ⟨Nat.toDigits 10 t.toNat, List.all_eq_true.mpr fun c hc => by
    have hrange := toNat_of_isDigit (isDigit_toDigits _ c hc)
    have hzero : '0'.toNat = 48 := rfl
    rw [isPrintable, Bool.and_eq_true, decide_eq_true_eq, decide_eq_true_eq]
    omega⟩
  injective t t' h := by
    have hvalue := congrArg decimalValue (congrArg Text.chars h)
    rw [decimalValue_toDigits, decimalValue_toDigits] at hvalue
    exact UInt32.toNat_inj.mp hvalue

/-- A locomotive id with an ampersand is no content, and an offset of 2^32 seconds is read as zero. -/
theorem not_lists_readBack :
    ¬ ReadsBackAs (writeLocoIDList secondsFormat [⟨7, ⟨['A', '&', 'B'], by decide⟩⟩])
        (LocomotiveIdRecord.element secondsFormat) [⟨7, ⟨['A', '&', 'B'], by decide⟩⟩] ∧
      ¬ ReadsBackAs (writeTimeoffsetList secondsFormat [⟨7, 4294967296, ⟨['G', 'P', 'S'], by decide⟩⟩])
        (TimeoffsetRecord.element secondsFormat) [⟨7, 4294967296, ⟨['G', 'P', 'S'], by decide⟩⟩] := by
  constructor
  · rintro ⟨⟨es, hes, -⟩, -⟩
    have hnone : contentEvents (writeLocoIDList secondsFormat [⟨7, ⟨['A', '&', 'B'], by decide⟩⟩]) = none := by
      decide +kernel
    rw [hnone] at hes
    cases hes
  · rintro ⟨⟨es, hes, -, hevents⟩, -⟩
    have hread : (contentEvents (writeTimeoffsetList secondsFormat
        [⟨7, 4294967296, ⟨['G', 'P', 'S'], by decide⟩⟩])).map (elementContent 2 0) ≠
        some (Element.events (TimeoffsetRecord.element secondsFormat ⟨7, 4294967296, ⟨['G', 'P', 'S'], by decide⟩⟩)) := by
      decide +kernel
    rw [hes, Option.map_some, hevents] at hread
    simp at hread

end Writers

end RecordingAgent.Metacollector
