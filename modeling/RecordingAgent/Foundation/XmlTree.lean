import Mathlib.Data.Bool.AllAny
import RecordingAgent.Foundation.FieldMemory
import RecordingAgent.Foundation.XmlContent

/-!
# Documents as trees

A reader of content which knows by their names the elements that have elements inside: white space between those says
nothing, and an element of another name has only text. The reader keeps the elements which are open, and is a function,
so a text stands for one list of nodes at most. A piece of text that lays out nodes does so in front of whatever
follows, so a document is proved to be read piece by piece.
-/

namespace Foundation.Xml

/-- An element of a document, with its text or with the elements inside. -/
inductive Node
  | text (tag : CString) (chars : CString)
  | branch (tag : CString) (children : List Node)

/-- An element which is open, with what was found inside so far. -/
structure Frame where
  tag : CString
  isBranch : Bool
  nodes : List Node
  chars : CString

namespace Frame

/-- What is around the elements of a text. -/
def outermost : Frame := ⟨[], true, [], []⟩

/-- The element when it is closed. -/
def node (f : Frame) : Node := if f.isBranch then .branch f.tag f.nodes else .text f.tag f.chars

/-- The element with further elements inside. -/
def add (f : Frame) (ns : List Node) : Frame := { f with nodes := f.nodes ++ ns }

@[simp] theorem add_nil (f : Frame) : f.add [] = f := by rw [add, List.append_nil]

theorem add_add (f : Frame) (ns ms : List Node) : (f.add ns).add ms = f.add (ns ++ ms) := by
  rw [add, add, add, List.append_assoc]

end Frame

variable {branching : CString → Bool}

/-- The nodes of events behind which the outermost frame is complete, inside a frame and those around it. -/
def readNodes (branching : CString → Bool) : Frame → List Frame → List Event → Option (List Node)
  | top, [], [] => some top.nodes
  | _, _ :: _, [] => none
  | top, stack, .startTag tag :: es =>
    if top.isBranch then readNodes branching ⟨tag, branching tag, [], []⟩ (top :: stack) es else none
  | top, stack, .char c :: es =>
    if top.isBranch then if isSpace c then readNodes branching top stack es else none
    else readNodes branching { top with chars := top.chars ++ [c] } stack es
  | _, [], .endTag _ :: _ => none
  | top, outer :: stack, .endTag tag :: es =>
    if tag = top.tag then readNodes branching (outer.add [top.node]) stack es else none

/-- The nodes of a text, if it is content with elements as their names say. -/
def contentNodes (branching : CString → Bool) (text : CString) : Option (List Node) :=
  (contentEvents text).bind (readNodes branching .outermost [])

/-- Markup in the text has no processing instructions, and the text does not end in it. -/
structure Tagged (text : CString) : Prop where
  nul_notMem : nul ∉ text
  markup : ∀ before behind, text = before ++ '<' :: behind → ∃ c rest, behind = c :: rest ∧ c ≠ '?'

/-- The text is a piece of content that stands for the nodes, in front of any other. -/
structure Lays (branching : CString → Bool) (text : CString) (ns : List Node) : Prop where
  tagged : Tagged text
  reads : ∃ es, (∀ rest, contentEvents (text ++ rest) = (contentEvents rest).map (es ++ ·)) ∧
    ∀ top stack more, top.isBranch = true →
      readNodes branching top stack (es ++ more) = readNodes branching (top.add ns) stack more

/-- A start tag, and an end tag. -/
def startTagText (tag : CString) : CString := '<' :: (tag ++ ['>'])
def endTagText (tag : CString) : CString := '<' :: '/' :: (tag ++ ['>'])

/-- Character data which stands for itself. -/
structure CharData (text : CString) : Prop where
  chars : ∀ c ∈ text, c ≠ '<' ∧ c ≠ '&' ∧ isChar c = true
  cdataEnd : ¬ cdataEnd <:+: text

instance (text : CString) : Decidable (CharData text) :=
  decidable_of_iff ((text.all fun c => c ≠ '<' ∧ c ≠ '&' ∧ isChar c = true) = true ∧ ¬ cdataEnd <:+: text)
    ⟨fun h => ⟨List.all_iff_forall_prop.mp h.1, h.2⟩, fun h => ⟨List.all_iff_forall_prop.mpr h.chars, h.cdataEnd⟩⟩

section Tagged

variable {text text' : CString} {tag : CString}

/-- No processing instruction begins in the text. -/
theorem Tagged.not_infix (h : Tagged text) (target : CString) : ¬ '<' :: '?' :: target <:+: text := by
  rintro ⟨before, behind, rfl⟩
  obtain ⟨c, rest, hbehind, hc⟩ := h.markup before ('?' :: target ++ behind) (by simp)
  exact hc (List.cons.inj hbehind).1.symm

theorem Tagged.append (h : Tagged text) (h' : Tagged text') : Tagged (text ++ text') := by
  refine ⟨fun hnul => (List.mem_append.mp hnul).elim h.nul_notMem h'.nul_notMem, fun before behind htext => ?_⟩
  obtain ⟨more, hbefore, hbehind⟩ | ⟨more, hfront, hmore⟩ := List.append_eq_append_iff.mp htext
  · exact h'.markup more behind hbehind
  · cases more with
    | nil => exact h'.markup [] behind hmore.symm
    | cons d more =>
      obtain ⟨rfl, rfl⟩ := List.cons.inj hmore
      obtain ⟨c, rest, rfl, hc⟩ := h.markup before more hfront
      exact ⟨c, rest ++ text', rfl, hc⟩

/-- Without markup there is nothing to check. -/
theorem tagged_of_notMem (hnul : nul ∉ text) (hlt : '<' ∉ text) : Tagged text := by
  refine ⟨hnul, fun before behind htext => absurd ?_ hlt⟩
  rw [htext]
  exact List.mem_append_right _ List.mem_cons_self

theorem CharData.tagged (h : CharData text) : Tagged text :=
  tagged_of_notMem (fun hnul => absurd (h.chars nul hnul).2.2 (by decide)) fun hlt => absurd rfl (h.chars '<' hlt).1

/-- A tag whose first character does not make it an instruction. -/
theorem tagged_tag {first : Char} {inside : CString} (hfirst : first ≠ '?') (hnul : nul ∉ first :: inside)
    (hlt : '<' ∉ first :: inside) : Tagged ('<' :: first :: inside) := by
  refine ⟨fun h => (List.mem_cons.mp h).elim (by decide) hnul, fun before behind htext => ?_⟩
  cases before with
  | nil => exact ⟨first, inside, (List.cons.inj htext).2.symm, hfirst⟩
  | cons d before =>
    obtain ⟨-, htext⟩ := List.cons.inj htext
    refine absurd ?_ hlt
    rw [htext]
    exact List.mem_append_right _ List.mem_cons_self

theorem of_isName (h : isName tag = true) : (∀ c ∈ tag.head?, c ≠ '?') ∧ nul ∉ tag ∧ '<' ∉ tag := by
  have hall : ∀ c ∈ tag, isNameStart c = true ∨ isNameChar c = true := by
    cases tag with
    | nil => cases h
    | cons d tag =>
      obtain ⟨hstart, hrest⟩ := Bool.and_eq_true_iff.mp h
      exact List.forall_mem_cons.mpr ⟨Or.inl hstart, fun c hc => Or.inr (List.all_eq_true.mp hrest c hc)⟩
  refine ⟨fun c hc hquestion => ?_, fun hnul => absurd (hall nul hnul) (by decide),
    fun hlt => absurd (hall '<' hlt) (by decide)⟩
  rw [hquestion] at hc
  exact absurd (hall '?' (List.mem_of_mem_head? hc)) (by decide)

theorem tagged_startTagText (h : isName tag = true) : Tagged (startTagText tag) := by
  obtain ⟨hfirst, hnul, hlt⟩ := of_isName h
  cases tag with
  | nil => cases h
  | cons c tag =>
    have hmem : ∀ d, d ∈ c :: (tag ++ ['>']) → d ∈ c :: tag ∨ d ∈ ['>'] := fun d hd => List.mem_append.mp hd
    exact tagged_tag (hfirst c rfl) (fun hd => (hmem nul hd).elim hnul (by decide)) fun hd =>
      (hmem '<' hd).elim hlt (by decide)

theorem tagged_endTagText (h : isName tag = true) : Tagged (endTagText tag) := by
  obtain ⟨-, hnul, hlt⟩ := of_isName h
  refine tagged_tag (by decide) (fun hmem => ?_) fun hmem => ?_
  · exact (List.mem_cons.mp hmem).elim (by decide) fun hmem => (List.mem_append.mp hmem).elim hnul (by decide)
  · exact (List.mem_cons.mp hmem).elim (by decide) fun hmem => (List.mem_append.mp hmem).elim hlt (by decide)

end Tagged

section Lays

variable {text text' : CString} {ns ns' : List Node} {tag : CString}

/-- Laid out nodes are what is read. -/
theorem Lays.contentNodes (h : Lays branching text ns) : contentNodes branching text = some ns := by
  obtain ⟨es, hevents, hread⟩ := h.reads
  have hempty : contentEvents [] = some [] := rfl
  have htext := hevents []
  have hnodes := hread .outermost [] [] rfl
  rw [List.append_nil, hempty, Option.map_some, List.append_nil] at htext
  rw [List.append_nil] at hnodes
  rw [Xml.contentNodes, htext, Option.bind_some, hnodes, readNodes]
  rfl

theorem Lays.nil (branching : CString → Bool) : Lays branching [] [] where
  tagged := tagged_of_notMem List.not_mem_nil List.not_mem_nil
  reads := ⟨[], fun _ => Option.map_id'.symm, fun top _ _ _ => by rw [Frame.add_nil]; rfl⟩

theorem Lays.append (h : Lays branching text ns) (h' : Lays branching text' ns') :
    Lays branching (text ++ text') (ns ++ ns') := by
  obtain ⟨es, hevents, hread⟩ := h.reads
  obtain ⟨es', hevents', hread'⟩ := h'.reads
  refine ⟨h.tagged.append h'.tagged, es ++ es', fun rest => ?_, fun top stack more htop => ?_⟩
  · rw [List.append_assoc, hevents, hevents', Option.map_map]
    exact congrArg (fun f => (contentEvents rest).map f) (funext fun es'' => (List.append_assoc es es' es'').symm)
  · have hadded : (top.add ns).isBranch = true := htop
    rw [List.append_assoc, hread top stack _ htop, hread' _ stack more hadded, Frame.add_add]

/-- The layouts of members one behind the other. -/
theorem Lays.flatMap {α : Type*} {l : List α} {print : α → CString} {nodes : α → List Node}
    (h : ∀ a ∈ l, Lays branching (print a) (nodes a)) : Lays branching (l.flatMap print) (l.flatMap nodes) := by
  induction l with
  | nil => exact Lays.nil branching
  | cons a l ih =>
    rw [List.flatMap_cons, List.flatMap_cons]
    exact (h a List.mem_cons_self).append (ih fun b hb => h b (List.mem_cons_of_mem a hb))

theorem contentEvents_space {c : Char} (hc : isSpace c = true) (rest : CString) :
    contentEvents (c :: rest) = (contentEvents rest).map fun es => .char c :: es := by
  have hscan : scan (.data 0) (c :: rest) = (scan (.data 0) rest).map fun ts => ⟨[c], [.char c]⟩ :: ts := by
    simp only [isSpace, Bool.or_eq_true, beq_iff_eq] at hc
    obtain ((rfl | rfl) | rfl) | rfl := hc <;> rfl
  rw [contentEvents, hscan, contentEvents, Option.map_map, Option.map_map]
  rfl

/-- White space between elements says nothing. -/
theorem Lays.spaces (branching : CString → Bool) {blanks : CString} (h : ∀ c ∈ blanks, isSpace c = true) :
    Lays branching blanks [] := by
  induction blanks with
  | nil => exact Lays.nil branching
  | cons c blanks ih =>
    have hc : isSpace c = true := h c List.mem_cons_self
    have hspace : Lays branching [c] [] := by
      refine ⟨tagged_of_notMem (fun hnul => ?_) fun hlt => ?_, [.char c], contentEvents_space hc, fun top stack more htop => ?_⟩
      · rw [← List.mem_singleton.mp hnul] at hc
        exact absurd hc (by decide)
      · rw [← List.mem_singleton.mp hlt] at hc
        exact absurd hc (by decide)
      · rw [Frame.add_nil, List.singleton_append, readNodes, if_pos htop, if_pos hc]
    exact hspace.append (ih fun d hd => h d (List.mem_cons_of_mem c hd))

theorem Lays.newline (branching : CString → Bool) : Lays branching ['\n'] [] :=
  Lays.spaces branching (List.all_eq_true.mp (by decide))

/-- An element around nodes that are laid out. -/
theorem Lays.branch (h : Lays branching text ns) (htag : isName tag = true) (hbranch : branching tag = true) :
    Lays branching (startTagText tag ++ text ++ endTagText tag) [.branch tag ns] := by
  obtain ⟨es, hevents, hread⟩ := h.reads
  have htagged := ((tagged_startTagText htag).append h.tagged).append (tagged_endTagText htag)
  refine ⟨htagged, .startTag tag :: (es ++ [.endTag tag]), fun rest => ?_, fun top stack more htop => ?_⟩
  · have htext : startTagText tag ++ text ++ endTagText tag ++ rest =
        '<' :: (tag ++ '>' :: (text ++ '<' :: '/' :: (tag ++ '>' :: rest))) := by
      simp [startTagText, endTagText]
    rw [htext, contentEvents_startTag htag, hevents, contentEvents_endTag htag, Option.map_map, Option.map_map]
    refine congrArg (fun f => (contentEvents rest).map f) (funext fun es' => ?_)
    simp
  · have hinner := hread ⟨tag, branching tag, [], []⟩ (top :: stack) (.endTag tag :: more) hbranch
    have hnode : (Frame.add ⟨tag, branching tag, [], []⟩ ns).node = .branch tag ns := by
      rw [Frame.node, Frame.add, if_pos hbranch]
      rfl
    rw [List.cons_append, readNodes, if_pos htop, List.append_assoc, List.singleton_append, hinner, readNodes, hnode]
    exact if_pos rfl

/-- Characters inside an element which has only text. -/
theorem readNodes_chars (branching : CString → Bool) (tag : CString) (ns : List Node) (read chars : CString)
    (stack : List Frame) (more : List Event) :
    readNodes branching ⟨tag, false, ns, read⟩ stack (chars.map Event.char ++ more) =
      readNodes branching ⟨tag, false, ns, read ++ chars⟩ stack more := by
  induction chars generalizing read with
  | nil => rw [List.append_nil]; rfl
  | cons c chars ih =>
    rw [List.map_cons, List.cons_append, readNodes, if_neg Bool.false_ne_true]
    refine (ih (read ++ [c])).trans ?_
    rw [List.append_assoc]
    rfl

/-- An element with text. -/
theorem Lays.leaf (htag : isName tag = true) (hbranch : branching tag = false) (h : CharData text) :
    Lays branching (startTagText tag ++ text ++ endTagText tag) [.text tag text] := by
  have htagged := ((tagged_startTagText htag).append h.tagged).append (tagged_endTagText htag)
  refine ⟨htagged, .startTag tag :: (text.map .char ++ [.endTag tag]), fun rest => ?_, fun top stack more htop => ?_⟩
  · have htext : startTagText tag ++ text ++ endTagText tag ++ rest =
        '<' :: (tag ++ '>' :: (text ++ '<' :: '/' :: (tag ++ '>' :: rest))) := by
      simp [startTagText, endTagText]
    rw [htext, contentEvents_startTag htag, contentEvents_chars h.chars, if_neg h.cdataEnd, contentEvents_endTag htag,
      Option.map_map, Option.map_map]
    refine congrArg (fun f => (contentEvents rest).map f) (funext fun es' => ?_)
    simp
  · have hinner := readNodes_chars branching tag [] [] text (top :: stack) (.endTag tag :: more)
    rw [List.cons_append, readNodes, if_pos htop, hbranch, List.append_assoc, List.singleton_append, hinner, readNodes]
    exact if_pos rfl

end Lays

/-- Reading a piece of text takes a reader from the first open elements to the second. -/
def Takes (branching : CString → Bool) (text : CString) (before after : Frame × List Frame) : Prop :=
  ∃ es, (∀ rest, contentEvents (text ++ rest) = (contentEvents rest).map (es ++ ·)) ∧
    ∀ more, readNodes branching before.1 before.2 (es ++ more) = readNodes branching after.1 after.2 more

section Takes

variable {text text' tag : CString} {top outer : Frame} {stack : List Frame} {before between after : Frame × List Frame}

theorem Takes.nil (branching : CString → Bool) (before : Frame × List Frame) : Takes branching [] before before :=
  ⟨[], fun _ => Option.map_id'.symm, fun _ => rfl⟩

theorem Lays.takes {ns : List Node} (h : Lays branching text ns) (htop : top.isBranch = true) :
    Takes branching text (top, stack) (top.add ns, stack) := by
  obtain ⟨es, hevents, hread⟩ := h.reads
  exact ⟨es, hevents, fun more => hread top stack more htop⟩

theorem Takes.append (h : Takes branching text before between) (h' : Takes branching text' between after) :
    Takes branching (text ++ text') before after := by
  obtain ⟨es, hevents, hread⟩ := h
  obtain ⟨es', hevents', hread'⟩ := h'
  refine ⟨es ++ es', fun rest => ?_, fun more => ?_⟩
  · rw [List.append_assoc, hevents, hevents', Option.map_map]
    exact congrArg (fun f => (contentEvents rest).map f) (funext fun es'' => (List.append_assoc es es' es'').symm)
  · rw [List.append_assoc, hread, hread']

theorem Takes.startTag (htag : isName tag = true) (hbranch : branching tag = true) (htop : top.isBranch = true) :
    Takes branching (startTagText tag) (top, stack) (⟨tag, true, [], []⟩, top :: stack) := by
  refine ⟨[.startTag tag], fun rest => ?_, fun more => ?_⟩
  · have htext : startTagText tag ++ rest = '<' :: (tag ++ '>' :: rest) := by simp [startTagText]
    rw [htext, contentEvents_startTag htag]
    rfl
  · rw [List.singleton_append, readNodes, if_pos htop, hbranch]

theorem contentEvents_endTagText (htag : isName tag = true) (rest : CString) :
    contentEvents (endTagText tag ++ rest) = (contentEvents rest).map fun es => .endTag tag :: es := by
  have htext : endTagText tag ++ rest = '<' :: '/' :: (tag ++ '>' :: rest) := by simp [endTagText]
  rw [htext, contentEvents_endTag htag]

theorem Takes.endTag (htag : isName tag = true) (htop : top.tag = tag) :
    Takes branching (endTagText tag) (top, outer :: stack) (outer.add [top.node], stack) := by
  refine ⟨[.endTag tag], fun rest => contentEvents_endTagText htag rest, fun more => ?_⟩
  rw [List.singleton_append, readNodes]
  exact if_pos htop.symm

/-- A text behind which only the outermost elements are open can be read. -/
theorem Takes.contentNodes (h : Takes branching text (.outermost, []) (top, [])) :
    contentNodes branching text = some top.nodes := by
  obtain ⟨es, hevents, hread⟩ := h
  have hempty : contentEvents [] = some [] := rfl
  have htext := hevents []
  have hnodes := hread []
  rw [List.append_nil, hempty, Option.map_some, List.append_nil] at htext
  rw [List.append_nil] at hnodes
  rw [Xml.contentNodes, htext, Option.bind_some, hnodes, readNodes]

/-- The end of an element which is not the innermost open one cannot be read. -/
theorem Takes.contentNodes_eq_none (h : Takes branching text (.outermost, []) (top, outer :: stack))
    (htag : isName tag = true) (htop : tag ≠ top.tag) (rest : CString) :
    Xml.contentNodes branching (text ++ (endTagText tag ++ rest)) = none := by
  obtain ⟨es, hevents, hread⟩ := h
  rw [Xml.contentNodes, hevents, contentEvents_endTagText htag]
  cases contentEvents rest with
  | none => rfl
  | some more =>
    rw [Option.map_some, Option.map_some, Option.bind_some, hread, readNodes]
    exact if_neg htop

end Takes

end Foundation.Xml
