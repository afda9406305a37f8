import RecordingAgent.Download.CollectorCommand
import RecordingAgent.Download.Maindata

/-!
# The metadata of a download as a document

The metadata of a download is printed piece by piece: its segments with their chunks, the main data, and what the
collector wrote. The document is read as a tree with just these parts exactly if the last chunk which was found is
listed; otherwise a segment stays open, and the whole document cannot be read.
-/

namespace RecordingAgent.Download

open Foundation Foundation.Xml
open RecordingAgent.Metacollector

variable {w : ℕ}

/-- The names of the elements. -/
def downloadTag : CString := "download".toList
def segmentsTag : CString := "segments".toList
def segmentTag : CString := "segment".toList
def chunksTag : CString := "chunks".toList
def chunkTag : CString := "chunk".toList
def nameTag : CString := "name".toList
def signatureTag : CString := "signature".toList
def maindataTag : CString := "maindata".toList

/-- A tag behind blanks, and an element with text. -/
def openingLine (indent : ℕ) (tag : CString) : CString := List.replicate indent ' ' ++ startTagText tag ++ ['\n']
def closingLine (indent : ℕ) (tag : CString) : CString := List.replicate indent ' ' ++ endTagText tag ++ ['\n']
def textLine (indent : ℕ) (tag value : CString) : CString :=
  List.replicate indent ' ' ++ (startTagText tag ++ value ++ endTagText tag) ++ ['\n']

/-- `metadata_start` behind its declaration, and `metadata_segments_start`, which `init_meta_file` prints. -/
def metadataStart : CString := '\n' :: openingLine 1 downloadTag
def metadataSegmentsStart : CString := openingLine 3 segmentsTag

/-- `metadata_segments_end` and `metadata_end` -/
def metadataSegmentsEnd : CString := closingLine 3 segmentsTag
def metadataEnd : CString := closingLine 0 downloadTag

/-- `metadata_video_segment_start`, `metadata_video_chunk` and `metadata_video_segment` -/
def MetaItem.text (epochToString : BitVec 64 → CString) : MetaItem → CString
  | .segmentStart => openingLine 8 segmentTag ++ openingLine 13 chunksTag
  | .chunk name signature =>
    openingLine 17 chunkTag ++ textLine 21 nameTag name ++ textLine 21 signatureTag signature ++ closingLine 18 chunkTag
  | .segmentEnd startTime endTime =>
    closingLine 13 chunksTag ++ textLine 13 startTimeTag (epochToString startTime) ++
      textLine 13 endTimeTag (epochToString endTime) ++ closingLine 9 segmentTag

/-- The metadata file of an attempt when it is closed. -/
def Attempt.metadataXml (a : Attempt w) (src : MaindataSource) (c : Collector) (epochToString : BitVec 64 → CString)
    (drive : ℕ) (req : Request w) : CString :=
  xmlDeclaration ++ (metadataStart ++ metadataSegmentsStart ++ (a.segments req).flatMap (MetaItem.text epochToString) ++
    metadataSegmentsEnd ++ (a.maindata src req).text ++ (getMetadataFromDrive c (req.adjust (a.found req)) drive).2 ++
    metadataEnd)

/-- The elements which have elements inside, in the document and in what the collector writes. -/
def downloadBranching (tag : CString) : Bool :=
  ([downloadTag, segmentsTag, segmentTag, chunksTag, chunkTag, maindataTag] ++ branchTags).contains tag

theorem knowsNames_downloadBranching : KnowsNames downloadBranching := ⟨by decide, by decide⟩

/-- A stretch of the listed chunks with the times of its segment. -/
structure Segment where
  chunks : List Chunk
  startTime : BitVec 64
  endTime : BitVec 64

/-- The element of a listed chunk. -/
def Chunk.node (c : Chunk) : Node :=
  .branch chunkTag [.text nameTag (lastName (c.path.getD [])), .text signatureTag c.signature]

/-- The element of a segment. -/
def Segment.node (epochToString : BitVec 64 → CString) (s : Segment) : Node :=
  .branch segmentTag [.branch chunksTag (s.chunks.map Chunk.node), .text startTimeTag (epochToString s.startTime),
    .text endTimeTag (epochToString s.endTime)]

/-- The segments list the chunks one after the other. A segment ends with the time of its last chunk, and no other chunk
in it has a gap behind it. -/
def Divides (sys : DownloadSystem) (segments : List Segment) (chunks : List Chunk) : Prop :=
  (segments.map Segment.chunks).flatten = chunks ∧ ∀ s ∈ segments, ∃ before last,
    s.chunks = before ++ [last] ∧ (∀ c ∈ before, c.gap = false) ∧ s.endTime = last.endTime sys

/-- The fields of the main data as they are printed. -/
def Maindata.fields (d : Maindata) : List (CString × CString) :=
  [("serial".toList, d.serial), ("locoid".toList, d.locoid), ("name".toList, d.name), ("model".toList, d.model),
    ("segment_count".toList, Nat.toDigits 10 d.segmentCount.toNat), ("starttime".toList, d.stattime),
    ("endtime".toList, d.endtime), ("starttimeoffset".toList, signedDigits d.starttimeoffset ++ ".000000".toList),
    ("gpsformat".toList, d.gpsformat), ("mount_type".toList, Nat.toDigits 10 d.mountType.toNat),
    ("resolution".toList, d.resolution), ("compression".toList, d.compression), ("frame_rate".toList, d.frameRate),
    ("signature".toList, d.signature)]

/-- The texts among them which are no numbers. -/
def Maindata.texts (d : Maindata) : List CString :=
  [d.serial, d.locoid, d.name, d.model, d.stattime, d.endtime, d.signature]

/-- The element of the main data. -/
def Maindata.node (d : Maindata) : Node := .branch maindataTag (d.fields.map fun field => .text field.1 field.2)

theorem maindataLine_eq (tag : String) (value : CString) : maindataLine tag value = textLine 9 tag.toList value := by
  have hparts : ∀ front middle back : CString, front = List.replicate 9 ' ' ++ ['<'] → middle = ['<', '/'] →
      back = ['>', '\n'] →
      front ++ tag.toList ++ '>' :: value ++ middle ++ tag.toList ++ back = textLine 9 tag.toList value := by
    intro front middle back hfront hmiddle hback
    simp [textLine, startTagText, endTagText, hfront, hmiddle, hback]
  exact hparts _ _ _ (by decide) (by decide) (by decide)

/-- The main data are printed as lines in an element. -/
theorem Maindata.text_eq (d : Maindata) :
    d.text = openingLine 3 maindataTag ++ (d.fields.flatMap fun field => textLine 9 field.1 field.2) ++
      (closingLine 5 maindataTag ++ [' ']) := by
  have hfront : "   <maindata>\n".toList = openingLine 3 maindataTag := by decide
  have hback : "     </maindata>\n ".toList = closingLine 5 maindataTag ++ [' '] := by decide
  -- no equation is made for the literals in the definition
  delta Maindata.text
  simp only [maindataLine_eq, fields, hfront, hback, List.flatMap_cons, List.flatMap_nil, List.append_assoc,
    List.nil_append]

section Lines

variable {branching : CString → Bool} {tag value : CString} {top outer : Frame} {stack : List Frame}

theorem Takes.spaces {blanks : CString} (h : ∀ c ∈ blanks, isSpace c = true) (htop : top.isBranch = true) :
    Takes branching blanks (top, stack) (top, stack) := by
  have htakes : Takes branching blanks (top, stack) (top.add [], stack) := (Lays.spaces branching h).takes htop
  rwa [Frame.add_nil] at htakes

theorem space_replicate (indent : ℕ) : ∀ c ∈ List.replicate indent ' ', isSpace c = true := fun c hc => by
  rw [List.eq_of_mem_replicate hc]
  rfl

theorem lays_textLine (indent : ℕ) (htag : isName tag = true) (hleaf : branching tag = false) (hvalue : CharData value) :
    Lays branching (textLine indent tag value) [.text tag value] :=
  ((Lays.spaces branching (space_replicate indent)).append (Lays.leaf htag hleaf hvalue)).append
    (Lays.newline branching)

theorem takes_openingLine (indent : ℕ) (htag : isName tag = true) (hbranch : branching tag = true)
    (htop : top.isBranch = true) :
    Takes branching (openingLine indent tag) (top, stack) (⟨tag, true, [], []⟩, top :: stack) :=
  ((Takes.spaces (space_replicate indent) htop).append (Takes.startTag htag hbranch htop)).append
    (Takes.spaces (List.all_eq_true.mp (by decide)) rfl)

theorem takes_closingLine (indent : ℕ) (htag : isName tag = true) (htop : top.isBranch = true) (hsame : top.tag = tag)
    (houter : outer.isBranch = true) :
    Takes branching (closingLine indent tag) (top, outer :: stack) (outer.add [top.node], stack) :=
  ((Takes.spaces (space_replicate indent) htop).append (Takes.endTag htag hsame)).append
    (Takes.spaces (List.all_eq_true.mp (by decide)) houter)

/-- An element around lines. -/
theorem lays_element {text : CString} {ns : List Node} (indent indent' : ℕ) (htag : isName tag = true)
    (hbranch : branching tag = true) (h : Lays branching text ns) :
    Lays branching (openingLine indent tag ++ text ++ closingLine indent' tag) [.branch tag ns] := by
  have hblanks : ∀ n, Lays branching (List.replicate n ' ') [] := fun n => Lays.spaces branching (space_replicate n)
  have hinner : Lays branching (['\n'] ++ text ++ List.replicate indent' ' ') ([] ++ ns ++ []) :=
    ((Lays.newline branching).append h).append (hblanks indent')
  have hlays := ((hblanks indent).append (hinner.branch htag hbranch)).append (Lays.newline branching)
  simp only [List.nil_append, List.append_nil] at hlays
  simp only [openingLine, closingLine, List.append_assoc] at hlays ⊢
  exact hlays

end Lines

/-! ## Reading the segments -/

section Reading

variable (epochToString : BitVec 64 → CString)

/-- The segments which are finished. -/
def segmentsFrame (finished : List Segment) : Frame :=
  ⟨segmentsTag, true, finished.map (Segment.node epochToString), []⟩

/-- What is open between the segments, and while chunks of a segment are listed. -/
def openAfter (finished : List Segment) : Option (List Chunk) → Frame × List Frame
  | none => (segmentsFrame epochToString finished, [⟨downloadTag, true, [], []⟩, .outermost])
  | some chunks =>
    (⟨chunksTag, true, chunks.map Chunk.node, []⟩,
      [⟨segmentTag, true, [], []⟩, segmentsFrame epochToString finished, ⟨downloadTag, true, [], []⟩, .outermost])

/-- The texts of a listed chunk can be read. -/
def Chunk.Legible (c : Chunk) : Prop := CharData (lastName (c.path.getD [])) ∧ CharData c.signature

instance (c : Chunk) : Decidable c.Legible := inferInstanceAs (Decidable (_ ∧ _))

variable {epochToString} {finished : List Segment} {chunks : List Chunk}

/-- A reader knows the names of the elements of the segments. -/
theorem downloadNames : (∀ tag ∈ [downloadTag, segmentsTag, segmentTag, chunksTag, chunkTag, maindataTag],
    isName tag = true ∧ downloadBranching tag = true) ∧
    ∀ tag ∈ [nameTag, signatureTag, startTimeTag, endTimeTag], isName tag = true ∧ downloadBranching tag = false := by
  decide

theorem takes_segmentStart (finished : List Segment) : Takes downloadBranching
    (MetaItem.text epochToString .segmentStart) (openAfter epochToString finished none)
      (openAfter epochToString finished (some [])) := by
  obtain ⟨hsegment, hsegment'⟩ := downloadNames.1 segmentTag (by decide)
  obtain ⟨hchunks, hchunks'⟩ := downloadNames.1 chunksTag (by decide)
  exact (takes_openingLine 8 hsegment hsegment' rfl).append (takes_openingLine 13 hchunks hchunks' rfl)

/-- A listed chunk is an element of the open segment. -/
theorem takes_entry {c : Chunk} {path : CString} (hpath : c.path = some path) (hlegible : c.Legible)
    (finished : List Segment) (chunks : List Chunk) : Takes downloadBranching (MetaItem.text epochToString (c.entry path))
      (openAfter epochToString finished (some chunks)) (openAfter epochToString finished (some (chunks ++ [c]))) := by
  obtain ⟨hchunk, hchunk'⟩ := downloadNames.1 chunkTag (by decide)
  obtain ⟨hname, hname'⟩ := downloadNames.2 nameTag (by decide)
  obtain ⟨hsignature, hsignature'⟩ := downloadNames.2 signatureTag (by decide)
  have hlays := lays_element 17 18 hchunk hchunk'
    ((lays_textLine 21 hname hname' hlegible.1).append (lays_textLine 21 hsignature hsignature' hlegible.2))
  have htakes : Takes downloadBranching _ (openAfter epochToString finished (some chunks)) _ := hlays.takes rfl
  have hnode : c.node = .branch chunkTag ([.text nameTag (lastName (c.path.getD []))] ++ [.text signatureTag c.signature]) :=
    rfl
  rw [← List.append_assoc, ← hnode, hpath] at htakes
  have hopen : openAfter epochToString finished (some (chunks ++ [c])) =
      ((openAfter epochToString finished (some chunks)).1.add [c.node],
        (openAfter epochToString finished (some chunks)).2) := by
    simp only [openAfter, List.map_append]
    rfl
  rw [hopen]
  exact htakes

/-- The end of a segment. -/
theorem takes_segmentEnd (htimes : ∀ t, CharData (epochToString t)) (finished : List Segment) (chunks : List Chunk)
    (startTime endTime : BitVec 64) : Takes downloadBranching (MetaItem.text epochToString (.segmentEnd startTime endTime))
      (openAfter epochToString finished (some chunks))
      (openAfter epochToString (finished ++ [⟨chunks, startTime, endTime⟩]) none) := by
  obtain ⟨hsegment, -⟩ := downloadNames.1 segmentTag (by decide)
  obtain ⟨hchunks, -⟩ := downloadNames.1 chunksTag (by decide)
  obtain ⟨hstart, hstart'⟩ := downloadNames.2 startTimeTag (by decide)
  obtain ⟨hend, hend'⟩ := downloadNames.2 endTimeTag (by decide)
  have hchunksEnd : Takes downloadBranching (closingLine 13 chunksTag) (openAfter epochToString finished (some chunks)) _ :=
    takes_closingLine 13 hchunks rfl rfl rfl
  have htexts := ((hchunksEnd.append ((lays_textLine 13 hstart hstart' (htimes startTime)).takes rfl)).append
    ((lays_textLine 13 hend hend' (htimes endTime)).takes rfl)).append (takes_closingLine 9 hsegment rfl rfl rfl)
  have hopen : openAfter epochToString (finished ++ [⟨chunks, startTime, endTime⟩]) none =
      ((segmentsFrame epochToString finished).add [Segment.node epochToString ⟨chunks, startTime, endTime⟩],
        [⟨downloadTag, true, [], []⟩, .outermost]) := by
    simp only [openAfter, segmentsFrame, List.map_append]
    rfl
  rw [hopen]
  exact htexts

theorem Divides.cons {sys : DownloadSystem} {segments : List Segment} {before : List Chunk} {c : Chunk}
    (h : Divides sys segments chunks) (hfree : ∀ d ∈ before, d.gap = false) (startTime : BitVec 64) :
    Divides sys (⟨before ++ [c], startTime, c.endTime sys⟩ :: segments) (before ++ [c] ++ chunks) := by
  obtain ⟨hflat, hsegments⟩ := h
  refine ⟨?_, List.forall_mem_cons.mpr ⟨⟨before, c, rfl, hfree, rfl⟩, hsegments⟩⟩
  rw [List.map_cons, List.flatten_cons, hflat]

theorem lastListed_cons_of_ne_nil (c : Chunk) {rest : List Chunk} (h : rest ≠ []) :
    LastListed (c :: rest) ↔ LastListed rest :=
  lastListed_cons.trans (or_iff_right fun hnil => h hnil.1)

/-- While a segment is open with some chunks, a text goes on with the chunks of a list: it finishes segments which divide
them, and leaves none open, exactly if the last one is listed. -/
def Finishes (epochToString : BitVec 64 → CString) (sys : DownloadSystem) (text : CString) (finished : List Segment)
    (chunks l : List Chunk) : Prop :=
  ∃ more opened, Takes downloadBranching text (openAfter epochToString finished (some chunks))
      (openAfter epochToString (finished ++ more) opened) ∧
    (opened = none ↔ LastListed l) ∧ (LastListed l → Divides sys more (chunks ++ listed l))

section Finishes

variable {sys : DownloadSystem} {text path : CString} {c : Chunk} {rest : List Chunk}

theorem finishes_nil : Finishes epochToString sys [] finished chunks [] := by
  have hlast : ¬ LastListed [] := fun ⟨c, hc, _⟩ => by cases hc
  refine ⟨[], some chunks, ?_, iff_of_false (Option.some_ne_none chunks) hlast, fun h => absurd h hlast⟩
  rw [List.append_nil]
  exact Takes.nil downloadBranching _

/-- A chunk without a path is not listed. -/
theorem Finishes.unlisted (hpath : c.path = none) (h : Finishes epochToString sys text finished chunks rest) :
    Finishes epochToString sys text finished chunks (c :: rest) := by
  have hlast : LastListed (c :: rest) ↔ LastListed rest :=
    lastListed_cons.trans (or_iff_right fun h => by rw [hpath] at h; exact absurd h.2 Bool.false_ne_true)
  rw [Finishes, listed_cons_none hpath, hlast]
  exact h

/-- The last chunk closes its segment. -/
theorem finishes_last (htimes : ∀ t, CharData (epochToString t)) (hpath : c.path = some path) (hc : c.Legible)
    (hfree : ∀ d ∈ chunks, d.gap = false) (startTime : BitVec 64) :
    Finishes epochToString sys (MetaItem.text epochToString (c.entry path) ++
      MetaItem.text epochToString (.segmentEnd startTime (c.endTime sys))) finished chunks [c] := by
  have hlast : LastListed [c] := lastListed_cons.mpr (Or.inl ⟨rfl, by rw [hpath]; rfl⟩)
  have hnone : Divides sys [] [] := ⟨rfl, fun s hs => absurd hs List.not_mem_nil⟩
  have hdivides := hnone.cons hfree (c := c) startTime
  rw [List.append_nil] at hdivides
  refine ⟨_, none, (takes_entry hpath hc finished chunks).append
    (takes_segmentEnd htimes finished (chunks ++ [c]) startTime (c.endTime sys)), iff_of_true rfl hlast, fun _ => ?_⟩
  rw [listed_cons_some hpath]
  exact hdivides

/-- Before a gap a chunk closes its segment, and the next one is opened. -/
theorem Finishes.next (htimes : ∀ t, CharData (epochToString t)) (hpath : c.path = some path) (hc : c.Legible)
    (hfree : ∀ d ∈ chunks, d.gap = false) (hne : rest ≠ []) {startTime : BitVec 64}
    (h : Finishes epochToString sys text (finished ++ [⟨chunks ++ [c], startTime, c.endTime sys⟩]) [] rest) :
    Finishes epochToString sys (MetaItem.text epochToString (c.entry path) ++
      (MetaItem.text epochToString (.segmentEnd startTime (c.endTime sys)) ++
        (MetaItem.text epochToString .segmentStart ++ text))) finished chunks (c :: rest) := by
  obtain ⟨more, opened, htakes, hopen, hdivides⟩ := h
  have hend := takes_segmentEnd htimes finished (chunks ++ [c]) startTime (c.endTime sys)
  rw [Finishes, lastListed_cons_of_ne_nil c hne, listed_cons_some hpath]
  refine ⟨⟨chunks ++ [c], startTime, c.endTime sys⟩ :: more, opened, ?_, hopen, fun hlast => ?_⟩
  · rw [List.append_cons finished]
    exact (takes_entry hpath hc finished chunks).append (hend.append ((takes_segmentStart _).append htakes))
  · have hcons := (hdivides hlast).cons hfree (c := c) startTime
    rwa [List.nil_append, ← List.append_cons] at hcons

/-- Where there is no gap the segment stays open. -/
theorem Finishes.same (hpath : c.path = some path) (hc : c.Legible) (hne : rest ≠ [])
    (h : Finishes epochToString sys text finished (chunks ++ [c]) rest) :
    Finishes epochToString sys (MetaItem.text epochToString (c.entry path) ++ text) finished chunks (c :: rest) := by
  obtain ⟨more, opened, htakes, hopen, hdivides⟩ := h
  rw [Finishes, lastListed_cons_of_ne_nil c hne, listed_cons_some hpath]
  refine ⟨more, opened, (takes_entry hpath hc finished chunks).append htakes, hopen, fun hlast => ?_⟩
  rw [List.append_cons]
  exact hdivides hlast

end Finishes

/-- While a segment is open the loop goes on with it, and all segments are finished if the last chunk is listed. -/
theorem takes_openItems (sys : DownloadSystem) (htimes : ∀ t, CharData (epochToString t)) {l : List Chunk}
    (hlegible : ∀ c ∈ listed l, c.Legible) (startTime : BitVec 64) (finished : List Segment) {chunks : List Chunk}
    (hfree : ∀ c ∈ chunks, c.gap = false) :
    Finishes epochToString sys ((openItems sys startTime l).flatMap (MetaItem.text epochToString)) finished chunks l := by
  induction l generalizing startTime finished chunks with
  | nil => exact finishes_nil
  | cons c rest ih =>
    cases hpath : c.path with
    | none =>
      rw [listed_cons_none hpath] at hlegible
      rw [openItems_none sys hpath]
      exact (ih hlegible startTime finished hfree).unlisted hpath
    | some path =>
      rw [listed_cons_some hpath] at hlegible
      obtain ⟨hc, hrest⟩ := List.forall_mem_cons.mp hlegible
      rw [openItems_some sys hpath, List.flatMap_cons]
      by_cases hclose : c.gap = true ∨ rest = []
      · rw [if_pos hclose, List.flatMap_cons]
        cases rest with
        | nil =>
          rw [nextItems, List.flatMap_nil, List.append_nil]
          exact finishes_last htimes hpath hc hfree startTime
        | cons next rest =>
          have hopened : ∀ d ∈ ([] : List Chunk), d.gap = false := fun d hd => absurd hd List.not_mem_nil
          rw [nextItems, List.flatMap_cons]
          exact (ih hrest _ _ hopened).next htimes hpath hc hfree (List.cons_ne_nil next rest)
      · obtain ⟨hgap, hne⟩ := not_or.mp hclose
        have hmore : ∀ d ∈ chunks ++ [c], d.gap = false := by
          refine List.forall_mem_append.mpr ⟨hfree, List.forall_mem_singleton.mpr ?_⟩
          exact Bool.eq_false_iff.mpr hgap
        rw [if_neg hclose]
        exact (ih hrest startTime finished hmore).same hpath hc hne

end Reading

/-! ## The document -/

section Document

variable {a : Attempt w} {src : MaindataSource} {c : Collector} {epochToString : BitVec 64 → CString} {drive : ℕ}
  {req : Request w} {ns : List Node}

/-- The texts in the segments and in the main data can be read. -/
structure LegibleMetadata (a : Attempt w) (src : MaindataSource) (epochToString : BitVec 64 → CString)
    (req : Request w) : Prop where
  times : ∀ t, CharData (epochToString t)
  chunks : ∀ c ∈ listed (a.found req), c.Legible
  texts : ∀ text ∈ (a.maindata src req).texts, CharData text

/-- Digits and the other characters in the numbers of the main data. -/
theorem charData_of_digits {text : CString} (h : ∀ c ∈ text, c.isDigit = true ∨ c ∈ "x.-DMS".toList) : CharData text := by
  have hplain : ∀ c ∈ text, c ≠ '<' ∧ c ≠ '&' ∧ c ≠ ']' ∧ isChar c = true := by
    intro c hc
    cases h c hc with
    | inl hdigit =>
      obtain ⟨hlow, hhigh⟩ := toNat_of_isDigit hdigit
      have hzero : '0'.toNat = 48 := rfl
      refine ⟨fun heq => ?_, fun heq => ?_, fun heq => ?_, ?_⟩
      · rw [heq] at hdigit
        exact absurd hdigit (by decide)
      · rw [heq] at hdigit
        exact absurd hdigit (by decide)
      · rw [heq] at hdigit
        exact absurd hdigit (by decide)
      · simp only [isChar, Bool.or_eq_true, Bool.and_eq_true, decide_eq_true_eq, bne_iff_ne]
        exact Or.inr ⟨⟨by omega, by omega⟩, by omega⟩
    | inr hother =>
      have hall : ∀ c ∈ "x.-DMS".toList, c ≠ '<' ∧ c ≠ '&' ∧ c ≠ ']' ∧ isChar c = true :=
        List.all_iff_forall_prop.mp (by decide)
      exact hall c hother
  refine ⟨fun c hc => ⟨(hplain c hc).1, (hplain c hc).2.1, (hplain c hc).2.2.2⟩, fun hend => ?_⟩
  exact (hplain ']' (hend.subset List.mem_cons_self)).2.2.1 rfl

/-- The fields of the main data can be read if their texts can. -/
theorem charData_fields {videoClipCount : ℤ} (h : ∀ text ∈ (maindata src req videoClipCount).texts, CharData text) :
    ∀ field ∈ (maindata src req videoClipCount).fields, CharData field.2 := by
  have hdigits : ∀ n, ∀ c ∈ Nat.toDigits 10 n, c.isDigit = true ∨ c ∈ "x.-DMS".toList := fun n c hc =>
    Or.inl (isDigit_toDigits n c hc)
  have hoffset : CharData (signedDigits src.starttimeoffset ++ ".000000".toList) := by
    have hzeros : ∀ c ∈ ".000000".toList, c.isDigit = true ∨ c ∈ "x.-DMS".toList :=
      List.all_iff_forall_prop.mp (by decide)
    refine charData_of_digits (List.forall_mem_append.mpr ⟨fun c hc => (mem_signedDigits hc).imp_right ?_, hzeros⟩)
    rintro rfl
    decide
  have hresolution : CharData ((Nat.toDigits 10 src.hres ++ 'x' :: Nat.toDigits 10 src.vres).take 15) := by
    refine charData_of_digits fun c hc => ?_
    cases List.mem_append.mp (List.mem_of_mem_take hc) with
    | inl hfront => exact hdigits _ c hfront
    | inr hback =>
      cases List.mem_cons.mp hback with
      | inl heq => exact Or.inr (heq ▸ by decide)
      | inr hback => exact hdigits _ c hback
  have hgps : CharData "DMS".toList := charData_of_digits (List.all_iff_forall_prop.mp (by decide))
  have hframe : CharData ((Nat.toDigits 10 src.fps).take 15) :=
    charData_of_digits fun c hc => hdigits _ c (List.mem_of_mem_take hc)
  have hnumber : ∀ n, CharData (Nat.toDigits 10 n) := fun n => charData_of_digits (hdigits n)
  simp only [Maindata.texts, List.forall_mem_cons, List.not_mem_nil, false_imp_iff, implies_true, and_true] at h
  obtain ⟨hserial, hlocoid, hname, hmodel, hstart, hend, hsignature⟩ := h
  simp only [Maindata.fields, List.forall_mem_cons, List.not_mem_nil, false_imp_iff, implies_true, and_true]
  exact ⟨hserial, hlocoid, hname, hmodel, hnumber _, hstart, hend, hoffset, hgps, hnumber _, hresolution, hnumber _, hframe,
    hsignature⟩

/-- What is printed before the segments. -/
theorem takes_start : Takes downloadBranching (metadataStart ++ metadataSegmentsStart) (.outermost, [])
    (openAfter epochToString [] none) := by
  obtain ⟨hdownload, hdownload'⟩ := downloadNames.1 downloadTag (by decide)
  obtain ⟨hsegments, hsegments'⟩ := downloadNames.1 segmentsTag (by decide)
  have hnewline : Takes downloadBranching ['\n'] (.outermost, []) (.outermost, []) :=
    Takes.spaces (List.all_eq_true.mp (by decide)) rfl
  exact (hnewline.append (takes_openingLine 1 hdownload hdownload' rfl)).append
    (takes_openingLine 3 hsegments hsegments' rfl)

/-- The segments of an attempt which lists its chunks: they are all finished if the last chunk is listed. -/
theorem takes_segments (hok : (insertChunkMetadata a.system (a.found req)).1 = .okFull)
    (h : LegibleMetadata a src epochToString req) : ∃ segments opened,
      Takes downloadBranching (metadataStart ++ metadataSegmentsStart ++
        (a.segments req).flatMap (MetaItem.text epochToString)) (.outermost, [])
        (openAfter epochToString segments opened) ∧
      (opened = none ↔ LastListed (a.found req)) ∧
      (LastListed (a.found req) → Divides a.system segments (listed (a.found req))) := by
  obtain ⟨first, mid, d, -, -, hitems⟩ := insertChunkMetadata_items a.system hok
  have hnone : ∀ d ∈ ([] : List Chunk), d.gap = false := fun d hd => absurd hd List.not_mem_nil
  obtain ⟨segments, opened, htakes, hopen, hdivides⟩ := takes_openItems a.system h.times h.chunks
    (BitVec.ofInt 64 first.epochTime - timeoffsetFromChunkHeader a.system d true) [] hnone
  refine ⟨segments, opened, ?_, hopen, hdivides⟩
  rw [Attempt.segments, hitems, List.flatMap_cons]
  exact takes_start.append ((takes_segmentStart []).append htakes)

theorem lays_maindata {d : Maindata} (h : ∀ field ∈ d.fields, CharData field.2) :
    Lays downloadBranching d.text [d.node] := by
  obtain ⟨hmaindata, hmaindata'⟩ := downloadNames.1 maindataTag (by decide)
  have hnames : ∀ tag ∈ d.fields.map Prod.fst, isName tag = true ∧ downloadBranching tag = false := by
    have hfixed : ∀ tag ∈ ["serial".toList, "locoid".toList, "name".toList, "model".toList, "segment_count".toList,
        "starttime".toList, "endtime".toList, "starttimeoffset".toList, "gpsformat".toList, "mount_type".toList,
        "resolution".toList, "compression".toList, "frame_rate".toList, "signature".toList],
        isName tag = true ∧ downloadBranching tag = false := by
      decide +kernel
    exact hfixed
  have hfields : Lays downloadBranching (d.fields.flatMap fun field => textLine 9 field.1 field.2)
      (d.fields.map fun field => .text field.1 field.2) := by
    rw [List.map_eq_flatMap]
    refine Lays.flatMap fun field hfield => ?_
    obtain ⟨hname, hleaf⟩ := hnames field.1 (List.mem_map_of_mem hfield)
    exact lays_textLine 9 hname hleaf (h field hfield)
  have hlays := (lays_element 3 5 hmaindata hmaindata' hfields).append
    (Lays.spaces downloadBranching (show ∀ c ∈ [' '], isSpace c = true from List.all_eq_true.mp (by decide)))
  rw [List.append_assoc, List.append_nil] at hlays
  rw [d.text_eq]
  exact hlays

/-- The document stands for its parts exactly if the last chunk is listed. -/
theorem Attempt.metadataXml_parts (hok : (insertChunkMetadata a.system (a.found req)).1 = .okFull)
    (h : LegibleMetadata a src epochToString req)
    (hcollected : Lays downloadBranching (getMetadataFromDrive c (req.adjust (a.found req)) drive).2 ns) :
    ∃ content, a.metadataXml src c epochToString drive req = xmlDeclaration ++ content ∧
      (LastListed (a.found req) → ∃ segments, Divides a.system segments (listed (a.found req)) ∧
        contentNodes downloadBranching content = some [.branch downloadTag
          (.branch segmentsTag (segments.map (Segment.node epochToString)) :: (a.maindata src req).node :: ns)]) ∧
      (¬ LastListed (a.found req) → contentNodes downloadBranching content = none) := by
  obtain ⟨segments, opened, htakes, hopen, hdivides⟩ := takes_segments hok h
  obtain ⟨hdownload, -⟩ := downloadNames.1 downloadTag (by decide)
  obtain ⟨hsegments, -⟩ := downloadNames.1 segmentsTag (by decide)
  refine ⟨_, rfl, fun hlast => ⟨segments, hdivides hlast, ?_⟩, fun hlast => ?_⟩
  · rw [hopen.mpr hlast] at htakes
    have hclosed : Takes downloadBranching metadataSegmentsEnd (openAfter epochToString segments none) _ :=
      takes_closingLine 3 hsegments rfl rfl rfl
    have hall := (((htakes.append hclosed).append ((lays_maindata (charData_fields h.texts)).takes rfl)).append
      (hcollected.takes rfl)).append (takes_closingLine 0 hdownload rfl rfl rfl)
    exact hall.contentNodes
  · cases opened with
    | none => exact absurd (hopen.mp rfl) hlast
    | some chunks =>
      have hblanks : Takes downloadBranching (List.replicate 3 ' ') (openAfter epochToString segments (some chunks))
          (openAfter epochToString segments (some chunks)) := Takes.spaces (space_replicate 3) rfl
      have hbad := (htakes.append hblanks).contentNodes_eq_none hsegments
        (show segmentsTag ≠ chunksTag by decide) (['\n'] ++ ((a.maindata src req).text ++
          ((getMetadataFromDrive c (req.adjust (a.found req)) drive).2 ++ metadataEnd)))
      simp only [metadataSegmentsEnd, closingLine, List.append_assoc] at hbad ⊢
      exact hbad

/-- The shell runs the collector, which appends to the temporary file; that is empty before. -/
def RunsCollector (sys : CollectorSystem) (c : Collector) : Prop :=
  ∀ command s, collectorArgs command = some s → c.mkstemp = some s.chan.file → sys.access s.chan.file = true →
    c.system command = (0, some (writeMetadataXmlDocument sys s.usePipe s.chan))

/-- What the collector is asked for a request. -/
def Request.everything (req : Request w) (localtime : ℕ → Tm) (drive : ℕ) (fname : CString) : CollectorInputChan :=
  Download.everything drive (readInUtc localtime req.startTime.toNat) (readInUtc localtime req.endTime.toNat) fname

/-- The collector can be run for a request, and can tell what was recorded. -/
structure Collects (sys : CollectorSystem) (c : Collector) (localtime : ℕ → Tm) (drive : ℕ) (req : Request w)
    (fname : CString) (found : List ChunkFile) (recorded : ChunkFile → List Metarec.Record) : Prop where
  runs : RunsCollector sys c
  format : c.icdFormat = epochToIcdFormat localtime
  locoid : LiteralWord c.locoid
  room : c.locoid.length ≤ 512
  mkstemp : c.mkstemp = some fname
  tempName : TempName fname
  access : sys.access fname = true
  startTime : PrintableTime localtime req.startTime.toNat
  endTime : PrintableTime localtime req.endTime.toNat
  tellable : Tellable sys true (req.everything localtime drive fname) found recorded

variable {sys : CollectorSystem} {localtime : ℕ → Tm} {fname : CString} {found : List ChunkFile}
  {recorded : ChunkFile → List Metarec.Record}

/-- What the collector wrote is copied as it is. -/
theorem lays_collected (h : Collects sys c localtime drive req fname found recorded) :
    Lays downloadBranching (getMetadataFromDrive c req drive).2
      (documentNodes sys true (req.everything localtime drive fname) found recorded) := by
  obtain ⟨s, hargs, hpipe, hchan⟩ := c.asks h.format h.locoid h.room req drive h.tempName h.startTime h.endTime
  have hfile : s.chan.file = fname := by rw [hchan, Download.everything]
  have hrun := h.runs _ s hargs (by rw [hfile, h.mkstemp]) (by rw [hfile, h.access])
  have hlays := lays_documentBody knowsNames_downloadBranching h.tellable
  have hdeclares : declares sys s.chan = false := by
    have hne : fname ≠ [] := h.tempName.literalWord.ne_nil
    rw [declares, hfile, h.access, Bool.not_true, Bool.or_false]
    simpa using hne
  have hwritten : writeMetadataXmlDocument sys s.usePipe s.chan =
      documentBody sys true (req.everything localtime drive fname) := by
    rw [writeMetadataXmlDocument, hdeclares, if_neg Bool.false_ne_true, List.nil_append, hpipe, hchan]
    rfl
  rw [hwritten] at hrun
  have hfree : ¬ xmlDeclaration <:+: documentBody sys true (req.everything localtime drive fname) :=
    hlays.tagged.not_infix _
  have honly : OnlyAtStart xmlDeclaration (documentBody sys true (req.everything localtime drive fname)) :=
    fun k hk => absurd (hk.isInfix.trans (List.drop_suffix k _).isInfix) hfree
  have houtput := getMetadataFromDrive_output c req drive h.mkstemp hrun hlays.tagged.nul_notMem honly
  rw [houtput, withoutStart, if_neg fun hstart => hfree hstart.isInfix]
  exact hlays

/-- The collector's file exists. -/
def sampleFiles : CollectorSystem := { sampleSystem with access := fun _ => true }

/-- A collector which the shell runs. -/
def sampleCollector : Collector where
  mkstemp := some "/tmp/metadataAb12Cd".toList
  locoid := "BNSF_1234".toList
  icdFormat := epochToIcdFormat gmtime
  system command :=
    ((collectorArgs command).map fun s => (0, some (writeMetadataXmlDocument sampleFiles s.usePipe s.chan))).getD
      (1, none)

/-- A minute in which a position was recorded. -/
def sampleDownload : Attempt 32 := smooth [{ minuteChunk true with epochTime := 1 }]

def sampleRequest : Request 32 := ⟨"CAB_________".toList, 1, 601, "/stage/out.lvdat".toList⟩

/-- The request after the adjustment to the minute. -/
theorem everything_sampleRequest :
    (sampleRequest.adjust (sampleDownload.found sampleRequest)).everything gmtime 1 "/tmp/metadataAb12Cd".toList =
      everything 1 1 61 "/tmp/metadataAb12Cd".toList := by
  rw [Request.everything, readInUtc_gmtime (by decide +kernel), readInUtc_gmtime (by decide +kernel)]
  rfl

/-- What was recorded in that minute can be told. -/
theorem tellable_sampleFiles : Tellable sampleFiles true (everything 1 1 61 "/tmp/metadataAb12Cd".toList)
    [⟨['7', '.', 'd', 'a', 't', 'a'], 7, 60⟩] fun _ => [samplePosition] :=
  { search := rfl
    span := by decide
    table := by decide +kernel
    files := fun f hf => by
      rw [List.mem_singleton.mp hf, FoundAs, if_pos (by decide)]
      exact ⟨⟨7, 0, rfl⟩, by decide +kernel, by decide +kernel⟩
    records := fun type _ f _ r hr => by
      cases type with
      | gps =>
        rw [show r = ⟨7, List.replicate 12 1⟩ from List.mem_singleton.mp hr, LegibleRecord, if_pos rfl]
        decide +kernel
      | videoEvent => exact absurd (show r ∈ [] from hr) List.not_mem_nil
      | timeInfo => exact absurd (show r ∈ [] from hr) List.not_mem_nil
      | locomotiveId => exact absurd (show r ∈ [] from hr) List.not_mem_nil
    segments := fun _ f hf => by
      rw [List.mem_singleton.mp hf]
      unfold Entry.Legible Safe
      decide +kernel }

theorem collects_sampleCollector : Collects sampleFiles sampleCollector gmtime 1
    (sampleRequest.adjust (sampleDownload.found sampleRequest)) "/tmp/metadataAb12Cd".toList
    [⟨['7', '.', 'd', 'a', 't', 'a'], 7, 60⟩] fun _ => [samplePosition] :=
  { runs := fun command s hargs _ _ => by
      rw [show sampleCollector.system command = ((collectorArgs command).map fun s =>
        (0, some (writeMetadataXmlDocument sampleFiles s.usePipe s.chan))).getD (1, none) from rfl, hargs]
      rfl
    format := rfl
    locoid := by decide +kernel
    room := by decide +kernel
    mkstemp := rfl
    tempName := ⟨"Ab12Cd".toList, rfl, List.all_eq_true.mp (by decide), by decide⟩
    access := rfl
    startTime := ⟨gmtime_inRange _, by decide +kernel⟩
    endTime := ⟨gmtime_inRange _, by decide +kernel⟩
    tellable := by
      rw [everything_sampleRequest]
      exact tellable_sampleFiles }

end Document

end RecordingAgent.Download
