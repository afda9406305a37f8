import RecordingAgent.Foundation.XmlTree
import RecordingAgent.Metacollector.BodyReads
import RecordingAgent.Metacollector.XmlWriter
import RecordingAgent.Metarec.Chunk

/-!
# The document of the collector

`write_metadata_xml_document` finds the chunk files of a time span and writes a list for each kind of metadata that is
asked for, with the records of one file after the other. The search for the files, the check of a chunk's checksum, the
layouts of the records and the texts of times, coordinates and speeds are defined outside the repository; they are
parameters. The texts of the records are printable.

Where the files are those of a recorder, and the texts can be read, the document has for each kind exactly the records
that were recorded in its files and are in the span, in the order of the files and of the records in each.
-/

namespace RecordingAgent.Metacollector

open Foundation Foundation.Xml Metarec

/-- `chunk_file_t` -/
structure ChunkFile where
  filename : CString
  epochseconds : ℕ
  durationSeconds : ℕ
  deriving DecidableEq

/-- `collector_input_chan_t` -/
structure CollectorInputChan where
  storageLocation : CString
  startTime : ℕ
  endTime : ℕ
  gpsEnabled : Bool
  eventEnabled : Bool
  timeoffsetEnable : Bool
  locoIdEnable : Bool
  validateHash : Bool
  file : CString
  deriving DecidableEq

/-- `gps_record_t` -/
structure GpsRecord where
  recordTime : UInt32
  latitudeDdM : Int32
  longitudeDdM : Int32
  speedMphM : Int32
  deriving DecidableEq

/-- What the collector uses: the files, the search, the clock and the formats. -/
structure CollectorSystem where
  fmt : ChunkFormat
  times : TimeFormat
  /-- `gps_coordinate_tostr` with `eGPSLatitude` and with `eGPSLongitude`, and `gps_speed_tostr`. -/
  latitudeTostr : Int32 → Text
  longitudeTostr : Int32 → Text
  speedTostr : Int32 → Text
  /-- The records as the members of their structures. -/
  gpsRecord : MetadataRecord → GpsRecord
  timeoffsetRecord : MetadataRecord → TimeoffsetRecord
  videoEventRecord : MetadataRecord → VideoEventRecord
  locomotiveIdRecord : MetadataRecord → LocomotiveIdRecord
  localtime : ℕ → Tm
  /-- `get_all_files`, if it succeeds. -/
  getAllFiles : CString → ℕ → ℕ → Option (List ChunkFile)
  /-- The bytes of a file which can be opened. -/
  fopen : CString → Option (List UInt8)
  /-- What `validate_metadata_chunk` leaves in `is_valid`. -/
  validateMetadataChunk : CString → ℤ
  /-- The document exists, and it can be opened. -/
  access : CString → Bool
  opens : CString → Bool

/-- The names of the other elements. -/
def latitudeTag : CString := "latitude".toList
def longitudeTag : CString := "longitude".toList
def speedTag : CString := "speed".toList
def gpsTag : CString := "gps".toList
def dataTag : CString := "data".toList
def timeRangeTag : CString := "time_range".toList
def startTimeTag : CString := "start_time".toList
def endTimeTag : CString := "end_time".toList
def gpsListTag : CString := "gps_list".toList
def gpsdataTag : CString := "gpsdata".toList
def timeChangeListTag : CString := "time_change_list".toList
def videoEventsTag : CString := "video_events".toList
def locomotiveIdEventsTag : CString := "locomotiveId_events".toList
def corruptMetadataSegmentsTag : CString := "corrupt_metadata_segments".toList

/-- `init_xml_document_declaration` -/
def initXmlDocumentDeclaration : CString := "<?xml version=\"1.0\" encoding=\"UTF-8\"?>\n".toList

/-- `search_base_dir`: `"%s/%s"` in a buffer of 256 bytes, of which `snprintf` fills 254. -/
def searchBaseDir (pchan : CollectorInputChan) : CString :=
  (pchan.storageLocation ++ '/' :: "METADATA".toList).take 254

/-- `"%s/%04d/%02d/%02d/%02d/%s"`: the path of a file below the base directory, as much of it as the buffer has room for. -/
def filepath (sys : CollectorSystem) (base : CString) (room : ℕ) (f : ChunkFile) : CString :=
  (base ++ '/' :: (subpathOf (sys.localtime f.epochseconds) ++ f.filename)).take room

section Writer

variable (sys : CollectorSystem) (usePipe : Bool)

/-- `write_gps` -/
def writeGps (record : GpsRecord) : CString :=
  let time := (sys.times.tostr record.recordTime).chars
  let latitude := (sys.latitudeTostr record.latitudeDdM).chars
  let longitude := (sys.longitudeTostr record.longitudeDdM).chars
  let speed := (sys.speedTostr record.speedMphM).chars
  if usePipe then
    startTagText dataTag ++ time ++ ['|'] ++ latitude ++ ['|'] ++ longitude ++ ['|'] ++ speed ++ closeLine dataTag
  else
    openLine gpsTag ++ getStrElementTag timeTag time ++ getStrElementTag latitudeTag latitude ++
      getStrElementTag longitudeTag longitude ++ getStrElementTag speedTag speed ++ closeLine gpsTag

/-- `write_corrupt_segment` -/
def writeCorruptSegment (f : ChunkFile) : CString :=
  startTagText timeRangeTag ++ getStrElementTag startTimeTag (sys.times.tostr (UInt32.ofNat f.epochseconds)).chars ++
    getStrElementTag endTimeTag (sys.times.tostr (UInt32.ofNat (f.epochseconds + f.durationSeconds))).chars ++
    endTagText timeRangeTag

/-- The list which the records of a type are written to. -/
def listTag : MetaDataType → CString
  | .gps => if usePipe then gpsdataTag else gpsListTag
  | .timeInfo => timeChangeListTag
  | .videoEvent => videoEventsTag
  | .locomotiveId => locomotiveIdEventsTag

/-- A record of a type as it is written: a row of `write_gps_list` or of one of its siblings. -/
def writeRecord (r : MetadataRecord) : MetaDataType → CString
  | .gps => writeGps sys usePipe (sys.gpsRecord r)
  | .timeInfo => writeTimeoffset sys.times (sys.timeoffsetRecord r)
  | .videoEvent => writeVideoEvent sys.times (sys.videoEventRecord r)
  | .locomotiveId => writeLocoidEvent sys.times (sys.locomotiveIdRecord r)

/-- The records of the array, as many as were counted; where none was placed the array is clear. -/
def recordsFound (bytes : List UInt8) (starttime endtime : ℕ) (type : MetaDataType) : List MetadataRecord :=
  let run := metadataRecordsRun sys.fmt bytes ⟨starttime, endtime, sys.fmt.typeCode type⟩
  match run.rcdCnt with
  | some count =>
    (List.range count).map fun i => (run.output.slots i).getD ⟨0, List.replicate (sys.fmt.payloadSize type) 0⟩
  | none => []

/-- A file of chunks by its name. -/
def IsDataFile (f : ChunkFile) : Prop := strstr f.filename ".data".toList ≠ none

instance (f : ChunkFile) : Decidable (IsDataFile f) := inferInstanceAs (Decidable (_ ≠ _))

/-- The records which are found in a file: none, if it is no data file or cannot be opened. -/
def fileRecords (base : CString) (starttime endtime : ℕ) (type : MetaDataType) (f : ChunkFile) : List MetadataRecord :=
  if IsDataFile f then
    match sys.fopen (filepath sys base 510 f) with
    | some bytes => recordsFound sys bytes starttime endtime type
    | none => []
  else []

/-- `search_and_write_metadata` -/
def searchAndWriteMetadata (base : CString) (starttime endtime : ℕ) (found : List ChunkFile) (type : MetaDataType) :
    CString :=
  found.flatMap fun f =>
    (fileRecords sys base starttime endtime type f).flatMap fun r => writeRecord sys usePipe r type

/-- `validate_and_write_metadata` -/
def validateAndWriteMetadata (base : CString) (found : List ChunkFile) : CString :=
  openLine corruptMetadataSegmentsTag ++
    (found.flatMap fun f =>
      if sys.validateMetadataChunk (filepath sys base 1022 f) = 1 then [] else writeCorruptSegment sys f) ++
    closeLine corruptMetadataSegmentsTag

/-- The kinds of metadata that are asked for, in the order of their lists. -/
def kindsAsked (pchan : CollectorInputChan) : List MetaDataType :=
  (if pchan.gpsEnabled then [.gps] else []) ++ (if pchan.eventEnabled then [.videoEvent] else []) ++
    (if pchan.timeoffsetEnable then [.timeInfo] else []) ++ (if pchan.locoIdEnable then [.locomotiveId] else [])

/-- The document is a file which is open. -/
def ToFile (pchan : CollectorInputChan) : Prop := pchan.file ≠ [] ∧ sys.opens pchan.file = true

instance (pchan : CollectorInputChan) : Decidable (ToFile sys pchan) := inferInstanceAs (Decidable (_ ∧ _))

/-- The declaration is written unless the file exists. -/
def declares (pchan : CollectorInputChan) : Bool := pchan.file.isEmpty || !sys.access pchan.file

/-- What `write_metadata_xml_document` writes behind the declaration, to the file or to the standard output. -/
def documentBody (pchan : CollectorInputChan) : CString :=
  let base := searchBaseDir pchan
  match sys.getAllFiles base pchan.startTime pchan.endTime with
  | some found =>
    (if pchan.validateHash = true ∧ ToFile sys pchan then validateAndWriteMetadata sys base found else []) ++
      (kindsAsked pchan).flatMap fun type =>
        openLine (listTag usePipe type) ++
          searchAndWriteMetadata sys usePipe base pchan.startTime pchan.endTime found type ++
          closeLine (listTag usePipe type)
  | none => []

/-- `write_metadata_xml_document` -/
def writeMetadataXmlDocument (pchan : CollectorInputChan) : CString :=
  (if declares sys pchan then initXmlDocumentDeclaration else []) ++ documentBody sys usePipe pchan

end Writer

/-- The names of the elements which have only text, and of those which have elements inside. -/
def leafTags : List CString :=
  [timeTag, latitudeTag, longitudeTag, speedTag, startTimeTag, endTimeTag, currentOffsetTag, timeSourceTag, eventNameTag,
    eventValueTag, locomotiveIdTag, dataTag]
def branchTags : List CString :=
  [corruptMetadataSegmentsTag, timeRangeTag, gpsListTag, gpsdataTag, gpsTag, timeChangeListTag, timeChangeTag,
    videoEventsTag, locomotiveIdEventsTag, eventTag]

/-- A reader knows by their names which elements of the document have elements inside. -/
structure KnowsNames (branching : CString → Bool) : Prop where
  leaf : ∀ tag ∈ leafTags, branching tag = false
  branch : ∀ tag ∈ branchTags, branching tag = true

/-- An entry as an element with its children, as they were recorded. -/
def Entry.node (e : Entry) : Node := .branch e.tag (e.lines.map fun l => .text l.tag l.recorded)

/-- An entry can be read: its texts are printed as they were recorded, have no markup and fit their buffer. -/
def Entry.Legible (e : Entry) : Prop := ∀ l ∈ e.lines, l.printed = l.recorded ∧ Safe l.tag l.printed

/-- The names of the children are not those of elements with elements inside. -/
structure Entry.Shaped (branching : CString → Bool) (e : Entry) : Prop extends e.Regular where
  branch : branching e.tag = true
  leaves : ∀ l ∈ e.lines, branching l.tag = false

def GpsRecord.entry (sys : CollectorSystem) (record : GpsRecord) : Entry where
  tag := gpsTag
  lines := [strLine timeTag (sys.times.tostr record.recordTime), strLine latitudeTag (sys.latitudeTostr record.latitudeDdM),
    strLine longitudeTag (sys.longitudeTostr record.longitudeDdM), strLine speedTag (sys.speedTostr record.speedMphM)]

/-- The text of a position which is written for a pipe. -/
def GpsRecord.pipeText (sys : CollectorSystem) (record : GpsRecord) : CString :=
  (sys.times.tostr record.recordTime).chars ++ ['|'] ++ (sys.latitudeTostr record.latitudeDdM).chars ++ ['|'] ++
    (sys.longitudeTostr record.longitudeDdM).chars ++ ['|'] ++ (sys.speedTostr record.speedMphM).chars

/-- A chunk whose checksum is wrong. -/
def segmentEntry (sys : CollectorSystem) (f : ChunkFile) : Entry where
  tag := timeRangeTag
  lines := [strLine startTimeTag (sys.times.tostr (UInt32.ofNat f.epochseconds)),
    strLine endTimeTag (sys.times.tostr (UInt32.ofNat (f.epochseconds + f.durationSeconds)))]

section Reads

variable {branching : CString → Bool} {sys : CollectorSystem} {usePipe : Bool} {l : Line} {e : Entry} {text : CString}

theorem elementText_eq (tag value : CString) :
    elementText tag value = startTagText tag ++ value ++ endTagText tag ++ ['\n'] := by
  simp [elementText, startTagText, endTagText]

theorem openLine_eq (tag : CString) : openLine tag = startTagText tag ++ ['\n'] := by
  simp [openLine, startTagText]

theorem closeLine_eq (tag : CString) : closeLine tag = endTagText tag ++ ['\n'] := by
  simp [closeLine, endTagText]

/-- Printable characters without markup are the text of an element. -/
theorem lays_plain {tag : CString} (htag : isName tag = true) (hleaf : branching tag = false)
    (hprintable : text.all isPrintable = true) (hlt : '<' ∉ text) (hamp : '&' ∉ text) (hend : ¬ cdataEnd <:+: text) :
    Lays branching (startTagText tag ++ text ++ endTagText tag) [.text tag text] := by
  refine Lays.leaf htag hleaf ⟨fun c hc => ⟨?_, ?_, (isChar_of_isPrintable (List.all_eq_true.mp hprintable c hc)).1⟩, hend⟩
  · rintro rfl
    exact hlt hc
  · rintro rfl
    exact hamp hc

/-- A line is an element with its text, be the line feed behind it cut or not. -/
theorem Line.lays (hregular : l.Regular) (hleaf : branching l.tag = false)
    (hlegible : l.printed = l.recorded ∧ Safe l.tag l.printed) : Lays branching l.text [.text l.tag l.recorded] := by
  obtain ⟨hsame, hlt, hamp, hend, hfits⟩ := hlegible
  have hlays := lays_plain hregular.name.1 hleaf hregular.printable hlt hamp hend
  have hlength : (startTagText l.tag ++ l.printed ++ endTagText l.tag).length = 2 * l.tag.length + 5 + l.printed.length := by
    simp only [startTagText, endTagText, List.length_append, List.length_cons, List.length_nil]
    omega
  rw [← hsame, Line.text, elementText_eq]
  by_cases hroom : 2 * l.tag.length + 6 + l.printed.length ≤ elementRoom
  · rw [List.take_of_length_le (by rw [List.length_append, hlength, List.length_singleton]; omega)]
    have hline := hlays.append (Lays.newline branching)
    rwa [List.append_nil] at hline
  · rwa [List.take_append_of_le_length (by rw [hlength]; omega),
      List.take_of_length_le (by rw [hlength]; omega)]

/-- Nodes on lines of their own inside an element. -/
theorem lays_list {tag : CString} {ns : List Node} (htag : isName tag = true) (hbranch : branching tag = true)
    (h : Lays branching text ns) : Lays branching (openLine tag ++ text ++ closeLine tag) [.branch tag ns] := by
  have hinner := (Lays.newline branching).append h
  have hlays := (hinner.branch htag hbranch).append (Lays.newline branching)
  rw [List.append_nil, List.nil_append] at hlays
  have htext : openLine tag ++ text ++ closeLine tag = startTagText tag ++ (['\n'] ++ text) ++ endTagText tag ++ ['\n'] := by
    rw [openLine_eq, closeLine_eq]
    simp only [List.append_assoc]
  rw [htext]
  exact hlays

/-- The lines of a legible entry, one after the other. -/
theorem Entry.Shaped.lays_lines (hshaped : e.Shaped branching) (hlegible : e.Legible) :
    Lays branching (e.lines.flatMap Line.text) (e.lines.map fun l => .text l.tag l.recorded) := by
  rw [List.map_eq_flatMap]
  exact Lays.flatMap fun l hl => Line.lays (hshaped.lines l hl) (hshaped.leaves l hl) (hlegible l hl)

theorem Entry.Shaped.lays (hshaped : e.Shaped branching) (hlegible : e.Legible) : Lays branching e.text [e.node] :=
  lays_list hshaped.name.1 hshaped.branch (hshaped.lays_lines hlegible)

/-- The element of a record. -/
def recordNode (sys : CollectorSystem) (usePipe : Bool) (r : MetadataRecord) : MetaDataType → Node
  | .gps =>
    if usePipe then .text dataTag ((sys.gpsRecord r).pipeText sys) else ((sys.gpsRecord r).entry sys).node
  | .timeInfo => ((sys.timeoffsetRecord r).entry sys.times).node
  | .videoEvent => ((sys.videoEventRecord r).entry sys.times).node
  | .locomotiveId => ((sys.locomotiveIdRecord r).entry sys.times).node

/-- The texts of a record can be read. -/
def LegibleRecord (sys : CollectorSystem) (usePipe : Bool) (r : MetadataRecord) : MetaDataType → Prop
  | .gps =>
    if usePipe then '<' ∉ (sys.gpsRecord r).pipeText sys ∧ '&' ∉ (sys.gpsRecord r).pipeText sys ∧
      ¬ cdataEnd <:+: (sys.gpsRecord r).pipeText sys
    else ((sys.gpsRecord r).entry sys).Legible
  | .timeInfo => ((sys.timeoffsetRecord r).entry sys.times).Legible
  | .videoEvent => ((sys.videoEventRecord r).entry sys.times).Legible
  | .locomotiveId => ((sys.locomotiveIdRecord r).entry sys.times).Legible

/-- The name of an element which has only text, and that of one with elements inside. -/
def LeafName (branching : CString → Bool) (tag : CString) : Prop := PlainName tag ∧ branching tag = false
def BranchName (branching : CString → Bool) (tag : CString) : Prop := PlainName tag ∧ branching tag = true

theorem plainName_of_mem : ∀ tag ∈ leafTags ++ branchTags, PlainName tag := by
  unfold PlainName
  decide

theorem KnowsNames.leafName (hnames : KnowsNames branching) {tag : CString} (htag : tag ∈ leafTags) :
    LeafName branching tag := ⟨plainName_of_mem tag (List.mem_append_left _ htag), hnames.leaf tag htag⟩

theorem KnowsNames.branchName (hnames : KnowsNames branching) {tag : CString} (htag : tag ∈ branchTags) :
    BranchName branching tag := ⟨plainName_of_mem tag (List.mem_append_right _ htag), hnames.branch tag htag⟩

theorem Entry.shaped_of {tag : CString} {lines : List Line} (htag : BranchName branching tag)
    (hlines : ∀ l ∈ lines, l.Regular ∧ branching l.tag = false) : Entry.Shaped branching ⟨tag, lines⟩ where
  name := htag.1
  lines l hl := (hlines l hl).1
  branch := htag.2
  leaves l hl := (hlines l hl).2

theorem strLine_leaf {tag : CString} (h : LeafName branching tag) (text : Text) :
    (strLine tag text).Regular ∧ branching (strLine tag text).tag = false := ⟨strLine_regular h.1 text, h.2⟩

theorem intLine_leaf {tag : CString} (h : LeafName branching tag) (printed recorded : ℤ) :
    (intLine tag printed recorded).Regular ∧ branching (intLine tag printed recorded).tag = false :=
  ⟨intLine_regular h.1 printed recorded, h.2⟩

section Shaped

variable (hnames : KnowsNames branching)

include hnames

theorem GpsRecord.entry_shaped (sys : CollectorSystem) (record : GpsRecord) : (record.entry sys).Shaped branching := by
  have htime : LeafName branching timeTag := hnames.leafName (by decide)
  have hlatitude : LeafName branching latitudeTag := hnames.leafName (by decide)
  have hlongitude : LeafName branching longitudeTag := hnames.leafName (by decide)
  have hspeed : LeafName branching speedTag := hnames.leafName (by decide)
  apply Entry.shaped_of (hnames.branchName (by decide))
  simp [strLine_leaf htime, strLine_leaf hlatitude, strLine_leaf hlongitude, strLine_leaf hspeed]

theorem segmentEntry_shaped (sys : CollectorSystem) (f : ChunkFile) : (segmentEntry sys f).Shaped branching := by
  have hstart : LeafName branching startTimeTag := hnames.leafName (by decide)
  have hend : LeafName branching endTimeTag := hnames.leafName (by decide)
  apply Entry.shaped_of (hnames.branchName (by decide))
  simp [strLine_leaf hstart, strLine_leaf hend]

theorem TimeoffsetRecord.entry_shaped (times : TimeFormat) (record : TimeoffsetRecord) :
    (record.entry times).Shaped branching := by
  have htime : LeafName branching timeTag := hnames.leafName (by decide)
  have hoffset : LeafName branching currentOffsetTag := hnames.leafName (by decide)
  have hsource : LeafName branching timeSourceTag := hnames.leafName (by decide)
  apply Entry.shaped_of (hnames.branchName (by decide))
  simp [strLine_leaf htime, intLine_leaf hoffset, strLine_leaf hsource]

theorem VideoEventRecord.entry_shaped (times : TimeFormat) (record : VideoEventRecord) :
    (record.entry times).Shaped branching := by
  have htime : LeafName branching timeTag := hnames.leafName (by decide)
  have hname : LeafName branching eventNameTag := hnames.leafName (by decide)
  have hvalue : LeafName branching eventValueTag := hnames.leafName (by decide)
  apply Entry.shaped_of (hnames.branchName (by decide))
  simp [strLine_leaf htime, strLine_leaf hname, intLine_leaf hvalue]

theorem LocomotiveIdRecord.entry_shaped (times : TimeFormat) (record : LocomotiveIdRecord) :
    (record.entry times).Shaped branching := by
  have htime : LeafName branching timeTag := hnames.leafName (by decide)
  have hloco : LeafName branching locomotiveIdTag := hnames.leafName (by decide)
  apply Entry.shaped_of (hnames.branchName (by decide))
  simp [strLine_leaf htime, strLine_leaf hloco]

/-- A record is written as its element. -/
theorem lays_writeRecord {r : MetadataRecord} {type : MetaDataType} (h : LegibleRecord sys usePipe r type) :
    Lays branching (writeRecord sys usePipe r type) [recordNode sys usePipe r type] := by
  cases type with
  | gps =>
    obtain ⟨record, hrecord⟩ : ∃ record, sys.gpsRecord r = record := ⟨_, rfl⟩
    simp only [LegibleRecord, writeRecord, recordNode, hrecord] at h ⊢
    cases usePipe with
    | true =>
      obtain ⟨hlt, hamp, hend⟩ := h
      have hprintable : (record.pipeText sys).all isPrintable = true := by
        have hbar : isPrintable '|' = true := by decide
        simp only [GpsRecord.pipeText, List.all_append, List.all_cons, List.all_nil, hbar, Text.printable, Bool.and_self]
      obtain ⟨hname, hleaf⟩ : LeafName branching dataTag := hnames.leafName (by decide)
      have hlays := (lays_plain hname.1 hleaf hprintable hlt hamp hend).append (Lays.newline branching)
      have htext : writeGps sys true record = startTagText dataTag ++ record.pipeText sys ++ endTagText dataTag ++ ['\n'] := by
        simp [writeGps, GpsRecord.pipeText, closeLine_eq]
      rw [htext]
      exact hlays
    | false =>
      have htext : writeGps sys false record = (record.entry sys).text := by
        simp [writeGps, GpsRecord.entry, Entry.text, Line.text, strLine, getStrElementTag]
      rw [htext]
      exact (record.entry_shaped hnames sys).lays h
  | timeInfo =>
    rw [writeRecord, writeTimeoffset_eq]
    exact (TimeoffsetRecord.entry_shaped hnames sys.times _).lays h
  | videoEvent =>
    rw [writeRecord, writeVideoEvent_eq]
    exact (VideoEventRecord.entry_shaped hnames sys.times _).lays h
  | locomotiveId =>
    rw [writeRecord, writeLocoidEvent_eq]
    exact (LocomotiveIdRecord.entry_shaped hnames sys.times _).lays h

end Shaped

/-- What is found of a final chunk are its records in the span. -/
theorem recordsFound_finalImage {rs : List Record} {sec usec starttime endtime : ℕ} {type : MetaDataType}
    (hn : rs.length ≤ sys.fmt.indexCapacity) (htable : sys.fmt.indexCapacity ≤ metadataChunkMaxIndexRecords)
    (hrs : Recordable sys.fmt rs) (hrange : starttime = 0 ↔ endtime = 0) :
    recordsFound sys (sys.fmt.finalImage sec usec rs) starttime endtime type = selected rs starttime endtime type := by
  have hread : getMetadataRecords sys.fmt (sys.fmt.finalImage sec usec rs) starttime endtime type =
      some ⟨selected rs starttime endtime type, (selected rs starttime endtime type).length⟩ :=
    getMetadataRecords_finalImage hn htable hrs hrange
  obtain ⟨-, hcount, hslots⟩ := getMetadataRecords_run hread
  rw [recordsFound, hcount]
  dsimp only
  refine List.ext_getElem (by rw [List.length_map, List.length_range]) fun i hi hi' => ?_
  rw [List.getElem_map, List.getElem_range, hslots, List.getElem?_eq_getElem hi', Option.getD_some]

/-- A found file is the final chunk of these records; nothing is found in one that has another name or cannot be opened. -/
def FoundAs (sys : CollectorSystem) (base : CString) (f : ChunkFile) (rs : List Record) : Prop :=
  if IsDataFile f then
    match sys.fopen (filepath sys base 510 f) with
    | some bytes => (∃ sec usec, bytes = sys.fmt.finalImage sec usec rs) ∧ rs.length ≤ sys.fmt.indexCapacity ∧
        Recordable sys.fmt rs
    | none => rs = []
  else rs = []

theorem fileRecords_of_foundAs {base : CString} {f : ChunkFile} {rs : List Record} {starttime endtime : ℕ}
    {type : MetaDataType} (h : FoundAs sys base f rs) (htable : sys.fmt.indexCapacity ≤ metadataChunkMaxIndexRecords)
    (hrange : starttime = 0 ↔ endtime = 0) :
    fileRecords sys base starttime endtime type f = selected rs starttime endtime type := by
  have hempty : selected [] starttime endtime type = [] := rfl
  unfold fileRecords
  unfold FoundAs at h
  split at h
  next hdata =>
    rw [if_pos hdata]
    cases hopen : sys.fopen (filepath sys base 510 f) with
    | some bytes =>
      rw [hopen] at h
      obtain ⟨⟨sec, usec, rfl⟩, hn, hrs⟩ := h
      exact recordsFound_finalImage hn htable hrs hrange
    | none =>
      rw [hopen] at h
      rw [show rs = [] from h, hempty]
  next hdata => rw [if_neg hdata, h, hempty]

/-- What the collector is asked for can be told: the span has both ends or none, the files are those of a recorder, and
the texts of what was recorded can be read. -/
structure Tellable (sys : CollectorSystem) (usePipe : Bool) (pchan : CollectorInputChan) (found : List ChunkFile)
    (recorded : ChunkFile → List Record) : Prop where
  search : sys.getAllFiles (searchBaseDir pchan) pchan.startTime pchan.endTime = some found
  span : pchan.startTime = 0 ↔ pchan.endTime = 0
  table : sys.fmt.indexCapacity ≤ metadataChunkMaxIndexRecords
  files : ∀ f ∈ found, FoundAs sys (searchBaseDir pchan) f (recorded f)
  records : ∀ type ∈ kindsAsked pchan, ∀ f ∈ found,
    ∀ r ∈ selected (recorded f) pchan.startTime pchan.endTime type, LegibleRecord sys usePipe r type
  segments : pchan.validateHash = true → ∀ f ∈ found, (segmentEntry sys f).Legible

/-- The records of a kind, file by file. -/
def recordedOf (pchan : CollectorInputChan) (found : List ChunkFile) (recorded : ChunkFile → List Record)
    (type : MetaDataType) : List MetadataRecord :=
  found.flatMap fun f => selected (recorded f) pchan.startTime pchan.endTime type

/-- The files whose checksum is not right. -/
def corruptNodes (sys : CollectorSystem) (base : CString) (found : List ChunkFile) : List Node :=
  found.flatMap fun f =>
    if sys.validateMetadataChunk (filepath sys base 1022 f) = 1 then [] else [(segmentEntry sys f).node]

/-- The files with a wrong checksum, if that is asked for, and a list for each kind with what was recorded. -/
def documentNodes (sys : CollectorSystem) (usePipe : Bool) (pchan : CollectorInputChan) (found : List ChunkFile)
    (recorded : ChunkFile → List Record) : List Node :=
  (if pchan.validateHash = true ∧ ToFile sys pchan then
    [.branch corruptMetadataSegmentsTag (corruptNodes sys (searchBaseDir pchan) found)]
  else []) ++ (kindsAsked pchan).map fun type => .branch (listTag usePipe type)
    ((recordedOf pchan found recorded type).map fun r => recordNode sys usePipe r type)

theorem listTag_mem (usePipe : Bool) (type : MetaDataType) : listTag usePipe type ∈ branchTags := by
  cases type <;> cases usePipe <;> decide

variable {pchan : CollectorInputChan} {found : List ChunkFile} {recorded : ChunkFile → List Record}

theorem lays_list_of_type (hnames : KnowsNames branching) (h : Tellable sys usePipe pchan found recorded)
    {type : MetaDataType} (htype : type ∈ kindsAsked pchan) :
    Lays branching (searchAndWriteMetadata sys usePipe (searchBaseDir pchan) pchan.startTime pchan.endTime found type)
      ((recordedOf pchan found recorded type).map fun r => recordNode sys usePipe r type) := by
  rw [recordedOf, List.map_flatMap, searchAndWriteMetadata]
  refine Lays.flatMap fun f hf => ?_
  rw [fileRecords_of_foundAs (h.files f hf) h.table h.span, List.map_eq_flatMap]
  exact Lays.flatMap fun r hr => lays_writeRecord hnames (h.records type htype f hf r hr)

/-- A segment has no line feeds around its children. -/
theorem writeCorruptSegment_eq (f : ChunkFile) : writeCorruptSegment sys f =
    startTagText timeRangeTag ++ (segmentEntry sys f).lines.flatMap Line.text ++ endTagText timeRangeTag := by
  have hlines : ∀ l l' : Line, [l, l'].flatMap Line.text = l.text ++ l'.text := fun l l' => by
    rw [List.flatMap_cons, List.flatMap_singleton]
  rw [writeCorruptSegment, segmentEntry, hlines, List.append_assoc (startTagText timeRangeTag)]
  rfl

theorem lays_validate (hnames : KnowsNames branching) (h : Tellable sys usePipe pchan found recorded)
    (hvalidate : pchan.validateHash = true) :
    Lays branching (validateAndWriteMetadata sys (searchBaseDir pchan) found)
      [.branch corruptMetadataSegmentsTag (corruptNodes sys (searchBaseDir pchan) found)] := by
  obtain ⟨hname, hbranch⟩ : BranchName branching corruptMetadataSegmentsTag := hnames.branchName (by decide)
  refine lays_list hname.1 hbranch (Lays.flatMap fun f hf => ?_)
  split
  · exact Lays.nil branching
  · obtain ⟨hname, hbranch⟩ : BranchName branching timeRangeTag := hnames.branchName (by decide)
    have hlines := (segmentEntry_shaped hnames sys f).lays_lines (h.segments hvalidate f hf)
    have hlays := hlines.branch hname.1 hbranch
    rw [writeCorruptSegment_eq]
    exact hlays

/-- The body of the document has exactly what was recorded, and nothing else. -/
theorem lays_documentBody (hnames : KnowsNames branching) (h : Tellable sys usePipe pchan found recorded) :
    Lays branching (documentBody sys usePipe pchan) (documentNodes sys usePipe pchan found recorded) := by
  rw [documentBody, h.search]
  refine Lays.append ?_ ?_
  · split
    next hvalidate => exact lays_validate hnames h hvalidate.1
    next => exact Lays.nil branching
  · rw [List.map_eq_flatMap]
    refine Lays.flatMap fun type htype => ?_
    obtain ⟨hname, hbranch⟩ := hnames.branchName (listTag_mem usePipe type)
    exact lays_list hname.1 hbranch (lays_list_of_type hnames h htype)

/-- A position of twelve bytes. -/
def samplePosition : Record := ⟨.gps, 7, ⟨7, 0⟩, List.replicate 12 1, by decide⟩

/-- Every text but that of the time is a digit, and the only file is the chunk with one position. -/
def sampleSystem : CollectorSystem where
  fmt := ChunkFormat.packed id
  times := secondsFormat
  latitudeTostr _ := ⟨['1'], by decide⟩
  longitudeTostr _ := ⟨['2'], by decide⟩
  speedTostr _ := ⟨['3'], by decide⟩
  gpsRecord r := ⟨UInt32.ofNat r.recordTime, 1, 2, 3⟩
  timeoffsetRecord r := ⟨UInt32.ofNat r.recordTime, 0, ⟨['G'], by decide⟩⟩
  videoEventRecord r := ⟨UInt32.ofNat r.recordTime, ⟨['H'], by decide⟩, 1⟩
  locomotiveIdRecord r := ⟨UInt32.ofNat r.recordTime, ⟨['L'], by decide⟩⟩
  localtime := gmtime
  getAllFiles _ _ _ := some [⟨['7', '.', 'd', 'a', 't', 'a'], 7, 60⟩]
  fopen _ := some ((ChunkFormat.packed id).finalImage 7 0 [samplePosition])
  validateMetadataChunk _ := 0
  access _ := false
  opens _ := true

/-- Ask for the positions of all times, and for the check. -/
def sampleChan : CollectorInputChan := ⟨['m'], 0, 0, true, false, false, false, true, ['x']⟩

/-- A reader which knows these names. -/
def sampleNames (tag : CString) : Bool := branchTags.contains tag

theorem knowsNames_sampleNames : KnowsNames sampleNames := ⟨by decide, by decide⟩

end Reads

end RecordingAgent.Metacollector
