import Mathlib.Data.Nat.Digits.Lemmas
import RecordingAgent.Reagent.Config
import RecordingAgent.SpaceMonitor.Threshold

/-!
# The command lines of the workers

The command lines of `rtsprec` and `metarec` are printed from a template, with a blank between the words and around
the values, and split at the blanks again. A value is one argument again exactly if it is not empty and has no blank in
it.
-/

namespace RecordingAgent.Reagent

open Foundation
open RecordingAgent.SpaceMonitor (lWordexp lweMaxarg)

/-- `RTSPREC_APP` -/
def rtsprecApp : CString := "/opt/reagent/bin/rtsprec".toList

/-- `METAREC_APP` -/
def metarecApp : CString := "/opt/reagent/bin/metarec".toList

/-- A hexadecimal digit in upper case. -/
def upperHexDigit (d : ℕ) : Char := (Nat.digitChar d).toUpper

/-- `%02X` -/
def upperHex (n : ℕ) : CString := ((Nat.digits 16 n).reverse.map upperHexDigit).leftpad 2 '0'

/-- An option with its value. -/
abbrev CommandOption := Char × CString

/-- A program, options with their values, and operands. -/
def wordsOf (program : CString) (options : List CommandOption) (operands : List CString) : List CString :=
  program :: options.flatMap (fun o => [['-', o.1], o.2]) ++ operands

/-- The options in `cmd_tpl`. -/
def Command.options (c : Command) : List CommandOption :=
  [('l', c.locoId), ('c', c.name), ('m', c.canonicalMac), ('d', c.chunkLength), ('r', upperHex c.recordFlags.toNat),
    ('f', ['0']), ('1', c.chmFootageBase), ('2', c.rssdFootageBase)]

/-- `cmd_tpl` with its values, printed into a buffer of 1024 bytes. -/
def Command.workerCmdline (c : Command) : CString :=
  ([' '].intercalate (wordsOf rtsprecApp c.options [c.streamUrl])).take 1023

def doRecordChmMeta : Flags := 0x01#32
def doRecordSsdMeta : Flags := 0x02#32

/-- The flags with which `metarec` is started. -/
def MediaInfo.metarecFlags (m : MediaInfo) : Flags :=
  (if m.isChmReady then doRecordChmMeta else 0) ||| (if m.isRssdReady then doRecordSsdMeta else 0)

/-- The options in `cmd_tpl_metarec`. -/
def MediaInfo.metarecOptions (m : MediaInfo) : List CommandOption :=
  [('l', m.locoId), ('d', m.chunkLength), ('r', upperHex m.metarecFlags.toNat), ('1', m.chmFootageBase),
    ('2', m.rssdFootageBase)]

/-- `raconf_prepare_for_metarecording`: `cmd_tpl_metarec` with its values, printed into 511 of the 512 bytes of the
buffer. -/
def raconfPrepareForMetarecording (m : MediaInfo) : CString :=
  ([' '].intercalate (wordsOf metarecApp m.metarecOptions [])).take 510

/-- `lwe_wordv`: the words which were found, in a zeroed array with an entry more than the most words there are. -/
def lweWordv (words : CString) : List (Option CString) :=
  (lWordexp words).map some ++ List.replicate (lweMaxarg + 1 - (lWordexp words).length) none

/-- Up to the first null pointer, the vector has the program, each option followed by its value, and the operands. -/
def CarriesFaithfully (program : CString) (options : List CommandOption) (operands : List CString)
    (argv : List (Option CString)) : Prop :=
  ∃ rest, argv = (wordsOf program options operands).map some ++ none :: rest

/-- The texts of a recorder and a camera fit their fields. -/
structure FitsFields (m : MediaInfo) (cam : CamDef) : Prop where
  locoId : m.locoId.length ≤ maxLocoIdSize
  chunkLength : m.chunkLength.length ≤ 7
  chmFootageBase : m.chmFootageBase.length ≤ 63
  rssdFootageBase : m.rssdFootageBase.length ≤ 63
  name : cam.name.length ≤ 15
  streamUrl : cam.streamUrl.length ≤ 63

/-- Not empty, and without a blank. -/
def Wordlike (text : CString) : Prop := text ≠ [] ∧ ' ' ∉ text

instance (text : CString) : Decidable (Wordlike text) := inferInstanceAs (Decidable (_ ∧ _))

variable {m : MediaInfo} {cam : CamDef} {program : CString} {options : List CommandOption} {operands : List CString}

/-- The vector has as many words as were found, and a null pointer behind them. -/
theorem lweWordv_eq (text : CString) : ∃ rest, lweWordv text = (lWordexp text).map some ++ none :: rest := by
  have hlength : (lWordexp text).length ≤ lweMaxarg := by
    rw [lWordexp]
    generalize lweMaxarg = limit
    induction limit generalizing text with
    | zero => exact Nat.le_refl _
    | succ limit ih =>
      rw [tokens]
      split
      next token rest htoken => exact Nat.succ_le_succ (ih rest)
      · exact Nat.zero_le _
  refine ⟨List.replicate (lweMaxarg - (lWordexp text).length) none, ?_⟩
  rw [lweWordv, Nat.sub_add_comm hlength, List.replicate_succ]

/-- A vector carries the words that were found, up to its first null pointer. -/
theorem carriesFaithfully_iff (text : CString) :
    CarriesFaithfully program options operands (lweWordv text) ↔
      lWordexp text = wordsOf program options operands := by
  obtain ⟨rest, hrest⟩ := lweWordv_eq text
  constructor
  · rintro ⟨rest', heq⟩
    have htaken : ∀ (words : List CString) (rest : List (Option CString)),
        ((words.map some ++ none :: rest).takeWhile Option.isSome) = words.map some := by
      intro words rest
      rw [List.takeWhile_append_of_pos (by simp)]
      simp
    have hwords := congrArg (List.takeWhile Option.isSome) (hrest.symm.trans heq)
    rw [htaken, htaken] at hwords
    exact (List.map_injective_iff.mpr (Option.some_injective _)) hwords
  · intro h
    exact ⟨rest, by rw [hrest, h]⟩

/-- A command line that was not cut is split into its words exactly if each of them is one. -/
theorem carriesFaithfully_intercalate_iff {size : ℕ}
    (hcount : (wordsOf program options operands).length ≤ lweMaxarg)
    (hsize : ([' '].intercalate (wordsOf program options operands)).length ≤ size) :
    CarriesFaithfully program options operands
        (lweWordv (([' '].intercalate (wordsOf program options operands)).take size)) ↔
      Wordlike program ∧ (∀ o ∈ options, Wordlike ['-', o.1] ∧ Wordlike o.2) ∧
        ∀ word ∈ operands, Wordlike word := by
  rw [carriesFaithfully_iff, List.take_of_length_le hsize, lWordexp,
    tokens_intercalate_iff hcount (by simp [wordsOf])]
  simp only [wordsOf, List.cons_append, List.forall_mem_cons, List.forall_mem_append, List.forall_mem_flatMap,
    List.not_mem_nil, IsEmpty.forall_iff, implies_true, and_true]
  rfl

/-- A command line of program and option letters which are words comes down to its texts. -/
theorem carriesFaithfully_texts_iff {size : ℕ} (hprogram : Wordlike program)
    (hletters : ∀ o ∈ options, o.1 ≠ ' ')
    (hcount : (wordsOf program options operands).length ≤ lweMaxarg)
    (hsize : ([' '].intercalate (wordsOf program options operands)).length ≤ size) :
    CarriesFaithfully program options operands
        (lweWordv (([' '].intercalate (wordsOf program options operands)).take size)) ↔
      (∀ o ∈ options, Wordlike o.2) ∧ ∀ word ∈ operands, Wordlike word := by
  have hwords : ∀ o ∈ options, Wordlike ['-', o.1] := by
    intro o ho
    refine ⟨List.cons_ne_nil _ _, ?_⟩
    simpa using (hletters o ho).symm
  rw [carriesFaithfully_intercalate_iff hcount hsize]
  exact ⟨fun h => ⟨fun o ho => (h.2.1 o ho).2, h.2.2⟩,
    fun h => ⟨hprogram, fun o ho => ⟨hwords o ho, h.1 o ho⟩, h.2⟩⟩

/-- A digit below sixteen is not printed as a blank. -/
theorem upperHexDigit_ne_blank : ∀ d < 16, upperHexDigit d ≠ ' ' := by decide

/-- A hexadecimal number is one word. -/
theorem wordlike_upperHex (n : ℕ) : Wordlike (upperHex n) := by
  constructor
  · intro h
    have hlength := congrArg List.length h
    simp only [upperHex, List.leftpad, List.length_append, List.length_replicate, List.length_nil] at hlength
    omega
  · intro h
    rcases List.mem_append.mp h with h | h
    · exact absurd (List.eq_of_mem_replicate h) (by decide)
    · obtain ⟨d, hd, heq⟩ := List.mem_map.mp h
      exact upperHexDigit_ne_blank d (Nat.digits_lt_base (by decide) (List.mem_reverse.mp hd)) heq

theorem upperHex_length (flags : Flags) : (upperHex flags.toNat).length ≤ 8 := by
  have hdigits : (Nat.digits 16 flags.toNat).length ≤ 8 := by
    rw [Nat.digits_length_le_iff (by decide)]
    exact flags.isLt
  simp only [upperHex, List.leftpad, List.length_append, List.length_replicate, List.length_map, List.length_reverse]
  omega

/-- A canonical address is one word of twelve characters. -/
theorem canonicalMac_spec (dispMac : CString) :
    (canonicalMac dispMac).length = 12 ∧ Wordlike (canonicalMac dispMac) := by
  have hlength : (canonicalMac dispMac).length = 12 := by
    simp only [canonicalMac, List.length_append, List.length_replicate]
    have htake := List.length_take_le 12 (dispMac.filter fun c =>
      ('0' ≤ c && c ≤ '9') || ('A' ≤ c && c ≤ 'F') || ('a' ≤ c && c ≤ 'f'))
    omega
  refine ⟨hlength, ?_, ?_⟩
  · intro h
    rw [h] at hlength
    cases hlength
  · intro h
    rcases List.mem_append.mp h with h | h
    · have hdigit := List.of_mem_filter (List.mem_of_mem_take h)
      exact absurd hdigit (by decide)
    · exact absurd (List.eq_of_mem_replicate h) (by decide)

/-- The command line of `rtsprec` is split into its words exactly if its texts are words. -/
theorem Command.carriesFaithfully_iff {c : Command} (hsize :
    ([' '].intercalate (wordsOf rtsprecApp c.options [c.streamUrl])).length ≤ 1023) :
    CarriesFaithfully rtsprecApp c.options [c.streamUrl] (lweWordv c.workerCmdline) ↔
      (∀ o ∈ c.options, Wordlike o.2) ∧ Wordlike c.streamUrl := by
  have hletters : ∀ o ∈ c.options, o.1 ≠ ' ' := by
    simp only [Command.options, List.forall_mem_cons]
    decide
  rw [Command.workerCmdline, carriesFaithfully_texts_iff (by decide) hletters
    (by simp [wordsOf, Command.options, lweMaxarg]) hsize, List.forall_mem_singleton]

/-- Texts which fit their fields fit the buffer of the command line. -/
theorem FitsFields.length_le (hfits : FitsFields m cam) :
    ([' '].intercalate (wordsOf rtsprecApp (raconfPrepareForRecording m cam).options
      [(raconfPrepareForRecording m cam).streamUrl])).length ≤ 1023 := by
  obtain ⟨hloco, hchunk, hchm, hrssd, hname, hurl⟩ := hfits
  have hmac := (canonicalMac_spec cam.dispMac).1
  have hflags := upperHex_length cam.runtime.recordingModeFlags
  have happ : rtsprecApp.length = 24 := by decide
  simp only [maxLocoIdSize] at hloco
  simp only [wordsOf, Command.options, raconfPrepareForRecording, List.flatMap_cons, List.flatMap_nil, List.cons_append,
    List.nil_append, List.intercalate_cons_cons, List.intercalate_singleton, List.length_append, List.length_cons,
    List.length_nil, happ, hmac]
  omega

/-- The command line of `rtsprec` for a camera is split into its words exactly if the texts of the configuration are
words. -/
theorem rtsprec_carriesFaithfully_iff (hfits : FitsFields m cam) :
    CarriesFaithfully rtsprecApp (raconfPrepareForRecording m cam).options [(raconfPrepareForRecording m cam).streamUrl]
        (lweWordv (raconfPrepareForRecording m cam).workerCmdline) ↔
      Wordlike m.locoId ∧ Wordlike cam.name ∧ Wordlike m.chunkLength ∧ Wordlike m.chmFootageBase ∧
        Wordlike m.rssdFootageBase ∧ Wordlike cam.streamUrl := by
  have hmac := (canonicalMac_spec cam.dispMac).2
  have hflags := wordlike_upperHex cam.runtime.recordingModeFlags.toNat
  have hzero : Wordlike ['0'] := by decide
  rw [Command.carriesFaithfully_iff hfits.length_le]
  simp only [Command.options, raconfPrepareForRecording, List.forall_mem_cons, List.not_mem_nil,
    IsEmpty.forall_iff, implies_true, and_true, hmac, hflags, hzero, true_and, and_assoc]

/-- The command line of `metarec` is split into its words exactly if its texts of the configuration are words. -/
theorem metarec_carriesFaithfully_iff (hfits : FitsFields m cam) :
    CarriesFaithfully metarecApp m.metarecOptions [] (lweWordv (raconfPrepareForMetarecording m)) ↔
      Wordlike m.locoId ∧ Wordlike m.chunkLength ∧ Wordlike m.chmFootageBase ∧ Wordlike m.rssdFootageBase := by
  have hflags := upperHex_length m.metarecFlags
  have hflagsWord := wordlike_upperHex m.metarecFlags.toNat
  obtain ⟨hloco, hchunk, hchm, hrssd, -, -⟩ := hfits
  have happ : metarecApp.length = 24 := by decide
  have hletters : ∀ o ∈ m.metarecOptions, o.1 ≠ ' ' := by
    simp only [MediaInfo.metarecOptions, List.forall_mem_cons]
    decide
  have hsize : ([' '].intercalate (wordsOf metarecApp m.metarecOptions [])).length ≤ 510 := by
    simp only [maxLocoIdSize] at hloco
    simp only [wordsOf, MediaInfo.metarecOptions, List.flatMap_cons, List.flatMap_nil, List.cons_append,
      List.nil_append, List.append_nil, List.intercalate_cons_cons, List.intercalate_singleton,
      List.length_append, List.length_cons, List.length_nil, happ]
    omega
  rw [raconfPrepareForMetarecording, carriesFaithfully_texts_iff (by decide) hletters
    (by simp [wordsOf, MediaInfo.metarecOptions, lweMaxarg]) hsize]
  simp only [MediaInfo.metarecOptions, List.forall_mem_cons, List.not_mem_nil, IsEmpty.forall_iff,
    implies_true, and_true, hflagsWord, true_and]

/-- The command lines of the workers of a camera carry the configuration faithfully exactly if no text of it is empty or
has a blank in it. -/
theorem workerCommands_faithful_iff (m : MediaInfo) (cam : CamDef) (hfits : FitsFields m cam) :
    (CarriesFaithfully rtsprecApp (raconfPrepareForRecording m cam).options
        [(raconfPrepareForRecording m cam).streamUrl] (lweWordv (raconfPrepareForRecording m cam).workerCmdline) ∧
      CarriesFaithfully metarecApp m.metarecOptions [] (lweWordv (raconfPrepareForMetarecording m))) ↔
      Wordlike m.locoId ∧ Wordlike cam.name ∧ Wordlike m.chunkLength ∧ Wordlike m.chmFootageBase ∧
        Wordlike m.rssdFootageBase ∧ Wordlike cam.streamUrl := by
  rw [rtsprec_carriesFaithfully_iff hfits, metarec_carriesFaithfully_iff hfits]
  tauto

/-- A recorder with its texts. -/
def recorderWith (chmFootageBase : CString) : MediaInfo :=
  { MediaInfo.zero with
    locoId := "BNSF_12345".toList
    chunkLength := "120".toList
    chmFootageBase
    rssdFootageBase := "/ssd".toList }

/-- A camera with its texts. -/
def cameraAt (streamUrl : CString) : CamDef :=
  { CamConfig.empty.raw with name := "CAB_FORWARD_".toList, dispMac := "ACCC8E982FEB".toList, streamUrl }

/-- Texts which are words. -/
theorem workerCommands_faithful_words :
    CarriesFaithfully rtsprecApp (raconfPrepareForRecording (recorderWith "/chm".toList) (cameraAt "rtsp://c".toList)).options
        [(raconfPrepareForRecording (recorderWith "/chm".toList) (cameraAt "rtsp://c".toList)).streamUrl]
        (lweWordv (raconfPrepareForRecording (recorderWith "/chm".toList) (cameraAt "rtsp://c".toList)).workerCmdline) ∧
      CarriesFaithfully metarecApp (recorderWith "/chm".toList).metarecOptions []
        (lweWordv (raconfPrepareForMetarecording (recorderWith "/chm".toList))) := by
  refine (workerCommands_faithful_iff (recorderWith "/chm".toList) (cameraAt "rtsp://c".toList) ?_).mpr (by decide)
  constructor <;> decide

/-- A base directory with a blank in it. -/
theorem workerCommands_not_faithful_blank :
    FitsFields (recorderWith "/my chm".toList) (cameraAt "rtsp://c".toList) ∧
      ¬ CarriesFaithfully metarecApp (recorderWith "/my chm".toList).metarecOptions []
        (lweWordv (raconfPrepareForMetarecording (recorderWith "/my chm".toList))) := by
  constructor
  · constructor <;> decide
  · rw [raconfPrepareForMetarecording, carriesFaithfully_iff]
    decide +kernel

end RecordingAgent.Reagent
