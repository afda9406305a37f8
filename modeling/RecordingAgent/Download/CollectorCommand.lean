import RecordingAgent.Download.CollectorOutput
import RecordingAgent.Foundation.Shell
import RecordingAgent.Metacollector.Main

/-!
# The command for the collector

`get_metadata_from_drive` writes a range of times into a command line, and has the shell run the collector with it.
The collector takes from its arguments what was meant: the footage of the drive, every kind of metadata, the check of
the checksums, and the temporary file. Its times are the local times of the range, read in UTC.
-/

namespace RecordingAgent.Download

open Foundation
open RecordingAgent.Metacollector

variable {w : ℕ}

/-- `epoch_to_icd_format` into a buffer of 24 characters; `strftime` has the format `"%Y%m%dT%H%M%S"`. -/
def epochToIcdFormat (localtime : ℕ → Tm) (rawtime : ℕ) : CString :=
  (strftime inputFormat (inputValues (localtime rawtime))).take 23

/-- The program of the collector. -/
def collectorProgram : CString := "/opt/reagent/bin/metacollector".toList

/-- What the collector makes of a command line, if the shell runs it and it writes a document. -/
def collectorArgs (command : CString) : Option MainArgs :=
  (simpleCommand command).bind fun words =>
    if words.head? = some collectorProgram then parseMainArgs words.tail else none

/-- A name `mkstemp` makes of `"/tmp/metadataXXXXXX"`. -/
def TempName (fname : CString) : Prop :=
  ∃ six : CString, six.length = 6 ∧ (∀ c ∈ six, c.isAlphanum = true) ∧ fname = "/tmp/metadata".toList ++ six

/-- A time of which the local time can be printed in the format. -/
def PrintableTime (localtime : ℕ → Tm) (t : ℕ) : Prop := (localtime t).InRange ∧ (localtime t).tmYear + 1900 ≤ 9999

/-- The seconds of a local time read in UTC. -/
def readInUtc (localtime : ℕ → Tm) (t : ℕ) : ℕ := (mktime ((localtime t).fields 0) % 2 ^ 64).toNat

/-- What the collector is asked for: everything between two times on a drive. -/
def everything (drive : ℕ) (startTime endTime : ℕ) (fname : CString) : CollectorInputChan where
  storageLocation :=
    if drive = 1 then "/mnt/chmSSD/video/VideoFootages/".toList else "/mnt/removableSSD/video/VideoFootages/".toList
  startTime
  endTime
  gpsEnabled := true
  eventEnabled := true
  timeoffsetEnable := true
  locoIdEnable := true
  validateHash := true
  file := fname

/-- Where local time is UTC, a time is read as itself. -/
theorem readInUtc_gmtime {t : ℕ} (ht : t < 2 ^ 64) : readInUtc gmtime t = t := by
  rw [readInUtc, mktime_gmtime]
  omega

section Words

variable {localtime : ℕ → Tm} {t : ℕ} {fname : CString}

theorem epochToIcdFormat_eq (h : PrintableTime localtime t) :
    epochToIcdFormat localtime t = strftime inputFormat (inputValues (localtime t)) := by
  have hlength : (strftime inputFormat (inputValues (localtime t))).length = 15 :=
    strftime_length (fits_inputValues h.1 h.2)
  exact List.take_of_length_le (by omega)

theorem literalWord_epochToIcdFormat (h : PrintableTime localtime t) : LiteralWord (epochToIcdFormat localtime t) := by
  have hlength := strftime_length (fits_inputValues h.1 h.2)
  rw [epochToIcdFormat_eq h]
  refine literalWord_of_alphanum (fun hempty => ?_) fun c hc => Or.inl ?_
  · rw [hempty] at hlength
    exact absurd hlength (by decide)
  · cases mem_strftime hc with
    | inl hdigit => rw [Char.isAlphanum, hdigit, Bool.or_true]
    | inr hchar =>
      have hletter : ∀ d, Directive.char d ∈ inputFormat → d = 'T' := by simp [inputFormat]
      rw [hletter c hchar]
      rfl

theorem TempName.literalWord (h : TempName fname) : LiteralWord fname := by
  obtain ⟨six, -, hsix, rfl⟩ := h
  have htemplate : ∀ c ∈ "/tmp/metadata".toList, c.isAlphanum = true ∨ c = '/' :=
    List.all_iff_forall_prop.mp (by decide)
  refine literalWord_of_alphanum (List.append_ne_nil_of_left_ne_nil (by decide) six) fun c hc => ?_
  cases List.mem_append.mp hc with
  | inl hfront => exact htemplate c hfront
  | inr hback => exact Or.inl (hsix c hback)

theorem TempName.length (h : TempName fname) : fname.length = 19 := by
  obtain ⟨six, hlength, -, rfl⟩ := h
  rw [List.length_append, hlength]
  rfl

theorem TempName.not_dash (h : TempName fname) : fname.head? ≠ some '-' := by
  obtain ⟨six, -, -, rfl⟩ := h
  exact fun hdash => absurd (Option.some.inj hdash) (by decide)

end Words

/-- The words of the command. -/
def commandWords (locoid device from' until' fname : CString) : List CString :=
  [collectorProgram, ['-', 'l'], locoid, ['-', 'd'], device, ['-', 'k'], "METADATA".toList, ['-', 's'], from',
    ['-', 'e'], until', ['-', 'g'], "true".toList, ['-', 'v'], "true".toList, ['-', 't'], "true".toList,
    ['-', 'i'], "true".toList, fname, ['-', 'p'], ['-', 'h']]

/-- The drive in the command. -/
def deviceOf (drive : ℕ) : CString := (if drive = 1 then "CHM" else "SSD").toList

theorem deviceOf_spec (drive : ℕ) :
    LiteralWord (deviceOf drive) ∧ (deviceOf drive).head? ≠ some '-' ∧ (deviceOf drive).length = 3 := by
  unfold deviceOf
  split
  · exact ⟨by decide +kernel, by decide, by decide⟩
  · exact ⟨by decide +kernel, by decide, by decide⟩

/-- The command is its words with blanks between them. -/
theorem Collector.command_eq (c : Collector) (req : Request w) (drive : ℕ) (fname : CString) :
    c.command req drive fname = ([' '].intercalate (commandWords c.locoid (deviceOf drive)
      (c.icdFormat req.startTime.toNat) (c.icdFormat req.endTime.toNat) fname)).take 1023 := by
  have hfront : "/opt/reagent/bin/metacollector -l ".toList = collectorProgram ++ [' ', '-', 'l', ' '] := by decide
  have hdrive : " -d ".toList = [' ', '-', 'd', ' '] := by decide
  have htrack : " -k METADATA -s ".toList = [' ', '-', 'k', ' '] ++ "METADATA".toList ++ [' ', '-', 's', ' '] := by
    decide
  have hend : " -e ".toList = [' ', '-', 'e', ' '] := by decide
  have hkinds : " -g true -v true -t true -i true ".toList = [' ', '-', 'g', ' '] ++ "true".toList ++
      [' ', '-', 'v', ' '] ++ "true".toList ++ [' ', '-', 't', ' '] ++ "true".toList ++ [' ', '-', 'i', ' '] ++
      "true".toList ++ [' '] := by decide
  have hback : " -p -h".toList = [' ', '-', 'p', ' ', '-', 'h'] := by decide
  rw [Collector.command, hfront, hdrive, htrack, hend, hkinds, hback]
  simp only [commandWords, deviceOf, List.intercalate_cons_cons, List.intercalate_singleton, List.append_assoc,
    List.cons_append, List.nil_append]

/-- An option of the collector which takes an argument. -/
theorem getopt_collector (letter : Char) (hletter : letter ∈ "dlksetgiv".toList) (optarg : CString)
    (words : List CString) : getopt collectorOptions (['-', letter] :: optarg :: words) =
      (.value letter optarg :: (getopt collectorOptions words).1, (getopt collectorOptions words).2) := by
  have hoption : collectorOptions letter = some true := if_pos hletter
  refine getopt_valued hoption (fun hdash => ?_) optarg words
  rw [hdash] at hletter
  exact absurd hletter (by decide)

/-- The options behind the drive are taken one by one, and the file is the operand. -/
theorem getopt_behind_drive {from' until' fname : CString} (hfname : fname.head? ≠ some '-') :
    getopt collectorOptions [['-', 'k'], "METADATA".toList, ['-', 's'], from', ['-', 'e'], until', ['-', 'g'],
        "true".toList, ['-', 'v'], "true".toList, ['-', 't'], "true".toList, ['-', 'i'], "true".toList, fname,
        ['-', 'p'], ['-', 'h']] =
      ([.value 'k' "METADATA".toList, .value 's' from', .value 'e' until', .value 'g' "true".toList,
        .value 'v' "true".toList, .value 't' "true".toList, .value 'i' "true".toList, .flag 'p', .flag 'h'], [fname]) := by
  rw [getopt_collector 'k' (by decide), getopt_collector 's' (by decide), getopt_collector 'e' (by decide),
    getopt_collector 'g' (by decide), getopt_collector 'v' (by decide), getopt_collector 't' (by decide),
    getopt_collector 'i' (by decide), getopt_operand collectorOptions hfname, getopt_flag rfl (by decide),
    getopt_flag rfl (by decide)]
  rfl

/-- What the options of the command make of the variables. -/
theorem parseMainArgs_commandWords {locoid device from' until' fname : CString} (hloco : locoid ≠ [])
    (hfname : fname.head? ≠ some '-') :
    parseMainArgs (commandWords locoid device from' until' fname).tail = some
      { chan := ⟨storageLocationOf device, parseInputTimestamp from', parseInputTimestamp until', true, true, true, true,
          true, fname.take 255⟩
        locoId := (locoid ++ (List.replicate 10 '_').drop locoid.length).take 10
        subpath := "METADATA".toList
        usePipe := true } := by
  have hopts : getopt collectorOptions (commandWords locoid device from' until' fname).tail =
      ([.value 'l' locoid, .value 'd' device, .value 'k' "METADATA".toList, .value 's' from', .value 'e' until',
        .value 'g' "true".toList, .value 'v' "true".toList, .value 't' "true".toList, .value 'i' "true".toList,
        .flag 'p', .flag 'h'], [fname]) := by
    rw [commandWords, List.tail_cons, getopt_collector 'l' (by decide), getopt_collector 'd' (by decide),
      getopt_behind_drive hfname]
  have hmissing : (locoid ++ (List.replicate 10 '_').drop locoid.length).take 10 ≠ [] := by
    rw [ne_eq, List.take_eq_nil_iff, not_or]
    exact ⟨by decide, List.append_ne_nil_of_left_ne_nil hloco _⟩
  rw [parseMainArgs, hopts]
  exact if_neg hmissing

theorem parseInputTimestamp_epochToIcdFormat {localtime : ℕ → Tm} {t : ℕ} (h : PrintableTime localtime t) :
    parseInputTimestamp (epochToIcdFormat localtime t) = readInUtc localtime t := by
  rw [epochToIcdFormat_eq h, parseInputTimestamp_strftime h.1 h.2, readInUtc]

/-- The words are literal but for an empty locomotive id. -/
theorem literal_commandWords {locoid device from' until' fname : CString} (hloco : locoid ≠ [] → LiteralWord locoid)
    (hdevice : LiteralWord device) (hstart : LiteralWord from') (hend : LiteralWord until') (hfname : LiteralWord fname) :
    ∀ word ∈ commandWords locoid device from' until' fname, word ≠ [] → LiteralWord word := by
  have hfixed : ∀ word ∈ [collectorProgram, ['-', 'l'], ['-', 'd'], ['-', 'k'], "METADATA".toList, ['-', 's'], ['-', 'e'],
      ['-', 'g'], "true".toList, ['-', 'v'], ['-', 't'], ['-', 'i'], ['-', 'p'], ['-', 'h']],
      word ≠ [] → LiteralWord word := by
    decide +kernel
  simp only [commandWords, List.forall_mem_cons, List.not_mem_nil, false_imp_iff, implies_true, and_true]
  simp only [List.forall_mem_cons, List.not_mem_nil, false_imp_iff, implies_true, and_true] at hfixed
  obtain ⟨hprogram, hl, hd, hk, hsub, hs, he, hg, htrue, hv, ht, hi, hp, hh⟩ := hfixed
  exact ⟨hprogram, hl, hloco, hd, fun _ => hdevice, hk, hsub, hs, fun _ => hstart, he, fun _ => hend, hg, htrue, hv, htrue,
    ht, htrue, hi, htrue, fun _ => hfname, hp, hh⟩

theorem length_commandWords_le {locoid device from' until' fname : CString} (hloco : locoid.length ≤ 512)
    (hdevice : device.length = 3) (hstart : from'.length ≤ 23) (hend : until'.length ≤ 23) (hfname : fname.length = 19) :
    ([' '].intercalate (commandWords locoid device from' until' fname)).length ≤ 1023 := by
  have hprogram : collectorProgram.length = 30 := by decide
  have hsub : "METADATA".toList.length = 8 := by decide
  have htrue : "true".toList.length = 4 := by decide
  simp only [commandWords, List.intercalate_cons_cons, List.intercalate_singleton, List.length_append, hprogram, hsub,
    htrue, hdevice, hfname, List.length_cons, List.length_nil, Nat.zero_add, Nat.reduceAdd]
  omega

/-- What the collector is asked for, if there is a locomotive id. -/
theorem Collector.collectorArgs_command (c : Collector) {localtime : ℕ → Tm}
    (hformat : c.icdFormat = epochToIcdFormat localtime) (hloco : c.locoid ≠ [] → LiteralWord c.locoid)
    (hroom : c.locoid.length ≤ 512) (req : Request w) (drive : ℕ) {fname : CString} (hfname : TempName fname)
    (hstart : PrintableTime localtime req.startTime.toNat) (hend : PrintableTime localtime req.endTime.toNat) :
    collectorArgs (c.command req drive fname) = parseMainArgs ((commandWords c.locoid (deviceOf drive)
      (epochToIcdFormat localtime req.startTime.toNat) (epochToIcdFormat localtime req.endTime.toNat)
      fname).filter (· ≠ [])).tail := by
  obtain ⟨hdevice, -, hthree⟩ := deviceOf_spec drive
  have htime : ∀ t, (epochToIcdFormat localtime t).length ≤ 23 := fun t => List.length_take_le _ _
  have hwords := simpleCommand_intercalate (literal_commandWords hloco hdevice (literalWord_epochToIcdFormat hstart)
    (literalWord_epochToIcdFormat hend) hfname.literalWord)
  have hfits := length_commandWords_le hroom hthree (htime req.startTime.toNat) (htime req.endTime.toNat) hfname.length
  rw [collectorArgs, c.command_eq, hformat, List.take_of_length_le hfits, hwords, Option.bind_some]
  have hprogram : collectorProgram ≠ [] := by decide
  rw [commandWords, List.filter_cons_of_pos (by simpa using hprogram)]
  exact if_pos rfl

/-- Without a locomotive id its option takes the next one for its argument, and the drive becomes the file. -/
theorem parseMainArgs_without_locoid {device from' until' fname : CString} (hdevice : device ≠ []) (hstart : from' ≠ [])
    (hend : until' ≠ []) (hfname : fname ≠ []) (hdash : device.head? ≠ some '-') (hdash' : fname.head? ≠ some '-') :
    (parseMainArgs ((commandWords [] device from' until' fname).filter (· ≠ [])).tail).map (·.chan.file) =
      some (device.take 255) := by
  have hwords : (commandWords [] device from' until' fname).filter (· ≠ []) =
      [collectorProgram, ['-', 'l'], ['-', 'd'], device, ['-', 'k'], "METADATA".toList, ['-', 's'], from', ['-', 'e'],
        until', ['-', 'g'], "true".toList, ['-', 'v'], "true".toList, ['-', 't'], "true".toList, ['-', 'i'], "true".toList,
        fname, ['-', 'p'], ['-', 'h']] := by
    have hprogram : collectorProgram ≠ [] := by decide
    simp [commandWords, hprogram, hdevice, hstart, hend, hfname]
  have hopts : getopt collectorOptions [['-', 'l'], ['-', 'd'], device, ['-', 'k'], "METADATA".toList, ['-', 's'], from',
      ['-', 'e'], until', ['-', 'g'], "true".toList, ['-', 'v'], "true".toList, ['-', 't'], "true".toList, ['-', 'i'],
      "true".toList, fname, ['-', 'p'], ['-', 'h']] =
      ([.value 'l' ['-', 'd'], .value 'k' "METADATA".toList, .value 's' from', .value 'e' until', .value 'g' "true".toList,
        .value 'v' "true".toList, .value 't' "true".toList, .value 'i' "true".toList, .flag 'p', .flag 'h'],
        [device, fname]) := by
    rw [getopt_collector 'l' (by decide), getopt_operand collectorOptions hdash, getopt_behind_drive hdash']
  rw [hwords, List.tail_cons, parseMainArgs, hopts]
  rfl

/-- An agent which knows the locomotive asks for everything on the drive. -/
theorem Collector.asks (c : Collector) {localtime : ℕ → Tm} (hformat : c.icdFormat = epochToIcdFormat localtime)
    (hloco : LiteralWord c.locoid) (hroom : c.locoid.length ≤ 512) (req : Request w) (drive : ℕ) {fname : CString}
    (hfname : TempName fname) (hstart : PrintableTime localtime req.startTime.toNat)
    (hend : PrintableTime localtime req.endTime.toNat) :
    ∃ s, collectorArgs (c.command req drive fname) = some s ∧ s.usePipe = true ∧ s.chan = everything drive
      (readInUtc localtime req.startTime.toNat) (readInUtc localtime req.endTime.toNat) fname := by
  have hall : (commandWords c.locoid (deviceOf drive) (epochToIcdFormat localtime req.startTime.toNat)
      (epochToIcdFormat localtime req.endTime.toNat) fname).filter (· ≠ []) = commandWords c.locoid (deviceOf drive)
        (epochToIcdFormat localtime req.startTime.toNat) (epochToIcdFormat localtime req.endTime.toNat) fname := by
    have hprogram : collectorProgram ≠ [] := by decide
    simp [commandWords, hprogram, hloco.ne_nil, (deviceOf_spec drive).1.ne_nil,
      (literalWord_epochToIcdFormat hstart).ne_nil, (literalWord_epochToIcdFormat hend).ne_nil, hfname.literalWord.ne_nil]
  have hparsed := (congrArg (fun words => parseMainArgs (List.tail words)) hall).trans
    (parseMainArgs_commandWords hloco.ne_nil hfname.not_dash)
  rw [c.collectorArgs_command hformat (fun _ => hloco) hroom req drive hfname hstart hend]
  refine ⟨_, hparsed, rfl, ?_⟩
  have hstorage : storageLocationOf (deviceOf drive) = if drive = 1 then "/mnt/chmSSD/video/VideoFootages/".toList
      else "/mnt/removableSSD/video/VideoFootages/".toList := by
    unfold deviceOf
    split <;> rfl
  have hfile : fname.take 255 = fname := List.take_of_length_le (by rw [hfname.length]; decide)
  rw [everything, hstorage, hfile, parseInputTimestamp_epochToIcdFormat hstart, parseInputTimestamp_epochToIcdFormat hend]

/-- The collector is asked for everything on the drive between the times of the range, as local times read in UTC,
exactly if the agent knows the locomotive. -/
theorem Collector.asksForEverything_iff (c : Collector) {localtime : ℕ → Tm}
    (hformat : c.icdFormat = epochToIcdFormat localtime) (hloco : c.locoid ≠ [] → LiteralWord c.locoid)
    (hroom : c.locoid.length ≤ 512) (req : Request w) (drive : ℕ) {fname : CString} (hfname : TempName fname)
    (hstart : PrintableTime localtime req.startTime.toNat) (hend : PrintableTime localtime req.endTime.toNat) :
    (∃ s, collectorArgs (c.command req drive fname) = some s ∧ s.usePipe = true ∧ s.chan = everything drive
      (readInUtc localtime req.startTime.toNat) (readInUtc localtime req.endTime.toNat) fname) ↔ c.locoid ≠ [] := by
  constructor
  · rintro ⟨s, hs, -, hchan⟩ hempty
    obtain ⟨hdevice, hdash, hlength⟩ := deviceOf_spec drive
    have hfile := parseMainArgs_without_locoid hdevice.ne_nil (literalWord_epochToIcdFormat hstart).ne_nil
      (literalWord_epochToIcdFormat hend).ne_nil hfname.literalWord.ne_nil hdash hfname.not_dash
    rw [c.collectorArgs_command hformat hloco hroom req drive hfname hstart hend, hempty] at hs
    -- the file of the collector would be the drive, which is shorter than the name of the temporary file
    rw [hs, Option.map_some, hchan, List.take_of_length_le (by omega)] at hfile
    have hsame := congrArg List.length (Option.some.inj hfile)
    rw [everything, hfname.length, hlength] at hsame
    omega
  · exact fun hne => c.asks hformat (hloco hne) hroom req drive hfname hstart hend

/-- An agent which knows its locomotive, in UTC. -/
def utcCollector : Collector := { shortCollector with icdFormat := epochToIcdFormat gmtime }

theorem asksForEverything_iff_utc :
    (∃ s, collectorArgs (utcCollector.command ⟨"CAB".toList, 1700000000#32, 1700000600#32, []⟩ 1
      "/tmp/metadataAb12Cd".toList) = some s ∧ s.usePipe = true ∧ s.chan = everything 1
        (readInUtc gmtime (1700000000#32).toNat) (readInUtc gmtime (1700000600#32).toNat)
        "/tmp/metadataAb12Cd".toList) ↔ utcCollector.locoid ≠ [] := by
  refine utcCollector.asksForEverything_iff rfl (fun _ => ?_) ?_ ⟨"CAB".toList, 1700000000#32, 1700000600#32, []⟩ 1
    ⟨"Ab12Cd".toList, ?_, List.all_eq_true.mp ?_, ?_⟩ ⟨gmtime_inRange _, ?_⟩ ⟨gmtime_inRange _, ?_⟩
  all_goals decide +kernel

end RecordingAgent.Download
