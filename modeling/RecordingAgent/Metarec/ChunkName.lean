import RecordingAgent.Foundation.Decimal
import RecordingAgent.Foundation.Mktime
import RecordingAgent.Metarec.Chunk

/-!
# The name of a chunk, written and read

The recorder names a chunk after its start time in UTC and its duration. The programs which
search, list, play and delete chunks read both back from the name, each with its own copy of
the parser. All copies run with the time zone UTC.
-/

namespace RecordingAgent.Metarec

open Foundation

/-- `atol`: `strtol` saturates at the bounds of a `long`. -/
def atol (text : CString) : ℤ := max (-2 ^ 63) (min (2 ^ 63 - 1) (atoi text))

/-- `atoi` with the width of an `int`. -/
def atoiInt (text : CString) : ℤ := (atol text).bmod (2 ^ 32)

/-- What a parser fills in from `YYYYMMDD-HHMMSS`, with its setting for daylight saving time. -/
def parsedTm (isdst : ℤ) (fileName : CString) : TmFields :=
  let vDate := atoiInt fileName
  let vTime := atoiInt (fileName.drop 9)
  { tmYear := vDate.tdiv 10000 - 1900
    tmMon := (vDate.tmod 10000).tdiv 100 - 1
    tmMday := vDate.tmod 100
    tmHour := vTime.tdiv 10000
    tmMin := (vTime.tmod 10000).tdiv 100
    tmSec := vTime.tmod 100
    tmIsdst := isdst }

/-- What follows the last slash of a path. -/
def baseName (path : CString) : Option CString :=
  if '/' ∈ path then some (path.rtakeWhile (· ≠ '/')) else none

/-- What `file_name_to_epoch` returns for a path without a file name. -/
def maxTimeT : ℤ := 2147483647

/-- The start time in the file name at the end of a path. -/
def pathToEpoch (filePath : Option CString) : ℤ :=
  match filePath.bind baseName with
  | some fileName => mktime (parsedTm (-1) fileName)
  | none => maxTimeT

/-- The duration in the file name at the end of a path. -/
def pathDuration (filePath : Option CString) : ℤ :=
  match filePath.bind baseName with
  | some fileName => atol (fileName.drop 16)
  | none => -1

namespace RaDataSearch

/-- The pattern `[0-9]{8}-[0-9]{6}.[0-9]{9}.[a-zA-Z]+`, character by character: what follows a first
letter does not matter. -/
def raFilePattern : List (Char → Bool) :=
  List.replicate 8 Char.isDigit ++ (· == '-') :: (List.replicate 6 Char.isDigit ++ (fun _ => true) ::
    (List.replicate 9 Char.isDigit ++ [fun _ => true, Char.isAlpha]))

/-- Whether a text starts with characters that fit. -/
def fits : List (Char → Bool) → CString → Bool
  | [], _ => true
  | _ :: _, [] => false
  | p :: pattern, c :: text => p c && fits pattern text

/-- Whether the file name has the pattern of a chunk somewhere. -/
def checkRaFileRegex (file : Option CString) : Bool :=
  match file with
  | some file => file.tails.any (fits raFilePattern)
  | none => false

/-- The parser of the download search, which checks the pattern unless it is built for a dock. -/
def fileNameToEpoch (vdock : Bool) (fileName : CString) : Option ℤ :=
  if !vdock && !checkRaFileRegex (some fileName) then none else some (mktime (parsedTm (-1) fileName))

end RaDataSearch

namespace RaSpaceMonitor

/-- The parser of the space monitor. -/
def fileNameToEpoch (filePath : Option CString) : ℤ := pathToEpoch filePath

/-- The duration the space monitor counts for a file. -/
def getFileDuration (filePath : Option CString) : ℤ := pathDuration filePath

end RaSpaceMonitor

namespace CameraRecordings

/-- The parser of the recording list. -/
def fileNameToEpoch (filePath : Option CString) : ℤ := pathToEpoch filePath

/-- The duration the recording list shows for a file. -/
def getFileDuration (filePath : Option CString) : ℤ := pathDuration filePath

end CameraRecordings

namespace AccessData

/-- The parser of the data access tool. -/
def toEpoch (fileName : CString) : ℤ := mktime (parsedTm (-1) fileName)

end AccessData

namespace RtpdumpFileReader

/-- The parser of the player. -/
def toEoch (fileName : CString) : ℤ := mktime (parsedTm 0 fileName)

end RtpdumpFileReader

/-- Every program reads this time and this duration from the name. -/
structure DecodedAs (name : CString) (t d : ℕ) : Prop where
  dataSearch : ∀ vdock, RaDataSearch.fileNameToEpoch vdock name = some (t : ℤ)
  spaceMonitor : ∀ dir : CString, RaSpaceMonitor.fileNameToEpoch (some (dir ++ '/' :: name)) = t
  spaceMonitorDuration : ∀ dir : CString, RaSpaceMonitor.getFileDuration (some (dir ++ '/' :: name)) = d
  recordingList : ∀ dir : CString, CameraRecordings.fileNameToEpoch (some (dir ++ '/' :: name)) = t
  recordingListDuration : ∀ dir : CString, CameraRecordings.getFileDuration (some (dir ++ '/' :: name)) = d
  accessData : AccessData.toEpoch name = t
  player : RtpdumpFileReader.toEoch name = t

/-- The digits of the date in a name. -/
def dateDigits (tm : Tm) : CString :=
  padded '0' 4 (tm.tmYear + 1900) ++ (padded '0' 2 (tm.tmMon + 1) ++ padded '0' 2 tm.tmMday)

/-- The digits of the time of day in a name. -/
def timeDigits (tm : Tm) : CString := padded '0' 2 tm.tmHour ++ (padded '0' 2 tm.tmMin ++ padded '0' 2 tm.tmSec)

/-- A name is the digits of the date, a hyphen and those of the time of day. -/
theorem chunkFnameOf_eq (tm : Tm) : chunkFnameOf tm = dateDigits tm ++ '-' :: timeDigits tm := by
  have hyear := @padded_of_le ' ' _ _ (by decide : 0 < 3) (show 10 ^ 3 ≤ tm.tmYear + 1900 by omega)
  simp only [chunkFnameOf, dateDigits, timeDigits, hyear, List.append_assoc]

theorem isDigit_dateDigits (tm : Tm) : ∀ c ∈ dateDigits tm, c.isDigit = true :=
  List.forall_mem_append.mpr ⟨isDigit_padded, List.forall_mem_append.mpr ⟨isDigit_padded, isDigit_padded⟩⟩

theorem isDigit_timeDigits (tm : Tm) : ∀ c ∈ timeDigits tm, c.isDigit = true :=
  List.forall_mem_append.mpr ⟨isDigit_padded, List.forall_mem_append.mpr ⟨isDigit_padded, isDigit_padded⟩⟩

section Fields

variable {tm : Tm} (h : tm.InRange) (hyear : tm.tmYear + 1900 ≤ 9999)

include h hyear in
theorem dateDigits_length : (dateDigits tm).length = 8 := by
  have hmon := h.mon
  have hmday := h.mday.2
  simp only [dateDigits, List.length_append]
  rw [padded_length (by decide) (by omega), padded_length (by decide) (by omega), padded_length (by decide) (by omega)]

include h in
theorem timeDigits_length : (timeDigits tm).length = 6 := by
  have hhour := h.hour
  have hmin := h.min
  have hsec := h.sec
  simp only [timeDigits, List.length_append]
  rw [padded_length (by decide) (by omega), padded_length (by decide) (by omega), padded_length (by decide) (by omega)]

include h in
theorem decimalValue_dateDigits :
    decimalValue (dateDigits tm) = (tm.tmYear + 1900) * 10000 + (tm.tmMon + 1) * 100 + tm.tmMday := by
  have hmon := h.mon
  have hmday := h.mday.2
  rw [dateDigits, decimalValue_append, decimalValue_append, List.length_append, padded_length (by decide) (by omega),
    padded_length (by decide) (by omega)]
  simp only [decimalValue_padded]
  omega

include h in
theorem decimalValue_timeDigits :
    decimalValue (timeDigits tm) = tm.tmHour * 10000 + tm.tmMin * 100 + tm.tmSec := by
  have hmin := h.min
  have hsec := h.sec
  rw [timeDigits, decimalValue_append, decimalValue_append, List.length_append, padded_length (by decide) (by omega),
    padded_length (by decide) (by omega)]
  simp only [decimalValue_padded]
  omega

end Fields

/-- A value which fits is read by `atol` as it is printed. -/
theorem atol_digits {digits rest : CString} {c : Char} (hdigits : ∀ d ∈ digits, d.isDigit = true) (hne : digits ≠ [])
    (hc : c.isDigit = false) (hvalue : decimalValue digits < 2 ^ 63) :
    atol (digits ++ c :: rest) = decimalValue digits := by
  rw [atol, atoi_digits hdigits hne hc]
  omega

/-- A value which fits is read by `atoi` as it is printed. -/
theorem atoiInt_digits {digits rest : CString} {c : Char} (hdigits : ∀ d ∈ digits, d.isDigit = true)
    (hne : digits ≠ []) (hc : c.isDigit = false) (hvalue : decimalValue digits < 2 ^ 31) :
    atoiInt (digits ++ c :: rest) = decimalValue digits := by
  rw [atoiInt, atol_digits hdigits hne hc (by omega)]
  exact Int.bmod_eq_of_le (by omega) (by omega)

theorem drop_succ_append {digits rest : CString} {c : Char} {n : ℕ} (h : digits.length = n) :
    (digits ++ c :: rest).drop (n + 1) = rest := by
  rw [← h]
  exact List.drop_length_add_append 1

/-- The parsers find the broken-down time that was printed. -/
theorem parsedTm_chunkFnameOf {tm : Tm} (h : tm.InRange) (hyear : tm.tmYear + 1900 ≤ 9999) (isdst : ℤ)
    (suffix : CString) : parsedTm isdst (chunkFnameOf tm ++ '.' :: suffix) = tm.fields isdst := by
  have hdate := decimalValue_dateDigits h
  have htime := decimalValue_timeDigits h
  have hmon := h.mon
  have hmday := h.mday.2
  have hhour := h.hour
  have hmin := h.min
  have hsec := h.sec
  have hlength := dateDigits_length h hyear
  have hlength' := timeDigits_length h
  have hname : chunkFnameOf tm ++ '.' :: suffix = dateDigits tm ++ '-' :: (timeDigits tm ++ '.' :: suffix) := by
    rw [chunkFnameOf_eq, List.append_assoc, List.cons_append]
  have hvDate : atoiInt (chunkFnameOf tm ++ '.' :: suffix) = decimalValue (dateDigits tm) := by
    rw [hname]
    exact atoiInt_digits (isDigit_dateDigits tm) (by rw [← List.length_pos_iff]; omega) rfl (by omega)
  have hrest : (chunkFnameOf tm ++ '.' :: suffix).drop 9 = timeDigits tm ++ '.' :: suffix := by
    rw [hname]
    exact drop_succ_append hlength
  have hvTime : atoiInt ((chunkFnameOf tm ++ '.' :: suffix).drop 9) = decimalValue (timeDigits tm) := by
    rw [hrest]
    exact atoiInt_digits (isDigit_timeDigits tm) (by rw [← List.length_pos_iff]; omega) rfl (by omega)
  unfold parsedTm Tm.fields
  simp only [hvDate, hvTime, hdate, htime]
  simp (disch := omega) only [Int.tdiv_eq_ediv_of_nonneg, Int.tmod_eq_emod_of_nonneg]
  simp only [TmFields.mk.injEq, and_true]
  omega

/-- Behind the broken-down time and the full stop stands the duration. -/
theorem drop_chunkFnameOf {tm : Tm} (h : tm.InRange) (hyear : tm.tmYear + 1900 ≤ 9999) (suffix : CString) :
    (chunkFnameOf tm ++ '.' :: suffix).drop 16 = suffix := by
  have hlength : (chunkFnameOf tm).length = 15 := by
    rw [chunkFnameOf_eq, List.length_append, List.length_cons, dateDigits_length h hyear, timeDigits_length h]
  exact drop_succ_append hlength

/-- A name is found behind the last slash. -/
theorem baseName_append {name : CString} (h : '/' ∉ name) (dir : CString) : baseName (dir ++ '/' :: name) = some name := by
  have hname : ∀ c ∈ name, (decide (c ≠ '/')) = true := fun c hc => by
    rw [decide_eq_true_eq]
    rintro rfl
    exact h hc
  have hreverse : (dir ++ '/' :: name).reverse = name.reverse ++ '/' :: dir.reverse := by simp
  rw [baseName, if_pos (by simp), List.rtakeWhile, hreverse,
    List.takeWhile_append_of_pos fun c hc => hname c (List.mem_reverse.mp hc), List.takeWhile_cons_of_neg (by simp),
    List.append_nil, List.reverse_reverse]

namespace RaDataSearch

/-- A text fits a pattern in two parts when its parts do. -/
theorem fits_append {p q : List (Char → Bool)} {a b : CString} (hlength : a.length = p.length) (ha : fits p a = true)
    (hb : fits q b = true) : fits (p ++ q) (a ++ b) = true := by
  induction p generalizing a with
  | nil =>
    obtain rfl := List.length_eq_zero_iff.mp hlength
    exact hb
  | cons p ps ih =>
    cases a with
    | nil => cases ha
    | cons c a =>
      rw [fits, Bool.and_eq_true] at ha
      rw [List.cons_append, List.cons_append, fits, Bool.and_eq_true]
      exact ⟨ha.1, ih (Nat.succ.inj hlength) ha.2⟩

/-- Digits fit as many places for digits. -/
theorem fits_digits {digits : CString} (h : ∀ c ∈ digits, c.isDigit = true) :
    fits (List.replicate digits.length Char.isDigit) digits = true := by
  induction digits with
  | nil => rfl
  | cons c rest ih =>
    rw [List.length_cons, List.replicate_succ, fits, Bool.and_eq_true]
    exact ⟨h c List.mem_cons_self, ih fun d hd => h d (List.mem_cons_of_mem c hd)⟩

/-- The names the recorder gives pass the check of the download search. -/
theorem checkRaFileRegex_name {tm : Tm} (h : tm.InRange) (hyear : tm.tmYear + 1900 ≤ 9999) {d : ℕ} (hd : d < 10 ^ 9) :
    checkRaFileRegex (some (chunkFnameOf tm ++ durationSuffix d)) = true := by
  have hdate := fits_digits (isDigit_dateDigits tm)
  have htime := fits_digits (isDigit_timeDigits tm)
  have hduration := fits_digits (@isDigit_padded 9 d)
  rw [dateDigits_length h hyear] at hdate
  rw [timeDigits_length h] at htime
  rw [padded_length (by decide) hd] at hduration
  have hfits : fits raFilePattern (chunkFnameOf tm ++ durationSuffix d) = true := by
    rw [chunkFnameOf_eq, List.append_assoc, List.cons_append, durationSuffix]
    refine fits_append (dateDigits_length h hyear) hdate ?_
    rw [fits, Bool.and_eq_true]
    refine ⟨rfl, fits_append (timeDigits_length h) htime ?_⟩
    rw [fits, Bool.and_eq_true]
    exact ⟨rfl, fits_append (padded_length (by decide) hd) hduration rfl⟩
  rw [checkRaFileRegex, List.any_eq_true]
  exact ⟨_, (List.mem_tails _ _).mpr List.suffix_rfl, hfits⟩

end RaDataSearch

/-- A name contains no slash. -/
theorem slash_notMem_name (tm : Tm) (d : ℕ) : '/' ∉ chunkFnameOf tm ++ durationSuffix d := by
  have hdigits : ∀ {digits : CString}, (∀ c ∈ digits, c.isDigit = true) → '/' ∉ digits :=
    fun h hmem => absurd (h '/' hmem) (by decide)
  rw [chunkFnameOf_eq, durationSuffix]
  simp only [List.mem_append, List.mem_cons, List.not_mem_nil, or_false, not_or]
  exact ⟨⟨hdigits (isDigit_dateDigits tm), by decide, hdigits (isDigit_timeDigits tm)⟩, by decide,
    hdigits isDigit_padded, by decide, by decide, by decide, by decide, by decide⟩

/-- Every program reads the time and the duration of a chunk from its name. -/
theorem decodedAs_name {t d : ℕ} (ht : (gmtime t).tmYear + 1900 ≤ 9999) (hd : d < 10 ^ 9) :
    DecodedAs (chunkFnameOf (gmtime t) ++ durationSuffix d) t d := by
  have hrange := gmtime_inRange t
  have htime : ∀ isdst, mktime (parsedTm isdst (chunkFnameOf (gmtime t) ++ durationSuffix d)) = t := by
    intro isdst
    rw [durationSuffix, parsedTm_chunkFnameOf hrange ht, mktime_gmtime]
  have hbase : ∀ dir : CString, (some (dir ++ '/' :: (chunkFnameOf (gmtime t) ++ durationSuffix d))).bind baseName =
      some (chunkFnameOf (gmtime t) ++ durationSuffix d) := baseName_append (slash_notMem_name _ _)
  have hepoch : ∀ dir : CString, pathToEpoch (some (dir ++ '/' :: (chunkFnameOf (gmtime t) ++ durationSuffix d))) =
      t := by
    intro dir
    rw [pathToEpoch, hbase]
    exact htime (-1)
  have hduration : ∀ dir : CString,
      pathDuration (some (dir ++ '/' :: (chunkFnameOf (gmtime t) ++ durationSuffix d))) = d := by
    intro dir
    have hvalue := decimalValue_padded 9 d
    rw [pathDuration, hbase]
    dsimp only
    rw [durationSuffix, drop_chunkFnameOf hrange ht,
      atol_digits isDigit_padded (by rw [← List.length_pos_iff, padded_length (by decide) hd]; decide) (by decide)
        (by omega), hvalue]
  exact
    { dataSearch := fun vdock => by
        rw [RaDataSearch.fileNameToEpoch, RaDataSearch.checkRaFileRegex_name hrange ht hd, htime]
        simp
      spaceMonitor := hepoch
      spaceMonitorDuration := hduration
      recordingList := hepoch
      recordingListDuration := hduration
      accessData := htime (-1)
      player := htime 0 }

/-- The date-time parts of names are ordered as the times. -/
theorem chunkFnameOf_lt_iff {t t' : ℕ} (ht : (gmtime t).tmYear + 1900 ≤ 9999) (ht' : (gmtime t').tmYear + 1900 ≤ 9999) :
    chunkFnameOf (gmtime t) < chunkFnameOf (gmtime t') ↔ t < t' := by
  have hdays := gmtime_earlierDate_iff t t'
  have hdays' := gmtime_earlierDate_iff t' t
  have hr := gmtime_inRange t
  have hr' := gmtime_inRange t'
  obtain ⟨-, -, hsecond⟩ := gmtime_spec t
  obtain ⟨-, -, hsecond'⟩ := gmtime_spec t'
  have hmday := hr.mday.2
  have hmday' := hr'.mday.2
  have hmon := hr.mon
  have hmon' := hr'.mon
  have hdate : dateDigits (gmtime t) < dateDigits (gmtime t') ↔ t / 86400 < t' / 86400 := by
    rw [← hdays, lt_iff_decimalValue_lt (isDigit_dateDigits _) (isDigit_dateDigits _)
      ((dateDigits_length hr ht).trans (dateDigits_length hr' ht').symm), decimalValue_dateDigits hr,
      decimalValue_dateDigits hr', Tm.EarlierDate]
    omega
  have htime : timeDigits (gmtime t) < timeDigits (gmtime t') ↔ t % 86400 < t' % 86400 := by
    rw [lt_iff_decimalValue_lt (isDigit_timeDigits _) (isDigit_timeDigits _)
      ((timeDigits_length hr).trans (timeDigits_length hr').symm), decimalValue_timeDigits hr,
      decimalValue_timeDigits hr', ← hsecond, ← hsecond', Tm.secondOfDay, Tm.secondOfDay]
    have hmin := hr.min
    have hmin' := hr'.min
    have hsec := hr.sec
    have hsec' := hr'.sec
    omega
  have hsame : dateDigits (gmtime t) = dateDigits (gmtime t') ↔ t / 86400 = t' / 86400 := by
    unfold Tm.EarlierDate at hdays hdays'
    constructor
    · intro h
      have hvalue := congrArg decimalValue h
      rw [decimalValue_dateDigits hr, decimalValue_dateDigits hr'] at hvalue
      omega
    · intro h
      have hyear : (gmtime t).tmYear = (gmtime t').tmYear := by omega
      have hmonth : (gmtime t).tmMon = (gmtime t').tmMon := by omega
      have hday : (gmtime t).tmMday = (gmtime t').tmMday := by omega
      rw [dateDigits, hyear, hmonth, hday, dateDigits]
  have hhyphen : ¬ '-' < '-' := by decide
  rw [chunkFnameOf_eq, chunkFnameOf_eq, append_lt_append_iff ((dateDigits_length hr ht).trans
    (dateDigits_length hr' ht').symm), List.cons_lt_cons_iff, hdate, hsame]
  simp only [hhyphen, false_or, true_and, htime]
  omega

/-- The names of all chunks with a year of four digits and a duration below 1000 seconds are read by
every program as they were written, and their date-time parts are in the order of the times. -/
theorem name_decodes {t t' d : ℕ} (ht : (gmtime t).tmYear + 1900 ≤ 9999) (ht' : (gmtime t').tmYear + 1900 ≤ 9999)
    (hd : d < 10 ^ 9) :
    DecodedAs (chunkFnameOf (gmtime t) ++ durationSuffix d) t d ∧
      (chunkFnameOf (gmtime t) < chunkFnameOf (gmtime t') ↔ t < t') :=
  ⟨decodedAs_name ht hd, chunkFnameOf_lt_iff ht ht'⟩

/-- A leap day, and a second after 2038. -/
theorem name_decodes_leapDay :
    DecodedAs (chunkFnameOf (gmtime 1709251199) ++ durationSuffix 300000000) 1709251199 300000000 ∧
      (chunkFnameOf (gmtime 1709251199) < chunkFnameOf (gmtime 2147483648) ↔ 1709251199 < 2147483648) :=
  name_decodes (by decide +kernel) (by decide +kernel) (by decide)

end RecordingAgent.Metarec
