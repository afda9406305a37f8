import RecordingAgent.Foundation.Getopt
import RecordingAgent.Foundation.Mktime
import RecordingAgent.Foundation.Strptime
import RecordingAgent.Metacollector.Document

/-!
# The arguments of the collector

The program of the collector takes from its arguments the drive, the locomotive, the span of time and the kinds of
metadata, and a file for the document. A time is read in UTC. Without a locomotive, or with an option which is not
known or lacks its argument, nothing is written. The step down from the privileges of the superuser is not modelled.
-/

namespace RecordingAgent.Metacollector

open Foundation

/-- `"%Y%m%dT%H%M%S"` -/
def inputFormat : List Directive :=
  [.number 4 0 9999, .number 2 1 12, .number 2 1 31, .char 'T', .number 2 0 23, .number 2 0 59, .number 2 0 61]

/-- `parse_input_timestamp` -/
def parseInputTimestamp (strtime : CString) : ℕ :=
  if strtime = [] then 0
  else match strptime inputFormat strtime with
    | some [year, mon, mday, hour, min, sec] =>
      (mktime ⟨(year : ℤ) - 1900, (mon : ℤ) - 1, mday, hour, min, sec, 0⟩ % 2 ^ 64).toNat
    | _ => 0

/-- The variables of `main`: the fields of `chan` which the document is written from, its other fields, and `use_pipe`. -/
structure MainArgs where
  chan : CollectorInputChan
  locoId : CString
  subpath : CString
  usePipe : Bool
  deriving DecidableEq

/-- How they are initialized. -/
def MainArgs.initial : MainArgs where
  chan := ⟨[], 0, 0, false, false, false, false, false, []⟩
  locoId := []
  subpath := "METADATA".toList
  usePipe := false

/-- `":d:l:k:s:e:t:g:i:v:hp"` -/
def collectorOptions (c : Char) : Option Bool :=
  if c ∈ "dlksetgiv".toList then some true else if c ∈ "hp".toList then some false else none

/-- The footage of a drive. -/
def storageLocationOf (device : CString) : CString :=
  if device = "SSD".toList then "/mnt/removableSSD/video/VideoFootages/".toList
  else "/mnt/chmSSD/video/VideoFootages/".toList

/-- Whether a kind of metadata is asked for. -/
def isTrue (optarg : CString) : Bool := optarg == "true".toList

/-- An option is taken, unless it ends the program. -/
def MainArgs.takeOption (s : MainArgs) : Opt → Option MainArgs
  | .value 'd' optarg => some { s with chan := { s.chan with storageLocation := storageLocationOf optarg } }
  | .value 'l' optarg => some { s with locoId := (optarg ++ (List.replicate 10 '_').drop optarg.length).take 10 }
  | .value 'k' optarg => some { s with subpath := optarg.take 127 }
  | .value 's' optarg => some { s with chan := { s.chan with startTime := parseInputTimestamp optarg } }
  | .value 'e' optarg => some { s with chan := { s.chan with endTime := parseInputTimestamp optarg } }
  | .value 'g' optarg => some { s with chan := { s.chan with gpsEnabled := s.chan.gpsEnabled || isTrue optarg } }
  | .value 'v' optarg => some { s with chan := { s.chan with eventEnabled := s.chan.eventEnabled || isTrue optarg } }
  | .value 't' optarg =>
    some { s with chan := { s.chan with timeoffsetEnable := s.chan.timeoffsetEnable || isTrue optarg } }
  | .value 'i' optarg => some { s with chan := { s.chan with locoIdEnable := s.chan.locoIdEnable || isTrue optarg } }
  | .flag 'h' => some { s with chan := { s.chan with validateHash := true } }
  | .flag 'p' => some { s with usePipe := true }
  | .unknown => none
  | _ => some s

/-- What `main` makes of the arguments behind the name of the program, if it gets to write the document. -/
def parseMainArgs (args : List CString) : Option MainArgs :=
  let words := getopt collectorOptions args
  (words.1.foldlM MainArgs.takeOption .initial).bind fun s =>
    let file := (words.2.head?.map fun operand => operand.take 255).getD []
    if s.locoId = [] then none else some { s with chan := { s.chan with file } }

/-- The numbers of a time in the format. -/
def inputValues (tm : Tm) : List ℕ :=
  [tm.tmYear + 1900, tm.tmMon + 1, tm.tmMday, tm.tmHour, tm.tmMin, tm.tmSec]

theorem fits_inputValues {tm : Tm} (h : tm.InRange) (hyear : tm.tmYear + 1900 ≤ 9999) :
    Fits inputFormat (inputValues tm) := by
  obtain ⟨-, hmon, hmday, hhour, hmin, hsec⟩ := h
  simp only [inputFormat, inputValues, Fits, and_true]
  omega

/-- A time which was printed in the format is read as if it were in UTC. -/
theorem parseInputTimestamp_strftime {tm : Tm} (h : tm.InRange) (hyear : tm.tmYear + 1900 ≤ 9999) :
    parseInputTimestamp (strftime inputFormat (inputValues tm)) = (mktime (tm.fields 0) % 2 ^ 64).toNat := by
  have hread := strptime_strftime (fits_inputValues h hyear) []
  rw [List.append_nil] at hread
  have hne : strftime inputFormat (inputValues tm) ≠ [] := by
    intro hempty
    rw [hempty] at hread
    cases hread
  have hfields : (⟨((tm.tmYear + 1900 : ℕ) : ℤ) - 1900, ((tm.tmMon + 1 : ℕ) : ℤ) - 1, tm.tmMday, tm.tmHour, tm.tmMin,
      tm.tmSec, 0⟩ : TmFields) = tm.fields 0 := by
    rw [Nat.cast_add, Nat.cast_add, Nat.cast_one, add_sub_cancel_right]
    exact congrArg (fun year => (⟨year, tm.tmMon, tm.tmMday, tm.tmHour, tm.tmMin, tm.tmSec, 0⟩ : TmFields))
      (add_sub_cancel_right _ _)
  rw [parseInputTimestamp, if_neg hne, hread, inputValues]
  dsimp only
  rw [hfields]

end RecordingAgent.Metacollector
