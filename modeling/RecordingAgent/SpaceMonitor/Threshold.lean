import RecordingAgent.Foundation.Getopt
import RecordingAgent.Metarec.ChunkName

/-!
# The command line of the space monitor

The recording agent starts the space monitor with a limit of free space and the base directories of
the drives. For the limit it writes the maximum age of the recordings, in hours; the monitor reads a
percentage.
-/

namespace RecordingAgent.SpaceMonitor

open Foundation Metarec

/-- What the command line is made of: the texts in the configuration of a recorder. -/
structure RecorderTexts where
  maxAge : CString
  chmFootageBase : CString
  rssdFootageBase : CString
  maxAge_length : maxAge.length ≤ 11 := by decide
  chm_length : chmFootageBase.length ≤ 63 := by decide
  rssd_length : rssdFootageBase.length ≤ 63 := by decide
  deriving DecidableEq

/-- `SPACEMON_APP`. -/
def spacemonApp : CString := "/opt/reagent/bin/space_monitor".toList

/-- `LWE_MAXARG`. -/
def lweMaxarg : ℕ := 32

/-- Light-weight word expansion. -/
def lWordexp (words : CString) : List CString := tokens ' ' lweMaxarg words

/-- The variable `max_age` after the recorders so far: one with an empty text leaves it as it was. -/
def maxAgeAfter (recorders : List RecorderTexts) : ℤ :=
  recorders.foldl (fun maxAge m => if m.maxAge ≠ [] then atoiInt m.maxAge else maxAge) 0

/-- The command of the space monitor, printed into a buffer of 1024 characters. -/
def workerCmd (maxAge : ℤ) (m : RecorderTexts) : CString :=
  (spacemonApp ++ " -l ".toList ++ signedDigits maxAge ++ ' ' :: (m.chmFootageBase ++ ' ' :: m.rssdFootageBase)).take 1022

/-- The words with which `raconf_init` prepares the start of the monitor for a recorder. -/
def spacemonWords (earlier : List RecorderTexts) (m : RecorderTexts) : List CString :=
  lWordexp (workerCmd (maxAgeAfter (earlier ++ [m])) m)

/-- `FREE_SPACE_LIMIT`. -/
def freeSpaceLimit : ℤ := 20

/-- What the monitor takes from its command line. -/
structure MonitorArgs where
  verbose : Bool := false
  spaceThreshold : ℤ := freeSpaceLimit
  dirList : List CString := []
  deriving DecidableEq

/-- The options `h?vl:`. -/
def monitorOptions (c : Char) : Option Bool :=
  if c = 'l' then some true else if c ∈ ['h', '?', 'v'] then some false else none

/-- The limit that is taken for a number. -/
def limitOf (limit : ℤ) : ℤ := if limit < 20 ∨ limit = 999999 then 20 else limit

/-- The loop over the options, and whether it got to their end. -/
def takeOptions : MonitorArgs → List Opt → MonitorArgs × Bool
  | s, [] => (s, true)
  | s, .flag 'v' :: opts => takeOptions { s with verbose := true } opts
  | s, .value 'l' optarg :: opts => takeOptions { s with spaceThreshold := limitOf (atoiInt optarg) } opts
  | s, _ :: _ => (s, false)

/-- Parse the arguments behind the name of the program. What is returned tells success. -/
def parseArg (args : List CString) : Bool × MonitorArgs :=
  match takeOptions {} (getopt monitorOptions args).1, (getopt monitorOptions args).2 with
  | (s, false), _ => (true, s)
  | (s, true), [] => (false, s)
  | (s, true), operands => (true, { s with dirList := operands.take 16 })

/-- The arguments of `-l` which are taken. -/
def takenLimits : List Opt → List CString
  | .flag 'v' :: opts => takenLimits opts
  | .value 'l' optarg :: opts => optarg :: takenLimits opts
  | _ => []

/-- The number which is taken for the limit: the last argument of `-l` in the base directories, if one
of them has one, and the maximum age otherwise. -/
def givenLimit (earlier : List RecorderTexts) (m : RecorderTexts) : ℤ :=
  let words := tokens ' ' (lweMaxarg - 3) (m.chmFootageBase ++ ' ' :: m.rssdFootageBase)
  ((takenLimits (getopt monitorOptions words).1).getLast?.map atoiInt).getD (maxAgeAfter (earlier ++ [m]))

/-- The threshold is what the last argument of `-l` says. -/
theorem takeOptions_spaceThreshold (s : MonitorArgs) (opts : List Opt) :
    (takeOptions s opts).1.spaceThreshold =
      ((takenLimits opts).getLast?.map fun optarg => limitOf (atoiInt optarg)).getD s.spaceThreshold := by
  fun_induction takeOptions s opts with
  | case1 s => rfl
  | case2 s opts ih => exact ih
  | case3 s optarg opts ih =>
    rw [ih, takenLimits, List.getLast?_cons]
    cases (takenLimits opts).getLast? <;> rfl
  | case4 s opt opts hverbose hlimit =>
    rw [takenLimits]
    · rfl
    · exact fun _ heq => hverbose (List.cons.inj heq).1
    · exact fun _ _ heq => hlimit _ (List.cons.inj heq).1

theorem parseArg_spaceThreshold (args : List CString) : (parseArg args).2.spaceThreshold =
    ((takenLimits (getopt monitorOptions args).1).getLast?.map fun optarg => limitOf (atoiInt optarg)).getD freeSpaceLimit := by
  rw [← takeOptions_spaceThreshold {} (getopt monitorOptions args).1]
  unfold parseArg
  generalize takeOptions {} (getopt monitorOptions args).1 = taken
  obtain ⟨s, done⟩ := taken
  cases done with
  | false => rfl
  | true => cases (getopt monitorOptions args).2 <;> rfl

/-- `atoi` returns an `int`. -/
theorem atoiInt_range (text : CString) : -2 ^ 31 ≤ atoiInt text ∧ atoiInt text < 2 ^ 31 := by
  have hle := @Int.le_bmod (atol text) (2 ^ 32) (by decide)
  have hlt := @Int.bmod_lt (atol text) (2 ^ 32) (by decide)
  exact ⟨hle, hlt⟩

/-- `max_age` is an `int`. -/
theorem maxAgeAfter_range (recorders : List RecorderTexts) :
    -2 ^ 31 ≤ maxAgeAfter recorders ∧ maxAgeAfter recorders < 2 ^ 31 := by
  refine foldl_invariant (I := fun z : ℤ => -2 ^ 31 ≤ z ∧ z < 2 ^ 31) (by decide) fun z m _ hz => ?_
  split
  · exact atoiInt_range _
  · exact hz

/-- An `int` is read as it is printed. -/
theorem atoiInt_signedDigits {z : ℤ} (h : -2 ^ 31 ≤ z ∧ z < 2 ^ 31) : atoiInt (signedDigits z) = z := by
  have hlong : atol (signedDigits z) = z := by
    rw [atol, atoi_signedDigits]
    omega
  rw [atoiInt, hlong]
  exact Int.bmod_eq_of_le (by omega) (by omega)

/-- The command fits its buffer. -/
theorem workerCmd_eq {maxAge : ℤ} (h : -2 ^ 31 ≤ maxAge ∧ maxAge < 2 ^ 31) (m : RecorderTexts) :
    workerCmd maxAge m = spacemonApp ++ ' ' :: (['-', 'l'] ++ ' ' :: (signedDigits maxAge ++ ' ' ::
      (m.chmFootageBase ++ ' ' :: m.rssdFootageBase))) := by
  have hdigits := signedDigits_length_le h
  have hchm := m.chm_length
  have hrssd := m.rssd_length
  have happ : spacemonApp.length = 30 := by decide
  unfold workerCmd
  rw [List.take_of_length_le]
  · simp
  · simp only [List.length_append, List.length_cons, happ]
    have hoption : " -l ".toList.length = 4 := by decide
    omega

/-- The words of the command are the program, the option and its argument, and those of the base directories. -/
theorem spacemonWords_eq (earlier : List RecorderTexts) (m : RecorderTexts) :
    spacemonWords earlier m = spacemonApp :: ['-', 'l'] :: signedDigits (maxAgeAfter (earlier ++ [m])) ::
      tokens ' ' (lweMaxarg - 3) (m.chmFootageBase ++ ' ' :: m.rssdFootageBase) := by
  have hblank : ' ' ∉ signedDigits (maxAgeAfter (earlier ++ [m])) := by
    intro hmem
    rcases mem_signedDigits hmem with hdigit | hminus
    · exact absurd hdigit (by decide)
    · exact absurd hminus (by decide)
  rw [spacemonWords, lWordexp, workerCmd_eq (maxAgeAfter_range _)]
  rw [show lweMaxarg = lweMaxarg - 3 + 1 + 1 + 1 from rfl, tokens_append (by decide) (by decide),
    tokens_append (by decide) (by decide), tokens_append hblank (signedDigits_ne_nil _)]
  rfl

/-- The threshold is what the number given for the limit says. -/
theorem spaceThreshold_eq (earlier : List RecorderTexts) (m : RecorderTexts) :
    (parseArg (spacemonWords earlier m).tail).2.spaceThreshold = limitOf (givenLimit earlier m) := by
  have hlimit : monitorOptions 'l' = some true := by decide
  rw [parseArg_spaceThreshold, spacemonWords_eq, List.tail_cons, getopt_value hlimit (by decide), takenLimits,
    List.getLast?_cons, givenLimit]
  cases (takenLimits (getopt monitorOptions (tokens _ _ _)).1).getLast? with
  | none => simp [atoiInt_signedDigits (maxAgeAfter_range _)]
  | some optarg => rfl

/-- The threshold of the monitor is a sane percentage exactly when the number given for the limit is at
most 100, or 999999. -/
theorem spaceThreshold_sane_iff (earlier : List RecorderTexts) (m : RecorderTexts) :
    (20 ≤ (parseArg (spacemonWords earlier m).tail).2.spaceThreshold ∧
        (parseArg (spacemonWords earlier m).tail).2.spaceThreshold ≤ 100) ↔
      givenLimit earlier m ≤ 100 ∨ givenLimit earlier m = 999999 := by
  rw [spaceThreshold_eq, limitOf]
  split <;> omega

/-- A maximum age of thirty days becomes a threshold of 720 percent. -/
theorem spaceThreshold_not_sane : ¬ ∀ (earlier : List RecorderTexts) (m : RecorderTexts),
    20 ≤ (parseArg (spacemonWords earlier m).tail).2.spaceThreshold ∧
      (parseArg (spacemonWords earlier m).tail).2.spaceThreshold ≤ 100 := by
  intro h
  have hsane := h [] { maxAge := "720".toList, chmFootageBase := "/mnt/chm".toList, rssdFootageBase := "/mnt/rssd".toList }
  rw [spaceThreshold_eq] at hsane
  exact absurd hsane (by decide +kernel)

end RecordingAgent.SpaceMonitor
