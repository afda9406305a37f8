import Mathlib.Data.List.Nodup
import RecordingAgent.Foundation.CString

/-!
# The names of the digital inputs

The table which maps the numbers of the digital inputs to their names. A row with the number zero is
free, and a row that is taken gets its name by a copy as long as the name it had, which in every row is
empty. The number of rows and the size of a name are constants of the message interface, which is not
part of the repository; they are parameters here.
-/

namespace RecordingAgent.Metarec

open Foundation

/-- `digital_input_descriptor_t`. The number is one that fits its field. -/
structure DigitalInput where
  diName : CString
  diNumber : ℤ
  diRecording : Bool
  deriving DecidableEq, Repr

/-- The table before any call: the three rows of its initializer, and zeroed rows behind them. -/
def digitalEventsConfigMap (numDigitalInputs : ℕ) : List DigitalInput :=
  [⟨[], 0, false⟩, ⟨[], 1, false⟩, ⟨[], 2, false⟩] ++
    List.replicate (numDigitalInputs - 3) ⟨[], 0, false⟩

/-- `set_digital_input_config`: what it returns, and the table. -/
def setDigitalInputConfig (digitalName : CString) (digitalNumber : ℤ) (digitalRecording : Bool) :
    List DigitalInput → ℤ × List DigitalInput
  | [] => (0, [])
  | row :: rest =>
    if row.diNumber = 0 then
      (1, ⟨strncpy row.diName digitalName row.diName.length, digitalNumber, digitalRecording⟩ :: rest)
    else
      let (rc, rest') := setDigitalInputConfig digitalName digitalNumber digitalRecording rest
      (rc, row :: rest')

/-- `get_digital_input_name`: what it returns, and the text of the buffer if there is one. -/
def getDigitalInputName (digitalNumber : ℤ) (digitalName : Option CString) :
    List DigitalInput → ℤ × Option CString
  | [] => (0, digitalName)
  | row :: rest =>
    if row.diNumber = digitalNumber then
      match digitalName with
      | some buf => (1, some (strncpy buf row.diName buf.length))
      | none => getDigitalInputName digitalNumber digitalName rest
    else getDigitalInputName digitalNumber digitalName rest

/-- A sequence of calls of `set_digital_input_config`: what they return, and the table behind them. -/
def setAllInputs : List DigitalInput → List DigitalInput → List ℤ × List DigitalInput
  | table, [] => ([], table)
  | table, d :: calls =>
    let (rc, table') := setDigitalInputConfig d.diName d.diNumber d.diRecording table
    let (rcs, table'') := setAllInputs table' calls
    (rc :: rcs, table'')

/-- The calls a configuration makes: as many as there are rows at most, with distinct numbers that are
not zero, and names which fit their field. -/
structure Assignable (numDigitalInputs nameSize : ℕ) (calls : List DigitalInput) : Prop where
  length_le : calls.length ≤ numDigitalInputs
  nodup : (calls.map DigitalInput.diNumber).Nodup
  number_ne : ∀ d ∈ calls, d.diNumber ≠ 0
  name_lt : ∀ d ∈ calls, d.diName.length < nameSize

/-- Every call succeeds, each configured number has its name, and no other number has one. -/
structure Remembers (numDigitalInputs : ℕ) (calls : List DigitalInput) : Prop where
  succeeds : ∀ rc ∈ (setAllInputs (digitalEventsConfigMap numDigitalInputs) calls).1, rc = 1
  found : ∀ d ∈ calls, ∀ buf : CString,
    getDigitalInputName d.diNumber (some buf) (setAllInputs (digitalEventsConfigMap numDigitalInputs) calls).2 =
      (1, some d.diName)
  others : ∀ number, number ∉ calls.map DigitalInput.diNumber → ∀ buf : CString,
    (getDigitalInputName number (some buf) (setAllInputs (digitalEventsConfigMap numDigitalInputs) calls).2).1 = 0

variable {table calls : List DigitalInput} {name : CString} {number : ℤ} {recording : Bool}

/-- The rows which are not taken. -/
def freeRows (table : List DigitalInput) : ℕ := table.countP (·.diNumber = 0)

/-- No row has a name. -/
def Nameless (table : List DigitalInput) : Prop := ∀ row ∈ table, row.diName = []

/-- A call succeeds exactly if a row is free. -/
theorem setDigitalInputConfig_fst (table : List DigitalInput) :
    (setDigitalInputConfig name number recording table).1 = if freeRows table = 0 then 0 else 1 := by
  induction table with
  | nil => rfl
  | cons row rest ih =>
    rw [setDigitalInputConfig, freeRows, List.countP_cons]
    by_cases hfree : row.diNumber = 0
    · simp [hfree]
    · simpa [hfree, freeRows] using ih

/-- A call that succeeds takes one row. -/
theorem freeRows_setDigitalInputConfig (name : CString) (recording : Bool) (hnumber : number ≠ 0)
    (table : List DigitalInput) :
    freeRows (setDigitalInputConfig name number recording table).2 = freeRows table - 1 := by
  induction table with
  | nil => rfl
  | cons row rest ih =>
    rw [setDigitalInputConfig]
    by_cases hfree : row.diNumber = 0
    · simp [hfree, hnumber, freeRows]
    · simpa [hfree, freeRows] using ih

/-- Behind a call that succeeds the table has the new number and those it had. -/
theorem mem_setDigitalInputConfig {m : ℤ} (hm : m ≠ 0) (hfree : freeRows table ≠ 0) :
    m ∈ ((setDigitalInputConfig name number recording table).2).map DigitalInput.diNumber ↔
      m = number ∨ m ∈ table.map DigitalInput.diNumber := by
  induction table with
  | nil => exact absurd rfl hfree
  | cons row rest ih =>
    rw [setDigitalInputConfig]
    by_cases hrow : row.diNumber = 0
    · simp [hrow, hm]
    · have hrest : freeRows rest ≠ 0 := by simpa [freeRows, hrow] using hfree
      simp only [hrow, if_false, List.map_cons, List.mem_cons, ih hrest]
      tauto

/-- The name of a row without one has no room for another. -/
theorem Nameless.setDigitalInputConfig (h : Nameless table) :
    Nameless (setDigitalInputConfig name number recording table).2 := by
  induction table with
  | nil => exact h
  | cons row rest ih =>
    rw [Metarec.setDigitalInputConfig]
    have hrow : row.diName = [] := h row List.mem_cons_self
    have hrest : Nameless rest := fun r hr => h r (List.mem_cons_of_mem row hr)
    split
    · intro r hr
      rcases List.mem_cons.mp hr with rfl | hr
      · change strncpy row.diName name row.diName.length = []
        rw [strncpy_length, hrow, List.length_nil, List.take_zero]
      · exact hrest r hr
    · intro r hr
      rcases List.mem_cons.mp hr with rfl | hr
      · exact hrow
      · exact ih hrest r hr

/-- In a table without names, a number is found with the empty name. -/
theorem Nameless.getDigitalInputName (h : Nameless table) (number : ℤ) (buf : CString) :
    getDigitalInputName number (some buf) table =
      if number ∈ table.map DigitalInput.diNumber then (1, some []) else (0, some buf) := by
  induction table with
  | nil => rfl
  | cons row rest ih =>
    have hrow : row.diName = [] := h row List.mem_cons_self
    have hrec := ih fun r hr => h r (List.mem_cons_of_mem row hr)
    rw [Metarec.getDigitalInputName]
    by_cases heq : row.diNumber = number
    · simp [heq, hrow, strncpy_length]
    · simp [heq, Ne.symm heq, hrec]

/-- Calls all succeed exactly if they find a free row each. -/
theorem setAllInputs_fst (hcalls : ∀ d ∈ calls, d.diNumber ≠ 0) :
    (∀ rc ∈ (setAllInputs table calls).1, rc = 1) ↔ calls.length ≤ freeRows table := by
  induction calls generalizing table with
  | nil => simp [setAllInputs]
  | cons d calls ih =>
    have hrest := @ih (setDigitalInputConfig d.diName d.diNumber d.diRecording table).2
      fun e he => hcalls e (List.mem_cons_of_mem d he)
    rw [freeRows_setDigitalInputConfig _ _ (hcalls d List.mem_cons_self)] at hrest
    simp only [setAllInputs, List.forall_mem_cons, hrest, setDigitalInputConfig_fst, List.length_cons]
    split <;> omega

/-- What calls that find a free row each leave: the rows they took are not free, and the table has their
numbers and those it had. -/
theorem setAllInputs_snd (hcalls : ∀ d ∈ calls, d.diNumber ≠ 0) (hroom : calls.length ≤ freeRows table) :
    freeRows (setAllInputs table calls).2 = freeRows table - calls.length ∧
      ∀ m ≠ 0, m ∈ (setAllInputs table calls).2.map DigitalInput.diNumber ↔
        m ∈ calls.map DigitalInput.diNumber ∨ m ∈ table.map DigitalInput.diNumber := by
  induction calls generalizing table with
  | nil => simp [setAllInputs]
  | cons d calls ih =>
    have hd : d.diNumber ≠ 0 := hcalls d List.mem_cons_self
    have hfree := freeRows_setDigitalInputConfig d.diName d.diRecording hd table
    rw [List.length_cons] at hroom
    obtain ⟨hcount, hnumbers⟩ := @ih (setDigitalInputConfig d.diName d.diNumber d.diRecording table).2
      (fun e he => hcalls e (List.mem_cons_of_mem d he)) (by omega)
    constructor
    · simp only [setAllInputs, List.length_cons]
      omega
    · intro m hm
      simp only [setAllInputs, hnumbers m hm, mem_setDigitalInputConfig hm (show freeRows table ≠ 0 by omega),
        List.map_cons, List.mem_cons]
      tauto

theorem Nameless.setAllInputs (h : Nameless table) : Nameless (setAllInputs table calls).2 := by
  induction calls generalizing table with
  | nil => exact h
  | cons d calls ih => exact ih h.setDigitalInputConfig

theorem nameless_digitalEventsConfigMap (n : ℕ) : Nameless (digitalEventsConfigMap n) := by
  intro row hrow
  simp only [digitalEventsConfigMap, List.mem_append, List.mem_replicate, List.mem_cons, List.not_mem_nil,
    or_false] at hrow
  rcases hrow with (rfl | rfl | rfl) | ⟨-, rfl⟩ <;> rfl

/-- All rows but those of the numbers one and two are free. -/
theorem freeRows_digitalEventsConfigMap {n : ℕ} (hn : 3 ≤ n) : freeRows (digitalEventsConfigMap n) = n - 2 := by
  simp [digitalEventsConfigMap, freeRows, List.countP_replicate]
  omega

/-- A number other than zero is one of the initializer's. -/
theorem mem_digitalEventsConfigMap (n : ℕ) {m : ℤ} (hm : m ≠ 0) :
    m ∈ (digitalEventsConfigMap n).map DigitalInput.diNumber ↔ m = 1 ∨ m = 2 := by
  simp [digitalEventsConfigMap, hm]

/-- A table has the number zero exactly if a row is free. -/
theorem zero_mem_iff_freeRows : (0 : ℤ) ∈ table.map DigitalInput.diNumber ↔ freeRows table ≠ 0 := by
  rw [freeRows, ne_eq, List.countP_eq_zero]
  simp

/-- The names are remembered exactly if all of them are empty, and the calls take all the free rows and
configure the two numbers that the table begins with. -/
theorem remembers_iff {numDigitalInputs nameSize : ℕ} (hrows : 3 ≤ numDigitalInputs)
    (hcalls : Assignable numDigitalInputs nameSize calls) :
    Remembers numDigitalInputs calls ↔
      (∀ d ∈ calls, d.diName = []) ∧ calls.length = numDigitalInputs - 2 ∧
        1 ∈ calls.map DigitalInput.diNumber ∧ 2 ∈ calls.map DigitalInput.diNumber := by
  have hfree := freeRows_digitalEventsConfigMap hrows
  have hnumbers := @mem_digitalEventsConfigMap numDigitalInputs
  have hnameless : Nameless (setAllInputs (digitalEventsConfigMap numDigitalInputs) calls).2 :=
    (nameless_digitalEventsConfigMap numDigitalInputs).setAllInputs
  have hget := hnameless.getDigitalInputName
  constructor
  · rintro ⟨hsucceeds, hfound, hothers⟩
    have hroom := (setAllInputs_fst hcalls.number_ne).mp hsucceeds
    obtain ⟨hcount, hmem⟩ := setAllInputs_snd hcalls.number_ne hroom
    -- a number which the table has is found, so it is configured
    have hconfigured : ∀ m, m ∈ (setAllInputs (digitalEventsConfigMap numDigitalInputs) calls).2.map
        DigitalInput.diNumber → m ∈ calls.map DigitalInput.diNumber := by
      intro m hm
      by_contra hother
      have h := hothers m hother []
      rw [hget, if_pos hm] at h
      cases h
    have hzero : (0 : ℤ) ∉ calls.map DigitalInput.diNumber := by
      intro h
      obtain ⟨d, hd, hnumber⟩ := List.mem_map.mp h
      exact hcalls.number_ne d hd hnumber
    have hfull : freeRows (setAllInputs (digitalEventsConfigMap numDigitalInputs) calls).2 = 0 := by
      by_contra h
      exact hzero (hconfigured 0 (zero_mem_iff_freeRows.mpr h))
    refine ⟨?_, by omega, ?_, ?_⟩
    · intro d hd
      have hname := hfound d hd []
      have hin := (hmem d.diNumber (hcalls.number_ne d hd)).mpr (Or.inl (List.mem_map_of_mem hd))
      rw [hget, if_pos hin] at hname
      simpa using hname.symm
    · exact hconfigured 1 ((hmem 1 (by decide)).mpr (Or.inr ((hnumbers (by decide)).mpr (Or.inl rfl))))
    · exact hconfigured 2 ((hmem 2 (by decide)).mpr (Or.inr ((hnumbers (by decide)).mpr (Or.inr rfl))))
  · rintro ⟨hnames, hlength, hone, htwo⟩
    have hroom : calls.length ≤ freeRows (digitalEventsConfigMap numDigitalInputs) := by omega
    obtain ⟨hcount, hmem⟩ := setAllInputs_snd hcalls.number_ne hroom
    constructor
    · exact (setAllInputs_fst hcalls.number_ne).mpr hroom
    · intro d hd buf
      have hin := (hmem d.diNumber (hcalls.number_ne d hd)).mpr (Or.inl (List.mem_map_of_mem hd))
      rw [hget, if_pos hin, hnames d hd]
    · intro m hm buf
      have hout : m ∉ (setAllInputs (digitalEventsConfigMap numDigitalInputs) calls).2.map DigitalInput.diNumber := by
        intro hin
        by_cases hzero : m = 0
        · subst hzero
          have hrow := zero_mem_iff_freeRows.mp hin
          omega
        · rcases (hmem m hzero).mp hin with h | h
          · exact hm h
          · rcases (hnumbers hzero).mp h with rfl | rfl
            · exact hm hone
            · exact hm htwo
      rw [hget, if_neg hout]

/-- A table of four rows, whose two free rows are configured without names. -/
theorem remembers_unnamed : Remembers 4 [⟨[], 2, true⟩, ⟨[], 1, false⟩] := by
  have hcalls : Assignable 4 1 [⟨[], 2, true⟩, ⟨[], 1, false⟩] := by constructor <;> decide
  exact (remembers_iff (by decide) hcalls).mpr (by decide)

/-- One input with a name: it is taken, and found without its name. -/
theorem not_remembers_named :
    Assignable 3 16 [⟨['D', 'O', 'O', 'R'], 5, true⟩] ∧ ¬ Remembers 3 [⟨['D', 'O', 'O', 'R'], 5, true⟩] := by
  constructor
  · constructor <;> decide
  · intro h
    have hfound := h.found ⟨['D', 'O', 'O', 'R'], 5, true⟩ List.mem_cons_self ['x', 'x', 'x', 'x', 'x']
    exact absurd hfound (by decide)

end RecordingAgent.Metarec
