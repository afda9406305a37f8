import Mathlib.Algebra.Order.Field.Rat
import RecordingAgent.SpaceMonitor.OldestFile

/-!
# Grooming by free space

The monitor deletes oldest files from a drive while the free space it measures is below the
threshold. A measurement is the exact percentage, or a failure; the function which measures returns
`EXIT_FAILURE` for a failure, a number like the percentages.
-/

namespace RecordingAgent.SpaceMonitor

open Foundation

/-- `EXIT_FAILURE`, as the percentage it is compared with. -/
def exitFailure : ℚ := 1

/-- The number which is returned for a measurement. -/
def processAvailableSpace (measurement : Option ℚ) : ℚ := measurement.getD exitFailure

/-- A measurement, and what follows it: whether a deletion was attempted and succeeded. -/
abbrev Groom := Option ℚ × Option Bool

/-- What one run of the handler depends on: the paths of the drives, the outcome of each measurement,
and which file may be removed in each deletion. -/
structure Surroundings where
  driveArray : DriveArray
  measurement : ℕ → Option ℚ
  removable : ℕ → TreePath → Bool

/-- The drive of a base directory. -/
def driveOfBase (base : CString) : ℕ := if strstr base "chm".toList = none then 1 else 0

section

variable (env : Surroundings) (spaceThreshold : ℤ) (drive : ℕ)

/-- One deletion of the loop. -/
def groomOldest (k : ℕ) (drives : ℕ → Dir) : Bool × (ℕ → Dir) :=
  deleteOldestFile env.driveArray (env.removable k) drives drive none

/-- The loop of the handler from the `k`-th measurement on. -/
def spaceLoop : ℕ → ℕ → (ℕ → Dir) → List Groom
  | 0, _, _ => []
  | fuel + 1, k, drives =>
    if processAvailableSpace (env.measurement k) < spaceThreshold then
      if (groomOldest env drive k drives).1 then
        (env.measurement k, some true) :: spaceLoop fuel (k + 1) (groomOldest env drive k drives).2
      else [(env.measurement k, some false)]
    else [(env.measurement k, none)]

/-- Every deletion takes a file away, so the loop has ended when there were as many deletions as files. -/
def spaceHandler (base : CString) (drives : ℕ → Dir) : List Groom :=
  if processAvailableSpace (env.measurement 0) ≠ exitFailure then
    spaceLoop env spaceThreshold (driveOfBase base) ((drives (driveOfBase base)).files.length + 1) 0 drives
  else [(env.measurement 0, none)]

/-- Whether so many deletions in a row succeed, from the `k`-th on. -/
def Deletable : ℕ → ℕ → (ℕ → Dir) → Prop
  | 0, _, _ => True
  | n + 1, k, drives =>
    (groomOldest env drive k drives).1 = true ∧ Deletable n (k + 1) (groomOldest env drive k drives).2

end

/-- After a measurement a file is deleted only if it succeeded and was below the threshold, and then a
deletion is attempted. -/
def Groom.Justified (spaceThreshold : ℤ) (groom : Groom) : Prop :=
  (groom.2 = some true → ∃ percentage, groom.1 = some percentage ∧ percentage < spaceThreshold) ∧
    ∀ percentage, groom.1 = some percentage → percentage < spaceThreshold → groom.2 ≠ none

variable {env : Surroundings} {spaceThreshold : ℤ} {drive : ℕ}

/-- A deletion which succeeds leaves fewer files. -/
theorem files_length_groomOldest {k : ℕ} {drives : ℕ → Dir} (h : (groomOldest env drive k drives).1 = true) :
    ((groomOldest env drive k drives).2 drive).files.length < (drives drive).files.length := by
  rw [groomOldest, deleteOldestFile_spec.1, Option.isSome_iff_exists] at h
  obtain ⟨p, hp⟩ := h
  obtain ⟨_, _, t, hmem⟩ := deleted_eq_some_iff.mp hp
  rw [groomOldest, deleteOldestFile_spec.2, if_pos rfl]
  apply List.length_filter_lt_length_iff_exists.mpr
  exact ⟨p, (of_mem_candidates (List.argmin_mem hmem)).1, by simp [hp]⟩

/-- More steps than deletions can succeed change nothing. -/
theorem spaceLoop_fuel {fuel fuel' k : ℕ} {drives : ℕ → Dir} (h : (drives drive).files.length < fuel)
    (h' : (drives drive).files.length < fuel') :
    spaceLoop env spaceThreshold drive fuel k drives = spaceLoop env spaceThreshold drive fuel' k drives := by
  induction fuel generalizing fuel' k drives with
  | zero => omega
  | succ fuel ih =>
    cases fuel' with
    | zero => omega
    | succ fuel' =>
      unfold spaceLoop
      split
      · split
        next hsuccess =>
          have hfewer := files_length_groomOldest hsuccess
          rw [ih (by omega : _ < fuel) (by omega : _ < fuel')]
        next => rfl
      · rfl

/-- A measurement which fails, after measurements below the threshold only, and is followed by a
deletion. -/
def FailureDeletes (env : Surroundings) (spaceThreshold : ℤ) (drive k : ℕ) (drives : ℕ → Dir) : Prop :=
  ∃ i, (∀ j < i, ∃ percentage, env.measurement (k + j) = some percentage ∧ percentage < spaceThreshold) ∧
    env.measurement (k + i) = none ∧ Deletable env drive (i + 1) k drives

/-- Either the next measurement is the one, or it is below the threshold and a later one is. -/
theorem failureDeletes_iff {k : ℕ} {drives : ℕ → Dir} : FailureDeletes env spaceThreshold drive k drives ↔
    (env.measurement k = none ∧ (groomOldest env drive k drives).1 = true) ∨
      (∃ percentage, env.measurement k = some percentage ∧ percentage < spaceThreshold) ∧
        (groomOldest env drive k drives).1 = true ∧
        FailureDeletes env spaceThreshold drive (k + 1) (groomOldest env drive k drives).2 := by
  have hshift : ∀ j, k + 1 + j = k + (j + 1) := fun j => by omega
  simp only [FailureDeletes, hshift]
  constructor
  · rintro ⟨i, hbelow, hfailed, hdelete⟩
    cases i with
    | zero => exact Or.inl ⟨hfailed, hdelete.1⟩
    | succ i =>
      obtain ⟨hfirst, hrest⟩ := Nat.forall_lt_succ_left.mp hbelow
      exact Or.inr ⟨hfirst, hdelete.1, i, hrest, hfailed, hdelete.2⟩
  · rintro (⟨hfailed, hsuccess⟩ | ⟨hfirst, hsuccess, i, hrest, hfailed, hdelete⟩)
    · exact ⟨0, fun j hj => absurd hj (Nat.not_lt_zero j), hfailed, hsuccess, trivial⟩
    · exact ⟨i + 1, Nat.forall_lt_succ_left.mpr ⟨hfirst, hrest⟩, hfailed, hsuccess, hdelete⟩

/-- The loop does the right thing exactly when the threshold is too low for the failure to count as low
space, or no failure is followed by a deletion. -/
theorem justified_spaceLoop_iff {fuel k : ℕ} {drives : ℕ → Dir} (hfuel : (drives drive).files.length < fuel) :
    (∀ groom ∈ spaceLoop env spaceThreshold drive fuel k drives, Groom.Justified spaceThreshold groom) ↔
      (exitFailure < spaceThreshold → ¬ FailureDeletes env spaceThreshold drive k drives) := by
  induction fuel generalizing k drives with
  | zero => omega
  | succ fuel ih =>
    unfold spaceLoop
    rw [failureDeletes_iff]
    cases hmeasurement : env.measurement k with
    | none =>
      by_cases hlow : exitFailure < spaceThreshold
      · by_cases hsuccess : (groomOldest env drive k drives).1 = true
        · simp [processAvailableSpace, hlow, hsuccess, Groom.Justified]
        · simp [processAvailableSpace, hlow, hsuccess, Groom.Justified]
      · simp [processAvailableSpace, hlow, Groom.Justified]
    | some percentage =>
      by_cases hlow : percentage < spaceThreshold
      · by_cases hsuccess : (groomOldest env drive k drives).1 = true
        · have hrest := ih (k := k + 1) (Nat.lt_of_lt_of_le (files_length_groomOldest hsuccess) (by omega))
          simp only [processAvailableSpace, Option.getD_some, hlow, hsuccess, if_true, List.forall_mem_cons, hrest]
          simp [Groom.Justified, hlow]
        · simp [processAvailableSpace, hlow, hsuccess, Groom.Justified]
      · simp [processAvailableSpace, hlow, Groom.Justified, not_lt.mp hlow]

/-- Grooming does the right thing exactly when the threshold is at most one percent, or the first
measurement is not exactly one percent and no failed measurement after it is followed by a deletion. -/
theorem justified_spaceHandler_iff (env : Surroundings) (spaceThreshold : ℤ) (base : CString) (drives : ℕ → Dir) :
    (∀ groom ∈ spaceHandler env spaceThreshold base drives, Groom.Justified spaceThreshold groom) ↔
      (spaceThreshold ≤ 1 ∨ env.measurement 0 ≠ some 1 ∧
        ∀ k, 0 < k →
          (∀ j < k, ∃ percentage, env.measurement j = some percentage ∧ percentage < spaceThreshold) →
          env.measurement k = none → ¬ Deletable env (driveOfBase base) (k + 1) 0 drives) := by
  have hcast : exitFailure < spaceThreshold ↔ ¬ spaceThreshold ≤ 1 := by
    rw [exitFailure, not_le]
    exact_mod_cast Iff.rfl
  unfold spaceHandler
  cases hmeasurement : env.measurement 0 with
  | none =>
    refine iff_of_true (by simp [processAvailableSpace, Groom.Justified]) (Or.inr ⟨nofun, ?_⟩)
    intro k hk hbelow
    obtain ⟨_, hfirst, _⟩ := hbelow 0 hk
    cases hmeasurement.symm.trans hfirst
  | some percentage =>
    by_cases hfailure : percentage = exitFailure
    · subst hfailure
      have hentry : (∀ groom ∈ [((some exitFailure, none) : Groom)], Groom.Justified spaceThreshold groom) ↔
          ¬ exitFailure < spaceThreshold := by simp [Groom.Justified]
      have hguard : ¬ processAvailableSpace (some exitFailure) ≠ exitFailure := not_not.mpr rfl
      rw [if_neg hguard, hentry, hcast, not_not]
      exact (or_iff_left fun h => h.1 rfl).symm
    · rw [if_pos (by simpa [processAvailableSpace] using hfailure),
        justified_spaceLoop_iff (Nat.lt_succ_self _), hcast, ← or_iff_not_imp_left]
      refine or_congr_right ?_
      have hnot : some percentage ≠ some (1 : ℚ) := fun h => hfailure (Option.some.inj h)
      simp only [FailureDeletes, Nat.zero_add, not_exists, not_and]
      constructor
      · exact fun h => ⟨hnot, fun k _ => h k⟩
      · intro h k hbelow hfailed
        cases k with
        | zero => cases hmeasurement.symm.trans hfailed
        | succ k => exact h.2 (k + 1) (Nat.succ_pos k) hbelow hfailed

/-- A drive with 10 percent of free space and two chunks, on which the second measurement fails, loses
both chunks. -/
theorem justified_not_failing : ¬ ∀ (env : Surroundings) (spaceThreshold : ℤ) (base : CString) (drives : ℕ → Dir),
    ∀ groom ∈ spaceHandler env spaceThreshold base drives, Groom.Justified spaceThreshold groom := by
  intro h
  have hdeleted : (none, some true) ∈ spaceHandler
      ⟨fun _ => "/mnt/chm".toList, fun k => if k = 0 then some 10 else none, fun _ _ => true⟩ 20 "/mnt/chm".toList
      fun _ => .file "20240101-000000.060".toList (.file "20240101-000100.060".toList .nil) := by decide +kernel
  obtain ⟨_, hmeasured, _⟩ := (h _ _ _ _ _ hdeleted).1 rfl
  cases hmeasured

end RecordingAgent.SpaceMonitor
