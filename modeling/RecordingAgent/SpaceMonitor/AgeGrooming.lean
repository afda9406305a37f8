import Mathlib.Data.Nat.Count
import RecordingAgent.SpaceMonitor.Grooming
import RecordingAgent.SpaceMonitor.SpaceHandler
import RecordingAgent.SpaceMonitor.Walks

/-!
# Grooming a camera by age

While the durations of a camera's files add up to more than its maximum age, the monitor deletes the
oldest file of the camera. It does not look at what the deletion returns, so it goes on for ever when no
further file can be deleted.
-/

namespace RecordingAgent.SpaceMonitor

open Foundation Metarec

/-- The entries which do not count for the duration. -/
def isUncounted (dName : CString) : Bool := isSkipped dName || dName == "METADATA".toList

/-- The loop over the entries of a directory, of which the text of the path is given, and the sum so far. -/
def durationFrom (dirPath : CString) : Dir → BitVec 64 → BitVec 64
  | .nil, duration => duration
  | .broken _ _, duration => duration
  | .special dName rest, duration =>
    if pathMaxRa ≤ (dirPath ++ '/' :: dName).length then duration else durationFrom dirPath rest duration
  | .file dName rest, duration =>
    if pathMaxRa ≤ (dirPath ++ '/' :: dName).length then duration
    else durationFrom dirPath rest <|
      if isUncounted dName then duration
      else duration + BitVec.ofInt 64 (RaSpaceMonitor.getFileDuration (some (dirPath ++ '/' :: dName)))
  | .dir dName entries rest, duration =>
    if pathMaxRa ≤ (dirPath ++ '/' :: dName).length then duration
    else durationFrom dirPath rest <|
      if isUncounted dName then duration else duration + durationFrom (dirPath ++ '/' :: dName) entries 0#64

/-- The total duration of a directory, which is zero if the directory cannot be opened. -/
def processDuration (dirPath : CString) : Option Dir → BitVec 64
  | some entries => durationFrom dirPath entries 0#64
  | none => 0#64

/-- The files which count for the duration. -/
def countedFiles (dirPath : CString) (above : TreePath) (t : Dir) : List (TreePath × ℤ) :=
  walkedFiles isUncounted (fun path => RaSpaceMonitor.getFileDuration (some path)) dirPath above t

/-- The duration in the name of a file. -/
def fileDuration (p : TreePath) : ℤ := RaSpaceMonitor.getFileDuration (some (pathText [] p))

/-- The files stored for a camera, whether or not the monitor can get at them. -/
def storedFiles (entries : Dir) : List TreePath := entries.files.filter fun q => q.all fun n => !isUncounted n

section

variable (driveArray : DriveArray) (ok : ℕ → Bool) (base : CString) (info : TimeBasedCamera)

/-- The directory of the camera. -/
def cameraDir (drives : ℕ → Dir) : Option Dir := (drives (driveOfBase base)).subdir [info.fullPath]

/-- What `process_duration` returns for the camera. -/
def currentDuration (drives : ℕ → Dir) : BitVec 64 :=
  processDuration (base ++ '/' :: info.fullPath) (cameraDir base info drives)

/-- The deletion in the `k`-th round. -/
def groomOnce (k : ℕ) (drives : ℕ → Dir) : Bool × (ℕ → Dir) :=
  deleteOldestFile driveArray (fun _ => ok k) drives (driveOfBase base) (some info.fullPath)

/-- The loop of the handler from the `k`-th round on, for so many rounds at most: what the last deletion
returned, if there was one, and what the drives hold at the end. -/
def groomLoop : ℕ → ℕ → Option Bool → (ℕ → Dir) → Option (Option Bool × (ℕ → Dir))
  | 0, _, _, _ => none
  | fuel + 1, k, last, drives =>
    if info.maxUsec < (currentDuration base info drives).toNat then
      groomLoop fuel (k + 1) (some (groomOnce driveArray ok base info k drives).1)
        (groomOnce driveArray ok base info k drives).2
    else some (last, drives)

/-- The handler returns, and then the duration stored for the camera is at most the maximum, or the last
deletion failed or found nothing. -/
def GroomsToAge (drives : ℕ → Dir) : Prop :=
  ∃ fuel last drives', groomLoop driveArray ok base info fuel 0 none drives = some (last, drives') ∧
    (((storedFiles ((cameraDir base info drives').getD .nil)).map fileDuration).sum ≤ info.maxUsec ∨
      last = some false)

/-- The drives after so many rounds. -/
def afterRounds (drives : ℕ → Dir) : ℕ → ℕ → Dir
  | 0 => drives
  | k + 1 => (groomOnce driveArray ok base info k (afterRounds drives k)).2

/-- What the deletion of the round before returned. -/
def lastDeletion (drives : ℕ → Dir) : ℕ → Option Bool
  | 0 => none
  | k + 1 => some (groomOnce driveArray ok base info k (afterRounds driveArray ok base info drives k)).1

end

/-- The paths of the oldest files, one after another. -/
def oldestOf (files : List (TreePath × ℤ)) : ℕ → List TreePath
  | 0 => []
  | j + 1 =>
    oldestOf files j ++ ((files.filter (·.1 ∉ oldestOf files j)).foldl Oldest.consider {}).file.toList

variable {driveArray : DriveArray} {ok : ℕ → Bool} {base : CString} {info : TimeBasedCamera} {drives : ℕ → Dir}

/-- The loop adds up the durations of the files that count. -/
theorem durationFrom_eq (dirPath : CString) (above : TreePath) (t : Dir) (duration : BitVec 64) :
    durationFrom dirPath t duration =
      duration + BitVec.ofInt 64 ((countedFiles dirPath above t).map Prod.snd).sum := by
  unfold countedFiles
  induction t generalizing dirPath above duration with
  | nil => simp [durationFrom, walkedFiles]
  | broken dName rest ih => simp [durationFrom, walkedFiles]
  | special dName rest ih =>
    unfold durationFrom walkedFiles
    split
    · simp
    · exact ih _ _ _
  | file dName rest ih =>
    unfold durationFrom walkedFiles
    split
    · simp
    · rw [ih dirPath above]
      split
      · rfl
      · rw [List.singleton_append, List.map_cons, List.sum_cons, BitVec.ofInt_add, BitVec.add_assoc]
  | dir dName entries rest ihEntries ih =>
    unfold durationFrom walkedFiles
    split
    · simp
    · rw [ih dirPath above]
      split
      · rfl
      · rw [ihEntries _ (above ++ [dName]), List.map_append, List.sum_append, BitVec.ofInt_add, BitVec.zero_add,
          BitVec.add_assoc]

/-- What is compared with the maximum age is the sum of the durations, modulo 2^64. -/
theorem currentDuration_toNat (drives : ℕ → Dir) : ((currentDuration base info drives).toNat : ℤ) =
    ((countedFiles (base ++ '/' :: info.fullPath) [info.fullPath] ((cameraDir base info drives).getD .nil)).map
      Prod.snd).sum % 2 ^ 64 := by
  unfold currentDuration processDuration
  cases cameraDir base info drives with
  | none => rfl
  | some entries =>
    change ((durationFrom (base ++ '/' :: info.fullPath) entries 0#64).toNat : ℤ) = _
    rw [durationFrom_eq _ [info.fullPath], BitVec.zero_add, BitVec.toNat_ofInt, Option.getD_some]
    omega

/-- A list of what is below a directory which only loses what is removed from it. Paths with `P` are those
for which this is promised. -/
structure FollowsRemovals {β : Type} (camera : CString) (P : TreePath → Prop) (path : β → TreePath)
    (list : Dir → List β) : Prop where
  nil : list .nil = []
  remove : ∀ q t, P q → list (t.remove q) = (list t).filter (path · ≠ camera :: q)
  rmdir : ∀ q t, P q → list (t.rmdir q) = list t

/-- A walk follows the removal of paths which fit. -/
theorem followsRemovals_walkedFiles (leftOut : CString → Bool) (value : CString → ℤ) (dirPath camera : CString)
    {P : TreePath → Prop} (hP : ∀ q, P q → (pathText dirPath q).length < pathMaxRa) :
    FollowsRemovals camera P Prod.fst (walkedFiles leftOut value dirPath [camera]) where
  nil := rfl
  remove q t hq := walkedFiles_remove (hP q hq) t
  rmdir q t hq := walkedFiles_rmdir (hP q hq) t

/-- The files stored follow every removal. -/
theorem followsRemovals_storedFiles (camera : CString) (P : TreePath → Prop) :
    FollowsRemovals camera P (camera :: ·) storedFiles where
  nil := rfl
  remove q t _ := by
    have hfilter : ∀ p : TreePath, decide (p ≠ q) = decide (camera :: p ≠ camera :: q) := by simp
    rw [storedFiles, Dir.files_remove, List.filter_comm]
    exact List.filter_congr fun p _ => hfilter p
  rmdir q t _ := by rw [storedFiles, Dir.files_rmdir, storedFiles]

section

variable {β : Type} {camera : CString} {P : TreePath → Prop} {path : β → TreePath} {list : Dir → List β}

/-- Removing an empty directory of the camera, or the camera's own, leaves what is listed for the camera. -/
theorem FollowsRemovals.rmdir_camera (h : FollowsRemovals camera P path list) {q : TreePath} (hq : P q) {t : Dir}
    (hnodup : t.dirNames.Nodup) (hempty : t.subdir (camera :: q) = some .nil) :
    list (((t.rmdir (camera :: q)).subdir [camera]).getD .nil) = list ((t.subdir [camera]).getD .nil) := by
  cases q with
  | nil => rw [Dir.subdir_rmdir_self hnodup hempty, hempty, Option.getD_none, Option.getD_some]
  | cons n q =>
    rw [Dir.subdir_rmdir camera (List.cons_ne_nil n q)]
    cases t.subdir [camera] with
    | none => rfl
    | some entries => exact h.rmdir _ _ hq

/-- Removing a file of the camera takes it from what is listed for the camera. -/
theorem FollowsRemovals.remove_camera (h : FollowsRemovals camera P path list) {q : TreePath} (hq : P q) (t : Dir) :
    list (((t.remove (camera :: q)).subdir [camera]).getD .nil) =
      (list ((t.subdir [camera]).getD .nil)).filter (path · ≠ camera :: q) := by
  rw [Dir.subdir_remove]
  cases t.subdir [camera] with
  | none =>
    rw [Option.map_none, Option.getD_none, h.nil]
    rfl
  | some entries => exact h.remove _ _ hq

/-- What is listed for the camera stays when directories above a path of it are removed. -/
theorem FollowsRemovals.of_removeEmptyDirs (h : FollowsRemovals camera P path list) (hP : ∀ q, P q → P q.dropLast)
    (level : ℕ) {p : TreePath} (hp : p = [] ∨ ∃ q, p = camera :: q ∧ P q) {t : Dir} (hnodup : t.dirNames.Nodup) :
    list (((removeEmptyDirs level p t).subdir [camera]).getD .nil) = list ((t.subdir [camera]).getD .nil) := by
  induction level generalizing p t with
  | zero => rfl
  | succ level ih =>
    unfold removeEmptyDirs
    rcases hp with rfl | ⟨q, rfl, hq⟩
    · rw [if_pos rfl]
    · have hdrop : (camera :: q).dropLast = [] ∨ ∃ q', (camera :: q).dropLast = camera :: q' ∧ P q' := by
        cases q with
        | nil => exact Or.inl rfl
        | cons n r => exact Or.inr ⟨(n :: r).dropLast, rfl, hP _ hq⟩
      rw [if_neg (List.cons_ne_nil camera q)]
      split
      · exact ih hdrop hnodup
      · split
        next hempty =>
          rw [ih hdrop ((Dir.dirNames_rmdir_sublist _ _).nodup hnodup)]
          exact h.rmdir_camera hq hnodup hempty
        next => rfl

end

theorem dirNames_removeEmptyDirs_sublist (level : ℕ) (p : TreePath) (t : Dir) :
    (removeEmptyDirs level p t).dirNames.Sublist t.dirNames := by
  induction level generalizing p t with
  | zero => exact List.Sublist.refl _
  | succ level ih =>
    unfold removeEmptyDirs
    split
    · exact List.Sublist.refl _
    · split
      · exact ih _ _
      · split
        · exact (ih _ _).trans (Dir.dirNames_rmdir_sublist _ _)
        · exact List.Sublist.refl _

/-- A path whose text fits in the search for the oldest file. -/
def FitsSearch (driveArray : DriveArray) (base : CString) (info : TimeBasedCamera) (q : TreePath) : Prop :=
  (pathText (pathToSearch driveArray (driveOfBase base) (some info.fullPath)) q).length < pathMaxRa

theorem FitsSearch.dropLast {q : TreePath} (h : FitsSearch driveArray base info q) :
    FitsSearch driveArray base info q.dropLast := by
  obtain ⟨r, hr⟩ := List.dropLast_prefix q
  refine lt_of_le_of_lt ?_ h
  conv_rhs => rw [← hr]
  simp [pathText]

/-- The candidates of the camera. -/
def cameraCandidates (driveArray : DriveArray) (base : CString) (info : TimeBasedCamera) (entries : Dir) :
    List (TreePath × ℤ) :=
  (visitedFiles (pathToSearch driveArray (driveOfBase base) (some info.fullPath)) [info.fullPath] entries).filter
    (·.2 < maxTimeT)

theorem candidates_eq (drives : ℕ → Dir) :
    candidates driveArray drives (driveOfBase base) (some info.fullPath) =
      cameraCandidates driveArray base info ((cameraDir base info drives).getD .nil) := by
  unfold candidates cameraDir
  change (match (drives (driveOfBase base)).subdir [info.fullPath] with | some entries => _ | none => _) = _
  cases (drives (driveOfBase base)).subdir [info.fullPath] <;> rfl

/-- The oldest file is that of the candidates. -/
theorem oldestFile_eq_foldl (drives : ℕ → Dir) :
    oldestFile driveArray drives (driveOfBase base) (some info.fullPath) =
      (cameraCandidates driveArray base info ((cameraDir base info drives).getD .nil)).foldl Oldest.consider {} := by
  rw [← candidates_eq]
  unfold oldestFile candidates
  split
  · rw [findOldestFile_eq_foldl, foldl_consider, foldl_consider, List.filter_filter]
    simp only [Bool.and_self]
  · rfl

/-- The candidates follow the removal of paths which fit. -/
theorem followsRemovals_cameraCandidates : FollowsRemovals info.fullPath (FitsSearch driveArray base info) Prod.fst
    (cameraCandidates driveArray base info) where
  nil := rfl
  remove q t hq := by
    unfold cameraCandidates
    rw [visitedFiles_eq_walkedFiles, visitedFiles_eq_walkedFiles, List.filter_comm]
    exact congrArg _ (walkedFiles_remove hq t)
  rmdir q t hq := by
    unfold cameraCandidates
    rw [visitedFiles_eq_walkedFiles, visitedFiles_eq_walkedFiles, walkedFiles_rmdir hq]

/-- A candidate is below the directory of the camera, and its path fits. -/
theorem exists_of_mem_cameraCandidates {entries : Dir} {f : TreePath × ℤ}
    (h : f ∈ cameraCandidates driveArray base info entries) :
    ∃ q, f.1 = info.fullPath :: q ∧ q ≠ [] ∧ FitsSearch driveArray base info q := by
  have hvisited := (List.mem_filter.mp h).1
  rw [visitedFiles_eq_walkedFiles] at hvisited
  exact exists_of_mem_walkedFiles hvisited

/-- The paths a round removes: that of the oldest candidate, if the deletion succeeds. -/
def removedInRound (driveArray : DriveArray) (ok : ℕ → Bool) (base : CString) (info : TimeBasedCamera) (k : ℕ)
    (drives : ℕ → Dir) : List TreePath :=
  if ok k then (oldestFile driveArray drives (driveOfBase base) (some info.fullPath)).file.toList else []

/-- A deletion which does not succeed leaves the drives as they are. -/
theorem groomOnce_of_false {k : ℕ} {drives : ℕ → Dir} (h : (groomOnce driveArray ok base info k drives).1 = false) :
    (groomOnce driveArray ok base info k drives).2 = drives := by
  revert h
  unfold groomOnce deleteOldestFile
  split
  · exact fun _ => rfl
  · split
    · exact fun _ => rfl
    · split
      · exact nofun
      · exact fun _ => rfl

/-- A deletion which is refused does not succeed. -/
theorem groomOnce_of_refused {k : ℕ} (h : ok k = false) (drives : ℕ → Dir) :
    (groomOnce driveArray ok base info k drives).1 = false := by
  unfold groomOnce deleteOldestFile
  split
  · rfl
  · split
    · rfl
    · rw [h]
      rfl

theorem driveOfBase_le (base : CString) : ¬ driveOfBase base > 1 := by
  unfold driveOfBase
  split <;> decide

/-- What a round leaves of a list which follows removals. -/
theorem FollowsRemovals.of_groomOnce {β : Type} {path : β → TreePath} {list : Dir → List β}
    (h : FollowsRemovals info.fullPath (FitsSearch driveArray base info) path list) (ok : ℕ → Bool) (k : ℕ)
    {drives : ℕ → Dir}
    (hnodup : (drives (driveOfBase base)).dirNames.Nodup) :
    list ((cameraDir base info (groomOnce driveArray ok base info k drives).2).getD .nil) =
        (list ((cameraDir base info drives).getD .nil)).filter
          (path · ∉ removedInRound driveArray ok base info k drives) ∧
      ((groomOnce driveArray ok base info k drives).2 (driveOfBase base)).dirNames.Nodup := by
  have hnone : (list ((cameraDir base info drives).getD .nil)).filter (path · ∉ ([] : List TreePath)) =
      list ((cameraDir base info drives).getD .nil) := by simp
  unfold groomOnce deleteOldestFile removedInRound
  rw [if_neg (driveOfBase_le base)]
  cases hoff : (oldestFile driveArray drives (driveOfBase base) (some info.fullPath)).file with
  | none => exact ⟨by rw [Option.toList_none, ite_self]; exact hnone.symm, hnodup⟩
  | some p =>
    cases hok : ok k with
    | false =>
      simp only [Bool.false_eq_true, if_false]
      exact ⟨hnone.symm, hnodup⟩
    | true =>
      rw [oldestFile_eq, candidates_eq, Option.map_eq_some_iff] at hoff
      obtain ⟨f, hf, rfl⟩ := hoff
      obtain ⟨q, hpath, hq, hfits⟩ := exists_of_mem_cameraCandidates (List.argmin_mem hf)
      have hdrop : f.1.dropLast = [] ∨ ∃ q', f.1.dropLast = info.fullPath :: q' ∧ FitsSearch driveArray base info q' := by
        obtain ⟨n, r, rfl⟩ := List.exists_cons_of_ne_nil hq
        exact Or.inr ⟨(n :: r).dropLast, by rw [hpath]; rfl, hfits.dropLast⟩
      have hafter : ((drives (driveOfBase base)).remove f.1).dirNames.Nodup := by rwa [Dir.dirNames_remove]
      simp only [if_true, Option.toList_some, cameraDir, Function.update_self]
      refine ⟨?_, (dirNames_removeEmptyDirs_sublist _ _ _).nodup hafter⟩
      rw [h.of_removeEmptyDirs (fun _ => FitsSearch.dropLast) 5 hdrop hafter, hpath, h.remove_camera hfits]
      simp only [List.mem_singleton]

/-- The paths removed in so many rounds: those of the oldest candidates, one for each success. -/
def removedAfter (driveArray : DriveArray) (ok : ℕ → Bool) (base : CString) (info : TimeBasedCamera)
    (drives : ℕ → Dir) (n : ℕ) : List TreePath :=
  oldestOf (candidates driveArray drives (driveOfBase base) (some info.fullPath)) (Nat.count (fun k => ok k = true) n)

/-- Another round removes the oldest candidate that is left. -/
theorem removedAfter_succ {n : ℕ}
    (hcandidates : cameraCandidates driveArray base info
        ((cameraDir base info (afterRounds driveArray ok base info drives n)).getD .nil) =
      (cameraCandidates driveArray base info ((cameraDir base info drives).getD .nil)).filter
        (·.1 ∉ removedAfter driveArray ok base info drives n)) :
    removedAfter driveArray ok base info drives (n + 1) = removedAfter driveArray ok base info drives n ++
      removedInRound driveArray ok base info n (afterRounds driveArray ok base info drives n) := by
  unfold removedInRound
  rw [oldestFile_eq_foldl, hcandidates]
  unfold removedAfter
  rw [Nat.count_succ, candidates_eq]
  cases hok : ok n with
  | false => simp
  | true => simp [oldestOf]

/-- What the rounds leave of a list which follows removals. -/
theorem FollowsRemovals.of_afterRounds {β : Type} {path : β → TreePath} {list : Dir → List β}
    (h : FollowsRemovals info.fullPath (FitsSearch driveArray base info) path list)
    (ok : ℕ → Bool) (hnodup : (drives (driveOfBase base)).dirNames.Nodup) (n : ℕ) :
    list ((cameraDir base info (afterRounds driveArray ok base info drives n)).getD .nil) =
      (list ((cameraDir base info drives).getD .nil)).filter
        (path · ∉ removedAfter driveArray ok base info drives n) := by
  -- the candidates themselves and the names of the directories are followed along
  suffices hall : ∀ n, (afterRounds driveArray ok base info drives n (driveOfBase base)).dirNames.Nodup ∧
      cameraCandidates driveArray base info
          ((cameraDir base info (afterRounds driveArray ok base info drives n)).getD .nil) =
        (cameraCandidates driveArray base info ((cameraDir base info drives).getD .nil)).filter
          (·.1 ∉ removedAfter driveArray ok base info drives n) ∧
      list ((cameraDir base info (afterRounds driveArray ok base info drives n)).getD .nil) =
        (list ((cameraDir base info drives).getD .nil)).filter
          (path · ∉ removedAfter driveArray ok base info drives n) from (hall n).2.2
  intro n
  induction n with
  | zero =>
    refine ⟨hnodup, ?_, ?_⟩
    · simp [removedAfter, afterRounds, oldestOf]
    · simp [removedAfter, afterRounds, oldestOf]
  | succ n ih =>
    obtain ⟨hnames, hcandidates, hlist⟩ := ih
    obtain ⟨hround, hnames'⟩ := h.of_groomOnce ok n hnames
    obtain ⟨hroundCandidates, -⟩ := followsRemovals_cameraCandidates.of_groomOnce ok n hnames
    refine ⟨hnames', ?_, ?_⟩
    · rw [afterRounds, hroundCandidates, hcandidates, List.filter_filter, removedAfter_succ hcandidates]
      refine List.filter_congr fun f _ => ?_
      simp [Bool.and_comm]
    · rw [afterRounds, hround, hlist, List.filter_filter, removedAfter_succ hcandidates]
      refine List.filter_congr fun f _ => ?_
      simp [Bool.and_comm]

/-- Deletions which are all refused leave the drives as they are. -/
theorem afterRounds_of_refused (h : ∀ k, ok k = false) (drives : ℕ → Dir) (n : ℕ) :
    afterRounds driveArray ok base info drives n = drives := by
  induction n with
  | zero => rfl
  | succ n ih => rw [afterRounds, groomOnce_of_false (groomOnce_of_refused (h n) _), ih]

/-- The loop from a round on, when it has so many rounds at most. -/
theorem groomLoop_eq_some_iff (drives : ℕ → Dir) {fuel k : ℕ} {result : Option Bool × (ℕ → Dir)} :
    groomLoop driveArray ok base info fuel k (lastDeletion driveArray ok base info drives k)
        (afterRounds driveArray ok base info drives k) = some result ↔
      ∃ n < fuel, (∀ i < n, info.maxUsec < (currentDuration base info (afterRounds driveArray ok base info drives (k + i))).toNat) ∧
        (currentDuration base info (afterRounds driveArray ok base info drives (k + n))).toNat ≤ info.maxUsec ∧
        (lastDeletion driveArray ok base info drives (k + n), afterRounds driveArray ok base info drives (k + n)) = result := by
  induction fuel generalizing k with
  | zero => simp [groomLoop]
  | succ fuel ih =>
    unfold groomLoop
    by_cases hlong : info.maxUsec < (currentDuration base info (afterRounds driveArray ok base info drives k)).toNat
    · rw [if_pos hlong]
      refine (ih (k := k + 1)).trans ?_
      have hshift : ∀ i, k + 1 + i = k + (i + 1) := fun i => by omega
      simp only [hshift]
      constructor
      · rintro ⟨n, hn, habove, hbelow, hresult⟩
        exact ⟨n + 1, by omega, Nat.forall_lt_succ_left.mpr ⟨hlong, habove⟩, hbelow, hresult⟩
      · rintro ⟨n, hn, habove, hbelow, hresult⟩
        cases n with
        | zero => exact absurd hlong (not_lt.mpr hbelow)
        | succ n => exact ⟨n, by omega, (Nat.forall_lt_succ_left.mp habove).2, hbelow, hresult⟩
    · rw [if_neg hlong]
      constructor
      · intro hresult
        exact ⟨0, Nat.succ_pos fuel, nofun, not_lt.mp hlong, Option.some.inj hresult⟩
      · rintro ⟨n, hn, habove, hbelow, hresult⟩
        cases n with
        | zero => exact congrArg some hresult
        | succ n => exact absurd (habove 0 (Nat.succ_pos n)) hlong

/-- The handler does what it should exactly if it comes to a round in which the duration is low enough,
and then what is stored is low as well: it cannot return behind a deletion which failed. -/
theorem groomsToAge_iff_rounds : GroomsToAge driveArray ok base info drives ↔
    ∃ n, (∀ k < n, info.maxUsec < (currentDuration base info (afterRounds driveArray ok base info drives k)).toNat) ∧
      (currentDuration base info (afterRounds driveArray ok base info drives n)).toNat ≤ info.maxUsec ∧
      ((storedFiles ((cameraDir base info (afterRounds driveArray ok base info drives n)).getD .nil)).map
        fileDuration).sum ≤ info.maxUsec := by
  have hloop : ∀ fuel result, groomLoop driveArray ok base info fuel 0 none drives = some result ↔ _ :=
    fun fuel result => groomLoop_eq_some_iff drives (k := 0)
  simp only [Nat.zero_add] at hloop
  constructor
  · rintro ⟨fuel, last, drives', hrun, hexit⟩
    obtain ⟨n, -, habove, hbelow, hresult⟩ := (hloop fuel _).mp hrun
    obtain ⟨rfl, rfl⟩ := Prod.mk.inj hresult
    refine ⟨n, habove, hbelow, hexit.resolve_right fun hfailed => ?_⟩
    cases n with
    | zero => cases hfailed
    | succ n =>
      have hsame := groomOnce_of_false (Option.some.inj hfailed)
      have hlong := habove n (Nat.lt_succ_self n)
      rw [afterRounds, hsame] at hbelow
      exact absurd hlong (not_lt.mpr hbelow)
  · rintro ⟨n, habove, hbelow, hstored⟩
    exact ⟨n + 1, _, _, (hloop (n + 1) _).mpr ⟨n, Nat.lt_succ_self n, habove, hbelow, rfl⟩, Or.inl hstored⟩

/-- The durations which are counted when the `j` oldest candidates are gone. -/
def countedLeft (driveArray : DriveArray) (base : CString) (info : TimeBasedCamera) (drives : ℕ → Dir) (j : ℕ) : ℤ :=
  (((countedFiles (base ++ '/' :: info.fullPath) [info.fullPath] ((cameraDir base info drives).getD .nil)).filter
    (·.1 ∉ oldestOf (candidates driveArray drives (driveOfBase base) (some info.fullPath)) j)).map Prod.snd).sum

/-- The durations which are stored when the `j` oldest candidates are gone. -/
def storedLeft (driveArray : DriveArray) (base : CString) (info : TimeBasedCamera) (drives : ℕ → Dir) (j : ℕ) : ℤ :=
  (((storedFiles ((cameraDir base info drives).getD .nil)).filter
    (info.fullPath :: · ∉ oldestOf (candidates driveArray drives (driveOfBase base) (some info.fullPath)) j)).map
      fileDuration).sum

/-- Of so many successes, each came in some round. -/
theorem exists_count_eq_of_lt {n i : ℕ} (h : i < Nat.count (fun k => ok k = true) n) :
    ∃ k < n, Nat.count (fun k => ok k = true) k = i := by
  induction n with
  | zero => cases h
  | succ n ih =>
    rcases Nat.lt_or_ge i (Nat.count (fun k => ok k = true) n) with hlt | hge
    · obtain ⟨k, hk, hcount⟩ := ih hlt
      exact ⟨k, Nat.lt_succ_of_lt hk, hcount⟩
    · rw [Nat.count_succ] at h
      refine ⟨n, Nat.lt_succ_self n, ?_⟩
      split at h <;> omega

/-- Something is true of the number of successes in all rounds before one, and not in this one, exactly
if it is true of all numbers below some number which is reached, and not of this number. -/
theorem exists_round_iff (P Q : ℕ → Prop) :
    (∃ n, (∀ k < n, P (Nat.count (fun k => ok k = true) k)) ∧ ¬ P (Nat.count (fun k => ok k = true) n) ∧
      Q (Nat.count (fun k => ok k = true) n)) ↔
      ∃ j, (∀ i < j, P i) ∧ ¬ P j ∧ Q j ∧ ∃ n, Nat.count (fun k => ok k = true) n = j := by
  constructor
  · rintro ⟨n, hbefore, hnot, hq⟩
    refine ⟨_, fun i hi => ?_, hnot, hq, n, rfl⟩
    obtain ⟨k, hk, rfl⟩ := exists_count_eq_of_lt hi
    exact hbefore k hk
  · rintro ⟨j, hbefore, hnot, hq, hreached⟩
    -- the first round with so many successes
    have hfirst := Nat.find_spec hreached
    refine ⟨Nat.find hreached, fun k hk => hbefore _ ?_, by rwa [hfirst], by rwa [hfirst]⟩
    have hle := Nat.count_monotone (fun k => ok k = true) hk.le
    have hne := Nat.find_min hreached hk
    omega

/-- Grooming by age does what it should exactly if enough deletions succeed: with some number of the oldest
candidates gone, and not with fewer, the counted durations are low enough, as many deletions succeed, and
then the durations stored are low enough as well. -/
theorem groomsToAge_iff (driveArray : DriveArray) (ok : ℕ → Bool) (base : CString) (info : TimeBasedCamera)
    (drives : ℕ → Dir) (hbase : base.length ≤ (driveArray (driveOfBase base)).length + 1)
    (hnodup : (drives (driveOfBase base)).dirNames.Nodup) :
    GroomsToAge driveArray ok base info drives ↔
      ∃ j, (∀ i < j, info.maxUsec < countedLeft driveArray base info drives i % 2 ^ 64) ∧
        ¬ info.maxUsec < countedLeft driveArray base info drives j % 2 ^ 64 ∧
        storedLeft driveArray base info drives j ≤ info.maxUsec ∧
        ∃ n, Nat.count (fun k => ok k = true) n = j := by
  have hfits : ∀ q, FitsSearch driveArray base info q →
      (pathText (base ++ '/' :: info.fullPath) q).length < pathMaxRa := by
    intro q hq
    unfold FitsSearch pathToSearch at hq
    simp only [pathText, List.length_append, List.length_cons, List.length_nil] at hq ⊢
    omega
  have hcounted : ∀ n, ((currentDuration base info (afterRounds driveArray ok base info drives n)).toNat : ℤ) =
      countedLeft driveArray base info drives (Nat.count (fun k => ok k = true) n) % 2 ^ 64 := by
    intro n
    have hlist := (followsRemovals_walkedFiles isUncounted (fun path => RaSpaceMonitor.getFileDuration (some path))
      (base ++ '/' :: info.fullPath) info.fullPath hfits).of_afterRounds ok hnodup n
    rw [currentDuration_toNat, countedFiles, hlist]
    rfl
  have hstored : ∀ n, ((storedFiles ((cameraDir base info (afterRounds driveArray ok base info drives n)).getD .nil)).map
      fileDuration).sum = storedLeft driveArray base info drives (Nat.count (fun k => ok k = true) n) := by
    intro n
    rw [(followsRemovals_storedFiles info.fullPath (FitsSearch driveArray base info)).of_afterRounds ok hnodup n]
    rfl
  have habove : ∀ n, info.maxUsec < (currentDuration base info (afterRounds driveArray ok base info drives n)).toNat ↔
      (info.maxUsec : ℤ) < countedLeft driveArray base info drives (Nat.count (fun k => ok k = true) n) % 2 ^ 64 := by
    intro n
    rw [← hcounted, Nat.cast_lt]
  rw [groomsToAge_iff_rounds]
  simp only [← not_lt (a := info.maxUsec), habove, hstored]
  exact exists_round_iff (fun j => (info.maxUsec : ℤ) < countedLeft driveArray base info drives j % 2 ^ 64)
    fun j => storedLeft driveArray base info drives j ≤ info.maxUsec

/-- A camera with two chunks of three hundred seconds, and room for one. -/
theorem groomsToAge_twoChunks : GroomsToAge (fun _ => "/mnt/chmSSD/video/VideoFootages".toList) (fun k => k % 2 == 1)
    "/mnt/chmSSD/video/VideoFootages".toList ⟨"CAB".toList, 300000000⟩
    (fun _ => .dir "CAB".toList (.file "20240101-000500.300000000".toList
      (.file "20240101-000000.300000000".toList .nil)) .nil) := by
  refine (groomsToAge_iff _ _ _ _ _ (by decide) (by decide)).mpr ⟨1, ?_, ?_, ?_, 2, ?_⟩
  · decide +kernel
  · decide +kernel
  · decide +kernel
  · decide

/-- A camera with a chunk that is too long, which cannot be removed: the handler never returns. -/
theorem not_groomsToAge_readOnly : ¬ ∀ (driveArray : DriveArray) (ok : ℕ → Bool) (base : CString)
    (info : TimeBasedCamera) (drives : ℕ → Dir), base.length ≤ (driveArray (driveOfBase base)).length + 1 →
    (drives (driveOfBase base)).dirNames.Nodup → GroomsToAge driveArray ok base info drives := by
  intro h
  have hgrooms := h (fun _ => "/mnt/chmSSD/video/VideoFootages".toList) (fun _ => false)
    "/mnt/chmSSD/video/VideoFootages".toList ⟨"CAB".toList, 60000000⟩
    (fun _ => .dir "CAB".toList (.file "20240101-000000.300000000".toList .nil) .nil) (by decide) (by decide)
  obtain ⟨n, -, hbelow, -⟩ := groomsToAge_iff_rounds.mp hgrooms
  rw [afterRounds_of_refused (fun _ => rfl)] at hbelow
  exact absurd hbelow (by decide +kernel)

end RecordingAgent.SpaceMonitor
