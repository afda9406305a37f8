import RecordingAgent.SpaceMonitor.OldestFile

/-!
# Walks over a directory and deletions

The search for the oldest file and the sum of the durations walk over a directory in the same way: both
leave out certain names and give up a directory at an entry without status or with a path that does not
fit. Removing a file a walk can name takes this file from what it comes to, and nothing else.
-/

namespace RecordingAgent.SpaceMonitor

open Foundation Metarec

/-- The files a walk comes to, with a value read off the text of each path. -/
def walkedFiles (leftOut : CString → Bool) (value : CString → ℤ) (dirPath : CString) (above : TreePath) :
    Dir → List (TreePath × ℤ)
  | .nil => []
  | .broken _ _ => []
  | .special dName rest =>
    if pathMaxRa ≤ (dirPath ++ '/' :: dName).length then [] else walkedFiles leftOut value dirPath above rest
  | .file dName rest =>
    if pathMaxRa ≤ (dirPath ++ '/' :: dName).length then []
    else (if leftOut dName then [] else [(above ++ [dName], value (dirPath ++ '/' :: dName))]) ++
      walkedFiles leftOut value dirPath above rest
  | .dir dName entries rest =>
    if pathMaxRa ≤ (dirPath ++ '/' :: dName).length then []
    else (if leftOut dName then []
        else walkedFiles leftOut value (dirPath ++ '/' :: dName) (above ++ [dName]) entries) ++
      walkedFiles leftOut value dirPath above rest

/-- The text of a path below a directory. -/
def pathText (dirPath : CString) (p : TreePath) : CString := dirPath ++ p.flatMap ('/' :: ·)

variable {leftOut : CString → Bool} {value : CString → ℤ} {dirPath : CString} {above : TreePath}

@[simp] theorem pathText_nil : pathText dirPath [] = dirPath := List.append_nil dirPath

theorem pathText_cons (n : CString) (q : TreePath) :
    pathText dirPath (n :: q) = pathText (dirPath ++ '/' :: n) q := by
  simp [pathText]

/-- The files the search comes to are those of a walk. -/
theorem visitedFiles_eq_walkedFiles (dirPath : CString) (above : TreePath) (t : Dir) :
    visitedFiles dirPath above t =
      walkedFiles isSkipped (fun path => RaSpaceMonitor.fileNameToEpoch (some path)) dirPath above t := by
  induction t generalizing dirPath above with
  | nil => rfl
  | broken dName rest ih => rfl
  | special dName rest ih => rw [visitedFiles, walkedFiles, ih]
  | file dName rest ih =>
    unfold visitedFiles walkedFiles
    rw [ih]
    split
    · rfl
    · split <;> rfl
  | dir dName entries rest ihEntries ih =>
    unfold visitedFiles walkedFiles
    rw [ih, ihEntries]
    split
    · rfl
    · split <;> rfl

/-- A walk comes to files below the directory only, whose paths fit. -/
theorem exists_of_mem_walkedFiles {t : Dir} {f : TreePath × ℤ} (h : f ∈ walkedFiles leftOut value dirPath above t) :
    ∃ q, f.1 = above ++ q ∧ q ≠ [] ∧ (pathText dirPath q).length < pathMaxRa := by
  induction t generalizing dirPath above with
  | nil => cases h
  | broken dName rest ih => cases h
  | special dName rest ih =>
    unfold walkedFiles at h
    split at h
    · cases h
    · exact ih h
  | file dName rest ih =>
    unfold walkedFiles at h
    split at h
    · cases h
    next hfits =>
      rcases List.mem_append.mp h with h | h
      · split at h
        · cases h
        · rw [List.mem_singleton.mp h]
          exact ⟨[dName], rfl, List.cons_ne_nil _ _, by rw [pathText_cons, pathText_nil]; omega⟩
      · exact ih h
  | dir dName entries rest ihEntries ih =>
    unfold walkedFiles at h
    split at h
    · cases h
    · rcases List.mem_append.mp h with h | h
      · split at h
        · cases h
        · obtain ⟨q, hpath, -, hfits⟩ := ihEntries h
          exact ⟨dName :: q, by rw [hpath, List.append_assoc]; rfl, List.cons_ne_nil _ _, by rwa [pathText_cons]⟩
      · exact ih h

/-- A path which is not below the directory is not met. -/
theorem filter_walkedFiles_of_not_below {p : TreePath} (h : ∀ q, q ≠ [] → above ++ q ≠ p) (t : Dir) :
    (walkedFiles leftOut value dirPath above t).filter (·.1 ≠ p) = walkedFiles leftOut value dirPath above t := by
  refine List.filter_eq_self.mpr fun f hf => ?_
  obtain ⟨q, hpath, hq, -⟩ := exists_of_mem_walkedFiles hf
  exact decide_eq_true (hpath ▸ h q hq)

/-- The first entry is a file, and may be the one that is removed. -/
theorem walkedFiles_remove_file {p : TreePath} (h : (pathText dirPath p).length < pathMaxRa) (dName : CString) {rest : Dir}
    (hrest : walkedFiles leftOut value dirPath above (rest.remove p) =
      (walkedFiles leftOut value dirPath above rest).filter (·.1 ≠ above ++ p)) :
    walkedFiles leftOut value dirPath above ((Dir.file dName rest).remove p) =
      (walkedFiles leftOut value dirPath above (.file dName rest)).filter (·.1 ≠ above ++ p) := by
  unfold Dir.remove
  by_cases hself : p = [dName]
  · have hfits : ¬ pathMaxRa ≤ (dirPath ++ '/' :: dName).length := by
      rw [hself, pathText_cons, pathText_nil] at h
      exact not_le.mpr h
    have hgone : (if leftOut dName then [] else [(above ++ [dName], value (dirPath ++ '/' :: dName))]).filter
        (·.1 ≠ above ++ p) = [] := by
      split
      · rfl
      · rw [hself]
        exact List.filter_cons_of_neg (by simp)
    rw [if_pos hself, hrest, walkedFiles, if_neg hfits, List.filter_append, hgone, List.nil_append]
  · have hstays : (if leftOut dName then [] else [(above ++ [dName], value (dirPath ++ '/' :: dName))]).filter
        (·.1 ≠ above ++ p) = if leftOut dName then [] else [(above ++ [dName], value (dirPath ++ '/' :: dName))] := by
      have hne : [dName] ≠ p := fun heq => hself heq.symm
      split
      · rfl
      · exact List.filter_cons_of_pos (by simpa using hne)
    rw [if_neg hself]
    unfold walkedFiles
    split
    · rfl
    · rw [List.filter_append, hstays, hrest]

/-- What is below a directory does not lie on a path with another first name. -/
theorem filter_walkedFiles_of_other {p : TreePath} {dName : CString} (h : ∀ q, p ≠ dName :: q) (entries : Dir) :
    (walkedFiles leftOut value (dirPath ++ '/' :: dName) (above ++ [dName]) entries).filter (·.1 ≠ above ++ p) =
      walkedFiles leftOut value (dirPath ++ '/' :: dName) (above ++ [dName]) entries := by
  refine filter_walkedFiles_of_not_below (fun q _ heq => h q ?_) entries
  rw [List.append_assoc] at heq
  exact (List.append_cancel_left heq).symm

/-- Removing a file whose path fits takes it from what the walk comes to. -/
theorem walkedFiles_remove {p : TreePath} (h : (pathText dirPath p).length < pathMaxRa) (t : Dir) :
    walkedFiles leftOut value dirPath above (t.remove p) =
      (walkedFiles leftOut value dirPath above t).filter (·.1 ≠ above ++ p) := by
  induction t generalizing dirPath above p with
  | nil => cases p <;> rfl
  | broken dName rest ih => cases p <;> rfl
  | special dName rest ih =>
    unfold Dir.remove walkedFiles
    split
    · rfl
    · exact ih h
  | file dName rest ih => exact walkedFiles_remove_file h dName (ih h)
  | dir dName entries rest ihEntries ih =>
    have hrest : walkedFiles leftOut value dirPath above (rest.remove p) =
        (walkedFiles leftOut value dirPath above rest).filter (·.1 ≠ above ++ p) := ih h
    -- the directory of this name has the file, if its path starts with the name
    have hentries : ∀ q, p = dName :: q →
        walkedFiles leftOut value (dirPath ++ '/' :: dName) (above ++ [dName]) (entries.remove q) =
          (walkedFiles leftOut value (dirPath ++ '/' :: dName) (above ++ [dName]) entries).filter (·.1 ≠ above ++ p) := by
      intro q hp
      rw [ihEntries (by rwa [hp, pathText_cons] at h), hp, List.append_assoc, List.singleton_append]
    cases p with
    | nil =>
      unfold Dir.remove walkedFiles
      split
      · rfl
      · rw [List.filter_append, hrest]
        split
        · rfl
        · rw [filter_walkedFiles_of_other fun q => (List.cons_ne_nil dName q).symm]
    | cons n q =>
      unfold Dir.remove walkedFiles
      split
      · rfl
      · rw [List.filter_append, hrest]
        split
        · rfl
        · by_cases hname : n = dName
          · rw [if_pos hname, hentries q (hname ▸ rfl)]
          · rw [if_neg hname, filter_walkedFiles_of_other fun q' heq => hname (List.cons.inj heq).1]

/-- Removing an empty directory whose path fits does not change what the walk comes to. -/
theorem walkedFiles_rmdir {p : TreePath} (h : (pathText dirPath p).length < pathMaxRa) (t : Dir) :
    walkedFiles leftOut value dirPath above (t.rmdir p) = walkedFiles leftOut value dirPath above t := by
  induction t generalizing dirPath above p with
  | nil => cases p <;> rfl
  | broken dName rest ih => cases p <;> rfl
  | special dName rest ih =>
    unfold Dir.rmdir walkedFiles
    rw [ih h]
  | file dName rest ih =>
    unfold Dir.rmdir walkedFiles
    rw [ih h]
  | dir dName entries rest ihEntries ih =>
    have hrest : walkedFiles leftOut value dirPath above (rest.rmdir p) =
        walkedFiles leftOut value dirPath above rest := ih h
    cases p with
    | nil =>
      unfold Dir.rmdir walkedFiles
      rw [hrest]
    | cons n q =>
      unfold Dir.rmdir
      split
      next hempty =>
        obtain ⟨rfl, rfl, rfl⟩ := hempty
        have hfits : ¬ pathMaxRa ≤ (dirPath ++ '/' :: n).length := by
          rw [pathText_cons, pathText_nil] at h
          exact not_le.mpr h
        rw [hrest, walkedFiles, if_neg hfits, walkedFiles, ite_self, List.nil_append]
      next =>
        unfold walkedFiles
        rw [hrest]
        by_cases hname : n = dName
        · rw [if_pos hname, ihEntries (by rwa [hname, pathText_cons] at h)]
        · rw [if_neg hname]

end RecordingAgent.SpaceMonitor
