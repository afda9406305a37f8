import Mathlib.Data.Int.ConditionallyCompleteOrder
import Mathlib.Data.List.MinMax
import Mathlib.Order.CompleteLatticeIntervals
import RecordingAgent.Foundation.FileTree
import RecordingAgent.Foundation.FirstMatch
import RecordingAgent.Metarec.ChunkName

/-!
# Deleting the oldest file of a drive

The space monitor searches a drive for the file with the earliest time in its name, removes it and
then removes the directories above it which are empty. The search gives up a directory at the first
entry whose path is too long or whose status cannot be read.
-/

namespace RecordingAgent.SpaceMonitor

open Foundation Metarec

/-- `PATH_MAX_RA`. -/
def pathMaxRa : ℕ := 1024

/-- The paths of the two drives. -/
abbrev DriveArray := ℕ → CString

/-- What the search has found: `oldest_file` and `oldest_file_time`. -/
structure Oldest where
  file : Option TreePath := none
  time : ℤ := maxTimeT
  deriving DecidableEq

/-- The entries the search leaves out. -/
def isSkipped (dName : CString) : Bool := dName == "lost+found".toList || dName == "staging".toList

/-- Take a file if its time is earlier. -/
def Oldest.consider (oldest : Oldest) (file : TreePath × ℤ) : Oldest :=
  if file.2 ≠ maxTimeT ∧ file.2 < oldest.time then ⟨some file.1, file.2⟩ else oldest

/-- The search below a directory, of which the text and the path from the top of the drive are given.
A path of 1024 characters does not fit its buffer, and the status of what is cut off cannot be read. -/
def findOldestFile (dirPath : CString) (above : TreePath) : Dir → Oldest → Oldest
  | .nil, oldest => oldest
  | .broken _ _, oldest => oldest
  | .special dName rest, oldest =>
    if pathMaxRa ≤ (dirPath ++ '/' :: dName).length then oldest else findOldestFile dirPath above rest oldest
  | .file dName rest, oldest =>
    if pathMaxRa ≤ (dirPath ++ '/' :: dName).length then oldest
    else findOldestFile dirPath above rest <|
      if isSkipped dName then oldest
      else oldest.consider (above ++ [dName], RaSpaceMonitor.fileNameToEpoch (some (dirPath ++ '/' :: dName)))
  | .dir dName entries rest, oldest =>
    if pathMaxRa ≤ (dirPath ++ '/' :: dName).length then oldest
    else findOldestFile dirPath above rest <|
      if isSkipped dName then oldest
      else findOldestFile (dirPath ++ '/' :: dName) (above ++ [dName]) entries oldest

/-- The files the search comes to, in its order, with the times in their names. -/
def visitedFiles (dirPath : CString) (above : TreePath) : Dir → List (TreePath × ℤ)
  | .nil => []
  | .broken _ _ => []
  | .special dName rest =>
    if pathMaxRa ≤ (dirPath ++ '/' :: dName).length then [] else visitedFiles dirPath above rest
  | .file dName rest =>
    if pathMaxRa ≤ (dirPath ++ '/' :: dName).length then []
    else if isSkipped dName then visitedFiles dirPath above rest
    else (above ++ [dName], RaSpaceMonitor.fileNameToEpoch (some (dirPath ++ '/' :: dName))) ::
      visitedFiles dirPath above rest
  | .dir dName entries rest =>
    if pathMaxRa ≤ (dirPath ++ '/' :: dName).length then []
    else if isSkipped dName then visitedFiles dirPath above rest
    else visitedFiles (dirPath ++ '/' :: dName) (above ++ [dName]) entries ++ visitedFiles dirPath above rest

/-- Remove a directory and those above it while they are empty, at most a number of levels. The top of
the drive has other contents above it, and is left alone. -/
def removeEmptyDirs : ℕ → TreePath → Dir → Dir
  | 0, _, t => t
  | level + 1, p, t =>
    if p = [] then t
    else if p.getLast? = some "VideoFootages".toList then removeEmptyDirs level p.dropLast t
    else if t.subdir p = some .nil then removeEmptyDirs level p.dropLast (t.rmdir p)
    else t

/-- What is searched for a camera, or for the whole drive. -/
def searchedPath (camera : Option CString) : TreePath := camera.toList

/-- The text of the path that is searched. -/
def pathToSearch (driveArray : DriveArray) (drive : ℕ) : Option CString → CString
  | some camera => driveArray drive ++ '/' :: camera ++ ['/']
  | none => driveArray drive ++ ['/']

/-- The oldest file of a drive or of one of its cameras. -/
def oldestFile (driveArray : DriveArray) (drives : ℕ → Dir) (drive : ℕ) (camera : Option CString) : Oldest :=
  match (drives drive).subdir (searchedPath camera) with
  | some entries => findOldestFile (pathToSearch driveArray drive camera) (searchedPath camera) entries {}
  | none => {}

/-- Delete the oldest file. The system may refuse to remove it. -/
def deleteOldestFile (driveArray : DriveArray) (removable : TreePath → Bool) (drives : ℕ → Dir) (drive : ℕ)
    (camera : Option CString) : Bool × (ℕ → Dir) :=
  if drive > 1 then (false, drives)
  else
    match (oldestFile driveArray drives drive camera).file with
    | none => (false, drives)
    | some p =>
      if removable p then
        (true, Function.update drives drive (removeEmptyDirs 5 p.dropLast ((drives drive).remove p)))
      else (false, drives)

/-- The files which compete for the oldest, in the order of the search. -/
def candidates (driveArray : DriveArray) (drives : ℕ → Dir) (drive : ℕ) (camera : Option CString) :
    List (TreePath × ℤ) :=
  match (drives drive).subdir (searchedPath camera) with
  | some entries =>
    (visitedFiles (pathToSearch driveArray drive camera) (searchedPath camera) entries).filter (·.2 < maxTimeT)
  | none => []

/-- A name of the form `YYYYMMDD-HHMMSS.<duration>`, which may go on. -/
def isChunkName (name : CString) : Bool :=
  RaDataSearch.fits (List.replicate 8 Char.isDigit ++ (· == '-') ::
    (List.replicate 6 Char.isDigit ++ [(· == '.'), Char.isDigit])) name

/-- Whether the file at a path has the name of a chunk. -/
def isChunk (p : TreePath) : Bool := isChunkName (p.getLast?.getD [])

/-- The search takes up, one after another, the files it comes to. -/
theorem findOldestFile_eq_foldl (dirPath : CString) (above : TreePath) (t : Dir) (oldest : Oldest) :
    findOldestFile dirPath above t oldest = (visitedFiles dirPath above t).foldl Oldest.consider oldest := by
  induction t generalizing dirPath above oldest with
  | nil => rfl
  | broken dName rest ih => rfl
  | special dName rest ih =>
    unfold findOldestFile visitedFiles
    split
    · rfl
    · exact ih _ _ _
  | file dName rest ih =>
    unfold findOldestFile visitedFiles
    split
    · rfl
    · split
      · exact ih _ _ _
      · exact ih _ _ _
  | dir dName entries rest ihEntries ih =>
    unfold findOldestFile visitedFiles
    split
    · rfl
    · split
      · exact ih _ _ _
      · rw [ih, ihEntries, List.foldl_append]

/-- What the search keeps for the file it has found. -/
def Oldest.of : Option (TreePath × ℤ) → Oldest
  | some file => ⟨some file.1, file.2⟩
  | none => {}

/-- What the search keeps is the first file with the least time. -/
theorem foldl_consider (l : List (TreePath × ℤ)) :
    l.foldl Oldest.consider {} = Oldest.of ((l.filter (·.2 < maxTimeT)).argmin Prod.snd) := by
  induction l using List.reverseRecOn with
  | nil => rfl
  | append_singleton l file ih =>
    rw [List.foldl_append, ih, List.filter_append]
    by_cases hlt : file.2 < maxTimeT
    · rw [List.filter_singleton, decide_eq_true hlt, cond_true, List.argmin_concat]
      cases (l.filter (·.2 < maxTimeT)).argmin Prod.snd with
      | none => simp [Oldest.consider, Oldest.of, hlt, hlt.ne]
      | some best =>
        by_cases hbest : file.2 < best.2
        · simp [Oldest.consider, Oldest.of, hbest, hlt.ne]
        · simp [Oldest.consider, Oldest.of, hbest]
    · rw [List.filter_singleton, decide_eq_false hlt, cond_false, List.append_nil, List.foldl_cons, List.foldl_nil]
      have hle : (Oldest.of ((l.filter (·.2 < maxTimeT)).argmin Prod.snd)).time ≤ maxTimeT := by
        cases hbest : (l.filter (·.2 < maxTimeT)).argmin Prod.snd with
        | none => exact le_refl _
        | some best => exact (of_decide_eq_true (List.mem_filter.mp (List.argmin_mem hbest)).2).le
      exact if_neg fun hearlier => hlt (hearlier.2.trans_le hle)

/-- The oldest file is the first candidate with the least time. -/
theorem oldestFile_eq (driveArray : DriveArray) (drives : ℕ → Dir) (drive : ℕ) (camera : Option CString) :
    (oldestFile driveArray drives drive camera).file =
      ((candidates driveArray drives drive camera).argmin Prod.snd).map Prod.fst := by
  unfold oldestFile candidates
  split
  · rw [findOldestFile_eq_foldl, foldl_consider]
    cases ((visitedFiles _ _ _).filter (·.2 < maxTimeT)).argmin Prod.snd <;> rfl
  · rfl

/-- The search comes to files below the directory only, and to none it leaves out. -/
theorem exists_of_mem_visitedFiles {dirPath : CString} {above : TreePath} {t : Dir} {file : TreePath × ℤ}
    (h : file ∈ visitedFiles dirPath above t) :
    ∃ q ∈ t.files, file.1 = above ++ q ∧ ∀ n ∈ q, isSkipped n = false := by
  induction t generalizing dirPath above with
  | nil => cases h
  | broken dName rest ih => cases h
  | special dName rest ih =>
    unfold visitedFiles at h
    split at h
    · cases h
    · exact ih h
  | file dName rest ih =>
    have hrest : file ∈ visitedFiles dirPath above rest →
        ∃ q ∈ (Dir.file dName rest).files, file.1 = above ++ q ∧ ∀ n ∈ q, isSkipped n = false := by
      intro h
      obtain ⟨q, hq, hpath⟩ := ih h
      exact ⟨q, List.mem_cons_of_mem _ hq, hpath⟩
    unfold visitedFiles at h
    split at h
    · cases h
    · split at h
      · exact hrest h
      next hskipped =>
        rcases List.mem_cons.mp h with rfl | h
        · exact ⟨[dName], List.mem_cons_self, rfl, by simpa using hskipped⟩
        · exact hrest h
  | dir dName entries rest ihEntries ih =>
    have hrest : file ∈ visitedFiles dirPath above rest →
        ∃ q ∈ (Dir.dir dName entries rest).files, file.1 = above ++ q ∧ ∀ n ∈ q, isSkipped n = false := by
      intro h
      obtain ⟨q, hq, hpath⟩ := ih h
      exact ⟨q, List.mem_append_right _ hq, hpath⟩
    unfold visitedFiles at h
    split at h
    · cases h
    · split at h
      · exact hrest h
      next hskipped =>
        rcases List.mem_append.mp h with h | h
        · obtain ⟨q, hq, heq, hnames⟩ := ihEntries h
          refine ⟨dName :: q, List.mem_append_left _ (List.mem_map_of_mem hq), ?_, ?_⟩
          · rw [heq, List.append_assoc]
            rfl
          · exact List.forall_mem_cons.mpr ⟨by simpa using hskipped, hnames⟩
        · exact hrest h

/-- Removing empty directories takes no file away. -/
theorem files_removeEmptyDirs (level : ℕ) (p : TreePath) (t : Dir) : (removeEmptyDirs level p t).files = t.files := by
  induction level generalizing p t with
  | zero => rfl
  | succ level ih =>
    unfold removeEmptyDirs
    split
    · rfl
    · split
      · exact ih _ _
      · split
        · rw [ih, Dir.files_rmdir]
        · rfl

variable {driveArray : DriveArray} {removable : TreePath → Bool} {drives : ℕ → Dir} {drive : ℕ}
  {camera : Option CString}

/-- A path below what is searched, and not below or at an entry the search leaves out. -/
def InSearch (camera : Option CString) (p : TreePath) : Prop :=
  ∃ q, p = searchedPath camera ++ q ∧ ∀ n ∈ q, isSkipped n = false

/-- The candidates are files of the drive which are searched. -/
theorem of_mem_candidates {file : TreePath × ℤ} (h : file ∈ candidates driveArray drives drive camera) :
    file.1 ∈ (drives drive).files ∧ InSearch camera file.1 := by
  unfold candidates at h
  split at h
  next entries hentries =>
    obtain ⟨q, hq, heq, hnames⟩ := exists_of_mem_visitedFiles (List.mem_filter.mp h).1
    exact ⟨heq ▸ Dir.append_mem_files hentries hq, q, heq, hnames⟩
  next => cases h

/-- The file that is deleted, if one is. -/
def deleted (driveArray : DriveArray) (removable : TreePath → Bool) (drives : ℕ → Dir) (drive : ℕ)
    (camera : Option CString) : Option TreePath :=
  if drive > 1 then none else (oldestFile driveArray drives drive camera).file.filter removable

/-- What a call returns, and which files it leaves. -/
theorem deleteOldestFile_spec :
    (deleteOldestFile driveArray removable drives drive camera).1 =
        (deleted driveArray removable drives drive camera).isSome ∧
      ∀ d, ((deleteOldestFile driveArray removable drives drive camera).2 d).files =
        if d = drive then (drives d).files.filter fun p => some p ≠ deleted driveArray removable drives drive camera
        else (drives d).files := by
  unfold deleteOldestFile deleted
  split
  · simp
  · cases (oldestFile driveArray drives drive camera).file with
    | none => simp
    | some p =>
      by_cases hp : removable p = true
      · refine ⟨by simp [hp], fun d => ?_⟩
        by_cases hd : d = drive
        · subst hd
          simp [hp, Option.filter, files_removeEmptyDirs, Dir.files_remove]
        · simp [hp, hd]
      · simp [hp, Option.filter]

/-- A file is deleted exactly when it is the first candidate with the least time and may be removed. -/
theorem deleted_eq_some_iff {p : TreePath} : deleted driveArray removable drives drive camera = some p ↔
    ¬ drive > 1 ∧ removable p = true ∧
      ∃ t, (p, t) ∈ (candidates driveArray drives drive camera).argmin Prod.snd := by
  unfold deleted
  split
  next h => simp [h]
  next h =>
    rw [oldestFile_eq, Option.filter_eq_some_iff, Option.map_eq_some_iff]
    constructor
    · rintro ⟨⟨⟨_, t⟩, hmem, rfl⟩, hp⟩
      exact ⟨h, hp, t, hmem⟩
    · rintro ⟨_, hp, t, hmem⟩
      exact ⟨⟨(p, t), hmem, rfl⟩, hp⟩

/-- Only chunks are removed, and nothing if the searched path has none. -/
def OnlyChunksRemoved (driveArray : DriveArray) (removable : TreePath → Bool) (drives : ℕ → Dir) (drive : ℕ)
    (camera : Option CString) : Prop :=
  let drives' := (deleteOldestFile driveArray removable drives drive camera).2
  (∀ d, ∀ p ∈ (drives d).files, p ∉ (drives' d).files → isChunk p = true) ∧
    ((∀ p ∈ (drives drive).files, InSearch camera p → isChunk p = false) →
      ∀ d, (drives' d).files = (drives d).files)

/-- Only chunks are removed exactly when the file that is deleted, if one is, is a chunk. -/
theorem onlyChunksRemoved_iff_deleted : OnlyChunksRemoved driveArray removable drives drive camera ↔
    ∀ p, deleted driveArray removable drives drive camera = some p → isChunk p = true := by
  have hsearched : ∀ p, deleted driveArray removable drives drive camera = some p →
      p ∈ (drives drive).files ∧ InSearch camera p := by
    intro p hp
    obtain ⟨_, _, t, hmem⟩ := deleted_eq_some_iff.mp hp
    exact of_mem_candidates (List.argmin_mem hmem)
  constructor
  · intro h p hp
    refine h.1 drive p (hsearched p hp).1 ?_
    rw [deleteOldestFile_spec.2, if_pos rfl, List.mem_filter]
    simp [hp]
  · intro h
    refine ⟨fun d p hp hgone => ?_, fun hnone d => ?_⟩
    · rw [deleteOldestFile_spec.2] at hgone
      split at hgone
      · refine h p (by_contra fun hne => hgone (List.mem_filter.mpr ⟨hp, ?_⟩))
        simpa using fun heq : some p = _ => hne heq.symm
      · exact absurd hp hgone
    · rw [deleteOldestFile_spec.2]
      cases hdeleted : deleted driveArray removable drives drive camera with
      | none => simp
      | some p =>
        have hnot := hnone p (hsearched p hdeleted).1 (hsearched p hdeleted).2
        rw [h p hdeleted] at hnot
        cases hnot

end RecordingAgent.SpaceMonitor
