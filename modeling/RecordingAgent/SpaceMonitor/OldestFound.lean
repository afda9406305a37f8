import RecordingAgent.SpaceMonitor.OldestFile

/-!
# What the search for the oldest file misses

The search is meant to find the file with the earliest time below a directory. It gives up a directory
at the first entry it cannot name or of which it cannot read the status, so that what stands behind
this entry is not compared, and it never takes a time which is not before `MAX_TIME_T`.
-/

namespace RecordingAgent.SpaceMonitor

open Foundation Metarec

/-- A file which the search is meant to compare. It is hidden if an entry that stops the search stands
before it, or before a directory above it. -/
structure ReachableFile where
  file : TreePath × ℤ
  hidden : Bool
  deriving DecidableEq

/-- The regular files below a directory and outside `staging` and `lost+found`. An entry without status
or with a path that does not fit is left out, but not those behind it. -/
def reachableFiles (dirPath : CString) (above : TreePath) : Bool → Dir → List ReachableFile
  | _, .nil => []
  | _, .broken _ rest => reachableFiles dirPath above true rest
  | hidden, .special dName rest =>
    if pathMaxRa ≤ (dirPath ++ '/' :: dName).length then reachableFiles dirPath above true rest
    else reachableFiles dirPath above hidden rest
  | hidden, .file dName rest =>
    if pathMaxRa ≤ (dirPath ++ '/' :: dName).length then reachableFiles dirPath above true rest
    else ⟨(above ++ [dName], RaSpaceMonitor.fileNameToEpoch (some (dirPath ++ '/' :: dName))), hidden⟩ ::
      reachableFiles dirPath above hidden rest
  | hidden, .dir dName entries rest =>
    if pathMaxRa ≤ (dirPath ++ '/' :: dName).length then reachableFiles dirPath above true rest
    else (if isSkipped dName then [] else reachableFiles (dirPath ++ '/' :: dName) (above ++ [dName]) hidden entries) ++
      reachableFiles dirPath above hidden rest

/-- Whether every regular file has the name of a chunk. -/
def AllChunks (t : Dir) : Prop := ∀ p ∈ t.files, isChunk p = true

instance decidableAllChunks (t : Dir) : Decidable (AllChunks t) := inferInstanceAs (Decidable (∀ p ∈ t.files, _))

/-- The search finds a file with the least time of all, and if there is none it leaves what has been
found before. -/
def FindsOldest (dirPath : CString) (above : TreePath) (t : Dir) : Prop :=
  (reachableFiles dirPath above false t = [] → ∀ oldest, findOldestFile dirPath above t oldest = oldest) ∧
    (reachableFiles dirPath above false t ≠ [] → ∃ f ∈ reachableFiles dirPath above false t,
      findOldestFile dirPath above t {} = ⟨some f.file.1, f.file.2⟩ ∧
        ∀ g ∈ reachableFiles dirPath above false t, f.file.2 ≤ g.file.2)

/-- No directory of this name is left out. -/
theorem isSkipped_of_isChunkName {name : CString} (h : isChunkName name = true) : isSkipped name = false := by
  refine Bool.or_eq_false_iff.mpr ⟨beq_false_of_ne fun heq => ?_, beq_false_of_ne fun heq => ?_⟩
  · rw [heq] at h
    exact absurd h (by decide)
  · rw [heq] at h
    exact absurd h (by decide)

/-- A path of a file ends in the name of the file. -/
theorem ne_nil_of_mem_files {p : TreePath} {t : Dir} (h : p ∈ t.files) : p ≠ [] := by
  induction t generalizing p with
  | nil => cases h
  | file name rest ih =>
    rcases List.mem_cons.mp h with rfl | h
    · exact List.cons_ne_nil _ _
    · exact ih h
  | dir name entries rest ihEntries ih =>
    rcases List.mem_append.mp h with h | h
    · obtain ⟨q, -, rfl⟩ := List.mem_map.mp h
      exact List.cons_ne_nil _ _
    · exact ih h
  | special name rest ih => exact ih h
  | broken name rest ih => exact ih h

theorem AllChunks.entries {name : CString} {entries rest : Dir} (h : AllChunks (.dir name entries rest)) :
    AllChunks entries := by
  intro q hq
  have hchunk := h (name :: q) (List.mem_append_left _ (List.mem_map_of_mem hq))
  obtain ⟨n, q, rfl⟩ := List.exists_cons_of_ne_nil (ne_nil_of_mem_files hq)
  rwa [isChunk, List.getLast?_cons_cons] at hchunk

theorem AllChunks.rest {name : CString} {entries rest : Dir} (h : AllChunks (.dir name entries rest)) :
    AllChunks rest := fun q hq => h q (List.mem_append_right _ hq)

/-- Behind an entry that stops the search everything is hidden. -/
theorem hidden_of_mem_reachableFiles {dirPath : CString} {above : TreePath} {t : Dir} {f : ReachableFile}
    (h : f ∈ reachableFiles dirPath above true t) : f.hidden = true := by
  induction t generalizing dirPath above with
  | nil => cases h
  | broken dName rest ih => exact ih h
  | special dName rest ih =>
    unfold reachableFiles at h
    split at h
    · exact ih h
    · exact ih h
  | file dName rest ih =>
    unfold reachableFiles at h
    split at h
    · exact ih h
    · rcases List.mem_cons.mp h with rfl | h
      · rfl
      · exact ih h
  | dir dName entries rest ihEntries ih =>
    unfold reachableFiles at h
    split at h
    · exact ih h
    · rcases List.mem_append.mp h with h | h
      · split at h
        · cases h
        · exact ihEntries h
      · exact ih h

theorem filter_reachableFiles_true (dirPath : CString) (above : TreePath) (t : Dir) :
    (reachableFiles dirPath above true t).filter (fun f => !f.hidden) = [] := by
  refine List.filter_eq_nil_iff.mpr fun f hf => ?_
  rw [hidden_of_mem_reachableFiles hf]
  exact Bool.false_ne_true

/-- The search comes to the files which are not hidden. -/
theorem visitedFiles_eq_filter (dirPath : CString) (above : TreePath) {t : Dir} (hchunks : AllChunks t) :
    visitedFiles dirPath above t =
      ((reachableFiles dirPath above false t).filter fun f => !f.hidden).map ReachableFile.file := by
  induction t generalizing dirPath above with
  | nil => rfl
  | broken dName rest ih => rw [visitedFiles, reachableFiles, filter_reachableFiles_true, List.map_nil]
  | special dName rest ih =>
    unfold visitedFiles reachableFiles
    split
    · rw [filter_reachableFiles_true, List.map_nil]
    · exact ih _ _ hchunks
  | file dName rest ih =>
    have hname : isChunkName dName = true := hchunks [dName] List.mem_cons_self
    have hrest := ih dirPath above fun q hq => hchunks q (List.mem_cons_of_mem _ hq)
    unfold visitedFiles reachableFiles
    split
    · rw [filter_reachableFiles_true, List.map_nil]
    · rw [if_neg (by simp [isSkipped_of_isChunkName hname]), List.filter_cons_of_pos rfl, List.map_cons, hrest]
  | dir dName entries rest ihEntries ih =>
    have hrest := ih dirPath above hchunks.rest
    unfold visitedFiles reachableFiles
    split
    · rw [filter_reachableFiles_true, List.map_nil]
    · rw [List.filter_append, List.map_append, ← hrest]
      split
      · rfl
      · rw [ihEntries _ _ hchunks.entries]

/-- The search finds the oldest file exactly when for every file there is one at least as old which is
not hidden and has a time before `MAX_TIME_T`. -/
theorem findsOldest_iff (dirPath : CString) (above : TreePath) (t : Dir) (hchunks : AllChunks t) :
    FindsOldest dirPath above t ↔
      ∀ g ∈ reachableFiles dirPath above false t, ∃ f ∈ reachableFiles dirPath above false t,
        f.hidden = false ∧ f.file.2 < maxTimeT ∧ f.file.2 ≤ g.file.2 := by
  have hvisited := visitedFiles_eq_filter dirPath above hchunks
  have hfound : findOldestFile dirPath above t {} =
      Oldest.of (((visitedFiles dirPath above t).filter (·.2 < maxTimeT)).argmin Prod.snd) := by
    rw [findOldestFile_eq_foldl, foldl_consider]
  have hmem : ∀ file, file ∈ (visitedFiles dirPath above t).filter (·.2 < maxTimeT) ↔
      ∃ f ∈ reachableFiles dirPath above false t, f.hidden = false ∧ f.file.2 < maxTimeT ∧ f.file = file := by
    intro file
    rw [hvisited, List.mem_filter, List.mem_map]
    constructor
    · rintro ⟨⟨f, hf, rfl⟩, htime⟩
      obtain ⟨hf, hhidden⟩ := List.mem_filter.mp hf
      exact ⟨f, hf, by simpa using hhidden, of_decide_eq_true htime, rfl⟩
    · rintro ⟨f, hf, hhidden, htime, rfl⟩
      exact ⟨⟨f, List.mem_filter.mpr ⟨hf, by simp [hhidden]⟩, rfl⟩, decide_eq_true htime⟩
  constructor
  · rintro ⟨-, h⟩ g hg
    obtain ⟨f, -, hresult, hleast⟩ := h (List.ne_nil_of_mem hg)
    rw [hfound] at hresult
    cases hbest : ((visitedFiles dirPath above t).filter (·.2 < maxTimeT)).argmin Prod.snd with
    | none =>
      rw [hbest] at hresult
      cases congrArg Oldest.file hresult
    | some best =>
      rw [hbest] at hresult
      have htime : best.2 = f.file.2 := congrArg Oldest.time hresult
      obtain ⟨e, he, hhidden, hearly, rfl⟩ := (hmem best).mp (List.argmin_mem hbest)
      exact ⟨e, he, hhidden, hearly, htime.trans_le (hleast g hg)⟩
  · intro h
    refine ⟨fun hnone oldest => ?_, fun hsome => ?_⟩
    · rw [findOldestFile_eq_foldl, hvisited, hnone]
      rfl
    · obtain ⟨g, hg⟩ := List.exists_mem_of_ne_nil _ hsome
      cases hbest : ((visitedFiles dirPath above t).filter (·.2 < maxTimeT)).argmin Prod.snd with
      | none =>
        obtain ⟨f, hf, hhidden, htime, -⟩ := h g hg
        have hcandidate := (hmem f.file).mpr ⟨f, hf, hhidden, htime, rfl⟩
        rw [List.argmin_eq_none.mp hbest] at hcandidate
        cases hcandidate
      | some best =>
        obtain ⟨e, he, -, -, rfl⟩ := (hmem best).mp (List.argmin_mem hbest)
        refine ⟨e, he, by rw [hfound, hbest]; rfl, fun g hg => ?_⟩
        obtain ⟨f, hf, hhidden, htime, hle⟩ := h g hg
        have hcandidate := (hmem f.file).mpr ⟨f, hf, hhidden, htime, rfl⟩
        exact (List.le_of_mem_argmin hcandidate hbest).trans hle

/-- The oldest chunk is found behind a newer one and in a directory. -/
theorem findsOldest_newerFirst : FindsOldest "/mnt/chm/VideoFootages".toList []
    (.file "20200102-000000.300".toList
      (.dir "CAB".toList (.file "20200101-000000.300".toList .nil) .nil)) := by
  refine (findsOldest_iff _ _ _ (by decide)).mpr ?_
  decide +kernel

/-- The chunk behind a link to nowhere is not found. -/
theorem not_findsOldest_link : ¬ ∀ t : Dir, AllChunks t → FindsOldest "/mnt/chm/VideoFootages".toList [] t := by
  intro h
  obtain ⟨f, -, hresult, -⟩ := (h (.broken "latest".toList (.file "20200101-000000.300".toList .nil)) (by decide)).2
    (by decide)
  cases congrArg Oldest.file hresult

end RecordingAgent.SpaceMonitor
