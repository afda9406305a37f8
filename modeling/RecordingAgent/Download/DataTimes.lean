import RecordingAgent.Foundation.FileTree
import RecordingAgent.Download.Playback
import RecordingAgent.Metarec.ChunkName

/-!
# The oldest and the newest file of a recording

The search for the oldest and for the newest chunk file walks over a directory tree and keeps what it found in
static variables. Of these only the modification time is reset by a call; the path of the file is what an
earlier call left, unless the walk finds a file of its own.
-/

namespace RecordingAgent.Download

open Foundation Metarec

/-- The files `nftw` reports below a directory, in the order in which it comes to them, and whether it goes on:
it returns at a path which does not fit. An entry without status is reported, but not as a file. -/
def nftwFiles (dirPath : CString) : Dir → List CString × Bool
  | .nil => ([], true)
  | .file name rest | .special name rest =>
    if pathMax ≤ (dirPath ++ '/' :: name).length then ([], false)
    else ((dirPath ++ '/' :: name) :: (nftwFiles dirPath rest).1, (nftwFiles dirPath rest).2)
  | .dir name entries rest =>
    if pathMax ≤ (dirPath ++ '/' :: name).length then ([], false)
    else
      let below := nftwFiles (dirPath ++ '/' :: name) entries
      if below.2 then (below.1 ++ (nftwFiles dirPath rest).1, (nftwFiles dirPath rest).2) else (below.1, false)
  | .broken name rest =>
    if pathMax ≤ (dirPath ++ '/' :: name).length then ([], false) else nftwFiles dirPath rest

/-- A call of the search: which of the two, the directory and what is in it, if it can be read, the modification
times of the files, and what the caller has for the time. -/
structure DataTimeCall where
  oldest : Bool
  path : CString
  tree : Option Dir
  mtime : CString → ℤ
  eTime : ℤ

/-- The files which the walk of a call comes to. -/
def DataTimeCall.walked (c : DataTimeCall) : List CString :=
  match c.tree with
  | some tree => (nftwFiles (c.path.rdropWhile (· == '/')) tree).1
  | none => []

/-- The static variables of the search. -/
structure SearchStatics where
  mtimeStart : ℤ
  mtimeEnd : ℤ
  timeEpoch : ℤ
  tempBuff : CString
  deriving DecidableEq

/-- The variables at the start of the process. -/
def SearchStatics.init : SearchStatics := ⟨0, 0, 0, []⟩

/-- The time in the name of a file with a path, if the name has the pattern of a chunk. -/
def chunkEpoch (vdock : Bool) (fpath : CString) : Option ℤ := (baseName fpath).bind (RaDataSearch.fileNameToEpoch vdock)

/-- What one walk holds: a modification time, the path with this time, and the time in its name. -/
structure HeldFile where
  mtime : ℤ
  tempBuff : CString
  timeEpoch : ℤ
  deriving DecidableEq

/-- A file takes the place of what is held if that has no modification time or a worse one. -/
def considerFile (better : ℤ → ℤ → Bool) (vdock : Bool) (mtime : CString → ℤ) (held : HeldFile) (fpath : CString) :
    HeldFile :=
  if held.mtime = 0 ∨ better (mtime fpath) held.mtime then
    match chunkEpoch vdock fpath with
    | some timeEpoch => ⟨mtime fpath, fpath, timeEpoch⟩
    | none => held
  else held

/-- `get_oldest_timestamp`, for a file. -/
def getOldestTimestamp (vdock : Bool) (mtime : CString → ℤ) (st : SearchStatics) (fpath : CString) : SearchStatics :=
  let held := considerFile (fun new old => new < old) vdock mtime ⟨st.mtimeStart, st.tempBuff, st.timeEpoch⟩ fpath
  { st with mtimeStart := held.mtime, tempBuff := held.tempBuff, timeEpoch := held.timeEpoch }

/-- `get_newest_timestamp`, for a file. -/
def getNewestTimestamp (vdock : Bool) (mtime : CString → ℤ) (st : SearchStatics) (fpath : CString) : SearchStatics :=
  let held := considerFile (fun new old => new > old) vdock mtime ⟨st.mtimeEnd, st.tempBuff, st.timeEpoch⟩ fpath
  { st with mtimeEnd := held.mtime, tempBuff := held.tempBuff, timeEpoch := held.timeEpoch }

/-- The variables after the walk of `get_data_start_time` or `get_data_end_time`. -/
def DataTimeCall.walk (vdock : Bool) (c : DataTimeCall) (st : SearchStatics) : SearchStatics :=
  if c.oldest then c.walked.foldl (getOldestTimestamp vdock c.mtime) { st with mtimeStart := 0 }
  else c.walked.foldl (getNewestTimestamp vdock c.mtime) { st with mtimeEnd := 0 }

/-- What a call gives the caller: whether it returns `EXIT_SUCCESS`, the path and the time. -/
structure DataTime where
  success : Bool
  returnString : CString
  eTime : ℤ
  deriving DecidableEq

/-- The end of `get_data_start_time` and `get_data_end_time`. That `nftw` failed goes unnoticed, since it does
not return `EXIT_FAILURE` then, and a text without a slash has no name behind it, so the call is undefined. -/
def DataTimeCall.report (vdock : Bool) (c : DataTimeCall) (st : SearchStatics) : Option DataTime :=
  (baseName st.tempBuff).map fun name =>
    ⟨true, st.tempBuff.take pathMax, (RaDataSearch.fileNameToEpoch vdock name).getD c.eTime⟩

/-- What a call gives after the calls which left the variables as they are. -/
def DataTimeCall.result (vdock : Bool) (c : DataTimeCall) (st : SearchStatics) : Option DataTime :=
  c.report vdock (c.walk vdock st)

/-- The variables after a history of calls, if each of them is defined. -/
def afterCalls (vdock : Bool) : SearchStatics → List DataTimeCall → Option SearchStatics
  | st, [] => some st
  | st, c :: history =>
    match c.result vdock st with
    | some _ => afterCalls vdock (c.walk vdock st) history
    | none => none

/-- The path is that of a chunk file. -/
def IsChunkPath (vdock : Bool) (fpath : CString) : Prop := (chunkEpoch vdock fpath).isSome = true

/-- A call gives the same after any two histories, and without a chunk file it reports that there is none. -/
def HistoryFree (vdock : Bool) (c : DataTimeCall) : Prop :=
  (∀ h h' st st', afterCalls vdock .init h = some st → afterCalls vdock .init h' = some st' →
    c.result vdock st = c.result vdock st') ∧
  ((¬ ∃ fpath ∈ c.walked, IsChunkPath vdock fpath) →
    ∀ h st, afterCalls vdock .init h = some st → ∃ r, c.result vdock st = some r ∧ r.success = false)

/-- How the walk of a call compares modification times. -/
def DataTimeCall.prefers (c : DataTimeCall) (new old : ℤ) : Bool := if c.oldest then new < old else new > old

/-- What the walk of a call holds at its end. -/
def DataTimeCall.held (vdock : Bool) (c : DataTimeCall) (st : SearchStatics) : HeldFile :=
  c.walked.foldl (considerFile c.prefers vdock c.mtime) ⟨0, st.tempBuff, st.timeEpoch⟩

/-! ## What a walk leaves -/

variable {vdock : Bool} {better : ℤ → ℤ → Bool} {mtime : CString → ℤ}

/-- A file which is no chunk file is passed over. -/
theorem considerFile_of_not_isChunkPath {fpath : CString} (h : ¬ IsChunkPath vdock fpath) (held : HeldFile) :
    considerFile better vdock mtime held fpath = held := by
  rw [considerFile, Option.not_isSome_iff_eq_none.mp h]
  split
  · rfl
  · rfl

/-- The first chunk file of a walk is held, whatever was held before. -/
theorem considerFile_of_isChunkPath {fpath : CString} (h : IsChunkPath vdock fpath) (held : HeldFile)
    (hreset : held.mtime = 0) :
    considerFile better vdock mtime held fpath = ⟨mtime fpath, fpath, (chunkEpoch vdock fpath).getD 0⟩ := by
  obtain ⟨timeEpoch, htime⟩ := Option.isSome_iff_exists.mp h
  rw [considerFile, if_pos (Or.inl hreset), htime]
  rfl

/-- Files which are no chunk files leave what is held. -/
theorem foldl_considerFile_of_none {files : List CString} (h : ∀ fpath ∈ files, ¬ IsChunkPath vdock fpath)
    (held : HeldFile) : files.foldl (considerFile better vdock mtime) held = held := by
  induction files with
  | nil => rfl
  | cons fpath files ih =>
    rw [List.foldl_cons, considerFile_of_not_isChunkPath (h fpath List.mem_cons_self)]
    exact ih fun f hf => h f (List.mem_cons_of_mem _ hf)

/-- A walk with a chunk file ends with the same for all that was held without a modification time. -/
theorem foldl_considerFile_of_exists {files : List CString} (h : ∃ fpath ∈ files, IsChunkPath vdock fpath)
    {held held' : HeldFile} (hreset : held.mtime = 0) (hreset' : held'.mtime = 0) :
    files.foldl (considerFile better vdock mtime) held = files.foldl (considerFile better vdock mtime) held' := by
  induction files with
  | nil =>
    obtain ⟨fpath, hmem, -⟩ := h
    cases hmem
  | cons fpath files ih =>
    rw [List.foldl_cons, List.foldl_cons]
    by_cases hfirst : IsChunkPath vdock fpath
    · rw [considerFile_of_isChunkPath hfirst held hreset, considerFile_of_isChunkPath hfirst held' hreset']
    · rw [considerFile_of_not_isChunkPath hfirst, considerFile_of_not_isChunkPath hfirst]
      apply ih
      obtain ⟨f, hmem, hf⟩ := h
      rcases List.mem_cons.mp hmem with rfl | hmem
      · exact absurd hf hfirst
      · exact ⟨f, hmem, hf⟩

theorem foldl_getOldestTimestamp (files : List CString) (st : SearchStatics) :
    files.foldl (getOldestTimestamp vdock mtime) st =
      let held := files.foldl (considerFile (fun new old => new < old) vdock mtime)
        ⟨st.mtimeStart, st.tempBuff, st.timeEpoch⟩
      { st with mtimeStart := held.mtime, tempBuff := held.tempBuff, timeEpoch := held.timeEpoch } := by
  induction files generalizing st with
  | nil => rfl
  | cons fpath files ih =>
    rw [List.foldl_cons, ih]
    rfl

theorem foldl_getNewestTimestamp (files : List CString) (st : SearchStatics) :
    files.foldl (getNewestTimestamp vdock mtime) st =
      let held := files.foldl (considerFile (fun new old => new > old) vdock mtime)
        ⟨st.mtimeEnd, st.tempBuff, st.timeEpoch⟩
      { st with mtimeEnd := held.mtime, tempBuff := held.tempBuff, timeEpoch := held.timeEpoch } := by
  induction files generalizing st with
  | nil => rfl
  | cons fpath files ih =>
    rw [List.foldl_cons, ih]
    rfl

/-- The path after a call is the one its walk holds. -/
theorem tempBuff_walk (c : DataTimeCall) (st : SearchStatics) :
    (c.walk vdock st).tempBuff = (c.held vdock st).tempBuff := by
  unfold DataTimeCall.walk DataTimeCall.held
  cases holdest : c.oldest with
  | true =>
    have hprefers : c.prefers = fun new old => decide (new < old) := by
      funext new old
      rw [DataTimeCall.prefers, holdest, if_pos rfl]
    rw [if_pos rfl, foldl_getOldestTimestamp, hprefers]
  | false =>
    have hprefers : c.prefers = fun new old => decide (new > old) := by
      funext new old
      rw [DataTimeCall.prefers, holdest, if_neg Bool.false_ne_true]
    rw [if_neg Bool.false_ne_true, foldl_getNewestTimestamp, hprefers]

/-- What a call gives is read off the path which its walk holds. -/
theorem result_eq (c : DataTimeCall) (st : SearchStatics) :
    c.result vdock st = (baseName (c.held vdock st).tempBuff).map fun name =>
      ⟨true, (c.held vdock st).tempBuff.take pathMax, (RaDataSearch.fileNameToEpoch vdock name).getD c.eTime⟩ := by
  rw [DataTimeCall.result, DataTimeCall.report, tempBuff_walk]

/-! ## Calls and their histories -/

/-- The path of a chunk file in an example. -/
def chunkPath : CString := "/rssd/20200131-040148.016013117.ra".toList

/-- A call on a directory with this file. -/
def chunkCall : DataTimeCall where
  oldest := true
  path := "/rssd".toList
  tree := some (.file "20200131-040148.016013117.ra".toList .nil)
  mtime _ := 1580443308
  eTime := 0

theorem isChunkPath_chunkPath : IsChunkPath vdock chunkPath := by
  have hname : baseName chunkPath = some "20200131-040148.016013117.ra".toList := by decide
  have hpattern : RaDataSearch.checkRaFileRegex (some "20200131-040148.016013117.ra".toList) = true := by decide
  rw [IsChunkPath, chunkEpoch, hname, Option.bind_some, RaDataSearch.fileNameToEpoch, hpattern, Bool.not_true,
    Bool.and_false, if_neg Bool.false_ne_true]
  rfl

/-- The call on the chunk file leaves its path. -/
theorem held_chunkCall (st : SearchStatics) : (chunkCall.held vdock st).tempBuff = chunkPath := by
  have hwalked : chunkCall.walked = [chunkPath] := by decide
  rw [DataTimeCall.held, hwalked, List.foldl_cons, considerFile_of_isChunkPath isChunkPath_chunkPath _ rfl]
  rfl

/-- Without a chunk file a call gives what an earlier call left, and is undefined if there was none. -/
theorem not_historyFree_of_none {c : DataTimeCall} (h : ∀ fpath ∈ c.walked, ¬ IsChunkPath vdock fpath) :
    ¬ HistoryFree vdock c := by
  intro hfree
  have hheld : ∀ st, (c.held vdock st).tempBuff = st.tempBuff := by
    intro st
    rw [DataTimeCall.held, foldl_considerFile_of_none h]
  have hbase : (baseName chunkPath).isSome = true := by decide
  have hdefined : (chunkCall.result vdock .init).isSome = true := by
    rw [result_eq, held_chunkCall, Option.isSome_map]
    exact hbase
  obtain ⟨r, hr⟩ := Option.isSome_iff_exists.mp hdefined
  have hsame := hfree.1 [] [chunkCall] .init (chunkCall.walk vdock .init) rfl (by rw [afterCalls, hr]; rfl)
  rw [result_eq, result_eq, hheld, hheld, tempBuff_walk, held_chunkCall] at hsame
  have hnone := congrArg Option.isSome hsame
  rw [Option.isSome_map, Option.isSome_map, hbase] at hnone
  cases hnone

/-- The result of a call is free of the history exactly when its walk comes to a chunk file. -/
theorem historyFree_iff (vdock : Bool) (c : DataTimeCall) :
    HistoryFree vdock c ↔ ∃ fpath ∈ c.walked, IsChunkPath vdock fpath := by
  constructor
  · intro hfree
    by_contra hnone
    exact not_historyFree_of_none (fun fpath hmem hchunk => hnone ⟨fpath, hmem, hchunk⟩) hfree
  · intro hsome
    refine ⟨fun _ _ st st' _ _ => ?_, fun hnone => absurd hsome hnone⟩
    have hheld : c.held vdock st = c.held vdock st' := foldl_considerFile_of_exists hsome rfl rfl
    rw [result_eq, result_eq, hheld]

/-- A call on an empty directory. -/
def emptyCall : DataTimeCall := { chunkCall with path := "/chm".toList, tree := some .nil }

/-- On an empty directory a call gives the chunk of the other drive. -/
theorem not_historyFree_empty : ¬ ∀ c : DataTimeCall, HistoryFree false c := by
  intro h
  refine absurd (h emptyCall) (not_historyFree_of_none ?_)
  intro fpath hmem
  cases hmem

end RecordingAgent.Download
