import RecordingAgent.RecordingList.TableBounds

/-!
# The files of a camera

The list of a camera should hold the files below its directory. A file which stands beside the directories goes to
the camera whose directory is read next, and moves the index at which the next search starts if none is read.
-/

namespace RecordingAgent.RecordingList

open Foundation

/-- The regular files below a directory, without those which are left out. -/
def recordings (dirPath : CString) (above : TreePath) : Dir → List SingleChunk
  | .nil => []
  | .broken _ rest => recordings dirPath above rest
  | .special _ rest => recordings dirPath above rest
  | .file dName rest =>
    (if isLeftOut dName then [] else [chunkOf (dirPath ++ '/' :: dName) (above ++ [dName])]) ++
      recordings dirPath above rest
  | .dir dName entries rest =>
    (if isLeftOut dName then [] else recordings (dirPath ++ '/' :: dName) (above ++ [dName]) entries) ++
      recordings dirPath above rest

/-- The directory of a camera: its name, the files which stand beside the directories and were read since the
directory before it, and the files below it. -/
structure CameraDir where
  dName : CString
  loose : List SingleChunk
  files : List SingleChunk

/-- What a camera gets, and the name under which it is left. -/
def CameraDir.group (c : CameraDir) : Group := (c.loose ++ c.files, c.dName)

/-- The directories of the cameras in the order in which they are read, and the files behind the last one. -/
def cameraDirs (top : CString) (loose : List SingleChunk) : Dir → List CameraDir × List SingleChunk
  | .nil => ([], loose)
  | .broken _ rest => cameraDirs top loose rest
  | .special _ rest => cameraDirs top loose rest
  | .file dName rest =>
    cameraDirs top (if isLeftOut dName then loose else loose ++ [chunkOf (top ++ '/' :: dName) [dName]]) rest
  | .dir dName entries rest =>
    if isLeftOut dName then cameraDirs top loose rest
    else
      let more := cameraDirs top [] rest
      (⟨dName, loose, recordings (top ++ '/' :: dName) [dName] entries⟩ :: more.1, more.2)

/-- The status of every entry which the search looks at can be read, and its path fits. -/
def Accessible (dirPath : CString) : Dir → Prop
  | .nil => True
  | .broken _ _ => False
  | .special dName rest => (dirPath ++ '/' :: dName).length < pathMax ∧ Accessible dirPath rest
  | .file dName rest => (dirPath ++ '/' :: dName).length < pathMax ∧ Accessible dirPath rest
  | .dir dName entries rest => (dirPath ++ '/' :: dName).length < pathMax ∧
      (isLeftOut dName = false → Accessible (dirPath ++ '/' :: dName) entries) ∧ Accessible dirPath rest

/-- Neither drive is mounted below the other one. -/
def Separate (drives : DrivePathArray) : Prop :=
  ∀ i < 2, ∀ j < 2, ∀ q : CString, drives i ++ '/' :: q ≠ drives j

/-- The tables list for each camera the files below its directory. -/
def ListsCameras (drives : DrivePathArray) (drive : ℕ) (t : Dir) (s : Listing) : Prop :=
  s.cameraIncrement = (cameraDirs (drives drive) [] t).1.length ∧
    ∀ k c, (cameraDirs (drives drive) [] t).1[k]? = some c → (s.timeArray k).chunks.Perm c.files

/-- They do so after a search of the first drive, and after a search of the second one in the same process. -/
def ListsBoth (drives : DrivePathArray) (t t' : Dir) : Prop :=
  ∃ s s', searchDrive drives 0 t 0 = some s ∧ ListsCameras drives 0 t s ∧
    searchDrive drives 1 t' s.currentChunkIndex = some s' ∧ ListsCameras drives 1 t' s'

/-- The files of a camera are listed when the search stands at an index: nothing is in the table before them, they
fit, and the counter counts them. -/
structure CameraDir.ListedFrom (c : CameraDir) (index : ℕ) : Prop where
  apart : c.files = [] ∨ index = 0 ∧ c.loose = []
  fits : c.loose ++ c.files = [] ∨ index + (c.loose ++ c.files).length ≤ maxChunks
  counted : trimmedChunks c.dName ((c.loose ++ c.files).length % 2 ^ 16) = c.files.length

/-- All cameras of a drive are listed by a search which starts at an index. -/
structure CamerasListed (index : ℕ) (cams : List CameraDir) (loose : List SingleChunk) : Prop where
  cameras_le : cams.length ≤ maxTracks
  first : ∀ c ∈ cams.head?, c.ListedFrom index
  others : ∀ c ∈ cams.tail, c.ListedFrom 0
  behind : loose = [] ∨ cams.length < maxTracks ∧ indexAfter index (cams.map CameraDir.group) loose ≤ maxChunks

variable {drives : DrivePathArray} {drive : ℕ} {t t' : Dir} {dirPath dName : CString} {above : TreePath}

theorem entryPath_of_lt (h : (dirPath ++ '/' :: dName).length < pathMax) :
    tooLong dirPath dName = false ∧ entryPath dirPath dName = dirPath ++ '/' :: dName := by
  refine ⟨?_, List.take_of_length_le (by omega)⟩
  rw [tooLong, decide_eq_false_iff_not]
  omega

/-- Below the top the search stores the files only. -/
theorem visits_below (hsep : Separate drives) (hdrive : drive < 2) {q : CString}
    (hpath : dirPath = drives drive ++ '/' :: q) (h : Accessible dirPath t) :
    visits drives dirPath above t = (recordings dirPath above t).map .store := by
  induction t generalizing dirPath above q with
  | nil => rfl
  | broken dName rest ih => exact h.elim
  | special dName rest ih =>
    obtain ⟨hlt, hrest⟩ := h
    obtain ⟨hlong, -⟩ := entryPath_of_lt hlt
    rw [visits, hlong, if_neg Bool.false_ne_true, recordings, ih hpath hrest]
  | file dName rest ih =>
    obtain ⟨hlt, hrest⟩ := h
    obtain ⟨hlong, htext⟩ := entryPath_of_lt hlt
    rw [visits, hlong, if_neg Bool.false_ne_true, recordings, htext, ih hpath hrest]
    split <;> rfl
  | dir dName entries rest ihEntries ih =>
    obtain ⟨hlt, hentries, hrest⟩ := h
    obtain ⟨hlong, htext⟩ := entryPath_of_lt hlt
    have hbelow : isTop drives dirPath = false := by
      rw [isTop, hpath, Bool.or_eq_false_iff, beq_eq_false_iff_ne, beq_eq_false_iff_ne]
      exact ⟨hsep drive hdrive 0 (by decide) q, hsep drive hdrive 1 (by decide) q⟩
    rw [visits, hlong, if_neg Bool.false_ne_true, recordings, htext, ih hpath hrest, hbelow]
    cases hleft : isLeftOut dName with
    | true => rfl
    | false =>
      have hnested : dirPath ++ '/' :: dName = drives drive ++ '/' :: (q ++ '/' :: dName) := by
        rw [hpath]
        simp
      rw [if_neg Bool.false_ne_true, if_neg Bool.false_ne_true, if_neg Bool.false_ne_true,
        ihEntries hnested (hentries hleft), List.map_append, List.nil_append]

/-- At the top it stores the files as well, and leaves a camera with each directory. -/
theorem visits_top (hsep : Separate drives) (hdrive : drive < 2) (loose : List SingleChunk)
    (h : Accessible (drives drive) t) : loose.map .store ++ visits drives (drives drive) [] t =
      visitsOf ((cameraDirs (drives drive) loose t).1.map CameraDir.group) (cameraDirs (drives drive) loose t).2 := by
  have htop : isTop drives (drives drive) = true := by
    rw [isTop, Bool.or_eq_true, beq_iff_eq, beq_iff_eq]
    have hcases : drive = 0 ∨ drive = 1 := by omega
    exact hcases.imp (congrArg drives) (congrArg drives)
  induction t generalizing loose with
  | nil => simp [visits, cameraDirs, visitsOf]
  | broken dName rest ih => exact h.elim
  | special dName rest ih =>
    obtain ⟨hlt, hrest⟩ := h
    obtain ⟨hlong, -⟩ := entryPath_of_lt hlt
    rw [visits, hlong, if_neg Bool.false_ne_true, cameraDirs, ih loose hrest]
  | file dName rest ih =>
    obtain ⟨hlt, hrest⟩ := h
    obtain ⟨hlong, htext⟩ := entryPath_of_lt hlt
    rw [visits, hlong, if_neg Bool.false_ne_true, cameraDirs, htext, ← ih _ hrest]
    split
    · rfl
    · simp
  | dir dName entries rest ihEntries ih =>
    obtain ⟨hlt, hentries, hrest⟩ := h
    obtain ⟨hlong, htext⟩ := entryPath_of_lt hlt
    rw [visits, hlong, if_neg Bool.false_ne_true, cameraDirs, htext, htop]
    cases hleft : isLeftOut dName with
    | true => exact ih loose hrest
    | false =>
      have hmore := ih [] hrest
      rw [List.map_nil, List.nil_append] at hmore
      rw [if_neg Bool.false_ne_true, if_neg Bool.false_ne_true, if_pos rfl, hmore,
        visits_below hsep hdrive rfl (hentries hleft)]
      simp [visitsOf, CameraDir.group]

/-- A file below a directory is not the directory itself, nor beside it. -/
theorem lt_length_of_mem_recordings {chunk : SingleChunk} (h : chunk ∈ recordings dirPath above t) :
    above.length < chunk.file.length := by
  induction t generalizing dirPath above with
  | nil => cases h
  | broken dName rest ih => exact ih h
  | special dName rest ih => exact ih h
  | file dName rest ih =>
    rw [recordings] at h
    rcases List.mem_append.mp h with h | h
    · split at h
      · cases h
      · obtain rfl := List.mem_singleton.mp h
        simp [chunkOf]
    · exact ih h
  | dir dName entries rest ihEntries ih =>
    rw [recordings] at h
    rcases List.mem_append.mp h with h | h
    · split at h
      · cases h
      · have hlt := ihEntries h
        rw [List.length_append] at hlt
        exact lt_of_le_of_lt (Nat.le_add_right _ _) hlt
    · exact ih h

/-- They are the regular files on whose paths no name is left out. -/
theorem map_file_recordings (dirPath : CString) (above : TreePath) (t : Dir) :
    (recordings dirPath above t).map SingleChunk.file =
      (t.files.filter fun p => p.all fun dName => !isLeftOut dName).map (above ++ ·) := by
  induction t generalizing dirPath above with
  | nil => rfl
  | broken dName rest ih => exact ih dirPath above
  | special dName rest ih => exact ih dirPath above
  | file dName rest ih =>
    rw [recordings, List.map_append, ih, Dir.files]
    cases hleft : isLeftOut dName with
    | true => simp [hleft]
    | false => simp [hleft, chunkOf]
  | dir dName entries rest ihEntries ih =>
    rw [recordings, List.map_append, ih, Dir.files, List.filter_append, List.map_append, List.filter_map]
    cases hleft : isLeftOut dName with
    | true => simp [Function.comp_def, hleft]
    | false =>
      rw [if_neg Bool.false_ne_true, ihEntries]
      simp [Function.comp_def, hleft]

/-- The files below the directory of a camera are not those beside it. -/
structure CameraDir.Told (c : CameraDir) : Prop where
  loose : ∀ chunk ∈ c.loose, chunk.file.length = 1
  files : ∀ chunk ∈ c.files, 1 < chunk.file.length

theorem told_of_mem_cameraDirs {top : CString} {loose : List SingleChunk} {c : CameraDir}
    (hloose : ∀ chunk ∈ loose, chunk.file.length = 1) (h : c ∈ (cameraDirs top loose t).1) : c.Told := by
  induction t generalizing loose with
  | nil => cases h
  | broken dName rest ih => exact ih hloose h
  | special dName rest ih => exact ih hloose h
  | file dName rest ih =>
    refine ih (fun chunk hchunk => ?_) h
    split at hchunk
    · exact hloose chunk hchunk
    · rcases List.mem_append.mp hchunk with hold | hnew
      · exact hloose chunk hold
      · rw [List.mem_singleton.mp hnew]
        rfl
  | dir dName entries rest ihEntries ih =>
    rw [cameraDirs] at h
    split at h
    · exact ih hloose h
    · rcases List.mem_cons.mp h with rfl | hmore
      · exact ⟨hloose, fun chunk hchunk => lt_length_of_mem_recordings hchunk⟩
      · exact ih (fun chunk hchunk => absurd hchunk List.not_mem_nil) hmore

/-- The entries of a camera which was left are the files below its directory exactly if no others are in front of them
and the counter counts them. -/
theorem perm_chunks_iff {c : CameraDir} (htold : c.Told) (index : ℕ) :
    (named c.dName (filled index (c.loose ++ c.files))).chunks.Perm c.files ↔
      (c.files = [] ∨ index = 0 ∧ c.loose = []) ∧
        trimmedChunks c.dName ((c.loose ++ c.files).length % 2 ^ 16) = c.files.length := by
  generalize hcount : trimmedChunks c.dName ((c.loose ++ c.files).length % 2 ^ 16) = n
  have hchunks : (named c.dName (filled index (c.loose ++ c.files))).chunks =
      (List.range n).map (filled index (c.loose ++ c.files)).recording := by
    rw [← hcount]
    rfl
  rw [hchunks]
  constructor
  · intro hperm
    have hlength := hperm.length_eq
    rw [List.length_map, List.length_range] at hlength
    refine ⟨?_, hlength⟩
    by_cases hnone : c.files = []
    · exact Or.inl hnone
    · -- the first entry is one of the files below the directory
      have hpos : 0 < n := by
        rw [hlength]
        exact List.length_pos_iff.mpr hnone
      have hfirst : (filled index (c.loose ++ c.files)).recording 0 ∈ c.files :=
        hperm.subset (List.mem_map_of_mem (List.mem_range.mpr hpos))
      have hlt := htold.files _ hfirst
      simp only [filled] at hlt
      split at hlt
      next hzero =>
        refine Or.inr ⟨Nat.le_zero.mp hzero, ?_⟩
        cases hloose : c.loose with
        | nil => rfl
        | cons chunk rest =>
          have hone := htold.loose chunk (hloose ▸ List.mem_cons_self)
          rw [hloose, List.cons_append, Nat.zero_sub, List.getElem?_cons_zero, Option.getD_some] at hlt
          omega
      next => exact absurd hlt (by decide)
  · rintro ⟨hapart, rfl⟩
    rcases hapart with hnone | ⟨rfl, hloose⟩
    · rw [hnone]
      exact List.Perm.refl _
    · rw [hloose, List.nil_append]
      have hfiles : (List.range c.files.length).map (filled 0 c.files).recording = c.files := by
        apply List.ext_getElem
        · rw [List.length_map, List.length_range]
        · intro j hj hj'
          rw [List.getElem_map, List.getElem_range, filled]
          simp [hj']
      rw [hfiles]

/-- The table of a camera which was left. -/
theorem getElem?_tablesOf {cams : List CameraDir} {loose : List SingleChunk} {k : ℕ} {c : CameraDir} (index : ℕ)
    (hk : cams[k]? = some c) : (tablesOf index (cams.map CameraDir.group) loose)[k]? =
      some (named c.dName (filled (if k = 0 then index else 0) (c.loose ++ c.files))) := by
  induction cams generalizing index k with
  | nil => cases hk
  | cons other more ih =>
    cases k with
    | zero =>
      obtain rfl := Option.some.inj hk
      rfl
    | succ k =>
      have hnext := ih 0 hk
      rw [ite_self] at hnext
      exact hnext

/-- There is room if all cameras are listed. -/
theorem CamerasListed.fitsTables {index : ℕ} {cams : List CameraDir} {loose : List SingleChunk}
    (h : CamerasListed index cams loose) : FitsTables 0 index (cams.map CameraDir.group) loose := by
  obtain ⟨hle, hfirst, hothers, hbehind⟩ := h
  refine (fitsTables_iff index (Nat.zero_le _)).mpr ⟨by simpa using hle, fun heq => ?_, ?_, ?_⟩
  · refine hbehind.resolve_right fun hlt => ?_
    rw [Nat.zero_add, List.length_map] at heq
    exact absurd heq hlt.1.ne
  · intro chunks hchunks
    cases cams with
    | nil =>
      obtain rfl : loose = chunks := Option.some.inj hchunks
      exact hbehind.imp_right And.right
    | cons c more =>
      obtain rfl : c.loose ++ c.files = chunks := Option.some.inj hchunks
      exact (hfirst c rfl).fits
  · intro chunks hchunks
    have hfits {c : CameraDir} {i : ℕ} (hlisted : c.ListedFrom i) : (c.loose ++ c.files).length ≤ maxChunks := by
      rcases hlisted.fits with hnone | hlen
      · rw [hnone]
        exact Nat.zero_le _
      · omega
    rcases List.mem_append.mp hchunks with hmem | hmem
    · obtain ⟨group, hgroup, rfl⟩ := List.mem_map.mp hmem
      obtain ⟨c, hc, rfl⟩ := List.mem_map.mp hgroup
      cases cams with
      | nil => cases hc
      | cons other more =>
        rcases List.mem_cons.mp hc with rfl | hc
        · exact hfits (hfirst c rfl)
        · exact hfits (hothers c hc)
    · obtain rfl := List.mem_singleton.mp hmem
      rcases hbehind with hnone | ⟨-, hlen⟩
      · rw [hnone]
        exact Nat.zero_le _
      · exact (Nat.le_add_left _ _).trans hlen

/-- The index from which a camera is listed. -/
theorem CamerasListed.listedFrom {index : ℕ} {cams : List CameraDir} {loose : List SingleChunk}
    (h : CamerasListed index cams loose) {k : ℕ} {c : CameraDir} (hk : cams[k]? = some c) :
    c.ListedFrom (if k = 0 then index else 0) := by
  cases cams with
  | nil => cases hk
  | cons other more =>
    cases k with
    | zero => exact h.first c hk
    | succ k => exact h.others c (List.mem_of_getElem? hk)

/-- All cameras are listed if there is room and each of them is apart from the others and counted. -/
theorem camerasListed_of_fitsTables {index : ℕ} {cams : List CameraDir} {loose : List SingleChunk}
    (h : FitsTables 0 index (cams.map CameraDir.group) loose)
    (hentries : ∀ {k : ℕ} {c : CameraDir}, cams[k]? = some c →
      (c.files = [] ∨ (if k = 0 then index else 0) = 0 ∧ c.loose = []) ∧
        trimmedChunks c.dName ((c.loose ++ c.files).length % 2 ^ 16) = c.files.length) :
    CamerasListed index cams loose := by
  obtain ⟨hle, hfull, hfirst, hall⟩ := (fitsTables_iff index (Nat.zero_le _)).mp h
  rw [Nat.zero_add, List.length_map] at hle hfull
  have hmem {c : CameraDir} (hc : c ∈ cams) : (c.loose ++ c.files).length ≤ maxChunks :=
    hall _ (List.mem_append_left _ (List.mem_map_of_mem (List.mem_map_of_mem hc)))
  have hloose : loose.length ≤ maxChunks := hall loose (List.mem_append_right _ List.mem_cons_self)
  refine ⟨hle, fun c hc => ?_, fun c hc => ?_, ?_⟩
  · have hk : cams[0]? = some c := by rwa [← List.head?_eq_getElem?]
    obtain ⟨hapart, hcounted⟩ := hentries hk
    refine ⟨hapart, hfirst _ ?_, hcounted⟩
    cases cams with
    | nil => cases hc
    | cons other more =>
      obtain rfl : other = c := Option.some.inj hc
      rfl
  · obtain ⟨k, hk⟩ := List.mem_iff_getElem?.mp hc
    rw [List.getElem?_tail] at hk
    obtain ⟨hapart, hcounted⟩ := hentries hk
    exact ⟨hapart, Or.inr (by rw [Nat.zero_add]; exact hmem (List.mem_of_mem_tail hc)), hcounted⟩
  · by_cases hnone : loose = []
    · exact Or.inl hnone
    · have hlt : cams.length < maxTracks := lt_of_le_of_ne hle fun heq => hnone (hfull heq)
      refine Or.inr ⟨hlt, ?_⟩
      cases cams with
      | nil => exact (hfirst loose rfl).resolve_left hnone
      | cons c more =>
        rw [indexAfter, if_neg (by simp), Nat.zero_add]
        exact hloose

/-- A search of a drive lists its cameras exactly if all of them are listed by a search which starts at its index, and
then leaves the index behind the files which stand beside the directories. -/
theorem searchDrive_lists (hsep : Separate drives) (hdrive : drive < 2) (h : Accessible (drives drive) t) (index : ℕ) :
    ((∃ s, searchDrive drives drive t index = some s ∧ ListsCameras drives drive t s) ↔
      CamerasListed index (cameraDirs (drives drive) [] t).1 (cameraDirs (drives drive) [] t).2) ∧
    ∀ s, searchDrive drives drive t index = some s → s.currentChunkIndex =
      indexAfter index ((cameraDirs (drives drive) [] t).1.map CameraDir.group) (cameraDirs (drives drive) [] t).2 := by
  have hvisits := visits_top hsep hdrive [] h
  have htold (c : CameraDir) (hc : c ∈ (cameraDirs (drives drive) [] t).1) : c.Told :=
    told_of_mem_cameraDirs (fun chunk hchunk => absurd hchunk List.not_mem_nil) hc
  rw [List.map_nil, List.nil_append] at hvisits
  unfold ListsCameras
  rw [searchDrive, searchDirectory_eq_runVisits, hvisits]
  generalize (cameraDirs (drives drive) [] t).1 = cams at *
  generalize (cameraDirs (drives drive) [] t).2 = loose at *
  have hfresh : ∀ k, (Listing.start index).cameraIncrement ≤ k → (Listing.start index).timeArray k = .zero :=
    fun _ _ => rfl
  have htable {s : Listing} (hleaves : Leaves (.start index) s (cams.map CameraDir.group) loose) {k : ℕ} {c : CameraDir}
      (hk : cams[k]? = some c) :
      s.timeArray k = named c.dName (filled (if k = 0 then index else 0) (c.loose ++ c.files)) := by
    have hk' := hleaves.tables k
    rw [Listing.start, Nat.zero_add, getElem?_tablesOf index hk, Option.getD_some] at hk'
    exact hk'
  refine ⟨⟨?_, fun hlisted => ?_⟩, fun s hsearch => (leaves_of_runVisits hfresh hsearch).2.currentChunkIndex_eq⟩
  · rintro ⟨s, hsearch, -, hperm⟩
    obtain ⟨hfit, hleaves⟩ := leaves_of_runVisits hfresh hsearch
    have hentries {k : ℕ} {c : CameraDir} (hk : cams[k]? = some c) :
        (c.files = [] ∨ (if k = 0 then index else 0) = 0 ∧ c.loose = []) ∧
          trimmedChunks c.dName ((c.loose ++ c.files).length % 2 ^ 16) = c.files.length := by
      have hchunks := hperm k c hk
      rw [htable hleaves hk] at hchunks
      exact (perm_chunks_iff (htold c (List.mem_of_getElem? hk)) _).mp hchunks
    exact camerasListed_of_fitsTables hfit hentries
  · obtain ⟨s, hrun, hleaves⟩ := (runVisits_visitsOf _ _ hfresh).1 hlisted.fitsTables
    refine ⟨s, hrun, ?_, fun k c hk => ?_⟩
    · have hcount := hleaves.cameraIncrement_eq
      rw [Listing.start, Nat.zero_add, List.length_map] at hcount
      exact hcount
    · rw [htable hleaves hk]
      obtain ⟨hapart, -, hcounted⟩ := hlisted.listedFrom hk
      exact (perm_chunks_iff (htold c (List.mem_of_getElem? hk)) _).mpr ⟨hapart, hcounted⟩

/-- Both drives are listed exactly if all cameras of the first one are listed from the beginning of their tables, and
those of the second one from where the first search has left the index. -/
theorem listsBoth_iff (hsep : Separate drives) (h : Accessible (drives 0) t) (h' : Accessible (drives 1) t') :
    ListsBoth drives t t' ↔
      CamerasListed 0 (cameraDirs (drives 0) [] t).1 (cameraDirs (drives 0) [] t).2 ∧
        CamerasListed (indexAfter 0 ((cameraDirs (drives 0) [] t).1.map CameraDir.group) (cameraDirs (drives 0) [] t).2)
          (cameraDirs (drives 1) [] t').1 (cameraDirs (drives 1) [] t').2 := by
  obtain ⟨hfirst, hindex⟩ := searchDrive_lists hsep (by decide) h 0
  constructor
  · rintro ⟨s, s', hsearch, hlists, hsearch', hlists'⟩
    rw [hindex s hsearch] at hsearch'
    exact ⟨hfirst.mp ⟨s, hsearch, hlists⟩, (searchDrive_lists hsep (by decide) h' _).1.mp ⟨s', hsearch', hlists'⟩⟩
  · rintro ⟨hlisted, hlisted'⟩
    obtain ⟨s, hsearch, hlists⟩ := hfirst.mpr hlisted
    obtain ⟨s', hsearch', hlists'⟩ := (searchDrive_lists hsep (by decide) h' _).1.mpr hlisted'
    exact ⟨s, s', hsearch, hlists, by rw [hindex s hsearch]; exact hsearch', hlists'⟩

/-- The drives of the recorder are mounted beside each other. -/
theorem separate_recorderDrives : Separate recorderDrives := by
  intro i hi j hj q heq
  have hlength := congrArg List.length heq
  have hbegin := congrArg (List.take 6) heq
  obtain rfl | rfl : i = 0 ∨ i = 1 := by omega
  · obtain rfl | rfl : j = 0 ∨ j = 1 := by omega
    · simp at hlength
    · rw [List.take_append_of_le_length (by decide)] at hbegin
      exact absurd hbegin (by decide)
  · obtain rfl | rfl : j = 0 ∨ j = 1 := by omega
    · rw [List.take_append_of_le_length (by decide)] at hbegin
      exact absurd hbegin (by decide)
    · simp at hlength

/-- A drive with a camera of one chunk. -/
def oneCamera : Dir := .dir "CAM1".toList (.file "20200913-122640.000060000.data".toList .nil) .nil

theorem accessible_oneCamera : Accessible (recorderDrives 0) oneCamera :=
  ⟨by decide, fun _ => ⟨by decide, trivial⟩, trivial⟩

/-- Its chunk is listed. -/
theorem listsBoth_iff_oneCamera : ListsBoth recorderDrives oneCamera .nil := by
  have hnone : Accessible (recorderDrives 1) .nil := trivial
  refine (listsBoth_iff separate_recorderDrives accessible_oneCamera hnone).mpr ⟨⟨by decide, ?_, ?_, Or.inl rfl⟩,
    ⟨by decide, fun c hc => ?_, fun c hc => ?_, Or.inl rfl⟩⟩
  · intro c hc
    obtain rfl := Option.some.inj hc
    exact ⟨Or.inr ⟨rfl, rfl⟩, Or.inr (by decide), by decide⟩
  · intro c hc
    cases hc
  · cases hc
  · cases hc

/-- The same drive with a file beside the directory. -/
def looseFile : Dir := .file "notes.txt".toList oneCamera

/-- The file is listed for the camera. -/
theorem not_listsBoth_looseFile : Accessible (recorderDrives 0) looseFile ∧ ¬ListsBoth recorderDrives looseFile .nil := by
  have haccessible : Accessible (recorderDrives 0) looseFile := ⟨by decide, accessible_oneCamera⟩
  refine ⟨haccessible, ?_⟩
  rintro ⟨s, -, hsearch, hlists, -⟩
  have hlisted := (searchDrive_lists separate_recorderDrives (by decide) haccessible 0).1.mp ⟨s, hsearch, hlists⟩
  rcases (hlisted.first _ rfl).apart with hnone | ⟨-, hnone⟩
  · cases hnone
  · cases hnone

end RecordingAgent.RecordingList
