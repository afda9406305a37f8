import RecordingAgent.RecordingList.Tables

/-!
# Overrunning the tables

A search stays within the tables, and counts what it stores, as long as there are not too many cameras and files.
The counter has 16 bits for a table of 65536 entries, and the trimming of a name can reach it.
-/

namespace RecordingAgent.RecordingList

open Foundation

/-- The files of each camera, and those behind the last one. -/
def storedLists (cameras : List Group) (loose : List SingleChunk) : List (List SingleChunk) :=
  cameras.map Prod.fst ++ [loose]

/-- There is room for all cameras and files, and the counters count the files. -/
structure TablesSuffice (index : ℕ) (cameras : List Group) (loose : List SingleChunk) : Prop where
  cameras_le : cameras.length ≤ maxTracks
  full : cameras.length = maxTracks → loose = []
  first : ∀ chunks ∈ (storedLists cameras loose).head?, chunks = [] ∨ index + chunks.length ≤ maxChunks
  counted : ∀ chunks ∈ storedLists cameras loose, chunks.length < maxChunks
  names : ∀ group ∈ cameras, OnlyUnderscores group.2 → group.1.length / 256 ≠ '_'.toNat

/-- The steps of the search of a drive. -/
def driveVisits (drives : DrivePathArray) (drive : ℕ) (t : Dir) : List Visit := visits drives (drives drive) [] t

/-- The files which are stored for a camera. -/
def storedFor (drives : DrivePathArray) (drive : ℕ) (t : Dir) (k : ℕ) : List SingleChunk :=
  ((storedLists (groups (driveVisits drives drive t)).1 (groups (driveVisits drives drive t)).2)[k]?).getD []

/-- The search of a drive writes within the tables only, and counts what it stores for each camera. -/
def WithinTables (drives : DrivePathArray) (drive : ℕ) (t : Dir) (index : ℕ) : Prop :=
  ∃ s, searchDrive drives drive t index = some s ∧
    ∀ k < maxTracks, (s.timeArray k).numChunks = (storedFor drives drive t k).length

variable {cameras : List Group} {loose : List SingleChunk}

/-- When there is room. -/
theorem fitsTables_iff {camera : ℕ} (index : ℕ) (hcamera : camera ≤ maxTracks) :
    FitsTables camera index cameras loose ↔ camera + cameras.length ≤ maxTracks ∧
      (camera + cameras.length = maxTracks → loose = []) ∧
      (∀ chunks ∈ (storedLists cameras loose).head?, chunks = [] ∨ index + chunks.length ≤ maxChunks) ∧
      ∀ chunks ∈ storedLists cameras loose, chunks.length ≤ maxChunks := by
  have hnil {chunks : List SingleChunk} (h : chunks = []) : chunks.length ≤ maxChunks := by
    rw [h]
    exact Nat.zero_le _
  induction cameras generalizing camera index with
  | nil =>
    simp only [FitsTables, FitsTable, storedLists, List.map_nil, List.nil_append, List.length_nil, Nat.add_zero,
      List.head?_cons, Option.mem_def, Option.some.injEq, List.mem_singleton, forall_eq, forall_eq']
    constructor
    · rintro (h | ⟨hlt, hlen⟩)
      · exact ⟨hcamera, fun _ => h, Or.inl h, hnil h⟩
      · exact ⟨hcamera, fun heq => absurd heq hlt.ne, Or.inr hlen, (Nat.le_add_left _ _).trans hlen⟩
    · rintro ⟨-, hfull, h | hlen, -⟩
      · exact Or.inl h
      · by_cases hlt : camera < maxTracks
        · exact Or.inr ⟨hlt, hlen⟩
        · exact Or.inl (hfull (le_antisymm hcamera (not_lt.mp hlt)))
  | cons group more ih =>
    simp only [FitsTables, FitsTable, storedLists, List.map_cons, List.cons_append, List.head?_cons, Option.mem_def,
      Option.some.injEq, forall_eq', List.length_cons, List.forall_mem_cons]
    constructor
    · rintro ⟨hgroup, hlt, hmore⟩
      obtain ⟨hle, hfull, -, hall⟩ := (ih 0 hlt).mp hmore
      refine ⟨by omega, fun heq => hfull (by omega), ?_, ?_, hall⟩
      · exact hgroup.imp_right And.right
      · rcases hgroup with h | ⟨-, hlen⟩
        · exact hnil h
        · exact (Nat.le_add_left _ _).trans hlen
    · rintro ⟨hle, hfull, hfirst, hgroup, hall⟩
      have hlt : camera < maxTracks := by omega
      refine ⟨hfirst.imp_right fun hlen => ⟨hlt, hlen⟩, hlt, (ih 0 hlt).mpr ⟨by omega, fun heq => hfull (by omega), ?_, hall⟩⟩
      intro chunks hchunks
      rw [Nat.zero_add]
      exact Or.inr (hall chunks (List.mem_of_head? hchunks))

/-- The counters of the tables. -/
theorem map_numChunks_tablesOf (index : ℕ) : (tablesOf index cameras loose).map CamRec.numChunks =
    cameras.map (fun group => trimmedChunks group.2 (group.1.length % 2 ^ 16)) ++ [loose.length % 2 ^ 16] := by
  induction cameras generalizing index with
  | nil => rfl
  | cons group more ih =>
    rw [tablesOf, List.map_cons, ih, List.map_cons, List.cons_append]
    rfl

/-- Trimming a name leaves the counter alone, or makes it smaller. -/
theorem trimmedChunks_eq_iff {dName : CString} {n m : ℕ} (hle : n ≤ m) : trimmedChunks dName n = m ↔
    n = m ∧ ¬(OnlyUnderscores dName ∧ m / 256 = '_'.toNat) := by
  have hunderscore : '_'.toNat = 95 := rfl
  rw [trimmedChunks, hunderscore]
  split
  next h =>
    split
    all_goals constructor
    · omega
    · rintro ⟨rfl, hnot⟩
      exact absurd h hnot
    · omega
    · rintro ⟨rfl, hnot⟩
      exact absurd h hnot
  next h =>
    constructor
    · rintro rfl
      exact ⟨rfl, h⟩
    · exact fun h => h.1

/-- The search of a drive, told by the groups of its steps. -/
theorem searchDrive_eq (drives : DrivePathArray) (drive : ℕ) (t : Dir) (index : ℕ) :
    searchDrive drives drive t index =
      runVisits (visitsOf (groups (driveVisits drives drive t)).1 (groups (driveVisits drives drive t)).2)
        (.start index) := by
  rw [searchDrive, searchDirectory_eq_runVisits, ← driveVisits, visitsOf_groups]

/-- The counters which a search leaves. -/
theorem Leaves.numChunks_eq {index : ℕ} {s : Listing} (h : Leaves (.start index) s cameras loose) (k : ℕ) :
    (s.timeArray k).numChunks = ((cameras.map (fun group => trimmedChunks group.2 (group.1.length % 2 ^ 16)) ++
      [loose.length % 2 ^ 16])[k]?).getD 0 := by
  have htable := h.tables k
  rw [Listing.start, Nat.zero_add] at htable
  rw [htable, ← map_numChunks_tablesOf index, List.getElem?_map]
  cases (tablesOf index cameras loose)[k]? <;> rfl

/-- The counter of a camera, and what is stored for it. -/
theorem getElem?_counters {k : ℕ} {group : Group} (hk : cameras[k]? = some group) :
    ((cameras.map (fun group => trimmedChunks group.2 (group.1.length % 2 ^ 16)) ++
      [loose.length % 2 ^ 16])[k]?).getD 0 = trimmedChunks group.2 (group.1.length % 2 ^ 16) ∧
    (storedLists cameras loose)[k]?.getD [] = group.1 := by
  obtain ⟨hlt, -⟩ := List.getElem?_eq_some_iff.mp hk
  rw [storedLists, List.getElem?_append_left (by simpa using hlt), List.getElem?_append_left (by simpa using hlt),
    List.getElem?_map, List.getElem?_map, hk]
  exact ⟨rfl, rfl⟩

/-- The counter behind the cameras, and what is stored there. -/
theorem getElem?_counters_length (cameras : List Group) (loose : List SingleChunk) :
    ((cameras.map (fun group => trimmedChunks group.2 (group.1.length % 2 ^ 16)) ++
      [loose.length % 2 ^ 16])[cameras.length]?).getD 0 = loose.length % 2 ^ 16 ∧
    (storedLists cameras loose)[cameras.length]?.getD [] = loose := by
  rw [storedLists, List.getElem?_append_right (by simp), List.getElem?_append_right (by simp)]
  simp

/-- The counters are right exactly when there are fewer files than a counter can count, and none is trimmed. -/
theorem counts_iff (hle : cameras.length ≤ maxTracks) (hfull : cameras.length = maxTracks → loose = []) :
    (∀ k < maxTracks, ((cameras.map (fun group => trimmedChunks group.2 (group.1.length % 2 ^ 16)) ++
      [loose.length % 2 ^ 16])[k]?).getD 0 = ((storedLists cameras loose)[k]?.getD []).length) ↔
    (∀ chunks ∈ storedLists cameras loose, chunks.length < maxChunks) ∧
      ∀ group ∈ cameras, OnlyUnderscores group.2 → group.1.length / 256 ≠ '_'.toNat := by
  have hbehind := getElem?_counters_length cameras loose
  constructor
  · intro hcounts
    have hgroup (group : Group) (hmem : group ∈ cameras) : group.1.length % 2 ^ 16 = group.1.length ∧
        ¬(OnlyUnderscores group.2 ∧ group.1.length / 256 = '_'.toNat) := by
      obtain ⟨k, hk⟩ := List.mem_iff_getElem?.mp hmem
      obtain ⟨hlt, -⟩ := List.getElem?_eq_some_iff.mp hk
      have hcount := hcounts k (hlt.trans_le hle)
      obtain ⟨hcounter, hstored⟩ := getElem?_counters hk
      rw [hcounter, hstored] at hcount
      exact (trimmedChunks_eq_iff (Nat.mod_le _ _)).mp hcount
    refine ⟨?_, fun group hmem honly htrim => (hgroup group hmem).2 ⟨honly, htrim⟩⟩
    intro chunks hmem
    rcases List.mem_append.mp hmem with hmem | hmem
    · obtain ⟨group, hin, rfl⟩ := List.mem_map.mp hmem
      have hsmall := (hgroup group hin).1
      rw [maxChunks]
      omega
    · obtain rfl := List.mem_singleton.mp hmem
      rw [maxChunks]
      by_cases hlast : cameras.length = maxTracks
      · rw [hfull hlast]
        decide
      · have hcount := hcounts cameras.length (lt_of_le_of_ne hle hlast)
        rw [hbehind.1, hbehind.2] at hcount
        omega
  · rintro ⟨hcounted, hnames⟩ k hk
    have hsmall {chunks : List SingleChunk} (hmem : chunks ∈ storedLists cameras loose) :
        chunks.length % 2 ^ 16 = chunks.length := Nat.mod_eq_of_lt (hcounted chunks hmem)
    rcases lt_trichotomy k cameras.length with hlt | rfl | hgt
    · have hgroup := List.getElem?_eq_getElem hlt
      have hin := List.getElem_mem hlt
      obtain ⟨hcounter, hstored⟩ := getElem?_counters hgroup
      rw [hcounter, hstored]
      refine (trimmedChunks_eq_iff (Nat.mod_le _ _)).mpr ⟨hsmall ?_, fun h => hnames _ hin h.1 h.2⟩
      exact List.mem_append_left _ (List.mem_map_of_mem hin)
    · rw [hbehind.1, hbehind.2]
      exact hsmall (List.mem_append_right _ List.mem_cons_self)
    · rw [storedLists, List.getElem?_eq_none (by simpa using Nat.succ_le_of_lt hgt),
        List.getElem?_eq_none (by simpa using Nat.succ_le_of_lt hgt)]
      rfl

/-- The search of a drive stays within the tables exactly if they suffice for it. -/
theorem withinTables_iff (drives : DrivePathArray) (drive : ℕ) (t : Dir) (index : ℕ) :
    WithinTables drives drive t index ↔
      TablesSuffice index (groups (driveVisits drives drive t)).1 (groups (driveVisits drives drive t)).2 := by
  unfold WithinTables storedFor
  rw [searchDrive_eq]
  generalize (groups (driveVisits drives drive t)).1 = cameras
  generalize (groups (driveVisits drives drive t)).2 = loose
  have hfresh : ∀ k, (Listing.start index).cameraIncrement ≤ k → (Listing.start index).timeArray k = .zero :=
    fun _ _ => rfl
  have hroom := @fitsTables_iff cameras loose 0 index (Nat.zero_le _)
  simp only [Nat.zero_add] at hroom
  constructor
  · rintro ⟨s, hsearch, hcounts⟩
    obtain ⟨hfit, hleaves⟩ := leaves_of_runVisits hfresh hsearch
    obtain ⟨hle, hfull, hfirst, -⟩ := hroom.mp hfit
    simp only [hleaves.numChunks_eq] at hcounts
    obtain ⟨hcounted, hnames⟩ := (counts_iff hle hfull).mp hcounts
    exact ⟨hle, hfull, hfirst, hcounted, hnames⟩
  · rintro ⟨hle, hfull, hfirst, hcounted, hnames⟩
    obtain ⟨s, hsearch, hleaves⟩ := (runVisits_visitsOf cameras loose hfresh).1
      (hroom.mpr ⟨hle, hfull, hfirst, fun chunks h => (hcounted chunks h).le⟩)
    refine ⟨s, hsearch, fun k hk => ?_⟩
    rw [hleaves.numChunks_eq]
    exact (counts_iff hle hfull).mpr ⟨hcounted, hnames⟩ k hk

/-- The drives of the recorder. -/
def recorderDrives : DrivePathArray := fun drive =>
  if drive = 0 then "/mnt/chmSSD/video/VideoFootages".toList else "/mnt/removableSSD/video/VideoFootages".toList

/-- A drive with so many empty camera directories. -/
def emptyCameras : ℕ → Dir
  | 0 => .nil
  | n + 1 => .dir ("CAM".toList ++ List.replicate n 'A') .nil (emptyCameras n)

/-- The seventeenth camera is written behind the tables. -/
theorem not_withinTables_seventeen : ¬WithinTables recorderDrives 0 (emptyCameras 17) 0 := by
  rintro ⟨s, hsearch, -⟩
  have hnone : (searchDrive recorderDrives 0 (emptyCameras 17) 0).isSome = false := by decide +kernel
  rw [hsearch] at hnone
  cases hnone

end RecordingAgent.RecordingList
