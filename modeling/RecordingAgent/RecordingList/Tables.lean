import RecordingAgent.RecordingList.CameraRecordings

/-!
# What a search leaves in the tables

A search stores the files it comes to one after the other, and goes on to the next camera when it leaves a directory
at the top. So the table of a camera holds the files which were met since the camera before it was left, from the
index on at which the search stood.
-/

namespace RecordingAgent.RecordingList

open Foundation

/-- What a search does on its way. -/
inductive Visit
  | store (chunk : SingleChunk)
  | leave (dName : CString)

/-- A step of the search. -/
def Visit.apply : Visit → Listing → Option Listing
  | store chunk, s => s.store chunk
  | leave dName, s => s.leave dName

/-- The steps one after the other. -/
def runVisits : List Visit → Listing → Option Listing
  | [], s => some s
  | visit :: rest, s => (visit.apply s).bind (runVisits rest)

theorem runVisits_append (first rest : List Visit) (s : Listing) :
    runVisits (first ++ rest) s = (runVisits first s).bind (runVisits rest) := by
  induction first generalizing s with
  | nil => rfl
  | cons visit first ih =>
    rw [List.cons_append, runVisits, runVisits, Option.bind_assoc]
    exact Option.bind_congr fun _ _ => ih _

/-- The steps of the search of a directory. -/
def visits (drives : DrivePathArray) (dirPath : CString) (above : TreePath) : Dir → List Visit
  | .nil => []
  | .broken _ _ => []
  | .special dName rest => if tooLong dirPath dName then [] else visits drives dirPath above rest
  | .file dName rest =>
    if tooLong dirPath dName then []
    else if isLeftOut dName then visits drives dirPath above rest
    else .store (chunkOf (entryPath dirPath dName) (above ++ [dName])) :: visits drives dirPath above rest
  | .dir dName entries rest =>
    if tooLong dirPath dName then []
    else if isLeftOut dName then visits drives dirPath above rest
    else visits drives (entryPath dirPath dName) (above ++ [dName]) entries ++
      ((if isTop drives dirPath then [.leave dName] else []) ++ visits drives dirPath above rest)

theorem searchDirectory_eq_runVisits (drives : DrivePathArray) (dirPath : CString) (above : TreePath) (t : Dir)
    (s : Listing) : searchDirectory drives dirPath above t s = runVisits (visits drives dirPath above t) s := by
  induction t generalizing dirPath above s with
  | nil => rfl
  | broken dName rest ih => rfl
  | special dName rest ih =>
    unfold searchDirectory visits
    split
    · rfl
    · exact ih dirPath above s
  | file dName rest ih =>
    unfold searchDirectory visits
    split
    · rfl
    · split
      · exact ih dirPath above s
      · exact Option.bind_congr fun t _ => ih dirPath above t
  | dir dName entries rest ihEntries ih =>
    unfold searchDirectory visits
    split
    · rfl
    · split
      · exact ih dirPath above s
      · rw [runVisits_append, ihEntries]
        refine Option.bind_congr fun t _ => ?_
        split
        · exact Option.bind_congr fun u _ => ih dirPath above u
        · exact ih dirPath above t

/-- The files which a camera gets, and the name under which it is left. -/
abbrev Group := List SingleChunk × CString

/-- The files of each camera which is left, and those which are stored behind the last one. -/
def groups : List Visit → List Group × List SingleChunk
  | [] => ([], [])
  | .store chunk :: rest =>
    match groups rest with
    | ([], loose) => ([], chunk :: loose)
    | (group :: more, loose) => ((chunk :: group.1, group.2) :: more, loose)
  | .leave dName :: rest => (([], dName) :: (groups rest).1, (groups rest).2)

/-- The steps which store these files and leave these cameras. -/
def visitsOf (cameras : List Group) (loose : List SingleChunk) : List Visit :=
  cameras.flatMap (fun group => group.1.map .store ++ [.leave group.2]) ++ loose.map .store

theorem visitsOf_groups (steps : List Visit) : visitsOf (groups steps).1 (groups steps).2 = steps := by
  induction steps with
  | nil => rfl
  | cons visit steps ih =>
    cases visit with
    | store chunk =>
      rw [groups]
      split
      next loose hgroups =>
        rw [hgroups] at ih
        exact congrArg (Visit.store chunk :: ·) ih
      next group more loose hgroups =>
        rw [hgroups] at ih
        exact congrArg (Visit.store chunk :: ·) ih
    | leave dName => exact congrArg (Visit.leave dName :: ·) ih

/-- A table which was filled with these files from an index on. -/
def filled (index : ℕ) (chunks : List SingleChunk) : CamRec where
  recording := fun j => if index ≤ j then (chunks[j - index]?).getD .zero else .zero
  numChunks := chunks.length % 2 ^ 16
  cameraName := []

/-- A table after its camera was left. -/
def named (dName : CString) (cam : CamRec) : CamRec :=
  { cam with numChunks := trimmedChunks dName cam.numChunks, cameraName := trimmedName dName }

theorem filled_nil (index : ℕ) : filled index [] = .zero := by
  rw [filled, CamRec.zero, CamRec.mk.injEq]
  refine ⟨funext fun j => ?_, rfl, rfl⟩
  split <;> rfl

/-- One more file is written behind the others. -/
theorem filled_concat (index : ℕ) (chunks : List SingleChunk) (chunk : SingleChunk) :
    filled index (chunks ++ [chunk]) =
      { filled index chunks with
        recording := Function.update (filled index chunks).recording (index + chunks.length) chunk
        numChunks := ((filled index chunks).numChunks + 1) % 2 ^ 16 } := by
  rw [filled, CamRec.mk.injEq]
  refine ⟨funext fun j => ?_, ?_, rfl⟩
  · rw [Function.update_apply]
    by_cases hj : j = index + chunks.length
    · have hlast : j - index = chunks.length := by omega
      rw [if_pos hj, if_pos (by omega), hlast, List.getElem?_concat_length, Option.getD_some]
    · rw [if_neg hj]
      simp only [filled]
      split
      next hle =>
        have hne : j - index ≠ chunks.length := by omega
        rw [List.getElem?_append]
        split
        next => rfl
        next hlong =>
          rw [List.getElem?_eq_none (by simpa using by omega), List.getElem?_eq_none (by omega)]
      next => rfl
  · simp only [filled, List.length_append, List.length_singleton]
    omega

/-- The files fit the table of a camera from an index on. -/
def FitsTable (camera index : ℕ) (chunks : List SingleChunk) : Prop :=
  chunks = [] ∨ camera < maxTracks ∧ index + chunks.length ≤ maxChunks

/-- Storing files behind others goes on while there is room. -/
theorem runVisits_store {s : Listing} {index : ℕ} {done : List SingleChunk} (chunks : List SingleChunk)
    (htable : s.timeArray s.cameraIncrement = filled index done) (hindex : s.currentChunkIndex = index + done.length) :
    (FitsTable s.cameraIncrement s.currentChunkIndex chunks → runVisits (chunks.map .store) s =
      some
        { s with
          timeArray := Function.update s.timeArray s.cameraIncrement (filled index (done ++ chunks))
          currentChunkIndex := s.currentChunkIndex + chunks.length }) ∧
    (¬FitsTable s.cameraIncrement s.currentChunkIndex chunks → runVisits (chunks.map .store) s = none) := by
  induction chunks generalizing s done with
  | nil =>
    refine ⟨fun _ => ?_, fun hnot => absurd (Or.inl rfl) hnot⟩
    rw [List.append_nil, ← htable, Function.update_eq_self]
    rfl
  | cons chunk chunks ih =>
    have hstep : runVisits ((chunk :: chunks).map .store) s = (s.store chunk).bind (runVisits (chunks.map .store)) := rfl
    rw [hstep, Listing.store]
    by_cases hroom : s.cameraIncrement < maxTracks ∧ s.currentChunkIndex < maxChunks
    · rw [if_pos hroom, Option.bind_some, htable, hindex, ← filled_concat, ← hindex]
      obtain ⟨hfit, hnot⟩ := @ih
        { s with
          timeArray := Function.update s.timeArray s.cameraIncrement (filled index (done ++ [chunk]))
          currentChunkIndex := s.currentChunkIndex + 1 }
        (done ++ [chunk]) (Function.update_self _ _ _)
        (by simp only [hindex, List.length_append, List.length_singleton]; omega)
      constructor
      · intro hfits
        rw [hfit]
        · simp only [Function.update_idem, List.append_assoc, List.singleton_append, List.length_cons]
          congr 2
          omega
        · rcases hfits with hnil | ⟨hcam, hlen⟩
          · cases hnil
          · rw [List.length_cons] at hlen
            exact Or.inr ⟨hcam, by simp only; omega⟩
      · intro hfits
        apply hnot
        rintro (rfl | ⟨hcam, hlen⟩)
        · exact hfits (Or.inr ⟨hroom.1, by simp only [List.length_singleton]; omega⟩)
        · simp only at hlen
          exact hfits (Or.inr ⟨hcam, by rw [List.length_cons]; omega⟩)
    · rw [if_neg hroom]
      refine ⟨fun hfits => absurd hfits ?_, fun _ => rfl⟩
      rintro (hnil | ⟨hcam, hlen⟩)
      · cases hnil
      · rw [List.length_cons] at hlen
        omega

/-- Every file and every camera finds room, for the cameras from this one on. -/
def FitsTables : ℕ → ℕ → List Group → List SingleChunk → Prop
  | camera, index, [], loose => FitsTable camera index loose
  | camera, index, group :: more, loose =>
    FitsTable camera index group.1 ∧ camera < maxTracks ∧ FitsTables (camera + 1) 0 more loose

/-- The tables which are then left. -/
def tablesOf : ℕ → List Group → List SingleChunk → List CamRec
  | index, [], loose => [filled index loose]
  | index, group :: more, loose => named group.2 (filled index group.1) :: tablesOf 0 more loose

/-- The index at which the next search starts. -/
def indexAfter (index : ℕ) (cameras : List Group) (loose : List SingleChunk) : ℕ :=
  (if cameras = [] then index else 0) + loose.length

/-- What a search leaves when it had started with these tables. -/
structure Leaves (s s' : Listing) (cameras : List Group) (loose : List SingleChunk) : Prop where
  cameraIncrement_eq : s'.cameraIncrement = s.cameraIncrement + cameras.length
  currentChunkIndex_eq : s'.currentChunkIndex = indexAfter s.currentChunkIndex cameras loose
  before : ∀ k < s.cameraIncrement, s'.timeArray k = s.timeArray k
  tables : ∀ k, s'.timeArray (s.cameraIncrement + k) = ((tablesOf s.currentChunkIndex cameras loose)[k]?).getD .zero

/-- The first camera was filled and left, and the search went on with the next one. -/
theorem Leaves.cons {s s' : Listing} {group : Group} {cameras : List Group} {loose : List SingleChunk}
    (h : Leaves
      { timeArray := Function.update s.timeArray s.cameraIncrement (named group.2 (filled s.currentChunkIndex group.1))
        cameraIncrement := s.cameraIncrement + 1
        currentChunkIndex := 0 } s' cameras loose) : Leaves s s' (group :: cameras) loose := by
  obtain ⟨hcamera, hindex, hbefore, htables⟩ := h
  refine ⟨?_, ?_, fun k hk => ?_, fun k => ?_⟩
  · rw [hcamera, List.length_cons]
    exact Nat.succ_add_eq_add_succ _ _
  · rw [hindex, indexAfter, indexAfter, if_neg (List.cons_ne_nil _ _)]
    split <;> rfl
  · rw [hbefore k (Nat.lt_succ_of_lt hk)]
    exact Function.update_of_ne hk.ne _ _
  · cases k with
    | zero =>
      rw [Nat.add_zero, hbefore s.cameraIncrement (Nat.lt_succ_self _)]
      exact Function.update_self _ _ _
    | succ k =>
      have hnext := htables k
      rw [← Nat.add_assoc, Nat.add_right_comm, hnext]
      rfl

/-- A search whose files and cameras find room fills the tables so; any other one has no result. -/
theorem runVisits_visitsOf {s : Listing} (cameras : List Group) (loose : List SingleChunk)
    (hfresh : ∀ k, s.cameraIncrement ≤ k → s.timeArray k = .zero) :
    (FitsTables s.cameraIncrement s.currentChunkIndex cameras loose →
      ∃ s', runVisits (visitsOf cameras loose) s = some s' ∧ Leaves s s' cameras loose) ∧
    (¬FitsTables s.cameraIncrement s.currentChunkIndex cameras loose →
      runVisits (visitsOf cameras loose) s = none) := by
  have hempty : s.timeArray s.cameraIncrement = filled s.currentChunkIndex [] := by
    rw [hfresh _ le_rfl, filled_nil]
  induction cameras generalizing s with
  | nil =>
    obtain ⟨hfits, hnot⟩ := runVisits_store loose hempty rfl
    refine ⟨fun h => ⟨_, hfits h, rfl, ?_, fun k hk => Function.update_of_ne hk.ne _ _, fun k => ?_⟩, hnot⟩
    · rfl
    · cases k with
      | zero => exact Function.update_self _ _ _
      | succ k =>
        refine (Function.update_of_ne (by omega) _ _).trans (hfresh _ (by omega))
  | cons group more ih =>
    have hvisits : visitsOf (group :: more) loose =
        group.1.map .store ++ (.leave group.2 :: visitsOf more loose) := by
      simp [visitsOf]
    obtain ⟨hfits, hnot⟩ := runVisits_store group.1 hempty rfl
    rw [hvisits, runVisits_append]
    by_cases hgroup : FitsTable s.cameraIncrement s.currentChunkIndex group.1
    · rw [hfits hgroup, Option.bind_some, runVisits, Visit.apply, Listing.leave]
      by_cases hcamera : s.cameraIncrement < maxTracks
      · rw [if_pos hcamera, Option.bind_some]
        simp only [Function.update_self, Function.update_idem, List.nil_append]
        have hnext : ∀ k, s.cameraIncrement + 1 ≤ k → Function.update s.timeArray s.cameraIncrement
            (named group.2 (filled s.currentChunkIndex group.1)) k = .zero := fun k hk =>
          (Function.update_of_ne (by omega) _ _).trans (hfresh k (by omega))
        obtain ⟨hrest, hnone⟩ := @ih
          { timeArray := Function.update s.timeArray s.cameraIncrement (named group.2 (filled s.currentChunkIndex group.1))
            cameraIncrement := s.cameraIncrement + 1
            currentChunkIndex := 0 } hnext ((hnext _ le_rfl).trans (filled_nil _).symm)
        constructor
        · rintro ⟨-, -, hmore⟩
          obtain ⟨s', hrun, hleaves⟩ := hrest hmore
          exact ⟨s', hrun, hleaves.cons⟩
        · intro hall
          exact hnone fun hmore => hall ⟨hgroup, hcamera, hmore⟩
      · rw [if_neg hcamera]
        exact ⟨fun h => absurd h.2.1 hcamera, fun _ => rfl⟩
    · rw [hnot hgroup]
      exact ⟨fun h => absurd h.1 hgroup, fun _ => rfl⟩

/-- What a search has found room for, if it has a result. -/
theorem leaves_of_runVisits {s s' : Listing} {cameras : List Group} {loose : List SingleChunk}
    (hfresh : ∀ k, s.cameraIncrement ≤ k → s.timeArray k = .zero)
    (h : runVisits (visitsOf cameras loose) s = some s') :
    FitsTables s.cameraIncrement s.currentChunkIndex cameras loose ∧ Leaves s s' cameras loose := by
  obtain ⟨hfits, hnot⟩ := runVisits_visitsOf cameras loose hfresh
  by_cases hroom : FitsTables s.cameraIncrement s.currentChunkIndex cameras loose
  · obtain ⟨t, hrun, hleaves⟩ := hfits hroom
    obtain rfl := Option.some.inj (h.symm.trans hrun)
    exact ⟨hroom, hleaves⟩
  · rw [hnot hroom] at h
    cases h

end RecordingAgent.RecordingList
