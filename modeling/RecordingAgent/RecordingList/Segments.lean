import RecordingAgent.Foundation.MaximalRuns
import RecordingAgent.Foundation.Qsort
import RecordingAgent.RecordingList.CameraRecordings

/-!
# The intervals of a camera

The intervals which are printed for a camera are the runs of its chunks in which each chunk starts within a second
of the end of the one before it.
-/

namespace RecordingAgent.RecordingList

open Foundation

/-- A chunk starts within a second of the end of the one before it. -/
def Continues (previous current : SingleChunk) : Prop := |current.startTime - endOf previous| ≤ 1

instance : DecidableRel Continues := fun _ _ => inferInstanceAs (Decidable (_ ≤ _))

/-- A chunk from 1970 on, more than 2000 seconds before the times of an `int` end, and shorter than 1000 seconds. -/
structure SingleChunk.Ordinary (chunk : SingleChunk) : Prop where
  start_nonneg : 0 ≤ chunk.startTime
  start_lt : chunk.startTime < 2 ^ 31 - 2000
  duration_lt : chunk.duration < 10 ^ 9

instance (chunk : SingleChunk) : Decidable chunk.Ordinary :=
  decidable_of_iff (0 ≤ chunk.startTime ∧ chunk.startTime < 2 ^ 31 - 2000 ∧ chunk.duration < 10 ^ 9)
    ⟨fun h => ⟨h.1, h.2.1, h.2.2⟩, fun h => ⟨h.start_nonneg, h.start_lt, h.duration_lt⟩⟩

/-- What is printed for an interval: the start of its first chunk and the end of its last one. -/
def segmentLines (run : List SingleChunk) : List CString :=
  bracket (fun chunk => [openSegment, startTimeLine chunk.startTime])
    (fun chunk => [endTimeLine (endOf chunk), closeSegment]) run

/-- These lines tell the maximal runs of the chunks of a camera in the order of their times, and nothing if there
are none. -/
def PrintsRuns (driveName : CString) (cam : CamRec) (lines : List CString) : Prop :=
  if cam.numChunks = 0 then lines = []
  else ∃ sorted runs, sorted.Perm cam.chunks ∧ (sorted.Pairwise fun a b => a.startTime ≤ b.startTime) ∧
    MaximalRuns Continues sorted runs ∧
      lines = cameraHeader driveName cam.cameraName ++ runs.flatMap segmentLines ++ [closeSegments]

section

variable {a b : SingleChunk}

theorem SingleChunk.Ordinary.endOf_eq (h : a.Ordinary) : 0 ≤ endOf a ∧ endOf a < 2 ^ 31 - 1000 := by
  obtain ⟨hnonneg, hlt, hduration⟩ := h
  rw [endOf, microSecsPerSecond]
  omega

/-- Nothing is lost in the conversions of the difference. -/
theorem secondsApart_eq (ha : a.Ordinary) (hb : b.Ordinary) : secondsApart a b = b.startTime - endOf a := by
  have hend := ha.endOf_eq
  have hnonneg := hb.start_nonneg
  have hlt := hb.start_lt
  have hdiff : secondsApart a b = (b.startTime - endOf a).bmod (2 ^ 32) := by rw [secondsApart, endOf]
  rw [hdiff]
  exact Int.bmod_eq_of_le (by norm_num; omega) (by norm_num; omega)

theorem lastEndOf_eq (ha : a.Ordinary) : lastEndOf a = endOf a := by
  have hlt := ha.duration_lt
  have hcast : ((a.duration : ℤ).bmod (2 ^ 64)) = a.duration := by
    apply Int.bmod_eq_of_le <;> omega
  rw [lastEndOf, hcast, endOf, Int.tdiv_eq_ediv_of_nonneg (by omega), Int.natCast_ediv]

/-- The test for a gap fails exactly for chunks which go on. -/
theorem gapLines_eq (ha : a.Ordinary) (hb : b.Ordinary) : gapLines a b =
    if Continues a b then [] else [endTimeLine (endOf a), closeSegment] ++ [openSegment, startTimeLine b.startTime] := by
  rw [gapLines, secondsApart_eq ha hb]
  by_cases hcontinues : Continues a b
  · have hnear := hcontinues
    rw [Continues, Int.abs_eq_natAbs] at hnear
    rw [if_pos hcontinues, if_neg (by omega)]
  · have hfar := hcontinues
    rw [Continues, Int.abs_eq_natAbs] at hfar
    rw [if_neg hcontinues, if_pos (by omega)]
    rfl

/-- The comparison is that of the start times. -/
theorem compareChunks_eq (ha : a.Ordinary) (hb : b.Ordinary) : compareChunks a b = a.startTime - b.startTime := by
  obtain ⟨hnonneg, hlt, -⟩ := ha
  obtain ⟨hnonneg', hlt', -⟩ := hb
  apply Int.bmod_eq_of_le <;> omega

theorem ordersMembers_compareChunks {l : List SingleChunk} (h : ∀ chunk ∈ l, chunk.Ordinary) :
    OrdersMembers compareChunks l := by
  have hcompares : ComparesBy compareChunks SingleChunk.startTime { chunk | chunk ∈ l } :=
    comparesBy_of_sign fun a ha b hb => by rw [compareChunks_eq (h a ha) (h b hb)]
  exact hcompares.ordersMembers

end

/-- The loop prints along the entries. -/
theorem printChunks_eq (recording : ℕ → SingleChunk) (rounds : ℕ) {j : ℕ} (hj : 0 < j) :
    printChunks recording rounds j =
      (alongList gapLines (recording (j - 1)) ((List.range' j rounds).map recording), j + rounds) := by
  induction rounds generalizing j with
  | zero => rfl
  | succ rounds ih =>
    rw [printChunks, ih (Nat.succ_pos j), List.range'_succ, List.map_cons, alongList]
    simp only [Nat.succ_eq_add_one, Nat.add_sub_cancel, Prod.mk.injEq, true_and]
    omega

variable {qsort : (SingleChunk → SingleChunk → ℤ) → List SingleChunk → List SingleChunk} {cam : CamRec}

/-- What is printed between the chunks is told of the neighbours which do not go on. -/
def boundaryLines (a b : SingleChunk) : List CString :=
  if Continues a b then [] else [endTimeLine (endOf a), closeSegment] ++ [openSegment, startTimeLine b.startTime]

/-- The intervals of a list of chunks, from the first one to the end of the last one. -/
theorem segments_eq {recording : ℕ → SingleChunk} {n : ℕ} {runs : List (List SingleChunk)}
    (hordinary : ∀ chunk ∈ recording 0 :: (List.range' 1 n).map recording, chunk.Ordinary)
    (hruns : MaximalRuns Continues (recording 0 :: (List.range' 1 n).map recording) runs) :
    [openSegment, startTimeLine (recording 0).startTime] ++ ((printChunks recording n 1).1 ++
      [endTimeLine (lastEndOf (recording ((printChunks recording n 1).2 - 1))), closeSegment]) =
        runs.flatMap segmentLines := by
  have hlast : recording n = ((List.range' 1 n).map recording).getLast?.getD (recording 0) := by
    cases n with
    | zero => rfl
    | succ n =>
      rw [List.range'_concat, List.map_append, List.map_singleton, List.getLast?_concat, Option.getD_some]
      congr 1
      omega
  have hordinary' : (recording n).Ordinary := by
    apply hordinary
    rw [hlast]
    cases hend : ((List.range' 1 n).map recording).getLast? with
    | none => exact List.mem_cons_self
    | some chunk => exact List.mem_cons_of_mem _ (List.mem_of_getLast? hend)
  have hgaps : alongList gapLines (recording 0) ((List.range' 1 n).map recording) =
      alongList boundaryLines (recording 0) ((List.range' 1 n).map recording) :=
    alongList_congr fun a ha b hb => gapLines_eq (hordinary a ha) (hordinary b hb)
  have htold := hruns.flatMap_bracket (f := boundaryLines) (fun _ _ h => if_pos h) (fun _ _ h => if_neg h)
  rw [printChunks_eq recording n Nat.one_pos, Nat.add_sub_cancel_left, lastEndOf_eq hordinary', Nat.sub_self, hgaps, hlast]
  exact htold

/-- The entries after sorting are those of the sorted list. -/
theorem map_sortedRecording (hlength : (qsort compareChunks cam.chunks).length = cam.numChunks) :
    (List.range cam.numChunks).map (sortedRecording qsort cam) = qsort compareChunks cam.chunks := by
  apply List.ext_getElem
  · rw [List.length_map, List.length_range, hlength]
  · intro j hj hj'
    rw [List.getElem_map, List.getElem_range, sortedRecording, List.getElem?_eq_getElem hj', Option.getD_some]

/-- What is printed for a camera tells the runs of its chunks, and leaves `j` at zero for the next one. -/
theorem printCamera_spec (hqsort : SortsMembers qsort) (driveName : CString)
    (hcam : ∀ chunk ∈ cam.chunks, chunk.Ordinary) :
    PrintsRuns driveName cam (printCamera qsort driveName cam 0).1 ∧ (printCamera qsort driveName cam 0).2 = 0 := by
  unfold PrintsRuns printCamera
  by_cases hnone : cam.numChunks = 0
  · rw [if_pos hnone, if_pos hnone]
    exact ⟨rfl, rfl⟩
  · obtain ⟨hperm, hsorted⟩ := hqsort compareChunks cam.chunks (ordersMembers_compareChunks hcam)
    have hlength : (qsort compareChunks cam.chunks).length = cam.numChunks := by
      rw [hperm.length_eq, CamRec.chunks, List.length_map, List.length_range]
    have hentries := map_sortedRecording hlength
    have hmem {chunk : SingleChunk} (h : chunk ∈ qsort compareChunks cam.chunks) : chunk.Ordinary :=
      hcam chunk (hperm.subset h)
    obtain ⟨runs, hruns⟩ := exists_maximalRuns Continues (qsort compareChunks cam.chunks)
    rw [if_neg hnone, if_neg hnone]
    refine ⟨⟨_, runs, hperm, ?_, hruns, ?_⟩, rfl⟩
    · refine hsorted.imp_of_mem fun ha hb hab => ?_
      rw [compareChunks_eq (hmem ha) (hmem hb)] at hab
      omega
    · obtain ⟨n, hn⟩ := Nat.exists_eq_succ_of_ne_zero hnone
      rw [hn, List.range_eq_range', List.range'_succ, List.map_cons, Nat.zero_add] at hentries
      rw [← hentries] at hruns hmem
      have hsegments := segments_eq (fun _ h => hmem h) hruns
      rw [← hsegments, hn, Nat.succ_sub_one]
      simp only [List.append_assoc, List.cons_append, List.nil_append]

/-- For tables whose chunks start from 1970 on and before 2038, and are shorter than 1000 seconds, what is printed
tells for each camera the maximal runs of its chunks. -/
theorem printCameras_runs (hqsort : SortsMembers qsort) (driveName : CString) (cams : List CamRec)
    (hcams : ∀ cam ∈ cams, ∀ chunk ∈ cam.chunks, chunk.Ordinary) :
    ∃ lines : List (List CString), List.Forall₂ (PrintsRuns driveName) cams lines ∧
      printCameras qsort driveName cams 0 = lines.flatten := by
  induction cams with
  | nil => exact ⟨[], .nil, rfl⟩
  | cons cam rest ih =>
    rw [List.forall_mem_cons] at hcams
    obtain ⟨hprinted, hzero⟩ := printCamera_spec hqsort driveName hcams.1
    obtain ⟨lines, hrest, hlines⟩ := ih hcams.2
    refine ⟨(printCamera qsort driveName cam 0).1 :: lines, .cons hprinted hrest, ?_⟩
    rw [printCameras, hzero, hlines, List.flatten_cons]

/-- A camera with three chunks of about a minute which were found out of order, two of which go on and one starts an
hour later, and a camera without chunks. -/
def twoCameras : List CamRec :=
  [{ recording := fun j => ⟨if j = 0 then 1600000060 else if j = 1 then 1600000000 else 1600003600, 59000000, []⟩
     numChunks := 3
     cameraName := "CAM1".toList }, .zero]

/-- Two intervals are printed for the first one. -/
theorem printCameras_runs_twoCameras : ∃ lines : List (List CString),
    List.Forall₂ (PrintsRuns (driveName 0)) twoCameras lines ∧
      printCameras mergeQsort (driveName 0) twoCameras 0 = lines.flatten :=
  printCameras_runs sortsMembers_mergeQsort (driveName 0) twoCameras (by decide)

end RecordingAgent.RecordingList
