import RecordingAgent.RtspPlay.Source

/-!
# The chunk of a position

A seek asks the reader for the chunk of a position. The reader tests whether the position is between those of
the active chunk and the next one, and looks for the first chunk for which that is so. No test covers the
last chunk, and the position of the chunk which is found is returned as an `int`.
-/

namespace RecordingAgent.RtspPlay

variable {P : Type}

/-- The position of each chunk adds up the durations of the chunks before it. -/
def Cumulative (chunks : List (ChunkT P)) : Prop :=
  ∀ i chunk, chunks[i]? = some chunk → chunk.position = ((chunks.take i).map ChunkT.duration).sum

/-- The next chunk starts where a chunk ends. -/
theorem Cumulative.next {chunks : List (ChunkT P)} (h : Cumulative chunks) {i : ℕ} {chunk next : ChunkT P}
    (hchunk : chunks[i]? = some chunk) (hnext : chunks[i + 1]? = some next) :
    next.position = chunk.position + chunk.duration := by
  rw [h i chunk hchunk, h (i + 1) next hnext, List.take_add_one, hchunk]
  simp

/-- The duration of the recording. -/
def VideoChunkT.totalDuration (data : VideoChunkT P) : ℤ := (data.chunckList.map ChunkT.duration).sum

namespace RTPdumpFileReader

variable {disk : P → Option (List UInt8)} {r : RTPdumpFileReader P} {pos : ℤ} {i : ℕ}

/-- What it is to be in a chunk. -/
theorem inChunk_iff : r.inChunk pos i = true ↔ ∃ chunk next, r.mVideoData.chunckList[i]? = some chunk ∧
    r.mVideoData.chunckList[i + 1]? = some next ∧ chunk.position ≤ pos ∧ pos ≤ next.position := by
  unfold inChunk
  split
  next chunk next hchunk hnext => simp [hchunk, hnext]
  next hnone =>
    simp only [Bool.false_eq_true, false_iff, not_exists, not_and]
    intro chunk next hchunk hnext
    exact absurd hnext (hnone chunk next hchunk)

/-- The position is between that of a chunk and its end. -/
theorem bounds_of_inChunk (hdata : Cumulative r.mVideoData.chunckList) (h : r.inChunk pos i = true) :
    ∃ chunk, r.mVideoData.chunckList[i]? = some chunk ∧ chunk.position ≤ pos ∧
      pos ≤ chunk.position + chunk.duration := by
  obtain ⟨chunk, next, hchunk, hnext, hle, hge⟩ := inChunk_iff.mp h
  exact ⟨chunk, hchunk, hle, hdata.next hchunk hnext ▸ hge⟩

theorem inChunk_of_findChunk (h : r.findChunk pos = some i) : r.inChunk pos i = true :=
  List.find?_some h

/-- A chunk is found if the position is in one. -/
theorem findChunk_eq_none_iff : r.findChunk pos = none ↔ ∀ i, r.inChunk pos i = false := by
  rw [findChunk, List.find?_eq_none]
  constructor
  · intro h i
    by_contra hin
    rw [Bool.not_eq_false] at hin
    obtain ⟨_, _, -, hnext, -⟩ := inChunk_iff.mp hin
    obtain ⟨hlt, -⟩ := List.getElem?_eq_some_iff.mp hnext
    exact h i (List.mem_range.mpr (by rw [VideoChunkT.totalChunk]; omega)) hin
  · intro h i _
    simp [h i]

/-- With durations which are not negative, these positions reach only to the begin of the last chunk. -/
theorem exists_inChunk_iff {last : ChunkT P} (hdata : Cumulative r.mVideoData.chunckList)
    (hnonneg : ∀ chunk ∈ r.mVideoData.chunckList, 0 ≤ chunk.duration)
    (hlast : r.mVideoData.chunckList.getLast? = some last) :
    (∃ i, r.inChunk pos i = true) ↔ 2 ≤ r.mVideoData.totalChunk ∧ 0 ≤ pos ∧ pos ≤ last.position := by
  have hmono {j k : ℕ} {a b : ChunkT P} (hjk : j ≤ k) (ha : r.mVideoData.chunckList[j]? = some a)
      (hb : r.mVideoData.chunckList[k]? = some b) : a.position ≤ b.position := by
    induction k, hjk using Nat.le_induction generalizing b with
    | base => exact (Option.some.inj (ha.symm.trans hb) ▸ le_rfl)
    | succ k hjk ih =>
      obtain ⟨hlt, -⟩ := List.getElem?_eq_some_iff.mp hb
      have hk : r.mVideoData.chunckList[k]? = some r.mVideoData.chunckList[k] := List.getElem?_eq_getElem (by omega)
      have hduration := hnonneg _ (List.mem_of_getElem? hk)
      have hstep := hdata.next hk hb
      have hbefore := ih hk
      omega
  rw [List.getLast?_eq_getElem?] at hlast
  constructor
  · rintro ⟨i, hin⟩
    obtain ⟨chunk, next, hchunk, hnext, hle, hge⟩ := inChunk_iff.mp hin
    obtain ⟨hlt, -⟩ := List.getElem?_eq_some_iff.mp hnext
    have hfirst : r.mVideoData.chunckList[0]? = some r.mVideoData.chunckList[0] := List.getElem?_eq_getElem (by omega)
    have hzero : r.mVideoData.chunckList[0].position = 0 := hdata 0 _ hfirst
    refine ⟨by rw [VideoChunkT.totalChunk]; omega, ?_, ?_⟩
    · exact (hzero ▸ hmono (Nat.zero_le i) hfirst hchunk).trans hle
    · exact hge.trans (hmono (by omega) hnext hlast)
  · rintro ⟨htwo, hpos, hle⟩
    -- the first chunk whose successor does not start before the position
    have hsearch (k : ℕ) (b : ChunkT P) (hk : 0 < k) (hb : r.mVideoData.chunckList[k]? = some b)
        (hbefore : pos ≤ b.position) : ∃ i, r.inChunk pos i = true := by
      induction k, hk using Nat.le_induction generalizing b with
      | base =>
        obtain ⟨hlt, -⟩ := List.getElem?_eq_some_iff.mp hb
        have hfirst : r.mVideoData.chunckList[0]? = some r.mVideoData.chunckList[0] :=
          List.getElem?_eq_getElem (by omega)
        have hzero : r.mVideoData.chunckList[0].position = 0 := hdata 0 _ hfirst
        exact ⟨0, inChunk_iff.mpr ⟨_, b, hfirst, hb, hzero ▸ hpos, hbefore⟩⟩
      | succ k hk ih =>
        obtain ⟨hlt, -⟩ := List.getElem?_eq_some_iff.mp hb
        have hprevious : r.mVideoData.chunckList[k]? = some r.mVideoData.chunckList[k] :=
          List.getElem?_eq_getElem (by omega)
        rcases le_total pos r.mVideoData.chunckList[k].position with hearlier | hlater
        · exact ih _ hprevious hearlier
        · exact ⟨k, inChunk_iff.mpr ⟨_, b, hprevious, hb, hlater, hbefore⟩⟩
    exact hsearch _ last (by rw [VideoChunkT.totalChunk] at htwo; omega) hlast hle

/-- Where the chunk starts that is found, as the reader returns it. -/
def foundStart (r : RTPdumpFileReader P) (i : ℕ) : ℤ :=
  toInt ((r.mVideoData.chunckList[i]?.map ChunkT.position).getD 0)

/-- What the reader returns, and the chunk which is active then, if the files can be read. -/
theorem setSeekPosition_cases (hdisk : ∀ chunk ∈ r.mVideoData.chunckList, disk chunk.path ≠ none) :
    (r.inChunk pos r.mIndex = true ∧ r.setSeekPosition disk pos = (0, r)) ∨
      (r.inChunk pos r.mIndex = false ∧ r.findChunk pos = none ∧ r.setSeekPosition disk pos = (-1, r)) ∨
      ∃ i, r.inChunk pos r.mIndex = false ∧ r.findChunk pos = some i ∧
        (r.setSeekPosition disk pos).1 = r.foundStart i ∧ (r.setSeekPosition disk pos).2.mIndex = i := by
  cases hhere : r.inChunk pos r.mIndex with
  | true => exact Or.inl ⟨rfl, by rw [setSeekPosition, if_pos hhere]⟩
  | false =>
    have hother : ¬r.inChunk pos r.mIndex = true := Bool.eq_false_iff.mp hhere
    cases hfind : r.findChunk pos with
    | none => exact Or.inr (Or.inl ⟨rfl, rfl, by rw [setSeekPosition, if_neg hother, hfind]⟩)
    | some i =>
      obtain ⟨chunk, _, hchunk, -⟩ := inChunk_iff.mp (inChunk_of_findChunk hfind)
      obtain ⟨bytes, hbytes⟩ := Option.ne_none_iff_exists'.mp (hdisk chunk (List.mem_of_getElem? hchunk))
      have hopen : (openChunk disk { r with mIndex := i }).1 = true := by
        simp [openChunk, hchunk, hbytes]
      refine Or.inr (Or.inr ⟨i, rfl, rfl, ?_, ?_⟩)
      · simp only [setSeekPosition, if_neg hother, hfind, if_pos hopen]
        rfl
      · simp only [setSeekPosition, if_neg hother, hfind, if_pos hopen, readHeader_mIndex, openChunk_mIndex]

/-- A position of the recording selects a chunk which contains it, and every other position none. -/
def SelectsChunk (disk : P → Option (List UInt8)) (r : RTPdumpFileReader P) (pos : ℤ) : Prop :=
  if 0 ≤ pos ∧ pos < r.mVideoData.totalDuration then
    (r.setSeekPosition disk pos).1 ≠ -1 ∧
      ∃ chunk, r.mVideoData.chunckList[(r.setSeekPosition disk pos).2.mIndex]? = some chunk ∧
        chunk.position ≤ pos ∧ pos ≤ chunk.position + chunk.duration
  else
    (r.setSeekPosition disk pos).1 = -1 ∧ (r.setSeekPosition disk pos).2.mIndex = r.mIndex ∧
      (r.setSeekPosition disk pos).2.mActiveFile = r.mActiveFile

/-- The chunk of a position is selected exactly when the positions of the recording are those between a chunk
and the next one, and the chunk to which the reader moves does not start at minus one as an `int`. -/
theorem selectsChunk_iff (disk : P → Option (List UInt8)) (r : RTPdumpFileReader P)
    (hdata : Cumulative r.mVideoData.chunckList) (hdisk : ∀ chunk ∈ r.mVideoData.chunckList, disk chunk.path ≠ none)
    (pos : ℤ) :
    r.SelectsChunk disk pos ↔
      (0 ≤ pos ∧ pos < r.mVideoData.totalDuration ↔ ∃ i, r.inChunk pos i = true) ∧
        ∀ i, r.inChunk pos r.mIndex = false → r.findChunk pos = some i → r.foundStart i ≠ -1 := by
  rw [SelectsChunk]
  rcases setSeekPosition_cases hdisk with ⟨hhere, hsought⟩ | ⟨hother, hnone, hsought⟩ |
    ⟨i, hother, hfind, hcode, hindex⟩
  · -- the position is in the active chunk
    have hin : ∃ i, r.inChunk pos i = true := ⟨_, hhere⟩
    obtain hchunk := bounds_of_inChunk hdata hhere
    simp only [hsought, hhere, hin, iff_true, Bool.true_eq_false, false_imp_iff, implies_true, and_true]
    split
    next hrange => simpa [hrange] using hchunk
    next hrange => simp [hrange]
  · -- it is in none
    have hout : ¬∃ i, r.inChunk pos i = true := by
      simpa using findChunk_eq_none_iff.mp hnone
    simp only [hsought, hnone, hout, iff_false, reduceCtorEq, false_imp_iff, implies_true, and_true]
    split
    next hrange => simp [hrange]
    next hrange => simp [hrange]
  · -- it is in another one
    have hin : ∃ i, r.inChunk pos i = true := ⟨i, inChunk_of_findChunk hfind⟩
    have hmoved : i ≠ r.mIndex := by
      rintro rfl
      exact Bool.false_ne_true (hother.symm.trans (inChunk_of_findChunk hfind))
    have hchunk := bounds_of_inChunk hdata (inChunk_of_findChunk hfind)
    have hstart : (∀ j, r.inChunk pos r.mIndex = false → r.findChunk pos = some j → r.foundStart j ≠ -1) ↔
        r.foundStart i ≠ -1 := by
      simp [hother, hfind]
    rw [hstart]
    simp only [hcode, hindex, hin, iff_true]
    split
    next hrange => simp [hrange, hchunk]
    next hrange => simp [hrange, hmoved]

/-- A reader of chunks of these durations, at the first of them. -/
def readerOf (durations : List ℤ) (h : durations.length ≤ maxFileCount) : RTPdumpFileReader Unit where
  mActiveFile := some (Foundation.ReadStream.fopen [])
  mVideoData :=
    { chunckList := (List.range durations.length).map fun i =>
        { path := (), duration := durations.getD i 0, position := (durations.take i).sum }
      total_le := by simpa using h }
  mIndex := 0
  audioPresent := false
  videoPresent := false

theorem readerOf_cumulative (durations : List ℤ) (h : durations.length ≤ maxFileCount) :
    Cumulative (readerOf durations h).mVideoData.chunckList := by
  intro i chunk hchunk
  simp only [readerOf, List.getElem?_map, Option.map_eq_some_iff] at hchunk
  obtain ⟨j, hj, rfl⟩ := hchunk
  obtain ⟨hlt, heq⟩ := List.getElem?_eq_some_iff.mp hj
  rw [List.length_range] at hlt
  rw [List.getElem_range] at heq
  subst heq
  have hdurations : ((readerOf durations h).mVideoData.chunckList.take i).map ChunkT.duration = durations.take i := by
    refine List.ext_getElem (by simp [readerOf]) fun k hk _ => ?_
    simp only [List.length_map, List.length_take, readerOf, List.length_range] at hk
    have hin : k < durations.length := by omega
    simp [readerOf, hin]
  exact congrArg List.sum hdurations.symm

/-- In the first of two chunks of a second, half a second selects it. -/
theorem selectsChunk_iff_two : SelectsChunk (fun _ => some []) (readerOf [1000, 1000] (by decide)) 500 := by
  refine (selectsChunk_iff _ _ (readerOf_cumulative _ _) (fun _ _ => Option.some_ne_none _) 500).mpr ⟨?_, ?_⟩
  · exact iff_of_true (by decide) ⟨0, by decide⟩
  · intro i hother
    exact absurd hother (by decide)

/-- In a single chunk of a second it selects none. -/
theorem not_selectsChunk_single :
    Cumulative (readerOf [1000] (by decide)).mVideoData.chunckList ∧
      ¬SelectsChunk (fun _ => some []) (readerOf [1000] (by decide)) 500 := by
  refine ⟨readerOf_cumulative _ _, fun hselects => ?_⟩
  rw [SelectsChunk, if_pos (by decide)] at hselects
  exact hselects.1 (by decide)

end RTPdumpFileReader

end RecordingAgent.RtspPlay
