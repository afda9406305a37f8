import RecordingAgent.Foundation.ExchangeSort
import RecordingAgent.RtspPlay.ReadDir
import RecordingAgent.RtspPlay.SeekPosition

/-!
# The order of the chunks

The reader orders the chunks of a session by the times in their names. The times and the chunks are in two
arrays, which are exchanged together; a time which moves on goes through an `int`, and comes out changed from
the year 2038 on.
-/

namespace RecordingAgent.RtspPlay

open Foundation
open RecordingAgent.Metarec (baseName)
open RecordingAgent.Metarec.RtpdumpFileReader (toEoch)

/-- `epoch_time` and `chunck_list`. -/
structure SortArrays where
  epochTime : List ℤ
  chunckList : List (ChunkT CString)

/-- The round of the inner loop at an index. -/
def SortArrays.exchange (a : SortArrays) (j : ℕ) : SortArrays :=
  match a.epochTime[j]?, a.epochTime[j + 1]?, a.chunckList[j]?, a.chunckList[j + 1]? with
  | some time, some time', some chunk, some chunk' =>
    if time' < time then
      { epochTime := (a.epochTime.set j time').set (j + 1) (toInt time)
        chunckList := (a.chunckList.set j chunk').set (j + 1) chunk }
    else a
  | _, _, _, _ => a

/-- The inner loop. -/
def SortArrays.round (a : SortArrays) : SortArrays :=
  (List.range (a.chunckList.length - 1)).foldl SortArrays.exchange a

/-- The two loops. -/
def SortArrays.sort (a : SortArrays) : SortArrays :=
  (List.range a.chunckList.length).foldl (fun a _ => a.round) a

/-- The position of each chunk, counted from this one on. -/
def positionsFrom (pos : ℤ) : List (ChunkT CString) → List (ChunkT CString)
  | [] => []
  | chunk :: rest => { chunk with position := pos } :: positionsFrom (pos + chunk.duration) rest

/-- The times in the names of the chunks. A path without a slash is searched from a null pointer. -/
def epochTimes (chunks : List (ChunkT CString)) : Option (List ℤ) :=
  chunks.mapM fun chunk => (baseName chunk.path).map toEoch

/-- The arrays after the two loops. -/
def sortedArrays (data : VideoChunkT CString) : Option SortArrays :=
  (epochTimes data.chunckList).map fun epochTime => SortArrays.sort ⟨epochTime, data.chunckList⟩

/-- `sortChunks` -/
def sortChunks (data : VideoChunkT CString) : Option (List (ChunkT CString)) :=
  (sortedArrays data).map fun a => positionsFrom 0 a.chunckList

/-- The time in the name of a chunk. -/
def chunkTime (chunk : ChunkT CString) : ℤ := ((baseName chunk.path).map toEoch).getD 0

/-- The chunks, permuted, in the order of their times, with positions which add up the durations. -/
structure OrderedByTime (chunks sorted : List (ChunkT CString)) : Prop where
  perm : (sorted.map fun chunk => (chunk.path, chunk.duration)).Perm
    (chunks.map fun chunk => (chunk.path, chunk.duration))
  ordered : sorted.Pairwise fun a b => chunkTime a ≤ chunkTime b
  cumulative : Cumulative sorted

/-- Sorting the chunks does that. -/
def SortsByTime (data : VideoChunkT CString) : Prop :=
  ∃ sorted, sortChunks data = some sorted ∧ OrderedByTime data.chunckList sorted

/-- After the two loops the times are still those in the names. -/
def KeepsTimes (data : VideoChunkT CString) : Prop :=
  ∃ a, sortedArrays data = some a ∧ a.epochTime = a.chunckList.map chunkTime

/-- The arrays which hold these entries. -/
def SortArrays.ofEntries (entries : List (ℤ × ChunkT CString)) : SortArrays :=
  ⟨entries.map Prod.fst, entries.map Prod.snd⟩

/-- An exchange at the place which a pass has come to. -/
theorem exchange_ofEntries (front : List (ℤ × ChunkT CString)) (x y : ℤ × ChunkT CString)
    (rest : List (ℤ × ChunkT CString)) :
    (SortArrays.ofEntries (front ++ x :: y :: rest)).exchange front.length =
      SortArrays.ofEntries
        (front ++ if y.1 < x.1 then y :: (toInt x.1, x.2) :: rest else x :: y :: rest) := by
  have hmap {B : Type} (f : ℤ × ChunkT CString → B) :
      ((front ++ x :: y :: rest).map f)[front.length]? = some (f x) ∧
        ((front ++ x :: y :: rest).map f)[front.length + 1]? = some (f y) := by
    simp
  have hset {B : Type} (f : ℤ × ChunkT CString → B) (u v : B) :
      (((front ++ x :: y :: rest).map f).set front.length u).set (front.length + 1) v =
        front.map f ++ u :: v :: rest.map f := by
    simp [List.set_append_right]
  obtain ⟨htime, htime'⟩ := hmap Prod.fst
  obtain ⟨hchunk, hchunk'⟩ := hmap Prod.snd
  simp only [SortArrays.exchange, SortArrays.ofEntries, htime, htime', hchunk, hchunk']
  split
  · rw [hset, hset, List.map_append, List.map_append]
    rfl
  · rfl

/-- The inner loop is a pass over the entries. -/
theorem foldl_exchange (front : List (ℤ × ChunkT CString)) (x : ℤ × ChunkT CString)
    (rest : List (ℤ × ChunkT CString)) :
    (List.range' front.length rest.length).foldl SortArrays.exchange (SortArrays.ofEntries (front ++ x :: rest)) =
      SortArrays.ofEntries (front ++ passFrom toInt x rest) := by
  induction rest generalizing front x with
  | nil => rfl
  | cons y rest ih =>
    rw [List.length_cons, List.range'_succ, List.foldl_cons, exchange_ofEntries, passFrom]
    split
    · have hnext := ih (front ++ [y]) (toInt x.1, x.2)
      simpa using hnext
    · have hnext := ih (front ++ [x]) y
      simpa using hnext

theorem round_ofEntries (entries : List (ℤ × ChunkT CString)) :
    (SortArrays.ofEntries entries).round = SortArrays.ofEntries (sortPass toInt entries) := by
  cases entries with
  | nil => rfl
  | cons x rest =>
    have hround := foldl_exchange [] x rest
    simpa [SortArrays.round, SortArrays.ofEntries, List.range_eq_range', sortPass] using hround

/-- The two loops sort the entries. -/
theorem sort_ofEntries (entries : List (ℤ × ChunkT CString)) :
    (SortArrays.ofEntries entries).sort = SortArrays.ofEntries (exchangeSort toInt entries) := by
  have hrounds (k : ℕ) : SortArrays.round^[k] (SortArrays.ofEntries entries) =
      SortArrays.ofEntries ((sortPass toInt)^[k] entries) := by
    induction k with
    | zero => rfl
    | succ k ih => rw [Function.iterate_succ_apply', ih, round_ofEntries, Function.iterate_succ_apply']
  have hlength : (SortArrays.ofEntries entries).chunckList.length = entries.length := List.length_map _
  rw [SortArrays.sort, List.foldl_const, List.length_range, hlength, hrounds, exchangeSort]

/-- A time that went through an `int` is not changed again. -/
theorem toInt_toInt (x : ℤ) : toInt (toInt x) = toInt x := Int.bmod_bmod

/-- Every path has a name, so every time is read. -/
theorem epochTimes_eq {chunks : List (ChunkT CString)} (h : ∀ chunk ∈ chunks, '/' ∈ chunk.path) :
    epochTimes chunks = some (chunks.map chunkTime) := by
  induction chunks with
  | nil => rfl
  | cons chunk rest ih =>
    obtain ⟨hchunk, hrest⟩ := List.forall_mem_cons.mp h
    have hname : baseName chunk.path = some (chunk.path.rtakeWhile (· ≠ '/')) := if_pos hchunk
    have hrest' := ih hrest
    rw [epochTimes] at hrest' ⊢
    simp [List.mapM_cons, hrest', hname, chunkTime]

/-- The entries which the sort starts with. -/
def timedEntries (chunks : List (ChunkT CString)) : List (ℤ × ChunkT CString) :=
  chunks.map fun chunk => (chunkTime chunk, chunk)

theorem sortedArrays_eq {data : VideoChunkT CString} (h : ∀ chunk ∈ data.chunckList, '/' ∈ chunk.path) :
    sortedArrays data = some (SortArrays.ofEntries (exchangeSort toInt (timedEntries data.chunckList))) := by
  have hstart : (⟨data.chunckList.map chunkTime, data.chunckList⟩ : SortArrays) =
      SortArrays.ofEntries (timedEntries data.chunckList) := by
    simp [SortArrays.ofEntries, timedEntries, Function.comp_def]
  rw [sortedArrays, epochTimes_eq h, Option.map_some, hstart, sort_ofEntries]

/-- Setting the positions changes nothing else. -/
theorem positionsFrom_map {B : Type} (f : ChunkT CString → B)
    (hf : ∀ chunk pos, f { chunk with position := pos } = f chunk) (pos : ℤ) (chunks : List (ChunkT CString)) :
    (positionsFrom pos chunks).map f = chunks.map f := by
  induction chunks generalizing pos with
  | nil => rfl
  | cons chunk rest ih => rw [positionsFrom, List.map_cons, List.map_cons, hf, ih]

/-- Each position counts on from the first one by the durations before it. -/
theorem positionsFrom_position {pos : ℤ} {chunks : List (ChunkT CString)} {i : ℕ} {chunk : ChunkT CString}
    (h : (positionsFrom pos chunks)[i]? = some chunk) :
    chunk.position = pos + (((positionsFrom pos chunks).take i).map ChunkT.duration).sum := by
  induction chunks generalizing pos i with
  | nil => simp [positionsFrom] at h
  | cons first rest ih =>
    cases i with
    | zero =>
      obtain rfl := Option.some.inj h
      simp
    | succ i =>
      rw [positionsFrom, List.getElem?_cons_succ] at h
      rw [ih h, positionsFrom, List.take_succ_cons, List.map_cons, List.sum_cons, add_assoc]

theorem cumulative_positionsFrom (chunks : List (ChunkT CString)) : Cumulative (positionsFrom 0 chunks) := by
  intro i chunk h
  rw [positionsFrom_position h, zero_add]

/-- Whatever the times, the chunks are permuted and get the positions which add up the durations. -/
theorem sortChunks_spec {data : VideoChunkT CString} (h : ∀ chunk ∈ data.chunckList, '/' ∈ chunk.path) :
    ∃ sorted, sortChunks data = some sorted ∧
      (sorted.map fun chunk => (chunk.path, chunk.duration)).Perm
        (data.chunckList.map fun chunk => (chunk.path, chunk.duration)) ∧
      Cumulative sorted ∧
      sorted.map chunkTime = (exchangeSort toInt (timedEntries data.chunckList)).map fun z => chunkTime z.2 := by
  have hpermuted : ((exchangeSort toInt (timedEntries data.chunckList)).map Prod.snd).Perm
      ((timedEntries data.chunckList).map Prod.snd) := exchangeSort_map_snd_perm
  have hentries : (timedEntries data.chunckList).map Prod.snd = data.chunckList := by
    simp [timedEntries, Function.comp_def]
  rw [hentries] at hpermuted
  refine ⟨_, by rw [sortChunks, sortedArrays_eq h, Option.map_some], ?_, cumulative_positionsFrom _, ?_⟩
  · rw [positionsFrom_map _ fun _ _ => rfl]
    exact hpermuted.map _
  · rw [positionsFrom_map _ fun _ _ => rfl, SortArrays.ofEntries, List.map_map]
    rfl

/-- The chunks are put in the order of their times, and the times are kept, exactly when no time which an
`int` does not hold stands in front of an earlier one. -/
theorem sortChunks_iff (data : VideoChunkT CString) (hnames : ∀ chunk ∈ data.chunckList, '/' ∈ chunk.path) :
    (SortsByTime data ∧ KeepsTimes data) ↔
      data.chunckList.Pairwise fun a b => toInt (chunkTime a) = chunkTime a ∨ chunkTime a ≤ chunkTime b := by
  have hstart : InStep chunkTime (timedEntries data.chunckList) := by
    intro z hz
    obtain ⟨chunk, -, rfl⟩ := List.mem_map.mp hz
    rfl
  have hcondition : KeepsKeys toInt (timedEntries data.chunckList) ↔
      data.chunckList.Pairwise fun a b => toInt (chunkTime a) = chunkTime a ∨ chunkTime a ≤ chunkTime b :=
    List.pairwise_map
  rw [← hcondition, ← exchangeSort_sorted_iff toInt_toInt hstart]
  obtain ⟨sorted, hsorted, hperm, hcumulative, htimes⟩ := sortChunks_spec hnames
  have harrays := sortedArrays_eq hnames
  generalize exchangeSort toInt (timedEntries data.chunckList) = entries at *
  have hkeeps : KeepsTimes data ↔ InStep chunkTime entries := by
    simp only [KeepsTimes, harrays, Option.some.injEq, exists_eq_left', SortArrays.ofEntries, List.map_map]
    exact List.map_inj_left
  have hsorts : SortsByTime data ↔ sorted.Pairwise fun a b => chunkTime a ≤ chunkTime b := by
    constructor
    · rintro ⟨sorted', hsorted', hordered⟩
      rw [hsorted] at hsorted'
      exact Option.some.inj hsorted' ▸ hordered.ordered
    · exact fun hordered => ⟨sorted, hsorted, hperm, hordered, hcumulative⟩
  rw [hkeeps, hsorts, and_comm]
  refine and_congr_right fun hstep => ?_
  -- the keys are the times of the sorted chunks
  have hkeys : sorted.map chunkTime = entries.map Prod.fst := by
    rw [htimes]
    exact List.map_inj_left.mpr fun z hz => (hstep z hz).symm
  calc (sorted.Pairwise fun a b => chunkTime a ≤ chunkTime b)
      ↔ (sorted.map chunkTime).Pairwise (· ≤ ·) := List.pairwise_map.symm
    _ ↔ (entries.map Prod.fst).Pairwise (· ≤ ·) := by rw [hkeys]
    _ ↔ entries.Pairwise fun x y => x.1 ≤ y.1 := List.pairwise_map

/-- The chunk of a name, of a minute. -/
def minuteChunk (name : String) : ChunkT CString where
  path := '/' :: name.toList
  duration := 60000
  position := 0

/-- A session of two chunks. -/
def twoMinutes (first second : String) : VideoChunkT CString where
  chunckList := [minuteChunk first, minuteChunk second]
  total_le := by simp [maxFileCount]

/-- Two chunks of the year 2020 which are listed in the wrong order are sorted. -/
theorem sortChunks_iff_2020 :
    SortsByTime (twoMinutes "20200101-000100.060000000.ra" "20200101-000000.060000000.ra") := by
  refine ((sortChunks_iff _ ?_).mpr ?_).1
  · decide
  · decide +kernel

/-- A chunk of the year 2040 in front of one of the year 2020 stays there. -/
theorem not_sortsByTime_2040 :
    ¬SortsByTime (twoMinutes "20400101-000000.060000000.ra" "20200101-000000.060000000.ra") := by
  rintro ⟨sorted, hsorted, hordered⟩
  have hwrong : (sortChunks (twoMinutes "20400101-000000.060000000.ra" "20200101-000000.060000000.ra")).map
      (fun sorted => sorted.map chunkTime) = some [2208988800, 1577836800] := by
    decide +kernel
  rw [hsorted, Option.map_some] at hwrong
  have htimes := List.pairwise_map.mpr hordered.ordered
  rw [Option.some.inj hwrong] at htimes
  exact absurd htimes (by decide)

end RecordingAgent.RtspPlay
