import RecordingAgent.Foundation.Qsort
import RecordingAgent.RecordingList.CameraRecordings

/-!
# The comparator of chunks

`compare_chunks` returns the difference of two start times as an `int`. The sign of the difference survives
exactly where its residue modulo `2 ^ 32` is that of a difference of less than `2 ^ 31` seconds. A file name
of any date is a start time, so three files can be enough to make the order go round in a circle.
-/

namespace RecordingAgent.RecordingList

open Foundation Metarec

/-- Two start times which are not equal, and whose difference looks no greater than about 68 years when its high bits
are cut off. -/
def SurvivesNarrowing (earlier later : ℤ) : Prop :=
  0 < (later - earlier) % 2 ^ 32 ∧ (later - earlier) % 2 ^ 32 < 2 ^ 31

instance (earlier later : ℤ) : Decidable (SurvivesNarrowing earlier later) := inferInstanceAs (Decidable (_ ∧ _))

variable {a b : SingleChunk}

/-- For chunks in order both comparisons have the right sign exactly if the difference survives. -/
theorem sign_compareChunks_iff :
    (compareChunks b a).sign = 1 ∧ (compareChunks a b).sign = -1 ↔ SurvivesNarrowing a.startTime b.startTime := by
  rw [Int.sign_eq_one_iff_pos, Int.sign_eq_neg_one_iff_neg, SurvivesNarrowing, compareChunks, compareChunks,
    Int.bmod_def, Int.bmod_def]
  generalize a.startTime = earlier
  generalize b.startTime = later
  constructor
  · rintro ⟨hlater, hearlier⟩
    split at hlater <;> split at hearlier <;> omega
  · rintro ⟨hpos, hlt⟩
    constructor <;> split <;> omega

/-- Chunks which start at one time compare equal. -/
theorem compareChunks_same (h : a.startTime = b.startTime) : compareChunks a b = 0 := by
  rw [compareChunks, h, sub_self, Int.zero_bmod]

/-- The comparator is a consistent order by start times on a set of chunks, whatever their names, exactly if the
difference of any two start times that differ survives the narrowing. -/
theorem comparesBy_startTime_iff (chunks : Set SingleChunk) :
    ComparesBy compareChunks SingleChunk.startTime chunks ↔
      ∀ a ∈ chunks, ∀ b ∈ chunks, a.startTime < b.startTime → SurvivesNarrowing a.startTime b.startTime := by
  constructor
  · intro h a ha b hb hlt
    rw [← sign_compareChunks_iff, h.sign b hb a ha, h.sign a ha b hb, Int.sign_eq_one_iff_pos,
      Int.sign_eq_neg_one_iff_neg]
    omega
  · intro h
    refine comparesBy_of_sign fun a ha b hb => ?_
    rcases lt_trichotomy a.startTime b.startTime with hlt | heq | hgt
    · rw [(sign_compareChunks_iff.mpr (h a ha b hb hlt)).2]
      exact (Int.sign_eq_neg_one_iff_neg.mpr (by omega)).symm
    · rw [compareChunks_same heq, heq, sub_self]
    · rw [(sign_compareChunks_iff.mpr (h b hb a ha hgt)).1]
      exact (Int.sign_eq_one_iff_pos.mpr (by omega)).symm

/-- The chunks of these file paths. -/
def chunksOf (paths : Set CString) : Set SingleChunk := { chunk | ∃ path ∈ paths, ∃ file, chunk = chunkOf path file }

/-- For file names the condition is one on their start times. -/
theorem comparesBy_chunksOf_iff (paths : Set CString) :
    ComparesBy compareChunks SingleChunk.startTime (chunksOf paths) ↔
      ∀ p ∈ paths, ∀ q ∈ paths,
        CameraRecordings.fileNameToEpoch (some p) < CameraRecordings.fileNameToEpoch (some q) →
          SurvivesNarrowing (CameraRecordings.fileNameToEpoch (some p)) (CameraRecordings.fileNameToEpoch (some q)) := by
  rw [comparesBy_startTime_iff]
  constructor
  · intro h p hp q hq
    exact h (chunkOf p []) ⟨p, hp, [], rfl⟩ (chunkOf q []) ⟨q, hq, [], rfl⟩
  · rintro h _ ⟨p, hp, file, rfl⟩ _ ⟨q, hq, file', rfl⟩
    exact h p hp q hq

/-- Of files from 1970, 2005 and 2040 each comes before the next one, and the last one before the first. -/
theorem compareChunks_circle :
    let first := chunkOf "/ssd/CAM/19700101-000000.000000001.data".toList []
    let second := chunkOf "/ssd/CAM/20050101-000000.000000001.data".toList []
    let third := chunkOf "/ssd/CAM/20400101-000000.000000001.data".toList []
    first.startTime < second.startTime ∧ second.startTime < third.startTime ∧
      compareChunks first second < 0 ∧ compareChunks second third < 0 ∧ 0 < compareChunks first third ∧
      ¬ ComparesBy compareChunks SingleChunk.startTime {first, second, third} := by
  intro first second third
  have hcircle : first.startTime < second.startTime ∧ second.startTime < third.startTime ∧
      compareChunks first second < 0 ∧ compareChunks second third < 0 ∧ 0 < compareChunks first third := by
    decide +kernel
  obtain ⟨h1, h2, h3, h4, h5⟩ := hcircle
  refine ⟨h1, h2, h3, h4, h5, fun h => ?_⟩
  have hle := h.trans first (by simp) second (by simp) third (by simp) h3.le h4.le
  omega

end RecordingAgent.RecordingList
