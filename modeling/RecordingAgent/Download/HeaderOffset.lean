import Mathlib.Algebra.Order.Group.Unbundled.Int
import Mathlib.Algebra.Order.Ring.Int
import RecordingAgent.Download.Segments

/-!
# The time offset in the header of a chunk

The offset of a chunk is handed out by four branches. Two of them go through the floating-point variable
`starttimeoffset`, from which an unsigned number of 64 bits is assigned. That keeps a number with at most 53
significant bits, and has no defined result for a negative one.
-/

namespace RecordingAgent.Download

open Foundation

/-- The variable with the offset of the first chunk, and the offset that is handed out. -/
structure OffsetVars where
  starttimeoffset : ℤ
  offset : BitVec 64
  deriving DecidableEq

/-- The number has at most 53 significant bits. -/
def FitsDouble (z : ℤ) : Prop := ((2 ^ (z.natAbs.log2 + 1 - 53) : ℕ) : ℤ) ∣ z

instance (z : ℤ) : Decidable (FitsDouble z) :=
  inferInstanceAs (Decidable (((2 ^ (z.natAbs.log2 + 1 - 53) : ℕ) : ℤ) ∣ z))

/-- The conversion to floating point keeps exactly the numbers that fit. -/
theorem toDouble_eq_self_iff (z : ℤ) : toDouble z = z ↔ FitsDouble z := by
  unfold toDouble FitsDouble
  set unit := 2 ^ (z.natAbs.log2 + 1 - 53) with hunit
  have hpos : 0 < unit := Nat.two_pow_pos _
  rw [← Int.natAbs_dvd_natAbs, Int.natAbs_natCast]
  constructor
  · intro h
    have habs := congrArg Int.natAbs h
    rw [Int.natAbs_mul, Int.natAbs_natCast] at habs
    rcases eq_or_ne z 0 with rfl | hz
    · exact dvd_zero _
    · rw [Int.natAbs_sign_of_ne_zero hz, one_mul] at habs
      exact Dvd.intro_left _ habs
  · intro h
    have hlow : z.natAbs % unit = 0 := Nat.mod_eq_zero_of_dvd h
    simp only [hlow, Nat.mul_zero, Nat.not_lt_zero, hpos.ne', false_and, or_false, if_false]
    rw [Nat.div_mul_cancel h, Int.sign_mul_natAbs]

/-- A `long` that is not negative is converted to at most 2^63. -/
theorem toDouble_range {z : ℤ} (hneg : 0 ≤ z) (hlong : z < 2 ^ 63) : 0 ≤ toDouble z ∧ toDouble z ≤ 2 ^ 63 := by
  unfold toDouble
  set unit := 2 ^ (z.natAbs.log2 + 1 - 53) with hunit
  have hlt : z.natAbs < 2 ^ 63 := by omega
  have hdvd : unit ∣ 2 ^ 63 := by
    refine pow_dvd_pow 2 ?_
    rcases Nat.eq_zero_or_pos z.natAbs with hzero | hpos
    · rw [hzero]; decide
    · have hlog := (Nat.log2_lt hpos.ne').mpr hlt
      omega
  have hhigh : (z.natAbs / unit + 1) * unit ≤ 2 ^ 63 := by
    have hdiv : z.natAbs / unit < 2 ^ 63 / unit := Nat.div_lt_div_of_lt_of_dvd hdvd hlt
    calc (z.natAbs / unit + 1) * unit ≤ 2 ^ 63 / unit * unit := Nat.mul_le_mul_right unit hdiv
      _ = 2 ^ 63 := Nat.div_mul_cancel hdvd
  have hround : (if unit < 2 * (z.natAbs % unit) ∨ unit = 2 * (z.natAbs % unit) ∧ z.natAbs / unit % 2 = 1
      then z.natAbs / unit + 1 else z.natAbs / unit) * unit ≤ 2 ^ 63 := by
    split
    · exact hhigh
    · exact (Nat.mul_le_mul_right unit (Nat.le_succ _)).trans hhigh
  rcases hneg.eq_or_lt with rfl | hpos
  · simp
  · rw [Int.sign_eq_one_of_pos hpos, one_mul]
    exact ⟨Int.natCast_nonneg _, by exact_mod_cast hround⟩

/-- A negative number stays negative. -/
theorem toDouble_neg {z : ℤ} (h : z < 0) : toDouble z < 0 := by
  unfold toDouble
  set unit := 2 ^ (z.natAbs.log2 + 1 - 53) with hunit
  have hne : z.natAbs ≠ 0 := by omega
  have hle : unit ≤ z.natAbs :=
    (Nat.pow_le_pow_right (by decide) (by omega)).trans (Nat.log2_self_le hne)
  have hhigh : 0 < z.natAbs / unit := Nat.div_pos hle (Nat.two_pow_pos _)
  have hround : 0 < (if unit < 2 * (z.natAbs % unit) ∨ unit = 2 * (z.natAbs % unit) ∧ z.natAbs / unit % 2 = 1
      then z.natAbs / unit + 1 else z.natAbs / unit) * unit := by
    refine Nat.mul_pos ?_ (Nat.two_pow_pos _)
    split <;> omega
  rw [Int.sign_eq_neg_one_of_neg h]
  simp only [neg_one_mul, neg_lt_zero]
  exact_mod_cast hround

variable (sys : DownloadSystem)

/-- `get_timeoffset_from_chunk_header`, for a chunk whose file can be opened and is not empty: whether it
succeeds, and the variables after it. -/
def getTimeoffsetFromChunkHeader (chunk : Option Chunk) (isfirstchunk isplayback : Bool) (vars : OffsetVars) :
    Bool × OffsetVars :=
  match chunk with
  | none => (false, vars)
  | some c =>
    (true,
      if c.timeSrc ≠ [] then
        if isfirstchunk then
          if isplayback then { vars with offset := BitVec.ofInt 64 c.timeoffset }
          else ⟨toDouble c.timeoffset, sys.toUint64 (toDouble c.timeoffset)⟩
        else { vars with offset := BitVec.ofInt 64 c.timeoffset }
      else if isfirstchunk then ⟨toDouble sys.timeoffset, sys.toUint64 (toDouble sys.timeoffset)⟩
      else { vars with offset := BitVec.ofInt 64 sys.timeoffset })

/-- Whether a call hands out the offset after a conversion from floating point. -/
def Chunk.Floats (c : Chunk) (isfirstchunk isplayback : Bool) : Prop :=
  isfirstchunk = true ∧ (c.timeSrc ≠ [] → isplayback = false)

instance (c : Chunk) (isfirstchunk isplayback : Bool) : Decidable (c.Floats isfirstchunk isplayback) :=
  inferInstanceAs (Decidable (isfirstchunk = true ∧ (c.timeSrc ≠ [] → isplayback = false)))

/-- The offset that is handed out is the offset of the chunk, which may have been converted. -/
theorem offset_getTimeoffsetFromChunkHeader (c : Chunk) (isfirstchunk isplayback : Bool) (vars : OffsetVars) :
    (getTimeoffsetFromChunkHeader sys (some c) isfirstchunk isplayback vars).2.offset =
      if c.Floats isfirstchunk isplayback then sys.toUint64 (toDouble (c.offset sys))
      else BitVec.ofInt 64 (c.offset sys) := by
  unfold getTimeoffsetFromChunkHeader Chunk.offset Chunk.Floats
  by_cases hsrc : c.timeSrc = [] <;> cases isfirstchunk <;> cases isplayback <;> simp [hsrc]

/-- A download hands out what the segments are computed with. -/
theorem offset_download (c : Chunk) (isfirstchunk : Bool) (vars : OffsetVars) :
    (getTimeoffsetFromChunkHeader sys (some c) isfirstchunk false vars).2.offset =
      timeoffsetFromChunkHeader sys c isfirstchunk := by
  rw [offset_getTimeoffsetFromChunkHeader]
  cases isfirstchunk <;> simp [Chunk.Floats, timeoffsetFromChunkHeader]

/-- Every call for a chunk hands out its offset modulo 2^64, so that the adjusted time comes out. -/
def MeansTheSame (c : Chunk) : Prop :=
  ∀ isfirstchunk isplayback vars,
    let call := getTimeoffsetFromChunkHeader sys (some c) isfirstchunk isplayback vars
    call.1 = true ∧ call.2.offset = BitVec.ofInt 64 (c.offset sys) ∧
      ∀ epoch : ℤ, BitVec.ofInt 64 epoch - call.2.offset = BitVec.ofInt 64 (epoch - c.offset sys)

/-- A number comes through floating point: it fits, or is negative and happens to wrap around. -/
def ComesThrough (z : ℤ) : Prop :=
  if 0 ≤ z then FitsDouble z else sys.undefinedCast (toDouble z) = BitVec.ofInt 64 z

instance (z : ℤ) : Decidable (ComesThrough sys z) :=
  inferInstanceAs (Decidable (if 0 ≤ z then FitsDouble z else sys.undefinedCast (toDouble z) = BitVec.ofInt 64 z))

/-- The conversion of a `long` to floating point and back is the number modulo 2^64 when it comes through. -/
theorem toUint64_toDouble_iff {z : ℤ} (hlong : z < 2 ^ 63) :
    sys.toUint64 (toDouble z) = BitVec.ofInt 64 z ↔ ComesThrough sys z := by
  unfold ComesThrough DownloadSystem.toUint64
  split_ifs with hrange hneg hneg
  · obtain ⟨hlow, hhigh⟩ := toDouble_range hneg hlong
    rw [← toDouble_eq_self_iff]
    constructor
    · intro h
      have hnat := congrArg BitVec.toNat h
      rw [BitVec.toNat_ofInt, BitVec.toNat_ofInt] at hnat
      omega
    · intro h
      rw [h]
  · have hlt := toDouble_neg (not_le.mp hneg)
    omega
  · have hbounds := toDouble_range hneg hlong
    omega
  · exact Iff.rfl

theorem ofInt_sub {w : ℕ} (x y : ℤ) : BitVec.ofInt w (x - y) = BitVec.ofInt w x - BitVec.ofInt w y := by
  rw [Int.sub_eq_add_neg, BitVec.ofInt_add, BitVec.ofInt_neg, ← BitVec.sub_eq_add_neg]

variable {sys} in
/-- The offset of a chunk means the same on every path exactly when it comes through floating point. -/
theorem meansTheSame_iff (c : Chunk) (hstored : c.timeSrc ≠ [] → |c.timeoffset| < 2 ^ 53)
    (hcurrent : c.timeSrc = [] → -2 ^ 63 ≤ sys.timeoffset ∧ sys.timeoffset < 2 ^ 63) :
    MeansTheSame sys c ↔ ComesThrough sys (c.offset sys) := by
  have hlong : c.offset sys < 2 ^ 63 := by
    unfold Chunk.offset
    split
    next hsrc =>
      have habs := (abs_lt.mp (hstored hsrc)).2
      omega
    next hsrc => exact (hcurrent (not_not.mp hsrc)).2
  rw [← toUint64_toDouble_iff sys hlong]
  constructor
  · intro h
    have hdownload := (h true false ⟨0, 0⟩).2.1
    rwa [offset_getTimeoffsetFromChunkHeader, if_pos ⟨rfl, fun _ => rfl⟩] at hdownload
  · intro h isfirstchunk isplayback vars
    have hoffset : (getTimeoffsetFromChunkHeader sys (some c) isfirstchunk isplayback vars).2.offset =
        BitVec.ofInt 64 (c.offset sys) := by
      rw [offset_getTimeoffsetFromChunkHeader, h, ite_self]
    refine ⟨rfl, hoffset, fun epoch => ?_⟩
    rw [hoffset, ofInt_sub]

/-- A chunk whose header names a time source, or none. -/
def headedChunk (timeSrc : CString) (timeoffset : ℤ) : Chunk :=
  ⟨1700000000, 60000000, false, some "/rssd/a".toList, timeSrc, timeoffset, [], 1⟩

/-- A system with a time offset which converts negative numbers to 0. -/
def saturating (timeoffset : ℤ) : DownloadSystem := ⟨timeoffset, fun _ => 0, fun _ => true, fun _ => true⟩

/-- An offset of one hour means the same on every path. -/
theorem meansTheSame_oneHour : MeansTheSame (saturating 0) (headedChunk ['G'] 3600) :=
  (meansTheSame_iff (headedChunk ['G'] 3600) (by decide) (by decide)).mpr (by decide)

/-- A chunk without a time source, when the current offset has 54 significant bits. -/
theorem not_meansTheSame_current :
    ¬ ∀ (sys : DownloadSystem) (c : Chunk), (c.timeSrc ≠ [] → |c.timeoffset| < 2 ^ 53) →
      (c.timeSrc = [] → -2 ^ 63 ≤ sys.timeoffset ∧ sys.timeoffset < 2 ^ 63) → MeansTheSame sys c := by
  intro h
  have hcall := h (saturating (2 ^ 53 + 1)) (headedChunk [] 0) (by decide) (by decide) true true ⟨0, 0⟩
  exact absurd hcall.2.1 (by decide +kernel)

end RecordingAgent.Download
