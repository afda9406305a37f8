import Mathlib.Data.List.Chain
import RecordingAgent.Foundation.Decimal
import RecordingAgent.SpaceMonitor.Grooming

/-!
# The ages by which cameras are groomed

The space monitor makes a table of the cameras that have a maximum age, in hours, and turns the age
into microseconds. The variable the age is read into is carried from camera to camera and multiplied
even if nothing was read.
-/

namespace RecordingAgent.SpaceMonitor

open Foundation
open RecordingAgent.Reagent (CamDef)

/-- The entry a camera with an address and a positive age is meant to have. -/
def ownEntry (macLen : ℕ) (cam : CamDef) : Option TimeBasedCamera :=
  if cam.dispMac ≠ [] ∧ (scanU64 cam.maxAge).isSome ∧ 0 < atoi cam.maxAge then
    some ⟨fullPath macLen cam.name cam.dispMac, (atoi cam.maxAge).toNat * 60 * 60 * 1000000⟩
  else none

/-- The ages of the cameras which have an address and an age. -/
def configuredAges (cams : List CamDef) : List CString :=
  (cams.filter fun cam => cam.dispMac ≠ [] ∧ cam.maxAge ≠ []).map CamDef.maxAge

/-- What the variable holds when the age of a camera has been read and multiplied. -/
def crtAfter (crt : ℕ) (maxAge : CString) : ℕ := (scanU64 maxAge).getD crt * 60 * 60 * 1000000 % 2 ^ 64

/-- No age is negative, and the age behind a positive one is a number. -/
def AgesReadable (ages : List CString) : Prop :=
  (∀ age ∈ ages, 0 ≤ atoi age) ∧ ages.IsChain fun age next => 0 < atoi age → (scanU64 next).isSome

instance decidableAgesReadable (ages : List CString) : Decidable (AgesReadable ages) :=
  inferInstanceAs (Decidable ((∀ age ∈ ages, 0 ≤ atoi age) ∧ ages.IsChain fun age next => 0 < atoi age → (scanU64 next).isSome))

variable {macLen : ℕ} {maxAge : CString}

/-- A text of three characters has at most three digits. -/
theorem decimalValue_takeWhile_le {text : CString} (h : text.length ≤ 3) :
    decimalValue (text.takeWhile Char.isDigit) ≤ 999 := by
  have hlt := decimalValue_lt fun c (hc : c ∈ text.takeWhile Char.isDigit) => List.mem_takeWhile_imp hc
  have hlength : (text.takeWhile Char.isDigit).length ≤ 3 := (List.takeWhile_prefix _).length_le.trans h
  have hpow := Nat.pow_le_pow_right (show 0 < 10 by decide) hlength
  omega

/-- The digits behind the sign, as `scanU64` reads them. -/
def scanDigits (digits : CString) (negate : Bool) : Option ℕ :=
  if digits.takeWhile Char.isDigit = [] then none
  else if 2 ^ 64 ≤ decimalValue (digits.takeWhile Char.isDigit) then some (2 ^ 64 - 1)
  else if negate then some ((2 ^ 64 - decimalValue (digits.takeWhile Char.isDigit)) % 2 ^ 64)
  else some (decimalValue (digits.takeWhile Char.isDigit))

/-- What is scanned from a few digits is their signed value `z`, modulo 2^64. -/
theorem scanDigits_short {digits : CString} (h : digits.length ≤ 3) (negate : Bool) {z : ℤ}
    (hz : z = if negate then -(decimalValue (digits.takeWhile Char.isDigit) : ℤ)
      else decimalValue (digits.takeWhile Char.isDigit)) :
    (scanDigits digits negate = none ∧ z = 0) ∨
      (scanDigits digits negate = some (z % 2 ^ 64).toNat ∧ -999 ≤ z ∧ z ≤ 999) := by
  have hle := decimalValue_takeWhile_le h
  unfold scanDigits
  split
  next hnone =>
    rw [hnone] at hz
    exact Or.inl ⟨rfl, by simpa [decimalValue] using hz⟩
  next =>
    rw [if_neg (by omega)]
    cases negate with
    | true =>
      simp only [if_true] at hz ⊢
      exact Or.inr ⟨congrArg some (by omega), by omega, by omega⟩
    | false =>
      simp only [Bool.false_eq_true, if_false] at hz ⊢
      exact Or.inr ⟨congrArg some (by omega), by omega, by omega⟩

/-- Without a sign the digits begin behind the blanks. -/
theorem scanU64_unsigned (hminus : ∀ rest, maxAge.dropWhile Char.isWhitespace ≠ '-' :: rest)
    (hplus : ∀ rest, maxAge.dropWhile Char.isWhitespace ≠ '+' :: rest) :
    scanU64 maxAge = scanDigits (maxAge.dropWhile Char.isWhitespace) false := by
  unfold scanU64
  split
  next rest heq => exact absurd heq (hminus rest)
  next rest heq => exact absurd heq (hplus rest)
  next => rfl

theorem atoi_unsigned (hminus : ∀ rest, maxAge.dropWhile Char.isWhitespace ≠ '-' :: rest)
    (hplus : ∀ rest, maxAge.dropWhile Char.isWhitespace ≠ '+' :: rest) :
    atoi maxAge = decimalValue ((maxAge.dropWhile Char.isWhitespace).takeWhile Char.isDigit) := by
  unfold atoi
  split
  next rest heq => exact absurd heq (hminus rest)
  next rest heq => exact absurd heq (hplus rest)
  next => rfl

/-- What is scanned from a short text is the number it begins with, modulo 2^64. -/
theorem scanU64_short (h : maxAge.length ≤ 3) :
    (scanU64 maxAge = none ∧ atoi maxAge = 0) ∨
      (scanU64 maxAge = some (atoi maxAge % 2 ^ 64).toNat ∧ -999 ≤ atoi maxAge ∧ atoi maxAge ≤ 999) := by
  have hlength : (maxAge.dropWhile Char.isWhitespace).length ≤ 3 := (List.dropWhile_suffix _).length_le.trans h
  by_cases hminus : ∃ rest, maxAge.dropWhile Char.isWhitespace = '-' :: rest
  · obtain ⟨rest, hrest⟩ := hminus
    rw [hrest] at hlength
    rw [scanU64, atoi, hrest]
    exact scanDigits_short ((Nat.le_succ _).trans hlength) true rfl
  · by_cases hplus : ∃ rest, maxAge.dropWhile Char.isWhitespace = '+' :: rest
    · obtain ⟨rest, hrest⟩ := hplus
      rw [hrest] at hlength
      rw [scanU64, atoi, hrest]
      exact scanDigits_short ((Nat.le_succ _).trans hlength) false rfl
    · rw [not_exists] at hminus hplus
      rw [scanU64_unsigned hminus hplus, atoi_unsigned hminus hplus]
      exact scanDigits_short hlength false rfl

/-- The variable after a number of hours which is not negative. -/
theorem crtAfter_of_nonneg (h : maxAge.length ≤ 3) (hread : (scanU64 maxAge).isSome) (hnonneg : 0 ≤ atoi maxAge)
    (crt : ℕ) : crtAfter crt maxAge = (atoi maxAge).toNat * 60 * 60 * 1000000 := by
  rcases scanU64_short h with ⟨hnone, -⟩ | ⟨hsome, -, hle⟩
  · rw [hnone] at hread
    cases hread
  · rw [crtAfter, hsome, Option.getD_some, Int.emod_eq_of_lt hnonneg (by omega)]
    exact Nat.mod_eq_of_lt (by omega)

/-- A negative number gives the camera an age. -/
theorem crtAfter_of_neg (h : maxAge.length ≤ 3) (hneg : atoi maxAge < 0) (crt : ℕ) : 0 < crtAfter crt maxAge := by
  rcases scanU64_short h with ⟨-, hzero⟩ | ⟨hsome, hle, -⟩
  · omega
  · rw [crtAfter, hsome, Option.getD_some]
    omega

/-- A text which is no number gives the camera an age exactly if the one before had a positive age. -/
theorem crtAfter_of_none (hnone : scanU64 maxAge = none) {hours : ℕ} (hle : hours ≤ 999) :
    crtAfter (hours * 60 * 60 * 1000000) maxAge = 0 ↔ hours = 0 := by
  -- the square of the microseconds of an hour has 20 factors of two
  have hfactors : hours * 60 * 60 * 1000000 * 60 * 60 * 1000000 = 2 ^ 20 * (hours * 12359619140625) := by ring
  have hodd : Nat.Coprime (2 ^ 44) 12359619140625 := Nat.Coprime.pow_left 44 (by decide)
  rw [crtAfter, hnone, Option.getD_none, hfactors, show 2 ^ 64 = 2 ^ 20 * 2 ^ 44 by norm_num, Nat.mul_mod_mul_left,
    Nat.mul_eq_zero, or_iff_right (by norm_num), ← Nat.dvd_iff_mod_eq_zero]
  constructor
  · intro hdvd
    have hpow : 2 ^ 44 ∣ hours := Nat.Coprime.dvd_of_dvd_mul_right hodd hdvd
    exact Nat.eq_zero_of_dvd_of_lt hpow (hle.trans_lt (by decide))
  · intro hzero
    rw [hzero, Nat.zero_mul]
    exact Nat.dvd_zero _

/-- The step of the loop for a camera with an address and an age. -/
theorem timeBasedArray_cons {cam : CamDef} (h : cam.dispMac ≠ [] ∧ cam.maxAge ≠ []) (crt : ℕ) (cams : List CamDef) :
    timeBasedArray macLen crt (cam :: cams) =
      (if 0 < crtAfter crt cam.maxAge then [⟨fullPath macLen cam.name cam.dispMac, crtAfter crt cam.maxAge⟩] else []) ++
        timeBasedArray macLen (crtAfter crt cam.maxAge) cams := by
  rw [timeBasedArray, if_neg h.1, if_neg h.2]
  change (if 0 < crtAfter crt cam.maxAge then _ else _) = _
  split <;> rfl

/-- The step of the loop for another camera. -/
theorem timeBasedArray_cons_of_not {cam : CamDef} (h : ¬ (cam.dispMac ≠ [] ∧ cam.maxAge ≠ [])) (crt : ℕ)
    (cams : List CamDef) : timeBasedArray macLen crt (cam :: cams) = timeBasedArray macLen crt cams := by
  rw [timeBasedArray]
  split
  · rfl
  next hmac => rw [if_pos (by simpa [hmac] using h)]

/-- A camera with an age which is read has its entry, whatever the loop has made of the others. -/
theorem ownEntries_length_le {cams : List CamDef} (h : ∀ cam ∈ cams, cam.maxAge.length ≤ 3) (crt : ℕ) :
    (cams.filterMap (ownEntry macLen)).length ≤ (timeBasedArray macLen crt cams).length := by
  induction cams generalizing crt with
  | nil => exact Nat.le_refl _
  | cons cam cams ih =>
    obtain ⟨hcam, hcams⟩ := List.forall_mem_cons.mp h
    by_cases hconfigured : cam.dispMac ≠ [] ∧ cam.maxAge ≠ []
    · rw [timeBasedArray_cons hconfigured, List.filterMap_cons, List.length_append]
      have hrest := ih hcams (crtAfter crt cam.maxAge)
      cases hentry : ownEntry macLen cam with
      | none => exact hrest.trans (Nat.le_add_left _ _)
      | some entry =>
        obtain ⟨-, hread, hpos⟩ := (Option.ite_none_right_eq_some.mp hentry).1
        rw [crtAfter_of_nonneg hcam hread hpos.le, if_pos (by omega), List.length_cons, List.length_singleton] at *
        omega
    · rw [timeBasedArray_cons_of_not hconfigured, List.filterMap_cons_none]
      · exact ih hcams crt
      · exact if_neg fun howned => hconfigured ⟨howned.1, fun hempty => absurd howned.2.1 (by rw [hempty]; decide)⟩

/-- An entry for a camera that is meant to have none is one too many. -/
theorem timeBasedArray_ne_of_extra {cam : CamDef} {cams : List CamDef} (h : ∀ cam ∈ cams, cam.maxAge.length ≤ 3)
    (hconfigured : cam.dispMac ≠ [] ∧ cam.maxAge ≠ []) (hnone : ownEntry macLen cam = none) {crt : ℕ}
    (hpos : 0 < crtAfter crt cam.maxAge) :
    timeBasedArray macLen crt (cam :: cams) ≠ (cam :: cams).filterMap (ownEntry macLen) := by
  intro heq
  have hlength := congrArg List.length heq
  rw [timeBasedArray_cons hconfigured, if_pos hpos, List.filterMap_cons_none hnone, List.length_append,
    List.length_singleton] at hlength
  have hle : (cams.filterMap (ownEntry macLen)).length ≤ _ := ownEntries_length_le h (crtAfter crt cam.maxAge)
  omega

theorem agesReadable_cons {ages : List CString} : AgesReadable (maxAge :: ages) ↔
    0 ≤ atoi maxAge ∧ (0 < atoi maxAge → ∀ next ∈ ages.head?, (scanU64 next).isSome) ∧ AgesReadable ages := by
  rw [AgesReadable, AgesReadable, List.forall_mem_cons, List.isChain_cons]
  constructor
  · rintro ⟨⟨hnonneg, hages⟩, hnext, hchain⟩
    exact ⟨hnonneg, fun hpos next hmem => hnext next hmem hpos, hages, hchain⟩
  · rintro ⟨hnonneg, hnext, hages, hchain⟩
    exact ⟨⟨hnonneg, hages⟩, fun next hmem hpos => hnext hpos next hmem, hchain⟩

/-- The table from a camera on is right, when the camera before had so many hours, exactly if the ages can
be read and the next one is a number unless the hours are zero. -/
theorem timeBasedArray_eq_iff {cams : List CamDef} (h : ∀ cam ∈ cams, cam.maxAge.length ≤ 3) {hours : ℕ}
    (hle : hours ≤ 999) :
    timeBasedArray macLen (hours * 60 * 60 * 1000000) cams = cams.filterMap (ownEntry macLen) ↔
      (0 < hours → ∀ age ∈ (configuredAges cams).head?, (scanU64 age).isSome) ∧ AgesReadable (configuredAges cams) := by
  induction cams generalizing hours with
  | nil => exact iff_of_true rfl ⟨nofun, nofun, List.isChain_nil⟩
  | cons cam cams ih =>
    obtain ⟨hcam, hcams⟩ := List.forall_mem_cons.mp h
    by_cases hconfigured : cam.dispMac ≠ [] ∧ cam.maxAge ≠ []
    · have hages : configuredAges (cam :: cams) = cam.maxAge :: configuredAges cams := by
        rw [configuredAges, List.filter_cons_of_pos (by simpa using hconfigured), List.map_cons, configuredAges]
      rw [hages, List.head?_cons, agesReadable_cons]
      rcases scanU64_short hcam with ⟨hnone, hzero⟩ | ⟨hsome, hlow, hhigh⟩
      · have hentry : ownEntry macLen cam = none := if_neg (by simp [hnone])
        by_cases hhours : hours = 0
        · have hcrt := (crtAfter_of_none hnone hle).mpr hhours
          have hrest := ih hcams (Nat.zero_le 999)
          simp only [Nat.zero_mul] at hrest
          rw [timeBasedArray_cons hconfigured, hcrt, List.filterMap_cons_none hentry]
          simp [hrest, hzero, hhours]
        · have hcrt := Nat.pos_of_ne_zero fun hcrt => hhours ((crtAfter_of_none hnone hle).mp hcrt)
          refine iff_of_false (timeBasedArray_ne_of_extra hcams hconfigured hentry hcrt) fun hread => ?_
          have hfirst := hread.1 (Nat.pos_of_ne_zero hhours) cam.maxAge rfl
          rw [hnone] at hfirst
          cases hfirst
      · have hread : (scanU64 cam.maxAge).isSome := by rw [hsome]; rfl
        by_cases hneg : atoi cam.maxAge < 0
        · have hentry : ownEntry macLen cam = none := if_neg fun howned => absurd howned.2.2 (by omega)
          refine iff_of_false (timeBasedArray_ne_of_extra hcams hconfigured hentry (crtAfter_of_neg hcam hneg _)) ?_
          exact fun hages => absurd hages.2.1 (by omega)
        · have hcrt := crtAfter_of_nonneg hcam hread (by omega) (hours * 60 * 60 * 1000000)
          have hrest := ih hcams (show (atoi cam.maxAge).toNat ≤ 999 by omega)
          rw [timeBasedArray_cons hconfigured, hcrt, List.filterMap_cons]
          by_cases hpos : 0 < atoi cam.maxAge
          · have hentry : ownEntry macLen cam = some ⟨fullPath macLen cam.name cam.dispMac,
                (atoi cam.maxAge).toNat * 60 * 60 * 1000000⟩ := if_pos ⟨hconfigured.1, hread, hpos⟩
            rw [hentry, if_pos (by omega), List.singleton_append, List.cons_inj_right, hrest]
            simp [hread, hpos, hpos.le]
          · have hentry : ownEntry macLen cam = none := if_neg fun howned => hpos howned.2.2
            have hzero : atoi cam.maxAge = 0 := by omega
            rw [hentry, if_neg (by omega), List.nil_append, hrest]
            simp [hread, hzero]
    · have hages : configuredAges (cam :: cams) = configuredAges cams := by
        rw [configuredAges, List.filter_cons_of_neg (by simpa using hconfigured), configuredAges]
      rw [timeBasedArray_cons_of_not hconfigured, List.filterMap_cons_none, ih hcams hle, hages]
      exact if_neg fun howned => hconfigured ⟨howned.1, fun hempty => absurd howned.2.1 (by rw [hempty]; decide)⟩

/-- Every camera has the entry of its own age exactly if no age is negative and every age behind a
positive one is a number. -/
theorem timeBasedArray_own_iff (macLen : ℕ) (cams : List CamDef) (h : ∀ cam ∈ cams, cam.maxAge.length ≤ 3) :
    timeBasedArray macLen 0 cams = cams.filterMap (ownEntry macLen) ↔ AgesReadable (configuredAges cams) := by
  have hiff : timeBasedArray macLen (0 * 60 * 60 * 1000000) cams = _ ↔ _ := timeBasedArray_eq_iff h (Nat.zero_le 999)
  simpa using hiff

/-- A camera with an address and an age. -/
def agedCamera (name maxAge : CString) : CamDef := { (cameraWith "ACCC8E982FEB".toList).init with name, maxAge }

/-- Cameras with two ages and none. -/
theorem timeBasedArray_own_ages :
    let cams := [agedCamera "CAB_________".toList "48".toList, agedCamera "REAR________".toList [],
      agedCamera "FRONT_______".toList "720".toList]
    timeBasedArray 13 0 cams = cams.filterMap (ownEntry 13) := by
  refine (timeBasedArray_own_iff 13 _ ?_).mpr ?_
  · decide
  · decide

/-- A camera whose age is a word is groomed by an age made of that of the camera before. -/
theorem timeBasedArray_not_own : ¬ ∀ (macLen : ℕ) (cams : List CamDef), (∀ cam ∈ cams, cam.maxAge.length ≤ 3) →
    timeBasedArray macLen 0 cams = cams.filterMap (ownEntry macLen) := by
  intro h
  have hown := h 13 [agedCamera "CAB_________".toList "48".toList, agedCamera "REAR________".toList "off".toList] (by decide)
  have hlength := congrArg List.length hown
  exact absurd hlength (by decide)

end RecordingAgent.SpaceMonitor
