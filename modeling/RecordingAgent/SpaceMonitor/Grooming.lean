import Mathlib.Algebra.Group.Nat.Defs
import RecordingAgent.Reagent.Config

/-!
# The hardware address of a camera in three programs

The recorder is given the hexadecimal digits of the configured address alone. The space monitor, which grooms the
footage of a camera by age, names the directory by the address as it is configured, cut to a buffer, and the search
for the address of a camera which moved sets a colon before every third character of it. `MAC_LEN` is defined outside
the repository; it is a parameter.
-/

namespace RecordingAgent.SpaceMonitor

open Foundation
open RecordingAgent.Reagent (CamConfig CamDef canonicalMac cameraNameLength padUnderscores)

/-- `time_based_camera_t` -/
structure TimeBasedCamera where
  fullPath : CString
  maxUsec : ℕ
  deriving DecidableEq, Repr

/-- `sscanf(text, "%" SCNu64, &value)` with a single match: blanks, a sign, and digits of at most sixty-four bits. -/
def scanU64 (text : CString) : Option ℕ :=
  let value (digits : CString) (negate : Bool) : Option ℕ :=
    if digits.takeWhile Char.isDigit = [] then none
    else if 2 ^ 64 ≤ decimalValue (digits.takeWhile Char.isDigit) then some (2 ^ 64 - 1)
    else if negate then some ((2 ^ 64 - decimalValue (digits.takeWhile Char.isDigit)) % 2 ^ 64)
    else some (decimalValue (digits.takeWhile Char.isDigit))
  match text.dropWhile Char.isWhitespace with
  | '-' :: rest => value rest true
  | '+' :: rest => value rest false
  | rest => value rest false

/-- The directory of a camera, as far as `snprintf` may write it. The name is copied with the bytes of a buffer for
twelve characters and the terminator. -/
def fullPath (macLen : ℕ) (name dispMac : CString) : CString :=
  (name.take (cameraNameLength + 1) ++ '.' :: dispMac).take (cameraNameLength + macLen)

/-- The cameras that are groomed by age, in the loop of `main` over the configured ones. A text that is not a number
leaves the value of the camera before. -/
def timeBasedArray (macLen : ℕ) : ℕ → List CamDef → List TimeBasedCamera
  | _, [] => []
  | crt, cam :: rest =>
    if cam.dispMac = [] then timeBasedArray macLen crt rest
    else if cam.maxAge = [] then timeBasedArray macLen crt rest
    else
      let crt := (scanU64 cam.maxAge).getD crt * 60 * 60 * 1000000 % 2 ^ 64
      if 0 < crt then ⟨fullPath macLen cam.name cam.dispMac, crt⟩ :: timeBasedArray macLen crt rest
      else timeBasedArray macLen crt rest

/-- The loop of `format_mac`, from an index on. -/
def formatMacFrom : ℕ → CString → CString
  | _, [] => []
  | i, c :: rest => (if i % 2 = 0 ∧ 0 < i then [':', c.toLower] else [c.toLower]) ++ formatMacFrom (i + 1) rest

/-- `MAC_ADD_LENGTH` -/
def macAddLength : ℕ := 18

/-- `format_mac` into the zeroed buffer of `get_ip_address_from_mac`; writing past its end is undefined. -/
def formatMac (macStr : CString) : Option CString :=
  if (formatMacFrom 0 macStr).length < macAddLength then some (formatMacFrom 0 macStr) else none

/-- A hexadecimal digit. -/
def isHexDigit (c : Char) : Bool := ('0' ≤ c && c ≤ '9') || ('A' ≤ c && c ≤ 'F') || ('a' ≤ c && c ≤ 'f')

/-- An address of twelve hexadecimal digits, with colons and dashes anywhere. -/
structure DispMac (dispMac : CString) : Prop where
  digits : (dispMac.filter isHexDigit).length = 12
  separators : ∀ c ∈ dispMac, isHexDigit c = true ∨ c = ':' ∨ c = '-'

/-- Pairs of characters with colons between them. -/
def colonPairs : CString → CString
  | a :: b :: c :: rest => a :: b :: ':' :: colonPairs (c :: rest)
  | text => text

/-- The three programs denote the camera by the same twelve digits. -/
structure MacsAgree (macLen : ℕ) (cam : CamConfig) : Prop where
  grooming : fullPath macLen cam.init.name cam.dispMac = cam.init.name ++ '.' :: canonicalMac cam.dispMac
  arp : formatMac cam.dispMac = some (colonPairs ((canonicalMac cam.dispMac).map Char.toLower))

variable {dispMac name : CString} {macLen : ℕ}

/-- Every camera that is groomed by age is groomed in the directory of its name and address. -/
theorem timeBasedArray_fullPath (crt : ℕ) (cams : List CamDef) :
    ∀ entry ∈ timeBasedArray macLen crt cams, ∃ cam ∈ cams,
      entry.fullPath = fullPath macLen cam.name cam.dispMac := by
  induction cams generalizing crt with
  | nil => simp [timeBasedArray]
  | cons cam rest ih =>
    have hrest : ∀ crt, ∀ entry ∈ timeBasedArray macLen crt rest,
        ∃ cam' ∈ cam :: rest, entry.fullPath = fullPath macLen cam'.name cam'.dispMac := by
      intro crt entry hentry
      obtain ⟨cam', hcam', hpath⟩ := ih crt entry hentry
      exact ⟨cam', List.mem_cons_of_mem cam hcam', hpath⟩
    intro entry hentry
    rw [timeBasedArray] at hentry
    split at hentry
    · exact hrest crt entry hentry
    · split at hentry
      · exact hrest crt entry hentry
      · dsimp only at hentry
        split at hentry
        · rcases List.mem_cons.mp hentry with rfl | hentry
          · exact ⟨cam, List.mem_cons_self, rfl⟩
          · exact hrest _ entry hentry
        · exact hrest _ entry hentry

/-- The canonical address is the digits of a configured one. -/
theorem canonicalMac_of_dispMac (h : DispMac dispMac) : canonicalMac dispMac = dispMac.filter isHexDigit := by
  have hdigits : (dispMac.filter isHexDigit).take 12 = dispMac.filter isHexDigit :=
    List.take_of_length_le (Nat.le_of_eq h.digits)
  have hunfold : canonicalMac dispMac = (dispMac.filter isHexDigit).take 12 ++
      List.replicate (12 - ((dispMac.filter isHexDigit).take 12).length) '0' := rfl
  rw [hunfold, hdigits, h.digits]
  exact List.append_nil _

/-- An address has twelve characters exactly if it has no separators. -/
theorem length_eq_twelve_iff (h : DispMac dispMac) :
    dispMac.length = 12 ↔ ∀ c ∈ dispMac, isHexDigit c = true := by
  rw [← List.filter_eq_self, ← h.digits]
  constructor
  · intro hlength
    exact List.filter_sublist.eq_of_length hlength.symm
  · intro hself
    rw [hself]

/-- From an odd index on, the loop goes on as from the next index with the rest. -/
theorem formatMacFrom_add_two (i : ℕ) (text : CString) :
    formatMacFrom (i + 1 + 2) text = formatMacFrom (i + 1) text := by
  induction text generalizing i with
  | nil => rfl
  | cons c rest ih =>
    have hparity : (i + 1 + 2) % 2 = (i + 1) % 2 := by omega
    rw [formatMacFrom, formatMacFrom, hparity, show i + 1 + 2 + 1 = i + 1 + 1 + 2 by omega, ih (i + 1)]
    simp

/-- The loop puts a colon between the pairs of characters. -/
theorem formatMacFrom_zero (text : CString) : formatMacFrom 0 text = colonPairs (text.map Char.toLower) := by
  induction text using colonPairs.induct with
  | case1 a b c rest ih =>
    have htwo : formatMacFrom 2 (c :: rest) = ':' :: formatMacFrom 0 (c :: rest) := by
      have hnext := formatMacFrom_add_two 0 rest
      simpa [formatMacFrom] using hnext
    rw [List.map_cons, List.map_cons, List.map_cons, colonPairs, ← List.map_cons, ← ih, ← htwo]
    rfl
  | case2 text hshort =>
    match text, hshort with
    | [], _ => rfl
    | [a], _ => rfl
    | [a, b], _ => rfl
    | a :: b :: c :: rest, hshort => exact absurd rfl (hshort a b c rest)

/-- A text of `n` characters gets a colon for every pair but the first. -/
theorem colonPairs_length (text : CString) : (colonPairs text).length = text.length + (text.length - 1) / 2 := by
  induction text using colonPairs.induct with
  | case1 a b c rest ih =>
    rw [colonPairs, List.length_cons, List.length_cons, List.length_cons, ih]
    simp only [List.length_cons]
    omega
  | case2 text hshort =>
    match text, hshort with
    | [], _ => rfl
    | [a], _ => simp [colonPairs]
    | [a, b], _ => simp [colonPairs]
    | a :: b :: c :: rest, hshort => exact absurd rfl (hshort a b c rest)

/-- The address of the kernel's table is found exactly if there are no separators: any other address overruns the
buffer. -/
theorem formatMac_iff (h : DispMac dispMac) :
    formatMac dispMac = some (colonPairs ((canonicalMac dispMac).map Char.toLower)) ↔
      ∀ c ∈ dispMac, isHexDigit c = true := by
  have hlength : (formatMacFrom 0 dispMac).length = dispMac.length + (dispMac.length - 1) / 2 := by
    rw [formatMacFrom_zero, colonPairs_length, List.length_map]
  have hfilter : 12 ≤ dispMac.length := by
    rw [← h.digits]
    exact List.length_filter_le _ _
  rw [← length_eq_twelve_iff h, formatMac, hlength, macAddLength]
  constructor
  · intro hsome
    split at hsome
    · omega
    · cases hsome
  · intro htwelve
    have hself : canonicalMac dispMac = dispMac := by
      rw [canonicalMac_of_dispMac h, List.filter_eq_self]
      exact (length_eq_twelve_iff h).mp htwelve
    rw [if_pos (by omega), formatMacFrom_zero, hself]

/-- A camera has a name of twelve characters. -/
theorem init_name_length (cam : CamConfig) : cam.init.name.length = cameraNameLength := by
  have hlength := cam.name_length
  simp only [CamConfig.init, padUnderscores, List.length_append, List.length_replicate, cameraNameLength]
  omega

/-- Without separators the directory is that of the canonical address exactly if the buffer has room for it. -/
theorem fullPath_iff (hname : name.length = cameraNameLength) (hmac : dispMac.length = 12) :
    fullPath macLen name dispMac = name ++ '.' :: dispMac ↔ 12 < macLen := by
  have hcname : name.take (cameraNameLength + 1) = name := List.take_of_length_le (by omega)
  rw [fullPath, hcname, List.take_eq_self_iff]
  simp only [List.length_append, List.length_cons, hname, hmac, cameraNameLength]
  omega

/-- The programs agree on the address of a camera exactly if it is configured without separators, and `MAC_LEN` has
room for the dot as well. -/
theorem macsAgree_iff (macLen : ℕ) (cam : CamConfig) (hmac : DispMac cam.dispMac) :
    MacsAgree macLen cam ↔ (∀ c ∈ cam.dispMac, isHexDigit c = true) ∧ 12 < macLen := by
  have hpath : (∀ c ∈ cam.dispMac, isHexDigit c = true) →
      (fullPath macLen cam.init.name cam.dispMac = cam.init.name ++ '.' :: canonicalMac cam.dispMac ↔
        12 < macLen) := by
    intro hall
    rw [canonicalMac_of_dispMac hmac, List.filter_eq_self.mpr hall]
    exact fullPath_iff (init_name_length cam) ((length_eq_twelve_iff hmac).mpr hall)
  constructor
  · intro h
    have hall := (formatMac_iff hmac).mp h.arp
    exact ⟨hall, (hpath hall).mp h.grooming⟩
  · rintro ⟨hall, hlen⟩
    exact ⟨(hpath hall).mpr hlen, (formatMac_iff hmac).mpr hall⟩

/-- The name of a camera with an address fits its field. -/
theorem cab_length : (['C', 'A', 'B'] : CString).length ≤ 12 := by decide

/-- A camera with an address. -/
def cameraWith (dispMac : CString) : CamConfig :=
  { CamConfig.empty with
    name := ['C', 'A', 'B']
    dispMac
    name_length := cab_length }

/-- An address of twelve digits can be read off by computing. -/
theorem dispMac_of_all (hdigits : (dispMac.filter isHexDigit).length = 12)
    (hall : dispMac.all fun c => isHexDigit c || c == ':' || c == '-') : DispMac dispMac where
  digits := hdigits
  separators c hc := by simpa [or_assoc] using List.all_eq_true.mp hall c hc

/-- An address without separators. -/
theorem macsAgree_plain : MacsAgree 13 (cameraWith "ACCC8E982FEB".toList) := by
  refine (macsAgree_iff 13 _ ?_).mpr ?_
  · exact dispMac_of_all (by decide) (by decide)
  · exact ⟨List.all_eq_true.mp (by decide), by decide⟩

/-- An address with colons. -/
theorem not_macsAgree_colons :
    DispMac "AC:CC:8E:98:2F:EB".toList ∧ ¬ MacsAgree 13 (cameraWith "AC:CC:8E:98:2F:EB".toList) := by
  constructor
  · exact dispMac_of_all (by decide) (by decide)
  · intro h
    exact absurd h.grooming (by decide)

end RecordingAgent.SpaceMonitor
