import Mathlib.Algebra.Group.Nat.Defs
import Mathlib.Data.List.Basic

/-!
# Bytes at an offset

Writing and reading a run of bytes of a file. A write behind the end fills the gap with zeros,
a read succeeds only as a whole. A write over a middle part replaces it; a read finds exactly
the part that a decomposition of the file puts at its offset.
-/

namespace Foundation

variable {a m z bytes bytes' : List UInt8} {pos size : ℕ}

/-- The bytes after `data` was written at `pos`. -/
def writeAt (bytes : List UInt8) (pos : ℕ) (data : List UInt8) : List UInt8 :=
  bytes.take pos ++ List.replicate (pos - bytes.length) 0 ++ data ++ bytes.drop (pos + data.length)

/-- The `size` bytes from `pos` on, if there are that many. -/
def readAt (bytes : List UInt8) (pos size : ℕ) : Option (List UInt8) :=
  if pos + size ≤ bytes.length then some ((bytes.drop pos).take size) else none

/-- Writing at the end appends. -/
@[simp] theorem writeAt_length (bytes data : List UInt8) :
    writeAt bytes bytes.length data = bytes ++ data := by
  simp [writeAt]

/-- Writing over a part of the same length replaces it. -/
theorem writeAt_middle {data : List UInt8} (hlength : data.length = m.length) :
    writeAt (a ++ m ++ z) a.length data = a ++ data ++ z := by
  have hdrop : (a ++ m ++ z).drop (a.length + data.length) = z := by
    rw [hlength, ← List.length_append]
    exact List.drop_left
  have htake : (a ++ m ++ z).take a.length = a := by
    rw [List.append_assoc]
    exact List.take_left
  rw [writeAt, hdrop, htake]
  simp

/-- A read finds the part which starts at its offset. -/
theorem readAt_middle (a m z : List UInt8) : readAt (a ++ m ++ z) a.length m.length = some m := by
  have hfits : a.length + m.length ≤ (a ++ m ++ z).length := by simp
  rw [readAt, if_pos hfits, List.append_assoc, List.drop_left, List.take_left]

/-- A successful read finds as many bytes as it asked for. -/
theorem readAt_length {data : List UInt8} (h : readAt bytes pos size = some data) :
    data.length = size ∧ pos + size ≤ bytes.length := by
  unfold readAt at h
  split at h
  · rename_i hfits
    obtain rfl := Option.some.inj h
    rw [List.length_take, List.length_drop]
    omega
  · cases h

/-- A read sees only the bytes it reads. -/
theorem readAt_congr {k : ℕ} (hk : k ≤ pos) (hfits : pos + size ≤ bytes.length)
    (hlength : bytes.length ≤ bytes'.length)
    (hsame : ∀ i, k ≤ i → i < bytes.length → bytes'[i]? = bytes[i]?) :
    readAt bytes' pos size = readAt bytes pos size := by
  rw [readAt, readAt, if_pos hfits, if_pos (Nat.le_trans hfits hlength)]
  congr 1
  apply List.ext_getElem?
  intro i
  rw [List.getElem?_take, List.getElem?_take]
  split
  · rw [List.getElem?_drop, List.getElem?_drop]
    exact hsame _ (by omega) (by omega)
  · rfl

/-- A write leaves the bytes behind it alone. -/
theorem writeAt_getElem?_of_le {data : List UInt8} {i : ℕ} (hfits : pos ≤ bytes.length)
    (hi : pos + data.length ≤ i) : (writeAt bytes pos data)[i]? = bytes[i]? := by
  have hlength : (bytes.take pos ++ List.replicate (pos - bytes.length) 0 ++ data).length =
      pos + data.length := by
    simp
    omega
  rw [writeAt, List.getElem?_append_right (by omega), hlength, List.getElem?_drop]
  congr 1
  omega

/-- A write never shortens the file. -/
theorem length_le_writeAt (bytes data : List UInt8) (pos : ℕ) :
    bytes.length ≤ (writeAt bytes pos data).length := by
  simp [writeAt]
  omega

/-- The `n` low bytes of a number, least significant first. -/
def leBytes : ℕ → ℕ → List UInt8
  | 0, _ => []
  | n + 1, x => UInt8.ofNat (x % 256) :: leBytes n (x / 256)

/-- The number with these bytes, least significant first. -/
def leValue (bytes : List UInt8) : ℕ := bytes.foldr (fun b x => b.toNat + 256 * x) 0

@[simp] theorem leBytes_length (n x : ℕ) : (leBytes n x).length = n := by
  induction n generalizing x with
  | zero => rfl
  | succ n ih => simp [leBytes, ih]

/-- A number that fits is read back from its bytes. -/
theorem leValue_leBytes {n x : ℕ} (hx : x < 256 ^ n) : leValue (leBytes n x) = x := by
  induction n generalizing x with
  | zero =>
    obtain rfl : x = 0 := by simpa using hx
    rfl
  | succ n ih =>
    have hrest : x / 256 < 256 ^ n := by
      rw [Nat.div_lt_iff_lt_mul (by decide), ← Nat.pow_succ]
      exact hx
    have hrec := ih hrest
    rw [leValue] at hrec ⊢
    rw [leBytes, List.foldr_cons, hrec, UInt8.toNat_ofNat', Nat.mod_mod]
    exact Nat.mod_add_div x 256

/-- So many bytes hold no greater number. -/
theorem leValue_lt (bytes : List UInt8) : leValue bytes < 256 ^ bytes.length := by
  induction bytes with
  | nil => exact Nat.one_pos
  | cons b bytes ih =>
    have hb := b.toNat_lt
    rw [leValue] at ih ⊢
    rw [List.foldr_cons, List.length_cons, Nat.pow_succ]
    omega

end Foundation
