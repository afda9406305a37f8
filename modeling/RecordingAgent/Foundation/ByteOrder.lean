import RecordingAgent.Foundation.ReadStream

/-!
# Exchanging the order of bytes

Writing a number in one order of its bytes and reading it in the other one exchanges the bytes. Doing so twice
gives the number back, as far as it fits.
-/

namespace Foundation

/-- The bytes are those of their value. -/
theorem leBytes_leValue (bytes : List UInt8) : leBytes bytes.length (leValue bytes) = bytes := by
  induction bytes with
  | nil => rfl
  | cons b bytes ih =>
    have hb := b.toNat_lt
    have hvalue : leValue (b :: bytes) = b.toNat + 256 * leValue bytes := rfl
    have hlow : (b.toNat + 256 * leValue bytes) % 256 = b.toNat := by omega
    have hhigh : (b.toNat + 256 * leValue bytes) / 256 = leValue bytes := by omega
    rw [List.length_cons, leBytes, hvalue, hlow, hhigh, ih, UInt8.ofNat_toNat]

/-- What fits is read back. -/
theorem leValue_leBytes_mod (n x : ℕ) : leValue (leBytes n x) = x % 256 ^ n := by
  induction n generalizing x with
  | zero => rw [pow_zero, Nat.mod_one]; rfl
  | succ n ih =>
    have hstep : leValue (leBytes (n + 1) x) = (UInt8.ofNat (x % 256)).toNat + 256 * leValue (leBytes n (x / 256)) := rfl
    rw [hstep, ih, UInt8.toNat_ofNat', Nat.mod_mod, pow_succ', Nat.mod_mul]

/-- Exchanging the bytes twice gives back what fits. -/
theorem beValue_leBytes_beValue (n x : ℕ) : beValue (leBytes n (beValue (leBytes n x))) = x % 256 ^ n := by
  have hlength : (leBytes n x).reverse.length = n := by rw [List.length_reverse, leBytes_length]
  have hbytes := leBytes_leValue (leBytes n x).reverse
  rw [hlength] at hbytes
  rw [beValue, beValue, hbytes, List.reverse_reverse, leValue_leBytes_mod]

/-- The value in one order is the exchanged value in the other order. -/
theorem beValue_eq_exchange (bytes : List UInt8) : beValue bytes = beValue (leBytes bytes.length (leValue bytes)) := by
  rw [leBytes_leValue]

/-- Two runs of bytes which are written over bytes one behind the other. -/
theorem writeAt_twice {bytes first second : List UInt8} {pos : ℕ}
    (hfits : pos + first.length + second.length ≤ bytes.length) :
    writeAt (writeAt bytes (pos + first.length) second) pos first =
      bytes.take pos ++ (first ++ (second ++ bytes.drop (pos + first.length + second.length))) := by
  have hinner : writeAt bytes (pos + first.length) second =
      bytes.take (pos + first.length) ++ second ++ bytes.drop (pos + first.length + second.length) := by
    have hgap : pos + first.length - bytes.length = 0 := by omega
    rw [writeAt, hgap, List.replicate_zero, List.append_nil]
  have hlength : (bytes.take (pos + first.length)).length = pos + first.length := by
    rw [List.length_take]
    omega
  have hgap : pos - (bytes.take (pos + first.length) ++ second ++
      bytes.drop (pos + first.length + second.length)).length = 0 := by
    simp only [List.length_append, hlength]
    omega
  rw [hinner, writeAt, hgap, List.replicate_zero, List.append_nil]
  have htake : (bytes.take (pos + first.length) ++ second ++
      bytes.drop (pos + first.length + second.length)).take pos = bytes.take pos := by
    rw [List.append_assoc, List.take_append_of_le_length (by omega), List.take_take, Nat.min_eq_left (by omega)]
  have hdrop : (bytes.take (pos + first.length) ++ second ++
      bytes.drop (pos + first.length + second.length)).drop (pos + first.length) =
        second ++ bytes.drop (pos + first.length + second.length) := by
    rw [List.append_assoc, List.drop_left' hlength]
  rw [htake, hdrop, List.append_assoc]

end Foundation
