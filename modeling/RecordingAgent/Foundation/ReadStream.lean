import Mathlib.Data.List.Basic
import RecordingAgent.Foundation.Bytes

/-!
# Reading a file through

A stream is the contents of a file and how far they were read. A read returns what is there, up to
the size it asks for, and leaves the rest; a read of what the rest begins with leaves what follows.
-/

namespace Foundation

/-- The bytes of a number, most significant first. -/
def beBytes (n x : ℕ) : List UInt8 := (leBytes n x).reverse

/-- The number with these bytes, most significant first. -/
def beValue (bytes : List UInt8) : ℕ := leValue bytes.reverse

@[simp] theorem beBytes_length (n x : ℕ) : (beBytes n x).length = n := by simp [beBytes]

/-- A number that fits is read back from its bytes. -/
theorem beValue_beBytes {n x : ℕ} (hx : x < 256 ^ n) : beValue (beBytes n x) = x := by
  rw [beValue, beBytes, List.reverse_reverse]
  exact leValue_leBytes hx

/-- So many bytes hold no greater number. -/
theorem beValue_lt (bytes : List UInt8) : beValue bytes < 256 ^ bytes.length := by
  simpa [beValue] using leValue_lt bytes.reverse

/-- A file open for reading. -/
structure ReadStream where
  bytes : List UInt8
  pos : ℕ
  deriving DecidableEq

namespace ReadStream

variable {f : ReadStream} {a z : List UInt8}

/-- A file just opened. -/
def fopen (bytes : List UInt8) : ReadStream where
  bytes := bytes
  pos := 0

/-- What was not read yet. -/
def remaining (f : ReadStream) : List UInt8 := f.bytes.drop f.pos

/-- `rewind`, and `fseek` to the beginning. -/
def rewind (f : ReadStream) : ReadStream := fopen f.bytes

/-- `fread` of one item: the bytes which were read, and the stream behind them. -/
def fread (f : ReadStream) (size : ℕ) : List UInt8 × ReadStream :=
  (f.remaining.take size, { f with pos := f.pos + (f.remaining.take size).length })

/-- What `fgets` reads with room for `size` characters: up to the end of the line, and one character
less than there is room. -/
def fgets (f : ReadStream) (size : ℕ) : List UInt8 × ReadStream :=
  let room := f.remaining.take (size - 1)
  f.fread (((room.findIdx? (· == 10)).map (· + 1)).getD room.length)

/-- A read leaves what follows. -/
theorem remaining_fread (f : ReadStream) (size : ℕ) : (f.fread size).2.remaining = f.remaining.drop size := by
  rw [fread, remaining, remaining, ← List.drop_drop, List.length_take]
  rcases Nat.le_total size (f.bytes.drop f.pos).length with hle | hle
  · rw [Nat.min_eq_left hle]
  · rw [Nat.min_eq_right hle, List.drop_length, List.drop_eq_nil_of_le hle]

/-- A read of what comes next. -/
theorem fread_of_remaining (h : f.remaining = a ++ z) :
    (f.fread a.length).1 = a ∧ (f.fread a.length).2.remaining = z := by
  rw [remaining_fread, h, List.drop_left]
  exact ⟨by rw [fread, h, List.take_left], rfl⟩

end ReadStream

end Foundation
