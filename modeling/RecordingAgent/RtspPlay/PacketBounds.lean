import RecordingAgent.RtspPlay.Reader

/-!
# The bounds of a packet record

The length in the header of a record counts the header itself. Taking its size off is done with 16 bits,
so a length below 8 comes out as nearly 64 KiB, and nothing compares the outcome with the 8000 bytes there are
for the body, or with what the file still holds.
-/

namespace RecordingAgent.RtspPlay

open Foundation

variable {f : ReadStream} {b : RDBuffer}

/-- The size of `data` in `RD_buffer_t`. -/
def dataAreaSize : ℕ := 8000

/-- The length in the header which comes next, in host byte order. -/
def headerLength (f : ReadStream) : ℕ := beValue (f.remaining.take 2)

/-- The record which comes next is a header with its body: the length covers the header, the body has room in the
data area, and the file has all of it. -/
structure SoundRecord (f : ReadStream) : Prop where
  header_le : rdPacketSize ≤ headerLength f
  body_le : headerLength f ≤ rdPacketSize + dataAreaSize
  present : headerLength f ≤ f.remaining.length

theorem headerLength_lt (f : ReadStream) : headerLength f < 2 ^ 16 := by
  have hle : (f.remaining.take 2).length ≤ 2 := List.length_take_le 2 _
  exact lt_of_lt_of_le (beValue_lt _) ((Nat.pow_le_pow_right (by decide) hle).trans (by decide))

/-- What is requested and returned behind a whole header, and what is read. -/
theorem rdRead_header (b : RDBuffer) (hheader : rdPacketSize ≤ f.remaining.length) :
    (rdRead f b).1 = (headerLength f + 2 ^ 16 - rdPacketSize) % 2 ^ 16 ∧
      (rdRead f b).2.1.length = (rdRead f b).1 ∧
      (rdRead f b).2.1.data = (f.remaining.drop rdPacketSize).take (rdRead f b).1 := by
  have hfull : (f.fread rdPacketSize).1.length = rdPacketSize := by
    rw [ReadStream.fread, List.length_take]
    exact Nat.min_eq_left hheader
  have hfield : (f.fread rdPacketSize).1.take 2 = f.remaining.take 2 := by
    rw [ReadStream.fread, List.take_take]
    rfl
  have hbody : ∀ n, ((f.fread rdPacketSize).2.fread n).1 = (f.remaining.drop rdPacketSize).take n := by
    intro n
    rw [ReadStream.fread, ReadStream.remaining_fread]
  simp only [rdRead, hfull, ne_eq, not_true_eq_false, if_false, hfield, hbody, headerLength, and_self]

/-- The length is what the header says less its size, unless it wraps. -/
theorem requested_eq (f : ReadStream) : (headerLength f + 2 ^ 16 - rdPacketSize) % 2 ^ 16 =
    if rdPacketSize ≤ headerLength f then headerLength f - rdPacketSize
    else headerLength f + (2 ^ 16 - rdPacketSize) := by
  have hlt := headerLength_lt f
  unfold rdPacketSize
  split <;> omega

/-- The body which is requested behind a header has room in the data area, and the length that is returned is the
number of bytes that were read, exactly for a sound record. -/
theorem rdRead_bounded_iff (f : ReadStream) (b : RDBuffer) (hheader : rdPacketSize ≤ f.remaining.length) :
    ((rdRead f b).2.1.length ≤ dataAreaSize ∧ (rdRead f b).1 = (rdRead f b).2.1.data.length) ↔ SoundRecord f := by
  obtain ⟨hreturned, hlength, hdata⟩ := rdRead_header b hheader
  rw [hlength, hdata, List.length_take, List.length_drop, hreturned, requested_eq]
  have hsizes : rdPacketSize = 8 ∧ dataAreaSize = 8000 := ⟨rfl, rfl⟩
  constructor
  · rintro ⟨hroom, hread⟩
    split at hroom
    · rw [if_pos ‹_›] at hread
      exact ⟨‹_›, by omega, by omega⟩
    · omega
  · rintro ⟨hcovers, hroom, hpresent⟩
    rw [if_pos hcovers]
    omega

theorem rdRead_bounded_iff_empty :
    rdPacketSize ≤ (ReadStream.fopen [0, 8, 0, 0, 0, 0, 0, 0]).remaining.length ∧
      (((rdRead (ReadStream.fopen [0, 8, 0, 0, 0, 0, 0, 0]) .zero).2.1.length ≤ dataAreaSize ∧
        (rdRead (ReadStream.fopen [0, 8, 0, 0, 0, 0, 0, 0]) .zero).1 =
          (rdRead (ReadStream.fopen [0, 8, 0, 0, 0, 0, 0, 0]) .zero).2.1.data.length) ↔
        SoundRecord (ReadStream.fopen [0, 8, 0, 0, 0, 0, 0, 0])) :=
  ⟨by decide, rdRead_bounded_iff (ReadStream.fopen [0, 8, 0, 0, 0, 0, 0, 0]) .zero (by decide)⟩

/-- Behind a header of zeros 65528 bytes are requested and returned, of which none is there; behind a sound-looking
length at the end of a file more is returned than was read. -/
theorem rdRead_overruns :
    ¬ (rdRead (ReadStream.fopen [0, 0, 0, 0, 0, 0, 0, 0]) .zero).2.1.length ≤ dataAreaSize ∧
      (rdRead (ReadStream.fopen [0, 0, 0, 0, 0, 0, 0, 0]) .zero).1 = 65528 ∧
      (rdRead (ReadStream.fopen [0, 12, 0, 0, 0, 0, 0, 0, 7]) .zero).1 = 4 ∧
      (rdRead (ReadStream.fopen [0, 12, 0, 0, 0, 0, 0, 0, 7]) .zero).2.1.data = [7] := by
  decide

end RecordingAgent.RtspPlay
