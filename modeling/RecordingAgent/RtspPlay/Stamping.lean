import RecordingAgent.Foundation.ByteOrder
import RecordingAgent.RtspPlay.Session

/-!
# Stamped packets

The handler writes the counters of a track into the header of each packet it has read: the header then has the
sequence number and the timestamp of the counters, in the order of the network.
-/

namespace RecordingAgent.RtspPlay

open Foundation

/-- The track of a packet, told by a bit of its offset. -/
def RDBuffer.track (p : RDBuffer) : ℕ := if p.offset.testBit 31 then 1 else 0

/-- A packet which was read as a whole, with a header up to the timestamp. -/
structure RDBuffer.Whole (p : RDBuffer) : Prop where
  length_eq : p.length = p.data.length
  header : 8 ≤ p.data.length

instance (p : RDBuffer) : Decidable p.Whole :=
  decidable_of_iff (p.length = p.data.length ∧ 8 ≤ p.data.length)
    ⟨fun h => ⟨h.1, h.2⟩, fun h => ⟨h.length_eq, h.header⟩⟩

theorem RDBuffer.track_le (p : RDBuffer) : p.track ≤ 1 := by
  unfold RDBuffer.track
  split <;> omega

/-- The sequence number in the header of a packet. -/
def seqNumber (packet : List UInt8) : ℕ := beValue ((packet.drop 2).take 2)

/-- The timestamp in the header of a packet. -/
def timestamp (packet : List UInt8) : ℕ := beValue ((packet.drop 4).take 4)

/-- The packet which stamping makes of a body. -/
theorem stampPacket_data (client : Client) (speed : ℕ) (t : TrackState) {data : List UInt8} (h : 8 ≤ data.length) :
    (stampPacket client speed t data).2 = data.take 2 ++
      (leBytes 2 (htons (stampPacket client speed t data).1.seqOffset) ++
        (leBytes 4 (ntohl ((stampPacket client speed t data).1.wclockOffset / speed)) ++ data.drop 8)) := by
  generalize hstamped : stampPacket client speed t data = stamped
  have hbytes : stamped.2 = writeAt (writeAt data 4 (leBytes 4 (ntohl (stamped.1.wclockOffset / speed)))) 2
      (leBytes 2 (htons stamped.1.seqOffset)) := by
    rw [← hstamped]
    rfl
  generalize hseq : leBytes 2 (htons stamped.1.seqOffset) = seq at hbytes ⊢
  generalize hts : leBytes 4 (ntohl (stamped.1.wclockOffset / speed)) = ts at hbytes ⊢
  have hseqlen : seq.length = 2 := by rw [← hseq, leBytes_length]
  have htslen : ts.length = 4 := by rw [← hts, leBytes_length]
  have hfits : 2 + seq.length + ts.length ≤ data.length := by omega
  have htwice := writeAt_twice hfits
  rw [hseqlen, htslen] at htwice
  rw [hbytes]
  exact htwice

/-- It is as long as the body. -/
theorem length_stampPacket (client : Client) (speed : ℕ) (t : TrackState) {data : List UInt8} (h : 8 ≤ data.length) :
    (stampPacket client speed t data).2.length = data.length := by
  rw [stampPacket_data client speed t h]
  simp only [List.length_append, List.length_take, List.length_drop, leBytes_length]
  omega

/-- Its sequence number is the counter, as far as it fits. -/
theorem seqNumber_stampPacket (client : Client) (speed : ℕ) (t : TrackState) {data : List UInt8}
    (h : 8 ≤ data.length) : seqNumber (stampPacket client speed t data).2 =
      (stampPacket client speed t data).1.seqOffset % 2 ^ 16 := by
  have hfront : (data.take 2).length = 2 := by rw [List.length_take]; omega
  rw [seqNumber, stampPacket_data client speed t h, List.drop_left' hfront,
    List.take_left' (leBytes_length _ _), htons, beValue_leBytes_beValue]
  norm_num

/-- Its timestamp is the clock over the speed, as far as it fits. -/
theorem timestamp_stampPacket (client : Client) (speed : ℕ) (t : TrackState) {data : List UInt8}
    (h : 8 ≤ data.length) : timestamp (stampPacket client speed t data).2 =
      (stampPacket client speed t data).1.wclockOffset / speed % 2 ^ 32 := by
  have hfront : (data.take 2).length = 2 := by rw [List.length_take]; omega
  rw [timestamp, stampPacket_data client speed t h, ← List.append_assoc,
    List.drop_left' (by rw [List.length_append, hfront, leBytes_length]),
    List.take_left' (leBytes_length _ _), ntohl, beValue_leBytes_beValue]
  norm_num

end RecordingAgent.RtspPlay
