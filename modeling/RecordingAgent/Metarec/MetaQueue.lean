import RecordingAgent.Foundation.Execution
import RecordingAgent.Foundation.RingBuffer

/-!
# The queue of metadata descriptors

The ring of ten descriptors between the message loop and the recording thread. `meta_q_deq`
hands out a pointer into the ring, which is modelled by the index of the cell; enqueueing
into a full ring does nothing. A well-formed ring refines a queue: the list of its queued
descriptors grows at the end and shrinks at the front.
-/

namespace RecordingAgent.Metarec

open Foundation

/-- What a metadata record describes. -/
inductive MetaDataType
  | gps
  | timeInfo
  | videoEvent
  | locomotiveId
  deriving DecidableEq, Repr

/-- A reading of the monotonic clock. -/
structure Timespec where
  tvSec : ℕ
  tvNsec : ℕ
  deriving DecidableEq, Repr

/-- A metadata record: its kind, the wall-clock seconds and monotonic time at which it was
taken, and its payload, whose length fits the 16 bits of `data_length`. -/
structure Record where
  dataType : MetaDataType
  tod : ℕ
  ts : Timespec
  payload : List UInt8
  length_lt : payload.length < 2 ^ 16
  deriving DecidableEq, Repr

/-- A queued descriptor. Its payload pointer is the number of the allocation it came from. -/
structure MetadataDesc where
  pData : ℕ
  dataType : MetaDataType
  dataLength : ℕ
  tod : ℕ
  ts : Timespec
  deriving DecidableEq, Repr

/-- The descriptor of a record whose payload was copied to an allocation. -/
def Record.desc (r : Record) (pData : ℕ) : MetadataDesc where
  pData
  dataType := r.dataType
  dataLength := r.payload.length
  tod := r.tod
  ts := r.ts

/-- `METADATA_DESC_QUEUE_SIZE`. -/
def metadataDescQueueSize : ℕ := 10

/-- The ring of descriptors, without its mutex and condition variables. -/
structure MetaDescQ where
  buf : ℕ → MetadataDesc
  head : ℕ
  tail : ℕ
  full : Bool
  empty : Bool

/-- The zeroed ring after `meta_q_init`. -/
def metaQInit : MetaDescQ where
  buf := fun _ => ⟨0, .gps, 0, 0, ⟨0, 0⟩⟩
  head := 0
  tail := 0
  full := false
  empty := true

/-- Append a descriptor, unless the ring is full. -/
def metaQEnq (q : MetaDescQ) (d : MetadataDesc) : MetaDescQ :=
  if q.full then q
  else
    let tail := advance metadataDescQueueSize q.tail
    { q with
      buf := Function.update q.buf q.tail d
      tail
      full := tail == q.head
      empty := false }

/-- Drop the oldest descriptor; the result points to the cell in which it still is. -/
def metaQDeq (q : MetaDescQ) : Option ℕ × MetaDescQ :=
  if q.empty then (none, q)
  else
    let head := advance metadataDescQueueSize q.head
    (some q.head, { q with head, empty := head == q.tail, full := false })

namespace MetaDescQ

variable {q : MetaDescQ} {size : ℕ} {d : MetadataDesc}

/-- The indices and flags of a ring which holds `size` descriptors. -/
structure WellFormed (q : MetaDescQ) (size : ℕ) : Prop where
  bound : size ≤ metadataDescQueueSize
  head : q.head < metadataDescQueueSize
  tail : q.tail = (q.head + size) % metadataDescQueueSize
  full : q.full = decide (size = metadataDescQueueSize)
  empty : q.empty = decide (size = 0)

/-- The queued descriptors, oldest first. -/
def queued (q : MetaDescQ) (size : ℕ) : List MetadataDesc :=
  window metadataDescQueueSize q.buf q.head size

/-- The initial ring holds nothing. -/
theorem wellFormed_init : metaQInit.WellFormed 0 where
  bound := Nat.zero_le _
  head := Nat.zero_lt_succ _
  tail := rfl
  full := rfl
  empty := rfl

/-- Indices that differ by fewer steps than a lap coincide only without any step. -/
private theorem lap_eq_iff {head size : ℕ} (hhead : head < metadataDescQueueSize)
    (hsize : size ≤ metadataDescQueueSize) (hpos : 0 < size) :
    ((head + size) % metadataDescQueueSize = head) ↔ size = metadataDescQueueSize := by
  constructor
  · intro hlap
    by_contra hne
    have hcell := @cell_ne metadataDescQueueSize head _ _ hpos (by omega)
    rw [Nat.add_zero, Nat.mod_eq_of_lt hhead] at hcell
    exact hcell hlap.symm
  · rintro rfl
    rw [Nat.add_mod_right, Nat.mod_eq_of_lt hhead]

/-- Enqueueing into a ring with room appends the descriptor. -/
theorem WellFormed.enq (h : q.WellFormed size) (hroom : q.full = false) (d : MetadataDesc) :
    (metaQEnq q d).WellFormed (size + 1) ∧
      (metaQEnq q d).queued (size + 1) = q.queued size ++ [d] := by
  have hsize : size ≠ metadataDescQueueSize := by simpa [h.full] using hroom
  have hlt : size < metadataDescQueueSize := lt_of_le_of_ne h.bound hsize
  have htail : q.tail < metadataDescQueueSize := by
    rw [h.tail]
    exact Nat.mod_lt _ (Nat.zero_lt_succ _)
  have hnext : advance metadataDescQueueSize q.tail =
      (q.head + (size + 1)) % metadataDescQueueSize := by
    rw [advance_eq_mod htail, h.tail, Nat.mod_add_mod, Nat.add_assoc]
  rw [metaQEnq, hroom]
  refine ⟨⟨hlt, h.head, hnext, ?_, by simp⟩, ?_⟩
  · change (advance metadataDescQueueSize q.tail == q.head) = _
    rw [hnext, Bool.eq_iff_iff, beq_iff_eq, decide_eq_true_iff]
    exact lap_eq_iff h.head hlt (Nat.succ_pos size)
  · change window _ (Function.update q.buf q.tail d) q.head (size + 1) = _
    rw [h.tail]
    exact window_push d hlt

/-- Dequeueing from an empty ring finds nothing. -/
theorem deq_of_empty (hempty : q.empty = true) : metaQDeq q = (none, q) := by
  rw [metaQDeq, if_pos hempty]

/-- A ring which is not empty holds an oldest descriptor. -/
theorem WellFormed.exists_succ (h : q.WellFormed size) (hdata : q.empty = false) :
    ∃ rest, size = rest + 1 :=
  Nat.exists_eq_succ_of_ne_zero (by simpa [h.empty] using hdata)

/-- Dequeueing points to the oldest descriptor and leaves the others queued. -/
theorem WellFormed.deq (h : q.WellFormed (size + 1)) :
    (metaQDeq q).1 = some q.head ∧ (metaQDeq q).2.WellFormed size ∧
      q.queued (size + 1) = q.buf q.head :: (metaQDeq q).2.queued size := by
  have hdata : q.empty = false := by simp [h.empty]
  have hbound := h.bound
  have htail : q.tail =
      (advance metadataDescQueueSize q.head + size) % metadataDescQueueSize := by
    rw [advance_eq_mod h.head, Nat.mod_add_mod, h.tail, Nat.add_right_comm, Nat.add_assoc]
  rw [metaQDeq, hdata]
  refine ⟨rfl, ⟨by omega, advance_lt h.head, htail, ?_, ?_⟩, window_succ h.head⟩
  · have hne : size ≠ metadataDescQueueSize := by omega
    simp [hne]
  · change (advance metadataDescQueueSize q.head == q.tail) = _
    rw [htail, Bool.eq_iff_iff, beq_iff_eq, decide_eq_true_iff]
    rcases Nat.eq_zero_or_pos size with rfl | hpos
    · simpa using (Nat.mod_eq_of_lt (advance_lt h.head)).symm
    · have hlap := lap_eq_iff (advance_lt h.head) (by omega) hpos
      constructor
      · intro heq
        have := hlap.mp heq.symm
        omega
      · intro hzero
        omega

/-- Enqueueing writes no cell but the one at the tail. -/
theorem enq_buf_of_ne {i : ℕ} (hi : i ≠ q.tail) (d : MetadataDesc) :
    (metaQEnq q d).buf i = q.buf i := by
  unfold metaQEnq
  split
  · rfl
  · exact Function.update_of_ne hi _ _

/-- Dequeueing leaves the cells as they are. -/
@[simp] theorem deq_buf (q : MetaDescQ) : (metaQDeq q).2.buf = q.buf := by
  unfold metaQDeq
  split <;> rfl

/-- A call of one of the two operations on the ring. -/
inductive Call
  | enq (d : MetadataDesc)
  | deq

/-- What a call on the ring returns, with what a returned pointer points to, and the ring after it. -/
def call (q : MetaDescQ) : Call → Option MetadataDesc × MetaDescQ
  | .enq d => (none, metaQEnq q d)
  | .deq => ((metaQDeq q).1.map q.buf, (metaQDeq q).2)

/-- What a call on a bounded queue returns, and the queue after it. -/
def fifoCall (l : List MetadataDesc) : Call → Option MetadataDesc × List MetadataDesc
  | .enq d => (none, if l.length < metadataDescQueueSize then l ++ [d] else l)
  | .deq => (l.head?, l.tail)

/-- The ring holds these descriptors, oldest first. -/
def Represents (q : MetaDescQ) (l : List MetadataDesc) : Prop :=
  q.WellFormed l.length ∧ q.queued l.length = l

/-- A call on a ring does what it does on the queue that the ring holds. -/
theorem Represents.call {l : List MetadataDesc} (h : q.Represents l) (c : Call) :
    (q.call c).1 = (fifoCall l c).1 ∧ (q.call c).2.Represents (fifoCall l c).2 := by
  obtain ⟨hwf, hqueued⟩ := h
  cases c with
  | enq d =>
    refine ⟨rfl, ?_⟩
    cases hfull : q.full with
    | true =>
      have hlength : l.length = metadataDescQueueSize := by simpa [hwf.full] using hfull
      have hsame : metaQEnq q d = q := by rw [metaQEnq, if_pos hfull]
      simp only [MetaDescQ.call, fifoCall, hsame, hlength, Nat.lt_irrefl, if_false]
      exact ⟨hwf, hqueued⟩
    | false =>
      have hne : l.length ≠ metadataDescQueueSize := by simpa [hwf.full] using hfull
      have hlt : l.length < metadataDescQueueSize := lt_of_le_of_ne hwf.bound hne
      obtain ⟨hwf', hqueued'⟩ := hwf.enq hfull d
      simp only [MetaDescQ.call, fifoCall, if_pos hlt, Represents, List.length_append, List.length_singleton]
      rw [hqueued] at hqueued'
      exact ⟨hwf', hqueued'⟩
  | deq =>
    cases l with
    | nil =>
      have hempty : q.empty = true := by rw [hwf.empty]; rfl
      simp only [MetaDescQ.call, fifoCall, deq_of_empty hempty]
      exact ⟨rfl, hwf, hqueued⟩
    | cons d rest =>
      obtain ⟨hcell, hwf', hqueued'⟩ := WellFormed.deq hwf
      rw [List.length_cons, hqueued'] at hqueued
      obtain ⟨hhead, hrest⟩ := List.cons.inj hqueued
      simp only [MetaDescQ.call, fifoCall, hcell, Option.map_some, hhead]
      exact ⟨rfl, hwf', hrest⟩

/-- After any sequence of calls the ring holds what the calls leave in a bounded queue: the next call
returns the same on both, the flags tell whether the queue is at capacity or empty, and both indices
are inside the buffer. -/
theorem run_represents (buf : ℕ → MetadataDesc) (calls : List Call) :
    let q := run (fun q c => (call q c).2) { metaQInit with buf } calls
    let l := run (fun l c => (fifoCall l c).2) [] calls
    l.length ≤ metadataDescQueueSize ∧ (∀ c, (q.call c).1 = (fifoCall l c).1) ∧
      (q.full = true ↔ l.length = metadataDescQueueSize) ∧ (q.empty = true ↔ l = []) ∧
      q.head < metadataDescQueueSize ∧ q.tail < metadataDescQueueSize := by
  have hrun : ∀ (q : MetaDescQ) (l : List MetadataDesc), q.Represents l →
      (run (fun q c => (call q c).2) q calls).Represents (run (fun l c => (fifoCall l c).2) l calls) := by
    induction calls with
    | nil => exact fun q l h => h
    | cons c calls ih => exact fun q l h => ih _ _ (h.call c).2
  intro q l
  have h : q.Represents l := hrun _ _ ⟨⟨Nat.zero_le _, Nat.zero_lt_succ _, rfl, rfl, rfl⟩, rfl⟩
  refine ⟨h.1.bound, fun c => (h.call c).1, ?_, ?_, h.1.head, ?_⟩
  · rw [h.1.full, decide_eq_true_iff]
  · rw [h.1.empty, decide_eq_true_iff, List.length_eq_zero_iff]
  · rw [h.1.tail]
    exact Nat.mod_lt _ (Nat.zero_lt_succ _)

end MetaDescQ

end RecordingAgent.Metarec
