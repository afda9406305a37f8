import Mathlib.Data.List.Nodup
import RecordingAgent.Foundation.Execution
import RecordingAgent.Metarec.MetaQueue

/-!
# Handing records to the recording thread

The message loop enqueues records and the recording thread obtains them, each one atomic
step at a time: both take the queue's mutex, but the thread tests for emptiness before it
locks and copies the descriptor out of the ring after it has unlocked. The two waits may end
by a signal, spuriously or by their timeout, so a wake-up needs no cause here.

A thread which has yet to copy its descriptor reads whatever the ring then holds in that
cell. The hand-off is exact as long as no record is enqueued into that cell, or into a ring
that is still full after a wait.
-/

namespace RecordingAgent.Metarec

open Foundation

/-- The two threads which share the queue. -/
inductive Party
  | producer
  | consumer
  deriving DecidableEq, Repr

/-- Where the message loop is in `enq_metadata_descriptor`. -/
inductive ProducerPc
  | idle
  | locking (r : Record)
  | waitingForRoom (r : Record)
  | blocked (r : Record)
  | copying (r : Record)
  | enqueueing (r : Record) (pData : ℕ)
  | unlocking
  deriving DecidableEq, Repr

/-- Where the recording thread is in `get_metadata_descriptor`, or in the use of its result. -/
inductive ConsumerPc
  | idle
  | locking
  | waitingForData
  | blocked
  | dequeueing
  | unlocking (cell : Option ℕ)
  | copying (cell : ℕ)
  | recording (d : MetadataDesc)
  deriving DecidableEq, Repr

/-- A descriptor with what its payload pointer points to; nothing, if that was freed. -/
structure Delivery where
  desc : MetadataDesc
  payload : Option (List UInt8)
  deriving DecidableEq, Repr

/-- The queue, its mutex, the payload allocations and both threads, with the records that
were accepted, obtained and freed so far. -/
structure HandOff where
  queue : MetaDescQ
  owner : Option Party
  heap : ℕ → Option (List UInt8)
  mallocs : ℕ
  producer : ProducerPc
  consumer : ConsumerPc
  accepted : List Delivery
  obtained : List Delivery
  freed : List ℕ

/-- One atomic step of either thread. -/
inductive Action
  /-- The message loop calls `enq_metadata_descriptor`. -/
  | post (r : Record)
  /-- The message loop takes its next step. -/
  | produce
  /-- The wait for room ends, by a signal or spuriously, or by its timeout. -/
  | producerWakes (timedOut : Bool)
  /-- The recording thread takes its next step. -/
  | consume
  /-- The wait for data ends, by a signal or spuriously, or by its timeout. -/
  | consumerWakes (timedOut : Bool)
  deriving DecidableEq, Repr

namespace HandOff

/-- Both threads at rest over an empty queue. -/
def start : HandOff where
  queue := metaQInit
  owner := none
  heap := fun _ => none
  mallocs := 0
  producer := .idle
  consumer := .idle
  accepted := []
  obtained := []
  freed := []

/-- `pthread_mutex_lock`, which keeps its caller where it is while the mutex is taken. -/
def lock (s : HandOff) (p : Party) (next : HandOff) : HandOff :=
  if s.owner = none then { next with owner := some p } else s

/-- `enq_metadata_descriptor`, from its next atomic step on. -/
def produce (s : HandOff) : HandOff :=
  match s.producer with
  | .idle => s
  | .locking r => s.lock .producer { s with producer := .waitingForRoom r }
  | .waitingForRoom r =>
    if s.queue.full then { s with producer := .blocked r, owner := none }
    else { s with producer := .copying r }
  | .blocked _ => s
  | .copying r =>
    { s with
      heap := Function.update s.heap s.mallocs (some r.payload)
      mallocs := s.mallocs + 1
      producer := .enqueueing r s.mallocs }
  | .enqueueing r p =>
    -- the caller is told that the record is queued even if the ring had no room
    { s with
      queue := metaQEnq s.queue (r.desc p)
      accepted := s.accepted ++ [⟨r.desc p, some r.payload⟩]
      producer := .unlocking }
  | .unlocking => { s with producer := .idle, owner := none }

/-- `get_metadata_descriptor` and the use of its result, from its next atomic step on. -/
def consume (s : HandOff) : HandOff :=
  match s.consumer with
  | .idle => if s.queue.empty then s else { s with consumer := .locking }
  | .locking => s.lock .consumer { s with consumer := .waitingForData }
  | .waitingForData =>
    if s.queue.empty then { s with consumer := .blocked, owner := none }
    else { s with consumer := .dequeueing }
  | .blocked => s
  | .dequeueing =>
    { s with queue := (metaQDeq s.queue).2, consumer := .unlocking (metaQDeq s.queue).1 }
  | .unlocking none => { s with consumer := .idle, owner := none }
  | .unlocking (some cell) => { s with consumer := .copying cell, owner := none }
  | .copying cell =>
    let d := s.queue.buf cell
    { s with obtained := s.obtained ++ [⟨d, s.heap d.pData⟩], consumer := .recording d }
  | .recording d =>
    { s with
      heap := Function.update s.heap d.pData none
      freed := s.freed ++ [d.pData]
      consumer := .idle }

/-- One atomic step; a thread that cannot take it stays where it is. -/
def step (s : HandOff) : Action → HandOff
  | .post r =>
    match s.producer with
    | .idle => { s with producer := .locking r }
    | _ => s
  | .produce => s.produce
  | .producerWakes timedOut =>
    match s.producer with
    | .blocked r => s.lock .producer { s with producer := if timedOut then .unlocking else .copying r }
    | _ => s
  | .consume => s.consume
  | .consumerWakes timedOut =>
    match s.consumer with
    | .blocked =>
      s.lock .consumer { s with consumer := if timedOut then .unlocking none else .dequeueing }
    | _ => s

/-- The cell whose descriptor the recording thread has dequeued but not copied yet. -/
def uncopied (s : HandOff) : Option ℕ :=
  match s.consumer with
  | .unlocking cell => cell
  | .copying cell => some cell
  | _ => none

/-- The descriptor which the recording thread uses and will free. -/
def inUse (s : HandOff) : List MetadataDesc :=
  match s.consumer with
  | .recording d => [d]
  | _ => []

/-- The step does not enqueue into a full ring, nor into the cell still to be copied. -/
def EnqueuesSafely (s : HandOff) (a : Action) : Prop :=
  match a, s.producer with
  | .produce, .enqueueing _ _ => s.queue.full = false ∧ s.uncopied ≠ some s.queue.tail
  | _, _ => True

instance (s : HandOff) (a : Action) : Decidable (s.EnqueuesSafely a) := by
  unfold EnqueuesSafely; split <;> infer_instance

/-- Nothing is queued and the recording thread holds no descriptor it has yet to copy. -/
def Drained (s : HandOff) : Prop := s.queue.empty = true ∧ s.uncopied = none

/-- What was obtained is what was accepted, in order, and no allocation was handed out twice. -/
structure Exact (s : HandOff) : Prop where
  inOrder : s.obtained <+: s.accepted
  complete : s.Drained → s.obtained = s.accepted
  once : (s.obtained.map (·.desc.pData)).Nodup
  freedOnce : s.freed.Nodup

/-- The descriptors which were accepted and not obtained yet: the one to be copied, then the
queued ones. -/
def outstanding (s : HandOff) (size : ℕ) : List MetadataDesc :=
  s.uncopied.toList.map s.queue.buf ++ s.queue.queued size

/-- A descriptor as the recording thread would find it now. -/
def deliver (s : HandOff) (d : MetadataDesc) : Delivery := ⟨d, s.heap d.pData⟩

/-- Every accepted record is obtained, about to be copied, or queued, with its payload in an
allocation of its own which is freed only after the record was obtained. -/
structure Accounted (s : HandOff) (size : ℕ) : Prop where
  wellFormed : s.queue.WellFormed size
  ledger : s.accepted = s.obtained ++ (s.outstanding size).map s.deliver
  allocated : ∀ e ∈ s.accepted, e.desc.pData < s.mallocs
  distinct : (s.accepted.map (·.desc.pData)).Nodup
  copied : ∀ r p, s.producer = .enqueueing r p →
    s.heap p = some r.payload ∧ p < s.mallocs ∧ ∀ e ∈ s.accepted, e.desc.pData ≠ p
  used : s.obtained.map (·.desc.pData) = s.freed ++ s.inUse.map (·.pData)

theorem accounted_start : start.Accounted 0 where
  wellFormed := MetaDescQ.wellFormed_init
  ledger := rfl
  allocated := by simp [start]
  distinct := List.nodup_nil
  copied := by simp [start]
  used := rfl

namespace Accounted

variable {s t : HandOff} {size : ℕ}

/-- A step which moves only a program counter and the mutex keeps the accounts. -/
theorem of_same (h : s.Accounted size) (hqueue : t.queue = s.queue) (hheap : t.heap = s.heap)
    (hmallocs : t.mallocs = s.mallocs)
    (hlogs : t.accepted = s.accepted ∧ t.obtained = s.obtained ∧ t.freed = s.freed)
    (hconsumer : t.uncopied = s.uncopied ∧ t.inUse = s.inUse)
    (hproducer : t.producer = s.producer ∨ ∀ r p, t.producer ≠ .enqueueing r p) :
    t.Accounted size := by
  obtain ⟨haccepted, hobtained, hfreed⟩ := hlogs
  obtain ⟨huncopied, hinUse⟩ := hconsumer
  have hdeliver : t.deliver = s.deliver := by
    funext d
    simp only [deliver, hheap]
  constructor
  · rw [hqueue]
    exact h.wellFormed
  · simp only [haccepted, hobtained, outstanding, huncopied, hqueue, hdeliver]
    exact h.ledger
  · rw [haccepted, hmallocs]
    exact h.allocated
  · rw [haccepted]
    exact h.distinct
  · intro r p hpc
    cases hproducer with
    | inl hsame =>
      rw [hheap, hmallocs, haccepted]
      exact h.copied r p (hsame ▸ hpc)
    | inr hnot => exact absurd hpc (hnot r p)
  · rw [hobtained, hfreed, hinUse]
    exact h.used

/-- An outstanding descriptor was accepted. -/
theorem deliver_mem (h : s.Accounted size) {d : MetadataDesc} (hd : d ∈ s.outstanding size) :
    s.deliver d ∈ s.accepted := by
  rw [h.ledger]
  exact List.mem_append_right _ (List.mem_map_of_mem hd)

/-- A change of the heap outside the outstanding payloads keeps what would be delivered. -/
theorem map_deliver_update (size : ℕ) (p : ℕ) (v : Option (List UInt8)) (ht : t.heap = Function.update s.heap p v)
    (hp : ∀ d ∈ s.outstanding size, d.pData ≠ p) :
    (s.outstanding size).map t.deliver = (s.outstanding size).map s.deliver := by
  apply List.map_congr_left
  intro d hd
  rw [deliver, deliver, ht, Function.update_of_ne (hp d hd)]

/-- Copying a payload uses an allocation which no accepted record has. -/
theorem copy (h : s.Accounted size) (r : Record) :
    HandOff.Accounted { s with
      heap := Function.update s.heap s.mallocs (some r.payload)
      mallocs := s.mallocs + 1
      producer := .enqueueing r s.mallocs } size where
  wellFormed := h.wellFormed
  ledger := by
    have hsame := map_deliver_update size (s := s) (t := { s with
      heap := Function.update s.heap s.mallocs (some r.payload)
      mallocs := s.mallocs + 1
      producer := .enqueueing r s.mallocs }) s.mallocs _ rfl
      fun d hd => (h.allocated _ (h.deliver_mem hd)).ne
    exact h.ledger.trans (congrArg (s.obtained ++ ·) hsame.symm)
  allocated e he := Nat.lt_succ_of_lt (h.allocated e he)
  distinct := h.distinct
  copied := by
    intro r' p hpc
    obtain ⟨rfl, rfl⟩ : r = r' ∧ s.mallocs = p := by simpa using hpc
    exact ⟨Function.update_self .., Nat.lt_succ_self _, fun e he => (h.allocated e he).ne⟩
  used := h.used

/-- A safe enqueueing step accepts the record at the end of the queue. -/
theorem enqueue (h : s.Accounted size) {r : Record} {p : ℕ} (hpc : s.producer = .enqueueing r p)
    (hroom : s.queue.full = false) (hcell : s.uncopied ≠ some s.queue.tail) :
    HandOff.Accounted { s with
      queue := metaQEnq s.queue (r.desc p)
      accepted := s.accepted ++ [⟨r.desc p, some r.payload⟩]
      producer := .unlocking } (size + 1) := by
  obtain ⟨hwf, hqueued⟩ := h.wellFormed.enq hroom (r.desc p)
  obtain ⟨hheap, hlt, hfresh⟩ := h.copied r p hpc
  have huncopied : s.uncopied.toList.map (metaQEnq s.queue (r.desc p)).buf =
      s.uncopied.toList.map s.queue.buf := by
    apply List.map_congr_left
    intro cell hmem
    apply MetaDescQ.enq_buf_of_ne
    rintro rfl
    exact hcell (Option.mem_toList.mp hmem)
  constructor
  · exact hwf
  · change s.accepted ++ _ = s.obtained ++ (s.uncopied.toList.map _ ++ _).map s.deliver
    rw [huncopied, hqueued, ← List.append_assoc, List.map_append, ← List.append_assoc, h.ledger]
    have hdeliver : s.deliver (r.desc p) = ⟨r.desc p, some r.payload⟩ := by
      rw [deliver]
      exact congrArg _ hheap
    rw [List.map_singleton, hdeliver]
    rfl
  · intro e he
    cases List.mem_append.mp he with
    | inl hmem => exact h.allocated e hmem
    | inr hlast =>
      rw [List.mem_singleton.mp hlast]
      exact hlt
  · rw [List.map_append]
    apply List.Nodup.append h.distinct (List.nodup_singleton _)
    intro q hq hlast
    obtain ⟨e, he, rfl⟩ := List.mem_map.mp hq
    exact hfresh e he (List.mem_singleton.mp hlast)
  · intro r' p' hpc'
    cases hpc'
  · exact h.used

/-- Dequeueing moves the oldest queued descriptor to the one to be copied. -/
theorem dequeue (h : s.Accounted size) (hpc : s.consumer = .dequeueing) :
    ∃ size', HandOff.Accounted
      { s with queue := (metaQDeq s.queue).2, consumer := .unlocking (metaQDeq s.queue).1 } size' := by
  have hnone : s.uncopied = none := by rw [uncopied, hpc]
  have hnoUse : s.inUse = [] := by rw [inUse, hpc]
  cases hempty : s.queue.empty with
  | true =>
    rw [MetaDescQ.deq_of_empty hempty]
    exact ⟨size, h.of_same rfl rfl rfl ⟨rfl, rfl, rfl⟩ ⟨hnone.symm, hnoUse.symm⟩ (.inl rfl)⟩
  | false =>
    obtain ⟨rest, rfl⟩ := h.wellFormed.exists_succ hempty
    obtain ⟨hcell, hwf, hqueued⟩ := h.wellFormed.deq
    refine ⟨rest, hwf, ?_, h.allocated, h.distinct, h.copied, ?_⟩
    · rw [h.ledger, outstanding, hnone, hqueued]
      simp only [outstanding, uncopied, hcell, MetaDescQ.deq_buf]
      rfl
    · rw [h.used, hnoUse]
      rfl

/-- Copying the descriptor obtains the oldest outstanding record. -/
theorem obtain (h : s.Accounted size) {cell : ℕ} (hpc : s.consumer = .copying cell) :
    HandOff.Accounted { s with
      obtained := s.obtained ++ [⟨s.queue.buf cell, s.heap (s.queue.buf cell).pData⟩]
      consumer := .recording (s.queue.buf cell) } size := by
  have hsome : s.uncopied = some cell := by rw [uncopied, hpc]
  have hnoUse : s.inUse = [] := by rw [inUse, hpc]
  refine ⟨h.wellFormed, ?_, h.allocated, h.distinct, h.copied, ?_⟩
  · rw [h.ledger, outstanding, hsome]
    simp only [outstanding, uncopied, List.append_assoc]
    rfl
  · rw [List.map_append, h.used, hnoUse, List.map_nil, List.append_nil]
    rfl

/-- Freeing the payload of the last obtained record touches no outstanding one. -/
theorem free (h : s.Accounted size) {d : MetadataDesc} (hpc : s.consumer = .recording d) :
    HandOff.Accounted { s with
      heap := Function.update s.heap d.pData none
      freed := s.freed ++ [d.pData]
      consumer := .idle } size := by
  have hnone : s.uncopied = none := by rw [uncopied, hpc]
  have hinUse : s.inUse = [d] := by rw [inUse, hpc]
  have hobtained : d.pData ∈ s.obtained.map (·.desc.pData) := by simp [h.used, hinUse]
  have hapart : ∀ e ∈ s.outstanding size, e.pData ≠ d.pData := by
    intro e he heq
    have hnodup := h.distinct
    rw [h.ledger, List.map_append] at hnodup
    refine List.disjoint_of_nodup_append hnodup hobtained ?_
    rw [← heq, List.map_map]
    exact List.mem_map_of_mem he
  refine ⟨h.wellFormed, ?_, h.allocated, h.distinct, ?_, ?_⟩
  · have hsame := map_deliver_update size (s := s) (t := { s with
      heap := Function.update s.heap d.pData none
      freed := s.freed ++ [d.pData]
      consumer := .idle }) d.pData none rfl hapart
    refine h.ledger.trans (congrArg (s.obtained ++ ·) ?_)
    rw [← hsame, outstanding, hnone]
    rfl
  · intro r p hpc'
    obtain ⟨hheap, hlt, hfresh⟩ := h.copied r p hpc'
    refine ⟨?_, hlt, hfresh⟩
    obtain ⟨e, he, hptr⟩ := List.mem_map.mp hobtained
    have hne : d.pData ≠ p := by
      rw [← hptr]
      apply hfresh
      rw [h.ledger]
      exact List.mem_append_left _ he
    exact (Function.update_of_ne hne.symm _ _).trans hheap
  · rw [h.used, hinUse]
    simp [inUse]

/-- Taking the mutex keeps the accounts if the step which needed it does. -/
theorem lock (h : s.Accounted size) (p : Party) (ht : t.Accounted size) :
    (s.lock p t).Accounted size := by
  unfold HandOff.lock
  split
  · exact ht.of_same rfl rfl rfl ⟨rfl, rfl, rfl⟩ ⟨rfl, rfl⟩ (.inl rfl)
  · exact h

/-- The message loop's step keeps the accounts if it enqueues safely. -/
theorem produce (h : s.Accounted size) (hsafe : s.EnqueuesSafely .produce) :
    ∃ size', s.produce.Accounted size' := by
  have hmoved {t : HandOff} (ht : t = { s with producer := t.producer, owner := t.owner })
      (hpc : ∀ r p, t.producer ≠ .enqueueing r p) : t.Accounted size := by
    rw [ht]
    exact h.of_same rfl rfl rfl ⟨rfl, rfl, rfl⟩ ⟨rfl, rfl⟩ (.inr hpc)
  unfold HandOff.produce
  cases hpc : s.producer with
  | idle => exact ⟨size, h⟩
  | locking r => exact ⟨size, h.lock _ (hmoved rfl (by simp))⟩
  | waitingForRoom r =>
    by_cases hfull : s.queue.full
    · simp only [if_pos hfull]
      exact ⟨size, hmoved rfl (by simp)⟩
    · simp only [if_neg hfull]
      exact ⟨size, hmoved rfl (by simp)⟩
  | blocked r => exact ⟨size, h⟩
  | copying r => exact ⟨size, h.copy r⟩
  | enqueueing r p =>
    simp only [EnqueuesSafely, hpc] at hsafe
    exact ⟨size + 1, h.enqueue hpc hsafe.1 hsafe.2⟩
  | unlocking => exact ⟨size, hmoved rfl (by simp)⟩

/-- The recording thread's step keeps the accounts. -/
theorem consume (h : s.Accounted size) : ∃ size', s.consume.Accounted size' := by
  have hmoved {t : HandOff} (ht : t = { s with consumer := t.consumer, owner := t.owner })
      (hpc : t.uncopied = s.uncopied ∧ t.inUse = s.inUse) : t.Accounted size := by
    rw [ht] at hpc ⊢
    exact h.of_same rfl rfl rfl ⟨rfl, rfl, rfl⟩ hpc (.inl rfl)
  unfold HandOff.consume
  cases hpc : s.consumer with
  | idle =>
    by_cases hempty : s.queue.empty
    · simp only [if_pos hempty]
      exact ⟨size, h⟩
    · simp only [if_neg hempty]
      exact ⟨size, hmoved rfl (by simp [uncopied, inUse, hpc])⟩
  | locking => exact ⟨size, h.lock _ (hmoved rfl (by simp [uncopied, inUse, hpc]))⟩
  | waitingForData =>
    by_cases hempty : s.queue.empty
    · simp only [if_pos hempty]
      exact ⟨size, hmoved rfl (by simp [uncopied, inUse, hpc])⟩
    · simp only [if_neg hempty]
      exact ⟨size, hmoved rfl (by simp [uncopied, inUse, hpc])⟩
  | blocked => exact ⟨size, h⟩
  | dequeueing => exact h.dequeue hpc
  | unlocking cell =>
    cases cell with
    | none => exact ⟨size, hmoved rfl (by simp [uncopied, inUse, hpc])⟩
    | some cell => exact ⟨size, hmoved rfl (by simp [uncopied, inUse, hpc])⟩
  | copying cell => exact ⟨size, h.obtain hpc⟩
  | recording d => exact ⟨size, h.free hpc⟩

/-- Every safe atomic step keeps the accounts. -/
theorem step (h : s.Accounted size) {a : Action} (hsafe : s.EnqueuesSafely a) :
    ∃ size', (s.step a).Accounted size' := by
  cases a with
  | post r =>
    simp only [HandOff.step]
    cases hpc : s.producer with
    | idle => exact ⟨size, h.of_same rfl rfl rfl ⟨rfl, rfl, rfl⟩ ⟨rfl, rfl⟩ (.inr (by simp))⟩
    | _ => exact ⟨size, h⟩
  | produce => exact h.produce hsafe
  | producerWakes timedOut =>
    simp only [HandOff.step]
    cases hpc : s.producer with
    | blocked r =>
      refine ⟨size, h.lock _ (h.of_same rfl rfl rfl ⟨rfl, rfl, rfl⟩ ⟨rfl, rfl⟩ (.inr ?_))⟩
      cases timedOut <;> simp
    | _ => exact ⟨size, h⟩
  | consume => exact h.consume
  | consumerWakes timedOut =>
    simp only [HandOff.step]
    cases hpc : s.consumer with
    | blocked =>
      refine ⟨size, h.lock _ (h.of_same rfl rfl rfl ⟨rfl, rfl, rfl⟩ ?_ (.inl rfl))⟩
      cases timedOut <;> simp [uncopied, inUse, hpc]
    | _ => exact ⟨size, h⟩

/-- When the accounts are right, the hand-off is exact. -/
theorem exact (h : s.Accounted size) : s.Exact := by
  have honce : (s.obtained.map (·.desc.pData)).Nodup := by
    have hdistinct := h.distinct
    rw [h.ledger, List.map_append] at hdistinct
    exact hdistinct.of_append_left
  refine ⟨h.ledger ▸ List.prefix_append _ _, ?_, honce, ?_⟩
  · intro hdrained
    have hsize : size = 0 := by simpa [h.wellFormed.empty] using hdrained.1
    rw [h.ledger, outstanding, hdrained.2, hsize]
    simp [MetaDescQ.queued]
  · rw [h.used] at honce
    exact honce.of_append_left

end Accounted

/-- In every interleaving whose enqueueing steps are safe, the recording thread obtains exactly
the accepted records, in order, and no allocation twice. -/
theorem run_exact (as : List Action) (hsafe : Guarded step EnqueuesSafely start as) :
    (run step start as).Exact := by
  have haccounted : ∃ size, (run step start as).Accounted size :=
    run_invariant (I := fun s => ∃ size, s.Accounted size) (fun _ _ h hs => h.choose_spec.step hs)
      ⟨0, accounted_start⟩ hsafe
  obtain ⟨size, h⟩ := haccounted
  exact h.exact

/-- A record with a one-byte payload. -/
def sampleRecord (n : ℕ) : Record := ⟨.gps, n, ⟨n, 0⟩, [UInt8.ofNat n], by simp⟩

/-- The steps which post a record when there is room. -/
def postAll (r : Record) : List Action := .post r :: List.replicate 5 .produce

/-- Ten records fill the ring, an eleventh follows when the first was obtained. -/
theorem run_exact_wrapping :
    (run step start ((List.range 10).flatMap (fun n => postAll (sampleRecord n)) ++
      List.replicate 7 .consume ++ postAll (sampleRecord 10))).Exact :=
  run_exact _ (by decide)

/-- The eleventh record overwrites the first while that is dequeued and not copied: the first is
lost and the eleventh obtained twice. -/
theorem run_not_exact :
    ¬ (run step start ((List.range 10).flatMap (fun n => postAll (sampleRecord n)) ++
      List.replicate 5 .consume ++ postAll (sampleRecord 10) ++
      List.replicate 72 .consume)).Exact :=
  fun h => absurd h.freedOnce (by decide +kernel)

end HandOff

end RecordingAgent.Metarec
