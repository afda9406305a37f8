import RecordingAgent.Metarec.MetaQueue

/-!
# What enqueueing a descriptor reports

`enq_metadata_descriptor` waits for room at most once, for a second, and does not look at the ring again
when the wait has ended. Other threads change the queue and the payloads during the wait, so both are
arbitrary behind it; the calls of the thread library and of the allocator are parameters.
-/

namespace RecordingAgent.Metarec

open Foundation

/-- The queue and the payload allocations, which the threads share. -/
structure QueueState where
  initialized : Bool
  queue : MetaDescQ
  heap : ℕ → Option (List UInt8)

/-- What a call of `pthread_cond_timedwait` returns, and what it finds when it has the mutex again. -/
structure Timedwait where
  rc : ℤ
  state : QueueState

/-- `meta_q_lock`, with the result of `pthread_mutex_lock`. -/
def metaQLock (s : QueueState) (mutexLock : ℤ) : ℤ := if s.initialized then mutexLock else -1

/-- `meta_q_wait_for_room` -/
def metaQWaitForRoom (s : QueueState) (wait : Timedwait) : ℤ × QueueState :=
  if s.initialized then
    if s.queue.full then (wait.rc, wait.state) else (0, s)
  else (-1, s)

/-- `enq_metadata_descriptor`: what it returns, and what it leaves. A copy to the null pointer is undefined. -/
def enqMetadataDescriptor (s : QueueState) (r : Record) (mutexLock : ℤ) (wait : Timedwait) (malloc : Option ℕ) :
    Option (ℤ × QueueState) :=
  if metaQLock s mutexLock = 0 then
    let (rc, s) := metaQWaitForRoom s wait
    if rc = 0 then
      malloc.map fun p =>
        (1, { s with heap := Function.update s.heap p (some r.payload), queue := metaQEnq s.queue (r.desc p) })
    else some (0, s)
  else some (0, s)

/-- What the call goes on with: the queue as it was, or as the wait leaves it. -/
def goesOnWith (s : QueueState) (mutexLock : ℤ) (wait : Timedwait) : QueueState :=
  if metaQLock s mutexLock = 0 then (metaQWaitForRoom s wait).2 else s

/-- The descriptor was put behind the queued ones, with its payload in an allocation that was free. -/
def Enqueued (before after : QueueState) (r : Record) : Prop :=
  ∃ l p, before.queue.Represents l ∧ after.queue.Represents (l ++ [r.desc p]) ∧
    before.heap p = none ∧ after.heap p = some r.payload

/-- The call returns one exactly if the descriptor was put into the queue, and zero only if it changed and
allocated nothing. -/
def ReportsTruth (before : QueueState) (r : Record) (result : Option (ℤ × QueueState)) : Prop :=
  ∃ rc after, result = some (rc, after) ∧ (rc = 1 ↔ Enqueued before after r) ∧ (rc = 0 → after = before)

/-- A call that goes on to enqueue has got memory, and the ring has room when a wait for it has ended. -/
def FindsRoom (s : QueueState) (mutexLock : ℤ) (wait : Timedwait) (malloc : Option ℕ) : Prop :=
  s.initialized = true → mutexLock = 0 → (s.queue.full = true → wait.rc = 0) →
    malloc.isSome = true ∧ (s.queue.full = true → wait.state.queue.full = false)

variable {s before after : QueueState} {r : Record} {mutexLock : ℤ} {wait : Timedwait} {malloc : Option ℕ}
  {l : List MetadataDesc}

/-- A ring holds as many descriptors as its indices and flags say. -/
theorem MetaDescQ.WellFormed.not_succ {q : MetaDescQ} {size : ℕ} (h : q.WellFormed size) :
    ¬ q.WellFormed (size + 1) := by
  intro hsucc
  have htail := h.tail.symm.trans hsucc.tail
  have hhead := h.head
  simp only [metadataDescQueueSize] at htail hhead
  omega

/-- Nothing was put into a queue which is as it was. -/
theorem not_enqueued_of_same (hqueue : after.queue = before.queue) : ¬ Enqueued before after r := by
  rintro ⟨l, p, hbefore, hafter, -⟩
  rw [hqueue] at hafter
  have hsize := hafter.1
  rw [List.length_append, List.length_singleton] at hsize
  exact hbefore.1.not_succ hsize

/-- A ring with room takes the descriptor and the copy of its payload. -/
theorem enqueued_of_room {p : ℕ} (hqueue : s.queue.Represents l) (hroom : s.queue.full = false)
    (hfree : s.heap p = none) :
    Enqueued s
      { s with heap := Function.update s.heap p (some r.payload), queue := metaQEnq s.queue (r.desc p) } r := by
  have hlt : l.length < metadataDescQueueSize := by
    have hfull := hqueue.1.full
    rw [hroom, eq_comm, decide_eq_false_iff_not] at hfull
    exact lt_of_le_of_ne hqueue.1.bound hfull
  have hcall := (hqueue.call (.enq (r.desc p))).2
  simp only [MetaDescQ.fifoCall, if_pos hlt] at hcall
  exact ⟨l, p, hqueue, hcall, hfree, by simp⟩

/-- A call which does not get to the copy reports that, and leaves everything as the wait did. -/
theorem reportsTruth_of_not_reached (h : ¬ (metaQLock s mutexLock = 0 ∧ (metaQWaitForRoom s wait).1 = 0)) :
    ReportsTruth (goesOnWith s mutexLock wait) r (enqMetadataDescriptor s r mutexLock wait malloc) := by
  have hresult : enqMetadataDescriptor s r mutexLock wait malloc = some (0, goesOnWith s mutexLock wait) := by
    unfold enqMetadataDescriptor goesOnWith
    by_cases hlock : metaQLock s mutexLock = 0
    · have hwait : (metaQWaitForRoom s wait).1 ≠ 0 := fun hwait => h ⟨hlock, hwait⟩
      simp [hlock, hwait]
    · simp [hlock]
  exact ⟨0, _, hresult, iff_of_false (by decide) (not_enqueued_of_same rfl), fun _ => rfl⟩

/-- A call which gets to the copy reports the truth exactly if it has got memory and the ring has room. -/
theorem reportsTruth_iff_of_reached (hlock : metaQLock s mutexLock = 0) (hwait : (metaQWaitForRoom s wait).1 = 0)
    (hqueue : (goesOnWith s mutexLock wait).queue.Represents l)
    (hmalloc : ∀ p ∈ malloc, (goesOnWith s mutexLock wait).heap p = none) :
    ReportsTruth (goesOnWith s mutexLock wait) r (enqMetadataDescriptor s r mutexLock wait malloc) ↔
      malloc.isSome = true ∧ (goesOnWith s mutexLock wait).queue.full = false := by
  have hgoes : goesOnWith s mutexLock wait = (metaQWaitForRoom s wait).2 := if_pos hlock
  rw [hgoes] at hqueue hmalloc ⊢
  cases malloc with
  | none => simp [ReportsTruth, enqMetadataDescriptor, hlock, hwait]
  | some p =>
    have hresult : enqMetadataDescriptor s r mutexLock wait (some p) =
        some (1, { (metaQWaitForRoom s wait).2 with
          heap := Function.update (metaQWaitForRoom s wait).2.heap p (some r.payload)
          queue := metaQEnq (metaQWaitForRoom s wait).2.queue (r.desc p) }) := by
      simp [enqMetadataDescriptor, hlock, hwait]
    rw [hresult]
    cases hfull : (metaQWaitForRoom s wait).2.queue.full with
    | false =>
      refine iff_of_true ⟨1, _, rfl, iff_of_true rfl ?_, fun h => absurd h (by decide)⟩ ⟨rfl, rfl⟩
      exact enqueued_of_room hqueue hfull (hmalloc p rfl)
    | true =>
      refine iff_of_false ?_ (by simp)
      rintro ⟨rc, after, heq, hreports, -⟩
      obtain ⟨rfl, rfl⟩ := Prod.mk.inj (Option.some.inj heq)
      refine not_enqueued_of_same ?_ (hreports.mp rfl)
      rw [metaQEnq, if_pos hfull]

/-- The call reports the truth exactly if it finds room where it goes on to enqueue. -/
theorem enqMetadataDescriptor_reportsTruth_iff (s : QueueState) (r : Record) (mutexLock : ℤ) (wait : Timedwait)
    (malloc : Option ℕ) (hqueue : ∃ l, (goesOnWith s mutexLock wait).queue.Represents l)
    (hmalloc : ∀ p ∈ malloc, (goesOnWith s mutexLock wait).heap p = none) :
    ReportsTruth (goesOnWith s mutexLock wait) r (enqMetadataDescriptor s r mutexLock wait malloc) ↔
      FindsRoom s mutexLock wait malloc := by
  obtain ⟨l, hl⟩ := hqueue
  by_cases hreached : metaQLock s mutexLock = 0 ∧ (metaQWaitForRoom s wait).1 = 0
  · rw [reportsTruth_iff_of_reached hreached.1 hreached.2 hl hmalloc]
    obtain ⟨hlock, hwait⟩ := hreached
    cases hinit : s.initialized with
    | false => simp [metaQLock, hinit] at hlock
    | true =>
      simp only [metaQLock, hinit, if_true] at hlock
      cases hfull : s.queue.full with
      | false => simp [FindsRoom, goesOnWith, metaQLock, metaQWaitForRoom, hinit, hlock, hfull]
      | true =>
        simp only [metaQWaitForRoom, hinit, hfull, if_true] at hwait
        simp [FindsRoom, goesOnWith, metaQLock, metaQWaitForRoom, hinit, hlock, hfull, hwait]
  · refine iff_of_true (reportsTruth_of_not_reached hreached) fun hinit hlock hwait => absurd ⟨?_, ?_⟩ hreached
    · simpa [metaQLock, hinit] using hlock
    · cases hfull : s.queue.full with
      | false => simp [metaQWaitForRoom, hinit, hfull]
      | true => simpa [metaQWaitForRoom, hinit, hfull] using hwait hfull

/-- A record without a payload. -/
def emptyRecord : Record := ⟨.gps, 0, ⟨0, 0⟩, [], by decide⟩

/-- The queue after a number of records were put into it. -/
def queueOf (n : ℕ) : QueueState where
  initialized := true
  queue := run (fun q c => (q.call c).2) metaQInit (List.replicate n (.enq (emptyRecord.desc 0)))
  heap := Function.update (fun _ => none) 0 (some [])

/-- The queue after ten records, as the list of its descriptors. -/
theorem queueOf_represents : ∃ l, (queueOf 10).queue.Represents l := by
  refine ⟨List.replicate 10 (emptyRecord.desc 0), ?_⟩
  constructor
  · constructor <;> decide
  · decide

/-- A wait for room in a full ring which ends by its timeout. -/
theorem enqMetadataDescriptor_timedOut :
    ReportsTruth (goesOnWith (queueOf 10) 0 ⟨110, queueOf 10⟩) emptyRecord
      (enqMetadataDescriptor (queueOf 10) emptyRecord 0 ⟨110, queueOf 10⟩ (some 1)) := by
  refine (enqMetadataDescriptor_reportsTruth_iff _ _ _ ⟨110, queueOf 10⟩ _ ?_ ?_).mpr ?_
  · exact queueOf_represents
  · intro p hp
    obtain rfl := Option.some.inj hp
    rfl
  · intro _ _ h
    exact absurd (h rfl) (by decide)

/-- A wait for room which ends without a timeout while the ring is full: the call returns one. -/
theorem enqMetadataDescriptor_spurious :
    ¬ ReportsTruth (goesOnWith (queueOf 10) 0 ⟨0, queueOf 10⟩) emptyRecord
      (enqMetadataDescriptor (queueOf 10) emptyRecord 0 ⟨0, queueOf 10⟩ (some 1)) := by
  rintro ⟨rc, after, heq, hreports, -⟩
  obtain ⟨rfl, rfl⟩ := Prod.mk.inj (Option.some.inj heq)
  refine not_enqueued_of_same ?_ (hreports.mp rfl)
  rfl

end RecordingAgent.Metarec
