import Mathlib.Data.List.Pairwise
import RecordingAgent.Metarec.ChunkUnity

/-!
# The chunks of a drive are in order

Whatever happens to the thread, the chunks which are closed on a drive have records of the queue in the order in which
they were dequeued, each at most once: a chunk has the records of the index, and the index is given up wherever a copy
is closed.
-/

namespace RecordingAgent.Metarec

open Foundation

/-- The records which an event dequeues while the thread runs. -/
def Event.dequeues : Event → List ((Drive → Bool) × Record)
  | .record rm r => [(rm, r)]
  | _ => []

variable {cfg : Config}

namespace MetaIo

variable {s t : MetaIo} {rm : Drive → Bool} {r : Record}

/-- The records of the chunks closed on a drive, in the order in which they were closed. -/
def filed (s : MetaIo) (d : Drive) : List (ℕ × Record) := (s.renamed d).flatMap ClosedChunk.records

/-- Records with their commands, numbered. -/
def numberedTaken (taken : List ((Drive → Bool) × Record)) : List (ℕ × Record) :=
  taken.zipIdx.map fun t => (t.2, t.1.2)

theorem numberedTaken_append (taken : List ((Drive → Bool) × Record)) (rm : Drive → Bool) (r : Record) :
    numberedTaken (taken ++ [(rm, r)]) = numberedTaken taken ++ [(taken.length, r)] := by
  rw [numberedTaken, List.zipIdx_append, List.map_append, Nat.zero_add]
  rfl

theorem numberedTaken_records (taken : List ((Drive → Bool) × Record)) :
    (numberedTaken taken).map Prod.snd = taken.map Prod.snd := by
  rw [numberedTaken, List.map_map]
  calc taken.zipIdx.map (Prod.snd ∘ fun t => (t.2, t.1.2))
      = (taken.zipIdx.map Prod.fst).map Prod.snd := by rw [List.map_map]; rfl
    _ = taken.map Prod.snd := by rw [List.zipIdx_map_fst]

/-- The chunks and the index have records of these, in their order. -/
def InOrder (taken : List ((Drive → Bool) × Record)) (s : MetaIo) : Prop :=
  ∀ d, (s.filed d ++ s.indexed).Sublist (numberedTaken taken)

/-- On each drive nothing is closed, or a chunk with the records of the index. -/
def MayClose (s t : MetaIo) : Prop := ∀ d, t.filed d = s.filed d ∨ t.filed d = s.filed d ++ s.indexed

theorem filed_of_ops (hops : t.ops = s.ops) (d : Drive) : t.filed d = s.filed d := by
  rw [filed, filed, renamed, renamed, hops]

theorem InOrder.of_ops {taken : List ((Drive → Bool) × Record)} (h : s.InOrder taken) (hops : t.ops = s.ops)
    (hindexed : t.indexed = s.indexed) : t.InOrder taken := by
  intro d
  rw [filed_of_ops hops, hindexed]
  exact h d

/-- The index is given up when its records may have been closed. -/
theorem InOrder.close {taken : List ((Drive → Bool) × Record)} (h : s.InOrder taken) (hclose : s.MayClose t)
    (hindexed : t.indexed = []) : t.InOrder taken := by
  intro d
  rw [hindexed, List.append_nil]
  cases hclose d with
  | inl hkept =>
    rw [hkept]
    exact (List.sublist_append_left _ _).trans (h d)
  | inr hclosed =>
    rw [hclosed]
    exact h d

/-- A further record which is dequeued keeps the order of the others. -/
theorem InOrder.take {taken : List ((Drive → Bool) × Record)} (h : s.InOrder taken) (rm : Drive → Bool) (r : Record) :
    s.InOrder (taken ++ [(rm, r)]) := by
  intro d
  rw [numberedTaken_append]
  exact (h d).trans (List.sublist_append_left _ _)

theorem closeChunk_filed (cfg : Config) (s : MetaIo) (d : Drive) (f : ℕ) (e : Drive) :
    (s.closeChunk cfg d f).filed e = s.filed e ∨ e = d ∧ (s.closeChunk cfg d f).filed e = s.filed e ++ s.indexed := by
  obtain ⟨fs, hfs⟩ : ∃ fs, s.closeChunk cfg d f = { s with
      fs, ops := if ((((finalizeHeader cfg.format s.recordIndex s.fs f).rewrite f cfg.format.updateHmac).fclose f).rename
        (s.stagingPath d) (s.closing.path d)).1 = true then s.ops ++ [.rename d s.closing] else s.ops } := ⟨_, rfl⟩
  rw [hfs]
  split
  · have hrenamed : renamed { s with fs, ops := s.ops ++ [.rename d s.closing] } e =
        s.renamed e ++ if e = d then [s.closing] else [] := renamed_append_rename { s with fs } s.ops s.closing e
    by_cases heq : e = d
    · refine Or.inr ⟨heq, ?_⟩
      rw [filed, hrenamed, if_pos heq, List.flatMap_append, List.flatMap_singleton]
      rfl
    · refine Or.inl ?_
      rw [filed, hrenamed, if_neg heq, List.append_nil]
      rfl
  · exact Or.inl rfl

theorem closePrevious_filed (cfg : Config) (s : MetaIo) (d e : Drive) :
    (s.closePrevious cfg d).filed e = s.filed e ∨ e = d ∧ (s.closePrevious cfg d).filed e = s.filed e ++ s.indexed := by
  unfold closePrevious
  split
  · split
    · exact closeChunk_filed cfg s d _ e
    · exact Or.inl rfl
  · exact Or.inl rfl

theorem finalizeCopy_filed (cfg : Config) (s : MetaIo) (d e : Drive) :
    (s.finalizeCopy cfg d).filed e = s.filed e ∨ e = d ∧ (s.finalizeCopy cfg d).filed e = s.filed e ++ s.indexed := by
  unfold finalizeCopy
  split
  · split
    · exact closeChunk_filed cfg s d _ e
    · exact Or.inl rfl
  · exact Or.inl rfl

/-- Closing the copies one after the other closes at most one chunk on each drive. -/
theorem mayClose_of_copies {close : MetaIo → Drive → MetaIo}
    (hfiled : ∀ s d e, (close s d).filed e = s.filed e ∨ e = d ∧ (close s d).filed e = s.filed e ++ s.indexed)
    (hindexed : ∀ s d, (close s d).indexed = s.indexed) (s : MetaIo) : s.MayClose (Drive.all.foldl close s) := by
  intro e
  change (close (close s .chm) .rssd).filed e = _ ∨ (close (close s .chm) .rssd).filed e = _
  cases hfiled (close s .chm) .rssd e with
  | inl hrssd =>
    rw [hrssd]
    exact (hfiled s .chm e).imp id And.right
  | inr hrssd =>
    obtain ⟨rfl, hrssd⟩ := hrssd
    rw [hrssd, hindexed]
    cases hfiled s .chm .rssd with
    | inl hchm =>
      rw [hchm]
      exact Or.inr rfl
    | inr hchm => cases hchm.1

theorem metadataChunkFinalize_mayClose (cfg : Config) (s : MetaIo) : s.MayClose (s.metadataChunkFinalize cfg) :=
  mayClose_of_copies (finalizeCopy_filed cfg) (fun s d => (finalizeCopy_book cfg s d).1.indexed) s

theorem startChunk_mayClose (cfg : Config) (s : MetaIo) (r : Record) : s.MayClose (s.startChunk cfg r) := by
  obtain ⟨s₀, hs₀⟩ : ∃ s₀ : MetaIo, s₀ = { s with sessionJustStarted := false, driveStatusUpdated := false } := ⟨_, rfl⟩
  have hclosed := mayClose_of_copies (closePrevious_filed cfg) (fun s d => (closePrevious_book cfg s d).1.indexed) s₀
  have hopens : ∀ (u : MetaIo) (e : Drive), (u.openCopy cfg r e).ops = u.ops := by
    intro u e
    unfold openCopy
    split <;> rfl
  intro d
  have hopened : (s.startChunk cfg r).filed d =
      ((Drive.all.foldl (closePrevious cfg) s₀).nameChunk (gmtime r.tod)).filed d := by
    rw [hs₀]
    exact filed_of_ops ((hopens _ .rssd).trans (hopens _ .chm)) d
  have hnamed : ((Drive.all.foldl (closePrevious cfg) s₀).nameChunk (gmtime r.tod)).filed d =
      (Drive.all.foldl (closePrevious cfg) s₀).filed d := by
    rw [filed, nameChunk_renamed, filed]
  rw [hopened, hnamed]
  have hd := hclosed d
  rw [hs₀] at hd ⊢
  exact hd

/-- Following the commanded drives closes the chunk, if they changed. -/
theorem InOrder.followDrives {taken : List ((Drive → Bool) × Record)} (h : s.InOrder taken) (rm : Drive → Bool)
    (r : Record) : (s.followDrives cfg rm r).InOrder taken := by
  cases hupdated : s.isDriveStatusUpdated rm with
  | false =>
    rw [followDrives_of_not_updated cfg hupdated]
    exact h.of_ops rfl rfl
  | true =>
    rw [followDrives_of_updated cfg hupdated]
    obtain ⟨s₀, hs₀⟩ : ∃ s₀ : MetaIo, s₀ = { s with
      preRec := fun d => some (rm d)
      driveStatusUpdated := true
      taken := s.taken ++ [(rm, r)] } := ⟨_, rfl⟩
    have h₀ : s₀.InOrder taken := h.of_ops (by rw [hs₀]) (by rw [hs₀])
    rw [← hs₀]
    have hfinal := h₀.close (metadataChunkFinalize_mayClose cfg s₀) (metadataChunkFinalize_finalized cfg s₀).indexed
    exact hfinal.of_ops rfl rfl

/-- Having a chunk for a record closes the one before, if a new one is needed. -/
theorem InOrder.ensureChunk {taken : List ((Drive → Bool) × Record)} (h : s.InOrder taken) (r : Record) :
    (s.ensureChunk cfg r).isActive = s.isActive ∧ (s.ensureChunk cfg r).taken = s.taken ∧
      (s.ensureChunk cfg r).InOrder taken := by
  by_cases hdeltat : cfg.deltat = 0
  · rw [ensureChunk_of_deltat hdeltat]
    exact ⟨rfl, rfl, h⟩
  · obtain ⟨duration, hreach⟩ : ∃ duration, s.reachRecord r =
        { s with chunkDurationUsecs := duration, forwardTimeChangeOccurred := false } := ⟨_, rfl⟩
    obtain ⟨u, hu⟩ : ∃ u : MetaIo, u = { s with chunkDurationUsecs := duration, forwardTimeChangeOccurred := false } :=
      ⟨_, rfl⟩
    have hactive : u.isActive = s.isActive := by rw [hu]
    have htaken : u.taken = s.taken := by rw [hu]
    have hreached : u.InOrder taken := h.of_ops (by rw [hu]) (by rw [hu])
    cases hrequired : s.isNewChunkRequired cfg (gmtime r.tod) with
    | false =>
      rw [ensureChunk_of_not_required hdeltat hrequired, hreach, ← hu]
      exact ⟨hactive, htaken, hreached⟩
    | true =>
      rw [ensureChunk_of_required hdeltat hrequired, hreach, ← hu]
      obtain ⟨hindexed, -, hstarted, -, hrunning, -⟩ := startChunk_reset cfg u r
      have hclosed := hreached.close (startChunk_mayClose cfg u r) hindexed
      split
      · exact ⟨hrunning.trans hactive, hstarted.trans htaken, hclosed.of_ops rfl rfl⟩
      · exact ⟨hrunning.trans hactive, hstarted.trans htaken, hclosed⟩

/-- The last record which was dequeued is entered behind those of the index. -/
theorem InOrder.record {taken : List ((Drive → Bool) × Record)} (h : s.InOrder taken)
    (htaken : s.taken = taken ++ [(rm, r)]) :
    ((s.enterRecord cfg r).writeRecord cfg r).isActive = s.isActive ∧
      ((s.enterRecord cfg r).writeRecord cfg r).taken = taken ++ [(rm, r)] ∧
      ((s.enterRecord cfg r).writeRecord cfg r).InOrder (taken ++ [(rm, r)]) := by
  obtain ⟨fs, pos, hwritten⟩ := writeRecord_eq cfg (s.enterRecord cfg r) r
  rw [hwritten]
  unfold enterRecord
  split
  · refine ⟨rfl, htaken, fun d => ?_⟩
    have hnumber : s.taken.length - 1 = taken.length := by
      rw [htaken, List.length_append, List.length_singleton, Nat.add_sub_cancel]
    rw [numberedTaken_append]
    change (s.filed d ++ (s.indexed ++ [(s.taken.length - 1, r)])).Sublist _
    rw [hnumber, ← List.append_assoc]
    exact (h d).append (List.Sublist.refl _)
  · exact ⟨rfl, htaken, (h.take rm r).of_ops rfl rfl⟩

/-- The round for a record dequeues it, and keeps the order. -/
theorem recordRound_inOrder (h : s.InOrder s.taken) (rm : Drive → Bool) (r : Record) :
    (s.recordRound cfg rm r).isActive = s.isActive ∧ (s.recordRound cfg rm r).taken = s.taken ++ [(rm, r)] ∧
      (s.recordRound cfg rm r).InOrder (s.taken ++ [(rm, r)]) := by
  obtain ⟨-, hfollowed, hactive⟩ := followDrives_book cfg s rm r
  have hfollows : (s.followDrives cfg rm r).InOrder s.taken := h.followDrives rm r
  obtain ⟨hensured, htaken, horder⟩ : _ ∧ _ ∧ ((s.followDrives cfg rm r).ensureChunk cfg r).InOrder s.taken :=
    hfollows.ensureChunk r
  obtain ⟨hrecorded, hrecord⟩ : _ ∧ _ ∧ (s.recordRound cfg rm r).InOrder (s.taken ++ [(rm, r)]) :=
    horder.record (htaken.trans hfollowed)
  exact ⟨hrecorded.trans (hensured.trans hactive), hrecord⟩

/-- A round without a record dequeues nothing, and keeps the order. -/
theorem idleRound_inOrder (h : s.InOrder s.taken) (now : Timespec) :
    (s.idleRound cfg now).isActive = s.isActive ∧ (s.idleRound cfg now).taken = s.taken ∧
      (s.idleRound cfg now).InOrder s.taken := by
  obtain ⟨duration, hduration⟩ : ∃ duration, durationUsecs s.t0 now.nanoseconds = duration := ⟨_, rfl⟩
  have hpolled : InOrder s.taken { s with chunkDurationUsecs := duration } := h.of_ops rfl rfl
  unfold idleRound
  rw [hduration]
  split
  · dsimp only
    split
    · have hfinal := metadataChunkFinalize_finalized cfg { s with chunkDurationUsecs := duration }
      exact ⟨hfinal.isActive, hfinal.taken, (hpolled.close (metadataChunkFinalize_mayClose cfg _) hfinal.indexed).of_ops rfl rfl⟩
    · exact ⟨rfl, rfl, hpolled⟩
  · exact ⟨rfl, rfl, h⟩

/-- A step of the thread while it runs. -/
theorem step_inOrder (h : s.InOrder s.taken) (hactive : s.isActive = true) (e : Event) :
    (e ≠ .stop → (s.step cfg e).isActive = true) ∧ (s.step cfg e).taken = s.taken ++ e.dequeues ∧
      (s.step cfg e).InOrder (s.step cfg e).taken := by
  cases e with
  | record rm r =>
    rw [step_record hactive]
    obtain ⟨hrunning, htaken, horder⟩ := @recordRound_inOrder cfg s h rm r
    refine ⟨fun _ => hrunning.trans hactive, htaken, ?_⟩
    rw [htaken]
    exact horder
  | idle now =>
    rw [step_idle hactive]
    obtain ⟨hrunning, htaken, horder⟩ := @idleRound_inOrder cfg s h now
    refine ⟨fun _ => hrunning.trans hactive, htaken.trans (List.append_nil _).symm, ?_⟩
    rw [htaken]
    exact horder
  | forwardTimeChange =>
    rw [step_forwardTimeChange hactive]
    exact ⟨fun _ => hactive, (List.append_nil _).symm, h.of_ops rfl rfl⟩
  | stop =>
    rw [step_stop hactive]
    have hfinal := metadataChunkFinalize_finalized cfg s
    refine ⟨fun hne => absurd rfl hne, hfinal.taken.trans (List.append_nil _).symm, ?_⟩
    have hclosed := h.close (metadataChunkFinalize_mayClose cfg s) hfinal.indexed
    dsimp only
    rw [hfinal.taken]
    exact hclosed.of_ops rfl rfl

/-- A run of the thread before it stops. -/
structure Ran (cfg : Config) (used : Drive → Bool) (es : List Event) (s : MetaIo) : Prop where
  unstopped : Event.stop ∉ es
  state : s = run (MetaIo.step cfg) (start used) es
  active : s.isActive = true
  taken : s.taken = es.flatMap Event.dequeues
  order : s.InOrder s.taken

theorem ran_start (cfg : Config) (used : Drive → Bool) : (start used).Ran cfg used [] where
  unstopped := List.not_mem_nil
  state := rfl
  active := rfl
  taken := rfl
  order _ := List.Sublist.refl _

theorem Ran.step {used : Drive → Bool} {es : List Event} {e : Event} (h : s.Ran cfg used es) (hne : e ≠ .stop) :
    (s.step cfg e).Ran cfg used (es ++ [e]) := by
  obtain ⟨hactive, htaken, horder⟩ := @step_inOrder cfg s h.order h.active e
  refine ⟨fun hmem => ?_, ?_, hactive hne, ?_, horder⟩
  · cases List.mem_append.mp hmem with
    | inl hbefore => exact h.unstopped hbefore
    | inr hlast => exact hne (List.mem_singleton.mp hlast).symm
  · rw [run_append, ← h.state]
    rfl
  · rw [htaken, h.taken, List.flatMap_append, List.flatMap_singleton]

/-- The records of the history are those which the events dequeue. -/
theorem takenFrom_entries (es : List Event) (h : Event.stop ∉ es) (changes : ℕ) :
    (takenFrom changes es).map Taken.entry = es.flatMap Event.dequeues := by
  induction es generalizing changes with
  | nil => rfl
  | cons e es ih =>
    have hrest : Event.stop ∉ es := fun hmem => h (List.mem_cons_of_mem e hmem)
    cases e with
    | record rm r =>
      rw [takenFrom, List.map_cons, ih hrest, List.flatMap_cons]
      rfl
    | idle now => exact ih hrest changes
    | forwardTimeChange => exact ih hrest (changes + 1)
    | stop => exact absurd List.mem_cons_self h

/-- Nothing is dequeued in the step which stops the thread. -/
theorem takenFrom_stop (es : List Event) (changes : ℕ) :
    takenFrom changes (es ++ [.stop]) = takenFrom changes es := by
  induction es generalizing changes with
  | nil => rfl
  | cons e es ih =>
    cases e with
    | record rm r => exact congrArg (List.cons _) (ih changes)
    | idle now => exact ih changes
    | forwardTimeChange => exact ih (changes + 1)
    | stop => rfl

end MetaIo

instance : Std.Symm SameStretch where
  symm _ _ h := ⟨h.changes.symm, h.rm.symm, h.hour.symm⟩

/-- A record of a chunk was taken under a command for the drive, or the drive was in use from the start and all records up
to this one were taken under one command. -/
theorem OneStretch.commanded {history : List Taken} {used : Drive → Bool} {d : Drive} {fname : CString}
    {records : List (ℕ × Record)} (h : OneStretch cfg used history d fname records) {q : ℕ × Record} (hq : q ∈ records) :
    ∃ t, history[q.1]? = some t ∧ t.record = q.2 ∧
      (t.rm d = true ∨ used d = true ∧ ∀ a ∈ history.take q.1, a.rm = t.rm) := by
  obtain ⟨before, ts, behind, rfl, rfl, hpair, hcommanded, -⟩ := h
  obtain ⟨⟨t, n⟩, hmem, rfl⟩ := List.mem_map.mp hq
  obtain ⟨i, hi, hget⟩ := List.mem_iff_getElem.mp hmem
  rw [List.length_zipIdx] at hi
  rw [List.getElem_zipIdx, Prod.mk.injEq] at hget
  obtain ⟨rfl, rfl⟩ := hget
  have hne : ts ≠ [] := List.ne_nil_of_length_pos (Nat.zero_lt_of_lt hi)
  have hhistory : (before ++ ts ++ behind)[before.length + i]? = some ts[i] := by
    rw [List.append_assoc, List.getElem?_append_right (Nat.le_add_right _ _), Nat.add_sub_cancel_left,
      List.getElem?_append_left hi, List.getElem?_eq_getElem hi]
  refine ⟨ts[i], hhistory, rfl, ?_⟩
  cases hcommanded hne with
  | inl hlast =>
    obtain ⟨a, ha, hd⟩ := hlast
    refine Or.inl ?_
    have hget : ts.getLast? = some a := by
      rw [← ha, List.getLast?_append_of_ne_nil _ hne]
    have hmember : a ∈ ts := List.mem_of_getLast? hget
    have hsame : ts[i].rm = a.rm := by
      by_cases heq : ts[i] = a
      · rw [heq]
      · exact (hpair.forall (List.getElem_mem hi) hmember heq).rm
    rw [hsame]
    exact hd
  | inr hall =>
    refine Or.inr ⟨hall.1, fun a ha => ?_⟩
    refine hall.2 a ?_ ts[i] (List.mem_append_right _ (List.getElem_mem hi))
    have hbound : before.length + i ≤ (before ++ ts).length := by
      rw [List.length_append]
      omega
    rw [List.take_append_of_le_length hbound] at ha
    exact List.mem_of_mem_take ha

namespace MetaIo

theorem numberedTaken_entries (history : List Taken) : numberedTaken (history.map Taken.entry) = numbered 0 history := by
  rw [numberedTaken, numbered, List.zipIdx_map, List.map_map]
  rfl

/-- What a run dequeues, and the order of its files. -/
theorem run_order (cfg : Config) {s : MetaIo} (h : s.InOrder s.taken) (hactive : s.isActive = true) (es : List Event)
    (changes : ℕ) : (run (MetaIo.step cfg) s es).taken = s.taken ++ (takenFrom changes es).map Taken.entry ∧
      (run (MetaIo.step cfg) s es).InOrder (run (MetaIo.step cfg) s es).taken := by
  induction es generalizing s changes with
  | nil => exact ⟨(List.append_nil _).symm, h⟩
  | cons e es ih =>
    obtain ⟨hnext, htaken, horder⟩ := @step_inOrder cfg s h hactive e
    rw [run_cons]
    cases e with
    | record rm r =>
      obtain ⟨hrun, hfiles⟩ := ih horder (hnext fun heq => by cases heq) changes
      refine ⟨hrun.trans ?_, hfiles⟩
      rw [htaken, List.append_assoc]
      rfl
    | idle now =>
      obtain ⟨hrun, hfiles⟩ := ih horder (hnext fun heq => by cases heq) changes
      exact ⟨hrun.trans (congrArg (· ++ _) (htaken.trans (List.append_nil _))), hfiles⟩
    | forwardTimeChange =>
      obtain ⟨hrun, hfiles⟩ := ih horder (hnext fun heq => by cases heq) (changes + 1)
      exact ⟨hrun.trans (congrArg (· ++ _) (htaken.trans (List.append_nil _))), hfiles⟩
    | stop =>
      obtain ⟨t, ht⟩ : ∃ t, s.step cfg .stop = t := ⟨_, rfl⟩
      have hstopped : t.isActive = false := by
        have hstep : s.step cfg .stop = { s.metadataChunkFinalize cfg with isActive := false } := if_pos hactive
        rw [← ht, hstep]
      have hkept : run (MetaIo.step cfg) t es = t := by
        refine run_invariant_of_step (I := fun u => u = t) (fun u e hu => ?_) rfl es
        rw [hu]
        exact if_neg (by rw [hstopped]; exact Bool.false_ne_true)
      rw [ht] at htaken horder
      rw [ht, hkept]
      exact ⟨htaken, horder⟩

/-- In every run each closed chunk is one stretch of the records which were dequeued, and the chunks of a drive have them
in their order and at most once. -/
theorem run_oneStretch (cfg : Config) (used : Drive → Bool) (es : List Event) :
    (run (MetaIo.step cfg) (start used) es).AllClosed (OneStretch cfg used (takenFrom 0 es)) ∧
      ∀ d, ((run (MetaIo.step cfg) (start used) es).filed d).Sublist (numbered 0 (takenFrom 0 es)) := by
  refine ⟨closed_oneStretch cfg used es, fun d => ?_⟩
  obtain ⟨htaken, horder⟩ := run_order cfg (ran_start cfg used).order rfl es 0
  have hall : (run (MetaIo.step cfg) (start used) es).taken = (takenFrom 0 es).map Taken.entry := htaken
  have hsublist := horder d
  rw [hall, numberedTaken_entries] at hsublist
  exact (List.sublist_append_left _ _).trans hsublist

end MetaIo

end RecordingAgent.Metarec
