import RecordingAgent.Metacollector.Reader
import RecordingAgent.Metarec.Gathering

/-!
# From the recorder to the reader

Recorder and reader are different programs that compute the size of the index and the offsets by
expressions of their own. A chunk whose records are of one hour, with no change of the drives or the
time between them, is read back as it was recorded, whatever ends it and whatever was recorded before.
-/

namespace RecordingAgent.Metacollector

open Foundation Metarec Metarec.MetaIo

/-- Each query returns the records of its type in its range, in order, and their number. -/
def ReadsBack (fmt : ChunkFormat) (bytes : List UInt8) (rs : List Record) : Prop :=
  ∀ (type : MetaDataType) (starttime endtime : ℕ), (starttime = 0 ↔ endtime = 0) →
    getMetadataRecords fmt bytes starttime endtime type =
      some ⟨selected rs starttime endtime type, (selected rs starttime endtime type).length⟩

/-- The finished file of a chunk that gathered records is read back on each drive in use. -/
theorem readsBack_of_gathering {cfg : Config} {s : MetaIo} {rm : Drive → Bool} {first : Record} {rs : List Record}
    (h : s.Gathering cfg rm first rs) (hn : cfg.nCopies = 2) (hdeltat : cfg.deltat ≠ 0)
    (htable : cfg.format.indexCapacity ≤ metadataChunkMaxIndexRecords) (hrs : Recordable cfg.format rs)
    {last : Event} {duration : ℕ} (hclose : s.closingDuration cfg last = some duration) (hduration : 0 < duration)
    {d : Drive} (hd : s.isUsed d = true) :
    ∃ bytes, (s.step cfg last).fs.Stored ((s.closedAs duration).path d) bytes ∧
      ReadsBack cfg.format bytes rs := by
  obtain ⟨sec, usec, hstored⟩ := h.closes hn hdeltat hclose hduration hd
  exact ⟨_, hstored, fun _ _ _ hrange => getMetadataRecords_finalImage h.room htable hrs hrange⟩

/-- After any run that keeps its pointers to drives in use, a record that starts a chunk and the records
of its hour that follow are read back from the file of the chunk, once a round closes it with a duration. -/
theorem run_readsBack (cfg : Config) (hn : cfg.nCopies = 2) (hdeltat : cfg.deltat ≠ 0)
    (htable : cfg.format.indexCapacity ≤ metadataChunkMaxIndexRecords) (used : Drive → Bool) (before : List Event)
    (hbefore : Guarded (step cfg) KeepsPointers (start used) before)
    (hactive : (run (step cfg) (start used) before).isActive = true) (rm : Drive → Bool) (first : Record)
    (hkeeps : (run (step cfg) (start used) before).KeepsPointers (.record rm first))
    (hstarts : (run (step cfg) (start used) before).startsChunk cfg rm first = true) (es : List Event)
    (hes : ∀ e ∈ es, Continues cfg rm first e)
    (hlimit : (first :: dequeued es).length ≤ min cfg.format.indexCapacity cfg.chunkMaxDuration)
    (hrecords : Recordable cfg.format (first :: dequeued es)) (s : MetaIo)
    (hs : s = run (step cfg) (start used) (before ++ .record rm first :: es)) (last : Event) (duration : ℕ)
    (hclose : s.closingDuration cfg last = some duration) (hduration : 0 < duration) (d : Drive)
    (hd : s.isUsed d = true) :
    ∃ bytes, (s.step cfg last).fs.Stored ((s.closedAs duration).path d) bytes ∧
      ReadsBack cfg.format bytes (first :: dequeued es) := by
  have hcoherent : (run (step cfg) (start used) before).Coherent cfg := by
    have h := run_invariant (I := CoherentOrStopped cfg) (fun _ _ h hk => h.step hn hk)
      (.inl (coherent_start cfg used)) hbefore
    exact h.resolve_right fun hstopped => by simp [hstopped.1] at hactive
  have hfirst : ((run (step cfg) (start used) before).step cfg (.record rm first)).Gathering cfg rm first [first] := by
    rw [step_record hactive]
    exact hcoherent.gathering hn hdeltat hactive hkeeps hstarts
  have hgathering : s.Gathering cfg rm first (first :: dequeued es) := by
    rw [hs, run_append, run_cons]
    exact hfirst.run hn hdeltat hes hlimit
  exact readsBack_of_gathering hgathering hn hdeltat htable hrecords hclose hduration hd

/-- Two records on both drives with an idle poll between them. -/
def sampleRun : MetaIo :=
  run (step sampleConfig) (start fun _ => true) ([] ++ .record (fun _ => true) (sampleRecord 0) ::
    [.idle ⟨0, 5⟩, .record (fun _ => true) (sampleRecord 1)])

/-- The thread stops a second after the first record. -/
theorem run_readsBack_sampleRun :
    ∃ bytes, (sampleRun.step sampleConfig .stop).fs.Stored ((sampleRun.closedAs 1000000).path .chm) bytes ∧
      ReadsBack sampleConfig.format bytes (sampleRecord 0 ::
        dequeued [.idle ⟨0, 5⟩, .record (fun _ => true) (sampleRecord 1)]) :=
  run_readsBack sampleConfig rfl (by decide) (by decide +kernel) (fun _ => true) [] trivial rfl (fun _ => true) (sampleRecord 0)
    (by decide) (by decide +kernel) [.idle ⟨0, 5⟩, .record (fun _ => true) (sampleRecord 1)] (by decide +kernel)
    (by decide +kernel) (by decide +kernel) sampleRun rfl .stop 1000000 (by decide +kernel) (by decide) .chm
    (by decide +kernel)

end RecordingAgent.Metacollector
