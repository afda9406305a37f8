import Mathlib.Data.Nat.Find
import RecordingAgent.Foundation.FaultyRead

/-!
# Copying a chunk to the destination

Every chunk of a download is copied in blocks. The loop of the copy goes on until the end of the source is
noticed; that a read failed is not asked for, and neither is what closing the destination comes to.
-/

namespace RecordingAgent.Download

open Foundation

/-- `BUFF_SIZE_BIG` -/
def buffSizeBig : ℕ := 4096

/-- What the calls of a copy come to: the source, if it can be opened; whether the destination can be opened;
whether the write of what the `n`th read gave stops short, and then how many bytes it takes at most; and how
many of the last bytes closing the destination does not get written. -/
structure CopySystem where
  source : Option (FaultyFile UInt8)
  destOpens : Bool
  shortWrite : ℕ → Option ℕ
  closeLoses : ℕ

/-- A copy under way: how many reads were made, where the next one begins, whether the end was noticed, the
bytes handed over so far, the return code, and whether a read or a write failed, which no variable of the
function says. -/
structure CopyState where
  reads : ℕ
  pos : ℕ
  eof : Bool
  written : List UInt8
  success : Bool
  failed : Bool
  deriving DecidableEq

/-- A copy when both files are open. -/
def CopyState.start : CopyState := ⟨0, 0, false, [], true, false⟩

/-- The state after a read. -/
def CopyState.read (f : FaultyFile UInt8) (st : CopyState) : CopyState :=
  { st with
    reads := st.reads + 1
    pos := f.nextPos buffSizeBig st.reads st.pos
    eof := f.atEnd buffSizeBig st.reads st.pos
    failed := st.failed || (f.failure st.reads).isSome }

/-- The loop of `copy_file`, for at most so many rounds. -/
def copyLoop (sys : CopySystem) (f : FaultyFile UInt8) : ℕ → CopyState → Option CopyState
  | 0, _ => none
  | rounds + 1, st =>
    if st.eof then some st
    else
      let bytes := f.readAt buffSizeBig st.reads st.pos
      if bytes = [] then copyLoop sys f rounds (st.read f)
      else
        match sys.shortWrite st.reads with
        | some count =>
          some { st.read f with
            written := st.written ++ bytes.take (min count (bytes.length - 1))
            success := false
            failed := true }
        | none => copyLoop sys f rounds { st.read f with written := st.written ++ bytes }

/-- What a copy comes to: whether `EXIT_SUCCESS` is returned, what the destination received, and whether a read
or a write failed. -/
structure CopyResult where
  success : Bool
  received : List UInt8
  failed : Bool
  deriving DecidableEq

/-- Both files are closed. -/
def CopyState.close (sys : CopySystem) (st : CopyState) : CopyResult where
  success := st.success
  received := st.written.take (st.written.length - sys.closeLoses)
  failed := st.failed || (decide (sys.closeLoses ≠ 0) && !st.written.isEmpty)

/-- `copy_file`, for at most so many rounds of its loop. -/
def copyFile (sys : CopySystem) (rounds : ℕ) : Option CopyResult :=
  match sys.source with
  | none => some ⟨false, [], false⟩
  | some f =>
    if sys.destOpens then (copyLoop sys f rounds .start).map (CopyState.close sys)
    else some ⟨false, [], false⟩

/-- The copy ends, reports success only if the destination received the bytes of the source, and reports a
failure if a read or a write failed. -/
def TellsTruth (sys : CopySystem) : Prop :=
  ∃ rounds result, copyFile sys rounds = some result ∧
    (result.success = true → sys.source.map FaultyFile.items = some result.received) ∧
    (result.failed = true → result.success = false)

/-- Reading the source comes to its end or fails for good. -/
def CopySystem.Settles (sys : CopySystem) : Prop :=
  ∀ f, sys.source = some f →
    (∃ n, f.endsAt buffSizeBig n = true) ∨ ∃ n, ∀ k, n ≤ k → (f.failure k).isSome = true

/-- The write of what the `n`th read gives stops short. -/
def CopySystem.StopsShort (sys : CopySystem) (f : FaultyFile UInt8) (n : ℕ) : Prop :=
  f.block buffSizeBig n ≠ [] ∧ (sys.shortWrite n).isSome = true

/-- A copy after so many reads, as long as no write stopped short. -/
def copied (f : FaultyFile UInt8) (n : ℕ) : CopyState where
  reads := n
  pos := f.posAt buffSizeBig n
  eof := match n with
    | 0 => false
    | n + 1 => f.endsAt buffSizeBig n
  written := f.gathered buffSizeBig n
  success := true
  failed := (List.range n).any fun k => (f.failure k).isSome

/-! ## Runs of the loop -/

variable {sys : CopySystem} {f : FaultyFile UInt8} {n : ℕ}

/-- A read and the write of what it gives lead on to the next state. -/
theorem copied_succ : { (copied f n).read f with written := f.gathered buffSizeBig n ++ f.block buffSizeBig n } =
    copied f (n + 1) := by
  simp only [copied, CopyState.read, List.range_succ, List.any_append, List.any_cons, List.any_nil, Bool.or_false]
  rfl

/-- One round of the loop which does not end it. -/
theorem copyLoop_round (rounds : ℕ) (heof : (copied f n).eof = false) (hwrite : ¬ sys.StopsShort f n) :
    copyLoop sys f (rounds + 1) (copied f n) = copyLoop sys f rounds (copied f (n + 1)) := by
  rw [copyLoop, if_neg (by rw [heof]; exact Bool.false_ne_true), ← copied_succ]
  change (if f.block buffSizeBig n = [] then _ else _) = _
  by_cases hblock : f.block buffSizeBig n = []
  · rw [if_pos hblock, hblock, List.append_nil]
    rfl
  · rw [if_neg hblock]
    have hfull : sys.shortWrite n = none := by
      rw [← Option.not_isSome_iff_eq_none]
      exact fun hshort => hwrite ⟨hblock, hshort⟩
    change (match sys.shortWrite n with | some _ => _ | none => _) = _
    rw [hfull]
    rfl

theorem eof_copied (hreached : f.Reached buffSizeBig n) : (copied f n).eof = false := by
  cases n with
  | zero => rfl
  | succ n => exact hreached n (Nat.lt_succ_self n)

/-- As long as the end is not noticed and no write stops short, the loop goes on. -/
theorem copyLoop_rounds (rounds : ℕ) (hreached : f.Reached buffSizeBig n)
    (hwrites : ∀ k < n, ¬ sys.StopsShort f k) :
    copyLoop sys f (rounds + n) .start = copyLoop sys f rounds (copied f n) := by
  induction n generalizing rounds with
  | zero => rfl
  | succ n ih =>
    obtain ⟨hbefore, -⟩ := FaultyFile.reached_succ.mp hreached
    rw [show rounds + (n + 1) = (rounds + 1) + n by omega, ih (rounds + 1) hbefore fun k hk => hwrites k (by omega)]
    exact copyLoop_round rounds (eof_copied hbefore) (hwrites n (Nat.lt_succ_self n))

/-- More rounds than the loop needs change nothing. -/
theorem copyLoop_succ {rounds : ℕ} {st last : CopyState} (h : copyLoop sys f rounds st = some last) :
    copyLoop sys f (rounds + 1) st = some last := by
  induction rounds generalizing st with
  | zero => exact absurd h (Option.some_ne_none _).symm
  | succ rounds ih =>
    rw [copyLoop] at h ⊢
    by_cases heof : st.eof = true
    · rw [if_pos heof] at h ⊢
      exact h
    · rw [if_neg heof] at h ⊢
      by_cases hblock : f.readAt buffSizeBig st.reads st.pos = []
      · simp only [if_pos hblock] at h ⊢
        exact ih h
      · simp only [if_neg hblock] at h ⊢
        cases hshort : sys.shortWrite st.reads with
        | some count => simpa only [hshort] using h
        | none =>
          simp only [hshort] at h ⊢
          exact ih h

theorem copyLoop_add {rounds : ℕ} {st last : CopyState} (h : copyLoop sys f rounds st = some last) (more : ℕ) :
    copyLoop sys f (rounds + more) st = some last := by
  induction more with
  | zero => exact h
  | succ more ih => exact copyLoop_succ ih

/-- The loop comes to one result only. -/
theorem copyLoop_unique {rounds rounds' : ℕ} {st last last' : CopyState}
    (h : copyLoop sys f rounds st = some last) (h' : copyLoop sys f rounds' st = some last') : last = last' := by
  have hboth := copyLoop_add h' rounds
  rw [Nat.add_comm, copyLoop_add h rounds'] at hboth
  exact Option.some.inj hboth

/-- A write which stops short ends the copy with a failure. -/
theorem copyLoop_of_stopsShort (hreached : f.Reached buffSizeBig n) (hwrites : ∀ k < n, ¬ sys.StopsShort f k)
    (hshort : sys.StopsShort f n) : ∃ last, copyLoop sys f (1 + n) .start = some last ∧ last.success = false := by
  obtain ⟨hblock, hwrite⟩ := hshort
  obtain ⟨count, hcount⟩ := Option.isSome_iff_exists.mp hwrite
  rw [copyLoop_rounds 1 hreached hwrites, copyLoop, if_neg (by rw [eof_copied hreached]; exact Bool.false_ne_true)]
  change ∃ last, (if f.block buffSizeBig n = [] then _ else match sys.shortWrite n with | some _ => _ | none => _) =
    some last ∧ _
  rw [if_neg hblock, hcount]
  exact ⟨_, rfl, rfl⟩

/-- The end of the source ends the copy with a success. -/
theorem copyLoop_of_endsAt (hreached : f.Reached buffSizeBig n) (hwrites : ∀ k ≤ n, ¬ sys.StopsShort f k)
    (hend : f.endsAt buffSizeBig n = true) : copyLoop sys f (2 + n) .start = some (copied f (n + 1)) := by
  rw [copyLoop_rounds 2 hreached fun k hk => hwrites k (Nat.le_of_lt hk),
    copyLoop_round 1 (eof_copied hreached) (hwrites n (Nat.le_refl n)), copyLoop, if_pos]
  exact hend

/-- A source whose end is never noticed is copied for ever, unless a write stops short. -/
theorem copyLoop_of_never (hends : ∀ k, f.endsAt buffSizeBig k = false) (hwrites : ∀ k, ¬ sys.StopsShort f k)
    (rounds : ℕ) : copyLoop sys f rounds .start = none := by
  have hround : copyLoop sys f (0 + rounds) .start = copyLoop sys f 0 (copied f rounds) :=
    copyLoop_rounds 0 (fun k _ => hends k) fun k _ => hwrites k
  rwa [Nat.zero_add] at hround

/-! ## The report of a copy -/

/-- A copy of open files tells the truth when its loop ends with a state whose closing does. -/
theorem tellsTruth_open (hsource : sys.source = some f) (hdest : sys.destOpens = true) :
    TellsTruth sys ↔ ∃ rounds last, copyLoop sys f rounds .start = some last ∧
      ((last.close sys).success = true → f.items = (last.close sys).received) ∧
      ((last.close sys).failed = true → (last.close sys).success = false) := by
  unfold TellsTruth copyFile
  simp only [hsource, hdest, if_true, Option.map_eq_some_iff, Option.map_some, Option.some.injEq]
  constructor
  · rintro ⟨rounds, _, ⟨last, hlast, rfl⟩, htruth⟩
    exact ⟨rounds, last, hlast, htruth⟩
  · rintro ⟨rounds, last, hlast, htruth⟩
    exact ⟨rounds, _, ⟨last, hlast, rfl⟩, htruth⟩

/-- A write which stops short is reported. -/
theorem tellsTruth_of_stopsShort (hsource : sys.source = some f) (hdest : sys.destOpens = true)
    (h : ∃ n, f.Reached buffSizeBig n ∧ sys.StopsShort f n) : TellsTruth sys := by
  classical
  have hfirst : ∃ n, sys.StopsShort f n := h.imp fun n hn => hn.2
  obtain ⟨n, hreached, hshort⟩ := h
  have hle : Nat.find hfirst ≤ n := Nat.find_min' hfirst hshort
  obtain ⟨last, hlast, hfailure⟩ := copyLoop_of_stopsShort (hreached.mono hle)
    (fun k hk => Nat.find_min hfirst hk) (Nat.find_spec hfirst)
  rw [tellsTruth_open hsource hdest]
  refine ⟨_, last, hlast, fun hsuccess => ?_, fun _ => hfailure⟩
  exact absurd (hfailure.symm.trans hsuccess) Bool.false_ne_true

/-- What was read without a failure up to the end is reported truly when closing loses nothing of it. -/
theorem copied_truth_iff (hreached : f.Reached buffSizeBig n) (hend : f.endsAt buffSizeBig n = true) :
    ((((copied f (n + 1)).close sys).success = true → f.items = ((copied f (n + 1)).close sys).received) ∧
        (((copied f (n + 1)).close sys).failed = true → ((copied f (n + 1)).close sys).success = false)) ↔
      (sys.closeLoses = 0 ∨ f.items = []) ∧ ∀ k ≤ n, f.failure k = none := by
  have hfailed : (copied f (n + 1)).failed = false ↔ ∀ k ≤ n, f.failure k = none := by
    simp only [copied, List.any_eq_false, List.mem_range, Nat.lt_succ_iff, Bool.not_eq_true,
      Option.isSome_eq_false_iff, Option.isNone_iff_eq_none]
  have hclosed : ((copied f (n + 1)).close sys).failed = false ↔
      (copied f (n + 1)).failed = false ∧ (sys.closeLoses = 0 ∨ f.gathered buffSizeBig (n + 1) = []) := by
    change ((copied f (n + 1)).failed || (decide (sys.closeLoses ≠ 0) && !(f.gathered buffSizeBig (n + 1)).isEmpty)) =
      false ↔ _
    rw [Bool.or_eq_false_iff, Bool.and_eq_false_iff, decide_eq_false_iff_not, not_not, Bool.not_eq_false',
      List.isEmpty_iff]
  change ((true = true → f.items = _) ∧ (_ → true = false)) ↔ _
  simp only [true_implies, Bool.true_eq_false, imp_false, Bool.not_eq_true, hclosed, hfailed]
  constructor
  · rintro ⟨-, hnone, hlost⟩
    rw [FaultyFile.gathered_of_endsAt hreached hnone hend] at hlost
    exact ⟨hlost, hnone⟩
  · rintro ⟨hlost, hnone⟩
    have hall := FaultyFile.gathered_of_endsAt hreached hnone hend
    rw [hall]
    refine ⟨?_, hnone, hlost⟩
    change f.items = (f.gathered buffSizeBig (n + 1)).take ((f.gathered buffSizeBig (n + 1)).length - sys.closeLoses)
    rw [hall]
    rcases hlost with hzero | hempty
    · rw [hzero, Nat.sub_zero, List.take_length]
    · rw [hempty, List.take_nil]

/-- A copy whose files do not both open reports it. -/
theorem tellsTruth_of_not_open (rounds : ℕ) (h : copyFile sys rounds = some ⟨false, [], false⟩) : TellsTruth sys :=
  ⟨rounds, _, h, fun hsuccess => absurd hsuccess Bool.false_ne_true, fun _ => rfl⟩

/-- The reads which take place are those up to the first which notices the end. -/
theorem reached_iff_le (hreached : f.Reached buffSizeBig n) (hend : f.endsAt buffSizeBig n = true) (k : ℕ) :
    f.Reached buffSizeBig k ↔ k ≤ n := by
  refine ⟨fun hk => ?_, fun hk => hreached.mono hk⟩
  by_contra hlt
  rw [hk n (not_le.mp hlt)] at hend
  exact absurd hend Bool.false_ne_true

/-- A copy up to the end of the source, without a write which stops short. -/
theorem tellsTruth_iff_of_ends (hsource : sys.source = some f) (hdest : sys.destOpens = true)
    (hwrites : ¬ ∃ k, f.Reached buffSizeBig k ∧ sys.StopsShort f k)
    (hreached : f.Reached buffSizeBig n) (hend : f.endsAt buffSizeBig n = true) :
    TellsTruth sys ↔ (sys.closeLoses = 0 ∨ f.items = []) ∧ ∀ k, f.Reached buffSizeBig k → f.failure k = none := by
  have hlast := copyLoop_of_endsAt hreached (fun k hk hstops => hwrites ⟨k, hreached.mono hk, hstops⟩) hend
  simp only [reached_iff_le hreached hend]
  rw [tellsTruth_open hsource hdest, ← copied_truth_iff hreached hend]
  constructor
  · rintro ⟨rounds, last, hloop, htruth⟩
    rw [copyLoop_unique hloop hlast] at htruth
    exact htruth
  · exact fun htruth => ⟨_, _, hlast, htruth⟩

/-- A copy whose source never comes to its end does not return. -/
theorem not_tellsTruth_of_never (hsource : sys.source = some f) (hdest : sys.destOpens = true)
    (hwrites : ∀ k, ¬ sys.StopsShort f k) (hends : ∀ k, f.endsAt buffSizeBig k = false) : ¬ TellsTruth sys := by
  rw [tellsTruth_open hsource hdest]
  rintro ⟨rounds, last, hloop, -⟩
  rw [copyLoop_of_never hends hwrites] at hloop
  cases hloop

/-- A copy tells the truth exactly when a file cannot be opened, a write stops short, or no read fails and
closing loses nothing. -/
theorem tellsTruth_iff (sys : CopySystem) :
    TellsTruth sys ↔ ∀ f, sys.source = some f → sys.destOpens = true →
      (∃ n, f.Reached buffSizeBig n ∧ sys.StopsShort f n) ∨
        (sys.closeLoses = 0 ∨ f.items = []) ∧ ∀ n, f.Reached buffSizeBig n → f.failure n = none := by
  classical
  cases hsource : sys.source with
  | none =>
    have htruth : TellsTruth sys := tellsTruth_of_not_open 0 (by rw [copyFile, hsource])
    exact iff_of_true htruth fun _ h => absurd h.symm (Option.some_ne_none _)
  | some f =>
    cases hdest : sys.destOpens with
    | false =>
      have htruth : TellsTruth sys :=
        tellsTruth_of_not_open 0 (by simp only [copyFile, hsource, hdest, Bool.false_eq_true, if_false])
      exact iff_of_true htruth fun _ _ h => absurd h Bool.false_ne_true
    | true =>
      simp only [Option.some.injEq, forall_eq', forall_const]
      by_cases hshort : ∃ n, f.Reached buffSizeBig n ∧ sys.StopsShort f n
      · exact iff_of_true (tellsTruth_of_stopsShort hsource hdest hshort) (Or.inl hshort)
      rw [or_iff_right hshort]
      by_cases hends : ∃ n, f.endsAt buffSizeBig n = true
      · -- the loop ends behind the first read which notices the end
        exact tellsTruth_iff_of_ends hsource hdest hshort
          (fun k hk => Bool.eq_false_iff.mpr (Nat.find_min hends hk)) (Nat.find_spec hends)
      · -- a source whose end is never noticed has reads which fail
        have hnever : ∀ k, f.endsAt buffSizeBig k = false := fun k => Bool.eq_false_iff.mpr fun hk => hends ⟨k, hk⟩
        refine iff_of_false (not_tellsTruth_of_never hsource hdest ?_ hnever) fun h =>
          hends (FaultyFile.exists_endsAt (by decide) h.2)
        exact fun k hk => hshort ⟨k, fun j _ => hnever j, hk⟩

/-- A source which opens but whose reads all fail, such as a directory. -/
def unreadable : CopySystem where
  source := some ⟨[], fun _ => some (0, 0)⟩
  destOpens := true
  shortWrite _ := none
  closeLoses := 0

/-- The copy of a source whose reads all fail never ends. -/
theorem not_tellsTruth_unreadable : ¬ ∀ sys : CopySystem, sys.Settles → TellsTruth sys := by
  intro h
  have hsettles : unreadable.Settles := by
    intro f hf
    cases hf
    exact Or.inr ⟨0, fun _ _ => rfl⟩
  obtain ⟨rounds, result, hcopy, -⟩ := h unreadable hsettles
  have hnever : copyFile unreadable rounds = none := by
    change (copyLoop unreadable ⟨[], fun _ => some (0, 0)⟩ rounds .start).map _ = none
    rw [copyLoop_of_never (fun _ => rfl), Option.map_none]
    intro k hshort
    cases hshort.2
  rw [hnever] at hcopy
  cases hcopy

end RecordingAgent.Download
