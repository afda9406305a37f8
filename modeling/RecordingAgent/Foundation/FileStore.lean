import Mathlib.Data.Set.Insert
import RecordingAgent.Foundation.Bytes

/-!
# Files behind stdio streams

A store of files with their directory: paths name inodes, streams write to inodes and go on
writing there when the path is renamed. Opening for writing truncates the file a path names,
or makes a new one. A stream which was closed stays behind as a number; using it is recorded.

The rules are stated for one file at a time: `At` says that an open stream is at a position
of the file its path names, `Stored` says what a path names. Every operation has a rule for
the path it works on and keeps what is known of every other path.
-/

namespace Foundation

/-- The state of a stream. -/
structure Stream where
  inode : ℕ
  pos : ℕ
  isOpen : Bool
  deriving DecidableEq, Repr

/-- Files, the directory and the streams. -/
structure FileStore (P : Type*) where
  dir : P → Option ℕ
  inodes : ℕ → List UInt8
  inodeCount : ℕ
  streams : ℕ → Stream
  streamCount : ℕ
  /-- Some operation was applied to a closed stream. -/
  misused : Bool

namespace FileStore

variable {P : Type*}

/-- No file and no stream. -/
def empty : FileStore P where
  dir := fun _ => none
  inodes := fun _ => []
  inodeCount := 0
  streams := fun _ => ⟨0, 0, false⟩
  streamCount := 0
  misused := false

/-- Record a use of the stream. -/
def touch (fs : FileStore P) (f : ℕ) : FileStore P :=
  { fs with misused := fs.misused || !(fs.streams f).isOpen }

/-- Set the position of a stream. -/
def fseek (fs : FileStore P) (f pos : ℕ) : FileStore P :=
  { fs.touch f with streams := Function.update fs.streams f { fs.streams f with pos } }

/-- Write at the position of a stream and advance it. -/
def fwrite (fs : FileStore P) (f : ℕ) (data : List UInt8) : FileStore P :=
  let s := fs.streams f
  { fs.touch f with
    inodes := Function.update fs.inodes s.inode (writeAt (fs.inodes s.inode) s.pos data)
    streams := Function.update fs.streams f { s with pos := s.pos + data.length } }

/-- The position of a stream. -/
def ftell (fs : FileStore P) (f : ℕ) : ℕ × FileStore P := ((fs.streams f).pos, fs.touch f)

/-- Replace the whole contents of the file of a stream. -/
def rewrite (fs : FileStore P) (f : ℕ) (change : List UInt8 → List UInt8) : FileStore P :=
  let i := (fs.streams f).inode
  { fs.touch f with inodes := Function.update fs.inodes i (change (fs.inodes i)) }

/-- Close a stream. -/
def fclose (fs : FileStore P) (f : ℕ) : FileStore P :=
  { fs.touch f with streams := Function.update fs.streams f { fs.streams f with isOpen := false } }

/-- The contents of the file of a stream. -/
def contents (fs : FileStore P) (f : ℕ) : List UInt8 := fs.inodes (fs.streams f).inode

/-- No two paths name one file, and what was not made yet is not in use. -/
structure WellFormed (fs : FileStore P) : Prop where
  single : ∀ p q i, fs.dir p = some i → fs.dir q = some i → p = q
  made : ∀ p i, fs.dir p = some i → i < fs.inodeCount
  opened : ∀ f, (fs.streams f).isOpen = true → f < fs.streamCount

/-- The path names a file with these contents. -/
def Stored (fs : FileStore P) (p : P) (bytes : List UInt8) : Prop :=
  ∃ i, fs.dir p = some i ∧ fs.inodes i = bytes

/-- The open stream is at this position of the file with these contents which the path names. -/
def At (fs : FileStore P) (f : ℕ) (p : P) (bytes : List UInt8) (pos : ℕ) : Prop :=
  ∃ i, fs.streams f = ⟨i, pos, true⟩ ∧ fs.dir p = some i ∧ fs.inodes i = bytes

/-- The store stays in order, and what it says of the paths outside a set is kept. -/
structure Confined (T : Set P) (fs fs' : FileStore P) : Prop where
  wellFormed : fs'.WellFormed
  misused : fs'.misused = fs.misused
  stored : ∀ q bytes, q ∉ T → fs.Stored q bytes → fs'.Stored q bytes
  at_ : ∀ f q bytes pos, q ∉ T → fs.At f q bytes pos → fs'.At f q bytes pos

variable {fs fs' fs'' : FileStore P} {p q : P} {f : ℕ} {bytes : List UInt8} {pos : ℕ}

theorem At.isOpen (h : fs.At f p bytes pos) : (fs.streams f).isOpen = true := by
  obtain ⟨i, hstream, -, -⟩ := h
  rw [hstream]

theorem At.contents (h : fs.At f p bytes pos) : fs.contents f = bytes := by
  obtain ⟨i, hstream, -, hbytes⟩ := h
  rw [FileStore.contents, hstream]
  exact hbytes

theorem At.stored (h : fs.At f p bytes pos) : fs.Stored p bytes := by
  obtain ⟨i, -, hdir, hbytes⟩ := h
  exact ⟨i, hdir, hbytes⟩

theorem At.ftell (h : fs.At f p bytes pos) : (fs.ftell f).1 = pos := by
  obtain ⟨i, hstream, -, -⟩ := h
  rw [FileStore.ftell, hstream]

namespace Confined

variable {T U : Set P}

theorem refl (hwf : fs.WellFormed) (T : Set P) : Confined T fs fs :=
  ⟨hwf, rfl, fun _ _ _ h => h, fun _ _ _ _ _ h => h⟩

theorem trans (h : Confined T fs fs') (h' : Confined T fs' fs'') : Confined T fs fs'' where
  wellFormed := h'.wellFormed
  misused := h'.misused.trans h.misused
  stored q b hq hs := h'.stored q b hq (h.stored q b hq hs)
  at_ f q b k hq hs := h'.at_ f q b k hq (h.at_ f q b k hq hs)

theorem mono (h : Confined T fs fs') (hTU : T ⊆ U) : Confined U fs fs' where
  wellFormed := h.wellFormed
  misused := h.misused
  stored q b hq := h.stored q b fun hmem => hq (hTU hmem)
  at_ f q b k hq := h.at_ f q b k fun hmem => hq (hTU hmem)

end Confined

/-- Using an open stream records nothing. -/
theorem touch_misused (h : (fs.streams f).isOpen = true) : (fs.touch f).misused = fs.misused := by
  simp [touch, h]

/-- Two streams on files of different paths are different, and so are their files. -/
theorem At.ne {g : ℕ} {bytes' : List UInt8} {pos' : ℕ} (hwf : fs.WellFormed)
    (hf : fs.At f p bytes pos) (hg : fs.At g q bytes' pos') (hpq : q ≠ p) :
    g ≠ f ∧ (fs.streams g).inode ≠ (fs.streams f).inode := by
  obtain ⟨i, hfs, hfd, -⟩ := hf
  obtain ⟨j, hgs, hgd, -⟩ := hg
  have hij : j ≠ i := by
    rintro rfl
    exact hpq (hwf.single q p j hgd hfd)
  refine ⟨?_, by rw [hfs, hgs]; exact hij⟩
  rintro rfl
  rw [hfs] at hgs
  exact hij (congrArg Stream.inode hgs).symm

/-- An operation on one stream changes nothing but that stream and its file, and does not open it. -/
structure LocalTo (f : ℕ) (fs fs' : FileStore P) : Prop where
  dir : fs'.dir = fs.dir
  inodeCount : fs'.inodeCount = fs.inodeCount
  streamCount : fs'.streamCount = fs.streamCount
  inodes : ∀ j, j ≠ (fs.streams f).inode → fs'.inodes j = fs.inodes j
  streams : ∀ g, g ≠ f → fs'.streams g = fs.streams g
  opens : (fs'.streams f).isOpen = true → (fs.streams f).isOpen = true
  misused : (fs.streams f).isOpen = true → fs'.misused = fs.misused

namespace LocalTo

theorem wellFormed (h : LocalTo f fs fs') (hwf : fs.WellFormed) : fs'.WellFormed where
  single := by
    rw [h.dir]
    exact hwf.single
  made := by
    rw [h.dir, h.inodeCount]
    exact hwf.made
  opened g hg := by
    rw [h.streamCount]
    by_cases hgf : g = f
    · subst hgf
      exact hwf.opened g (h.opens hg)
    · rw [h.streams g hgf] at hg
      exact hwf.opened g hg

/-- An operation on the open stream of one path is confined to that path. -/
theorem confined (h : LocalTo f fs fs') (hwf : fs.WellFormed) (hat : fs.At f p bytes pos) :
    Confined {p} fs fs' where
  wellFormed := h.wellFormed hwf
  misused := h.misused hat.isOpen
  stored q b hq := by
    rintro ⟨j, hdir, hb⟩
    obtain ⟨i, hstream, hdirp, -⟩ := hat
    have hne : j ≠ i := by
      rintro rfl
      exact hq (hwf.single q p j hdir hdirp)
    refine ⟨j, by rw [h.dir]; exact hdir, ?_⟩
    rw [h.inodes j (by rw [hstream]; exact hne)]
    exact hb
  at_ g q b k hq hg := by
    obtain ⟨hgf, hinode⟩ := hat.ne hwf hg hq
    obtain ⟨j, hstream, hdir, hb⟩ := hg
    refine ⟨j, by rw [h.streams g hgf]; exact hstream, by rw [h.dir]; exact hdir, ?_⟩
    rw [hstream] at hinode
    rw [h.inodes j hinode]
    exact hb

end LocalTo

theorem localTo_fseek (fs : FileStore P) (f pos : ℕ) : LocalTo f fs (fs.fseek f pos) where
  dir := rfl
  inodeCount := rfl
  streamCount := rfl
  inodes _ _ := rfl
  streams _ hg := Function.update_of_ne hg _ _
  opens h := by simpa [fseek] using h
  misused := touch_misused

theorem localTo_fwrite (fs : FileStore P) (f : ℕ) (data : List UInt8) :
    LocalTo f fs (fs.fwrite f data) where
  dir := rfl
  inodeCount := rfl
  streamCount := rfl
  inodes _ hj := Function.update_of_ne hj _ _
  streams _ hg := Function.update_of_ne hg _ _
  opens h := by simpa [fwrite] using h
  misused := touch_misused

theorem localTo_rewrite (fs : FileStore P) (f : ℕ) (change : List UInt8 → List UInt8) :
    LocalTo f fs (fs.rewrite f change) where
  dir := rfl
  inodeCount := rfl
  streamCount := rfl
  inodes _ hj := Function.update_of_ne hj _ _
  streams _ _ := rfl
  opens h := h
  misused := touch_misused

theorem localTo_fclose (fs : FileStore P) (f : ℕ) : LocalTo f fs (fs.fclose f) where
  dir := rfl
  inodeCount := rfl
  streamCount := rfl
  inodes _ _ := rfl
  streams _ hg := Function.update_of_ne hg _ _
  opens h := by simp [fclose] at h
  misused := touch_misused

/-- Seeking moves the stream. -/
theorem At.fseek (h : fs.At f p bytes pos) (k : ℕ) : (fs.fseek f k).At f p bytes k := by
  obtain ⟨i, hstream, hdir, hbytes⟩ := h
  exact ⟨i, by simp [FileStore.fseek, hstream], hdir, hbytes⟩

/-- Writing changes the contents and advances the stream. -/
theorem At.fwrite (h : fs.At f p bytes pos) (data : List UInt8) :
    (fs.fwrite f data).At f p (writeAt bytes pos data) (pos + data.length) := by
  obtain ⟨i, hstream, hdir, hbytes⟩ := h
  refine ⟨i, by simp [FileStore.fwrite, hstream], hdir, ?_⟩
  simp [FileStore.fwrite, hstream, hbytes]

/-- Replacing the contents leaves the stream where it is. -/
theorem At.rewrite (h : fs.At f p bytes pos) (change : List UInt8 → List UInt8) :
    (fs.rewrite f change).At f p (change bytes) pos := by
  obtain ⟨i, hstream, hdir, hbytes⟩ := h
  exact ⟨i, hstream, hdir, by simp [FileStore.rewrite, hstream, hbytes]⟩

/-- Closing leaves the file stored. -/
theorem At.fclose (h : fs.At f p bytes pos) : (fs.fclose f).Stored p bytes := by
  obtain ⟨i, -, hdir, hbytes⟩ := h
  exact ⟨i, hdir, hbytes⟩

/-- Asking for the position changes nothing. -/
theorem At.ftell_confined (hwf : fs.WellFormed) (h : fs.At f p bytes pos) (T : Set P) :
    Confined T fs (fs.ftell f).2 :=
  ⟨⟨hwf.single, hwf.made, hwf.opened⟩, touch_misused h.isOpen, fun _ _ _ hs => hs,
    fun _ _ _ _ _ hs => hs⟩

/-- A directory in which every path names nothing or what it did is well-formed. -/
theorem WellFormed.of_dir {dir : P → Option ℕ} (hwf : fs.WellFormed)
    (hdir : ∀ r i, dir r = some i → fs.dir r = some i) : WellFormed { fs with dir } where
  single r r' i hr hr' := hwf.single r r' i (hdir r i hr) (hdir r' i hr')
  made r i hr := hwf.made r i (hdir r i hr)
  opened := hwf.opened

variable [DecidableEq P]

/-- Open a path for writing: the file is empty and the stream at its start. -/
def fopen (fs : FileStore P) (p : P) : ℕ × FileStore P :=
  match fs.dir p with
  | some i =>
    (fs.streamCount, { fs with
      inodes := Function.update fs.inodes i []
      streams := Function.update fs.streams fs.streamCount ⟨i, 0, true⟩
      streamCount := fs.streamCount + 1 })
  | none =>
    (fs.streamCount, { fs with
      dir := Function.update fs.dir p (some fs.inodeCount)
      inodes := Function.update fs.inodes fs.inodeCount []
      inodeCount := fs.inodeCount + 1
      streams := Function.update fs.streams fs.streamCount ⟨fs.inodeCount, 0, true⟩
      streamCount := fs.streamCount + 1 })

/-- Rename a file over whatever the new path names; the result says whether there was one. -/
def rename (fs : FileStore P) (p q : P) : Bool × FileStore P :=
  match fs.dir p with
  | none => (false, fs)
  | some i => (true, { fs with dir := Function.update (Function.update fs.dir p none) q (some i) })

/-- Remove a path. -/
def remove (fs : FileStore P) (p : P) : FileStore P :=
  { fs with dir := Function.update fs.dir p none }

/-- Opening makes the path an empty file with the stream at its start. -/
theorem fopen_at (hwf : fs.WellFormed) (p : P) :
    (fs.fopen p).2.At (fs.fopen p).1 p [] 0 ∧ Confined {p} fs (fs.fopen p).2 := by
  have hfresh : ∀ g q b k, fs.At g q b k → g ≠ fs.streamCount :=
    fun g q b k hg => (hwf.opened g hg.isOpen).ne
  unfold fopen
  cases hp : fs.dir p with
  | some i =>
    refine ⟨⟨i, by simp, hp, by simp⟩, ⟨hwf.single, hwf.made, ?_⟩, rfl, ?_, ?_⟩
    · intro g hg
      by_cases hgf : g = fs.streamCount
      · subst hgf
        exact Nat.lt_succ_self _
      · exact Nat.lt_succ_of_lt (hwf.opened g (by simpa [hgf] using hg))
    · rintro q b hq ⟨j, hdir, hb⟩
      have hj : j ≠ i := fun heq => hq (hwf.single q p j hdir (heq ▸ hp))
      exact ⟨j, hdir, by simpa [hj] using hb⟩
    · intro g q b k hq hg
      have hgf := hfresh g q b k hg
      obtain ⟨j, hstream, hdir, hb⟩ := hg
      have hj : j ≠ i := fun heq => hq (hwf.single q p j hdir (heq ▸ hp))
      exact ⟨j, by simpa [hgf] using hstream, hdir, by simpa [hj] using hb⟩
  | none =>
    refine ⟨⟨fs.inodeCount, by simp, by simp, by simp⟩, ⟨?_, ?_, ?_⟩, rfl, ?_, ?_⟩
    · intro q r i hq hr
      by_cases hqp : q = p <;> by_cases hrp : r = p
      · rw [hqp, hrp]
      · have hi : fs.inodeCount = i := by simpa [hqp] using hq
        have hmade := hwf.made r i (by simpa [hrp] using hr)
        omega
      · have hi : fs.inodeCount = i := by simpa [hrp] using hr
        have hmade := hwf.made q i (by simpa [hqp] using hq)
        omega
      · exact hwf.single q r i (by simpa [hqp] using hq) (by simpa [hrp] using hr)
    · intro q i hq
      change i < fs.inodeCount + 1
      by_cases hqp : q = p
      · have hi : fs.inodeCount = i := by simpa [hqp] using hq
        omega
      · exact Nat.lt_succ_of_lt (hwf.made q i (by simpa [hqp] using hq))
    · intro g hg
      by_cases hgf : g = fs.streamCount
      · subst hgf
        exact Nat.lt_succ_self _
      · exact Nat.lt_succ_of_lt (hwf.opened g (by simpa [hgf] using hg))
    · rintro q b hq ⟨j, hdir, hb⟩
      have hj : j ≠ fs.inodeCount := (hwf.made q j hdir).ne
      rw [Set.mem_singleton_iff] at hq
      exact ⟨j, by simpa [hq] using hdir, by simpa [hj] using hb⟩
    · intro g q b k hq hg
      have hgf := hfresh g q b k hg
      obtain ⟨j, hstream, hdir, hb⟩ := hg
      have hj : j ≠ fs.inodeCount := (hwf.made q j hdir).ne
      rw [Set.mem_singleton_iff] at hq
      exact ⟨j, by simpa [hgf] using hstream, by simpa [hq] using hdir, by simpa [hj] using hb⟩

/-- Removing a path is confined to it. -/
theorem remove_confined (hwf : fs.WellFormed) (p : P) : Confined {p} fs (fs.remove p) := by
  have hother : ∀ q, q ∉ ({p} : Set P) → (fs.remove p).dir q = fs.dir q :=
    fun q hq => Function.update_of_ne hq _ _
  refine ⟨hwf.of_dir ?_, rfl, ?_, ?_⟩
  · intro r i hr
    by_cases hrp : r = p
    · simp [hrp] at hr
    · simpa [hrp] using hr
  · rintro q b hq ⟨i, hdir, hb⟩
    exact ⟨i, (hother q hq).trans hdir, hb⟩
  · rintro g q b k hq ⟨i, hstream, hdir, hb⟩
    exact ⟨i, hstream, (hother q hq).trans hdir, hb⟩

/-- Renaming a path that names nothing does nothing. -/
theorem rename_of_none (hdir : fs.dir p = none) (q : P) : fs.rename p q = (false, fs) := by
  rw [rename, hdir]

/-- Renaming a stored file makes the new path name it and keeps the others. -/
theorem rename_stored (hwf : fs.WellFormed) (h : fs.Stored p bytes) (q : P) :
    (fs.rename p q).1 = true ∧ (fs.rename p q).2.Stored q bytes ∧
      Confined {p, q} fs (fs.rename p q).2 := by
  obtain ⟨i, hdir, hbytes⟩ := h
  have hold : ∀ r j, r ≠ q → Function.update (Function.update fs.dir p none) q (some i) r = some j →
      r ≠ p ∧ fs.dir r = some j := by
    intro r j hrq hr
    rw [Function.update_of_ne hrq] at hr
    by_cases hrp : r = p
    · rw [hrp, Function.update_self] at hr
      cases hr
    · exact ⟨hrp, by rwa [Function.update_of_ne hrp] at hr⟩
  have hnew : ∀ j, Function.update (Function.update fs.dir p none) q (some i) q = some j → i = j := by
    intro j hj
    simpa using hj
  have hother : ∀ r, r ∉ ({p, q} : Set P) →
      Function.update (Function.update fs.dir p none) q (some i) r = fs.dir r := by
    intro r hr
    simp only [Set.mem_insert_iff, Set.mem_singleton_iff, not_or] at hr
    rw [Function.update_of_ne hr.2, Function.update_of_ne hr.1]
  rw [rename, hdir]
  refine ⟨rfl, ⟨i, by simp, hbytes⟩, ⟨?_, ?_, hwf.opened⟩, rfl, ?_, ?_⟩
  · intro r r' j hr hr'
    by_cases hrq : r = q <;> by_cases hrq' : r' = q
    · rw [hrq, hrq']
    · obtain ⟨hne, hwas⟩ := hold r' j hrq' hr'
      rw [hrq] at hr
      exact absurd (hwf.single r' p j hwas ((hnew j hr) ▸ hdir)) hne
    · obtain ⟨hne, hwas⟩ := hold r j hrq hr
      rw [hrq'] at hr'
      exact absurd (hwf.single r p j hwas ((hnew j hr') ▸ hdir)) hne
    · exact hwf.single r r' j (hold r j hrq hr).2 (hold r' j hrq' hr').2
  · intro r j hr
    by_cases hrq : r = q
    · rw [hrq] at hr
      exact (hnew j hr) ▸ hwf.made p i hdir
    · exact hwf.made r j (hold r j hrq hr).2
  · rintro r b hr ⟨j, hdirr, hb⟩
    exact ⟨j, (hother r hr).trans hdirr, hb⟩
  · rintro g r b k hr ⟨j, hstream, hdirr, hb⟩
    exact ⟨j, hstream, (hother r hr).trans hdirr, hb⟩

/-- Renaming is confined to the two paths, whether the old one names a file or not. -/
theorem rename_confined (hwf : fs.WellFormed) (p q : P) : Confined {p, q} fs (fs.rename p q).2 := by
  cases hdir : fs.dir p with
  | none =>
    rw [rename_of_none hdir]
    exact .refl hwf _
  | some i => exact (rename_stored hwf ⟨i, hdir, rfl⟩ q).2.2

end FileStore

end Foundation
