import Mathlib.Data.List.Perm.Basic
import Mathlib.Logic.Function.Iterate
import Mathlib.Order.Lattice

/-!
# Sorting by exchanges with a narrow temporary

Entries are put in the order of their keys by passes over a list. A pass exchanges neighbours which are out of
order, and the key which moves on goes through a temporary that may change it. The result is in order, with
every key unchanged, exactly when no key which the temporary changes is in front of a smaller one.
-/

namespace Foundation

variable {K A : Type*} [LinearOrder K] (narrow : K → K)

/-- A pass which has come to an entry. -/
def passFrom : K × A → List (K × A) → List (K × A)
  | x, [] => [x]
  | x, y :: rest => if y.1 < x.1 then y :: passFrom (narrow x.1, x.2) rest else x :: passFrom y rest

/-- A pass over a list. -/
def sortPass : List (K × A) → List (K × A)
  | [] => []
  | x :: rest => passFrom narrow x rest

/-- As many passes as there are entries. -/
def exchangeSort (entries : List (K × A)) : List (K × A) := (sortPass narrow)^[entries.length] entries

/-- No key which the temporary changes is in front of a smaller one. -/
def KeepsKeys (entries : List (K × A)) : Prop := entries.Pairwise fun x y => narrow x.1 = x.1 ∨ x.1 ≤ y.1

variable {narrow} {x y : K × A} {rest entries back : List (K × A)}

/-- Whatever happens to the keys, the entries are permuted. -/
theorem passFrom_map_snd_perm : ((passFrom narrow x rest).map Prod.snd).Perm ((x :: rest).map Prod.snd) := by
  induction rest generalizing x with
  | nil => exact List.Perm.refl _
  | cons y rest ih =>
    rw [passFrom]
    split
    · exact ((ih (x := (narrow x.1, x.2))).cons y.2).trans (List.Perm.swap x.2 y.2 _)
    · exact (ih (x := y)).cons x.2

theorem sortPass_map_snd_perm : ((sortPass narrow entries).map Prod.snd).Perm (entries.map Prod.snd) := by
  cases entries with
  | nil => exact List.Perm.refl _
  | cons x rest => exact passFrom_map_snd_perm

theorem exchangeSort_map_snd_perm : ((exchangeSort narrow entries).map Prod.snd).Perm (entries.map Prod.snd) := by
  rw [exchangeSort]
  generalize entries.length = n
  induction n with
  | zero => exact List.Perm.refl _
  | succ n ih =>
    rw [Function.iterate_succ_apply']
    exact sortPass_map_snd_perm.trans ih

theorem KeepsKeys.head_kept (h : KeepsKeys narrow (x :: y :: rest)) (hlt : y.1 < x.1) : narrow x.1 = x.1 :=
  ((List.pairwise_cons.mp h).1 y List.mem_cons_self).resolve_right (not_le.mpr hlt)

theorem KeepsKeys.skip (h : KeepsKeys narrow (x :: y :: rest)) : KeepsKeys narrow (x :: rest) :=
  h.sublist ((List.sublist_cons_self y rest).cons_cons x)

/-- A pass over entries whose keys are kept permutes them with their keys. -/
theorem passFrom_perm (h : KeepsKeys narrow (x :: rest)) : (passFrom narrow x rest).Perm (x :: rest) := by
  induction rest generalizing x with
  | nil => exact List.Perm.refl _
  | cons y rest ih =>
    rw [passFrom]
    split
    next hlt =>
      rw [h.head_kept hlt]
      exact ((ih h.skip).cons y).trans (List.Perm.swap x y rest)
    next => exact (ih (List.pairwise_cons.mp h).2).cons x

/-- And their keys are kept by the next pass too. -/
theorem keepsKeys_passFrom (h : KeepsKeys narrow (x :: rest)) : KeepsKeys narrow (passFrom narrow x rest) := by
  induction rest generalizing x with
  | nil => exact h
  | cons y rest ih =>
    obtain ⟨hx, hrest⟩ := List.pairwise_cons.mp h
    obtain ⟨hy, hlast⟩ := List.pairwise_cons.mp hrest
    rw [passFrom]
    split
    next hlt =>
      rw [h.head_kept hlt]
      refine List.pairwise_cons.mpr ⟨fun z hz => ?_, ih h.skip⟩
      rcases List.mem_cons.mp ((passFrom_perm h.skip).mem_iff.mp hz) with rfl | hz
      · exact Or.inr hlt.le
      · exact hy z hz
    next =>
      refine List.pairwise_cons.mpr ⟨fun z hz => ?_, ih hrest⟩
      exact hx z ((passFrom_perm hrest).mem_iff.mp hz)

theorem sortPass_perm (h : KeepsKeys narrow entries) : (sortPass narrow entries).Perm entries := by
  cases entries with
  | nil => exact List.Perm.refl _
  | cons x rest => exact passFrom_perm h

theorem keepsKeys_sortPass (h : KeepsKeys narrow entries) : KeepsKeys narrow (sortPass narrow entries) := by
  cases entries with
  | nil => exact h
  | cons x rest => exact keepsKeys_passFrom h

/-- The last entry after a pass has the greatest key. -/
theorem passFrom_last (h : KeepsKeys narrow (x :: rest)) :
    ∃ front last, passFrom narrow x rest = front ++ [last] ∧ ∀ z ∈ x :: rest, z.1 ≤ last.1 := by
  induction rest generalizing x with
  | nil => exact ⟨[], x, rfl, fun z hz => (List.mem_singleton.mp hz ▸ le_rfl)⟩
  | cons y rest ih =>
    obtain ⟨hx, hrest⟩ := List.pairwise_cons.mp h
    rw [passFrom]
    split
    next hlt =>
      obtain ⟨front, last, heq, hmax⟩ := ih h.skip
      refine ⟨y :: front, last, by rw [h.head_kept hlt, heq]; rfl, fun z hz => ?_⟩
      rcases List.mem_cons.mp hz with rfl | hz
      · exact hmax z List.mem_cons_self
      · rcases List.mem_cons.mp hz with rfl | hz
        · exact hlt.le.trans (hmax x List.mem_cons_self)
        · exact hmax z (List.mem_cons_of_mem x hz)
    next hle =>
      obtain ⟨front, last, heq, hmax⟩ := ih hrest
      refine ⟨x :: front, last, by rw [heq]; rfl, fun z hz => ?_⟩
      rcases List.mem_cons.mp hz with rfl | hz
      · exact (not_lt.mp hle).trans (hmax y List.mem_cons_self)
      · exact hmax z hz

/-- A pass leaves entries which are in order behind smaller ones. -/
theorem passFrom_append (hback : back.Pairwise (·.1 ≤ ·.1)) (hle : ∀ z ∈ x :: rest, ∀ w ∈ back, z.1 ≤ w.1)
    (h : KeepsKeys narrow (x :: rest)) : passFrom narrow x (rest ++ back) = passFrom narrow x rest ++ back := by
  induction rest generalizing x with
  | nil =>
    clear h
    induction back generalizing x with
    | nil => rfl
    | cons w back ih =>
      have hxw := hle x List.mem_cons_self w List.mem_cons_self
      obtain ⟨hw, hback⟩ := List.pairwise_cons.mp hback
      have hagain := ih hback fun z hz => (List.mem_singleton.mp hz ▸ hw)
      have hfirst : passFrom narrow x (w :: back) = x :: passFrom narrow w back := if_neg (not_lt.mpr hxw)
      rw [List.nil_append, hfirst]
      exact congrArg (x :: ·) hagain
  | cons y rest ih =>
    obtain ⟨hx, hrest⟩ := List.pairwise_cons.mp h
    rw [List.cons_append, passFrom, passFrom]
    split
    next hlt =>
      rw [h.head_kept hlt, ih ?_ h.skip]
      · rfl
      · intro z hz
        rcases List.mem_cons.mp hz with rfl | hz
        · exact hle z List.mem_cons_self
        · exact hle z (List.mem_cons_of_mem x (List.mem_cons_of_mem y hz))
    next =>
      rw [ih (fun z hz => hle z (List.mem_cons_of_mem x hz)) hrest]
      rfl

/-- After some passes, so many entries are in their places at the end. -/
theorem sortPass_iterate (h : KeepsKeys narrow entries) {k : ℕ} (hk : k ≤ entries.length) :
    ∃ front back, (sortPass narrow)^[k] entries = front ++ back ∧ front.length + k = entries.length ∧
      KeepsKeys narrow front ∧ back.Pairwise (·.1 ≤ ·.1) ∧ ∀ z ∈ front, ∀ w ∈ back, z.1 ≤ w.1 := by
  induction k with
  | zero => exact ⟨entries, [], (List.append_nil entries).symm, rfl, h, .nil, fun _ _ _ hw => nomatch hw⟩
  | succ k ih =>
    obtain ⟨front, back, heq, hlength, hkeeps, hback, hle⟩ := ih (by omega)
    rw [Function.iterate_succ_apply', heq]
    cases front with
    | nil => simp only [List.length_nil] at hlength; omega
    | cons x rest =>
      obtain ⟨front, last, hpass, hmax⟩ := passFrom_last hkeeps
      have hperm := passFrom_perm hkeeps
      have hkept := keepsKeys_passFrom hkeeps
      have hcount := hperm.length_eq
      rw [hpass] at hperm hkept hcount
      have hmem : ∀ z ∈ front ++ [last], z ∈ x :: rest := fun z hz => hperm.mem_iff.mp hz
      have hlast : last ∈ x :: rest := hmem last (List.mem_append_right _ (List.mem_singleton_self last))
      refine ⟨front, last :: back, ?_, ?_, hkept.sublist (List.sublist_append_left _ _), ?_, ?_⟩
      · have happend := passFrom_append hback hle hkeeps
        rw [List.cons_append, sortPass, happend, hpass, List.append_assoc]
        rfl
      · simp only [List.length_append, List.length_cons, List.length_nil] at hcount hlength
        omega
      · exact List.pairwise_cons.mpr ⟨hle last hlast, hback⟩
      · intro z hz w hw
        have hz' := hmem z (List.mem_append_left _ hz)
        rcases List.mem_cons.mp hw with rfl | hw
        · exact hmax z hz'
        · exact hle z hz' w hw

theorem iterate_sortPass_perm (h : KeepsKeys narrow entries) (k : ℕ) :
    ((sortPass narrow)^[k] entries).Perm entries := by
  induction k generalizing entries with
  | zero => exact List.Perm.refl _
  | succ k ih => exact (ih (keepsKeys_sortPass h)).trans (sortPass_perm h)

/-- Entries whose keys are kept are put in order with their keys. -/
theorem exchangeSort_of_keepsKeys (h : KeepsKeys narrow entries) :
    (exchangeSort narrow entries).Perm entries ∧ (exchangeSort narrow entries).Pairwise (·.1 ≤ ·.1) := by
  refine ⟨iterate_sortPass_perm h _, ?_⟩
  obtain ⟨front, back, heq, hlength, -, hback, -⟩ := sortPass_iterate h (Nat.le_refl _)
  have hempty : front = [] := List.eq_nil_of_length_eq_zero (by omega)
  rw [exchangeSort, heq, hempty]
  exact hback

section InStep

variable (narrow) (key : A → K)

/-- Every key is that of its entry. -/
def InStep (entries : List (K × A)) : Prop := ∀ z ∈ entries, z.1 = key z.2

/-- Every key is that of its entry, changed by the temporary or not. -/
def Carried (entries : List (K × A)) : Prop := ∀ z ∈ entries, z.1 = key z.2 ∨ z.1 = narrow (key z.2)

variable {narrow key}

theorem carried_passFrom (hidem : ∀ k, narrow (narrow k) = narrow k) (h : Carried narrow key (x :: rest)) :
    Carried narrow key (passFrom narrow x rest) := by
  induction rest generalizing x with
  | nil => exact h
  | cons y rest ih =>
    obtain ⟨hx, hrest⟩ := List.forall_mem_cons.mp h
    obtain ⟨hy, hlast⟩ := List.forall_mem_cons.mp hrest
    rw [passFrom]
    split
    next =>
      have hmoved : narrow x.1 = narrow (key x.2) := by
        rcases hx with hx | hx
        · rw [hx]
        · rw [hx, hidem]
      exact List.forall_mem_cons.mpr ⟨hy, ih (List.forall_mem_cons.mpr ⟨Or.inr hmoved, hlast⟩)⟩
    next => exact List.forall_mem_cons.mpr ⟨hx, ih hrest⟩

/-- If the keys are in step after a pass and are kept by the next one, that was so before the pass. -/
theorem keepsKeys_of_passFrom (hidem : ∀ k, narrow (narrow k) = narrow k)
    (hcarried : Carried narrow key (x :: rest)) (hstep : InStep key (passFrom narrow x rest))
    (hkeeps : KeepsKeys narrow (passFrom narrow x rest)) :
    InStep key (x :: rest) ∧ KeepsKeys narrow (x :: rest) := by
  induction rest generalizing x with
  | nil => exact ⟨hstep, hkeeps⟩
  | cons y rest ih =>
    obtain ⟨hx, hrest⟩ := List.forall_mem_cons.mp hcarried
    obtain ⟨hy, hlast⟩ := List.forall_mem_cons.mp hrest
    rw [passFrom] at hstep hkeeps
    split at hstep
    next hlt =>
      rw [if_pos hlt] at hkeeps
      obtain ⟨hystep, hpassed⟩ := List.forall_mem_cons.mp hstep
      obtain ⟨hbefore, hkept⟩ := List.pairwise_cons.mp hkeeps
      have hmoved : narrow x.1 = narrow (key x.2) := by
        rcases hx with hx | hx
        · rw [hx]
        · rw [hx, hidem]
      obtain ⟨hsteps, hskip⟩ := ih (List.forall_mem_cons.mpr ⟨Or.inr hmoved, hlast⟩) hpassed hkept
      -- the key which moved on is the one it was
      have hxkey : narrow x.1 = key x.2 := hsteps _ List.mem_cons_self
      have hxstep : x.1 = key x.2 := by
        rcases hx with hx | hx
        · exact hx
        · rw [hx, ← hmoved, hxkey]
      have hfixed : narrow x.1 = x.1 := hxkey.trans hxstep.symm
      rw [hfixed] at hsteps hskip hbefore
      have hperm := passFrom_perm hskip
      refine ⟨?_, List.pairwise_cons.mpr ⟨fun z _ => Or.inl hfixed, List.pairwise_cons.mpr ⟨?_, ?_⟩⟩⟩
      · exact List.forall_mem_cons.mpr ⟨hxstep, List.forall_mem_cons.mpr
          ⟨hystep, fun z hz => hsteps z (List.mem_cons_of_mem x hz)⟩⟩
      · exact fun z hz => hbefore z (hperm.mem_iff.mpr (List.mem_cons_of_mem x hz))
      · exact (List.pairwise_cons.mp hskip).2
    next hle =>
      rw [if_neg hle] at hkeeps
      obtain ⟨hxstep, hpassed⟩ := List.forall_mem_cons.mp hstep
      obtain ⟨hbefore, hkept⟩ := List.pairwise_cons.mp hkeeps
      obtain ⟨hsteps, hskip⟩ := ih hrest hpassed hkept
      have hperm := passFrom_perm hskip
      refine ⟨List.forall_mem_cons.mpr ⟨hxstep, hsteps⟩, List.pairwise_cons.mpr ⟨?_, hskip⟩⟩
      exact fun z hz => hbefore z (hperm.mem_iff.mpr hz)

theorem keepsKeys_of_iterate (hidem : ∀ k, narrow (narrow k) = narrow k) (hcarried : Carried narrow key entries)
    {k : ℕ} (hstep : InStep key ((sortPass narrow)^[k] entries))
    (hkeeps : KeepsKeys narrow ((sortPass narrow)^[k] entries)) :
    InStep key entries ∧ KeepsKeys narrow entries := by
  induction k generalizing entries with
  | zero => exact ⟨hstep, hkeeps⟩
  | succ k ih =>
    rw [Function.iterate_succ_apply] at hstep hkeeps
    cases entries with
    | nil => exact ih hcarried hstep hkeeps
    | cons x rest =>
      obtain ⟨hsteps, hpass⟩ := ih (carried_passFrom hidem hcarried) hstep hkeeps
      exact keepsKeys_of_passFrom hidem hcarried hsteps hpass

/-- The entries are put in order with their keys exactly when the keys are kept. -/
theorem exchangeSort_sorted_iff (hidem : ∀ k, narrow (narrow k) = narrow k) (hstep : InStep key entries) :
    (InStep key (exchangeSort narrow entries) ∧ (exchangeSort narrow entries).Pairwise (·.1 ≤ ·.1)) ↔
      KeepsKeys narrow entries := by
  constructor
  · rintro ⟨hsteps, hsorted⟩
    exact (keepsKeys_of_iterate hidem (fun z hz => Or.inl (hstep z hz)) hsteps (hsorted.imp Or.inr)).2
  · intro h
    obtain ⟨hperm, hsorted⟩ := exchangeSort_of_keepsKeys h
    exact ⟨fun z hz => hstep z (hperm.mem_iff.mp hz), hsorted⟩

end InStep

end Foundation
