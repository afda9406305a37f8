import Mathlib.Data.List.Basic

/-!
# Runs which keep a log

A step may fail, and otherwise leaves a state and what it adds to the log. A run takes its inputs
one after the other and fails with the first step that does.
-/

namespace Foundation

variable {σ α ε : Type*} {step : σ → α → Option (σ × List ε)} {I : σ → List ε → Prop}

/-- Take the inputs in order, collecting what the steps add to the log. -/
def loggedRun (step : σ → α → Option (σ × List ε)) (s : σ) : List α → Option (σ × List ε)
  | [] => some (s, [])
  | a :: as =>
      (step s a).bind fun first => (loggedRun step first.1 as).map fun rest => (rest.1, first.2 ++ rest.2)

@[simp] theorem loggedRun_nil (s : σ) : loggedRun step s [] = some (s, []) := rfl

/-- A run succeeds when its first step and the rest from there do. -/
theorem loggedRun_cons {s s' s'' : σ} {a : α} {as : List α} {log more : List ε} (hstep : step s a = some (s', log))
    (hrest : loggedRun step s' as = some (s'', more)) :
    loggedRun step s (a :: as) = some (s'', log ++ more) := by
  rw [loggedRun, hstep, Option.bind_some, hrest, Option.map_some]

/-- The first step and the rest of a run that succeeded. -/
theorem loggedRun_cons_inv {s s'' : σ} {a : α} {as : List α} {log : List ε}
    (hrun : loggedRun step s (a :: as) = some (s'', log)) :
    ∃ s' first rest, step s a = some (s', first) ∧ loggedRun step s' as = some (s'', rest) ∧ log = first ++ rest := by
  rw [loggedRun, Option.bind_eq_some_iff] at hrun
  obtain ⟨⟨s', first⟩, hstep, hrest⟩ := hrun
  rw [Option.map_eq_some_iff] at hrest
  obtain ⟨⟨s₂, rest⟩, hrest, heq⟩ := hrest
  obtain ⟨rfl, rfl⟩ := Prod.mk.inj heq
  exact ⟨s', first, rest, hstep, hrest, rfl⟩

/-- Steps which succeed and keep a property of the state and the log make runs which do. -/
theorem loggedRun_total (hstep : ∀ s log a, I s log → ∃ s' more, step s a = some (s', more) ∧ I s' (log ++ more))
    {s : σ} {log : List ε} (hinit : I s log) (as : List α) :
    ∃ s' more, loggedRun step s as = some (s', more) ∧ I s' (log ++ more) := by
  induction as generalizing s log with
  | nil => exact ⟨s, [], rfl, by rwa [List.append_nil]⟩
  | cons a as ih =>
    obtain ⟨s₁, first, hfirst, hkept⟩ := hstep s log a hinit
    obtain ⟨s₂, rest, hrest, hend⟩ := ih hkept
    exact ⟨s₂, first ++ rest, loggedRun_cons hfirst hrest, by rwa [← List.append_assoc]⟩

/-- Steps which always succeed make runs which do. -/
theorem loggedRun_succeeds (hstep : ∀ s a, ∃ s' more, step s a = some (s', more)) (s : σ) (as : List α) :
    ∃ s' more, loggedRun step s as = some (s', more) := by
  induction as generalizing s with
  | nil => exact ⟨s, [], rfl⟩
  | cons a as ih =>
    obtain ⟨s₁, first, hfirst⟩ := hstep s a
    obtain ⟨s₂, rest, hrest⟩ := ih s₁
    exact ⟨s₂, first ++ rest, loggedRun_cons hfirst hrest⟩

/-- A property of the state and the log which successful steps keep holds after every successful run. -/
theorem loggedRun_invariant
    (hstep : ∀ s log a s' more, I s log → step s a = some (s', more) → I s' (log ++ more))
    {s s' : σ} {log more : List ε} {as : List α} (hinit : I s log) (hrun : loggedRun step s as = some (s', more)) :
    I s' (log ++ more) := by
  induction as generalizing s log more with
  | nil =>
    obtain ⟨rfl, rfl⟩ := Prod.mk.inj (Option.some.inj hrun)
    rwa [List.append_nil]
  | cons a as ih =>
    obtain ⟨s₁, first, rest, hfirst, hrest, rfl⟩ := loggedRun_cons_inv hrun
    rw [← List.append_assoc]
    exact ih (hstep s log a s₁ first hinit hfirst) hrest

end Foundation
