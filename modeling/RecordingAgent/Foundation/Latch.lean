import Mathlib.Data.List.DropRight
import RecordingAgent.Foundation.Execution

/-!
# Latches

A latch keeps the first value that arrives after its last reset. It is specified by the history
alone, and a machine which follows one latch step per input holds, after every history, what the
specification says.
-/

namespace Foundation

variable {σ ε α : Type*} {step : σ → ε → σ} {resets : ε → Bool} {arrives : ε → Option α}

/-- The part of a history after its last reset. -/
def sinceReset (resets : ε → Bool) (history : List ε) : List ε := history.rtakeWhile fun e => !resets e

/-- The first value that arrived after the last reset. -/
def latched (resets : ε → Bool) (arrives : ε → Option α) (history : List ε) : Option α :=
  (sinceReset resets history).findSome? arrives

/-- One step of a latch. -/
def latchStep (resets : ε → Bool) (arrives : ε → Option α) (held : Option α) (e : ε) : Option α :=
  if resets e then none else held.or (arrives e)

/-- An input which neither resets nor arrives leaves what is held. -/
theorem latchStep_idle {e : ε} (hreset : resets e = false) (harrive : arrives e = none) (held : Option α) :
    latchStep resets arrives held e = held := by
  rw [latchStep, hreset, harrive]
  exact Option.or_none

/-- What is latched follows the steps of the latch. -/
theorem latched_concat (history : List ε) (e : ε) :
    latched resets arrives (history ++ [e]) = latchStep resets arrives (latched resets arrives history) e := by
  unfold latched sinceReset latchStep
  rw [List.rtakeWhile_concat]
  cases resets e <;> simp [List.findSome?_append]

/-- A machine whose steps follow those of a latch holds what the history latches. -/
theorem run_latched {R : σ → Option α → Prop}
    (hstep : ∀ s held e, R s held → R (step s e) (latchStep resets arrives held e)) {s : σ} (hinit : R s none)
    (history : List ε) : R (run step s history) (latched resets arrives history) := by
  induction history using List.reverseRecOn with
  | nil => exact hinit
  | append_singleton history e ih =>
    rw [run_append, latched_concat]
    exact hstep _ _ _ ih

end Foundation
