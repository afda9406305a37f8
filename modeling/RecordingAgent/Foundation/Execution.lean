import Mathlib.Data.List.Basic

/-!
# Runs of a deterministic step function

A machine is a total step function on states; a run folds it over a finite sequence of
inputs. `Guarded` restricts a run to inputs which are admissible in the state in which each
of them is taken, so a condition on runs can mention the state before every step.

The two induction rules lift a one-step fact to every guarded run: an invariant stays true,
and an observation which no admissible step changes stays the same.
-/

namespace Foundation

variable {σ ε α : Type*} {step : σ → ε → σ} {G : σ → ε → Prop} {I : σ → Prop}

/-- Fold the step function over a sequence of inputs. -/
def run (step : σ → ε → σ) (s : σ) (es : List ε) : σ := es.foldl step s

/-- Each input is admissible in the state in which the run takes it. -/
def Guarded (step : σ → ε → σ) (G : σ → ε → Prop) : σ → List ε → Prop
  | _, [] => True
  | s, e :: es => G s e ∧ Guarded step G (step s e) es

@[simp] theorem run_nil (s : σ) : run step s [] = s := rfl

@[simp] theorem run_cons (s : σ) (e : ε) (es : List ε) :
    run step s (e :: es) = run step (step s e) es := rfl

/-- A run over a concatenation continues from the state the first part reaches. -/
theorem run_append (s : σ) (es fs : List ε) :
    run step s (es ++ fs) = run step (run step s es) fs := List.foldl_append

instance [∀ s e, Decidable (G s e)] (s : σ) (es : List ε) : Decidable (Guarded step G s es) := by
  induction es generalizing s with
  | nil => exact isTrue trivial
  | cons e es ih => exact @instDecidableAnd _ _ _ (ih _)

/-- A run over a concatenation is guarded when its parts are. -/
theorem guarded_append (s : σ) (es fs : List ε) :
    Guarded step G s (es ++ fs) ↔ Guarded step G s es ∧ Guarded step G (run step s es) fs := by
  induction es generalizing s with
  | nil => exact ⟨fun h => ⟨trivial, h⟩, And.right⟩
  | cons e es ih =>
    rw [List.cons_append, Guarded, Guarded, ih, and_assoc, run_cons]

/-- An invariant kept by every admissible step holds at the end of every guarded run. -/
theorem run_invariant (hstep : ∀ s e, I s → G s e → I (step s e)) {s : σ} {es : List ε}
    (hinit : I s) (hrun : Guarded step G s es) : I (run step s es) := by
  induction es generalizing s with
  | nil => exact hinit
  | cons e es ih => exact ih (hstep s e hinit hrun.1) hrun.2

/-- An observation which admissible steps from invariant states leave alone is constant. -/
theorem run_observation (observe : σ → α)
    (hstep : ∀ s e, I s → G s e → I (step s e) ∧ observe (step s e) = observe s)
    {s : σ} {es : List ε} (hinit : I s) (hrun : Guarded step G s es) :
    observe (run step s es) = observe s := by
  induction es generalizing s with
  | nil => rfl
  | cons e es ih =>
    obtain ⟨hinv, hobs⟩ := hstep s e hinit hrun.1
    exact (ih hinv hrun.2).trans hobs

/-- An unguarded invariant holds after every run. -/
theorem run_invariant_of_step (hstep : ∀ s e, I s → I (step s e)) {s : σ} (hinit : I s)
    (es : List ε) : I (run step s es) := by
  induction es generalizing s with
  | nil => exact hinit
  | cons e es ih => exact ih (hstep s e hinit)

/-- A loop body which keeps a property for every member keeps it over the whole loop. -/
theorem foldl_invariant {body : σ → ε → σ} {items : List ε} {s : σ} (hinit : I s)
    (hbody : ∀ s, ∀ e ∈ items, I s → I (body s e)) : I (items.foldl body s) := by
  induction items generalizing s with
  | nil => exact hinit
  | cons e es ih =>
    exact ih (hbody s e (by simp) hinit) fun s e he => hbody s e (by simp [he])

/-- A loop over distinct items, whose body for one item keeps what is known of the others, may
use for each item what was known of it before the loop. -/
theorem foldl_invariant_of_nodup {body : σ → ε → σ} {items : List ε} {s : σ} (Known : ε → σ → Prop)
    (hnodup : items.Nodup) (hinit : I s) (hknown : ∀ e ∈ items, Known e s)
    (hbody : ∀ s, ∀ e ∈ items, I s → Known e s → I (body s e))
    (hothers : ∀ s, ∀ e ∈ items, ∀ d, d ≠ e → Known d s → Known d (body s e)) :
    I (items.foldl body s) := by
  induction items generalizing s with
  | nil => exact hinit
  | cons e es ih =>
    obtain ⟨hnotin, hnodup'⟩ := List.nodup_cons.mp hnodup
    refine ih hnodup' (hbody s e (by simp) hinit (hknown e (by simp))) ?_ ?_ ?_
    · intro d hd
      exact hothers s e (by simp) d (fun h => hnotin (h ▸ hd)) (hknown d (by simp [hd]))
    · exact fun t d hd => hbody t d (by simp [hd])
    · exact fun t d hd => hothers t d (by simp [hd])

/-- A loop over distinct items, whose body for one item turns what is known of it into a result
which the bodies for the others keep, establishes every result. -/
theorem foldl_establishes {body : σ → ε → σ} {items : List ε} {s : σ} (Known Done : ε → σ → Prop)
    (hnodup : items.Nodup) (hknown : ∀ e ∈ items, Known e s)
    (hbody : ∀ s, ∀ e ∈ items, Known e s → Done e (body s e))
    (hothers : ∀ s, ∀ e ∈ items, ∀ d, d ≠ e → Known d s → Known d (body s e))
    (hdone : ∀ s, ∀ e ∈ items, ∀ d, d ≠ e → Done d s → Done d (body s e)) :
    ∀ e ∈ items, Done e (items.foldl body s) := by
  induction items generalizing s with
  | nil => intro e he; cases he
  | cons e es ih =>
    obtain ⟨hnotin, hnodup'⟩ := List.nodup_cons.mp hnodup
    intro d hd
    rcases List.mem_cons.mp hd with rfl | hd
    · rw [List.foldl_cons]
      refine foldl_invariant (I := Done d) (hbody s d (by simp) (hknown d (by simp))) ?_
      exact fun t a ha ht => hdone t a (by simp [ha]) d (fun h => hnotin (h ▸ ha)) ht
    · refine ih hnodup' ?_ (fun t a ha => hbody t a (by simp [ha]))
        (fun t a ha => hothers t a (by simp [ha])) (fun t a ha => hdone t a (by simp [ha])) d hd
      exact fun a ha => hothers s e (by simp) a (fun h => hnotin (h ▸ ha)) (hknown a (by simp [ha]))

end Foundation
