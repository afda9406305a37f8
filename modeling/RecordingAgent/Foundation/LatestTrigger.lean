import Mathlib.Data.List.Induction

/-!
# The latest trigger wins

A log holds triggers and actions, told apart by two partial functions on its entries. What is
pending after a log is its last trigger, unless an action has come since. In a log in which every
action is of the pending trigger, no action is of a superseded trigger, and none comes twice.
-/

namespace Foundation

variable {ε τ : Type*} {trigger act : ε → Option τ}

/-- What is pending after one more entry: a trigger takes the place of what was pending, and an action clears it. -/
def pendingStep (trigger act : ε → Option τ) (pending : Option τ) (e : ε) : Option τ :=
  (trigger e).or (if (act e).isSome then none else pending)

/-- What is pending after a log, from what was pending before it. -/
def pendingAfter (trigger act : ε → Option τ) (pending : Option τ) (log : List ε) : Option τ :=
  log.foldl (pendingStep trigger act) pending

/-- Every action of a log is of the trigger pending when it comes. -/
def ActsOnPending (trigger act : ε → Option τ) : Option τ → List ε → Prop
  | _, [] => True
  | pending, e :: log =>
      (∀ t, act e = some t → pending = some t) ∧ ActsOnPending trigger act (pendingStep trigger act pending e) log

@[simp] theorem pendingAfter_nil (pending : Option τ) : pendingAfter trigger act pending [] = pending := rfl

@[simp] theorem pendingAfter_cons (pending : Option τ) (e : ε) (log : List ε) :
    pendingAfter trigger act pending (e :: log) =
      pendingAfter trigger act (pendingStep trigger act pending e) log := rfl

theorem pendingAfter_append (pending : Option τ) (log more : List ε) :
    pendingAfter trigger act pending (log ++ more) =
      pendingAfter trigger act (pendingAfter trigger act pending log) more := List.foldl_append

/-- An entry which is neither a trigger nor an action leaves what is pending. -/
theorem pendingStep_idle {e : ε} (htrigger : trigger e = none) (hact : act e = none) (pending : Option τ) :
    pendingStep trigger act pending e = pending := by
  simp [pendingStep, htrigger, hact]

/-- A trigger is pending whatever was before. -/
theorem pendingStep_trigger {e : ε} {t : τ} (htrigger : trigger e = some t) (pending : Option τ) :
    pendingStep trigger act pending e = some t := by
  simp [pendingStep, htrigger]

/-- After an action nothing is pending. -/
theorem pendingStep_act {e : ε} {t : τ} (htrigger : trigger e = none) (hact : act e = some t) (pending : Option τ) :
    pendingStep trigger act pending e = none := by
  simp [pendingStep, htrigger, hact]

/-- A log without triggers and actions leaves what is pending. -/
theorem pendingAfter_idle {log : List ε} (hidle : ∀ e ∈ log, trigger e = none ∧ act e = none) (pending : Option τ) :
    pendingAfter trigger act pending log = pending := by
  induction log with
  | nil => rfl
  | cons e log ih =>
    have hhead := hidle e List.mem_cons_self
    rw [pendingAfter_cons, pendingStep_idle hhead.1 hhead.2]
    exact ih fun x hx => hidle x (List.mem_cons_of_mem _ hx)

theorem actsOnPending_append {pending : Option τ} {log more : List ε} :
    ActsOnPending trigger act pending (log ++ more) ↔
      ActsOnPending trigger act pending log ∧
        ActsOnPending trigger act (pendingAfter trigger act pending log) more := by
  induction log generalizing pending with
  | nil => simp [ActsOnPending]
  | cons e log ih =>
    rw [List.cons_append, ActsOnPending, ActsOnPending, ih, pendingAfter_cons]
    exact and_assoc.symm

/-- A log without actions acts on nothing. -/
theorem actsOnPending_idle {log : List ε} (hidle : ∀ e ∈ log, act e = none) (pending : Option τ) :
    ActsOnPending trigger act pending log := by
  induction log generalizing pending with
  | nil => trivial
  | cons e log ih =>
    refine ⟨fun t ht => ?_, ih (fun x hx => hidle x (List.mem_cons_of_mem _ hx)) _⟩
    rw [hidle e List.mem_cons_self] at ht
    cases ht

/-- Something is pending after a log exactly when its last trigger has not been acted on since. -/
theorem pendingAfter_eq_some {log : List ε} {t : τ} :
    pendingAfter trigger act none log = some t ↔
      ∃ before e since, log = before ++ e :: since ∧ trigger e = some t ∧
        ∀ x ∈ since, trigger x = none ∧ act x = none := by
  constructor
  · intro hpending
    induction log using List.reverseRecOn with
    | nil => cases hpending
    | append_singleton log e ih =>
      rw [pendingAfter_append, pendingAfter_cons, pendingAfter_nil] at hpending
      cases htrigger : trigger e with
      | some u =>
        rw [pendingStep_trigger htrigger] at hpending
        exact ⟨log, e, [], rfl, htrigger.trans hpending, by simp⟩
      | none =>
        cases hact : act e with
        | some u =>
          rw [pendingStep_act htrigger hact] at hpending
          cases hpending
        | none =>
          rw [pendingStep_idle htrigger hact] at hpending
          obtain ⟨before, e', since, hsplit, htrigger', hsince⟩ := ih hpending
          refine ⟨before, e', since ++ [e], by rw [hsplit]; simp, htrigger', fun x hx => ?_⟩
          rcases List.mem_append.mp hx with hin | hin
          · exact hsince x hin
          · rw [List.mem_singleton.mp hin]
            exact ⟨htrigger, hact⟩
  · rintro ⟨before, e, since, rfl, htrigger, hsince⟩
    rw [pendingAfter_append, pendingAfter_cons, pendingStep_trigger htrigger, pendingAfter_idle hsince]

/-- An action is of the last trigger before it, and no other action has come since that trigger. -/
theorem ActsOnPending.latest {before after : List ε} {e : ε} {t : τ}
    (hlog : ActsOnPending trigger act none (before ++ e :: after)) (hact : act e = some t) :
    ∃ early e' since, before = early ++ e' :: since ∧ trigger e' = some t ∧
      ∀ x ∈ since, trigger x = none ∧ act x = none :=
  pendingAfter_eq_some.mp ((actsOnPending_append.mp hlog).2.1 t hact)

end Foundation
