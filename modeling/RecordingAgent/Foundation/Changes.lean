import Mathlib.Data.List.Destutter

/-!
# The changes of a sequence of values

Reporting a value only when it differs from the one before collapses every run of equal values to its first.
What is reported never repeats, and ends with the value the sequence ends with.
-/

namespace Foundation

variable {α : Type*} [DecidableEq α]

/-- The values of a sequence which differ from the one before, the first one included. -/
def changes (values : List α) : List α := values.destutter (· ≠ ·)

theorem isChain_changes (values : List α) : (changes values).IsChain (· ≠ ·) := List.isChain_destutter _ _

@[simp] theorem changes_nil : changes ([] : List α) = [] := rfl

theorem destutter'_concat (values : List α) (first a : α) :
    (values ++ [a]).destutter' (· ≠ ·) first =
      values.destutter' (· ≠ ·) first ++ if (first :: values).getLast (by simp) = a then [] else [a] := by
  induction values generalizing first with
  | nil =>
    by_cases h : first = a <;> simp [h]
  | cons b values ih =>
    by_cases h : first ≠ b
    · rw [List.cons_append, List.destutter'_cons_pos _ h, List.destutter'_cons_pos _ h, ih, List.cons_append]
      simp
    · rw [List.cons_append, List.destutter'_cons_neg _ h, List.destutter'_cons_neg _ h, ih]
      obtain rfl := not_not.mp h
      rw [List.getLast_cons_cons]

/-- One more value is reported if it differs from the last one. -/
theorem changes_concat {values : List α} {last : α} (hlast : values.getLast? = some last) (a : α) :
    changes (values ++ [a]) = changes values ++ if last = a then [] else [a] := by
  cases values with
  | nil => cases hlast
  | cons first values =>
    rw [List.getLast?_eq_some_getLast (by simp), Option.some.injEq] at hlast
    rw [changes, changes, List.cons_append, List.destutter_cons', List.destutter_cons', destutter'_concat, hlast]

/-- The last value reported is the last one. -/
theorem getLast?_changes (values : List α) : (changes values).getLast? = values.getLast? := by
  induction values using List.reverseRecOn with
  | nil => rfl
  | append_singleton values a ih =>
    cases hlast : values.getLast? with
    | none =>
      rw [List.getLast?_eq_none_iff.mp hlast]
      simp [changes]
    | some last =>
      rw [changes_concat hlast, List.getLast?_concat]
      split
      · rw [List.append_nil, ih, hlast]
        exact congrArg some ‹_›
      · exact List.getLast?_concat

end Foundation
