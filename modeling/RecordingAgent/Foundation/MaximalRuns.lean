import Mathlib.Data.List.SplitBy

/-!
# Maximal runs of a list

A list falls apart in runs whose members go on one after the other: they cannot be made longer, since no run goes
on with the next one.
-/

namespace Foundation

variable {α β : Type*} {r : α → α → Prop}

/-- The runs of a list in which each member goes on with the one before it. -/
structure MaximalRuns (r : α → α → Prop) (l : List α) (runs : List (List α)) : Prop where
  flatten_eq : runs.flatten = l
  ne_nil : ∀ run ∈ runs, run ≠ []
  isChain : ∀ run ∈ runs, run.IsChain r
  apart : runs.IsChain fun a b => ∀ x ∈ a.getLast?, ∀ y ∈ b.head?, ¬r x y

/-- Every list has them. -/
theorem exists_maximalRuns (r : α → α → Prop) [DecidableRel r] (l : List α) :
    ∃ runs, MaximalRuns r l runs := by
  refine ⟨l.splitBy fun x y => decide (r x y), List.flatten_splitBy _ l, ?_, ?_, ?_⟩
  · intro run hrun
    exact List.ne_nil_of_mem_splitBy hrun
  · intro run hrun
    exact (List.isChain_of_mem_splitBy hrun).imp fun _ _ h => of_decide_eq_true h
  · refine (List.isChain_getLast_head_splitBy _ l).imp fun a b hab x hx y hy => ?_
    obtain ⟨ha, hb, hne⟩ := hab
    rw [List.getLast?_eq_some_getLast ha] at hx
    rw [List.head?_eq_some_head hb] at hy
    obtain rfl := Option.some.inj hx
    obtain rfl := Option.some.inj hy
    exact of_decide_eq_false hne

/-- What is told of the neighbours in a list, one after the other. -/
def alongList (f : α → α → List β) : α → List α → List β
  | _, [] => []
  | x, y :: rest => f x y ++ alongList f y rest

theorem alongList_congr {f g : α → α → List β} {x : α} {l : List α}
    (h : ∀ a ∈ x :: l, ∀ b ∈ x :: l, f a b = g a b) : alongList f x l = alongList g x l := by
  induction l generalizing x with
  | nil => rfl
  | cons y rest ih =>
    rw [alongList, alongList, h x List.mem_cons_self y (List.mem_cons_of_mem x List.mem_cons_self),
      ih fun a ha b hb => h a (List.mem_cons_of_mem x ha) b (List.mem_cons_of_mem x hb)]

/-- Along a run to its last member nothing is told, if nothing is told of members which go on. -/
theorem alongList_run {f : α → α → List β} (hsilent : ∀ x y, r x y → f x y = []) {x : α} {run : List α}
    (hrun : (x :: run).IsChain r) (rest : List α) :
    alongList f x (run ++ rest) = alongList f (run.getLast?.getD x) rest := by
  induction run generalizing x with
  | nil => rfl
  | cons y run ih =>
    obtain ⟨hxy, hrest⟩ := List.isChain_cons_cons.mp hrun
    rw [List.cons_append, alongList, hsilent x y hxy, List.nil_append, ih hrest, List.getLast?_cons, Option.getD_some]

/-- What is told of a run by its first and its last member. -/
def bracket (opening closing : α → List β) (run : List α) : List β :=
  run.head?.elim [] opening ++ run.getLast?.elim [] closing

/-- The runs of what is behind the first run. -/
theorem MaximalRuns.tail {l run : List α} {runs : List (List α)} (h : MaximalRuns r l (run :: runs)) :
    MaximalRuns r runs.flatten runs where
  flatten_eq := rfl
  ne_nil other hother := h.ne_nil other (List.mem_cons_of_mem run hother)
  isChain other hother := h.isChain other (List.mem_cons_of_mem run hother)
  apart := h.apart.of_cons

/-- If a run is closed and the next one opened between members which do not go on, each run is opened and closed. -/
theorem MaximalRuns.flatMap_bracket {f : α → α → List β} {opening closing : α → List β}
    (hsilent : ∀ x y, r x y → f x y = []) (hgap : ∀ x y, ¬r x y → f x y = closing x ++ opening y) {x : α} {xs : List α}
    {runs : List (List α)} (h : MaximalRuns r (x :: xs) runs) :
    opening x ++ (alongList f x xs ++ closing (xs.getLast?.getD x)) = runs.flatMap (bracket opening closing) := by
  induction runs generalizing x xs with
  | nil => cases h.flatten_eq
  | cons run runs ih =>
    obtain ⟨y, ys, rfl⟩ := List.exists_cons_of_ne_nil (h.ne_nil run List.mem_cons_self)
    have hflat := h.flatten_eq
    rw [List.flatten_cons, List.cons_append] at hflat
    obtain ⟨rfl, rfl⟩ := List.cons.inj hflat
    have hrun := h.isChain _ List.mem_cons_self
    have hbracket : bracket opening closing (y :: ys) = opening y ++ closing (ys.getLast?.getD y) := by
      rw [bracket, List.getLast?_cons]
      rfl
    rw [List.flatMap_cons, hbracket, alongList_run hsilent hrun]
    cases hrest : runs with
    | nil => simp [alongList]
    | cons other rest =>
      rw [hrest] at h ih
      obtain ⟨z, zs, rfl⟩ := List.exists_cons_of_ne_nil (h.ne_nil other (by simp))
      have hapart : ¬r (ys.getLast?.getD y) z :=
        (List.isChain_cons_cons.mp h.apart).1 _ List.getLast?_cons z rfl
      have hends : (ys ++ z :: (zs ++ rest.flatten)).getLast?.getD y = (zs ++ rest.flatten).getLast?.getD z := by
        rw [List.getLast?_append, List.getLast?_cons]
        rfl
      have hnext := ih h.tail
      rw [List.flatten_cons, List.cons_append, hends]
      -- the first run is closed where the next one is opened
      rw [alongList, hgap _ _ hapart, ← hnext]
      simp only [List.append_assoc, List.append_eq]

end Foundation
