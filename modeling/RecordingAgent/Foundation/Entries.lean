import Mathlib.Data.List.Nodup

/-!
# Lists of keyed entries

A key stands for its first entry. Setting keys which have entries changes what they stand for
and nothing else.
-/

namespace Foundation

variable {κ β : Type*} [DecidableEq κ]

/-- Replace the value of the first entry with this key, if there is one. -/
def setFirst (key : κ) (value : β) : List (κ × β) → List (κ × β)
  | [] => []
  | entry :: rest => if entry.1 = key then (key, value) :: rest else entry :: setFirst key value rest

theorem lookup_cons (key : κ) (entry : κ × β) (rest : List (κ × β)) :
    (entry :: rest).lookup key = if entry.1 = key then some entry.2 else rest.lookup key := by
  obtain ⟨k, v⟩ := entry
  by_cases h : k = key
  · rw [if_pos h, h, List.lookup_cons_self]
  · rw [if_neg h, List.lookup_cons, show (key == k) = false from beq_false_of_ne (Ne.symm h)]

/-- Setting a key changes what that key stands for, where it has an entry. -/
theorem lookup_setFirst (key k : κ) (value : β) (entries : List (κ × β)) :
    (setFirst key value entries).lookup k =
      if k = key then (entries.lookup key).map fun _ => value else entries.lookup k := by
  induction entries with
  | nil => simp [setFirst]
  | cons entry rest ih =>
    rw [setFirst]
    by_cases hentry : entry.1 = key
    · rw [if_pos hentry, lookup_cons, lookup_cons, lookup_cons, if_pos hentry]
      by_cases hk : k = key
      · rw [if_pos hk, if_pos hk.symm, Option.map_some]
      · rw [if_neg hk, if_neg (Ne.symm hk), if_neg fun h => hk (h.symm.trans hentry)]
    · rw [if_neg hentry, lookup_cons, ih, lookup_cons, lookup_cons, if_neg hentry]
      by_cases hk : k = key
      · rw [if_pos hk, if_pos hk, if_neg fun h => hentry (h.trans hk)]
      · rw [if_neg hk, if_neg hk]

/-- Setting a key to the value it has changes nothing, and neither does setting one without an entry. -/
theorem setFirst_of_lookup {key : κ} {value : β} {entries : List (κ × β)}
    (h : ∀ v, entries.lookup key = some v → v = value) : setFirst key value entries = entries := by
  induction entries with
  | nil => rfl
  | cons entry rest ih =>
    rw [lookup_cons] at h
    rw [setFirst]
    by_cases hentry : entry.1 = key
    · rw [if_pos hentry] at h ⊢
      rw [← hentry, ← h entry.2 rfl]
    · rw [if_neg hentry] at h ⊢
      rw [ih h]

/-- Set several keys, one after the other. -/
def setAll (settings : List (κ × β)) (entries : List (κ × β)) : List (κ × β) :=
  settings.foldl (fun entries s => setFirst s.1 s.2 entries) entries

/-- A key which is not set stands for what it stood for. -/
theorem lookup_setAll_of_notMem {k : κ} {settings entries : List (κ × β)} (h : k ∉ settings.map Prod.fst) :
    (setAll settings entries).lookup k = entries.lookup k := by
  induction settings generalizing entries with
  | nil => rfl
  | cons s settings ih =>
    rw [List.map_cons, List.mem_cons, not_or] at h
    change (setAll settings (setFirst s.1 s.2 entries)).lookup k = _
    rw [ih h.2, lookup_setFirst, if_neg h.1]

/-- Keys which are set once, and have entries, stand for what they are set to. -/
theorem lookup_setAll {settings entries : List (κ × β)} (hnodup : (settings.map Prod.fst).Nodup)
    (hentries : ∀ s ∈ settings, (entries.lookup s.1).isSome = true) :
    ∀ s ∈ settings, (setAll settings entries).lookup s.1 = some s.2 := by
  induction settings generalizing entries with
  | nil => exact fun s hs => absurd hs (List.not_mem_nil)
  | cons s settings ih =>
    rw [List.map_cons, List.nodup_cons] at hnodup
    intro t ht
    change (setAll settings (setFirst s.1 s.2 entries)).lookup t.1 = _
    rcases List.mem_cons.mp ht with rfl | ht
    · obtain ⟨old, hold⟩ := Option.isSome_iff_exists.mp (hentries t List.mem_cons_self)
      rw [lookup_setAll_of_notMem hnodup.1, lookup_setFirst, if_pos rfl, hold, Option.map_some]
    · refine ih hnodup.2 (fun u hu => ?_) t ht
      have hu' := hentries u (List.mem_cons_of_mem s hu)
      rw [lookup_setFirst]
      split
      · rename_i hsame
        rw [hsame] at hu'
        rwa [Option.isSome_map]
      · exact hu'

end Foundation
