import Mathlib.Data.List.Basic
import RecordingAgent.Foundation.CString

/-!
# Directory trees

A directory is the list of its entries in the order in which they are read, without the two for
itself and its parent. A path is the list of names from the top of the tree down. Removing a file
takes its path away from the files, and removing an empty directory takes no file away.
-/

namespace Foundation

/-- A path below the top of a tree. -/
abbrev TreePath := List CString

/-- The entries of a directory: regular files, directories, entries of another kind, and entries of
which the status cannot be read. -/
inductive Dir
  | nil
  | file (name : CString) (rest : Dir)
  | dir (name : CString) (entries rest : Dir)
  | special (name : CString) (rest : Dir)
  | broken (name : CString) (rest : Dir)
  deriving DecidableEq

namespace Dir

/-- The paths of the regular files. -/
def files : Dir → List TreePath
  | nil => []
  | file name rest => [name] :: rest.files
  | dir name entries rest => entries.files.map (name :: ·) ++ rest.files
  | special _ rest => rest.files
  | broken _ rest => rest.files

/-- The entries of the directory at a path, if there is one. -/
def subdir : TreePath → Dir → Option Dir
  | [], t => some t
  | _ :: _, nil => none
  | p, file _ rest => rest.subdir p
  | n :: q, dir name entries rest => if n = name then entries.subdir q else rest.subdir (n :: q)
  | p, special _ rest => rest.subdir p
  | p, broken _ rest => rest.subdir p

/-- Remove the regular file at a path. -/
def remove : TreePath → Dir → Dir
  | _, nil => nil
  | p, file name rest => if p = [name] then rest.remove p else file name (rest.remove p)
  | [], dir name entries rest => dir name entries (rest.remove [])
  | n :: q, dir name entries rest =>
    dir name (if n = name then entries.remove q else entries) (rest.remove (n :: q))
  | p, special name rest => special name (rest.remove p)
  | p, broken name rest => broken name (rest.remove p)

/-- Remove the directory at a path if it is empty. -/
def rmdir : TreePath → Dir → Dir
  | _, nil => nil
  | p, file name rest => file name (rest.rmdir p)
  | [], dir name entries rest => dir name entries (rest.rmdir [])
  | n :: q, dir name entries rest =>
    if n = name ∧ q = [] ∧ entries = nil then rest.rmdir (n :: q)
    else dir name (if n = name then entries.rmdir q else entries) (rest.rmdir (n :: q))
  | p, special name rest => special name (rest.rmdir p)
  | p, broken name rest => broken name (rest.rmdir p)

/-- The names of the directories among the entries. -/
def dirNames : Dir → List CString
  | nil => []
  | file _ rest => rest.dirNames
  | dir name _ rest => name :: rest.dirNames
  | special _ rest => rest.dirNames
  | broken _ rest => rest.dirNames

/-- The files of a directory are files of the tree. -/
theorem append_mem_files {p q : TreePath} {t entries : Dir} (h : t.subdir p = some entries)
    (hq : q ∈ entries.files) : p ++ q ∈ t.files := by
  induction t generalizing p with
  | nil =>
    cases p with
    | nil => exact Option.some.inj h ▸ hq
    | cons n p => cases h
  | file name rest ih =>
    cases p with
    | nil => exact Option.some.inj h ▸ hq
    | cons n p => exact List.mem_cons_of_mem _ (ih h)
  | dir name sub rest ihSub ih =>
    cases p with
    | nil => exact Option.some.inj h ▸ hq
    | cons n p =>
      rw [subdir] at h
      split at h
      next heq => exact List.mem_append_left _ (List.mem_map.mpr ⟨p ++ q, ihSub h, heq ▸ rfl⟩)
      next => exact List.mem_append_right _ (ih h)
  | special name rest ih =>
    cases p with
    | nil => exact Option.some.inj h ▸ hq
    | cons n p => exact ih h
  | broken name rest ih =>
    cases p with
    | nil => exact Option.some.inj h ▸ hq
    | cons n p => exact ih h

/-- Removing a file takes its path away. -/
theorem files_remove (p : TreePath) (t : Dir) : (t.remove p).files = t.files.filter (· ≠ p) := by
  induction t generalizing p with
  | nil => cases p <;> rfl
  | file name rest ih =>
    by_cases h : p = [name]
    · simp [remove, files, h, ih]
    · have hne : [name] ≠ p := fun heq => h heq.symm
      simp [remove, files, h, hne, ih]
  | dir name entries rest ihEntries ih =>
    cases p with
    | nil => simp [remove, files, ih, List.filter_map, Function.comp_def]
    | cons n q =>
      by_cases h : n = name
      · simp [remove, files, h, ihEntries, ih, List.filter_map, Function.comp_def]
      · have hne : ¬ name = n := fun heq => h heq.symm
        simp [remove, files, h, hne, ih, List.filter_map, Function.comp_def]
  | special name rest ih => cases p <;> simp [remove, files, ih]
  | broken name rest ih => cases p <;> simp [remove, files, ih]

/-- Removing an empty directory takes no file away. -/
@[simp] theorem files_rmdir (p : TreePath) (t : Dir) : (t.rmdir p).files = t.files := by
  induction t generalizing p with
  | nil => cases p <;> rfl
  | file name rest ih => cases p <;> simp [rmdir, files, ih]
  | dir name entries rest ihEntries ih =>
    cases p with
    | nil => simp [rmdir, files, ih]
    | cons n q =>
      unfold rmdir
      split
      next h => simp [files, ih, h.2.2]
      next h => split <;> simp [files, ihEntries, ih]
  | special name rest ih => cases p <;> simp [rmdir, files, ih]
  | broken name rest ih => cases p <;> simp [rmdir, files, ih]

/-- Removing a file leaves the directories. -/
@[simp] theorem dirNames_remove (p : TreePath) (t : Dir) : (t.remove p).dirNames = t.dirNames := by
  induction t generalizing p with
  | nil => cases p <;> rfl
  | file name rest ih =>
    unfold remove
    split
    · exact ih p
    · exact ih p
  | dir name entries rest ihEntries ih => cases p <;> simp [remove, dirNames, ih]
  | special name rest ih => cases p <;> exact ih _
  | broken name rest ih => cases p <;> exact ih _

/-- Removing an empty directory leaves other directories. -/
theorem dirNames_rmdir_sublist (p : TreePath) (t : Dir) : (t.rmdir p).dirNames.Sublist t.dirNames := by
  induction t generalizing p with
  | nil => cases p <;> exact List.Sublist.refl _
  | file name rest ih => cases p <;> exact ih _
  | dir name entries rest ihEntries ih =>
    cases p with
    | nil => exact (ih []).cons_cons name
    | cons n q =>
      unfold rmdir
      split
      · exact (ih (n :: q)).cons name
      · exact (ih (n :: q)).cons_cons name
  | special name rest ih => cases p <;> exact ih _
  | broken name rest ih => cases p <;> exact ih _

@[simp] theorem subdir_top (t : Dir) : t.subdir [] = some t := by cases t <;> rfl

/-- A file below a directory is removed from its entries. -/
theorem subdir_remove (n : CString) (q : TreePath) (t : Dir) :
    (t.remove (n :: q)).subdir [n] = (t.subdir [n]).map (remove q) := by
  induction t with
  | nil => rfl
  | file name rest ih =>
    unfold remove
    split
    · exact ih
    · exact ih
  | dir name entries rest ihEntries ih =>
    unfold remove subdir
    by_cases h : n = name
    · rw [if_pos h, if_pos h, if_pos h, subdir_top, subdir_top, Option.map_some]
    · rw [if_neg h, if_neg h, ih]
  | special name rest ih => exact ih
  | broken name rest ih => exact ih

/-- A directory below a directory is removed from its entries. -/
theorem subdir_rmdir (n : CString) {q : TreePath} (hq : q ≠ []) (t : Dir) :
    (t.rmdir (n :: q)).subdir [n] = (t.subdir [n]).map (rmdir q) := by
  induction t with
  | nil => rfl
  | file name rest ih => exact ih
  | dir name entries rest ihEntries ih =>
    unfold rmdir
    rw [if_neg fun h => hq h.2.1]
    unfold subdir
    by_cases h : n = name
    · rw [if_pos h, if_pos h, if_pos h, subdir_top, subdir_top, Option.map_some]
    · rw [if_neg h, if_neg h, ih]
  | special name rest ih => exact ih
  | broken name rest ih => exact ih

/-- A name which no directory has leads to none. -/
theorem subdir_of_not_mem {n : CString} {t : Dir} (h : n ∉ t.dirNames) : t.subdir [n] = none := by
  induction t with
  | nil => rfl
  | file name rest ih => exact ih h
  | dir name entries rest ihEntries ih =>
    have hne : n ≠ name := fun heq => h (heq ▸ List.mem_cons_self)
    rw [subdir, if_neg hne]
    exact ih fun hmem => h (List.mem_cons_of_mem _ hmem)
  | special name rest ih => exact ih h
  | broken name rest ih => exact ih h

/-- An empty directory whose name no other has is gone when it has been removed. -/
theorem subdir_rmdir_self {n : CString} {t : Dir} (hnodup : t.dirNames.Nodup) (h : t.subdir [n] = some nil) :
    (t.rmdir [n]).subdir [n] = none := by
  induction t with
  | nil => rfl
  | file name rest ih => exact ih hnodup h
  | dir name entries rest ihEntries ih =>
    obtain ⟨hother, hrest⟩ := List.nodup_cons.mp hnodup
    unfold subdir at h
    unfold rmdir
    split at h
    next heq =>
      rw [subdir_top] at h
      rw [if_pos ⟨heq, rfl, Option.some.inj h⟩]
      exact subdir_of_not_mem fun hmem => hother (heq ▸ (dirNames_rmdir_sublist _ _).mem hmem)
    next hne =>
      rw [if_neg fun hsame => hne hsame.1, subdir, if_neg hne]
      exact ih hrest h
  | special name rest ih => exact ih hnodup h
  | broken name rest ih => exact ih hnodup h

end Dir

end Foundation
