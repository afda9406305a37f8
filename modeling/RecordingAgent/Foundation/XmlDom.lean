import Mathlib.Data.List.Basic
import RecordingAgent.Foundation.CString

/-!
# Documents as trees of nodes

A document is kept as the nodes from one on: an element with its children, or a text, and what follows.
A node is addressed by the moves which lead to it. The data of an element is the text it begins with.
Writing data changes no tag and no place of a node, so what is found by its tag stays where it is, and
writing the same data to the same places twice is writing them once.
-/

namespace Foundation

/-- The nodes from one on. -/
inductive Nodes
  | nil
  | element (tag : CString) (attrs : List (CString × CString)) (children next : Nodes)
  | text (data : CString) (next : Nodes)
  deriving DecidableEq

/-- From a node to its first child or to the next one. -/
inductive Move
  | child
  | sibling
  deriving DecidableEq

/-- The moves from the first node to another. -/
abbrev NodePath := List Move

namespace Nodes

/-- The nodes from the one at a path on. -/
def nodesAt : NodePath → Nodes → Nodes
  | [], t => t
  | .child :: p, element _ _ children _ => nodesAt p children
  | .sibling :: p, element _ _ _ next => nodesAt p next
  | .sibling :: p, text _ next => nodesAt p next
  | _ :: _, _ => nil

/-- The children of the first node. -/
def childrenOf : Nodes → Nodes
  | element _ _ children _ => children
  | _ => nil

/-- The tag of the first node, if it is an element. -/
def tagOf : Nodes → Option CString
  | element tag _ _ _ => some tag
  | _ => none

/-- The text of the first node, if it is one. -/
def textOf : Nodes → Option CString
  | text data _ => some data
  | _ => none

/-- The data of the first node, if it is an element that begins with a text. -/
def dataOf (t : Nodes) : Option CString := t.childrenOf.textOf

/-- The data of the element at a path. -/
def getData (p : NodePath) (t : Nodes) : Option CString := (t.nodesAt p).dataOf

/-- Give the element at a path other data. -/
def setData : NodePath → CString → Nodes → Nodes
  | [], v, element tag attrs (text _ rest) next => element tag attrs (text v rest) next
  | .child :: p, v, element tag attrs children next => element tag attrs (setData p v children) next
  | .sibling :: p, v, element tag attrs children next => element tag attrs children (setData p v next)
  | .sibling :: p, v, text data next => text data (setData p v next)
  | _, _, t => t

/-- The first element of a tag, in the order of the document. -/
def find (tag : CString) : Nodes → Option NodePath
  | nil => none
  | element tag' _ children next =>
    if tag' = tag then some []
    else ((children.find tag).map (.child :: ·)).or ((next.find tag).map (.sibling :: ·))
  | text _ next => (next.find tag).map (.sibling :: ·)

/-- All elements of a tag, in the order of the document. -/
def findAll (tag : CString) : Nodes → List NodePath
  | nil => []
  | element tag' _ children next =>
    (if tag' = tag then [[]] else []) ++ (children.findAll tag).map (.child :: ·) ++
      (next.findAll tag).map (.sibling :: ·)
  | text _ next => (next.findAll tag).map (.sibling :: ·)

/-- The first element of a tag below a node. -/
def findBelow (node : NodePath) (tag : CString) (t : Nodes) : Option NodePath :=
  ((t.nodesAt node).childrenOf.find tag).map fun q => node ++ .child :: q

/-- All elements of a tag below a node. -/
def findAllBelow (node : NodePath) (tag : CString) (t : Nodes) : List NodePath :=
  ((t.nodesAt node).childrenOf.findAll tag).map fun q => node ++ .child :: q

/-- What is left when the texts are taken away. -/
def shape : Nodes → Nodes
  | nil => nil
  | element tag attrs children next => element tag attrs children.shape next.shape
  | text _ next => text [] next.shape

variable {p q : NodePath} {tag v w : CString} {t : Nodes}

@[simp] theorem shape_setData (p : NodePath) (v : CString) (t : Nodes) : (t.setData p v).shape = t.shape := by
  fun_induction setData p v t with
  | case1 v tag attrs data rest next => rfl
  | case2 p v tag attrs children next ih => rw [shape, shape, ih]
  | case3 p v tag attrs children next ih => rw [shape, shape, ih]
  | case4 p v data next ih => rw [shape, shape, ih]
  | case5 => rfl

theorem nodesAt_shape (p : NodePath) (t : Nodes) : t.shape.nodesAt p = (t.nodesAt p).shape := by
  induction p generalizing t with
  | nil => rfl
  | cons move p ih =>
    cases move with
    | child =>
      cases t with
      | nil => rfl
      | element tag attrs children next => exact ih children
      | text data next => rfl
    | sibling =>
      cases t with
      | nil => rfl
      | element tag attrs children next => exact ih next
      | text data next => exact ih next

theorem childrenOf_shape (t : Nodes) : t.shape.childrenOf = t.childrenOf.shape := by cases t <;> rfl

theorem find_shape (tag : CString) (t : Nodes) : t.shape.find tag = t.find tag := by
  induction t with
  | nil => rfl
  | element tag' attrs children next ihChildren ihNext => rw [shape, find, find, ihChildren, ihNext]
  | text data next ih => rw [shape, find, find, ih]

theorem findAll_shape (tag : CString) (t : Nodes) : t.shape.findAll tag = t.findAll tag := by
  induction t with
  | nil => rfl
  | element tag' attrs children next ihChildren ihNext => rw [shape, findAll, findAll, ihChildren, ihNext]
  | text data next ih => rw [shape, findAll, findAll, ih]

theorem findBelow_shape (node : NodePath) (tag : CString) (t : Nodes) :
    t.shape.findBelow node tag = t.findBelow node tag := by
  rw [findBelow, findBelow, nodesAt_shape, childrenOf_shape, find_shape]

theorem findAllBelow_shape (node : NodePath) (tag : CString) (t : Nodes) :
    t.shape.findAllBelow node tag = t.findAllBelow node tag := by
  rw [findAllBelow, findAllBelow, nodesAt_shape, childrenOf_shape, findAll_shape]

theorem findBelow_congr {s : Nodes} (h : s.shape = t.shape) (node : NodePath) (tag : CString) :
    s.findBelow node tag = t.findBelow node tag := by
  rw [← findBelow_shape, h, findBelow_shape]

@[simp] theorem nodesAt_nil (p : NodePath) : nil.nodesAt p = nil := by
  cases p with
  | nil => rfl
  | cons move p => cases move <;> rfl

theorem nodesAt_append (p q : NodePath) (t : Nodes) : t.nodesAt (p ++ q) = (t.nodesAt p).nodesAt q := by
  induction p generalizing t with
  | nil => rfl
  | cons move p ih =>
    cases move with
    | child =>
      cases t with
      | nil => exact (nodesAt_nil q).symm
      | element tag attrs children next => exact ih children
      | text data next => exact (nodesAt_nil q).symm
    | sibling =>
      cases t with
      | nil => exact (nodesAt_nil q).symm
      | element tag attrs children next => exact ih next
      | text data next => exact ih next

theorem nodesAt_child (q : NodePath) (t : Nodes) : t.nodesAt (.child :: q) = t.childrenOf.nodesAt q := by
  cases t with
  | nil => exact (nodesAt_nil q).symm
  | element tag attrs children next => rfl
  | text data next => exact (nodesAt_nil q).symm

/-- What is found has the tag. -/
theorem tagOf_of_find (h : t.find tag = some p) : (t.nodesAt p).tagOf = some tag := by
  induction t generalizing p with
  | nil => cases h
  | element tag' attrs children next ihChildren ihNext =>
    unfold find at h
    split at h
    next heq =>
      cases h
      exact congrArg some heq
    next =>
      rcases Option.or_eq_some_iff.mp h with h | ⟨-, h⟩
      · obtain ⟨q, hq, rfl⟩ := Option.map_eq_some_iff.mp h
        exact ihChildren hq
      · obtain ⟨q, hq, rfl⟩ := Option.map_eq_some_iff.mp h
        exact ihNext hq
  | text data next ih =>
    obtain ⟨q, hq, rfl⟩ := Option.map_eq_some_iff.mp h
    exact ih hq

theorem tagOf_of_findBelow {node : NodePath} (h : t.findBelow node tag = some p) :
    (t.nodesAt p).tagOf = some tag := by
  obtain ⟨q, hq, rfl⟩ := Option.map_eq_some_iff.mp h
  rw [nodesAt_append, nodesAt_child]
  exact tagOf_of_find hq

/-- Data which is there can be replaced, and what follows it stays. -/
theorem childrenOf_setData (h : t.getData p ≠ none) (v : CString) :
    ∃ w rest, (t.nodesAt p).childrenOf = text w rest ∧ ((t.setData p v).nodesAt p).childrenOf = text v rest := by
  induction p generalizing t with
  | nil =>
    match t with
    | nil => exact absurd rfl h
    | element _ _ nil _ => exact absurd rfl h
    | element _ _ (element _ _ _ _) _ => exact absurd rfl h
    | element _ _ (text w rest) _ => exact ⟨w, rest, rfl, rfl⟩
    | text _ _ => exact absurd rfl h
  | cons move p ih =>
    cases move with
    | child =>
      cases t with
      | nil => exact absurd rfl h
      | element tag attrs children next => exact ih h
      | text data next => exact absurd rfl h
    | sibling =>
      cases t with
      | nil => exact absurd rfl h
      | element tag attrs children next => exact ih h
      | text data next => exact ih h

theorem getData_setData (h : t.getData p ≠ none) (v : CString) : (t.setData p v).getData p = some v := by
  obtain ⟨w, rest, -, hafter⟩ := childrenOf_setData h v
  rw [getData, dataOf, hafter, textOf]

/-- Writing the data of an element leaves a text at the beginning. -/
@[simp] theorem textOf_setData (p : NodePath) (v : CString) (t : Nodes) : (t.setData p v).textOf = t.textOf := by
  fun_cases setData p v t <;> rfl

/-- What is read of the children of other elements stays, if no data below the children counts. -/
theorem read_setData_of_ne {β : Type} {f : Nodes → β} (hf : ∀ p v t, f (setData p v t) = f t) (h : p ≠ q) (v : CString)
    (t : Nodes) : f ((t.setData p v).nodesAt q).childrenOf = f (t.nodesAt q).childrenOf := by
  induction p generalizing q t with
  | nil =>
    match t with
    | nil => rfl
    | element _ _ nil _ => rfl
    | element _ _ (element _ _ _ _) _ => rfl
    | text _ _ => rfl
    | element _ _ (text _ _) _ =>
      match q with
      | [] => exact absurd rfl h
      | .sibling :: _ => rfl
      | [.child] => rfl
      | .child :: .child :: _ => rfl
      | .child :: .sibling :: _ => rfl
  | cons move p ih =>
    cases move with
    | child =>
      match t, q with
      | nil, _ => rfl
      | text _ _, _ => rfl
      | element _ _ children _, [] => exact hf p v children
      | element _ _ _ _, .sibling :: _ => rfl
      | element _ _ children _, .child :: q => exact ih (fun heq => h (heq ▸ rfl)) children
    | sibling =>
      match t, q with
      | nil, _ => rfl
      | text _ _, [] => rfl
      | element _ _ _ _, [] => rfl
      | text _ _, .child :: _ => rfl
      | element _ _ _ _, .child :: _ => rfl
      | text _ next, .sibling :: q => exact ih (fun heq => h (heq ▸ rfl)) next
      | element _ _ _ next, .sibling :: q => exact ih (fun heq => h (heq ▸ rfl)) next

/-- The data of other elements stays. -/
theorem getData_setData_of_ne (h : p ≠ q) (v : CString) (t : Nodes) : (t.setData p v).getData q = t.getData q :=
  read_setData_of_ne textOf_setData h v t

/-- The last data written to an element counts. -/
theorem setData_setData (p : NodePath) (v w : CString) (t : Nodes) : (t.setData p w).setData p v = t.setData p v := by
  fun_induction setData p w t with
  | case1 w tag attrs data rest next => rfl
  | case2 p w tag attrs children next ih => rw [setData, setData, ih]
  | case3 p w tag attrs children next ih => rw [setData, setData, ih]
  | case4 p w data next ih => rw [setData, setData, ih]
  | case5 => rfl

/-- Data that is there already is not changed by writing it, and none is added. -/
theorem setData_of_getData (h : ∀ w, t.getData p = some w → w = v) : t.setData p v = t := by
  fun_induction setData p v t with
  | case1 v tag attrs data rest next => rw [h data rfl]
  | case2 p v tag attrs children next ih => rw [ih h]
  | case3 p v tag attrs children next ih => rw [ih h]
  | case4 p v data next ih => rw [ih h]
  | case5 => rfl

/-- Writing gives data to no element without it, and takes it from none. -/
theorem getData_setData_eq_none (p q : NodePath) (v : CString) (t : Nodes) :
    (t.setData p v).getData q = none ↔ t.getData q = none := by
  by_cases hq : p = q
  · obtain rfl := hq
    cases hdata : t.getData p with
    | none => rw [setData_of_getData (by rw [hdata]; nofun), hdata]
    | some w => rw [getData_setData (by rw [hdata]; nofun)]; simp
  · rw [getData_setData_of_ne hq]

@[simp] theorem setData_nil (p : NodePath) (v : CString) : nil.setData p v = nil := by
  match p with
  | [] => rfl
  | .child :: _ => rfl
  | .sibling :: _ => rfl

/-- The first text is replaced before or after data further down. -/
theorem setData_top_comm (q : NodePath) (v w : CString) (tag : CString) (attrs : List (CString × CString))
    (children next : Nodes) :
    setData [] v (element tag attrs (children.setData q w) next) =
      setData (.child :: q) w (setData [] v (element tag attrs children next)) := by
  match q, children with
  | [], nil => rfl
  | [], element _ _ nil _ => rfl
  | [], element _ _ (element _ _ _ _) _ => rfl
  | [], element _ _ (text _ _) _ => rfl
  | [], text _ _ => rfl
  | .child :: _, nil => rfl
  | .child :: _, element _ _ _ _ => rfl
  | .child :: _, text _ _ => rfl
  | .sibling :: _, nil => rfl
  | .sibling :: _, element _ _ _ _ => rfl
  | .sibling :: _, text _ _ => rfl

theorem setData_next_comm (q : NodePath) (v w : CString) (t : Nodes) :
    (t.setData (.sibling :: q) w).setData [] v = (t.setData [] v).setData (.sibling :: q) w := by
  match t with
  | nil => rfl
  | element _ _ nil _ => rfl
  | element _ _ (element _ _ _ _) _ => rfl
  | element _ _ (text _ _) _ => rfl
  | text _ _ => rfl

/-- Data of different elements may be written in either order. -/
theorem setData_comm (h : p ≠ q) (v w : CString) (t : Nodes) :
    (t.setData q w).setData p v = (t.setData p v).setData q w := by
  induction p generalizing q t with
  | nil =>
    match q, t with
    | [], _ => exact absurd rfl h
    | .sibling :: q, t => exact setData_next_comm q v w t
    | .child :: q, element tag attrs children next => exact setData_top_comm q v w tag attrs children next
    | .child :: _, nil => rfl
    | .child :: _, text _ _ => rfl
  | cons move p ih =>
    cases move with
    | child =>
      match q, t with
      | _, nil => simp only [setData_nil]
      | [], text _ _ => rfl
      | .child :: _, text _ _ => rfl
      | .sibling :: _, text _ _ => rfl
      | [], element tag attrs children next => exact (setData_top_comm p w v tag attrs children next).symm
      | .sibling :: _, element _ _ _ _ => rfl
      | .child :: q, element _ _ children _ =>
        have hrest := ih (fun heq => h (heq ▸ rfl)) (q := q) children
        simp only [setData, hrest]
    | sibling =>
      match q, t with
      | [], t => exact (setData_next_comm p w v t).symm
      | _, nil => simp only [setData_nil]
      | .child :: _, text _ _ => rfl
      | .child :: _, element _ _ _ _ => rfl
      | .sibling :: q, text _ next =>
        have hrest := ih (fun heq => h (heq ▸ rfl)) (q := q) next
        simp only [setData, hrest]
      | .sibling :: q, element _ _ _ next =>
        have hrest := ih (fun heq => h (heq ▸ rfl)) (q := q) next
        simp only [setData, hrest]

/-- Write data to several elements, one after another. -/
def applyWrites (ws : List (NodePath × CString)) (t : Nodes) : Nodes := ws.foldl (fun t w => t.setData w.1 w.2) t

variable {ws : List (NodePath × CString)}

@[simp] theorem applyWrites_nil (t : Nodes) : applyWrites [] t = t := rfl

theorem applyWrites_cons (w : NodePath × CString) (ws : List (NodePath × CString)) (t : Nodes) :
    applyWrites (w :: ws) t = applyWrites ws (t.setData w.1 w.2) := rfl

theorem applyWrites_append (ws ws' : List (NodePath × CString)) (t : Nodes) :
    applyWrites (ws ++ ws') t = applyWrites ws' (applyWrites ws t) := List.foldl_append

@[simp] theorem shape_applyWrites (ws : List (NodePath × CString)) (t : Nodes) : (applyWrites ws t).shape = t.shape := by
  induction ws generalizing t with
  | nil => rfl
  | cons w ws ih => rw [applyWrites_cons, ih, shape_setData]

/-- The data of an element stays if none is written to it. -/
theorem getData_applyWrites (h : ∀ w ∈ ws, w.1 ≠ q) (t : Nodes) : (applyWrites ws t).getData q = t.getData q := by
  induction ws generalizing t with
  | nil => rfl
  | cons w ws ih =>
    obtain ⟨hw, hws⟩ := List.forall_mem_cons.mp h
    rw [applyWrites_cons, ih hws, getData_setData_of_ne hw]

theorem getData_applyWrites_eq_none (ws : List (NodePath × CString)) (q : NodePath) (t : Nodes) :
    (applyWrites ws t).getData q = none ↔ t.getData q = none := by
  induction ws generalizing t with
  | nil => rfl
  | cons w ws ih => rw [applyWrites_cons, ih, getData_setData_eq_none]

/-- What is written to an element does not matter when data is written to it later on. -/
theorem applyWrites_setData (h : p ∈ ws.map Prod.fst) (v : CString) (t : Nodes) :
    applyWrites ws (t.setData p v) = applyWrites ws t := by
  induction ws generalizing t with
  | nil => cases h
  | cons w ws ih =>
    rw [applyWrites_cons, applyWrites_cons]
    by_cases hp : w.1 = p
    · rw [hp, setData_setData]
    · have hlater : p ∈ ws.map Prod.fst := (List.mem_cons.mp h).resolve_left fun heq => hp heq.symm
      rw [setData_comm hp, ih hlater]

/-- Writing the same data once more changes nothing. -/
theorem applyWrites_applyWrites (ws : List (NodePath × CString)) (t : Nodes) :
    applyWrites ws (applyWrites ws t) = applyWrites ws t := by
  suffices h : ∀ ws', ws' ⊆ ws → ∀ t, applyWrites ws (applyWrites ws' t) = applyWrites ws t from
    h ws (List.Subset.refl ws) t
  intro ws' hsub
  induction ws' with
  | nil => exact fun t => rfl
  | cons w ws' ih =>
    obtain ⟨hw, hsub⟩ := List.cons_subset.mp hsub
    intro t
    rw [applyWrites_cons, ih hsub, applyWrites_setData (List.mem_map_of_mem hw)]

/-- The nodes without the elements of a tag and what is in them. -/
def remove (tag : CString) : Nodes → Nodes
  | nil => nil
  | element tag' attrs children next =>
    if tag' = tag then next.remove tag else element tag' attrs (children.remove tag) (next.remove tag)
  | text data next => text data (next.remove tag)

/-- The elements of a tag which are not in another one, as they are taken out of the nodes from the first on. -/
def outermost (tag : CString) : Nodes → List (List (CString × CString) × Nodes)
  | nil => []
  | element tag' attrs children next =>
    if tag' = tag then (attrs, children) :: next.outermost tag else children.outermost tag ++ next.outermost tag
  | text _ next => next.outermost tag

/-- Elements of a tag one after another. -/
def ofElements (tag : CString) (elements : List (List (CString × CString) × Nodes)) : Nodes :=
  elements.foldr (fun e next => element tag e.1 e.2 next) nil

/-- Add nodes behind the last one. -/
def append : Nodes → Nodes → Nodes
  | nil, s => s
  | element tag attrs children next, s => element tag attrs children (next.append s)
  | text data next, s => text data (next.append s)

/-- Add nodes behind the last child of the element at a path. -/
def addChildren : NodePath → Nodes → Nodes → Nodes
  | [], element tag attrs children next, s => element tag attrs (children.append s) next
  | .child :: p, element tag attrs children next, s => element tag attrs (children.addChildren p s) next
  | .sibling :: p, element tag attrs children next, s => element tag attrs children (next.addChildren p s)
  | .sibling :: p, text data next, s => text data (next.addChildren p s)
  | _, t, _ => t

/-- No element has the tag. -/
def Lacks (tag : CString) : Nodes → Prop
  | nil => True
  | element tag' _ children next => tag' ≠ tag ∧ children.Lacks tag ∧ next.Lacks tag
  | text _ next => next.Lacks tag

theorem lacks_remove (tag : CString) (t : Nodes) : (t.remove tag).Lacks tag := by
  induction t with
  | nil => trivial
  | element tag' attrs children next ihChildren ihNext =>
    unfold remove
    split
    · exact ihNext
    next hne => exact ⟨hne, ihChildren, ihNext⟩
  | text data next ih => exact ih

theorem Lacks.remove_eq (h : t.Lacks tag) : t.remove tag = t := by
  induction t with
  | nil => rfl
  | element tag' attrs children next ihChildren ihNext =>
    rw [remove, if_neg h.1, ihChildren h.2.1, ihNext h.2.2]
  | text data next ih => rw [remove, ih h]

theorem remove_append (tag : CString) (t s : Nodes) : (t.append s).remove tag = (t.remove tag).append (s.remove tag) := by
  induction t with
  | nil => rfl
  | element tag' attrs children next ihChildren ihNext =>
    rw [append, remove, remove, ihNext]
    split
    · rfl
    · rw [append]
  | text data next ih => rw [append, remove, remove, append, ih]

theorem remove_ofElements (tag : CString) (elements : List (List (CString × CString) × Nodes)) :
    (ofElements tag elements).remove tag = nil := by
  induction elements with
  | nil => rfl
  | cons e elements ih => exact (if_pos rfl).trans ih

@[simp] theorem append_nil (t : Nodes) : t.append nil = t := by
  induction t with
  | nil => rfl
  | element tag attrs children next ihChildren ihNext => rw [append, ihNext]
  | text data next ih => rw [append, ih]

@[simp] theorem addChildren_nil (p : NodePath) (s : Nodes) : nil.addChildren p s = nil := by
  match p with
  | [] => rfl
  | .child :: _ => rfl
  | .sibling :: _ => rfl

/-- Added elements can be removed again. -/
theorem Lacks.remove_addChildren (h : t.Lacks tag) {s : Nodes} (hs : s.remove tag = nil) (p : NodePath) :
    (t.addChildren p s).remove tag = t := by
  induction p generalizing t with
  | nil =>
    cases t with
    | nil => rw [addChildren_nil, remove]
    | element tag' attrs children next =>
      rw [addChildren, remove, if_neg h.1, remove_append, hs, append_nil, Lacks.remove_eq h.2.1, Lacks.remove_eq h.2.2]
    | text data next => exact h.remove_eq
  | cons move p ih =>
    cases move with
    | child =>
      cases t with
      | nil => rw [addChildren_nil, remove]
      | element tag' attrs children next => rw [addChildren, remove, if_neg h.1, ih h.2.1, Lacks.remove_eq h.2.2]
      | text data next => exact h.remove_eq
    | sibling =>
      cases t with
      | nil => rw [addChildren_nil, remove]
      | element tag' attrs children next => rw [addChildren, remove, if_neg h.1, ih h.2.2, Lacks.remove_eq h.2.1]
      | text data next =>
        have hnext : next.Lacks tag := h
        rw [addChildren, remove, ih hnext]

/-- What is below an element of the tag does not matter. -/
theorem remove_setData_below (h : p ∈ t.findAll tag) (q : NodePath) (v : CString) :
    (t.setData (p ++ .child :: q) v).remove tag = t.remove tag := by
  induction t generalizing p with
  | nil => cases h
  | element tag' attrs children next ihChildren ihNext =>
    rw [findAll, List.append_assoc, List.mem_append] at h
    rcases h with hself | hbelow
    · split at hself
      next heq =>
        obtain rfl := List.mem_singleton.mp hself
        exact (if_pos heq).trans (if_pos heq).symm
      · cases hself
    · rcases List.mem_append.mp hbelow with hchild | hnext
      · obtain ⟨r, hr, rfl⟩ := List.mem_map.mp hchild
        rw [List.cons_append, setData, remove, remove, ihChildren hr]
      · obtain ⟨r, hr, rfl⟩ := List.mem_map.mp hnext
        rw [List.cons_append, setData, remove, remove, ihNext hr]
  | text data next ih =>
    obtain ⟨r, hr, rfl⟩ := List.mem_map.mp h
    rw [List.cons_append, setData, remove, remove, ih hr]

end Nodes

end Foundation
