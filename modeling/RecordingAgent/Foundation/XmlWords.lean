import Mathlib.Data.List.Nodup
import RecordingAgent.Foundation.XmlDom

/-!
# Documents read word by word

When the words of a text are nodes of their own, the text of an element is what its words are, joined by
blanks. Writing the data of an element replaces the first of its words, and no word of another element.
-/

namespace Foundation

/-- Words joined by blanks. A blank part of a text is an empty word. -/
def joinWords : List CString → CString
  | [] => []
  | w :: ws => if w = [] then joinWords ws else if joinWords ws = [] then w else w ++ ' ' :: joinWords ws

theorem joinWords_eq_nil_iff (ws : List CString) : joinWords ws = [] ↔ ∀ w ∈ ws, w = [] := by
  induction ws with
  | nil => simp [joinWords]
  | cons w ws ih =>
    rw [List.forall_mem_cons, ← ih, joinWords]
    split
    next hw => simp [hw]
    next hw =>
      split
      next => simp [hw]
      next => simp [hw]

/-- Only blanks behind a text leave it as it is. -/
theorem joinWords_cons_eq_iff (w : CString) (ws : List CString) : joinWords (w :: ws) = w ↔ ∀ v ∈ ws, v = [] := by
  rw [← joinWords_eq_nil_iff, joinWords]
  split
  next hw => rw [hw]
  next hw =>
    split
    next hws => simp [hws]
    next hws =>
      refine iff_of_false (fun h => ?_) hws
      have hlength := congrArg List.length h
      rw [List.length_append, List.length_cons] at hlength
      omega

namespace Nodes

/-- The elements, in the order of the document. -/
def elements : Nodes → List NodePath
  | nil => []
  | element _ _ children next => [] :: (children.elements.map (.child :: ·) ++ next.elements.map (.sibling :: ·))
  | text _ next => next.elements.map (.sibling :: ·)

/-- The elements among the nodes from one on, without those below them. -/
def levelElements : Nodes → List NodePath
  | nil => []
  | element _ _ _ next => [] :: next.levelElements.map (.sibling :: ·)
  | text _ next => next.levelElements.map (.sibling :: ·)

/-- The children of a node which are elements. -/
def childElements (node : NodePath) (t : Nodes) : List NodePath :=
  (t.nodesAt node).childrenOf.levelElements.map fun q => node ++ .child :: q

/-- The texts among the nodes from one on. -/
def words : Nodes → List CString
  | nil => []
  | element _ _ _ next => next.words
  | text data next => data :: next.words

/-- The words of the element at a path. -/
def wordsOf (p : NodePath) (t : Nodes) : List CString := (t.nodesAt p).childrenOf.words

/-- The tag of the element at a path. -/
def tagAt (p : NodePath) (t : Nodes) : Option CString := (t.nodesAt p).tagOf

variable {p q : NodePath} {v : CString} {s t : Nodes} {ws : List (NodePath × CString)}

/-- No element is listed twice. -/
theorem nodup_elements (t : Nodes) : t.elements.Nodup := by
  induction t with
  | nil => exact List.nodup_nil
  | element tag attrs children next ihChildren ihNext =>
    have hchildren : (children.elements.map (Move.child :: ·)).Nodup := ihChildren.map List.cons_injective
    have hnext : (next.elements.map (Move.sibling :: ·)).Nodup := ihNext.map List.cons_injective
    rw [elements, List.nodup_cons]
    constructor
    · simp
    · refine List.nodup_append.mpr ⟨hchildren, hnext, ?_⟩
      intro a ha b hb heq
      obtain ⟨_, -, rfl⟩ := List.mem_map.mp ha
      obtain ⟨_, -, rfl⟩ := List.mem_map.mp hb
      cases heq
  | text data next ih => exact ih.map List.cons_injective

theorem tagAt_shape (p : NodePath) (t : Nodes) : t.shape.tagAt p = t.tagAt p := by
  rw [tagAt, tagAt, nodesAt_shape]
  cases t.nodesAt p <;> rfl

/-- Documents of the same shape have the same tags. -/
theorem tagAt_congr (h : s.shape = t.shape) (p : NodePath) : s.tagAt p = t.tagAt p := by
  rw [← tagAt_shape, h, tagAt_shape]

/-- The data of an element is its first word. -/
theorem wordsOf_of_getData (h : t.getData p = some v) : t.wordsOf p = v :: (t.wordsOf p).tail := by
  unfold getData dataOf at h
  unfold wordsOf
  cases hchildren : (t.nodesAt p).childrenOf with
  | nil => rw [hchildren] at h; cases h
  | element tag attrs children next => rw [hchildren] at h; cases h
  | text data next =>
    rw [hchildren] at h
    cases h
    rfl

/-- Writing data changes no text beside the element. -/
@[simp] theorem words_setData (p : NodePath) (v : CString) (t : Nodes) : (t.setData p v).words = t.words := by
  fun_induction setData p v t with
  | case1 v tag attrs data rest next => rfl
  | case2 p v tag attrs children next ih => rfl
  | case3 p v tag attrs children next ih => exact ih
  | case4 p v data next ih => exact congrArg (data :: ·) ih
  | case5 => rfl

/-- Written data takes the place of the first word. -/
theorem wordsOf_setData (h : t.getData p ≠ none) (v : CString) :
    (t.setData p v).wordsOf p = v :: (t.wordsOf p).tail := by
  obtain ⟨w, rest, hbefore, hafter⟩ := childrenOf_setData h v
  rw [wordsOf, wordsOf, hbefore, hafter, words, words, List.tail_cons]

/-- The words of other elements stay. -/
theorem wordsOf_setData_of_ne (h : p ≠ q) (v : CString) (t : Nodes) : (t.setData p v).wordsOf q = t.wordsOf q :=
  read_setData_of_ne words_setData h v t

/-- The words of an element stay if no data is written to it. -/
theorem wordsOf_applyWrites_of_ne (h : ∀ w ∈ ws, w.1 ≠ q) (t : Nodes) : (applyWrites ws t).wordsOf q = t.wordsOf q := by
  induction ws generalizing t with
  | nil => rfl
  | cons w ws ih =>
    obtain ⟨hw, hws⟩ := List.forall_mem_cons.mp h
    rw [applyWrites_cons, ih hws, wordsOf_setData_of_ne hw]

/-- An element that is written once has the data as its first word. -/
theorem wordsOf_applyWrites (hnodup : (ws.map Prod.fst).Nodup) (hmem : (q, v) ∈ ws) (h : t.getData q ≠ none) :
    (applyWrites ws t).wordsOf q = v :: (t.wordsOf q).tail := by
  induction ws generalizing t with
  | nil => cases hmem
  | cons w ws ih =>
    rw [List.map_cons, List.nodup_cons] at hnodup
    rw [applyWrites_cons]
    rcases List.mem_cons.mp hmem with rfl | hmem
    · have hother : ∀ w ∈ ws, w.1 ≠ q := fun w hw heq => hnodup.1 (List.mem_map.mpr ⟨w, hw, heq⟩)
      rw [wordsOf_applyWrites_of_ne hother, wordsOf_setData h]
    · have hne : w.1 ≠ q := fun heq => hnodup.1 (List.mem_map.mpr ⟨(q, v), hmem, heq.symm⟩)
      rw [ih hnodup.2 hmem (by rwa [Ne, getData_setData_eq_none]), wordsOf_setData_of_ne hne]

end Nodes

end Foundation
