import RecordingAgent.Foundation.XmlDom

/-!
# A text for every document

A document is written as the operations which build it on a stack, so that it can be read back: reading
runs the operations. Every document has a text, and a text that begins with an angle bracket has none.
-/

namespace Foundation

/-- What has been read: texts, lists of attributes and nodes, the last ones first. -/
structure NodeStack where
  texts : List CString
  attrs : List (List (CString × CString))
  nodes : List Nodes

namespace NodeStack

/-- Read operations one after another. -/
def run : CString → NodeStack → Option NodeStack
  | [], s => some s
  | '"' :: ops, ⟨texts, attrs, nodes⟩ => run ops ⟨[] :: texts, attrs, nodes⟩
  | '+' :: c :: ops, ⟨text :: texts, attrs, nodes⟩ => run ops ⟨(c :: text) :: texts, attrs, nodes⟩
  | '[' :: ops, ⟨texts, attrs, nodes⟩ => run ops ⟨texts, [] :: attrs, nodes⟩
  | '=' :: ops, ⟨name :: value :: texts, list :: attrs, nodes⟩ => run ops ⟨texts, ((name, value) :: list) :: attrs, nodes⟩
  | '.' :: ops, ⟨texts, attrs, nodes⟩ => run ops ⟨texts, attrs, .nil :: nodes⟩
  | 't' :: ops, ⟨data :: texts, attrs, next :: nodes⟩ => run ops ⟨texts, attrs, .text data next :: nodes⟩
  | 'e' :: ops, ⟨tag :: texts, list :: attrs, children :: next :: nodes⟩ =>
    run ops ⟨texts, attrs, .element tag list children next :: nodes⟩
  | _, _ => none

end NodeStack

namespace Nodes

/-- The operations which put a text on the stack, from its last character on. -/
def textOps : CString → CString
  | [] => ['"']
  | c :: chars => textOps chars ++ ['+', c]

/-- The operations which put attributes on the stack. -/
def attrsOps : List (CString × CString) → CString
  | [] => ['[']
  | a :: list => attrsOps list ++ textOps a.2 ++ textOps a.1 ++ ['=']

/-- The operations which put nodes on the stack. -/
def ops : Nodes → CString
  | nil => ['.']
  | element tag list children next => next.ops ++ children.ops ++ attrsOps list ++ textOps tag ++ ['e']
  | text data next => next.ops ++ textOps data ++ ['t']

/-- The document a text stands for. -/
def ofOps (chars : CString) : Option Nodes :=
  match NodeStack.run chars ⟨[], [], []⟩ with
  | some ⟨[], [], [t]⟩ => some t
  | _ => none

variable (rest : CString) (texts : List CString) (attrs : List (List (CString × CString))) (nodes : List Nodes)

theorem run_textOps (chars : CString) :
    NodeStack.run (textOps chars ++ rest) ⟨texts, attrs, nodes⟩ = NodeStack.run rest ⟨chars :: texts, attrs, nodes⟩ := by
  induction chars generalizing rest with
  | nil => rfl
  | cons c chars ih =>
    rw [textOps, List.append_assoc, ih]
    rfl

theorem run_attrsOps (list : List (CString × CString)) :
    NodeStack.run (attrsOps list ++ rest) ⟨texts, attrs, nodes⟩ = NodeStack.run rest ⟨texts, list :: attrs, nodes⟩ := by
  induction list generalizing rest with
  | nil => rfl
  | cons a list ih =>
    simp only [attrsOps, List.append_assoc]
    rw [ih, run_textOps, run_textOps]
    rfl

theorem run_ops (t : Nodes) :
    NodeStack.run (t.ops ++ rest) ⟨texts, attrs, nodes⟩ = NodeStack.run rest ⟨texts, attrs, t :: nodes⟩ := by
  induction t generalizing rest nodes with
  | nil => rfl
  | element tag list children next ihChildren ihNext =>
    simp only [ops, List.append_assoc]
    rw [ihNext, ihChildren, run_attrsOps, run_textOps]
    rfl
  | text data next ih =>
    simp only [ops, List.append_assoc]
    rw [ih, run_textOps]
    rfl

/-- What has been written is read again. -/
theorem ofOps_ops (t : Nodes) : ofOps t.ops = some t := by
  have hrun := run_ops [] [] [] [] t
  rw [List.append_nil] at hrun
  rw [ofOps, hrun]
  rfl

/-- No operation begins with an angle bracket. -/
theorem ofOps_bracket (chars : CString) : ofOps ('<' :: chars) = none := rfl

end Nodes

end Foundation
