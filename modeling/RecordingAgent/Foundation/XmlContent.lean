import Mathlib.Algebra.GroupWithZero.Nat
import Mathlib.Data.List.Infix
import RecordingAgent.Foundation.CString

/-!
# The content of an XML element

A reader of well-formed content: character data, references, elements with their attributes, comments,
processing instructions and character data sections. It goes through the text character by character, and
each token it finds keeps the text it was read from and the events it stands for. Character data as it is
printed stands for itself exactly if it has no markup characters and no `]]>`.
-/

namespace Foundation.Xml

/-- What is told about a document in its order. -/
inductive Event
  | startTag (name : CString)
  | endTag (name : CString)
  | char (c : Char)
  deriving DecidableEq

/-- A token: the text it was read from, and what it stands for. -/
structure Token where
  source : CString
  events : List Event
  deriving DecidableEq

/-- White space. -/
def isSpace (c : Char) : Bool := c == ' ' || c == '\t' || c == '\r' || c == '\n'

/-- The characters which a document may have. -/
def isChar (c : Char) : Bool :=
  isSpace c || (0x20 ≤ c.toNat && c.toNat != 0xFFFE && c.toNat != 0xFFFF)

/-- The characters a name may begin with. -/
def isNameStart (c : Char) : Bool :=
  c.isAlpha || c == '_' || c == ':' ||
    [(0xC0, 0xD6), (0xD8, 0xF6), (0xF8, 0x2FF), (0x370, 0x37D), (0x37F, 0x1FFF), (0x200C, 0x200D), (0x2070, 0x218F),
      (0x2C00, 0x2FEF), (0x3001, 0xD7FF), (0xF900, 0xFDCF), (0xFDF0, 0xFFFD), (0x10000, 0xEFFFF)].any
      fun range => range.1 ≤ c.toNat && c.toNat ≤ range.2

/-- The characters of a name. -/
def isNameChar (c : Char) : Bool :=
  isNameStart c || c.isDigit || c == '-' || c == '.' || c.toNat == 0xB7 ||
    (0x300 ≤ c.toNat && c.toNat ≤ 0x36F) || (0x203F ≤ c.toNat && c.toNat ≤ 0x2040)

/-- The value of a hexadecimal digit. -/
def hexDigit (c : Char) : Option ℕ :=
  if c.isDigit then some (c.toNat - '0'.toNat)
  else if 'a' ≤ c ∧ c ≤ 'f' then some (c.toNat - 'a'.toNat + 10)
  else if 'A' ≤ c ∧ c ≤ 'F' then some (c.toNat - 'A'.toNat + 10)
  else none

/-- The character with a number, if a document may have it. -/
def charNumbered (n : ℕ) : Option Char :=
  if n.isValidChar ∧ isChar (Char.ofNat n) then some (Char.ofNat n) else none

/-- What a reference stands for: a number, or one of the five entities that need no declaration. -/
def referenced : CString → Option Char
  | ['l', 't'] => some '<'
  | ['g', 't'] => some '>'
  | ['a', 'm', 'p'] => some '&'
  | ['a', 'p', 'o', 's'] => some '\''
  | ['q', 'u', 'o', 't'] => some '"'
  | '#' :: 'x' :: digits =>
    if digits = [] then none
    else ((digits.mapM hexDigit).map fun ds => ds.foldl (fun n d => 16 * n + d) 0).bind charNumbered
  | '#' :: digits => if digits ≠ [] ∧ digits.all Char.isDigit then charNumbered (decimalValue digits) else none
  | _ => none

/-- Inside a start tag, behind its name. -/
inductive AttrState
  | spaced
  | attribute (attr : CString)
  | equals
  | beforeValue
  | quoted (quote : Char)
  | reference (quote : Char) (entity : CString)
  | valued
  | slash

/-- Inside markup. -/
inductive Inner
  | reference (entity : CString)
  | markup
  | startName (name : CString)
  | startTag (name : CString) (attrs : List CString) (state : AttrState)
  | endName (name : CString)
  | endSpace (name : CString)
  | bang (text : CString)
  | comment (dashes : ℕ)
  | cdata (text : CString)
  | target (name : CString)
  | instruction (question : Bool)
  | instructionEnd

/-- Go on inside the markup, or leave it with what it stands for. -/
abbrev Next := Option (Inner ⊕ List Event)

/-- The next character inside a start tag. The attributes have different names. -/
def AttrState.next (tag : CString) (attrs : List CString) : AttrState → Char → Next
  | .spaced, c =>
    if isSpace c then some (.inl (.startTag tag attrs .spaced))
    else if c = '/' then some (.inl (.startTag tag attrs .slash))
    else if c = '>' then some (.inr [.startTag tag])
    else if isNameStart c then some (.inl (.startTag tag attrs (.attribute (c :: .nil))))
    else none
  | .attribute attr, c =>
    if isNameChar c then some (.inl (.startTag tag attrs (.attribute (attr ++ [c]))))
    else if attr ∈ attrs then none
    else if isSpace c then some (.inl (.startTag tag (attr :: attrs) .equals))
    else if c = '=' then some (.inl (.startTag tag (attr :: attrs) .beforeValue))
    else none
  | .equals, c =>
    if isSpace c then some (.inl (.startTag tag attrs .equals))
    else if c = '=' then some (.inl (.startTag tag attrs .beforeValue))
    else none
  | .beforeValue, c =>
    if isSpace c then some (.inl (.startTag tag attrs .beforeValue))
    else if c = '"' ∨ c = '\'' then some (.inl (.startTag tag attrs (.quoted c)))
    else none
  | .quoted quote, c =>
    if c = quote then some (.inl (.startTag tag attrs .valued))
    else if c = '&' then some (.inl (.startTag tag attrs (.reference quote [])))
    else if c ≠ '<' ∧ isChar c then some (.inl (.startTag tag attrs (.quoted quote)))
    else none
  | .reference quote entity, c =>
    if c = ';' then (referenced entity).map fun _ => .inl (.startTag tag attrs (.quoted quote))
    else if isNameChar c ∨ c = '#' then some (.inl (.startTag tag attrs (.reference quote (entity ++ [c]))))
    else none
  | .valued, c =>
    if isSpace c then some (.inl (.startTag tag attrs .spaced))
    else if c = '/' then some (.inl (.startTag tag attrs .slash))
    else if c = '>' then some (.inr [.startTag tag])
    else none
  | .slash, c => if c = '>' then some (.inr [.startTag tag, .endTag tag]) else none

/-- What begins a comment behind its `<!`, and a character data section. -/
def commentOpen : CString := ['-', '-']
def cdataOpen : CString := ['[', 'C', 'D', 'A', 'T', 'A', '[']

/-- The next character inside markup. -/
def Inner.next : Inner → Char → Next
  | .reference entity, c =>
    if c = ';' then (referenced entity).map fun ch => .inr [.char ch]
    else if isNameChar c ∨ c = '#' then some (.inl (.reference (entity ++ [c])))
    else none
  | .markup, c =>
    if c = '/' then some (.inl (.endName []))
    else if c = '!' then some (.inl (.bang []))
    else if c = '?' then some (.inl (.target []))
    else if isNameStart c then some (.inl (.startName [c]))
    else none
  | .startName name, c =>
    if isNameChar c then some (.inl (.startName (name ++ [c])))
    else if isSpace c then some (.inl (.startTag name [] .spaced))
    else if c = '/' then some (.inl (.startTag name [] .slash))
    else if c = '>' then some (.inr [.startTag name])
    else none
  | .startTag name attrs state, c => state.next name attrs c
  | .endName name, c =>
    if name = [] then if isNameStart c then some (.inl (.endName [c])) else none
    else if isNameChar c then some (.inl (.endName (name ++ [c])))
    else if isSpace c then some (.inl (.endSpace name))
    else if c = '>' then some (.inr [.endTag name])
    else none
  | .endSpace name, c =>
    if isSpace c then some (.inl (.endSpace name))
    else if c = '>' then some (.inr [.endTag name])
    else none
  | .bang text, c =>
    if text ++ [c] = commentOpen then some (.inl (.comment 0))
    else if text ++ [c] = cdataOpen then some (.inl (.cdata []))
    else if text ++ [c] <+: commentOpen ∨ text ++ [c] <+: cdataOpen then some (.inl (.bang (text ++ [c])))
    else none
  -- two dashes in a row end a comment
  | .comment dashes, c =>
    if 2 ≤ dashes then if c = '>' then some (.inr []) else none
    else if isChar c then some (.inl (.comment (if c = '-' then dashes + 1 else 0)))
    else none
  | .cdata text, c =>
    if c = '>' ∧ [']', ']'] <:+ text then some (.inr ((text.take (text.length - 2)).map .char))
    else if isChar c then some (.inl (.cdata (text ++ [c])))
    else none
  | .target name, c =>
    if name = [] then if isNameStart c then some (.inl (.target [c])) else none
    else if isNameChar c then some (.inl (.target (name ++ [c])))
    else if name.map Char.toLower = ['x', 'm', 'l'] then none
    else if isSpace c then some (.inl (.instruction false))
    else if c = '?' then some (.inl .instructionEnd)
    else none
  | .instruction question, c =>
    if c = '>' ∧ question then some (.inr [])
    else if isChar c then some (.inl (.instruction (c == '?')))
    else none
  | .instructionEnd, c => if c = '>' then some (.inr []) else none

/-- Where the reader is: in character data behind a number of closing brackets, or inside markup that
was read so far. -/
inductive Mode
  | data (brackets : ℕ)
  | inside (text : CString) (state : Inner)

/-- The text that belongs to no token yet. -/
def Mode.pending : Mode → CString
  | .data _ => []
  | .inside text _ => text

/-- The tokens of a text, if it is content. -/
def scan : Mode → CString → Option (List Token)
  | .data _, [] => some []
  | .inside _ _, [] => none
  | .data brackets, c :: cs =>
    if c = '<' then scan (.inside [c] .markup) cs
    else if c = '&' then scan (.inside [c] (.reference [])) cs
    else if c = '>' ∧ 2 ≤ brackets then none
    else if isChar c then
      (scan (.data (if c = ']' then brackets + 1 else 0)) cs).map fun ts => ⟨[c], [.char c]⟩ :: ts
    else none
  | .inside text state, c :: cs =>
    match state.next c with
    | none => none
    | some (.inl state') => scan (.inside (text ++ [c]) state') cs
    | some (.inr events) => (scan (.data 0) cs).map fun ts => ⟨text ++ [c], events⟩ :: ts

/-- The events of a text, if it is content. -/
def contentEvents (text : CString) : Option (List Event) := (scan (.data 0) text).map fun ts => ts.flatMap Token.events

/-- Every element that is begun is ended, inside the one around it. -/
def balanced : List CString → List Event → Bool
  | stack, [] => stack.isEmpty
  | stack, .startTag name :: es => balanced (name :: stack) es
  | [], .endTag _ :: _ => false
  | outer :: stack, .endTag name :: es => outer == name && balanced stack es
  | stack, .char _ :: es => balanced stack es

/-- The text is well-formed content. -/
def WellFormed (text : CString) : Prop := ∃ es, contentEvents text = some es ∧ balanced [] es = true

/-- The events without the white space between the elements down to a depth. -/
def elementContent (inner : ℕ) : ℕ → List Event → List Event
  | _, [] => []
  | depth, .startTag name :: es => .startTag name :: elementContent inner (depth + 1) es
  | depth, .endTag name :: es => .endTag name :: elementContent inner (depth - 1) es
  | depth, .char c :: es =>
    if depth < inner ∧ isSpace c then elementContent inner depth es else .char c :: elementContent inner depth es

/-- What the tokens of content are. Only a literal character stands for itself. -/
inductive Token.Justified : Token → Prop
  | literal {c : Char} (hmarkup : c ≠ '<') (hreference : c ≠ '&') : Justified ⟨[c], [.char c]⟩
  | reference (entity : CString) (c : Char) : Justified ⟨'&' :: (entity ++ [';']), [.char c]⟩
  | startTag (source name : CString) : Justified ⟨source, [.startTag name]⟩
  | emptyTag {source : CString} (name : CString) (hslash : '/' ∈ source) :
      Justified ⟨source, [.startTag name, .endTag name]⟩
  | endTag {source : CString} (name : CString) (hslash : '/' ∈ source) : Justified ⟨source, [.endTag name]⟩
  | cdata (text : CString) (n : ℕ) :
      Justified ⟨'<' :: '!' :: (cdataOpen ++ text ++ ['>']), (text.take n).map .char⟩
  | silent (source : CString) : Justified ⟨source, []⟩

/-- The text which was read inside markup. -/
def Inner.Reads : Inner → CString → Prop
  | .reference entity, text => text = '&' :: entity
  | .markup, text => text = ['<']
  | .startTag _ _ .slash, text => '/' ∈ text
  | .endName _, text => '/' ∈ text
  | .endSpace _, text => '/' ∈ text
  | .bang read, text => text = '<' :: '!' :: read
  | .cdata read, text => text = '<' :: '!' :: (cdataOpen ++ read)
  | _, _ => True

section Reads

variable {tag text : CString} {attrs : List CString} {c : Char} {events : List Event}

/-- Going on inside a start tag. -/
theorem AttrState.reads_next {st : AttrState} {st' : Inner} (h : st.next tag attrs c = some (.inl st')) :
    st'.Reads (text ++ [c]) := by
  have hslash : c = '/' → '/' ∈ text ++ [c] := by
    rintro rfl
    exact List.mem_append_right _ List.mem_cons_self
  cases st with
  | reference quote entity =>
    simp only [AttrState.next] at h
    split_ifs at h
    · obtain ⟨_, _, hst⟩ := Option.map_eq_some_iff.mp h
      cases hst
      trivial
    · cases h
      trivial
  | _ =>
    simp only [AttrState.next] at h
    split_ifs at h <;> cases h <;> first | trivial | exact hslash ‹_›

/-- Leaving a start tag. -/
theorem AttrState.justified_next {st : AttrState} (htext : (Inner.startTag tag attrs st).Reads text)
    (h : st.next tag attrs c = some (.inr events)) : Token.Justified ⟨text ++ [c], events⟩ := by
  cases st with
  | reference quote entity =>
    simp only [AttrState.next] at h
    split_ifs at h
    · obtain ⟨_, _, hst⟩ := Option.map_eq_some_iff.mp h
      cases hst
    · cases h
  | slash =>
    simp only [AttrState.next] at h
    split_ifs at h
    cases h
    exact .emptyTag tag (List.mem_append_left _ htext)
  | _ =>
    simp only [AttrState.next] at h
    split_ifs at h <;> cases h <;> exact .startTag _ tag

/-- Going on inside markup. -/
theorem Inner.reads_next {st st' : Inner} (htext : st.Reads text) (h : st.next c = some (.inl st')) :
    st'.Reads (text ++ [c]) := by
  cases st with
  | startTag name attrs state => exact state.reads_next h
  | reference entity =>
    simp only [Inner.next] at h
    split_ifs at h
    · obtain ⟨_, _, hst⟩ := Option.map_eq_some_iff.mp h
      cases hst
    · cases h
      rw [Inner.Reads, htext, List.cons_append]
  | markup =>
    obtain rfl : text = ['<'] := htext
    simp only [Inner.next] at h
    split_ifs at h with hslash hbang <;> cases h
    · rw [hslash]
      exact List.mem_cons_of_mem _ List.mem_cons_self
    · rw [hbang]
      rfl
    all_goals trivial
  | startName name =>
    simp only [Inner.next] at h
    split_ifs at h with _ _ hslash <;> cases h
    · trivial
    · trivial
    · rw [hslash]
      exact List.mem_append_right _ List.mem_cons_self
  | endName name =>
    simp only [Inner.next] at h
    split_ifs at h <;> cases h <;> exact List.mem_append_left _ htext
  | endSpace name =>
    simp only [Inner.next] at h
    split_ifs at h <;> cases h
    exact List.mem_append_left _ htext
  | bang read =>
    obtain rfl : text = '<' :: '!' :: read := htext
    simp only [Inner.next] at h
    split_ifs at h with _ hcdata <;> cases h
    · trivial
    · rw [Inner.Reads, List.append_nil, ← hcdata]
      rfl
    · rfl
  | cdata read =>
    obtain rfl : text = '<' :: '!' :: (cdataOpen ++ read) := htext
    simp only [Inner.next] at h
    split_ifs at h <;> cases h
    change '<' :: '!' :: (cdataOpen ++ read) ++ [c] = '<' :: '!' :: (cdataOpen ++ (read ++ [c]))
    rw [List.cons_append, List.cons_append, List.append_assoc]
  | _ =>
    simp only [Inner.next] at h
    split_ifs at h <;> cases h <;> trivial

/-- Leaving markup. -/
theorem Inner.justified_next {st : Inner} (htext : st.Reads text) (h : st.next c = some (.inr events)) :
    Token.Justified ⟨text ++ [c], events⟩ := by
  cases st with
  | startTag name attrs state => exact AttrState.justified_next htext h
  | reference entity =>
    obtain rfl : text = '&' :: entity := htext
    simp only [Inner.next] at h
    split_ifs at h with hend
    · obtain ⟨ch, _, hst⟩ := Option.map_eq_some_iff.mp h
      cases hst
      rw [hend]
      exact .reference entity ch
    · cases h
  | startName name =>
    simp only [Inner.next] at h
    split_ifs at h <;> cases h
    exact .startTag _ name
  | endName name =>
    simp only [Inner.next] at h
    split_ifs at h <;> cases h
    exact .endTag name (List.mem_append_left _ htext)
  | endSpace name =>
    simp only [Inner.next] at h
    split_ifs at h <;> cases h
    exact .endTag name (List.mem_append_left _ htext)
  | cdata read =>
    obtain rfl : text = '<' :: '!' :: (cdataOpen ++ read) := htext
    simp only [Inner.next] at h
    split_ifs at h with hend <;> cases h
    rw [hend.1]
    exact .cdata read _
  | _ =>
    simp only [Inner.next] at h
    split_ifs at h <;> cases h <;> exact .silent _

end Reads

/-- Before the next character nothing was read in character data, and what the state says inside markup. -/
def Mode.Reads : Mode → Prop
  | .data _ => True
  | .inside text state => state.Reads text

/-- The tokens of a text are its pieces, in order, and each stands for what it is. -/
theorem scan_pieces (mode : Mode) (hmode : mode.Reads) (cs : CString) {ts : List Token} (h : scan mode cs = some ts) :
    ts.flatMap Token.source = mode.pending ++ cs ∧ ∀ t ∈ ts, t.Justified := by
  induction cs generalizing mode ts with
  | nil =>
    cases mode with
    | data brackets =>
      obtain rfl := Option.some.inj h
      exact ⟨rfl, fun t ht => absurd ht List.not_mem_nil⟩
    | inside text state => cases h
  | cons c cs ih =>
    cases mode with
    | data brackets =>
      rw [scan] at h
      by_cases hmarkup : c = '<'
      · rw [if_pos hmarkup] at h
        obtain ⟨hsource, hall⟩ := ih (.inside [c] .markup) (by rw [hmarkup]; rfl) h
        exact ⟨hsource, hall⟩
      by_cases hreference : c = '&'
      · rw [if_neg hmarkup, if_pos hreference] at h
        obtain ⟨hsource, hall⟩ := ih (.inside [c] (.reference [])) (by rw [hreference]; rfl) h
        exact ⟨hsource, hall⟩
      rw [if_neg hmarkup, if_neg hreference] at h
      by_cases hend : c = '>' ∧ 2 ≤ brackets
      · rw [if_pos hend] at h
        cases h
      rw [if_neg hend] at h
      by_cases hchar : isChar c = true
      · rw [if_pos hchar] at h
        obtain ⟨rest, hrest, rfl⟩ := Option.map_eq_some_iff.mp h
        obtain ⟨hsource, hall⟩ := ih (.data _) trivial hrest
        refine ⟨by rw [List.flatMap_cons, hsource]; rfl, List.forall_mem_cons.mpr ⟨?_, hall⟩⟩
        exact .literal hmarkup hreference
      · rw [if_neg hchar] at h
        cases h
    | inside text state =>
      rw [scan] at h
      split at h
      · cases h
      · rename_i state' hnext
        obtain ⟨hsource, hall⟩ := ih (.inside (text ++ [c]) state') (Inner.reads_next hmode hnext) h
        refine ⟨?_, hall⟩
        rw [hsource, Mode.pending, Mode.pending, List.append_assoc]
        rfl
      · rename_i events hnext
        obtain ⟨rest, hrest, rfl⟩ := Option.map_eq_some_iff.mp h
        obtain ⟨hsource, hall⟩ := ih (.data 0) trivial hrest
        refine ⟨?_, List.forall_mem_cons.mpr ⟨Inner.justified_next hmode hnext, hall⟩⟩
        rw [List.flatMap_cons, hsource, Mode.pending, Mode.pending, List.nil_append, List.append_assoc]
        rfl

section Weight

variable (w : Char → ℕ)

/-- The sum of the weights of the characters. -/
def weight (text : CString) : ℕ := (text.map w).sum

/-- A begun element weighs nothing, and an ended one as much as its slash. -/
def Event.weight : Event → ℕ
  | .startTag _ => 0
  | .endTag _ => w '/'
  | .char c => w c

/-- The sum of the weights of events. -/
def eventsWeight (es : List Event) : ℕ := (es.map (Event.weight w)).sum

variable {w}

@[simp] theorem weight_append (a b : CString) : weight w (a ++ b) = weight w a + weight w b := by simp [weight]

@[simp] theorem weight_cons (c : Char) (text : CString) : weight w (c :: text) = w c + weight w text := by
  simp [weight]

@[simp] theorem weight_nil : weight w [] = 0 := rfl

@[simp] theorem eventsWeight_append (a b : List Event) :
    eventsWeight w (a ++ b) = eventsWeight w a + eventsWeight w b := by simp [eventsWeight]

@[simp] theorem eventsWeight_cons (e : Event) (es : List Event) :
    eventsWeight w (e :: es) = e.weight w + eventsWeight w es := by simp [eventsWeight]

@[simp] theorem eventsWeight_nil : eventsWeight w [] = 0 := rfl

@[simp] theorem eventsWeight_chars (text : CString) : eventsWeight w (text.map .char) = weight w text := by
  rw [eventsWeight, List.map_map]
  rfl

theorem weight_flatMap {α : Type*} (l : List α) (f : α → CString) :
    weight w (l.flatMap f) = (l.map fun a => weight w (f a)).sum := by
  induction l with
  | nil => rfl
  | cons a l ih => rw [List.flatMap_cons, weight_append, ih, List.map_cons, List.sum_cons]

theorem eventsWeight_flatMap {α : Type*} (l : List α) (f : α → List Event) :
    eventsWeight w (l.flatMap f) = (l.map fun a => eventsWeight w (f a)).sum := by
  induction l with
  | nil => rfl
  | cons a l ih => rw [List.flatMap_cons, eventsWeight_append, ih, List.map_cons, List.sum_cons]

/-- Sums whose parts are bounded are bounded; if they are equal, so are the parts. -/
theorem sum_le_sum_and {α : Type*} {l : List α} {f g : α → ℕ} {p : α → Prop}
    (h : ∀ a ∈ l, f a ≤ g a ∧ (g a ≤ f a → p a)) :
    (l.map f).sum ≤ (l.map g).sum ∧ ((l.map g).sum ≤ (l.map f).sum → ∀ a ∈ l, p a) := by
  induction l with
  | nil => exact ⟨le_rfl, fun _ a ha => absurd ha List.not_mem_nil⟩
  | cons a l ih =>
    obtain ⟨hle, hp⟩ := h a List.mem_cons_self
    obtain ⟨hle', hp'⟩ := ih fun b hb => h b (List.mem_cons_of_mem a hb)
    simp only [List.map_cons, List.sum_cons]
    exact ⟨Nat.add_le_add hle hle', fun hge => List.forall_mem_cons.mpr ⟨hp (by omega), hp' (by omega)⟩⟩

theorem weight_take_le (text : CString) (n : ℕ) : weight w (text.take n) ≤ weight w text := by
  conv_rhs => rw [← List.take_append_drop n text, weight_append]
  exact Nat.le_add_right _ _

theorem weight_pos_of_mem {c : Char} {text : CString} (h : c ∈ text) : w c ≤ weight w text := by
  obtain ⟨a, b, rfl⟩ := List.append_of_mem h
  rw [weight_append, weight_cons]
  omega

/-- A token weighs as much as its events at least; if it weighs no more, its characters are literal. -/
theorem Token.Justified.weight (hreference : ∀ c, w c < w '&' + w ';') (hbang : 0 < w '!') {t : Token}
    (h : t.Justified) :
    eventsWeight w t.events ≤ Xml.weight w t.source ∧
      (Xml.weight w t.source ≤ eventsWeight w t.events → ∀ c, .char c ∈ t.events → c ≠ '<' ∧ c ≠ '&') := by
  cases h with
  | literal hmarkup hamp =>
    refine ⟨by simp [Event.weight], fun _ c hc => ?_⟩
    obtain rfl : c = _ := by simpa using hc
    exact ⟨hmarkup, hamp⟩
  | reference entity c =>
    have hc := hreference c
    simp only [weight_cons, weight_append, weight_nil, eventsWeight_cons, eventsWeight_nil, Event.weight]
    exact ⟨by omega, fun hle => absurd hle (by omega)⟩
  | startTag source name => exact ⟨by simp [Event.weight], fun _ c hc => by simp at hc⟩
  | emptyTag name hslash =>
    exact ⟨by simpa [Event.weight] using weight_pos_of_mem hslash, fun _ c hc => by simp at hc⟩
  | endTag name hslash =>
    exact ⟨by simpa [Event.weight] using weight_pos_of_mem hslash, fun _ c hc => by simp at hc⟩
  | cdata text n =>
    have htake := weight_take_le (w := w) text n
    simp only [weight_cons, weight_append, eventsWeight_chars]
    exact ⟨by omega, fun hle => absurd hle (by omega)⟩
  | silent source => exact ⟨Nat.zero_le _, fun _ c hc => absurd hc List.not_mem_nil⟩

/-- Content weighs as much as its events at least; if it weighs no more, all its characters are literal. -/
theorem contentEvents_weight (hreference : ∀ c, w c < w '&' + w ';') (hbang : 0 < w '!') {text : CString}
    {es : List Event} (h : contentEvents text = some es) :
    eventsWeight w es ≤ weight w text ∧
      (weight w text ≤ eventsWeight w es → ∀ c, .char c ∈ es → c ≠ '<' ∧ c ≠ '&') := by
  obtain ⟨ts, hts, rfl⟩ := Option.map_eq_some_iff.mp h
  obtain ⟨hsource, hall⟩ := scan_pieces (.data 0) trivial text hts
  obtain rfl : ts.flatMap Token.source = text := hsource
  rw [eventsWeight_flatMap, weight_flatMap]
  obtain ⟨hle, hliteral⟩ := sum_le_sum_and fun t ht => (hall t ht).weight hreference hbang
  refine ⟨hle, fun hge c hc => ?_⟩
  obtain ⟨t, ht, hct⟩ := List.mem_flatMap.mp hc
  exact hliteral hge t ht c hct

end Weight

/-- What is left of events without white space are events in their order. -/
theorem elementContent_sublist (inner depth : ℕ) (es : List Event) : (elementContent inner depth es).Sublist es := by
  induction es generalizing depth with
  | nil => exact List.Sublist.refl _
  | cons e es ih =>
    cases e with
    | startTag name => exact (ih _).cons_cons _
    | endTag name => exact (ih _).cons_cons _
    | char c =>
      rw [elementContent]
      split
      · exact (ih _).cons _
      · exact (ih _).cons_cons _

/-- A name of an element. -/
def isName : CString → Bool
  | [] => false
  | c :: cs => isNameStart c && cs.all isNameChar

/-- The end of a character data section, which character data may not have. -/
def cdataEnd : CString := [']', ']', '>']

/-- Behind how many closing brackets the reader is after character data; none where a section would end. -/
def brackets : ℕ → CString → Option ℕ
  | k, [] => some k
  | k, c :: cs => if c = '>' ∧ 2 ≤ k then none else brackets (if c = ']' then k + 1 else 0) cs

section Forward

variable {tag text rest : CString} {k : ℕ}

/-- A character that is not a bracket, nor ends a section, begins anew. -/
theorem cdataEnd_infix_replicate {c : Char} (hc : c ≠ ']') (hend : ¬ (c = '>' ∧ 2 ≤ k)) :
    cdataEnd <:+: List.replicate k ']' ++ c :: text ↔ cdataEnd <:+: text := by
  induction k with
  | zero =>
    rw [List.replicate_zero, List.nil_append, List.infix_cons_iff, or_iff_right]
    intro h
    exact hc (List.cons_prefix_cons.mp h).1.symm
  | succ k ih =>
    rw [List.replicate_succ, List.cons_append, List.infix_cons_iff, ih fun h => hend ⟨h.1, by omega⟩, or_iff_right]
    intro h
    have h2 := (List.cons_prefix_cons.mp h).2
    match k with
    | 0 => exact hc (List.cons_prefix_cons.mp h2).1.symm
    | 1 => exact hend ⟨(List.cons_prefix_cons.mp (List.cons_prefix_cons.mp h2).2).1.symm, le_rfl⟩
    | k + 2 => exact absurd (List.cons_prefix_cons.mp (List.cons_prefix_cons.mp h2).2).1 (by decide)

theorem brackets_eq_none_iff (k : ℕ) (text : CString) :
    brackets k text = none ↔ cdataEnd <:+: List.replicate k ']' ++ text := by
  induction text generalizing k with
  | nil =>
    refine iff_of_false (fun h => by cases h) fun h => ?_
    have hmem := h.subset (show '>' ∈ cdataEnd by decide)
    rw [List.append_nil] at hmem
    exact absurd (List.eq_of_mem_replicate hmem) (by decide)
  | cons c cs ih =>
    rw [brackets]
    by_cases hend : c = '>' ∧ 2 ≤ k
    · rw [if_pos hend, hend.1]
      refine iff_of_true rfl ⟨List.replicate (k - 2) ']', cs, ?_⟩
      have hk : List.replicate k ']' = List.replicate (k - 2) ']' ++ [']', ']'] := by
        obtain ⟨d, rfl⟩ := Nat.exists_eq_add_of_le hend.2
        rw [Nat.add_sub_cancel_left, Nat.add_comm]
        exact List.replicate_add d 2 ']'
      rw [hk]
      simp [cdataEnd]
    · rw [if_neg hend, ih]
      by_cases hc : c = ']'
      · rw [if_pos hc, hc, List.replicate_succ', List.append_assoc, List.singleton_append]
      · rw [if_neg hc, List.replicate_zero, List.nil_append, cdataEnd_infix_replicate hc hend]

/-- The rest of a name in a start tag. -/
theorem scan_startName (htag : tag.all isNameChar = true) (read name : CString) :
    scan (.inside read (.startName name)) (tag ++ '>' :: rest) =
      (scan (.data 0) rest).map fun ts => ⟨read ++ tag ++ ['>'], [.startTag (name ++ tag)]⟩ :: ts := by
  induction tag generalizing read name with
  | nil =>
    have hend : Inner.next (.startName name) '>' = some (.inr [.startTag name]) := rfl
    rw [List.nil_append, scan, hend, List.append_nil, List.append_nil]
  | cons c tag ih =>
    obtain ⟨hc, htag⟩ := Bool.and_eq_true_iff.mp htag
    have hnext : Inner.next (.startName name) c = some (.inl (.startName (name ++ [c]))) := by
      rw [Inner.next, if_pos hc]
    rw [List.cons_append, scan, hnext]
    dsimp only
    rw [ih htag]
    simp only [List.append_assoc, List.cons_append, List.nil_append]

/-- A start tag is read up to its end. -/
theorem scan_startTag (htag : isName tag = true) :
    scan (.data k) ('<' :: (tag ++ '>' :: rest)) =
      (scan (.data 0) rest).map fun ts => ⟨'<' :: (tag ++ ['>']), [.startTag tag]⟩ :: ts := by
  match tag, htag with
  | c :: cs, htag =>
    obtain ⟨hc, hcs⟩ := Bool.and_eq_true_iff.mp htag
    have hne : ∀ d : Char, isNameStart d = false → c ≠ d := fun d hd h => by
      rw [h, hd] at hc
      cases hc
    have hnext : Inner.next .markup c = some (.inl (.startName [c])) := by
      rw [Inner.next, if_neg (hne '/' (by decide)), if_neg (hne '!' (by decide)), if_neg (hne '?' (by decide)), if_pos hc]
    rw [scan, if_pos rfl, List.cons_append, scan, hnext]
    exact scan_startName hcs _ _

/-- The rest of a name in an end tag. -/
theorem scan_endName (htag : tag.all isNameChar = true) (read : CString) {name : CString} (hname : name ≠ []) :
    scan (.inside read (.endName name)) (tag ++ rest) = scan (.inside (read ++ tag) (.endName (name ++ tag))) rest := by
  induction tag generalizing read name with
  | nil => rw [List.nil_append, List.append_nil, List.append_nil]
  | cons c tag ih =>
    obtain ⟨hc, htag⟩ := Bool.and_eq_true_iff.mp htag
    have hnext : Inner.next (.endName name) c = some (.inl (.endName (name ++ [c]))) := by
      rw [Inner.next, if_neg hname, if_pos hc]
    rw [List.cons_append, scan, hnext]
    dsimp only
    rw [ih htag _ (by simp)]
    simp only [List.append_assoc, List.cons_append, List.nil_append]

/-- An end tag is read through its name. -/
theorem scan_endTag_name (htag : isName tag = true) :
    scan (.data k) ('<' :: '/' :: (tag ++ rest)) = scan (.inside ('<' :: '/' :: tag) (.endName tag)) rest := by
  match tag, htag with
  | c :: cs, htag =>
    obtain ⟨hc, hcs⟩ := Bool.and_eq_true_iff.mp htag
    have hnext : Inner.next (.endName []) c = some (.inl (.endName [c])) := by
      rw [Inner.next, if_pos rfl, if_pos hc]
    rw [List.cons_append, scan, if_pos rfl, scan, show Inner.next .markup '/' = some (.inl (.endName [])) from rfl]
    dsimp only
    rw [scan, hnext]
    exact scan_endName hcs _ (by simp)

/-- An end tag is read up to its end. -/
theorem scan_endTag (htag : isName tag = true) :
    scan (.data k) ('<' :: '/' :: (tag ++ '>' :: rest)) =
      (scan (.data 0) rest).map fun ts => ⟨'<' :: '/' :: (tag ++ ['>']), [.endTag tag]⟩ :: ts := by
  have hne : tag ≠ [] := by
    rintro rfl
    cases htag
  have hend : Inner.next (.endName tag) '>' = some (.inr [.endTag tag]) := by
    rw [Inner.next, if_neg hne]
    rfl
  rw [scan_endTag_name htag, scan, hend]
  simp only [List.cons_append]

/-- An end tag which is cut in its name, with markup behind it, is no content. -/
theorem scan_endTag_cut (htag : isName tag = true) (n : ℕ) :
    scan (.data k) ('<' :: '/' :: (tag.take n ++ '<' :: rest)) = none := by
  cases n with
  | zero =>
    rw [List.take_zero, List.nil_append]
    rfl
  | succ n =>
    have hcut : isName (tag.take (n + 1)) = true := by
      match tag, htag with
      | c :: cs, htag =>
        obtain ⟨hc, hcs⟩ := Bool.and_eq_true_iff.mp htag
        refine Bool.and_eq_true_iff.mpr ⟨hc, List.all_eq_true.mpr fun d hd => ?_⟩
        exact List.all_eq_true.mp hcs d (List.mem_of_mem_take hd)
    have hne : tag.take (n + 1) ≠ [] := by
      intro h
      rw [h] at hcut
      cases hcut
    have hstop : Inner.next (.endName (tag.take (n + 1))) '<' = none := by
      rw [Inner.next, if_neg hne]
      rfl
    rw [scan_endTag_name hcut, scan, hstop]

/-- Character data without markup stands for itself, if it does not end a section. -/
theorem scan_chars (htext : ∀ c ∈ text, c ≠ '<' ∧ c ≠ '&' ∧ isChar c = true) :
    scan (.data k) (text ++ '<' :: rest) =
      (brackets k text).bind fun _ => (scan (.data 0) ('<' :: rest)).map fun ts =>
        text.map (fun c => ⟨[c], [.char c]⟩) ++ ts := by
  induction text generalizing k with
  | nil =>
    rw [List.nil_append, brackets, Option.bind_some, List.map_nil]
    simp only [List.nil_append, Option.map_id']
    rfl
  | cons c text ih =>
    obtain ⟨hlt, hamp, hchar⟩ := htext c List.mem_cons_self
    rw [List.cons_append, scan, if_neg hlt, if_neg hamp, brackets]
    split
    · rfl
    · rw [ih fun d hd => htext d (List.mem_cons_of_mem c hd), Option.map_bind]
      congr 1
      funext _
      rw [Function.comp_apply, Option.map_map]
      rfl

theorem contentEvents_startTag (htag : isName tag = true) (rest : CString) :
    contentEvents ('<' :: (tag ++ '>' :: rest)) = (contentEvents rest).map fun es => .startTag tag :: es := by
  rw [contentEvents, scan_startTag htag, contentEvents, Option.map_map, Option.map_map]
  rfl

theorem contentEvents_endTag (htag : isName tag = true) (rest : CString) :
    contentEvents ('<' :: '/' :: (tag ++ '>' :: rest)) = (contentEvents rest).map fun es => .endTag tag :: es := by
  rw [contentEvents, scan_endTag htag, contentEvents, Option.map_map, Option.map_map]
  rfl

theorem contentEvents_endTag_cut (htag : isName tag = true) (n : ℕ) (rest : CString) :
    contentEvents ('<' :: '/' :: (tag.take n ++ '<' :: rest)) = none := by
  rw [contentEvents, scan_endTag_cut htag]
  rfl

theorem contentEvents_newline (rest : CString) :
    contentEvents ('\n' :: rest) = (contentEvents rest).map fun es => .char '\n' :: es := by
  have hscan : scan (.data 0) ('\n' :: rest) =
      (scan (.data 0) rest).map fun ts => ⟨['\n'], [.char '\n']⟩ :: ts := rfl
  rw [contentEvents, hscan, contentEvents, Option.map_map, Option.map_map]
  rfl

/-- Character data before markup: the characters, if they do not end a section. -/
theorem contentEvents_chars (htext : ∀ c ∈ text, c ≠ '<' ∧ c ≠ '&' ∧ isChar c = true) (rest : CString) :
    contentEvents (text ++ '<' :: rest) =
      if cdataEnd <:+: text then none
      else (contentEvents ('<' :: rest)).map fun es => text.map .char ++ es := by
  have hend := brackets_eq_none_iff 0 text
  rw [List.replicate_zero, List.nil_append] at hend
  rw [contentEvents, scan_chars htext]
  cases hbrackets : brackets 0 text with
  | none =>
    rw [if_pos (hend.mp hbrackets)]
    rfl
  | some k =>
    have hfree : ¬ cdataEnd <:+: text := by
      rw [← hend, hbrackets]
      exact Option.some_ne_none k
    have hevents : (text.map fun c => (⟨[c], [.char c]⟩ : Token)).flatMap Token.events = text.map .char := by
      rw [List.flatMap_map, List.map_eq_flatMap]
    rw [if_neg hfree, Option.bind_some, contentEvents, Option.map_map, Option.map_map]
    refine congrArg (fun f => (scan (.data 0) ('<' :: rest)).map f) (funext fun ts => ?_)
    rw [Function.comp_apply, Function.comp_apply, List.flatMap_append, hevents]

end Forward

/-- An element whose children are elements with text only. -/
structure Element where
  tag : CString
  children : List (CString × CString)
  deriving DecidableEq

/-- The events of a child: its tag and its text. -/
def childEvents (child : CString × CString) : List Event :=
  .startTag child.1 :: (child.2.map .char ++ [.endTag child.1])

/-- The events of an element, without white space between its children. -/
def Element.events (e : Element) : List Event :=
  .startTag e.tag :: (e.children.flatMap childEvents ++ [.endTag e.tag])

/-- The text is well-formed content which consists of these elements, but for white space between them. -/
def ReadsAs (text : CString) (elements : List Element) : Prop :=
  ∃ es, contentEvents text = some es ∧ balanced [] es = true ∧ elementContent 2 0 es = elements.flatMap Element.events

section Element

variable {text text' : CString} {es es' : List Event}

/-- Characters do not change the elements which are open. -/
theorem balanced_chars (stack : List CString) (text : CString) (es : List Event) :
    balanced stack (text.map .char ++ es) = balanced stack es := by
  induction text with
  | nil => rfl
  | cons c text ih =>
    rw [List.map_cons, List.cons_append, ← ih]
    cases stack <;> rfl

theorem balanced_childEvents (stack : List CString) (child : CString × CString) (es : List Event) :
    balanced stack (childEvents child ++ es) = balanced stack es := by
  rw [childEvents, List.cons_append, List.append_assoc, List.cons_append, List.nil_append, balanced, balanced_chars,
    balanced, beq_self_eq_true, Bool.true_and]

/-- Inside the innermost elements all characters are kept. -/
theorem elementContent_chars {inner depth : ℕ} (h : inner ≤ depth) (text : CString) (es : List Event) :
    elementContent inner depth (text.map .char ++ es) = text.map .char ++ elementContent inner depth es := by
  induction text with
  | nil => rfl
  | cons c text ih =>
    rw [List.map_cons, List.cons_append, elementContent, if_neg fun hlt => absurd hlt.1 (by omega), ih]
    rfl

theorem elementContent_childEvents {depth : ℕ} (child : CString × CString) (es : List Event) :
    elementContent (depth + 1) depth (childEvents child ++ es) =
      childEvents child ++ elementContent (depth + 1) depth es := by
  rw [childEvents, List.cons_append, List.append_assoc, List.cons_append, List.nil_append, elementContent,
    elementContent_chars le_rfl, elementContent, Nat.add_sub_cancel]
  simp

/-- Text before the end of an element can be told from it. -/
theorem chars_append_inj {name : CString} (h : text.map Event.char ++ .endTag name :: es =
    text'.map Event.char ++ .endTag name :: es') : text = text' ∧ es = es' := by
  induction text generalizing text' with
  | nil =>
    cases text' with
    | nil => exact ⟨rfl, (List.cons.inj h).2⟩
    | cons c text' => cases (List.cons.inj h).1
  | cons c text ih =>
    cases text' with
    | nil => cases (List.cons.inj h).1
    | cons c' text' =>
      obtain ⟨hhead, htail⟩ := List.cons.inj h
      obtain ⟨rfl, hes⟩ := ih htail
      exact ⟨congrArg (· :: text) (Event.char.inj hhead), hes⟩

/-- The children before the end of an element can be told from it. -/
theorem childEvents_append_inj {name : CString} {children children' : List (CString × CString)}
    (h : children.flatMap childEvents ++ .endTag name :: es = children'.flatMap childEvents ++ .endTag name :: es') :
    children = children' ∧ es = es' := by
  induction children generalizing children' with
  | nil =>
    cases children' with
    | nil => exact ⟨rfl, (List.cons.inj h).2⟩
    | cons child children' => cases (List.cons.inj h).1
  | cons child children ih =>
    cases children' with
    | nil => cases (List.cons.inj h).1
    | cons child' children' =>
      obtain ⟨tag, text⟩ := child
      obtain ⟨tag', text'⟩ := child'
      simp only [List.flatMap_cons, childEvents, List.cons_append, List.append_assoc, List.nil_append,
        List.cons.injEq, Event.startTag.injEq] at h
      obtain ⟨rfl, hchild⟩ := h
      obtain ⟨rfl, hrest⟩ := chars_append_inj hchild
      obtain ⟨rfl, hes⟩ := ih hrest
      exact ⟨rfl, hes⟩

/-- Different elements have different events. -/
theorem events_injective {elements elements' : List Element}
    (h : elements.flatMap Element.events = elements'.flatMap Element.events) : elements = elements' := by
  induction elements generalizing elements' with
  | nil =>
    cases elements' with
    | nil => rfl
    | cons e elements' => cases h
  | cons e elements ih =>
    cases elements' with
    | nil => cases h
    | cons e' elements' =>
      obtain ⟨tag, children⟩ := e
      obtain ⟨tag', children'⟩ := e'
      simp only [List.flatMap_cons, Element.events, List.cons_append, List.append_assoc, List.nil_append,
        List.cons.injEq, Event.startTag.injEq] at h
      obtain ⟨rfl, helement⟩ := h
      obtain ⟨rfl, hrest⟩ := childEvents_append_inj helement
      rw [ih hrest]

/-- A text reads as one list of elements. -/
theorem ReadsAs.unique {content : CString} {elements elements' : List Element} (h : ReadsAs content elements)
    (h' : ReadsAs content elements') : elements = elements' := by
  obtain ⟨es, hes, -, hevents⟩ := h
  obtain ⟨es', hes', -, hevents'⟩ := h'
  obtain rfl := Option.some.inj (hes.symm.trans hes')
  exact events_injective (hevents.symm.trans hevents')

end Element

end Foundation.Xml
