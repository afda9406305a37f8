import RecordingAgent.Foundation.LuaLexer

/-!
# Plain Lua chunks

A plain chunk sets fields of global tables, sets locals, and returns values, where the values are integers, strings,
tables of these, and locals. What it comes to is the fields it sets and the values it returns. A chunk which is wrong,
or which executes anything else, comes to nothing.
-/

namespace Foundation.Lua

/-- An integer or a string. -/
inductive Const
  | int (n : ℤ)
  | string (text : CString)
  deriving DecidableEq

/-- A value: a constant, or a table with constants in its fields. -/
inductive Value
  | const (c : Const)
  | table (fields : List (CString × Const))
  deriving DecidableEq

/-- What a chunk does: the fields it sets, of which table and to what, and the values it returns. -/
structure Outcome where
  assigned : List (CString × CString × Value)
  returned : List Value
  deriving DecidableEq

/-- The words which are no names. -/
def keywords : List CString :=
  ["and", "break", "do", "else", "elseif", "end", "false", "for", "function", "goto", "if", "in", "local", "nil", "not",
    "or", "repeat", "return", "then", "true", "until", "while"].map String.toList

/-- A constant, and the tokens behind it. -/
def constant : List Token → Option (Const × List Token)
  | .number n :: ts => some (.int n, ts)
  | .string text :: ts => some (.string text, ts)
  | .symbol c :: .number n :: ts => if c = '-' then some (.int (-n), ts) else none
  | _ => none

/-- Set a field of a table. -/
def setField (fields : List (CString × Const)) (key : CString) (c : Const) : List (CString × Const) :=
  if fields.any (·.1 == key) then fields.map fun f => if f.1 = key then (key, c) else f else fields ++ [(key, c)]

/-- A field in a table constructor, and the tokens behind it. -/
def field : List Token → Option ((CString × Const) × List Token)
  | .word key :: .symbol e :: ts =>
    if e = '=' ∧ key ∉ keywords then (constant ts).map fun r => ((key, r.1), r.2) else none
  | _ => none

/-- The fields in a table constructor, up to its closing brace. -/
def tableFields : ℕ → List (CString × Const) → List Token → Option (List (CString × Const) × List Token)
  | 0, _, _ => none
  | n + 1, fields, ts =>
    if ts.head? = some (.symbol '}') then some (fields, ts.tail)
    else
      match field ts with
      | none => none
      | some (f, ts) =>
        if ts.head? = some (.symbol '}') then some (setField fields f.1 f.2, ts.tail)
        else if ts.head? = some (.symbol ',') ∨ ts.head? = some (.symbol ';') then
          tableFields n (setField fields f.1 f.2) ts.tail
        else none

/-- The local variables, the latest first. -/
abbrev Locals := List (CString × Value)

/-- The value of an expression, and the tokens behind it. -/
def expression (locals : Locals) (ts : List Token) : Option (Value × List Token) :=
  match ts.head? with
  | some (.word x) => (locals.lookup x).map fun v => (v, ts.tail)
  | some (.symbol '{') => (tableFields ts.length [] ts.tail).map fun r => (.table r.1, r.2)
  | _ => (constant ts).map fun r => (.const r.1, r.2)

/-- Whether the chunk ends here, with a semicolon or without. -/
def AtEnd (ts : List Token) : Prop := ts = [] ∨ ts = [.symbol ';']

instance (ts : List Token) : Decidable (AtEnd ts) := inferInstanceAs (Decidable (_ ∨ _))

/-- The values which are returned. -/
def returnList (locals : Locals) : ℕ → List Token → Option (List Value)
  | 0, _ => none
  | n + 1, ts =>
    match expression locals ts with
    | none => none
    | some (v, ts) =>
      if AtEnd ts then some [v]
      else if ts.head? = some (.symbol ',') then (returnList locals n ts.tail).map (v :: ·)
      else none

/-- The definition of a local, behind its keyword. -/
def localStat (locals : Locals) : List Token → Option ((CString × Value) × List Token)
  | .word x :: .symbol e :: ts =>
    if e = '=' ∧ x ∉ keywords then (expression locals ts).map fun r => ((x, r.1), r.2) else none
  | _ => none

/-- The assignment to a field of a global table. -/
def assignment (locals : Locals) : List Token → Option ((CString × CString × Value) × List Token)
  | .word t :: .symbol d :: .word f :: .symbol e :: ts =>
    if t ∉ keywords ∧ (locals.lookup t).isNone ∧ d = '.' ∧ f ∉ keywords ∧ e = '=' then
      (expression locals ts).map fun r => ((t, f, r.1), r.2)
    else none
  | _ => none

/-- Run the statements, at most so many. -/
def run : ℕ → Locals → List Token → Option Outcome
  | 0, _, _ => none
  | n + 1, locals, ts =>
    if ts = [] then some ⟨[], []⟩
    else if ts.head? = some (.symbol ';') then run n locals ts.tail
    else if ts.head? = some (.word "return".toList) then
      if AtEnd ts.tail then some ⟨[], []⟩ else (returnList locals ts.length ts.tail).map fun vs => ⟨[], vs⟩
    else if ts.head? = some (.word "local".toList) then
      match localStat locals ts.tail with
      | some (l, ts) => run n (l :: locals) ts
      | none => none
    else
      match assignment locals ts with
      | some (a, ts) => (run n locals ts).map fun o => ⟨a :: o.assigned, o.returned⟩
      | none => none

/-- What a chunk comes to. -/
def exec (chunk : CString) : Option Outcome := (tokenize chunk).bind fun ts => run (ts.length + 1) [] ts

example : exec "t.x='a' ; local l=\x7b n=-1, s=\"b\" \x7d; return l, 2".toList =
    some ⟨[("t".toList, "x".toList, .const (.string "a".toList))],
      [.table [("n".toList, .int (-1)), ("s".toList, .string "b".toList)], .const (.int 2)]⟩ := by
  decide +kernel

/-! ## Where strings come from -/

/-- A string is a value, or in a field of it. -/
def Value.Holds : Value → CString → Prop
  | .const c, text => c = .string text
  | .table fields, text => ∃ key, (key, Const.string text) ∈ fields

/-- A string is in a local. -/
def Locals.Hold (locals : Locals) (text : CString) : Prop := ∃ x v, locals.lookup x = some v ∧ v.Holds text

theorem constant_suffix {ts rest : List Token} {c : Const} (h : constant ts = some (c, rest)) :
    rest <:+ ts ∧ ∀ text, c = .string text → .string text ∈ ts := by
  unfold constant at h
  split at h
  · obtain ⟨rfl, rfl⟩ := Prod.mk.inj (Option.some.inj h)
    exact ⟨List.suffix_cons _ _, fun text heq => by cases heq⟩
  · obtain ⟨rfl, rfl⟩ := Prod.mk.inj (Option.some.inj h)
    refine ⟨List.suffix_cons _ _, fun text heq => ?_⟩
    rw [Const.string.inj heq]
    exact List.mem_cons_self
  · split at h
    · obtain ⟨rfl, rfl⟩ := Prod.mk.inj (Option.some.inj h)
      exact ⟨(List.suffix_cons _ _).trans (List.suffix_cons _ _), fun text heq => by cases heq⟩
    · cases h
  · cases h

theorem mem_setField {fields : List (CString × Const)} {key key' : CString} {c c' : Const}
    (h : (key', c') ∈ setField fields key c) : (key', c') ∈ fields ∨ c' = c := by
  unfold setField at h
  split at h
  · obtain ⟨f, hf, heq⟩ := List.mem_map.mp h
    split at heq
    · exact .inr (Prod.mk.inj heq).2.symm
    · exact .inl (heq ▸ hf)
  · rcases List.mem_append.mp h with hold | hnew
    · exact .inl hold
    · exact .inr (Prod.mk.inj (List.mem_singleton.mp hnew)).2

theorem field_suffix {ts rest : List Token} {key : CString} {c : Const} (h : field ts = some ((key, c), rest)) :
    rest <:+ ts ∧ ∀ text, c = .string text → .string text ∈ ts := by
  unfold field at h
  split at h
  · rename_i key' e ts'
    split at h
    · obtain ⟨r, hr, heq⟩ := Option.map_eq_some_iff.mp h
      obtain ⟨hfield, rfl⟩ := Prod.mk.inj heq
      obtain ⟨-, rfl⟩ := Prod.mk.inj hfield
      obtain ⟨hrest, hstring⟩ := constant_suffix hr
      have hbehind : ts' <:+ .word key' :: .symbol e :: ts' := (List.suffix_cons _ _).trans (List.suffix_cons _ _)
      exact ⟨hrest.trans hbehind, fun text htext => hbehind.subset (hstring text htext)⟩
    · cases h
  · cases h

/-- The strings of a table are those of the fields there were, and those among the tokens. -/
theorem tableFields_suffix {n : ℕ} {fields fields' : List (CString × Const)} {ts rest : List Token}
    (h : tableFields n fields ts = some (fields', rest)) :
    rest <:+ ts ∧ ∀ text, (Value.table fields').Holds text → (Value.table fields).Holds text ∨ .string text ∈ ts := by
  induction n generalizing fields ts with
  | zero => cases h
  | succ n ih =>
    rw [tableFields] at h
    split at h
    · obtain ⟨rfl, rfl⟩ := Prod.mk.inj (Option.some.inj h)
      exact ⟨List.tail_suffix ts, fun text htext => .inl htext⟩
    · split at h
      · cases h
      · rename_i f ts' hfield
        obtain ⟨hrest, hstring⟩ := field_suffix hfield
        have hset : ∀ text, (Value.table (setField fields f.1 f.2)).Holds text →
            (Value.table fields).Holds text ∨ .string text ∈ ts := by
          rintro text ⟨key, hkey⟩
          rcases mem_setField hkey with hold | hnew
          · exact .inl ⟨key, hold⟩
          · exact .inr (hstring text hnew.symm)
        split at h
        · obtain ⟨rfl, rfl⟩ := Prod.mk.inj (Option.some.inj h)
          exact ⟨(List.tail_suffix ts').trans hrest, hset⟩
        · split at h
          · obtain ⟨hlater, hfields⟩ := ih h
            have htail : ts'.tail <:+ ts := (List.tail_suffix ts').trans hrest
            refine ⟨hlater.trans htail, fun text htext => ?_⟩
            rcases hfields text htext with hset' | hmem
            · exact hset text hset'
            · exact .inr (htail.subset hmem)
          · cases h

theorem expression_suffix {locals : Locals} {ts rest : List Token} {v : Value}
    (h : expression locals ts = some (v, rest)) :
    rest <:+ ts ∧ ∀ text, v.Holds text → .string text ∈ ts ∨ locals.Hold text := by
  unfold expression at h
  split at h
  · rename_i x _
    obtain ⟨v', hv, heq⟩ := Option.map_eq_some_iff.mp h
    obtain ⟨rfl, rfl⟩ := Prod.mk.inj heq
    exact ⟨List.tail_suffix ts, fun text htext => .inr ⟨x, v', hv, htext⟩⟩
  · obtain ⟨r, hr, heq⟩ := Option.map_eq_some_iff.mp h
    obtain ⟨rfl, rfl⟩ := Prod.mk.inj heq
    obtain ⟨hrest, hstring⟩ := tableFields_suffix hr
    refine ⟨hrest.trans (List.tail_suffix ts), fun text htext => .inl ?_⟩
    rcases hstring text htext with ⟨key, hkey⟩ | hmem
    · cases hkey
    · exact (List.tail_suffix ts).subset hmem
  · obtain ⟨r, hr, heq⟩ := Option.map_eq_some_iff.mp h
    obtain ⟨rfl, rfl⟩ := Prod.mk.inj heq
    obtain ⟨hrest, hstring⟩ := constant_suffix hr
    exact ⟨hrest, fun text htext => .inl (hstring text htext)⟩

theorem mem_returnList {locals : Locals} {n : ℕ} {ts : List Token} {vs : List Value}
    (h : returnList locals n ts = some vs) {v : Value} (hv : v ∈ vs) {text : CString} (htext : v.Holds text) :
    .string text ∈ ts ∨ locals.Hold text := by
  induction n generalizing ts vs with
  | zero => cases h
  | succ n ih =>
    rw [returnList] at h
    split at h
    · cases h
    · rename_i v' ts' hexp
      obtain ⟨hrest, hstring⟩ := expression_suffix hexp
      split at h
      · obtain rfl := Option.some.inj h
        rw [List.mem_singleton.mp hv] at htext
        exact hstring text htext
      · split at h
        · obtain ⟨vs', hvs, rfl⟩ := Option.map_eq_some_iff.mp h
          rcases List.mem_cons.mp hv with rfl | hlater
          · exact hstring text htext
          · exact (ih hvs hlater).imp_left fun hmem => hrest.subset ((List.tail_suffix ts').subset hmem)
        · cases h

theorem localStat_suffix {locals : Locals} {ts rest : List Token} {l : CString × Value}
    (h : localStat locals ts = some (l, rest)) :
    rest <:+ ts ∧ ∀ text, l.2.Holds text → .string text ∈ ts ∨ locals.Hold text := by
  unfold localStat at h
  split at h
  · rename_i x e ts'
    split at h
    · obtain ⟨r, hr, heq⟩ := Option.map_eq_some_iff.mp h
      obtain ⟨rfl, rfl⟩ := Prod.mk.inj heq
      obtain ⟨hrest, hstring⟩ := expression_suffix hr
      have hbehind : ts' <:+ .word x :: .symbol e :: ts' := (List.suffix_cons _ _).trans (List.suffix_cons _ _)
      exact ⟨hrest.trans hbehind, fun text htext => (hstring text htext).imp_left fun hmem => hbehind.subset hmem⟩
    · cases h
  · cases h

theorem assignment_suffix {locals : Locals} {ts rest : List Token} {a : CString × CString × Value}
    (h : assignment locals ts = some (a, rest)) : rest <:+ ts := by
  unfold assignment at h
  split at h
  · rename_i t d f e ts'
    split at h
    · obtain ⟨r, hr, heq⟩ := Option.map_eq_some_iff.mp h
      obtain ⟨-, rfl⟩ := Prod.mk.inj heq
      exact (expression_suffix hr).1.trans ⟨[.word t, .symbol d, .word f, .symbol e], rfl⟩
    · cases h
  · cases h

/-- Every string that is returned is one of the tokens, or in a local. -/
theorem run_returned {n : ℕ} {locals : Locals} {ts : List Token} {o : Outcome} (h : run n locals ts = some o)
    {v : Value} (hv : v ∈ o.returned) {text : CString} (htext : v.Holds text) :
    .string text ∈ ts ∨ locals.Hold text := by
  induction n generalizing locals ts o with
  | zero => cases h
  | succ n ih =>
    rw [run] at h
    split at h
    · obtain rfl := Option.some.inj h
      cases hv
    · split at h
      · exact (ih h hv).imp_left fun hmem => (List.tail_suffix ts).subset hmem
      · split at h
        · split at h
          · obtain rfl := Option.some.inj h
            cases hv
          · obtain ⟨vs, hvs, rfl⟩ := Option.map_eq_some_iff.mp h
            exact (mem_returnList hvs hv htext).imp_left fun hmem => (List.tail_suffix ts).subset hmem
        · split at h
          · split at h
            · rename_i l ts' hlocal
              obtain ⟨hrest, hstring⟩ := localStat_suffix hlocal
              have htail := (hrest.trans (List.tail_suffix ts)).subset
              rcases ih h hv with hmem | ⟨x, v', hlookup, hholds⟩
              · exact .inl (htail hmem)
              · rw [List.lookup_cons] at hlookup
                split at hlookup
                · obtain rfl := Option.some.inj hlookup
                  exact (hstring text hholds).imp_left fun hmem => (List.tail_suffix ts).subset hmem
                · exact .inr ⟨x, v', hlookup, hholds⟩
            · cases h
          · split at h
            · rename_i a ts' hassign
              obtain ⟨o', ho, rfl⟩ := Option.map_eq_some_iff.mp h
              exact (ih ho hv).imp_left fun hmem => (assignment_suffix hassign).subset hmem
            · cases h

/-- Every string that a chunk returns is one of its tokens. -/
theorem exec_returned {chunk : CString} {o : Outcome} (h : exec chunk = some o) {v : Value} (hv : v ∈ o.returned)
    {text : CString} (htext : v.Holds text) : ∃ ts, tokenize chunk = some ts ∧ .string text ∈ ts := by
  obtain ⟨ts, hts, hrun⟩ := Option.bind_eq_some_iff.mp h
  rcases run_returned hrun hv htext with hmem | ⟨x, v', hlocal, -⟩
  · exact ⟨ts, hts, hmem⟩
  · cases hlocal

/-! ## What tokens come to -/

/-- The tokens of a constant. -/
def Const.tokens : Const → List Token
  | .int n => intTokens n
  | .string text => [.string text]

/-- The tokens of fields, with commas between them. -/
def fieldTokens : List (CString × Const) → List Token
  | [] => []
  | f :: rest =>
    .word f.1 :: .symbol '=' :: (f.2.tokens ++ if rest = [] then [] else .symbol ',' :: fieldTokens rest)

theorem fieldTokens_append {fields more : List (CString × Const)} (hne : fields ≠ []) (hmore : more ≠ []) :
    fieldTokens (fields ++ more) = fieldTokens fields ++ .symbol ',' :: fieldTokens more := by
  induction fields with
  | nil => exact absurd rfl hne
  | cons f rest ih =>
    rw [List.cons_append, fieldTokens, fieldTokens]
    cases rest with
    | nil => simp [hmore]
    | cons next rest =>
      rw [ih (List.cons_ne_nil _ _)]
      simp

theorem constant_tokens (c : Const) (ts : List Token) : constant (c.tokens ++ ts) = some (c, ts) := by
  cases c with
  | string text => rfl
  | int n =>
    change constant (intTokens n ++ ts) = _
    unfold intTokens
    split
    · have habs : -(n.natAbs : ℤ) = n := by omega
      rw [List.cons_append, List.cons_append, List.nil_append, constant, if_pos rfl, habs]
    · have habs : (n.natAbs : ℤ) = n := by omega
      rw [List.cons_append, List.nil_append, constant, habs]

theorem setField_of_notMem {fields : List (CString × Const)} {key : CString} (h : key ∉ fields.map Prod.fst)
    (c : Const) : setField fields key c = fields ++ [(key, c)] := by
  have hany : fields.any (·.1 == key) = false := by
    rw [List.any_eq_false]
    intro f hf heq
    exact h (List.mem_map.mpr ⟨f, hf, by simpa using heq⟩)
  rw [setField, hany]
  rfl

/-- Fields with names which are no keywords, and different from each other, make up the table in their order. -/
theorem tableFields_tokens {fields : List (CString × Const)} (hne : fields ≠ [])
    (hkeys : ∀ f ∈ fields, f.1 ∉ keywords) {n : ℕ} (hn : fields.length ≤ n) {before : List (CString × Const)}
    (hnodup : ((before ++ fields).map Prod.fst).Nodup) (ts : List Token) :
    tableFields n before (fieldTokens fields ++ .symbol '}' :: ts) = some (before ++ fields, ts) := by
  induction fields generalizing before n with
  | nil => exact absurd rfl hne
  | cons f rest ih =>
    obtain ⟨key, c⟩ := f
    obtain ⟨hkey, hkeys⟩ := List.forall_mem_cons.mp hkeys
    obtain ⟨n, rfl⟩ : ∃ m, n = m + 1 := ⟨n - 1, by rw [List.length_cons] at hn; omega⟩
    have hnew : key ∉ before.map Prod.fst := by
      rw [List.map_append, List.map_cons] at hnodup
      exact fun hmem => (List.nodup_append.mp hnodup).2.2 key hmem key List.mem_cons_self rfl
    have hfield : ∀ ts, field (.word key :: .symbol '=' :: (c.tokens ++ ts)) = some ((key, c), ts) := fun ts => by
      rw [field, if_pos ⟨rfl, hkey⟩, constant_tokens]
      rfl
    rw [fieldTokens, List.cons_append, List.cons_append, List.append_assoc, tableFields, if_neg (by simp), hfield]
    dsimp only
    rw [setField_of_notMem hnew]
    cases rest with
    | nil => rfl
    | cons next rest =>
      rw [if_neg (List.cons_ne_nil _ _), List.cons_append, if_neg (by simp), if_pos (.inl rfl), List.tail_cons,
        ih (List.cons_ne_nil _ _) hkeys (by simpa using hn) (by simpa using hnodup)]
      simp

theorem expression_tokens (locals : Locals) (c : Const) (ts : List Token) :
    expression locals (c.tokens ++ ts) = some (.const c, ts) := by
  have hconst : (constant (c.tokens ++ ts)).map (fun r => (Value.const r.1, r.2)) = some (.const c, ts) := by
    rw [constant_tokens]
    rfl
  cases c with
  | string text => exact hconst
  | int n =>
    change expression locals (intTokens n ++ ts) = _
    change (constant (intTokens n ++ ts)).map (fun r => (Value.const r.1, r.2)) = _ at hconst
    rw [← hconst]
    unfold intTokens
    split
    · rfl
    · rfl

/-- An assignment to a field of a global table, before other statements. -/
theorem run_assignment {table key : CString} (htable : table ∉ keywords) (hkey : key ∉ keywords) (c : Const) (n : ℕ)
    (ts : List Token) :
    run (n + 1) [] (.word table :: .symbol '.' :: .word key :: .symbol '=' :: (c.tokens ++ ts)) =
      (run n [] ts).map fun o => ⟨(table, key, .const c) :: o.assigned, o.returned⟩ := by
  have hreturn : table ≠ "return".toList := fun h => htable (by rw [h]; decide)
  have hlocal : table ≠ "local".toList := fun h => htable (by rw [h]; decide)
  have hassign : assignment [] (.word table :: .symbol '.' :: .word key :: .symbol '=' :: (c.tokens ++ ts)) =
      some ((table, key, .const c), ts) := by
    rw [assignment, if_pos ⟨htable, rfl, rfl, hkey, rfl⟩, expression_tokens]
    rfl
  rw [run, if_neg (List.cons_ne_nil _ _), if_neg (by simp), if_neg (by simpa using hreturn), if_neg (by simpa using hlocal),
    hassign]

/-- A local that is set to a table constructor. -/
theorem run_local_table {x : CString} (hx : x ∉ keywords) {fields : List (CString × Const)} (hne : fields ≠ [])
    (hkeys : ∀ f ∈ fields, f.1 ∉ keywords) (hnodup : (fields.map Prod.fst).Nodup) (locals : Locals) (n : ℕ)
    (ts : List Token) :
    run (n + 1) locals (.word "local".toList :: .word x :: .symbol '=' :: .symbol '{' ::
      (fieldTokens fields ++ .symbol '}' :: ts)) = run n ((x, .table fields) :: locals) ts := by
  have hlength : ∀ fields : List (CString × Const), fields.length ≤ (fieldTokens fields).length := by
    intro fields
    induction fields with
    | nil => exact le_refl _
    | cons f rest ih =>
      rw [fieldTokens]
      split
      · rename_i hnil
        subst hnil
        simp
      · simp only [List.length_cons, List.length_append]
        omega
  have htable : tableFields (.symbol '{' :: (fieldTokens fields ++ .symbol '}' :: ts)).length []
      (fieldTokens fields ++ .symbol '}' :: ts) = some (fields, ts) := by
    refine @tableFields_tokens fields hne hkeys _ ?_ [] hnodup ts
    have hfields := hlength fields
    simp only [List.length_cons, List.length_append]
    omega
  have hlocal : localStat locals (.word x :: .symbol '=' :: .symbol '{' :: (fieldTokens fields ++ .symbol '}' :: ts)) =
      some ((x, .table fields), ts) := by
    rw [localStat, if_pos ⟨rfl, hx⟩, expression]
    dsimp only [List.head?_cons, List.tail_cons]
    rw [htable]
    rfl
  rw [run, if_neg (List.cons_ne_nil _ _), if_neg (by simp), if_neg (by simp), List.head?_cons, if_pos rfl, List.tail_cons,
    hlocal]

theorem run_semicolon (locals : Locals) (n : ℕ) (ts : List Token) :
    run (n + 1) locals (.symbol ';' :: ts) = run n locals ts := by
  rw [run, if_neg (List.cons_ne_nil _ _), List.head?_cons, if_pos rfl, List.tail_cons]

end Foundation.Lua
