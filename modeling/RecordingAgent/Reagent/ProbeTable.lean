import RecordingAgent.Reagent.Probe

/-!
# The indices of the monitor's table

`camon_status` has `MAX_CAMS` entries, of which the last receive pass filled `camon_ncams`. The
matching pass searches the filled ones with a loop index, and stores the absence of a camera
it did not find at that index as the loop left it. After an unsuccessful search this is the
first entry past the answers, so it is no responder's, but it lies past the table's end when
sixteen answers filled the table.

Here a pass works on the table by index and notes each access. What it leaves of the answers
and the agent is what `Agent.camonPass` computes.
-/

namespace RecordingAgent.Reagent

open Foundation

/-- An access to the entry of this index; `missing` ones store the absence of a camera. -/
structure TableAccess where
  index : ℕ
  missing : Bool
  deriving DecidableEq

/-- The access is to an entry of the table, and the absence of a camera is stored in no responder's. -/
def TableAccess.Safe (camonNcams : ℤ) (a : TableAccess) : Prop :=
  a.index < maxCams ∧ (a.missing = true → camonNcams ≤ a.index)

instance (camonNcams : ℤ) (a : TableAccess) : Decidable (a.Safe camonNcams) := instDecidableAnd

/-- The monitor's table, the number of answers in it, -1 until there are any, and the accesses of the
pass so far. -/
structure CamonTable where
  entries : List CamonStatus
  camonNcams : ℤ
  accesses : List TableAccess
  length_entries : entries.length = maxCams
  camonNcams_le : camonNcams ≤ maxCams

namespace CamonTable

/-- A zeroed entry. -/
def zeroed : CamonStatus := ⟨[], [], false⟩

/-- The table of an agent which has just started. -/
def start : CamonTable := ⟨List.replicate maxCams zeroed, -1, [], rfl, by decide⟩

/-- The answers in the table. -/
def answers (t : CamonTable) : List CamonStatus := t.entries.take t.camonNcams.toNat

/-- Read an entry. -/
def entry (t : CamonTable) (j : ℕ) : CamonStatus := t.entries[j]?.getD zeroed

/-- Note accesses. -/
def note (t : CamonTable) (accesses : List TableAccess) : CamonTable :=
  { t with accesses := t.accesses ++ accesses }

/-- Store what became of an answer, or that there was none. -/
def storeAlive (t : CamonTable) (j : ℕ) (missing alive : Bool) : CamonTable :=
  { t with
    entries := t.entries.modify j fun st => { st with isAlive := alive }
    accesses := t.accesses ++ [⟨j, missing⟩]
    length_entries := by rw [List.length_modify, t.length_entries] }

/-- Search `left` entries from one on for the answer of a camera: the entries read, and the loop index
where the search ends with whether it found the answer. -/
def search (t : CamonTable) (p : CamDef) : ℕ → ℕ → List TableAccess × ℕ × Bool
  | 0, j => ([], j, false)
  | left + 1, j =>
    if (t.entry j).matches p then ([⟨j, false⟩], j, true)
    else (⟨j, false⟩ :: (t.search p left (j + 1)).1, (t.search p left (j + 1)).2)

/-- A search reads only the entries it is to search. -/
theorem search_accesses (t : CamonTable) (p : CamDef) (left j : ℕ) :
    ∀ a ∈ (t.search p left j).1, a.index < j + left ∧ a.missing = false := by
  induction left generalizing j with
  | zero => exact fun a ha => nomatch ha
  | succ left ih =>
    intro a ha
    unfold search at ha
    split at ha
    · rw [List.mem_singleton.mp ha]
      exact ⟨by dsimp only; omega, rfl⟩
    · rcases List.mem_cons.mp ha with rfl | ha
      · exact ⟨by dsimp only; omega, rfl⟩
      · obtain ⟨hindex, hmissing⟩ := ih (j + 1) a ha
        exact ⟨by omega, hmissing⟩

/-- A search ends at the first entry which matches, or past the last one. -/
theorem search_index (t : CamonTable) (p : CamDef) (left j : ℕ) (h : j + left ≤ maxCams) :
    (t.search p left j).2 = match ((t.entries.drop j).take left).findIdx? (·.matches p) with
      | some k => (j + k, true)
      | none => (j + left, false) := by
  induction left generalizing j with
  | zero => rfl
  | succ left ih =>
    have hj : j < t.entries.length := by
      rw [t.length_entries]
      omega
    have hentry : t.entry j = t.entries[j] := by
      rw [entry, List.getElem?_eq_getElem hj, Option.getD_some]
    rw [List.drop_eq_getElem_cons hj, List.take_succ_cons, List.findIdx?_cons, search, hentry]
    by_cases hmatch : t.entries[j].matches p = true
    · rw [if_pos hmatch, if_pos hmatch]
      rfl
    · rw [if_neg hmatch, if_neg hmatch]
      dsimp only
      rw [ih (j + 1) (by omega)]
      cases ((t.entries.drop (j + 1)).take left).findIdx? (·.matches p) with
      | none => exact Prod.ext (Nat.add_right_comm j 1 left) rfl
      | some k => exact Prod.ext (Nat.add_right_comm j 1 k) rfl

/-- The search of the matching pass ends at the first answer which matches, or past all answers. -/
theorem search_answers (t : CamonTable) (p : CamDef) :
    (t.search p t.camonNcams.toNat 0).2 = match t.answers.findIdx? (·.matches p) with
      | some j => (j, true)
      | none => (t.camonNcams.toNat, false) := by
  have hncams := t.camonNcams_le
  rw [search_index t p _ 0 (by omega), List.drop_zero, answers]
  cases (t.entries.take t.camonNcams.toNat).findIdx? (·.matches p) <;> simp

/-- What is stored shows in the answers. -/
theorem storeAlive_answers (t : CamonTable) (j : ℕ) (missing alive : Bool) :
    (t.storeAlive j missing alive).answers = t.answers.modify j fun st => { st with isAlive := alive } := by
  exact List.take_modify _ _ _ _

/-- What is stored past the answers does not. -/
theorem storeAlive_answers_missing (t : CamonTable) (missing alive : Bool) :
    (t.storeAlive t.camonNcams.toNat missing alive).answers = t.answers := by
  rw [storeAlive_answers]
  exact List.modify_eq_self (List.length_take_le _ _)

/-- Storing what became of an answer keeps what answers are compared by. -/
theorem storeAlive_keys (t : CamonTable) (j : ℕ) (missing alive : Bool) :
    (t.storeAlive j missing alive).answers.map CamonStatus.key = t.answers.map CamonStatus.key := by
  refine List.ext_getElem? fun k => ?_
  rw [storeAlive_answers, List.getElem?_map, List.getElem?_map, List.getElem?_modify]
  cases t.answers[k]? with
  | none => rfl
  | some st => by_cases hk : j = k <;> simp [hk, CamonStatus.key]

/-- The entries below the number of answers are the answers. -/
theorem entry_eq (t : CamonTable) {j : ℕ} (h : j < t.answers.length) : t.answers[j]? = some (t.entry j) := by
  have hj : j < t.camonNcams.toNat ∧ j < t.entries.length := by
    rw [answers, List.length_take] at h
    omega
  rw [answers, List.getElem?_take_of_lt hj.1, entry, List.getElem?_eq_getElem hj.2, Option.getD_some]

end CamonTable

/-- The table while a receive pass fills it. -/
structure Filling where
  entries : List CamonStatus
  ncams : ℕ
  accesses : List TableAccess

namespace Filling

/-- Store the next answer. -/
def store (f : Filling) (st : CamonStatus) : Filling :=
  ⟨f.entries.set f.ncams st, f.ncams + 1, f.accesses ++ [⟨f.ncams, false⟩]⟩

/-- Offer the next entry to a camera which may accept a connection. -/
def offer (isCameraAvailable : Slot → Bool) (known : MediaInfo) (f : Filling) (j : Slot) : Filling :=
  if isCameraAvailable j then
    f.store ⟨((homeHost (known.cameras j).homepage).getD []).take 15,
      (known.cameras j).dispMac.take (macAddrSize - 1), true⟩
  else { f with accesses := f.accesses ++ [⟨f.ncams, false⟩] }

/-- The receive pass, with the addresses `probe_net_rx` reports and the table before it. -/
def camonPerformRx (sock : Option ℕ) (peers : List Ipv4) (isCameraAvailable : Slot → Bool) (known : MediaInfo)
    (entries : List CamonStatus) : Filling :=
  match sock with
  | some _ => (peers.take maxCams).foldl (fun f ip => f.store (creditAnswer known ip))
      ⟨List.replicate maxCams CamonTable.zeroed, 0, []⟩
  | none => known.configured.foldl (offer isCameraAvailable known) ⟨entries, 0, []⟩

/-- How a table is while `bound` more answers may come. -/
structure Room (bound : ℕ) (f : Filling) : Prop where
  length : f.entries.length = maxCams
  ncams : f.ncams + bound ≤ maxCams
  accesses : ∀ a ∈ f.accesses, a.index < maxCams ∧ a.missing = false

theorem Room.store {bound : ℕ} {f : Filling} (h : Room (bound + 1) f) (st : CamonStatus) :
    Room bound (f.store st) := by
  have hroom := h.ncams
  refine ⟨by rw [Filling.store, List.length_set, h.length], by simp only [Filling.store]; omega, fun a ha => ?_⟩
  rcases List.mem_append.mp ha with ha | ha
  · exact h.accesses a ha
  · rw [List.mem_singleton.mp ha]
    exact ⟨by dsimp only; omega, rfl⟩

theorem Room.offer {bound : ℕ} {f : Filling} (h : Room (bound + 1) f) (isCameraAvailable : Slot → Bool)
    (known : MediaInfo) (j : Slot) : Room bound (f.offer isCameraAvailable known j) := by
  unfold Filling.offer
  split
  · exact h.store _
  · have hroom := h.ncams
    refine ⟨h.length, by dsimp only; omega, fun a ha => ?_⟩
    rcases List.mem_append.mp ha with ha | ha
    · exact h.accesses a ha
    · rw [List.mem_singleton.mp ha]
      exact ⟨by dsimp only; omega, rfl⟩

/-- A loop whose body uses one entry at most stays in the table. -/
theorem Room.foldl {α : Type*} {body : Filling → α → Filling}
    (hbody : ∀ bound f a, Room (bound + 1) f → Room bound (body f a)) (items : List α) {bound : ℕ} {f : Filling}
    (h : Room (items.length + bound) f) : Room bound (items.foldl body f) := by
  induction items generalizing f with
  | nil => rwa [List.length_nil, Nat.zero_add] at h
  | cons a items ih =>
    refine ih (hbody _ _ _ ?_)
    rwa [List.length_cons, Nat.add_right_comm] at h

/-- The table before a receive pass has room for an answer of each of up to sixteen items. -/
theorem room_start {entries : List CamonStatus} (h : entries.length = maxCams) {n : ℕ} (hn : n ≤ maxCams) :
    Room (n + 0) ⟨entries, 0, []⟩ :=
  ⟨h, by dsimp only; omega, List.forall_mem_nil _⟩

theorem length_configured_le (m : MediaInfo) : m.configured.length ≤ maxCams := by
  have hslots : allSlots.length = maxCams := by decide
  rw [← hslots]
  exact List.length_filter_le _ _

/-- The receive pass stays in the table. -/
theorem room_camonPerformRx (sock : Option ℕ) (peers : List Ipv4) (isCameraAvailable : Slot → Bool)
    (known : MediaInfo) {entries : List CamonStatus} (h : entries.length = maxCams) :
    Room 0 (camonPerformRx sock peers isCameraAvailable known entries) := by
  cases sock with
  | some sock => exact Room.foldl (fun _ _ _ h => h.store _) _ (room_start rfl (List.length_take_le _ _))
  | none => exact Room.foldl (fun _ _ _ h => h.offer _ _ _) _ (room_start h (length_configured_le known))

/-- What is stored comes after the answers stored before. -/
theorem Room.take_store {bound : ℕ} {f : Filling} (h : Room (bound + 1) f) (st : CamonStatus) :
    (f.store st).entries.take (f.store st).ncams = f.entries.take f.ncams ++ [st] := by
  have hroom := h.ncams
  have hlength : f.ncams < (f.entries.set f.ncams st).length := by
    rw [List.length_set, h.length]
    omega
  change (f.entries.set f.ncams st).take (f.ncams + 1) = _
  rw [List.take_succ_eq_append_getElem hlength, List.getElem_set_self, List.take_set_of_le (le_refl _)]

/-- A loop which stores the answers of its items appends them. -/
theorem Room.foldl_take {α : Type*} {body : Filling → α → Filling} (answer : α → Option CamonStatus)
    (hroom : ∀ bound f a, Room (bound + 1) f → Room bound (body f a))
    (hbody : ∀ bound f a, Room (bound + 1) f →
      (body f a).entries.take (body f a).ncams = f.entries.take f.ncams ++ (answer a).toList)
    (items : List α) {bound : ℕ} {f : Filling} (h : Room (items.length + bound) f) :
    (items.foldl body f).entries.take (items.foldl body f).ncams =
      f.entries.take f.ncams ++ items.filterMap answer := by
  induction items generalizing f with
  | nil => exact (List.append_nil _).symm
  | cons a items ih =>
    rw [List.length_cons, Nat.add_right_comm] at h
    rw [List.foldl_cons, ih (hroom _ _ _ h), hbody _ _ _ h, List.append_assoc]
    cases hanswer : answer a with
    | none => rw [List.filterMap_cons_none hanswer, Option.toList_none, List.nil_append]
    | some st => rw [List.filterMap_cons_some hanswer, Option.toList_some, List.singleton_append]

/-- The receive pass fills the table with the monitor's answers. -/
theorem take_camonPerformRx (sock : Option ℕ) (peers : List Ipv4) (isCameraAvailable : Slot → Bool)
    (known : MediaInfo) {entries : List CamonStatus} (h : entries.length = maxCams) :
    (camonPerformRx sock peers isCameraAvailable known entries).entries.take
        (camonPerformRx sock peers isCameraAvailable known entries).ncams =
      Reagent.camonPerformRx sock peers isCameraAvailable known := by
  cases sock with
  | some sock =>
    have hzeroed : (List.replicate maxCams CamonTable.zeroed).length = maxCams := List.length_replicate
    have htake := Room.foldl_take (fun ip => some (creditAnswer known ip)) (fun _ _ _ h => h.store _)
      (fun _ _ _ h => h.take_store _) (peers.take maxCams) (room_start hzeroed (List.length_take_le _ _))
    rwa [List.filterMap_eq_map'] at htake
  | none =>
    let answer : Slot → CamonStatus := fun j =>
      ⟨((homeHost (known.cameras j).homepage).getD []).take 15,
        (known.cameras j).dispMac.take (macAddrSize - 1), true⟩
    have hoffer : ∀ bound f j, Room (bound + 1) f → (f.offer isCameraAvailable known j).entries.take
        (f.offer isCameraAvailable known j).ncams =
          f.entries.take f.ncams ++ (if isCameraAvailable j then some (answer j) else none).toList := by
      intro bound f j hroom
      unfold offer
      split
      · exact hroom.take_store _
      · exact (List.append_nil _).symm
    have htake := Room.foldl_take _ (fun _ _ _ h => h.offer _ _ _) hoffer known.configured
      (room_start h (length_configured_le known))
    rwa [← List.filterMap_filter, List.filterMap_eq_map'] at htake

/-- The monitor never reports more answers than the table holds. -/
theorem length_camonPerformRx_le (sock : Option ℕ) (peers : List Ipv4) (isCameraAvailable : Slot → Bool)
    (known : MediaInfo) : (Reagent.camonPerformRx sock peers isCameraAvailable known).length ≤ maxCams := by
  cases sock with
  | some sock =>
    rw [Reagent.camonPerformRx, List.length_map]
    exact List.length_take_le _ _
  | none =>
    rw [Reagent.camonPerformRx, List.length_map]
    exact (List.length_filter_le _ _).trans (length_configured_le known)

end Filling

/-- The agent, with its list of answers, and the table of the 1 Hz timer which holds them by index. -/
structure Monitored where
  agent : Agent
  table : CamonTable

namespace Monitored

/-- The agent's list is what the table holds. -/
def InStep (x : Monitored) : Prop := x.agent.statics.camonStatus = x.table.answers

/-- Reflect the monitor's answer, or its absence, in one camera. -/
def reflectProbe (arp : Slot → Option CString) (x : Monitored) (c : Slot) : Monitored :=
  if (x.agent.cam c).runtime.isAssigned then
    match x.table.search (x.agent.cam c) x.table.camonNcams.toNat 0 with
    | (visited, j, true) =>
      let r := x.agent.reflectCameraOnlineStatus c (x.table.entry j).isAlive
      ⟨r.2.setCamonAlive j r.1, (x.table.note visited).storeAlive j false r.1⟩
    | (visited, j, false) =>
      -- the loop index is used as the unsuccessful search left it
      let r := x.agent.reflectCameraOnlineStatus c false
      ⟨if r.1 = false then r.2.lookupAddress c arp else r.2, (x.table.note visited).storeAlive j true r.1⟩
  else x

/-- The monitor half of a timer pass. -/
def camonPass (x : Monitored) (peers : List Ipv4) (isCameraAvailable : Slot → Bool) (arp : Slot → Option CString) :
    Monitored :=
  let x := { x with table := { x.table with accesses := [] } }
  if x.agent.statics.passFlag = false then
    let x := { x with agent := { x.agent with statics := { x.agent.statics with passFlag := true } } }
    let x := x.agent.media.configured.foldl (reflectProbe arp) x
    { x with
      agent := { x.agent with statics := { x.agent.statics with camonStatus := [] } }
      table := { x.table with camonNcams := -1, camonNcams_le := by decide } }
  else
    let m := x.agent.media
    have hroom := Filling.room_camonPerformRx m.camonSock peers isCameraAvailable m x.table.length_entries
    let f := Filling.camonPerformRx m.camonSock peers isCameraAvailable m x.table.entries
    ⟨{ x.agent with statics := { x.agent.statics with
        camonStatus := f.entries.take f.ncams, passFlag := false } },
      ⟨f.entries, f.ncams, x.table.accesses ++ f.accesses, hroom.length, by exact_mod_cast hroom.ncams⟩⟩

/-- One pass of the 1 Hz timer. -/
def timerCallback (x : Monitored) (peers : List Ipv4) (isCameraAvailable : Slot → Bool)
    (arp : Slot → Option CString) : Monitored :=
  { x.camonPass peers isCameraAvailable arp with
    agent := (x.camonPass peers isCameraAvailable arp).agent.restartPass }

/-- The body of the matching pass's loop is the agent's own. -/
theorem reflectProbe_agent {x : Monitored} (h : x.InStep) (arp : Slot → Option CString) (c : Slot) :
    (x.reflectProbe arp c).agent = Agent.reflectProbe arp x.agent c ∧ (x.reflectProbe arp c).InStep := by
  have hindex := x.table.search_answers (x.agent.cam c)
  unfold reflectProbe Agent.reflectProbe
  by_cases hassigned : (x.agent.cam c).runtime.isAssigned = true
  · rw [if_pos hassigned, if_pos hassigned]
    rcases hsearch : x.table.search (x.agent.cam c) x.table.camonNcams.toNat 0 with ⟨visited, j, found⟩
    rw [hsearch] at hindex
    rw [h]
    cases hfind : x.table.answers.findIdx? (·.matches (x.agent.cam c)) with
    | some k =>
      rw [hfind] at hindex
      obtain ⟨rfl, rfl⟩ := Prod.mk.inj hindex
      obtain ⟨hk, -, -⟩ := List.findIdx?_eq_some_iff_getElem.mp hfind
      dsimp only
      rw [x.table.entry_eq hk]
      refine ⟨rfl, ?_⟩
      rw [InStep, CamonTable.storeAlive_answers, Agent.setCamonAlive]
      dsimp only
      rw [Agent.reflectCameraOnlineStatus_camonStatus, h]
      rfl
    | none =>
      rw [hfind] at hindex
      obtain ⟨rfl, rfl⟩ := Prod.mk.inj hindex
      refine ⟨rfl, ?_⟩
      have hanswers := (x.table.note visited).storeAlive_answers_missing true
        (x.agent.reflectCameraOnlineStatus c false).1
      refine Eq.trans ?_ (h.trans hanswers.symm)
      dsimp only
      split
      · rw [Agent.lookupAddress_camonStatus, Agent.reflectCameraOnlineStatus_camonStatus]
      · rw [Agent.reflectCameraOnlineStatus_camonStatus]
  · rw [if_neg hassigned, if_neg hassigned]
    exact ⟨rfl, h⟩

/-- So is the loop. -/
theorem foldl_reflectProbe_agent (arp : Slot → Option CString) (cs : List Slot) {x : Monitored} (h : x.InStep) :
    (cs.foldl (reflectProbe arp) x).agent = cs.foldl (Agent.reflectProbe arp) x.agent ∧
      (cs.foldl (reflectProbe arp) x).InStep := by
  induction cs generalizing x with
  | nil => exact ⟨rfl, h⟩
  | cons c cs ih =>
    obtain ⟨hagent, hinstep⟩ := reflectProbe_agent h arp c
    rw [List.foldl_cons, List.foldl_cons, ← hagent]
    exact ih hinstep

/-- The monitor half of a pass on the table is the agent's own, with the answers the receive pass stores. -/
theorem camonPass_agent {x : Monitored} (h : x.InStep) (peers : List Ipv4) (isCameraAvailable : Slot → Bool)
    (arp : Slot → Option CString) :
    (x.camonPass peers isCameraAvailable arp).agent = x.agent.camonPass
        (Reagent.camonPerformRx x.agent.media.camonSock peers isCameraAvailable x.agent.media) arp ∧
      (x.camonPass peers isCameraAvailable arp).InStep := by
  have hrx := Filling.take_camonPerformRx x.agent.media.camonSock peers isCameraAvailable x.agent.media
    x.table.length_entries
  have hlength := Filling.length_camonPerformRx_le x.agent.media.camonSock peers isCameraAvailable x.agent.media
  unfold camonPass Agent.camonPass
  dsimp only
  by_cases hflag : x.agent.statics.passFlag = false
  · rw [if_pos hflag, if_pos hflag]
    have hstart : InStep { x with
        agent := { x.agent with statics := { x.agent.statics with passFlag := true } }
        table := { x.table with accesses := [] } } := h
    obtain ⟨hagent, -⟩ := foldl_reflectProbe_agent arp x.agent.media.configured hstart
    dsimp only
    rw [hagent]
    exact ⟨rfl, rfl⟩
  · rw [if_neg hflag, if_neg hflag, List.take_of_length_le hlength]
    exact ⟨by rw [hrx], rfl⟩

/-- A whole pass on the table is the agent's own. -/
theorem timerCallback_agent {x : Monitored} (h : x.InStep) (peers : List Ipv4) (isCameraAvailable : Slot → Bool)
    (arp : Slot → Option CString) :
    (x.timerCallback peers isCameraAvailable arp).agent = x.agent.timerCallback
        (Reagent.camonPerformRx x.agent.media.camonSock peers isCameraAvailable x.agent.media) arp ∧
      (x.timerCallback peers isCameraAvailable arp).InStep := by
  obtain ⟨hagent, hinstep⟩ := camonPass_agent h peers isCameraAvailable arp
  have hkept := Agent.ProbeKept.restartPass (x.camonPass peers isCameraAvailable arp).agent
  exact ⟨congrArg Agent.restartPass hagent, hkept.camonStatus.trans hinstep⟩

/-- No answer is the camera's, although it is assigned. -/
def Missed (x : Monitored) (c : Slot) : Prop :=
  (x.agent.cam c).runtime.isAssigned = true ∧ ∀ st ∈ x.table.answers, st.matches (x.agent.cam c) = false

instance (x : Monitored) (c : Slot) : Decidable (x.Missed c) := instDecidableAnd

/-- The access which stores the absence of a camera. -/
def missingAccess (x : Monitored) : TableAccess := ⟨x.table.camonNcams.toNat, true⟩

/-- What the matching pass does when it comes to one camera. -/
structure Reflected (c : Slot) (x x' : Monitored) : Prop where
  camonNcams : x'.table.camonNcams = x.table.camonNcams
  keys : x'.table.answers.map CamonStatus.key = x.table.answers.map CamonStatus.key
  cam : ∀ d, d ≠ c → x'.agent.cam d = x.agent.cam d
  kept : x.table.accesses ⊆ x'.table.accesses
  accesses : ∀ a ∈ x'.table.accesses, a ∈ x.table.accesses ∨ a.index < maxCams ∧ a.missing = false ∨
    x.Missed c ∧ a = x.missingAccess
  missing : x.Missed c → x.missingAccess ∈ x'.table.accesses

theorem Reflected.of_note {c : Slot} {x x' : Monitored} {visited : List TableAccess} {j : ℕ} {missing alive : Bool}
    (htable : x'.table = (x.table.note visited).storeAlive j missing alive)
    (hcam : ∀ d, d ≠ c → x'.agent.cam d = x.agent.cam d)
    (hvisited : ∀ a ∈ visited, a.index < maxCams ∧ a.missing = false)
    (hstored : j < maxCams ∧ missing = false ∧ ¬ x.Missed c ∨
      x.Missed c ∧ (⟨j, missing⟩ : TableAccess) = x.missingAccess) : Reflected c x x' := by
  have haccesses : x'.table.accesses = x.table.accesses ++ visited ++ [⟨j, missing⟩] := by
    rw [htable]
    rfl
  refine ⟨by rw [htable]; rfl, ?_, hcam, ?_, fun a ha => ?_, fun hmissed => ?_⟩
  · rw [htable, CamonTable.storeAlive_keys]
    rfl
  · rw [haccesses, List.append_assoc]
    exact List.subset_append_left _ _
  · rw [haccesses, List.mem_append, List.mem_append, List.mem_singleton] at ha
    rcases ha with (ha | ha) | rfl
    · exact Or.inl ha
    · exact Or.inr (Or.inl (hvisited a ha))
    · rcases hstored with ⟨hj, hmissing, -⟩ | hstored
      · exact Or.inr (Or.inl ⟨hj, hmissing⟩)
      · exact Or.inr (Or.inr hstored)
  · rcases hstored with ⟨-, -, hfound⟩ | ⟨-, hstored⟩
    · exact absurd hmissed hfound
    · rw [haccesses, ← hstored]
      exact List.mem_append_right _ (List.mem_singleton_self _)

/-- The body of the matching pass's loop. -/
theorem reflected_reflectProbe (arp : Slot → Option CString) (x : Monitored) (c : Slot) :
    Reflected c x (x.reflectProbe arp c) := by
  have hncams := x.table.camonNcams_le
  have hvisited : ∀ a ∈ (x.table.search (x.agent.cam c) x.table.camonNcams.toNat 0).1,
      a.index < maxCams ∧ a.missing = false := by
    intro a ha
    obtain ⟨hindex, hmissing⟩ := x.table.search_accesses _ _ _ a ha
    exact ⟨by omega, hmissing⟩
  have hindex := x.table.search_answers (x.agent.cam c)
  unfold reflectProbe
  by_cases hassigned : (x.agent.cam c).runtime.isAssigned = true
  · rw [if_pos hassigned]
    rcases hsearch : x.table.search (x.agent.cam c) x.table.camonNcams.toNat 0 with ⟨visited, j, found⟩
    rw [hsearch] at hvisited hindex
    cases hfind : x.table.answers.findIdx? (·.matches (x.agent.cam c)) with
    | some k =>
      rw [hfind] at hindex
      obtain ⟨rfl, rfl⟩ := Prod.mk.inj hindex
      obtain ⟨hk, hmatch, -⟩ := List.findIdx?_eq_some_iff_getElem.mp hfind
      have hlength : x.table.answers.length ≤ maxCams := by
        rw [← x.table.length_entries]
        exact (List.take_sublist _ _).length_le
      refine .of_note rfl (fun d hd => (Frame.reflectCameraOnlineStatus _ _).cam d hd) hvisited
        (Or.inl ⟨by omega, rfl, fun hmissed => ?_⟩)
      rw [hmissed.2 _ (List.getElem_mem hk)] at hmatch
      cases hmatch
    | none =>
      rw [hfind] at hindex
      obtain ⟨rfl, rfl⟩ := Prod.mk.inj hindex
      refine .of_note rfl (fun d hd => ?_) hvisited
        (Or.inr ⟨⟨hassigned, List.findIdx?_eq_none_iff.mp hfind⟩, rfl⟩)
      have hreflect := (Frame.reflectCameraOnlineStatus x.agent false).cam d hd
      dsimp only
      split
      · exact ((Frame.lookupAddress _ _).cam d hd).trans hreflect
      · exact hreflect
  · rw [if_neg hassigned]
    exact ⟨rfl, rfl, fun _ _ => rfl, List.Subset.refl _, fun _ => Or.inl, fun hmissed => absurd hmissed.1 hassigned⟩

/-- An answer is compared by its keys, so they decide whether a camera is missed. -/
theorem missed_congr {c : Slot} {x x' : Monitored} (hcam : x'.agent.cam c = x.agent.cam c)
    (hkeys : x'.table.answers.map CamonStatus.key = x.table.answers.map CamonStatus.key) :
    x'.Missed c ↔ x.Missed c := by
  have hforall : ∀ y : Monitored, (∀ st ∈ y.table.answers, st.matches (x.agent.cam c) = false) ↔
      ∀ key ∈ y.table.answers.map CamonStatus.key,
        (⟨key.1, key.2, true⟩ : CamonStatus).matches (x.agent.cam c) = false := by
    intro y
    rw [List.forall_mem_map]
    exact forall₂_congr fun _ _ => Iff.rfl
  unfold Missed
  rw [hcam, hforall, hforall, hkeys]

/-- The access which stores the absence of a camera is never to a responder's entry, and past the table when
all entries are. -/
theorem missingAccess_safe_iff (x : Monitored) :
    x.missingAccess.Safe x.table.camonNcams ↔ x.table.camonNcams ≠ maxCams := by
  have hncams := x.table.camonNcams_le
  unfold TableAccess.Safe missingAccess maxCams at *
  dsimp only
  omega

/-- The matching pass, before it forgets the answers. -/
def matched (x : Monitored) (arp : Slot → Option CString) : Monitored :=
  x.agent.media.configured.foldl (reflectProbe arp)
    { x with
      agent := { x.agent with statics := { x.agent.statics with passFlag := true } }
      table := { x.table with accesses := [] } }

theorem camonPass_accesses (x : Monitored) (peers : List Ipv4) (isCameraAvailable : Slot → Bool)
    (arp : Slot → Option CString) (h : x.agent.statics.passFlag = false) :
    (x.camonPass peers isCameraAvailable arp).table.accesses = (x.matched arp).table.accesses := by
  unfold camonPass
  dsimp only
  rw [if_pos h]
  rfl

/-- What the loop of the matching pass has noted, when it is past some cameras. -/
theorem matched_accesses (x : Monitored) (arp : Slot → Option CString) {a : TableAccess}
    (ha : a ∈ (x.matched arp).table.accesses) : a.index < maxCams ∧ a.missing = false ∨
      (∃ c ∈ x.agent.media.configured, x.Missed c) ∧ a = x.missingAccess := by
  let I : Monitored → Prop := fun y => y.table.camonNcams = x.table.camonNcams ∧
    y.table.answers.map CamonStatus.key = x.table.answers.map CamonStatus.key ∧ ∀ a ∈ y.table.accesses,
      a.index < maxCams ∧ a.missing = false ∨
        (∃ c ∈ x.agent.media.configured, x.Missed c) ∧ a = x.missingAccess
  suffices hloop : I (x.matched arp) from hloop.2.2 a ha
  refine foldl_invariant_of_nodup (I := I) (fun c y => y.agent.cam c = x.agent.cam c)
    x.agent.media.nodup_configured ⟨rfl, rfl, List.forall_mem_nil _⟩ (fun _ _ => rfl) ?_ ?_
  · rintro y c hc ⟨hncams, hkeys, haccesses⟩ hcam
    have hstep := y.reflected_reflectProbe arp c
    refine ⟨hstep.camonNcams.trans hncams, hstep.keys.trans hkeys, fun a ha => ?_⟩
    rcases hstep.accesses a ha with ha | ha | ⟨hmissed, rfl⟩
    · exact haccesses a ha
    · exact Or.inl ha
    · refine Or.inr ⟨⟨c, hc, (missed_congr hcam hkeys).mp hmissed⟩, ?_⟩
      rw [missingAccess, hncams, missingAccess]
  · exact fun y c _ d hd hcam => ((y.reflected_reflectProbe arp c).cam d hd).trans hcam

/-- The matching pass stores the absence of every missed camera. -/
theorem missingAccess_mem_matched (x : Monitored) (arp : Slot → Option CString) {c : Slot}
    (hc : c ∈ x.agent.media.configured) (hmissed : x.Missed c) :
    x.missingAccess ∈ (x.matched arp).table.accesses := by
  refine foldl_establishes
    (fun d (y : Monitored) => y.table.camonNcams = x.table.camonNcams ∧
      y.table.answers.map CamonStatus.key = x.table.answers.map CamonStatus.key ∧ y.agent.cam d = x.agent.cam d)
    (fun d (y : Monitored) => x.Missed d → x.missingAccess ∈ y.table.accesses) x.agent.media.nodup_configured
    (fun _ _ => ⟨rfl, rfl, rfl⟩) ?_ ?_ ?_ c hc hmissed
  · rintro y d _ ⟨hncams, hkeys, hcam⟩ hd
    have hmem := (y.reflected_reflectProbe arp d).missing ((missed_congr hcam hkeys).mpr hd)
    rwa [missingAccess, hncams] at hmem
  · rintro y d _ e he ⟨hncams, hkeys, hcam⟩
    have hstep := y.reflected_reflectProbe arp d
    exact ⟨hstep.camonNcams.trans hncams, hstep.keys.trans hkeys, (hstep.cam e he).trans hcam⟩
  · exact fun y d _ e _ hdone he => (y.reflected_reflectProbe arp d).kept (hdone he)

/-- A timer pass uses the table safely exactly when it does not match sixteen answers against an assigned camera
which none of them is from. -/
theorem timerCallback_safe_iff (x : Monitored) (peers : List Ipv4) (isCameraAvailable : Slot → Bool)
    (arp : Slot → Option CString) :
    (∀ a ∈ (x.timerCallback peers isCameraAvailable arp).table.accesses, a.Safe x.table.camonNcams) ↔
      ¬ (x.agent.statics.passFlag = false ∧ x.table.camonNcams = maxCams ∧
        ∃ c ∈ x.agent.media.configured, x.Missed c) := by
  change (∀ a ∈ (x.camonPass peers isCameraAvailable arp).table.accesses, a.Safe x.table.camonNcams) ↔ _
  rcases Bool.eq_false_or_eq_true x.agent.statics.passFlag with hflag | hflag
  · have hroom := Filling.room_camonPerformRx x.agent.media.camonSock peers isCameraAvailable x.agent.media
      x.table.length_entries
    refine iff_of_true (fun a ha => ?_) fun h => ?_
    · unfold camonPass at ha
      dsimp only at ha
      rw [if_neg (by simp [hflag])] at ha
      obtain ⟨hindex, hmissing⟩ := hroom.accesses a ha
      exact ⟨hindex, fun h => absurd (hmissing.symm.trans h) Bool.false_ne_true⟩
    · rw [hflag] at h
      exact absurd h.1.symm Bool.false_ne_true
  · rw [camonPass_accesses x peers isCameraAvailable arp hflag]
    constructor
    · rintro hsafe ⟨-, hncams, c, hc, hmissed⟩
      exact x.missingAccess_safe_iff.mp (hsafe _ (x.missingAccess_mem_matched arp hc hmissed)) hncams
    · intro h a ha
      rcases x.matched_accesses arp ha with ⟨hindex, hmissing⟩ | ⟨hmissed, rfl⟩
      · exact ⟨hindex, fun h => absurd (hmissing.symm.trans h) Bool.false_ne_true⟩
      · exact x.missingAccess_safe_iff.mpr fun hncams => h ⟨hflag, hncams, hmissed⟩

/-- The agent which has just started, with its table. -/
def start (cfg : Config) : Monitored := ⟨Agent.start cfg true true true, .start⟩

/-- Sixteen addresses of which none is in the home page of a probed camera. -/
def sixteenStrangers : List Ipv4 := (List.range 16).map fun i => ⟨10, 20, 0, Fin.ofNat 256 (i + 1)⟩

/-- The agent with two probed cameras after the first probe, which sixteen strangers answered. -/
def strangersAnswered : Monitored :=
  ((start Agent.probedConfig).timerCallback [] (fun _ => false) fun _ => none).timerCallback sixteenStrangers
    (fun _ => false) fun _ => none

/-- The next matching pass then stores the absence of a camera past the table. -/
theorem strangersAnswered_unsafe :
    (⟨16, true⟩ : TableAccess) ∈
        (strangersAnswered.timerCallback [] (fun _ => false) fun _ => none).table.accesses ∧
      ¬ ∀ a ∈ (strangersAnswered.timerCallback [] (fun _ => false) fun _ => none).table.accesses,
        a.Safe strangersAnswered.table.camonNcams := by
  decide +kernel

end Monitored

end RecordingAgent.Reagent
