import RecordingAgent.Foundation.Decimal
import RecordingAgent.Foundation.FlagWord
import RecordingAgent.Foundation.Latch

/-!
# Collecting the user configuration

Three items have to arrive from the main application before the agent can work: the camera list,
the time information and the locomotive identifier. Each is kept as it arrives first, until a
message clears it. The video API declares the payloads; they are kept whole, as values of types of
which the all-zero value is known.
-/

namespace RecordingAgent.Reagent

open Foundation

/-- The constants of the video API which the collection tests. -/
structure VideoApi where
  initCameraListMsgVersion : ℕ
  timeInfoMsgVersion : ℕ
  locomotiveIdMsgVersion : ℕ
  clearUserConfigMsgVersion : ℕ
  readyStatusMsgVersion : ℕ
  timeSourceLength : ℕ

/-- The fields of the time information which are put into the environment. -/
class TimeInfoLayout (τ : Type*) extends Zero τ where
  systemTime : τ → ℕ
  timeOffset : τ → ℤ
  timeSource : τ → CString

/-- The messages which are accepted during the collection. -/
inductive UcMessage (γ τ κ : Type*)
  | initCameraList (version : ℕ) (cameraList : γ)
  | timeInfo (version : ℕ) (data : τ)
  | locomotiveId (version : ℕ) (data : κ)
  | clearUserConfig (version clearCameraList clearTimeoffsetInfo clearLocoidInfo : ℕ)
  | heartbeatRequest (version sequence : ℕ)
  | readyStatus (version chmReady removableSsdReady : ℕ)

def ucHasCameraList : BitVec 32 := 1
def ucHasTimeInfo : BitVec 32 := 2
def ucHasLocoid : BitVec 32 := 4

/-- All three items. -/
def ucMask : BitVec 32 := ucHasCameraList ||| ucHasTimeInfo ||| ucHasLocoid

/-- The variables of the collection, and the variable `TIME_INFO` of the environment. -/
structure UcStatics (γ τ κ : Type*) where
  ucState : BitVec 32
  ucCameraList : γ
  ucTimeInfo : τ
  ucLocoId : κ
  chmReady : ℕ
  removableSsdReady : ℕ
  env : Option CString

/-- Keep an item whose bit is not set from a message of the right version. -/
def UcStatics.keep {γ τ κ : Type*} (s : UcStatics γ τ κ) (bit : BitVec 32) (version expected : ℕ)
    (copied : UcStatics γ τ κ) : UcStatics γ τ κ :=
  if ¬ Has s.ucState bit ∧ version = expected then { copied with ucState := s.ucState ||| bit } else s

/-- Clear an item which is selected. -/
def UcStatics.clearItem {γ τ κ : Type*} (s : UcStatics γ τ κ) (flag : ℕ) (bit : BitVec 32)
    (zeroed : UcStatics γ τ κ) : UcStatics γ τ κ :=
  if flag ≠ 0 then { zeroed with ucState := s.ucState &&& ~~~bit } else s

/-- A bit and a buffer hold what a latch holds. -/
structure Keeps {α : Type*} [Zero α] (word bit : BitVec 32) (data : α) (held : Option α) : Prop where
  has : Has word bit ↔ held.isSome
  data_eq : data = held.getD 0

/-- With no bit set, an all-zero buffer holds nothing. -/
theorem Keeps.none {α : Type*} [Zero α] (bit : BitVec 32) : Keeps 0 bit (0 : α) none :=
  ⟨iff_of_false (not_has_zero bit) (by simp), rfl⟩

namespace UcStatics

variable {γ τ κ α : Type*} [Zero α] {s : UcStatics γ τ κ} {bit bit' : BitVec 32} {held : Option α}
  (data : UcStatics γ τ κ → α)

/-- What is held is not disturbed by another item which is kept. -/
theorem keeps_keep_other (hbit : ¬ Has bit' bit)
    (hdata : ∀ t w, data { t with ucState := w } = data t) (h : Keeps s.ucState bit (data s) held)
    (version expected : ℕ) {copied : UcStatics γ τ κ} (hcopied : data copied = data s) :
    Keeps (s.keep bit' version expected copied).ucState bit (data (s.keep bit' version expected copied)) held := by
  unfold keep
  split
  · refine ⟨?_, (hdata _ _).trans (hcopied.trans h.data_eq)⟩
    rw [has_or, or_iff_left hbit]
    exact h.has
  · exact h

/-- An item which is selected is cleared. -/
theorem keeps_clearItem (hbit : bit &&& bit = bit)
    (hdata : ∀ t w, data { t with ucState := w } = data t) (h : Keeps s.ucState bit (data s) held)
    (flag : ℕ) {zeroed : UcStatics γ τ κ} (hzeroed : data zeroed = 0) :
    Keeps (s.clearItem flag bit zeroed).ucState bit (data (s.clearItem flag bit zeroed))
      (if flag ≠ 0 then none else held) := by
  unfold clearItem
  split
  · exact ⟨by simp [not_has_clear hbit], (hdata _ _).trans hzeroed⟩
  · exact h

/-- What is held is not disturbed by another item which is cleared. -/
theorem keeps_clearItem_other (hbit : bit' &&& bit = 0)
    (hdata : ∀ t w, data { t with ucState := w } = data t) (h : Keeps s.ucState bit (data s) held)
    (flag : ℕ) {zeroed : UcStatics γ τ κ} (hzeroed : data zeroed = data s) :
    Keeps (s.clearItem flag bit' zeroed).ucState bit (data (s.clearItem flag bit' zeroed)) held := by
  unfold clearItem
  split
  · exact ⟨(has_clear_of_disjoint hbit _).trans h.has, (hdata _ _).trans (hzeroed.trans h.data_eq)⟩
  · exact h

/-- A message of its own kind is latched. -/
theorem keeps_keep (hbit : Has bit bit)
    (hdata : ∀ t w, data { t with ucState := w } = data t) (h : Keeps s.ucState bit (data s) held)
    (version expected : ℕ) {copied : UcStatics γ τ κ} {a : α} (hcopied : data copied = a) :
    Keeps (s.keep bit version expected copied).ucState bit (data (s.keep bit version expected copied))
      (held.or (if version = expected then some a else none)) := by
  unfold keep
  cases held with
  | some b =>
    have hhas : Has s.ucState bit := h.has.mpr rfl
    rw [if_neg fun hcond => hcond.1 hhas]
    exact h
  | none =>
    have hhas : ¬ Has s.ucState bit := fun hhas => nomatch h.has.mp hhas
    by_cases hversion : version = expected
    · rw [if_pos ⟨hhas, hversion⟩, if_pos hversion, Option.none_or]
      exact ⟨by simp [has_or, hbit], (hdata _ _).trans hcopied⟩
    · rw [if_neg fun hcond => hversion hcond.2, if_neg hversion]
      exact h

end UcStatics

variable {γ τ κ : Type*} [Zero γ] [TimeInfoLayout τ] [Zero κ]

/-- The text of the time information in the environment. -/
def tiBuf (api : VideoApi) (data : τ) : CString :=
  "timestamp=".toList ++ Nat.toDigits 10 (TimeInfoLayout.systemTime data) ++ ", time_offset=".toList ++
    signedDigits (TimeInfoLayout.timeOffset data) ++ ", src='".toList ++
    (TimeInfoLayout.timeSource data).take api.timeSourceLength ++ "'".toList

namespace UcStatics

/-- The variables when the program starts. -/
def start : UcStatics γ τ κ := ⟨0, 0, 0, 0, 0, 0, none⟩

variable (api : VideoApi) (s : UcStatics γ τ κ)

/-- The camera list. -/
def ucMsgcbInitCameraList (version : ℕ) (cameraList : γ) : UcStatics γ τ κ :=
  s.keep ucHasCameraList version api.initCameraListMsgVersion { s with ucCameraList := cameraList }

/-- The time information, which is also put into the environment. -/
def ucMsgcbTimeInfo (version : ℕ) (data : τ) : UcStatics γ τ κ :=
  s.keep ucHasTimeInfo version api.timeInfoMsgVersion
    { s with ucTimeInfo := data, env := some (tiBuf api data) }

/-- The locomotive identifier. -/
def ucMsgcbLocomotiveId (version : ℕ) (data : κ) : UcStatics γ τ κ :=
  s.keep ucHasLocoid version api.locomotiveIdMsgVersion { s with ucLocoId := data }

/-- Clear the items which are selected. -/
def ucMsgcbClearUc (version clearCameraList clearTimeoffsetInfo clearLocoidInfo : ℕ) : UcStatics γ τ κ :=
  if version = api.clearUserConfigMsgVersion then
    let s := s.clearItem clearCameraList ucHasCameraList { s with ucCameraList := 0 }
    let s := s.clearItem clearTimeoffsetInfo ucHasTimeInfo { s with ucTimeInfo := 0 }
    s.clearItem clearLocoidInfo ucHasLocoid { s with ucLocoId := 0 }
  else s

/-- The drives which are ready. -/
def ucMsgcbReadyStatus (version chmReady removableSsdReady : ℕ) : UcStatics γ τ κ :=
  if version = api.readyStatusMsgVersion then { s with chmReady, removableSsdReady } else s

/-- The callback of a message, `uc_msg_cb_list`. A heartbeat is answered and leaves the variables alone. -/
def ucMsg : UcMessage γ τ κ → UcStatics γ τ κ
  | .initCameraList version cameraList => s.ucMsgcbInitCameraList api version cameraList
  | .timeInfo version data => s.ucMsgcbTimeInfo api version data
  | .locomotiveId version data => s.ucMsgcbLocomotiveId api version data
  | .clearUserConfig version cameraList timeoffsetInfo locoidInfo =>
    s.ucMsgcbClearUc api version cameraList timeoffsetInfo locoidInfo
  | .heartbeatRequest _ _ => s
  | .readyStatus version chm rssd => s.ucMsgcbReadyStatus api version chm rssd

def ucGetState : BitVec 32 := s.ucState &&& ucMask

def ucIsReady : Bool := s.ucState &&& ucMask == ucMask

end UcStatics

namespace UcMessage

variable (api : VideoApi)

/-- The camera list of a valid message. -/
def cameraList? : UcMessage γ τ κ → Option γ
  | .initCameraList version cameraList => if version = api.initCameraListMsgVersion then some cameraList else none
  | _ => none

/-- The time information of a valid message. -/
def timeInfo? : UcMessage γ τ κ → Option τ
  | .timeInfo version data => if version = api.timeInfoMsgVersion then some data else none
  | _ => none

/-- The locomotive identifier of a valid message. -/
def locomotiveId? : UcMessage γ τ κ → Option κ
  | .locomotiveId version data => if version = api.locomotiveIdMsgVersion then some data else none
  | _ => none

/-- Valid messages which clear the camera list. -/
def clearsCameraList : UcMessage γ τ κ → Bool
  | .clearUserConfig version cameraList _ _ => version = api.clearUserConfigMsgVersion ∧ cameraList ≠ 0
  | _ => false

/-- Valid messages which clear the time information. -/
def clearsTimeInfo : UcMessage γ τ κ → Bool
  | .clearUserConfig version _ timeoffsetInfo _ => version = api.clearUserConfigMsgVersion ∧ timeoffsetInfo ≠ 0
  | _ => false

/-- Valid messages which clear the locomotive identifier. -/
def clearsLocoid : UcMessage γ τ κ → Bool
  | .clearUserConfig version _ _ locoidInfo => version = api.clearUserConfigMsgVersion ∧ locoidInfo ≠ 0
  | _ => false

end UcMessage

namespace UcStatics

variable {api : VideoApi} {s : UcStatics γ τ κ}

/-- One message is one step of the latch of the camera list. -/
theorem cameraList_step (held : Option γ) (m : UcMessage γ τ κ)
    (h : Keeps s.ucState ucHasCameraList s.ucCameraList held) :
    Keeps (s.ucMsg api m).ucState ucHasCameraList (s.ucMsg api m).ucCameraList
      (latchStep (UcMessage.clearsCameraList api) (UcMessage.cameraList? api) held m) := by
  cases m with
  | initCameraList version cameraList =>
    exact keeps_keep ucCameraList (by decide) (fun _ _ => rfl) h _ _ rfl
  | timeInfo version data =>
    rw [latchStep_idle rfl rfl]
    exact keeps_keep_other ucCameraList (by decide) (fun _ _ => rfl) h _ _ rfl
  | locomotiveId version data =>
    rw [latchStep_idle rfl rfl]
    exact keeps_keep_other ucCameraList (by decide) (fun _ _ => rfl) h _ _ rfl
  | clearUserConfig version cameraList timeoffsetInfo locoidInfo =>
    have hlatch : latchStep (UcMessage.clearsCameraList api) (UcMessage.cameraList? api) held
        (.clearUserConfig version cameraList timeoffsetInfo locoidInfo : UcMessage γ τ κ) =
        if version = api.clearUserConfigMsgVersion ∧ cameraList ≠ 0 then none else held := by
      simp [latchStep, UcMessage.clearsCameraList, UcMessage.cameraList?]
    rw [hlatch, ucMsg, ucMsgcbClearUc]
    by_cases hvalid : version = api.clearUserConfigMsgVersion
    · simp only [hvalid, if_true, true_and]
      refine keeps_clearItem_other ucCameraList (by decide) (fun _ _ => rfl) ?_ _ rfl
      refine keeps_clearItem_other ucCameraList (by decide) (fun _ _ => rfl) ?_ _ rfl
      exact keeps_clearItem ucCameraList (by decide) (fun _ _ => rfl) h _ rfl
    · simp only [hvalid, if_false, false_and]
      exact h
  | heartbeatRequest version sequence =>
    rw [latchStep_idle rfl rfl]
    exact h
  | readyStatus version chm rssd =>
    rw [latchStep_idle rfl rfl, ucMsg, ucMsgcbReadyStatus]
    split <;> exact h

/-- One message is one step of the latch of the time information. -/
theorem timeInfo_step (held : Option τ) (m : UcMessage γ τ κ)
    (h : Keeps s.ucState ucHasTimeInfo s.ucTimeInfo held) :
    Keeps (s.ucMsg api m).ucState ucHasTimeInfo (s.ucMsg api m).ucTimeInfo
      (latchStep (UcMessage.clearsTimeInfo api) (UcMessage.timeInfo? api) held m) := by
  cases m with
  | initCameraList version cameraList =>
    rw [latchStep_idle rfl rfl]
    exact keeps_keep_other ucTimeInfo (by decide) (fun _ _ => rfl) h _ _ rfl
  | timeInfo version data =>
    exact keeps_keep ucTimeInfo (by decide) (fun _ _ => rfl) h _ _ rfl
  | locomotiveId version data =>
    rw [latchStep_idle rfl rfl]
    exact keeps_keep_other ucTimeInfo (by decide) (fun _ _ => rfl) h _ _ rfl
  | clearUserConfig version cameraList timeoffsetInfo locoidInfo =>
    have hlatch : latchStep (UcMessage.clearsTimeInfo api) (UcMessage.timeInfo? api) held
        (.clearUserConfig version cameraList timeoffsetInfo locoidInfo : UcMessage γ τ κ) =
        if version = api.clearUserConfigMsgVersion ∧ timeoffsetInfo ≠ 0 then none else held := by
      simp [latchStep, UcMessage.clearsTimeInfo, UcMessage.timeInfo?]
    rw [hlatch, ucMsg, ucMsgcbClearUc]
    by_cases hvalid : version = api.clearUserConfigMsgVersion
    · simp only [hvalid, if_true, true_and]
      refine keeps_clearItem_other ucTimeInfo (by decide) (fun _ _ => rfl) ?_ _ rfl
      refine keeps_clearItem ucTimeInfo (by decide) (fun _ _ => rfl) ?_ _ rfl
      exact keeps_clearItem_other ucTimeInfo (by decide) (fun _ _ => rfl) h _ rfl
    · simp only [hvalid, if_false, false_and]
      exact h
  | heartbeatRequest version sequence =>
    rw [latchStep_idle rfl rfl]
    exact h
  | readyStatus version chm rssd =>
    rw [latchStep_idle rfl rfl, ucMsg, ucMsgcbReadyStatus]
    split <;> exact h

/-- One message is one step of the latch of the locomotive identifier. -/
theorem locomotiveId_step (held : Option κ) (m : UcMessage γ τ κ)
    (h : Keeps s.ucState ucHasLocoid s.ucLocoId held) :
    Keeps (s.ucMsg api m).ucState ucHasLocoid (s.ucMsg api m).ucLocoId
      (latchStep (UcMessage.clearsLocoid api) (UcMessage.locomotiveId? api) held m) := by
  cases m with
  | initCameraList version cameraList =>
    rw [latchStep_idle rfl rfl]
    exact keeps_keep_other ucLocoId (by decide) (fun _ _ => rfl) h _ _ rfl
  | timeInfo version data =>
    rw [latchStep_idle rfl rfl]
    exact keeps_keep_other ucLocoId (by decide) (fun _ _ => rfl) h _ _ rfl
  | locomotiveId version data =>
    exact keeps_keep ucLocoId (by decide) (fun _ _ => rfl) h _ _ rfl
  | clearUserConfig version cameraList timeoffsetInfo locoidInfo =>
    have hlatch : latchStep (UcMessage.clearsLocoid api) (UcMessage.locomotiveId? api) held
        (.clearUserConfig version cameraList timeoffsetInfo locoidInfo : UcMessage γ τ κ) =
        if version = api.clearUserConfigMsgVersion ∧ locoidInfo ≠ 0 then none else held := by
      simp [latchStep, UcMessage.clearsLocoid, UcMessage.locomotiveId?]
    rw [hlatch, ucMsg, ucMsgcbClearUc]
    by_cases hvalid : version = api.clearUserConfigMsgVersion
    · simp only [hvalid, if_true, true_and]
      refine keeps_clearItem ucLocoId (by decide) (fun _ _ => rfl) ?_ _ rfl
      refine keeps_clearItem_other ucLocoId (by decide) (fun _ _ => rfl) ?_ _ rfl
      exact keeps_clearItem_other ucLocoId (by decide) (fun _ _ => rfl) h _ rfl
    · simp only [hvalid, if_false, false_and]
      exact h
  | heartbeatRequest version sequence =>
    rw [latchStep_idle rfl rfl]
    exact h
  | readyStatus version chm rssd =>
    rw [latchStep_idle rfl rfl, ucMsg, ucMsgcbReadyStatus]
    split <;> exact h

omit [Zero γ] [TimeInfoLayout τ] [Zero κ] in
/-- The collection is complete exactly when the bits of all three items are set. -/
theorem ucIsReady_iff : s.ucIsReady = true ↔
    Has s.ucState ucHasCameraList ∧ Has s.ucState ucHasTimeInfo ∧ Has s.ucState ucHasLocoid := by
  rw [ucIsReady, beq_iff_eq, ucMask, and_eq_mask_or, and_eq_mask_or, and_assoc]
  exact and_congr (and_eq_twoPow_iff _ (i := 0) (by decide))
    (and_congr (and_eq_twoPow_iff _ (i := 1) (by decide)) (and_eq_twoPow_iff _ (i := 2) (by decide)))

/-- After any messages each item is what the first valid message of its kind since the last valid clear
brought, all zero if there was none; its bit tells which, and the collection is complete when all bits
are set. -/
theorem collection_latched (api : VideoApi) (messages : List (UcMessage γ τ κ)) :
    let s : UcStatics γ τ κ := run (ucMsg api) start messages
    Keeps s.ucState ucHasCameraList s.ucCameraList
        (latched (UcMessage.clearsCameraList api) (UcMessage.cameraList? api) messages) ∧
      Keeps s.ucState ucHasTimeInfo s.ucTimeInfo
        (latched (UcMessage.clearsTimeInfo api) (UcMessage.timeInfo? api) messages) ∧
      Keeps s.ucState ucHasLocoid s.ucLocoId
        (latched (UcMessage.clearsLocoid api) (UcMessage.locomotiveId? api) messages) ∧
      (s.ucIsReady = true ↔
        Has s.ucState ucHasCameraList ∧ Has s.ucState ucHasTimeInfo ∧ Has s.ucState ucHasLocoid) := by
  intro s
  refine ⟨?_, ?_, ?_, ucIsReady_iff⟩
  · exact run_latched
      (R := fun (s : UcStatics γ τ κ) held => Keeps s.ucState ucHasCameraList s.ucCameraList held)
      (fun _ _ _ h => cameraList_step _ _ h) (Keeps.none _) messages
  · exact run_latched
      (R := fun (s : UcStatics γ τ κ) held => Keeps s.ucState ucHasTimeInfo s.ucTimeInfo held)
      (fun _ _ _ h => timeInfo_step _ _ h) (Keeps.none _) messages
  · exact run_latched
      (R := fun (s : UcStatics γ τ κ) held => Keeps s.ucState ucHasLocoid s.ucLocoId held)
      (fun _ _ _ h => locomotiveId_step _ _ h) (Keeps.none _) messages

end UcStatics

end RecordingAgent.Reagent
