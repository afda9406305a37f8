import Mathlib.Data.List.Find
import RecordingAgent.Reagent.Frame
import RecordingAgent.Reagent.Step

/-!
# Which camera a probe answer is credited to

The receive pass credits an answer to the first configured camera whose home page contains the
answering address anywhere, and notes that camera's hardware address with it. The matching
pass takes an answer for a camera when the address occurs in the camera's home page and the
noted hardware address agrees with the camera's in the first twelve characters. A longer
address contains shorter ones, so an answer can count for the wrong camera, or for none.

A table of cameras is credited rightly for all answers exactly when it is `Unambiguous`.
-/

namespace RecordingAgent.Reagent

open Foundation

/-- An IPv4 address. -/
structure Ipv4 where
  a : Fin 256
  b : Fin 256
  c : Fin 256
  d : Fin 256
  deriving DecidableEq

instance Ipv4.neZero : NeZero 256 := ⟨by decide⟩

/-- The dotted text of an address, `inet_ntoa`. -/
def inetNtoa (ip : Ipv4) : CString :=
  Nat.toDigits 10 ip.a ++ '.' :: (Nat.toDigits 10 ip.b ++ '.' :: (Nat.toDigits 10 ip.c ++ '.' ::
    Nat.toDigits 10 ip.d))

/-- The host in a camera's home page, as `is_camera_available` reads it. -/
def homeHost (homepage : CString) : Option CString :=
  (strstr homepage ['/', '/']).map fun k =>
    (((homepage.drop (k + 2)).take 79).takeWhile (· ≠ '/')).takeWhile (· ≠ ':')

/-- The size of the hardware address in a monitor answer. -/
def macAddrSize : ℕ := 16

/-- The first known camera whose home page contains the address. -/
def creditedTo (known : MediaInfo) (ip : Ipv4) : Option Slot :=
  known.configured.find? fun j => (strstr (known.cameras j).homepage (inetNtoa ip)).isSome

/-- The monitor's entry for an answering address. -/
def creditAnswer (known : MediaInfo) (ip : Ipv4) : CamonStatus :=
  match creditedTo known ip with
  | some j => ⟨inetNtoa ip, (known.cameras j).dispMac.take (macAddrSize - 1), true⟩
  | none => ⟨inetNtoa ip, [], false⟩

/-- The receive pass: the addresses which answered the probe, or without a probe socket the cameras
which accept a connection. -/
def camonPerformRx (sock : Option ℕ) (peers : List Ipv4) (isCameraAvailable : Slot → Bool) (known : MediaInfo) :
    List CamonStatus :=
  match sock with
  | some _ => (peers.take maxCams).map (creditAnswer known)
  | none => (known.configured.filter isCameraAvailable).map fun j =>
    ⟨((homeHost (known.cameras j).homepage).getD []).take 15,
      (known.cameras j).dispMac.take (macAddrSize - 1), true⟩

/-- The addresses agree in the characters the matching pass compares. -/
def SameMac (p q : CamDef) : Prop := strncasecmpEq p.dispMac q.dispMac cameraNameLength = true

namespace Agent

/-- What the matching pass takes as the answer for a camera. -/
def aliveAnswer (s : Agent) (c : Slot) : Bool :=
  match s.statics.camonStatus.findIdx? (·.matches (s.cam c)) with
  | some j => ((s.statics.camonStatus[j]?).map CamonStatus.isAlive).getD false
  | none => false

/-- The agent when the matching pass comes to a camera. -/
def matchingAt (s : Agent) (arp : Slot → Option CString) (c : Slot) : Agent :=
  (s.media.configured.takeWhile (· ≠ c)).foldl (reflectProbe arp)
    { s with statics := { s.statics with passFlag := true } }

/-- Whether the matching pass treats a camera as alive. -/
def treatedAlive (s : Agent) (arp : Slot → Option CString) (c : Slot) : Bool := (s.matchingAt arp c).aliveAnswer c

/-- The matching pass reflects its answer for each assigned camera. -/
theorem reflectProbe_cases (s : Agent) (arp : Slot → Option CString) {c : Slot}
    (h : (s.cam c).runtime.isAssigned = true) :
    (∃ j, s.statics.camonStatus.findIdx? (·.matches (s.cam c)) = some j ∧
      reflectProbe arp s c = (s.reflectCameraOnlineStatus c (s.aliveAnswer c)).2.setCamonAlive j
        (s.reflectCameraOnlineStatus c (s.aliveAnswer c)).1) ∨
      s.statics.camonStatus.findIdx? (·.matches (s.cam c)) = none ∧
        (reflectProbe arp s c = (s.reflectCameraOnlineStatus c (s.aliveAnswer c)).2 ∨
          reflectProbe arp s c = (s.reflectCameraOnlineStatus c (s.aliveAnswer c)).2.lookupAddress c arp) := by
  unfold reflectProbe aliveAnswer
  rw [if_pos h]
  cases hfind : s.statics.camonStatus.findIdx? (·.matches (s.cam c)) with
  | some j => exact Or.inl ⟨j, rfl, rfl⟩
  | none =>
    refine Or.inr ⟨rfl, ?_⟩
    dsimp only
    split
    · exact Or.inr rfl
    · exact Or.inl rfl

/-- What probing reads of the cameras and the monitor's table stays; cameras only get offline or
given up. -/
structure ProbeKept (s s' : Agent) : Prop where
  nCameras : s'.media.nCameras = s.media.nCameras
  homepage : ∀ d, (s'.cam d).homepage = (s.cam d).homepage
  dispMac : ∀ d, (s'.cam d).dispMac = (s.cam d).dispMac
  isAssigned : ∀ d, (s'.cam d).runtime.isAssigned = true → (s.cam d).runtime.isAssigned = true
  isOnline : ∀ d, (s'.cam d).runtime.isOnline = true → (s.cam d).runtime.isOnline = true
  camonStatus : s'.statics.camonStatus = s.statics.camonStatus
  passFlag : s'.statics.passFlag = s.statics.passFlag

namespace ProbeKept

variable {s s' s'' : Agent} {c : Slot}

theorem trans (h : ProbeKept s s') (h' : ProbeKept s' s'') : ProbeKept s s'' where
  nCameras := h'.nCameras.trans h.nCameras
  homepage d := (h'.homepage d).trans (h.homepage d)
  dispMac d := (h'.dispMac d).trans (h.dispMac d)
  isAssigned d hd := h.isAssigned d (h'.isAssigned d hd)
  isOnline d hd := h.isOnline d (h'.isOnline d hd)
  camonStatus := h'.camonStatus.trans h.camonStatus
  passFlag := h'.passFlag.trans h.passFlag

/-- What leaves the media record and the monitor's table alone. -/
theorem of_media (hmedia : s'.media = s.media) (hstatus : s'.statics.camonStatus = s.statics.camonStatus)
    (hflag : s'.statics.passFlag = s.statics.passFlag) : ProbeKept s s' := by
  have hcam : ∀ d, s'.cam d = s.cam d := fun d => by rw [Agent.cam, hmedia, Agent.cam]
  exact ⟨by rw [hmedia], fun d => by rw [hcam], fun d => by rw [hcam], fun d hd => by rwa [hcam] at hd,
    fun d hd => by rwa [hcam] at hd, hstatus, hflag⟩

theorem refl (s : Agent) : ProbeKept s s := of_media rfl rfl rfl

/-- A change of one record which keeps its addresses and puts it neither online nor in use. -/
theorem modifyCam (s : Agent) (f : CamDef → CamDef) (hhomepage : ∀ p, (f p).homepage = p.homepage)
    (hmac : ∀ p, (f p).dispMac = p.dispMac)
    (hassigned : ∀ p, (f p).runtime.isAssigned = true → p.runtime.isAssigned = true)
    (honline : ∀ p, (f p).runtime.isOnline = true → p.runtime.isOnline = true) :
    ProbeKept s (s.modifyCam c f) := by
  have hcam : ∀ d, (s.modifyCam c f).cam d = if d = c then f (s.cam d) else s.cam d := by
    intro d
    by_cases hd : d = c
    · subst hd
      rw [if_pos rfl, cam_modifyCam_self]
    · rw [if_neg hd, cam_modifyCam_of_ne s c hd]
  refine ⟨rfl, fun d => ?_, fun d => ?_, fun d hd => ?_, fun d hd => ?_, rfl, rfl⟩
  · rw [hcam]
    split
    · exact hhomepage _
    · rfl
  · rw [hcam]
    split
    · exact hmac _
    · rfl
  · rw [hcam] at hd
    split at hd
    · exact hassigned _ hd
    · exact hd
  · rw [hcam] at hd
    split at hd
    · exact honline _ hd
    · exact hd

theorem modifyRuntime (s : Agent) (f : CamRuntime → CamRuntime)
    (hassigned : ∀ r, (f r).isAssigned = true → r.isAssigned = true)
    (honline : ∀ r, (f r).isOnline = true → r.isOnline = true) : ProbeKept s (s.modifyRuntime c f) :=
  modifyCam s _ (fun _ => rfl) (fun _ => rfl) (fun _ => hassigned _) (fun _ => honline _)

theorem checkWorkerStatus (s : Agent) (pid : ℕ) : ProbeKept s (s.checkWorkerStatus pid).2 := by
  obtain ⟨hmedia, hstatics, -⟩ := s.checkWorkerStatus_frame pid
  exact of_media hmedia (by rw [hstatics]) (by rw [hstatics])

theorem cameraRecordingJustStopped (s : Agent) : ProbeKept s (s.cameraRecordingJustStopped c) :=
  (modifyCam s CamDef.stopped (fun _ => rfl) (fun _ => rfl) (fun _ => id) (fun _ => id)).trans
    ⟨rfl, fun _ => rfl, fun _ => rfl, fun _ => id, fun _ => id, rfl, rfl⟩

theorem stopRecordingProcess (s : Agent) : ProbeKept s (s.stopRecordingProcess c).2 := by
  unfold Agent.stopRecordingProcess
  dsimp only
  split
  · have hstopped : ProbeKept s (((s.terminate (s.cam c).workerPid).cameraRecordingJustStopped c).modifyCam c
        fun p => { p with workerPid := 0 }) :=
      ((of_media rfl rfl rfl : ProbeKept s (s.terminate _)).trans (cameraRecordingJustStopped _)).trans
        (modifyCam _ (fun p => { p with workerPid := 0 }) (fun _ => rfl) (fun _ => rfl) (fun _ => id) (fun _ => id))
    split
    · exact hstopped.trans (of_media rfl rfl rfl)
    · exact hstopped
  · exact refl s

theorem launchWorker (s : Agent) (cid : Slot) : ProbeKept s (s.launchWorker c cid).2 := by
  unfold Agent.launchWorker
  by_cases hlaunch : (s.cam c).runtime.isAssigned = true ∧ (s.cam c).workerPid = 0
  · simp only [if_pos hlaunch]
    have hstatics : (s.spawnProcess c (raconfPrepareForRecording s.media (s.cam c))).2.statics = s.statics := by
      unfold spawnProcess
      split <;> rfl
    have hmedia : (s.spawnProcess c (raconfPrepareForRecording s.media (s.cam c))).2.media = s.media := by
      unfold spawnProcess
      split <;> rfl
    rcases hspawn : s.spawnProcess c (raconfPrepareForRecording s.media (s.cam c)) with ⟨_ | pid, t⟩ <;>
      rw [hspawn] at hstatics hmedia
    · have hkept : ProbeKept s (t.setRetry cid (t.statics.retryCount cid + 1)) :=
        of_media hmedia (congrArg Statics.camonStatus hstatics : t.statics.camonStatus = _)
          (congrArg Statics.passFlag hstatics : t.statics.passFlag = _)
      exact hkept.trans (of_media rfl rfl rfl)
    · have hspawned : ProbeKept s (t.setRetry cid 0) :=
        of_media hmedia (congrArg Statics.camonStatus hstatics : t.statics.camonStatus = _)
          (congrArg Statics.passFlag hstatics : t.statics.passFlag = _)
      have hstarted : ProbeKept (t.setRetry cid 0) ((t.setRetry cid 0).modifyCam c fun p => { p with
          workerPid := pid
          runtime := { p.runtime with recordingStatusFlags := recordingStatus p.runtime.recordingModeFlags } }) :=
        modifyCam _ _ (fun _ => rfl) (fun _ => rfl) (fun _ => id) (fun _ => id)
      have hreported : ProbeKept s ((t.setRetry cid 0).workerStarted c pid) := by
        refine (hspawned.trans hstarted).trans ?_
        unfold workerStarted
        dsimp only
        split
        · exact ⟨rfl, fun _ => rfl, fun _ => rfl, fun _ => id, fun _ => id, rfl, rfl⟩
        · exact ⟨rfl, fun _ => rfl, fun _ => rfl, fun _ => id, fun _ => id, rfl, rfl⟩
      exact hreported.trans (of_media rfl rfl rfl)
  · simp only [if_neg hlaunch]
    exact of_media rfl rfl rfl

theorem setMode (s : Agent) (mode : Flags) : ProbeKept s (s.setMode c mode) :=
  modifyRuntime s _ (fun _ => id) (fun _ => id)

theorem startRecordingProcess (s : Agent) : ProbeKept s (s.startRecordingProcess c).2 := by
  unfold Agent.startRecordingProcess
  dsimp only
  split
  · exact modifyRuntime s (fun r => { r with isAssigned := false }) (fun _ h => absurd h Bool.false_ne_true)
      (fun _ => id)
  · have hmode : ProbeKept s (s.setMode c (recordingMode (s.cam c))) := setMode s _
    split
    · split
      · exact hmode.trans (of_media rfl rfl rfl)
      · split
        · exact (hmode.trans (setMode _ _)).trans (launchWorker _ _)
        · exact hmode.trans (launchWorker _ _)
    · exact hmode.trans (of_media rfl rfl rfl)

theorem respects (c : Slot) : Respects c ProbeKept where
  refl := refl
  trans := trans
  checkWorkerStatus := checkWorkerStatus
  startRecordingProcess := startRecordingProcess
  stopRecordingProcess := stopRecordingProcess
  setCamonTtl _ _ := of_media rfl rfl rfl
  setRpTtl _ _ := of_media rfl rfl rfl
  cleared s _ := modifyRuntime s clearRecordingStatus (fun _ => id) (fun _ => id)
  lost s := (modifyCam s (fun p => { p with workerPid := 0 }) (fun _ => rfl) (fun _ => rfl) (fun _ => id)
    (fun _ => id)).trans (cameraRecordingJustStopped _)
  died s := (modifyCam s (fun p => { p with
    workerPid := 0, runtime := { p.runtime with isOnline := false } }) (fun _ => rfl) (fun _ => rfl) (fun _ => id)
    (fun _ h => absurd h Bool.false_ne_true)).trans (cameraRecordingJustStopped _)

theorem reflectOffline (s : Agent) : ProbeKept s (s.reflectOffline c) := (respects c).reflectOffline s

theorem reflectOnline (s : Agent) : ProbeKept s (s.reflectOnline c) := (respects c).reflectOnline s

theorem restartCamera (s : Agent) (c : Slot) : ProbeKept s (Agent.restartCamera s c) := (respects c).restartCamera s

/-- The restart half leaves what probing reads. -/
theorem restartPass (s : Agent) : ProbeKept s s.restartPass := by
  have hloop : ProbeKept s (s.media.configured.foldl Agent.restartCamera s) :=
    foldl_invariant (I := ProbeKept s) (refl s) fun t c _ ht => ht.trans (restartCamera t c)
  exact hloop.trans (of_media rfl rfl rfl)

end ProbeKept

/-- The online check leaves the monitor's table. -/
theorem reflectCameraOnlineStatus_camonStatus (s : Agent) (c : Slot) (isAlive : Bool) :
    (s.reflectCameraOnlineStatus c isAlive).2.statics.camonStatus = s.statics.camonStatus := by
  unfold reflectCameraOnlineStatus
  have hfirst : (if isAlive then s.setCamonTtl c camonTtlStart else s).statics.camonStatus =
      s.statics.camonStatus := by
    split <;> rfl
  generalize (if isAlive then s.setCamonTtl c camonTtlStart else s) = t at hfirst ⊢
  dsimp only
  split
  · exact hfirst
  · split
    · exact hfirst
    · have hsecond : (if isAlive then t.reflectOnline c else t.reflectOffline c).statics.camonStatus =
          t.statics.camonStatus := by
        split
        · exact (ProbeKept.reflectOnline t).camonStatus
        · exact (ProbeKept.reflectOffline t).camonStatus
      generalize (if isAlive then t.reflectOnline c else t.reflectOffline c) = u at hsecond ⊢
      split
      · exact hsecond.trans hfirst
      · exact hsecond.trans hfirst

/-- A camera which was offline is found newly alive. -/
theorem reflectCameraOnlineStatus_offline {s : Agent} {c : Slot} (h : (s.cam c).runtime.isOnline = false) :
    (s.reflectCameraOnlineStatus c true).1 = true := by
  have hkept := ProbeKept.reflectOnline (c := c) (s.setCamonTtl c camonTtlStart)
  have hoffline : ((s.setCamonTtl c camonTtlStart).cam c).runtime.isOnline = false := h
  have hoffline' : (((s.setCamonTtl c camonTtlStart).reflectOnline c).cam c).runtime.isOnline = false := by
    by_contra honline
    rw [hkept.isOnline c (Bool.of_not_eq_false honline)] at hoffline
    cases hoffline
  unfold reflectCameraOnlineStatus
  simp [hoffline, hoffline']

/-- Looking up an address leaves the monitor's table. -/
theorem lookupAddress_camonStatus (s : Agent) (c : Slot) (arp : Slot → Option CString) :
    (s.lookupAddress c arp).statics.camonStatus = s.statics.camonStatus := by
  unfold lookupAddress
  dsimp only
  split
  · split <;> rfl
  · rfl

/-- The agent's cameras are those of the table, as far as probing reads them. -/
structure HasTable (m : MediaInfo) (s : Agent) : Prop where
  nCameras : s.media.nCameras = m.nCameras
  homepage : ∀ i, i.val < m.nCameras → (s.cam i).homepage = (m.cameras i).homepage
  dispMac : ∀ i, i.val < m.nCameras → (s.cam i).dispMac = (m.cameras i).dispMac
  isAssigned : ∀ i, i.val < m.nCameras → (s.cam i).runtime.isAssigned = true →
    (m.cameras i).runtime.isAssigned = true

theorem HasTable.kept {m : MediaInfo} {s s' : Agent} (h : HasTable m s) (hkept : ProbeKept s s') : HasTable m s' where
  nCameras := hkept.nCameras.trans h.nCameras
  homepage i hi := (hkept.homepage i).trans (h.homepage i hi)
  dispMac i hi := (hkept.dispMac i).trans (h.dispMac i hi)
  isAssigned i hi hd := h.isAssigned i hi (hkept.isAssigned i hd)

theorem HasTable.configured {m : MediaInfo} {s : Agent} (h : HasTable m s) : s.media.configured = m.configured := by
  rw [MediaInfo.configured, MediaInfo.configured, h.nCameras]

/-- Answers are credited by the table. -/
theorem HasTable.creditedTo {m : MediaInfo} {s : Agent} (h : HasTable m s) (ip : Ipv4) :
    creditedTo s.media ip = creditedTo m ip := by
  unfold Reagent.creditedTo
  rw [h.configured]
  refine List.find?_congr fun j hj => ?_
  have hhomepage : (s.media.cameras j).homepage = (m.cameras j).homepage :=
    h.homepage j (by simpa using hj)
  rw [hhomepage]

theorem HasTable.creditAnswer {m : MediaInfo} {s : Agent} (h : HasTable m s) (ip : Ipv4) :
    creditAnswer s.media ip = creditAnswer m ip := by
  unfold Reagent.creditAnswer
  rw [h.creditedTo]
  cases hcredit : Reagent.creditedTo m ip with
  | none => rfl
  | some j =>
    have hj : j.val < m.nCameras := by
      simpa using List.mem_of_find?_eq_some hcredit
    have hmac : (s.media.cameras j).dispMac = (m.cameras j).dispMac := h.dispMac j hj
    dsimp only
    rw [hmac]

/-- The camera matches an answer as its entry in the table does. -/
theorem HasTable.matches {m : MediaInfo} {s : Agent} (h : HasTable m s) {c : Slot} (hc : c.val < m.nCameras)
    (st : CamonStatus) : st.matches (s.cam c) = st.matches (m.cameras c) := by
  unfold CamonStatus.matches
  rw [h.homepage c hc, h.dispMac c hc]

end Agent

/-- An answer whose address occurs in the camera's home page matches the camera when it was credited to
one with the same hardware address. -/
theorem creditAnswer_matches {m : MediaInfo} {c : Slot} (hc : c.val < m.nCameras) (ip : Ipv4) :
    (creditAnswer m ip).matches (m.cameras c) = true ↔
      (strstr (m.cameras c).homepage (inetNtoa ip)).isSome = true ∧
        ∃ j, creditedTo m ip = some j ∧ SameMac (m.cameras c) (m.cameras j) := by
  have hip : (creditAnswer m ip).ipAddr = inetNtoa ip := by
    unfold creditAnswer
    split <;> rfl
  rw [CamonStatus.matches, hip, Bool.and_eq_true]
  refine and_congr_right fun hcontains => ?_
  have hcredited : (creditedTo m ip).isSome = true := by
    rw [creditedTo, List.find?_isSome]
    exact ⟨c, by simpa using hc, hcontains⟩
  obtain ⟨j, hj⟩ := Option.isSome_iff_exists.mp hcredited
  have hmac : (creditAnswer m ip).macAddr = (m.cameras j).dispMac.take (macAddrSize - 1) := by
    unfold creditAnswer
    rw [hj]
  have htake : ∀ a b : CString, strncasecmpEq a (b.take (macAddrSize - 1)) cameraNameLength =
      strncasecmpEq a b cameraNameLength := by
    intro a b
    rw [strncasecmpEq, strncasecmpEq, List.take_take]
    rfl
  rw [hmac, htake]
  constructor
  · intro hsame
    exact ⟨j, hj, hsame⟩
  · rintro ⟨j', hj', hsame⟩
    obtain rfl := Option.some.inj (hj.symm.trans hj')
    exact hsame

/-- Every assigned camera's own address is credited to a camera with its hardware address, and every
other address in its home page to one with another hardware address. -/
structure Unambiguous (m : MediaInfo) (addr : Slot → Ipv4) : Prop where
  own : ∀ c : Slot, c.val < m.nCameras → (m.cameras c).runtime.isAssigned = true →
    ∀ j, creditedTo m (addr c) = some j → SameMac (m.cameras c) (m.cameras j)
  foreign : ∀ c : Slot, c.val < m.nCameras → (m.cameras c).runtime.isAssigned = true →
    ∀ ip, ip ≠ addr c → (strstr (m.cameras c).homepage (inetNtoa ip)).isSome = true →
      ∀ j, creditedTo m ip = some j → ¬ SameMac (m.cameras c) (m.cameras j)

/-- Every assigned camera has this address as the host of its home page. -/
def HomeAddresses (m : MediaInfo) (addr : Slot → Ipv4) : Prop :=
  ∀ c : Slot, c.val < m.nCameras → (m.cameras c).runtime.isAssigned = true →
    homeHost (m.cameras c).homepage = some (inetNtoa (addr c))

/-- The host occurs in the home page. -/
theorem strstr_homeHost {homepage host : CString} (h : homeHost homepage = some host) :
    (strstr homepage host).isSome = true := by
  obtain ⟨k, -, rfl⟩ := Option.map_eq_some_iff.mp h
  rw [strstr_isSome_iff]
  calc (((homepage.drop (k + 2)).take 79).takeWhile (· ≠ '/')).takeWhile (· ≠ ':')
      <:+: ((homepage.drop (k + 2)).take 79).takeWhile (· ≠ '/') := (List.takeWhile_prefix _).isInfix
    _ <:+: (homepage.drop (k + 2)).take 79 := (List.takeWhile_prefix _).isInfix
    _ <:+: homepage.drop (k + 2) := (List.take_prefix _ _).isInfix
    _ <:+: homepage := (List.drop_suffix _ _).isInfix

/-- In an unambiguous table the answers which match a camera are those from its address. -/
theorem Unambiguous.matches_iff {m : MediaInfo} {addr : Slot → Ipv4} (h : Unambiguous m addr)
    (hhome : HomeAddresses m addr) {c : Slot} (hc : c.val < m.nCameras)
    (hassigned : (m.cameras c).runtime.isAssigned = true) (ip : Ipv4) :
    (creditAnswer m ip).matches (m.cameras c) = true ↔ ip = addr c := by
  rw [creditAnswer_matches hc]
  constructor
  · rintro ⟨hcontains, j, hj, hsame⟩
    by_contra hother
    exact h.foreign c hc hassigned ip hother hcontains j hj hsame
  · rintro rfl
    have hcontains := strstr_homeHost (hhome c hc hassigned)
    have hcredited : (creditedTo m (addr c)).isSome = true := by
      rw [creditedTo, List.find?_isSome]
      exact ⟨c, by simpa using hc, hcontains⟩
    obtain ⟨j, hj⟩ := Option.isSome_iff_exists.mp hcredited
    exact ⟨hcontains, j, hj, h.own c hc hassigned j hj⟩

/-- What the matching pass compares of an answer. -/
def CamonStatus.key (st : CamonStatus) : CString × CString := (st.ipAddr, st.macAddr)

theorem CamonStatus.matches_of_key {st st' : CamonStatus} (h : st.key = st'.key) (p : CamDef) :
    st.matches p = st'.matches p := by
  obtain ⟨hip, hmac⟩ := Prod.mk.inj h
  rw [CamonStatus.matches, hip, hmac, CamonStatus.matches]

namespace Agent

/-- The monitor's table lists the answers in order, but the cameras seen may have changed which of them
count as alive. -/
def TableKeys (m : MediaInfo) (peers : List Ipv4) (s : Agent) : Prop :=
  ∀ j : ℕ, (s.statics.camonStatus[j]?).map CamonStatus.key = (peers[j]?).map fun ip => (creditAnswer m ip).key

theorem TableKeys.of_eq {m : MediaInfo} {peers : List Ipv4} {s : Agent}
    (h : s.statics.camonStatus = peers.map (creditAnswer m)) : TableKeys m peers s := by
  intro j
  rw [h, List.getElem?_map, Option.map_map]
  rfl

/-- An answer found in the table is one of the addresses. -/
theorem TableKeys.peer {m : MediaInfo} {peers : List Ipv4} {s : Agent} (h : TableKeys m peers s) {p : CamDef} {j : ℕ}
    (hfind : s.statics.camonStatus.findIdx? (·.matches p) = some j) :
    ∃ ip, peers[j]? = some ip ∧ (creditAnswer m ip).matches p = true := by
  obtain ⟨hj, hmatch, -⟩ := List.findIdx?_eq_some_iff_getElem.mp hfind
  have hkey := h j
  rw [List.getElem?_eq_getElem hj, Option.map_some] at hkey
  obtain ⟨ip, hip, hkey⟩ := Option.map_eq_some_iff.mp hkey.symm
  exact ⟨ip, hip, (CamonStatus.matches_of_key hkey p).trans hmatch⟩

/-- When no answer in the table matches, no answer from the addresses does. -/
theorem TableKeys.no_peer {m : MediaInfo} {peers : List Ipv4} {s : Agent} (h : TableKeys m peers s) {p : CamDef}
    (hfind : s.statics.camonStatus.findIdx? (·.matches p) = none) {ip : Ipv4} (hip : ip ∈ peers) :
    (creditAnswer m ip).matches p = false := by
  obtain ⟨j, hj⟩ := List.mem_iff_getElem?.mp hip
  have hkey := h j
  rw [hj, Option.map_some] at hkey
  obtain ⟨st, hst, hkey⟩ := Option.map_eq_some_iff.mp hkey
  rw [← CamonStatus.matches_of_key hkey p]
  exact List.findIdx?_eq_none_iff.mp hfind st (List.mem_of_getElem? hst)

/-- What the matching pass does to the table when it comes to one camera. -/
theorem reflectProbe_table (arp : Slot → Option CString) (s : Agent) (d : Slot) :
    (reflectProbe arp s d).statics.camonStatus = s.statics.camonStatus ∨
      (s.cam d).runtime.isAssigned = true ∧ ∃ j alive,
        s.statics.camonStatus.findIdx? (·.matches (s.cam d)) = some j ∧
        (reflectProbe arp s d).statics.camonStatus =
          s.statics.camonStatus.modify j fun st => { st with isAlive := alive } := by
  by_cases hassigned : (s.cam d).runtime.isAssigned = true
  · have hreflect := s.reflectCameraOnlineStatus_camonStatus d (s.aliveAnswer d)
    rcases s.reflectProbe_cases arp hassigned with ⟨j, hfind, heq⟩ | ⟨-, heq | heq⟩
    · refine Or.inr ⟨hassigned, j, (s.reflectCameraOnlineStatus d (s.aliveAnswer d)).1, hfind, ?_⟩
      rw [heq, setCamonAlive, hreflect]
    · left
      rw [heq, hreflect]
    · left
      rw [heq, lookupAddress_camonStatus, hreflect]
  · left
    unfold reflectProbe
    rw [if_neg hassigned]

/-- The matching pass keeps the keys of the table. -/
theorem TableKeys.reflectProbe {m : MediaInfo} {peers : List Ipv4} {s : Agent} (h : TableKeys m peers s)
    (arp : Slot → Option CString) (d : Slot) : TableKeys m peers (reflectProbe arp s d) := by
  rcases s.reflectProbe_table arp d with hsame | ⟨-, j, alive, -, htable⟩
  · unfold TableKeys
    rw [hsame]
    exact h
  · intro k
    rw [htable, List.getElem?_modify, ← h k]
    cases s.statics.camonStatus[k]? with
    | none => rfl
    | some st => by_cases hk : j = k <;> simp [hk, CamonStatus.key]

/-- While the matching pass is before a camera, its record is as it was. -/
theorem matchingAt_invariant (arp : Slot → Option CString) (c : Slot) {I : Agent → Prop} {s : Agent}
    (hinit : I { s with statics := { s.statics with passFlag := true } })
    (hbody : ∀ t d, d.val < s.media.nCameras → d ≠ c → t.cam d = s.cam d → I t → I (reflectProbe arp t d)) :
    I (s.matchingAt arp c) ∧ (s.matchingAt arp c).cam c = s.cam c := by
  have hbefore : ∀ d ∈ s.media.configured.takeWhile (· ≠ c), d.val < s.media.nCameras ∧ d ≠ c := by
    intro d hd
    refine ⟨by simpa using (List.takeWhile_sublist _).subset hd, ?_⟩
    simpa using List.mem_takeWhile_imp hd
  have hnodup : (s.media.configured.takeWhile (· ≠ c)).Nodup :=
    s.media.nodup_configured.sublist (List.takeWhile_sublist _)
  constructor
  · refine foldl_invariant_of_nodup (I := I) (fun d t => t.cam d = s.cam d) hnodup hinit (fun _ _ => rfl) ?_ ?_
    · exact fun t d hd ht hknown => hbody t d (hbefore d hd).1 (hbefore d hd).2 hknown ht
    · exact fun t e _ d hde hknown => ((Frame.reflectProbe arp t).cam d hde).trans hknown
  · refine foldl_invariant (I := fun t : Agent => t.cam c = s.cam c) rfl fun t d hd ht => ?_
    exact ((Frame.reflectProbe arp t).cam c (hbefore d hd).2.symm).trans ht

/-- In an unambiguous table the matching pass treats a camera as alive when its address answered. -/
theorem treatedAlive_iff {m : MediaInfo} {addr : Slot → Ipv4} (h : Unambiguous m addr)
    (hhome : HomeAddresses m addr) (hdistinct : ∀ c d : Slot, c.val < m.nCameras → d.val < m.nCameras →
      (m.cameras c).runtime.isAssigned = true → (m.cameras d).runtime.isAssigned = true → addr c = addr d → c = d)
    {s : Agent} (hs : HasTable m s) {peers : List Ipv4}
    (htable : s.statics.camonStatus = peers.map (creditAnswer m)) (arp : Slot → Option CString) {c : Slot}
    (hc : c.val < m.nCameras) (hassigned : (s.cam c).runtime.isAssigned = true) :
    s.treatedAlive arp c = true ↔ addr c ∈ peers := by
  have hassigned' := hs.isAssigned c hc hassigned
  have hmatches : ∀ d, d.val < m.nCameras → (s.cam d).runtime.isAssigned = true → ∀ ip,
      (creditAnswer m ip).matches (s.cam d) = true ↔ ip = addr d := by
    intro d hd hd' ip
    rw [hs.matches hd]
    exact h.matches_iff hhome hd (hs.isAssigned d hd hd') ip
  -- the entries from the camera's own address stay as they are until the pass comes to it
  obtain ⟨⟨hkeys, hown⟩, hcam⟩ := matchingAt_invariant arp c (s := s)
    (I := fun t => TableKeys m peers t ∧
      ∀ j : ℕ, peers[j]? = some (addr c) → t.statics.camonStatus[j]? = some (creditAnswer m (addr c)))
    ⟨.of_eq htable, fun j hj => by
      change s.statics.camonStatus[j]? = _
      rw [htable, List.getElem?_map, hj, Option.map_some]⟩
    (by
      rintro t d hd hdc hknown ⟨hkeys, hown⟩
      rw [hs.nCameras] at hd
      refine ⟨hkeys.reflectProbe arp d, fun j hj => ?_⟩
      rcases t.reflectProbe_table arp d with hsame | ⟨hd', k, alive, hfind, hmodified⟩
      · rw [hsame]
        exact hown j hj
      · rw [hknown] at hd' hfind
        obtain ⟨ip, hip, hmatch⟩ := hkeys.peer hfind
        have hkj : k ≠ j := by
          rintro rfl
          obtain rfl := Option.some.inj (hip.symm.trans hj)
          exact hdc (hdistinct d c hd hc (hs.isAssigned d hd hd') hassigned' ((hmatches d hd hd' _).mp hmatch).symm)
        rw [hmodified, List.getElem?_modify, hown j hj]
        simp [hkj])
  unfold treatedAlive aliveAnswer
  rw [hcam]
  cases hfind : (s.matchingAt arp c).statics.camonStatus.findIdx? (·.matches (s.cam c)) with
  | none =>
    simp only [Bool.false_eq_true, false_iff]
    intro hmem
    have hnone := hkeys.no_peer hfind hmem
    rw [(hmatches c hc hassigned _).mpr rfl] at hnone
    cases hnone
  | some j =>
    obtain ⟨ip, hip, hmatch⟩ := hkeys.peer hfind
    obtain rfl := (hmatches c hc hassigned ip).mp hmatch
    have halive : (creditAnswer m (addr c)).isAlive = true := by
      obtain ⟨-, k, hk, -⟩ := (creditAnswer_matches hc _).mp ((hs.matches hc _).symm.trans hmatch)
      rw [creditAnswer, hk]
    simp only [hown j hip, Option.map_some, halive, Option.getD_some, true_iff]
    exact List.mem_of_getElem? hip

/-- A timer pass which collects answers leaves them in the monitor's table. -/
theorem timerCallback_collects {s : Agent} (hflag : s.statics.passFlag = true) (answers : List CamonStatus)
    (arp : Slot → Option CString) :
    (∃ t : Agent, t.media = s.media ∧ ProbeKept t (s.timerCallback answers arp)) ∧
      (s.timerCallback answers arp).statics.camonStatus = answers.take maxCams := by
  have hcollect : s.camonPass answers arp = { s with statics := { s.statics with
      camonStatus := answers.take maxCams, passFlag := false } } := by
    unfold camonPass
    rw [if_neg (by simp [hflag])]
  have hkept := ProbeKept.restartPass (s.camonPass answers arp)
  refine ⟨⟨s.camonPass answers arp, by rw [hcollect], hkept⟩, ?_⟩
  have htable := hkept.camonStatus
  rw [hcollect] at htable
  unfold timerCallback
  rw [hcollect]
  exact htable

@[simp] theorem withAnswers_cam (s : Agent) (forks deaths : List Bool) (c : Slot) :
    (s.withAnswers forks deaths).cam c = s.cam c := rfl

/-- The agent after a timer pass in which the addresses answered the probe. -/
def answersCredited (s : Agent) (peers : List Ipv4) (isCameraAvailable : Slot → Bool)
    (arp : Slot → Option CString) (forks deaths : List Bool) : Agent :=
  s.step ⟨.timer (camonPerformRx s.media.camonSock peers isCameraAvailable s.media) arp, forks, deaths⟩

/-- The receive pass and the matching pass after it treat the assigned cameras of the table as alive
exactly when their addresses answered. -/
def CreditsRightly (m : MediaInfo) (addr : Slot → Ipv4) : Prop :=
  ∀ s : Agent, s.Reachable → HasTable m s → s.statics.ptcActive = true → s.statics.passFlag = true →
    s.media.camonSock ≠ none → ∀ peers : List Ipv4, peers.Nodup → peers.length ≤ maxCams →
    ∀ isCameraAvailable arp forks deaths arp' forks' deaths', ∀ c : Slot, c.val < m.nCameras →
      ((s.answersCredited peers isCameraAvailable arp forks deaths).cam c).runtime.isAssigned = true →
      ((((s.answersCredited peers isCameraAvailable arp forks deaths).withAnswers forks' deaths').treatedAlive arp' c
          = true) ↔ addr c ∈ peers)

/-- The agent after the receive pass has the credited answers in its table. -/
theorem answersCredited_table {m : MediaInfo} {s : Agent} (hs : HasTable m s) (hactive : s.statics.ptcActive = true)
    (hflag : s.statics.passFlag = true) (hsock : s.media.camonSock ≠ none) {peers : List Ipv4}
    (hlength : peers.length ≤ maxCams) (isCameraAvailable : Slot → Bool) (arp : Slot → Option CString)
    (forks deaths : List Bool) :
    HasTable m (s.answersCredited peers isCameraAvailable arp forks deaths) ∧
      (s.answersCredited peers isCameraAvailable arp forks deaths).statics.camonStatus =
        peers.map (creditAnswer m) := by
  obtain ⟨sock, hsock'⟩ := Option.ne_none_iff_exists'.mp hsock
  have hanswers : camonPerformRx s.media.camonSock peers isCameraAvailable s.media = peers.map (creditAnswer m) := by
    rw [hsock', camonPerformRx, List.take_of_length_le hlength]
    exact List.map_congr_left fun ip _ => hs.creditAnswer ip
  have hstep : s.answersCredited peers isCameraAvailable arp forks deaths =
      (s.withAnswers forks deaths).timerCallback (peers.map (creditAnswer m)) arp := by
    rw [answersCredited, hanswers]
    exact if_pos hactive
  rw [hstep]
  obtain ⟨⟨t, hmedia, hkept⟩, htable⟩ := timerCallback_collects (s := s.withAnswers forks deaths) hflag
    (peers.map (creditAnswer m)) arp
  refine ⟨HasTable.kept ⟨?_, fun i hi => ?_, fun i hi => ?_, fun i hi hassigned => ?_⟩ hkept, ?_⟩
  · rw [hmedia]
    exact hs.nCameras
  · rw [cam, hmedia]
    exact hs.homepage i hi
  · rw [cam, hmedia]
    exact hs.dispMac i hi
  · rw [cam, hmedia] at hassigned
    exact hs.isAssigned i hi hassigned
  · rw [htable, List.take_of_length_le (by rw [List.length_map]; exact hlength)]

/-- What is treated as alive matches an answer from one of the addresses. -/
theorem treatedAlive_answer {m : MediaInfo} {s : Agent} {peers : List Ipv4}
    (htable : s.statics.camonStatus = peers.map (creditAnswer m)) {arp : Slot → Option CString} {c : Slot}
    (h : s.treatedAlive arp c = true) : ∃ ip ∈ peers, (creditAnswer m ip).matches (s.cam c) = true := by
  obtain ⟨hkeys, hcam⟩ := matchingAt_invariant arp c (I := TableKeys m peers)
    (s := s) (.of_eq htable) fun t d _ _ _ hkeys => hkeys.reflectProbe arp d
  unfold treatedAlive aliveAnswer at h
  rw [hcam] at h
  split at h
  · rename_i j hfind
    obtain ⟨ip, hip, hmatch⟩ := hkeys.peer hfind
    exact ⟨ip, List.mem_of_getElem? hip, hmatch⟩
  · cases h

/-- While every camera is offline, one which matches the only answer is treated as alive. -/
theorem treatedAlive_of_offline {m : MediaInfo} {s : Agent} (hoffline : ∀ d, (s.cam d).runtime.isOnline = false)
    {ip : Ipv4} (htable : s.statics.camonStatus = [creditAnswer m ip]) (halive : (creditAnswer m ip).isAlive = true)
    (arp : Slot → Option CString) {c : Slot} (hmatch : (creditAnswer m ip).matches (s.cam c) = true) :
    s.treatedAlive arp c = true := by
  have hanswer : ∀ t : Agent, t.statics.camonStatus = [creditAnswer m ip] → ∀ d,
      (creditAnswer m ip).matches (t.cam d) = true → t.aliveAnswer d = true := by
    intro t ht d hd
    unfold aliveAnswer
    rw [ht]
    simp [List.findIdx?_cons, hd, halive]
  obtain ⟨hkept, hcam⟩ := matchingAt_invariant arp c (s := s)
    (I := fun t => t.statics.camonStatus = [creditAnswer m ip]) htable fun t d _ _ hknown ht => by
      rcases Bool.eq_false_or_eq_true (t.cam d).runtime.isAssigned with hassigned | hassigned
      · rcases t.reflectProbe_cases arp hassigned with ⟨k, hfind, heq⟩ | ⟨-, heq | heq⟩
        · -- the camera was offline, so the answer still counts for the next one
          rw [ht] at hfind
          obtain ⟨hk, hfound, -⟩ := List.findIdx?_eq_some_iff_getElem.mp hfind
          obtain rfl : k = 0 := by simpa using hk
          have hreflected := reflectCameraOnlineStatus_offline (s := t) (c := d) (by rw [hknown]; exact hoffline d)
          rw [heq, hanswer t ht d hfound, setCamonAlive, hreflected]
          change (t.reflectCameraOnlineStatus d true).2.statics.camonStatus.modify 0 _ = _
          rw [reflectCameraOnlineStatus_camonStatus, ht, ← halive]
          rfl
        · rw [heq, reflectCameraOnlineStatus_camonStatus, ht]
        · rw [heq, lookupAddress_camonStatus, reflectCameraOnlineStatus_camonStatus, ht]
      · unfold reflectProbe
        rw [if_neg (by simp [hassigned]), ht]
  exact hanswer _ hkept c (by rw [hcam]; exact hmatch)

section Quiet

/-- No camera is online or commanded to record. -/
def AllQuiet (s : Agent) : Prop :=
  ∀ d, (s.cam d).runtime.isOnline = false ∧ (s.cam d).runtime.recordingModeFlags = 0

/-- Where no camera is commanded to record, the restart half changes nothing but the helpers. -/
theorem AllQuiet.restartPass {s : Agent} (h : s.AllQuiet) :
    s.restartPass.media = s.media ∧ s.restartPass.statics = s.statics := by
  have hloop : s.media.configured.foldl restartCamera s = s :=
    foldl_invariant (I := fun t => t = s) rfl fun t c _ ht => by
      subst ht
      unfold restartCamera
      simp [(h c).2]
  unfold Agent.restartPass
  rw [hloop]
  exact ⟨rfl, rfl⟩

/-- Without answers and lookups, the matching pass changes no quiet camera. -/
theorem AllQuiet.sends {s : Agent} (h : s.AllQuiet) (hflag : s.statics.passFlag = false)
    (hempty : s.statics.camonStatus = []) (answers : List CamonStatus) :
    (s.timerCallback answers fun _ => none).media = s.media ∧
      (s.timerCallback answers fun _ => none).statics.passFlag = true ∧
      (s.timerCallback answers fun _ => none).statics.ptcActive = s.statics.ptcActive := by
  let looped := s.media.configured.foldl (reflectProbe fun _ => none)
    { s with statics := { s.statics with passFlag := true } }
  let I : Agent → Prop := fun t => t.media = s.media ∧ t.statics.camonStatus = [] ∧
    t.statics.passFlag = true ∧ t.statics.ptcActive = s.statics.ptcActive
  have hlookup : ∀ t c, I t → I (lookupAddress t c fun _ => none) := by
    intro t c ht
    unfold lookupAddress
    dsimp only
    split <;> exact ht
  have hloop : I looped := by
    refine foldl_invariant (I := I) ⟨rfl, hempty, rfl, rfl⟩ fun t c _ ht => ?_
    have hoffline : (t.cam c).runtime.isOnline = false := by
      rw [cam, ht.1]
      exact (h c).1
    have hreflect : t.reflectCameraOnlineStatus c false = (false, t) := by
      unfold reflectCameraOnlineStatus
      simp [hoffline]
    by_cases hassigned : (t.cam c).runtime.isAssigned = true
    · have halive : t.aliveAnswer c = false := by
        unfold aliveAnswer
        rw [ht.2.1, List.findIdx?_nil]
      rcases t.reflectProbe_cases (fun _ => none) hassigned with ⟨j, hfind, -⟩ | ⟨-, heq | heq⟩
      · rw [ht.2.1] at hfind
        cases hfind
      · rw [heq, halive, hreflect]
        exact ht
      · rw [heq, halive, hreflect]
        exact hlookup t c ht
    · unfold reflectProbe
      rw [if_neg hassigned]
      exact ht
  have hpass : s.camonPass answers (fun _ => none) =
      { looped with statics := { looped.statics with camonStatus := [] } } := by
    unfold camonPass
    rw [if_pos hflag]
  have hquiet : (s.camonPass answers fun _ => none).AllQuiet := by
    intro d
    rw [hpass]
    change (looped.media.cameras d).runtime.isOnline = false ∧ (looped.media.cameras d).runtime.recordingModeFlags = 0
    rw [hloop.1]
    exact h d
  obtain ⟨hmedia, hstatics⟩ := hquiet.restartPass
  unfold timerCallback
  rw [hmedia, hstatics, hpass]
  exact ⟨hloop.1, hloop.2.2.1, hloop.2.2.2⟩

/-- Collecting answers changes no quiet camera. -/
theorem AllQuiet.collects {s : Agent} (h : s.AllQuiet) (hflag : s.statics.passFlag = true)
    (answers : List CamonStatus) (arp : Slot → Option CString) : (s.timerCallback answers arp).media = s.media := by
  have hcollect : (s.camonPass answers arp).media = s.media := by
    unfold camonPass
    rw [if_neg (by simp [hflag])]
  have hquiet : (s.camonPass answers arp).AllQuiet := by
    intro d
    rw [cam, hcollect]
    exact h d
  exact hquiet.restartPass.1.trans hcollect

end Quiet

end Agent

/-- The camera table of a configuration. -/
def Config.table (cfg : Config) : MediaInfo := raconfInit cfg false false none

namespace Agent

/-- Before the first answers are collected, every camera of the configuration is in the table, offline
and not commanded to record. -/
theorem start_probes (cfg : Config) : ∃ s : Agent, s.Reachable ∧ HasTable cfg.table s ∧ s.AllQuiet ∧
    (∀ c, (s.cam c).runtime.isAssigned = (cfg.table.cameras c).runtime.isAssigned) ∧
    s.statics.ptcActive = true ∧ s.statics.passFlag = true ∧ s.media.camonSock ≠ none := by
  let s₀ := start cfg true true true
  have hcameras : ∀ d, s₀.cam d = cfg.table.cameras d := fun _ => rfl
  have hquiet : s₀.AllQuiet := by
    intro d
    rw [hcameras]
    unfold Config.table raconfInit
    dsimp only
    split <;> exact ⟨rfl, rfl⟩
  obtain ⟨hmedia, hflag, hactive⟩ := AllQuiet.sends (s := s₀.withAnswers [] []) hquiet rfl rfl []
  have hcam : ∀ d, (s₀.step (Event.quiet (.timer [] fun _ => none))).cam d = s₀.cam d := by
    intro d
    change ((s₀.withAnswers [] []).timerCallback [] fun _ => none).media.cameras d = _
    rw [hmedia]
    rfl
  refine ⟨s₀.step (Event.quiet (.timer [] fun _ => none)),
    ⟨cfg, true, true, true, [Event.quiet (.timer [] fun _ => none)], rfl⟩, ⟨?_, fun i _ => ?_, fun i _ => ?_,
    fun i _ hassigned => ?_⟩, fun d => ?_, fun c => ?_, hactive, hflag, ?_⟩
  · change ((s₀.withAnswers [] []).timerCallback [] fun _ => none).media.nCameras = _
    rw [hmedia]
    rfl
  · rw [hcam, hcameras]
  · rw [hcam, hcameras]
  · rwa [hcam, hcameras] at hassigned
  · rw [hcam]
    exact hquiet d
  · rw [hcam, hcameras]
  · change ((s₀.withAnswers [] []).timerCallback [] fun _ => none).media.camonSock ≠ none
    rw [hmedia]
    nofun

/-- The cameras of a configuration, with different addresses, are credited rightly exactly when their
table is unambiguous. -/
theorem creditsRightly_iff (cfg : Config) (addr : Slot → Ipv4) (hhome : HomeAddresses cfg.table addr)
    (hdistinct : ∀ c d : Slot, c.val < cfg.table.nCameras → d.val < cfg.table.nCameras →
      (cfg.table.cameras c).runtime.isAssigned = true → (cfg.table.cameras d).runtime.isAssigned = true →
      addr c = addr d → c = d) : CreditsRightly cfg.table addr ↔ Unambiguous cfg.table addr := by
  constructor
  · intro hcredits
    obtain ⟨s, hreach, hs, hquiet, hassigned, hactive, hflag, hsock⟩ := start_probes cfg
    have hstep : ∀ peers : List Ipv4, (s.answersCredited peers (fun _ => false) (fun _ => none) [] []).media =
        s.media := by
      intro peers
      have h := AllQuiet.collects (s := s.withAnswers [] []) hquiet hflag
        (camonPerformRx s.media.camonSock peers (fun _ => false) s.media) fun _ => none
      rw [answersCredited, Agent.step, if_pos hactive]
      exact h
    have hcam : ∀ peers d, (s.answersCredited peers (fun _ => false) (fun _ => none) [] []).cam d = s.cam d :=
      fun peers d => congrFun (congrArg MediaInfo.cameras (hstep peers)) d
    have hrightly : ∀ ip c, c.val < cfg.table.nCameras → (cfg.table.cameras c).runtime.isAssigned = true →
        (((s.answersCredited [ip] (fun _ => false) (fun _ => none) [] []).withAnswers [] []).treatedAlive
          (fun _ => none) c = true ↔ addr c = ip) := by
      intro ip c hc hc'
      have h := hcredits s hreach hs hactive hflag hsock [ip] (List.nodup_singleton ip) (by simp [maxCams])
        (fun _ => false) (fun _ => none) [] [] (fun _ => none) [] [] c hc (by rw [hcam, hassigned]; exact hc')
      rw [List.mem_singleton] at h
      exact h
    have htable : ∀ ip, ((s.answersCredited [ip] (fun _ => false) (fun _ => none) [] []).withAnswers
        [] []).statics.camonStatus = [ip].map (creditAnswer cfg.table) := fun ip =>
      (answersCredited_table hs hactive hflag hsock (by simp [maxCams]) _ _ _ _).2
    refine ⟨fun c hc hc' j hj => ?_, fun c hc hc' ip hip hcontains j hj hsame => ?_⟩
    · obtain ⟨ip, hip, hmatch⟩ := treatedAlive_answer (m := cfg.table) (htable (addr c))
        ((hrightly (addr c) c hc hc').mpr rfl)
      obtain rfl := List.mem_singleton.mp hip
      rw [withAnswers_cam, hcam, hs.matches hc] at hmatch
      obtain ⟨-, j', hj', hsame⟩ := (creditAnswer_matches hc _).mp hmatch
      obtain rfl := Option.some.inj (hj.symm.trans hj')
      exact hsame
    · have halive : (creditAnswer cfg.table ip).isAlive = true := by
        rw [creditAnswer, hj]
      have hmatch : (creditAnswer cfg.table ip).matches
          ((s.answersCredited [ip] (fun _ => false) (fun _ => none) [] []).cam c) = true := by
        rw [hcam, hs.matches hc, creditAnswer_matches hc]
        exact ⟨hcontains, j, hj, hsame⟩
      have hoffline : ∀ d, (((s.answersCredited [ip] (fun _ => false) (fun _ => none) [] []).withAnswers
          [] []).cam d).runtime.isOnline = false := by
        intro d
        rw [withAnswers_cam, hcam]
        exact (hquiet d).1
      have htreated := treatedAlive_of_offline hoffline (htable ip) halive (fun _ => none) hmatch
      exact hip ((hrightly ip c hc hc').mp htreated).symm
  · intro hun s _ hs hactive hflag hsock peers _ hlength available arp forks deaths arp' forks' deaths' c hc hassigned
    obtain ⟨hs', htable⟩ := answersCredited_table hs hactive hflag hsock hlength available arp forks deaths
    exact treatedAlive_iff (s := (s.answersCredited peers available arp forks deaths).withAnswers forks' deaths') hun
      hhome hdistinct ⟨hs'.nCameras, hs'.homepage, hs'.dispMac, hs'.isAssigned⟩ htable arp' hc hassigned

/-- A camera with this hardware address and home page. -/
def probedCamera (dispMac homepage : CString) : CamConfig :=
  { cabCamera true with dispMac := dispMac, homepage := homepage, name_length := by decide }

/-- Two cameras, one of whose addresses starts the other's. -/
def probedConfig : Config :=
  { cabConfig true with
    cameras := fun i =>
      if i = 0 then probedCamera ['0', '1'] ("http://10.10.9.101/").toList
      else if i = 1 then probedCamera ['0', '2'] ("http://10.10.9.10/").toList
      else .empty }

/-- The addresses of the two cameras. -/
def probedAddress (c : Slot) : Ipv4 := if c = 0 then ⟨10, 10, 9, 101⟩ else ⟨10, 10, 9, 10⟩

/-- The two cameras are credited rightly exactly when their table is unambiguous. -/
theorem creditsRightly_iff_probed :
    CreditsRightly probedConfig.table probedAddress ↔ Unambiguous probedConfig.table probedAddress :=
  creditsRightly_iff probedConfig probedAddress
    (by unfold HomeAddresses; decide) (by decide)

/-- An answer of the second camera alone is credited to the first. -/
theorem not_creditsRightly_probed :
    HomeAddresses probedConfig.table probedAddress ∧ probedAddress 0 ≠ probedAddress 1 ∧
      ¬ SameMac (probedConfig.table.cameras 0) (probedConfig.table.cameras 1) ∧
      ¬ CreditsRightly probedConfig.table probedAddress := by
  refine ⟨by unfold HomeAddresses; decide, by decide, by unfold SameMac; decide, fun hcredits => ?_⟩
  have hfirst := hcredits (run step (start probedConfig true true true) [Event.quiet (.timer [] fun _ => none)])
    ⟨probedConfig, true, true, true, _, rfl⟩
    ⟨by decide, fun i _ => by revert i; decide, fun i _ => by revert i; decide, fun i _ => by revert i; decide⟩
    (by decide) (by decide) (by decide) [probedAddress 1] (by decide) (by decide) (fun _ => false) (fun _ => none) [] []
    (fun _ => none) [] [] 0 (by decide) (by decide)
  exact absurd (hfirst.mp (by decide)) (by decide)

end Agent

end RecordingAgent.Reagent
