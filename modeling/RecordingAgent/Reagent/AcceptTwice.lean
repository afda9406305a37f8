import RecordingAgent.Reagent.AcceptOutcomes
import RecordingAgent.Reagent.DomWrites

/-!
# Accepting a configuration twice

A base file that is patched in place is as it is to be, and so is the current file then. If the cameras are
rebuilt, the second run works on a document that the first one has not looked at: its cameras come from the
generated text, and what was found in a camera before may be found elsewhere.
-/

namespace RecordingAgent.Reagent.DomUtil

open Foundation

section

variable (lib : XmlLib) (recorderSn ucLocoid : Option CString) (ptab : Option (List CameraListElement))
  (ucCameras : List CameraListElement) (files : ConfigTexts) (t : Nodes)

/-- A second run with the same arguments leaves the files as the first run left them. -/
def AcceptedAlike : Prop :=
  ∀ r₁ r₂, duAcceptUserConfig lib .success recorderSn ucLocoid ptab files = some r₁ →
    duAcceptUserConfig lib .success recorderSn ucLocoid ptab r₁.files = some r₂ → r₂.files = r₁.files

/-- What a pass over a document is to set is in it already, as far as the cameras are not replaced. -/
structure Settled : Prop where
  inPlace : PatchedInPlace ucCameras t → Nodes.applyWrites (passWrites recorderSn ucLocoid ucCameras t) t = t
  replaced : ¬ PatchedInPlace ucCameras t →
    deleteCameras (.applyWrites (paramWrites recorderSn ucLocoid t) t) = deleteCameras t

/-- The text of a file after a pass over its document. -/
def savedText (text : Option CString) (pass : Bool × Nodes) : Option CString :=
  if pass.1 then some (lib.save pass.2) else text

end

section

variable {lib : XmlLib} {recorderSn ucLocoid : Option CString} {ptab : Option (List CameraListElement)}
  {users ucCameras : List CameraListElement} {files : ConfigTexts} {t : Nodes} {text : Option CString}
  {pass pass' : Bool × Nodes} {userdom : Option Nodes} {b : BaseResult}

theorem save_injective : Function.Injective lib.save := fun s t h =>
  Option.some.inj ((lib.load_save s).symm.trans (h ▸ lib.load_save t))

/-- A file is loaded again as the pass left its document. -/
theorem load_savedText (hload : text.bind lib.load = some t) (hclean : pass.1 = false → pass.2 = t) :
    (savedText lib text pass).bind lib.load = some pass.2 := by
  unfold savedText
  split
  · exact lib.load_save pass.2
  next hdirty => rw [hload, hclean (Bool.eq_false_iff.mpr hdirty)]

/-- A pass over a patched document leaves it alone. -/
theorem patchCurrent_patched (h : patchCurrent recorderSn ucLocoid ucCameras t = some pass)
    (h' : patchCurrent recorderSn ucLocoid ucCameras pass.2 = some pass') : pass'.2 = pass.2 := by
  have hpatched := (patchCurrent_eq h).1
  rw [(patchCurrent_eq h').1, hpatched, passWrites_applyWrites sparesNames_passWrites, Nodes.applyWrites_applyWrites]

/-- The text of a patched file stays in a second pass. -/
theorem savedText_patched (h : patchCurrent recorderSn ucLocoid ucCameras t = some pass)
    (h' : patchCurrent recorderSn ucLocoid ucCameras pass.2 = some pass') :
    savedText lib (savedText lib text pass) pass' = savedText lib text pass := by
  cases hdirty : pass.1 with
  | false =>
    rw [(patchCurrent_eq h).2 hdirty, h] at h'
    obtain rfl := Option.some.inj h'
    rw [savedText, hdirty]
    rfl
  | true =>
    rw [savedText, savedText, hdirty, if_pos rfl, patchCurrent_patched h h']
    exact ite_self _

theorem patched_files (cur : Bool × Nodes) :
    (patched lib .success files b cur).files =
      ⟨savedText lib files.base (b.isDirty, b.pdom), savedText lib files.current cur⟩ := by
  unfold patched savedText
  split <;> rfl

/-- A run that patches the base file in place leaves both files as a pass left their documents. -/
theorem files_of_inPlace {r : Accepted} (hload : files.base.bind lib.load = some t)
    (hin : PatchedInPlace (userCamdefs users) t)
    (h : duAcceptUserConfig lib .success recorderSn ucLocoid (some users) files = some r) :
    ∃ pass text pdcur cur, patchCurrent recorderSn ucLocoid (userCamdefs users) t = some pass ∧
      text.bind lib.load = some pdcur ∧ patchCurrent recorderSn ucLocoid (userCamdefs users) pdcur = some cur ∧
      r.files = ⟨savedText lib files.base pass, savedText lib text cur⟩ ∧
      (files.current.bind lib.load ≠ none → text = files.current) := by
  obtain ⟨b, hb, hrun⟩ := duAcceptUserConfig_cases hload h
  obtain ⟨-, hreplace, hbase⟩ := (patchBase_cases hb).resolve_right fun h => h.1 hin
  rcases hrun with ⟨hcopy, rfl⟩ | ⟨-, pdcur, cur, hpdcur, hcur, rfl⟩
  · have hcurrent : files.current.bind lib.load = none :=
      hcopy.resolve_left fun h => absurd (hreplace.symm.trans h) Bool.false_ne_true
    exact ⟨(b.isDirty, b.pdom), files.base, t, (b.isDirty, b.pdom), hbase, hload, hbase, rfl,
      fun hne => absurd hcurrent hne⟩
  · exact ⟨(b.isDirty, b.pdom), files.current, pdcur, cur, hbase, hpdcur, hcur, patched_files cur, fun _ => rfl⟩

/-- Files with a base file that is patched in place stay in a second run. -/
theorem acceptedAlike_of_inPlace (hload : files.base.bind lib.load = some t)
    (hin : PatchedInPlace (userCamdefs users) t) : AcceptedAlike lib recorderSn ucLocoid (some users) files := by
  intro r₁ r₂ h₁ h₂
  obtain ⟨pass, text, pdcur, cur, hpass, htext, hcur, hfiles, -⟩ := files_of_inPlace hload hin h₁
  have hbase₁ : r₁.files.base.bind lib.load = some pass.2 := by
    rw [hfiles]
    exact load_savedText hload (patchCurrent_eq hpass).2
  have hcurrent₁ : r₁.files.current.bind lib.load = some cur.2 := by
    rw [hfiles]
    exact load_savedText htext (patchCurrent_eq hcur).2
  have hin₁ : PatchedInPlace (userCamdefs users) pass.2 := by
    rw [(patchCurrent_eq hpass).1, patchedInPlace_applyWrites sparesNames_passWrites]
    exact hin
  obtain ⟨pass', text', pdcur', cur', hpass', htext', hcur', hfiles', hsame⟩ := files_of_inPlace hbase₁ hin₁ h₂
  -- The current file could be read the second time, and was patched itself.
  obtain rfl := hsame (by rw [hcurrent₁]; exact Option.some_ne_none _)
  obtain rfl := Option.some.inj (hcurrent₁.symm.trans htext')
  rw [hfiles', hfiles, savedText_patched hpass hpass', savedText_patched hcur hcur']

theorem patchBase_clean (h : patchBase recorderSn ucLocoid ucCameras userdom t = some b) (hclean : b.isDirty = false) :
    b.pdom = t := by
  rcases patchBase_cases h with ⟨-, -, hcurrent⟩ | ⟨-, rfl⟩
  · exact (patchCurrent_eq hcurrent).2 hclean
  · cases hclean

/-- A saved text stays exactly if the document does. -/
theorem savedText_eq_iff (hclean : pass.1 = false → pass.2 = t) :
    savedText lib (some (lib.save t)) pass = some (lib.save t) ↔ pass.2 = t := by
  unfold savedText
  split
  · exact ⟨fun h => save_injective (Option.some.inj h), fun h => by rw [h]⟩
  next hdirty => exact ⟨fun _ => hclean (Bool.eq_false_iff.mpr hdirty), fun _ => rfl⟩

/-- A run on two files with the same document leaves them as they are exactly if the pass does. -/
theorem duAcceptUserConfig_equal
    (hb : patchBase recorderSn ucLocoid (userCamdefs users) (makeUsercamDom lib (userCamdefs users)) t = some b) :
    ∃ r, duAcceptUserConfig lib .success recorderSn ucLocoid (some users) ⟨some (lib.save t), some (lib.save t)⟩ = some r ∧
      (r.files = ⟨some (lib.save t), some (lib.save t)⟩ ↔ b.pdom = t) := by
  have hbase : (⟨some (lib.save t), some (lib.save t)⟩ : ConfigTexts).base.bind lib.load = some t := lib.load_save t
  have hsame : savedText lib (some (lib.save t)) (b.isDirty, b.pdom) = some (lib.save t) ↔ b.pdom = t :=
    savedText_eq_iff (patchBase_clean hb)
  have hequal : (⟨savedText lib (some (lib.save t)) (b.isDirty, b.pdom),
      savedText lib (some (lib.save t)) (b.isDirty, b.pdom)⟩ : ConfigTexts) =
        ⟨some (lib.save t), some (lib.save t)⟩ ↔ b.pdom = t := by
    rw [ConfigTexts.mk.injEq, and_self, hsame]
  rcases patchBase_cases hb with ⟨-, hreplace, hcurrent⟩ | ⟨-, rfl⟩
  · have hrun := duAcceptUserConfig_patched (o := .success) hbase hb hreplace (lib.load_save t)
    rw [hcurrent] at hrun
    refine ⟨_, hrun, ?_⟩
    rw [patched_files]
    exact hequal
  · exact ⟨_, duAcceptUserConfig_copied hbase hb (.inl rfl), hequal⟩

/-- A pass over a rebuilt document leaves it alone exactly if all is set already. -/
theorem patchBase_rebuilt_iff {s : Nodes} (hs : s = rebuilt recorderSn ucLocoid userdom t)
    (hb : patchBase recorderSn ucLocoid ucCameras userdom s = some b) :
    b.pdom = s ↔ Settled recorderSn ucLocoid ucCameras s := by
  rcases patchBase_cases hb with ⟨hin, -, hcurrent⟩ | ⟨hnot, rfl⟩
  · rw [show b.pdom = _ from (patchCurrent_eq hcurrent).1]
    exact ⟨fun h => ⟨fun _ => h, fun hnot => absurd hin hnot⟩, fun h => h.inPlace hin⟩
  · have hdeleted : deleteCameras (rebuilt recorderSn ucLocoid userdom s) =
        deleteCameras (.applyWrites (paramWrites recorderSn ucLocoid s) s) := deleteCameras_replaceCamdefs userdom _
    constructor
    · intro h
      refine ⟨fun hin => absurd hin hnot, fun _ => ?_⟩
      rw [← hdeleted]
      exact congrArg deleteCameras h
    · intro h
      calc rebuilt recorderSn ucLocoid userdom s
          = replaceCamdefs s userdom := replaceCamdefs_congr (h.replaced hnot) userdom
        _ = s := by
            rw [hs]
            exact replaceCamdefs_congr (deleteCameras_replaceCamdefs userdom _) userdom

/-- Files with a base file whose cameras are rebuilt stay in a second run exactly if all is set in the rebuilt
document already. -/
theorem acceptedAlike_rebuilt_iff {s : Nodes} (hload : files.base.bind lib.load = some t)
    (hdata : HasData recorderSn ucLocoid (userCamdefs users) t) (hnot : ¬ PatchedInPlace (userCamdefs users) t)
    (hs : s = rebuilt recorderSn ucLocoid (makeUsercamDom lib (userCamdefs users)) t) :
    AcceptedAlike lib recorderSn ucLocoid (some users) files ↔
      (HasData recorderSn ucLocoid (userCamdefs users) s → Settled recorderSn ucLocoid (userCamdefs users) s) := by
  have hreturns : (patchBase recorderSn ucLocoid (userCamdefs users) (makeUsercamDom lib (userCamdefs users)) t).isSome :=
    patchBase_isSome.mpr hdata
  obtain ⟨b, hb⟩ := Option.isSome_iff_exists.mp hreturns
  obtain ⟨-, rfl⟩ := (patchBase_cases hb).resolve_left fun h => hnot h.1
  rw [← hs] at hb
  have hfirst := duAcceptUserConfig_copied (o := .success) hload hb (.inl rfl)
  constructor
  · intro halike hdata₁
    obtain ⟨b₁, hb₁⟩ := Option.isSome_iff_exists.mp (patchBase_isSome.mpr hdata₁)
    obtain ⟨r, hr, hfiles⟩ := duAcceptUserConfig_equal hb₁
    exact (patchBase_rebuilt_iff hs hb₁).mp (hfiles.mp (halike _ r hfirst hr))
  · intro hsettled r₁ r₂ h₁ h₂
    obtain rfl := Option.some.inj (hfirst.symm.trans h₁)
    have hload₁ : (some (lib.save s)).bind lib.load = some s := lib.load_save s
    obtain ⟨b₁, hb₁, -⟩ := duAcceptUserConfig_cases hload₁ h₂
    obtain ⟨r, hr, hfiles⟩ := duAcceptUserConfig_equal hb₁
    obtain rfl := Option.some.inj (hr.symm.trans h₂)
    have hdata₁ := patchBase_isSome.mp (Option.isSome_of_eq_some hb₁)
    exact hfiles.mpr ((patchBase_rebuilt_iff hs hb₁).mpr (hsettled hdata₁))

end

/-- A camera whose name differs from the other one's in the case of its letters. -/
def smallCab : CameraListElement where
  camera := "cab".toList
  isEssential := 1
  cameraMaxRecordingHours := 72
  resolution := 2
  compression := 30
  frameRate := 10
  audioEnable := 0

/-- A document as the base file has it, with what is in the recorder. -/
def configNodes (children : Nodes) : Nodes :=
  .element "?xml version=\"1.0\"?".toList [] (.element "recorder".toList [] children .nil) .nil

/-- An element with data, and what follows. -/
def dataElement (tag data : CString) (next : Nodes) : Nodes := .element tag [] (.text data .nil) next

/-- A camera with a serial number in front of the recorder's own. -/
def twoSerials : Nodes :=
  configNodes (.element "camera".toList [] (dataElement "serial_number".toList "1".toList .nil)
    (dataElement "serial_number".toList "2".toList .nil))

/-- A first run has rebuilt the cameras, and a second one patches them. -/
theorem not_acceptedAlike_of (users : List CameraListElement) {recorderSn : Option CString} {t s : Nodes}
    (husers : 0 < (userCamdefs users).length) (hcomplete : XmlComplete (userCamdefs users))
    (hs : s = rebuilt recorderSn none (some (usercamNodes (userCamdefs users))) t)
    (hdata : (patchBase recorderSn none (userCamdefs users) none t).isSome)
    (hnot : ¬ PatchedInPlace (userCamdefs users) t)
    (hdata' : (patchBase recorderSn none (userCamdefs users) none s).isSome) (hin : PatchedInPlace (userCamdefs users) s)
    (hwrites : Nodes.applyWrites (passWrites recorderSn none (userCamdefs users) s) s ≠ s) :
    ¬ AcceptedAlike (userLib (userCamdefs users)) recorderSn none (some users)
      ⟨some ((userLib (userCamdefs users)).save t), none⟩ := by
  intro halike
  rw [← makeUsercamDom_userLib husers hcomplete] at hs
  have hload : (⟨some ((userLib (userCamdefs users)).save t), none⟩ : ConfigTexts).base.bind
      (userLib (userCamdefs users)).load = some t := (userLib (userCamdefs users)).load_save t
  have hsettled := (acceptedAlike_rebuilt_iff hload (patchBase_isSome.mp hdata) hnot hs).mp halike
  exact hwrites ((hsettled (patchBase_isSome.mp hdata')).inPlace hin)

end RecordingAgent.Reagent.DomUtil
