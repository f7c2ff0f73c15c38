import CommonsC.ModulesList.Model

/-!
# CommonsC.ModulesList.Select

What `SS4S_ModulesSelect` selects.

The selection is sound for every list and every test (`SoundSelection`).  For a
list in the order of `module_weight_compare_fn` and a test that tells fixed
capabilities it is also the best one (`BestSelection`): both loops stop at the
first module they can use, and in a sorted list that is a heaviest one.
-/

namespace CommonsC.Modules

open CString Version

section

variable {modules : List ModuleInfo} {check : List UInt8 → CheckFlags → CheckFlags}
  {checkModule : Bool}

theorem moduleInfoConflicts_comm (a b : ModuleInfo) :
    moduleInfoConflicts a b = moduleInfoConflicts b a := Bool.or_comm _ _

/-! ## Soundness -/

/-- The test tells no capability that it was not asked for. -/
def CheckFlags.Subset (flags flags' : CheckFlags) : Prop :=
  (flags.video = true → flags'.video = true) ∧ (flags.audio = true → flags'.audio = true)

/-- The module has video, and if it was tested, it passed. -/
def UsableVideo (check : List UInt8 → CheckFlags → CheckFlags) (checkModule : Bool)
    (info : ModuleInfo) : Prop :=
  info.has_video = true ∧
    (checkModule = true → ∃ audio, (check info.id.bytes ⟨true, audio⟩).video = true)

/-- The module has audio, and if it was tested, it passed. -/
def UsableAudio (check : List UInt8 → CheckFlags → CheckFlags) (checkModule : Bool)
    (info : ModuleInfo) : Prop :=
  info.has_audio = true ∧
    (checkModule = true → ∃ video, (check info.id.bytes ⟨video, true⟩).audio = true)

/-- What holds of every result of `SS4S_ModulesSelect`. -/
structure SoundSelection (modules : List ModuleInfo)
    (check : List UInt8 → CheckFlags → CheckFlags) (checkModule : Bool)
    (result : Bool × ModuleSelection modules.length) : Prop where
  video : ∀ v, result.2.video_module = some v → UsableVideo check checkModule (modules.get v)
  audio : ∀ a, result.2.audio_module = some a → UsableAudio check checkModule (modules.get a)
  no_conflict : checkModule = true → ∀ v a, result.2.video_module = some v →
    result.2.audio_module = some a → v ≠ a →
    moduleInfoConflicts (modules.get v) (modules.get a) = false ∧
      moduleInfoConflicts (modules.get a) (modules.get v) = false
  result : result.1 = true ↔
    result.2.video_module.isSome = true ∧ result.2.audio_module.isSome = true

theorem usableAudio_of_any (hcheck : ∀ id flags, (check id flags).Subset flags) {info : ModuleInfo}
    (haudio : info.has_audio = true)
    (h : checkModule = true → (check info.id.bytes ⟨false, true⟩).any = true) :
    UsableAudio check checkModule info := by
  refine ⟨haudio, fun htest => ⟨false, ?_⟩⟩
  rcases Bool.or_eq_true_iff.1 (h htest) with hvideo | hpass
  · cases (hcheck _ _).1 hvideo
  · exact hpass

/-- The audio module that comes with a video module is the same one. -/
theorem selectVideo_sound (hcheck : ∀ id flags, (check id flags).Subset flags) {audioAuto : Bool}
    {i v : Fin modules.length} {audio : Option (Fin modules.length)}
    (h : selectVideo modules check checkModule audioAuto i = some (v, audio)) :
    UsableVideo check checkModule (modules.get v) ∧
      ∀ a, audio = some a → a = v ∧ UsableAudio check checkModule (modules.get a) := by
  rw [selectVideo] at h
  cases hvideo : (modules.get i).has_video with
  | false =>
      simp only [hvideo, Bool.not_false, if_true] at h
      cases h
  | true =>
      cases checkModule with
      | false =>
          simp only [hvideo, Bool.not_true, Bool.not_false, Bool.false_eq_true, if_false,
            Bool.true_or, if_true, Option.some.injEq, Prod.mk.injEq] at h
          obtain ⟨rfl, rfl⟩ := h
          refine ⟨⟨hvideo, fun htest => by cases htest⟩, fun a ha => ?_⟩
          obtain ⟨haudio, heq⟩ := Option.ite_none_right_eq_some.1 ha
          cases heq
          exact ⟨rfl, (Bool.and_eq_true_iff.1 haudio).1, fun htest => by cases htest⟩
      | true =>
          simp only [hvideo, Bool.not_true, Bool.false_eq_true, if_false, if_true, Bool.false_or,
            Option.ite_none_right_eq_some, Option.some.injEq, Prod.mk.injEq] at h
          obtain ⟨hpass, rfl, rfl⟩ := h
          refine ⟨⟨hvideo, fun _ => ⟨_, hpass⟩⟩, fun a ha => ?_⟩
          obtain ⟨haudio, heq⟩ := Option.ite_none_right_eq_some.1 ha
          cases heq
          have hasked : ((modules.get i).has_audio && audioAuto) = true := (hcheck _ _).2 haudio
          rw [hasked] at haudio
          exact ⟨rfl, (Bool.and_eq_true_iff.1 hasked).1, fun _ => ⟨true, haudio⟩⟩

/-- The video module is usable, and so is the audio module that comes with it. -/
theorem videoPhase_sound (hcheck : ∀ id flags, (check id flags).Subset flags)
    {video : Option CString} {audioAuto : Bool} {v : Fin modules.length}
    {audio : Option (Fin modules.length)}
    (h : videoPhase modules check checkModule video audioAuto = some (v, audio)) :
    UsableVideo check checkModule (modules.get v) ∧
      ∀ a, audio = some a → a = v ∧ UsableAudio check checkModule (modules.get a) := by
  rcases Option.or_eq_some_iff.1 h with hpreferred | ⟨-, hloop⟩
  · obtain ⟨i, -, hselect⟩ := Option.bind_eq_some_iff.1 hpreferred
    exact selectVideo_sound hcheck hselect
  · obtain ⟨i, hselect, -⟩ := Fin.findSome?_eq_some_iff.1 hloop
    exact selectVideo_sound hcheck hselect

/-- What the two tests for audio ask. -/
theorem acceptsAudio_eq_true {selected_video : Option (Fin modules.length)}
    {i : Fin modules.length} :
    acceptsAudio modules check checkModule selected_video i = true ↔
      (modules.get i).has_audio = true ∧ (checkModule = true →
        (∃ v, selected_video = some v ∧
          moduleInfoConflicts (modules.get v) (modules.get i) = false) ∧
        (check (modules.get i).id.bytes ⟨false, true⟩).any = true) := by
  cases checkModule <;> simp [acceptsAudio, Option.any_eq_true]

theorem fallbackAudio_eq_true {selected_video : Option (Fin modules.length)}
    {i : Fin modules.length} :
    fallbackAudio modules check checkModule selected_video i = true ↔
      (modules.get i).has_audio = true ∧ (checkModule = true →
        (∀ v, selected_video = some v →
          moduleInfoConflicts (modules.get v) (modules.get i) = false) ∧
        (check (modules.get i).id.bytes ⟨false, true⟩).any = true) := by
  cases checkModule <;> simp [fallbackAudio, Option.any_eq_true, and_assoc]

/-- The audio module is usable, and it is the one that came with the video
module or does not conflict with it. -/
theorem audioPhase_sound (hcheck : ∀ id flags, (check id flags).Subset flags)
    {audio : Option CString} {selected_video selected_audio : Option (Fin modules.length)}
    (hselected : ∀ a, selected_audio = some a →
      UsableAudio check checkModule (modules.get a) ∧ selected_video = some a)
    {a : Fin modules.length}
    (h : audioPhase modules check checkModule audio selected_video selected_audio = some a) :
    UsableAudio check checkModule (modules.get a) ∧
      (selected_video = some a ∨ (checkModule = true → ∀ v, selected_video = some v →
        moduleInfoConflicts (modules.get v) (modules.get a) = false)) := by
  rcases Option.or_eq_some_iff.1 h with hbefore | ⟨-, hloop⟩
  · rcases Option.or_eq_some_iff.1 hbefore with hpreferred | ⟨-, hvideo⟩
    · obtain ⟨haudio, htest⟩ := acceptsAudio_eq_true.1 (Option.filter_eq_some_iff.1 hpreferred).2
      refine ⟨usableAudio_of_any hcheck haudio fun hc => (htest hc).2, .inr fun hc v hv => ?_⟩
      obtain ⟨⟨v', hv', hconflict⟩, -⟩ := htest hc
      rw [hv] at hv'
      cases hv'
      exact hconflict
    · exact ⟨(hselected a hvideo).1, .inl (hselected a hvideo).2⟩
  · obtain ⟨haccept, -⟩ := Fin.find?_eq_some_iff.1 hloop
    obtain ⟨haudio, htest⟩ := fallbackAudio_eq_true.1 haccept
    exact ⟨usableAudio_of_any hcheck haudio fun hc => (htest hc).2, .inr fun hc => (htest hc).1⟩

/-- **Soundness** of the selection. -/
theorem modulesSelect_sound (modules : List ModuleInfo)
    (check : List UInt8 → CheckFlags → CheckFlags)
    (hcheck : ∀ id flags, (check id flags).Subset flags) (checkModule : Bool)
    (preferences : Option ModulePreferences) :
    SoundSelection modules check checkModule
      (modulesSelect modules check checkModule preferences) := by
  have hvideo : ∀ v, (modulesSelect modules check checkModule preferences).2.video_module =
      some v → ∃ audio, videoPhase modules check checkModule (preferences.bind (·.video_module))
        (preferenceAuto (preferences.bind (·.audio_module))) = some (v, audio) := by
    intro v hv
    obtain ⟨⟨v', audio⟩, hphase, rfl⟩ := Option.map_eq_some_iff.1 hv
    exact ⟨audio, hphase⟩
  have haudio : ∀ a, (modulesSelect modules check checkModule preferences).2.audio_module =
      some a → _ := fun a ha => audioPhase_sound hcheck (fun a ha => by
    obtain ⟨⟨v, audio⟩, hphase, hselected⟩ := Option.bind_eq_some_iff.1 ha
    obtain ⟨heq, husable⟩ := (videoPhase_sound hcheck hphase).2 a hselected
    rw [hphase, heq]
    exact ⟨heq ▸ husable, rfl⟩) ha
  refine ⟨fun v hv => ?_, fun a ha => (haudio a ha).1, fun hc v a hv ha hne => ?_, ?_⟩
  · obtain ⟨audio, hphase⟩ := hvideo v hv
    exact (videoPhase_sound hcheck hphase).1
  · rcases (haudio a ha).2 with hsame | hconflict
    · cases hsame.symm.trans hv
      exact absurd rfl hne
    · rw [moduleInfoConflicts_comm (modules.get a)]
      exact ⟨hconflict hc v hv, hconflict hc v hv⟩
  · exact Bool.and_eq_true_iff.trans and_comm

/-- A module for video that conflicts with the first one for audio. -/
def conflictingModules : List ModuleInfo :=
  [⟨⟨none, none, false, true, 90, [ascii "pulse"], .clear⟩, .lit "ndl"⟩,
    ⟨⟨none, none, true, false, 80, [], .clear⟩, .lit "pulse"⟩,
    ⟨⟨none, none, true, false, 70, [], .clear⟩, .lit "alsa"⟩]

/-- Both of these are preferred, and the audio module gives way. -/
theorem modulesSelect_sound_conflict :
    SoundSelection conflictingModules (fun _ flags => flags) true
        (modulesSelect conflictingModules (fun _ flags => flags) true
          (some ⟨some (.lit "pulse"), some (.lit "ndl")⟩)) ∧
      modulesSelect conflictingModules (fun _ flags => flags) true
        (some ⟨some (.lit "pulse"), some (.lit "ndl")⟩) =
      (true, ⟨some ⟨2, by decide⟩, some ⟨0, by decide⟩⟩) :=
  ⟨modulesSelect_sound _ _ (fun _ _ => ⟨id, id⟩) true _, by decide +kernel⟩

end

/-! ## The order of the list -/

/-- What `qsort` needs of `module_weight_compare_fn`: an order in which any two
modules can be compared, without an overflow. -/
structure WeightOrder : Prop where
  bounded : ∀ a b : ModuleInfo, 0 ≤ a.weight ∧ a.weight ≤ 100 → 0 ≤ b.weight ∧ b.weight ≤ 100 →
    -100 ≤ b.weight - a.weight ∧ b.weight - a.weight ≤ 100
  total : ∀ a b, moduleWeightCompare a b ≤ 0 ∨ moduleWeightCompare b a ≤ 0
  trans : ∀ a b c, moduleWeightCompare a b ≤ 0 → moduleWeightCompare b c ≤ 0 →
    moduleWeightCompare a c ≤ 0

theorem moduleWeightCompare_le {a b : ModuleInfo} :
    moduleWeightCompare a b ≤ 0 ↔ b.weight < a.weight ∨ b.weight = a.weight ∧
      strcmp (moduleInfoGetGroup a).bytes (moduleInfoGetGroup b).bytes ≤ 0 := by
  rw [moduleWeightCompare]
  split <;> omega

theorem weightOrder : WeightOrder where
  bounded a b ha hb := by omega
  total a b := by
    have hswap := strcmp_swap (moduleInfoGetGroup a).bytes (moduleInfoGetGroup b).bytes
    rw [moduleWeightCompare_le, moduleWeightCompare_le]
    omega
  trans a b c hab hbc := by
    rw [moduleWeightCompare_le] at *
    have htrans := strcmp_trans (u := (moduleInfoGetGroup c).bytes) (moduleInfoGetGroup a).noNul
      (moduleInfoGetGroup b).noNul
    rcases hab with hab | ⟨hab, hstr⟩ <;> rcases hbc with hbc | ⟨hbc, hstr'⟩
    · exact .inl (by omega)
    · exact .inl (by omega)
    · exact .inl (by omega)
    · exact .inr ⟨by omega, htrans hstr hstr'⟩

/-- The list is sorted by `module_weight_compare_fn`. -/
def Sorted (modules : List ModuleInfo) : Prop :=
  modules.Pairwise fun a b => moduleWeightCompare a b ≤ 0

/-- A heaviest module with a property. -/
def Heaviest (modules : List ModuleInfo) (P : Fin modules.length → Prop)
    (i : Fin modules.length) : Prop :=
  P i ∧ ∀ j, P j → (modules.get j).weight ≤ (modules.get i).weight

/-- The first module with a property is a heaviest one. -/
theorem Sorted.heaviest {modules : List ModuleInfo} (hsorted : Sorted modules)
    {P : Fin modules.length → Prop} {i : Fin modules.length} (hi : P i)
    (hfirst : ∀ j < i, ¬P j) : Heaviest modules P i := by
  refine ⟨hi, fun j hj => ?_⟩
  rcases Nat.lt_trichotomy i j with hlt | heq | hgt
  · have hle : moduleWeightCompare (modules.get i) (modules.get j) ≤ 0 :=
      List.pairwise_iff_getElem.1 hsorted i j i.isLt j.isLt hlt
    rcases moduleWeightCompare_le.1 hle with hweight | ⟨hweight, -⟩
    · exact Int.le_of_lt hweight
    · exact Int.le_of_eq hweight
  · rw [Fin.ext heq]
  · exact absurd hj (hfirst j hgt)

/-! ## The best selection -/

/-- `item` is the id or the group of the module. -/
def Named (info : ModuleInfo) (item : CString) : Prop :=
  item.bytes = info.id.bytes ∨ ∃ group, info.group = some group ∧ item.bytes = group.bytes

/-- A preference is auto. -/
def Auto (value : Option CString) : Prop := ∀ item, value = some item → item.bytes = ascii "auto"

/-- The first module with the preferred name. -/
def Preferred (modules : List ModuleInfo) (value : Option CString) (i : Fin modules.length) :
    Prop :=
  ¬Auto value ∧ ∃ item, value = some item ∧ Named (modules.get i) item ∧
    ∀ j < i, ¬Named (modules.get j) item

/-- The test that tells the capabilities of the modules. -/
def checkCaps (caps : List UInt8 → CheckFlags) (id : List UInt8) (flags : CheckFlags) :
    CheckFlags :=
  ⟨flags.video && (caps id).video, flags.audio && (caps id).audio⟩

/-- The module has video and passes. -/
def CanVideo (caps : List UInt8 → CheckFlags) (info : ModuleInfo) : Prop :=
  info.has_video = true ∧ (caps info.id.bytes).video = true
deriving Decidable

/-- The module has audio and passes. -/
def CanAudio (caps : List UInt8 → CheckFlags) (info : ModuleInfo) : Prop :=
  info.has_audio = true ∧ (caps info.id.bytes).audio = true
deriving Decidable

/-- The module does not conflict with the selected video module. -/
def Compatible (modules : List ModuleInfo) (video : Option (Fin modules.length))
    (i : Fin modules.length) : Prop :=
  ∀ v, video = some v → moduleInfoConflicts (modules.get v) (modules.get i) = false

/-- The selection that the preferences ask for, and else the heaviest modules. -/
structure BestSelection (modules : List ModuleInfo) (caps : List UInt8 → CheckFlags)
    (video audio : Option CString) (selection : ModuleSelection modules.length) : Prop where
  video_preferred : ∀ i, Preferred modules video i → CanVideo caps (modules.get i) →
    selection.video_module = some i
  video_fallback : (¬∃ i, Preferred modules video i ∧ CanVideo caps (modules.get i)) →
    (∀ v, selection.video_module = some v →
      Heaviest modules (fun i => CanVideo caps (modules.get i)) v) ∧
    (selection.video_module = none → ∀ i, ¬CanVideo caps (modules.get i))
  audio_preferred : ∀ i, Preferred modules audio i → CanAudio caps (modules.get i) →
    selection.video_module ≠ none → Compatible modules selection.video_module i →
    selection.audio_module = some i
  audio_same : Auto audio → ∀ v, selection.video_module = some v →
    CanAudio caps (modules.get v) → selection.audio_module = some v
  audio_fallback :
    (¬∃ i, Preferred modules audio i ∧ CanAudio caps (modules.get i) ∧
      selection.video_module ≠ none ∧ Compatible modules selection.video_module i) →
    (¬∃ v, Auto audio ∧ selection.video_module = some v ∧ CanAudio caps (modules.get v)) →
    (∀ a, selection.audio_module = some a → Heaviest modules
      (fun i => CanAudio caps (modules.get i) ∧ Compatible modules selection.video_module i) a) ∧
    (selection.audio_module = none → ∀ i,
      ¬(CanAudio caps (modules.get i) ∧ Compatible modules selection.video_module i))

section

variable {modules : List ModuleInfo} {caps : List UInt8 → CheckFlags}

theorem isNamed_iff {info : ModuleInfo} {item : CString} :
    info.isNamed item.bytes = true ↔ Named info item := by
  have hstr : ∀ s : CString, strcmp item.bytes s.bytes = 0 ↔ item.bytes = s.bytes := fun s =>
    ⟨eq_of_strcmp item.noNul s.noNul, fun h => by rw [h, strcmp_self]⟩
  simp only [ModuleInfo.isNamed, Named, Bool.or_eq_true, beq_iff_eq, Option.any_eq_true, hstr]

theorem preferenceAuto_iff {value : Option CString} : preferenceAuto value = true ↔ Auto value := by
  have hstr : ∀ s : CString, strcmp s.bytes (ascii "auto") = 0 ↔ s.bytes = ascii "auto" :=
    fun s => ⟨eq_of_strcmp s.noNul (by decide), fun h => by rw [h, strcmp_self]⟩
  simp only [preferenceAuto, Auto, Option.all_eq_true, beq_iff_eq, hstr]

/-- The module that is looked for first is the preferred one. -/
theorem preferred_eq_some {value : Option CString} {i : Fin modules.length} :
    preferred modules value = some i ↔ Preferred modules value i := by
  rw [preferred, Preferred, ← preferenceAuto_iff]
  by_cases hauto : preferenceAuto value = true
  · simp [hauto]
  · rw [if_neg hauto, Option.bind_eq_some_iff]
    simp only [moduleById, Fin.find?_eq_some_iff, Bool.eq_false_iff, ne_eq, isNamed_iff]
    exact (and_iff_right hauto).symm

/-- The audio module that comes with a video module. -/
def audioAlong (caps : List UInt8 → CheckFlags) (audioAuto : Bool) (i : Fin modules.length) :
    Option (Fin modules.length) :=
  if CanAudio caps (modules.get i) ∧ audioAuto = true then some i else none

theorem selectVideo_caps {audioAuto : Bool} {i : Fin modules.length} :
    selectVideo modules (checkCaps caps) true audioAuto i =
      if CanVideo caps (modules.get i) then some (i, audioAlong caps audioAuto i) else none := by
  have halong : (((modules.get i).has_audio && audioAuto &&
      (caps (modules.get i).id.bytes).audio) = true) =
        (CanAudio caps (modules.get i) ∧ audioAuto = true) := by
    rw [CanAudio, Bool.and_eq_true, Bool.and_eq_true, and_right_comm]
  cases hvideo : (modules.get i).has_video with
  | false =>
      rw [selectVideo, hvideo, if_neg fun h : CanVideo caps (modules.get i) => ?_]
      · rfl
      · rw [CanVideo, hvideo] at h
        cases h.1
  | true =>
      simp only [selectVideo, hvideo, checkCaps, CanVideo, audioAlong, Bool.not_true,
        Bool.false_eq_true, if_false, if_true, Bool.true_and, Bool.false_or, true_and, halong]

theorem preferred_unique {value : Option CString} {i j : Fin modules.length}
    (hi : Preferred modules value i) (hj : Preferred modules value j) : i = j := by
  rw [← preferred_eq_some] at hi hj
  exact Option.some.inj (hi.symm.trans hj)

/-- The video module is the preferred one or a heaviest one. -/
theorem videoPhase_caps (caps : List UInt8 → CheckFlags) (hsorted : Sorted modules)
    (video : Option CString) (audioAuto : Bool) :
    ∃ selected : Option (Fin modules.length),
      videoPhase modules (checkCaps caps) true video audioAuto =
        selected.map (fun i => (i, audioAlong caps audioAuto i)) ∧
      (∀ i, Preferred modules video i → CanVideo caps (modules.get i) → selected = some i) ∧
      ((¬∃ i, Preferred modules video i ∧ CanVideo caps (modules.get i)) →
        (∀ v, selected = some v → Heaviest modules (fun i => CanVideo caps (modules.get i)) v) ∧
        (selected = none → ∀ i, ¬CanVideo caps (modules.get i))) := by
  by_cases hpreferred : ∃ i, Preferred modules video i ∧ CanVideo caps (modules.get i)
  · obtain ⟨i, hi, hcan⟩ := hpreferred
    refine ⟨some i, ?_, fun j hj _ => ?_, fun h => absurd ⟨i, hi, hcan⟩ h⟩
    · rw [videoPhase, preferred_eq_some.2 hi, Option.bind_some, selectVideo_caps, if_pos hcan]
      rfl
    · rw [preferred_unique hi hj]
  · have hnone : (preferred modules video).bind
        (selectVideo modules (checkCaps caps) true audioAuto) = none := by
      rw [Option.bind_eq_none_iff]
      intro i hi
      rw [selectVideo_caps, if_neg fun hcan => hpreferred ⟨i, preferred_eq_some.1 hi, hcan⟩]
    rw [videoPhase, hnone, Option.none_or]
    cases hloop : Fin.findSome? (selectVideo modules (checkCaps caps) true audioAuto) with
    | none =>
        refine ⟨none, rfl, fun i hi hcan => absurd ⟨i, hi, hcan⟩ hpreferred, fun _ =>
          ⟨fun v hv => (by cases hv), fun _ i hcan => ?_⟩⟩
        have hi := Fin.findSome?_eq_none_iff.1 hloop i
        rw [selectVideo_caps, if_pos hcan] at hi
        cases hi
    | some selected =>
        obtain ⟨i, hi, hfirst⟩ := Fin.findSome?_eq_some_iff.1 hloop
        rw [selectVideo_caps, Option.ite_none_right_eq_some] at hi
        obtain ⟨hcan, heq⟩ := hi
        refine ⟨some i, heq.symm, fun j hj hcan => absurd ⟨j, hj, hcan⟩ hpreferred, fun _ =>
          ⟨fun v hv => ?_, fun h => (by cases h)⟩⟩
        cases hv
        refine hsorted.heaviest hcan fun j hj hcan' => ?_
        have hnone' := hfirst j hj
        rw [selectVideo_caps, if_pos hcan'] at hnone'
        cases hnone'

/-- What the two tests for audio ask, for fixed capabilities. -/
theorem acceptsAudio_caps {selected_video : Option (Fin modules.length)}
    {i : Fin modules.length} :
    acceptsAudio modules (checkCaps caps) true selected_video i = true ↔
      CanAudio caps (modules.get i) ∧ selected_video ≠ none ∧
        Compatible modules selected_video i := by
  rw [acceptsAudio_eq_true]
  cases selected_video <;>
    simp [checkCaps, CheckFlags.any, CanAudio, Compatible, and_assoc, and_comm]

theorem fallbackAudio_caps {selected_video : Option (Fin modules.length)}
    {i : Fin modules.length} :
    fallbackAudio modules (checkCaps caps) true selected_video i = true ↔
      CanAudio caps (modules.get i) ∧ Compatible modules selected_video i := by
  rw [fallbackAudio_eq_true]
  simp [checkCaps, CheckFlags.any, CanAudio, Compatible, and_assoc, and_comm]

/-- Where the audio module comes from: the preference, the video module, or the
loop. -/
theorem audioPhase_caps (caps : List UInt8 → CheckFlags) (audio : Option CString)
    (selected : Option (Fin modules.length)) :
    (∀ i, Preferred modules audio i → CanAudio caps (modules.get i) → selected ≠ none →
      Compatible modules selected i →
      audioPhase modules (checkCaps caps) true audio selected
        (selected.bind (audioAlong caps (preferenceAuto audio))) = some i) ∧
    (Auto audio → ∀ v, selected = some v → CanAudio caps (modules.get v) →
      audioPhase modules (checkCaps caps) true audio selected
        (selected.bind (audioAlong caps (preferenceAuto audio))) = some v) ∧
    ((¬∃ i, Preferred modules audio i ∧ CanAudio caps (modules.get i) ∧ selected ≠ none ∧
        Compatible modules selected i) →
      (¬∃ v, Auto audio ∧ selected = some v ∧ CanAudio caps (modules.get v)) →
      audioPhase modules (checkCaps caps) true audio selected
          (selected.bind (audioAlong caps (preferenceAuto audio))) =
        Fin.find? (fallbackAudio modules (checkCaps caps) true selected)) := by
  refine ⟨fun i hi hcan hvideo hcompatible => ?_, fun hauto v hv hcan => ?_, fun hpref halong => ?_⟩
  · have haccept := acceptsAudio_caps.2 ⟨hcan, hvideo, hcompatible⟩
    rw [audioPhase, preferred_eq_some.2 hi, Option.filter_some, if_pos haccept, Option.some_or,
      Option.some_or]
  · have hpreferred : preferred modules audio = none := by
      rw [preferred, if_pos (preferenceAuto_iff.2 hauto)]
    subst hv
    rw [audioPhase, hpreferred, Option.bind_some, audioAlong,
      if_pos ⟨hcan, preferenceAuto_iff.2 hauto⟩]
    rfl
  · have hfilter : (preferred modules audio).filter
        (acceptsAudio modules (checkCaps caps) true selected) = none := by
      rw [Option.filter_eq_none_iff]
      intro i hi haccept
      exact hpref ⟨i, preferred_eq_some.1 hi, acceptsAudio_caps.1 haccept⟩
    have hnone : selected.bind (audioAlong caps (preferenceAuto audio)) = none := by
      rw [Option.bind_eq_none_iff]
      intro v hv
      rw [audioAlong, if_neg fun h => halong ⟨v, preferenceAuto_iff.1 h.2, hv, h.1⟩]
    rw [audioPhase, hfilter, hnone, Option.none_or, Option.none_or]

/-- **Optimality** of the selection, and the order it rests on. -/
theorem modulesSelect_best (modules : List ModuleInfo) (hsorted : Sorted modules)
    (caps : List UInt8 → CheckFlags) (preferences : Option ModulePreferences) :
    WeightOrder ∧ BestSelection modules caps (preferences.bind (·.video_module))
      (preferences.bind (·.audio_module))
      (modulesSelect modules (checkCaps caps) true preferences).2 := by
  refine ⟨weightOrder, ?_⟩
  obtain ⟨selected, hphase, hpreferred, hfallback⟩ := videoPhase_caps caps hsorted
    (preferences.bind (·.video_module)) (preferenceAuto (preferences.bind (·.audio_module)))
  have hvideo : (modulesSelect modules (checkCaps caps) true preferences).2.video_module =
      selected := by
    simp only [modulesSelect, hphase, Option.map_map, Function.comp_def, Option.map_id']
  have haudio : (modulesSelect modules (checkCaps caps) true preferences).2.audio_module =
      audioPhase modules (checkCaps caps) true (preferences.bind (·.audio_module)) selected
        (selected.bind (audioAlong caps (preferenceAuto (preferences.bind (·.audio_module))))) := by
    simp only [modulesSelect, hphase, Option.map_map, Function.comp_def, Option.map_id',
      Option.bind_map]
  obtain ⟨hown, hsame, hloop⟩ :=
    audioPhase_caps caps (preferences.bind (·.audio_module)) selected
  refine ⟨?_, ?_, ?_, ?_, ?_⟩
  · rw [hvideo]
    exact hpreferred
  · rw [hvideo]
    exact hfallback
  · rw [hvideo, haudio]
    exact hown
  · rw [hvideo, haudio]
    exact hsame
  · rw [hvideo, haudio]
    intro hpref halong
    rw [hloop hpref halong]
    refine ⟨fun a ha => ?_, fun hnone i hi => ?_⟩
    · obtain ⟨haccept, hfirst⟩ := Fin.find?_eq_some_iff.1 ha
      refine hsorted.heaviest (fallbackAudio_caps.1 haccept) fun j hj hcan => ?_
      have hrefuse := hfirst j hj
      rw [fallbackAudio_caps.2 hcan] at hrefuse
      cases hrefuse
    · have hrefuse := Fin.find?_eq_none_iff.1 hnone i
      rw [fallbackAudio_caps.2 hi] at hrefuse
      cases hrefuse

/-- Two modules in the order of their weights. -/
theorem modulesSelect_best_pair :
    WeightOrder ∧ BestSelection
      [⟨⟨none, none, true, true, 90, [], .clear⟩, .lit "ndl"⟩,
        ⟨⟨none, none, true, true, 50, [], .clear⟩, .lit "ffmpeg"⟩]
      (fun _ => ⟨true, true⟩) none none
      (modulesSelect
        [⟨⟨none, none, true, true, 90, [], .clear⟩, .lit "ndl"⟩,
          ⟨⟨none, none, true, true, 50, [], .clear⟩, .lit "ffmpeg"⟩]
        (checkCaps fun _ => ⟨true, true⟩) true none).2 :=
  modulesSelect_best _ (by simp [Sorted, moduleWeightCompare]) _ none

end

end CommonsC.Modules
