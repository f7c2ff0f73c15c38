import CommonsC.VersionInfo.Model
import Mathlib.Data.Vector.Basic

/-!
# CommonsC.ModulesList.Model

The list of media modules (`media/ss4s/modules-list/ss4s_modules.c`), and how a
video and an audio module are selected from it.

A pointer to an entry of the list is its index.  The test of a module,
`SS4S_ModuleCheck`, is a parameter.
-/

namespace CommonsC.Modules

open CString Version

/-- The fields of `SS4S_ModuleInfo` besides the id. -/
structure ModuleFields where
  group : Option CString
  name : Option CString
  has_audio : Bool
  has_video : Bool
  weight : Int
  /-- The elements of the `str_list_t`. -/
  conflicts : List (List UInt8)
  os_version : VersionConstraints

/-- `SS4S_ModuleInfo`, as it is in the list. -/
structure ModuleInfo extends ModuleFields where
  id : CString

/-- `item` is the id or the group of the module. -/
def ModuleInfo.isNamed (info : ModuleInfo) (item : List UInt8) : Bool :=
  strcmp item info.id.bytes == 0 || info.group.any fun group => strcmp item group.bytes == 0

/-- `SS4S_ModuleInfoConflicts`. -/
def moduleInfoConflicts (a b : ModuleInfo) : Bool :=
  a.conflicts.any (b.isNamed ·) || b.conflicts.any (a.isNamed ·)

/-- `SS4S_ModuleInfoGetGroup`. -/
def moduleInfoGetGroup (info : ModuleInfo) : CString := info.group.getD info.id

/-- `module_weight_compare_fn`. -/
def moduleWeightCompare (m1 m2 : ModuleInfo) : Int :=
  let weight_diff := m2.weight - m1.weight
  if weight_diff = 0 then
    strcmp (moduleInfoGetGroup m1).bytes (moduleInfoGetGroup m2).bytes
  else weight_diff

/-! ## Selection -/

/-- `SS4S_ModuleCheckFlag`: `SS4S_MODULE_CHECK_VIDEO` and
`SS4S_MODULE_CHECK_AUDIO`. -/
structure CheckFlags where
  video : Bool
  audio : Bool
deriving DecidableEq, Repr

/-- A flag is set. -/
def CheckFlags.any (flags : CheckFlags) : Bool := flags.video || flags.audio

/-- `SS4S_ModulePreferences`. -/
structure ModulePreferences where
  audio_module : Option CString
  video_module : Option CString

/-- `SS4S_ModuleSelection`, from a list of `n` modules. -/
structure ModuleSelection (n : Nat) where
  audio_module : Option (Fin n)
  video_module : Option (Fin n)
deriving DecidableEq, Repr

/-- `preference_auto`. -/
def preferenceAuto (value : Option CString) : Bool :=
  value.all fun value => strcmp value.bytes (ascii "auto") == 0

/-- `module_by_id`. -/
def moduleById (modules : List ModuleInfo) (id : CString) : Option (Fin modules.length) :=
  Fin.find? fun i => (modules.get i).isNamed id.bytes

/-- The module that is preferred, unless the preference is auto. -/
def preferred (modules : List ModuleInfo) (value : Option CString) : Option (Fin modules.length) :=
  if preferenceAuto value then none else value.bind (moduleById modules)

section

variable (modules : List ModuleInfo) (check : List UInt8 → CheckFlags → CheckFlags)
  (checkModule : Bool)

/-- The test of a module for video, before and in the first loop: what
`selected_video_module` and `selected_audio_module` become. -/
def selectVideo (audioAuto : Bool) (i : Fin modules.length) :
    Option (Fin modules.length × Option (Fin modules.length)) :=
  let info := modules.get i
  if !info.has_video then none
  else
    let flags := { video := true, audio := info.has_audio && audioAuto }
    let flags := if checkModule then check info.id.bytes flags else flags
    if !checkModule || flags.video then some (i, if flags.audio then some i else none)
    else none

/-- The first half of `SS4S_ModulesSelect`. -/
def videoPhase (video : Option CString) (audioAuto : Bool) :
    Option (Fin modules.length × Option (Fin modules.length)) :=
  ((preferred modules video).bind (selectVideo modules check checkModule audioAuto)).or
    (Fin.findSome? (selectVideo modules check checkModule audioAuto))

/-- The test of a module that is preferred for audio. -/
def acceptsAudio (selected_video : Option (Fin modules.length)) (i : Fin modules.length) : Bool :=
  let selected := modules.get i
  selected.has_audio &&
    (!checkModule ||
      (selected_video.any fun v => !moduleInfoConflicts (modules.get v) selected) &&
        (check selected.id.bytes { video := false, audio := true }).any)

/-- The test of a module for audio in the second loop. -/
def fallbackAudio (selected_video : Option (Fin modules.length)) (i : Fin modules.length) : Bool :=
  let info := modules.get i
  if !info.has_audio ||
      checkModule && (selected_video.any fun v => moduleInfoConflicts (modules.get v) info) then
    false
  else !checkModule || (check info.id.bytes { video := false, audio := true }).any

/-- The second half of `SS4S_ModulesSelect`. -/
def audioPhase (audio : Option CString)
    (selected_video selected_audio : Option (Fin modules.length)) :
    Option (Fin modules.length) :=
  (((preferred modules audio).filter (acceptsAudio modules check checkModule selected_video)).or
    selected_audio).or (Fin.find? (fallbackAudio modules check checkModule selected_video))

/-- `SS4S_ModulesSelect`: the result, and the selection that is written.  No
preferences are like preferences that are `NULL`. -/
def modulesSelect (preferences : Option ModulePreferences) :
    Bool × ModuleSelection modules.length :=
  let video := preferences.bind (·.video_module)
  let audio := preferences.bind (·.audio_module)
  let selected := videoPhase modules check checkModule video (preferenceAuto audio)
  let selected_video := selected.map Prod.fst
  let selected_audio :=
    audioPhase modules check checkModule audio selected_video (selected.bind Prod.snd)
  (selected_audio.isSome && selected_video.isSome,
    { audio_module := selected_audio, video_module := selected_video })

end

end CommonsC.Modules
