import CommonsC.ArrayList.Growth
import CommonsC.Base.Blocks
import CommonsC.ModulesList.Assertions
import Mathlib.Tactic.Abel

/-!
# CommonsC.ModulesList.Memory

The memory of the module list (`media/ss4s/modules-list/ss4s_modules.c`).

The parser duplicates every string that it keeps, and `SS4S_ModulesListClear`
frees what the modules have.  Here each pointer has its block, and the functions
run on a heap; what the pointers lead to is `erase`.

Memory does not run out.  `none` is a failed assertion, an `int` that overflows,
or a block that is freed and not live.
-/

namespace CommonsC.Modules.Memory

open Blocks CString Version

/-! ## The structs -/

/-- A pointer, and what is there. -/
structure Ptr (α : Type) where
  block : ℕ
  target : α

/-- The block of a pointer that may be `NULL`. -/
def blockAt {α : Type} (p : Option (Ptr α)) : Option ℕ := p.map Ptr.block

/-- `str_list_t`: the strings point into `raw`. -/
structure StrList where
  strings : List (List UInt8)
  elements : Option ℕ
  raw : Option ℕ

/-- `version_constraints_t`. -/
structure Constraints where
  count : Nat
  elements : Option (Ptr (List VersionConstraint))

/-- `SS4S_ModuleInfo`. -/
structure Info where
  id : Option (Ptr CString)
  group : Option (Ptr CString)
  name : Option (Ptr CString)
  has_audio : Bool
  has_video : Bool
  weight : Int
  conflicts : StrList
  os_version : Constraints

/-- The list of modules: `array_list_t` with its items. -/
structure ModuleArray where
  data : ℕ
  capacity : Int
  infos : List Info

/-- `modules_parse_context`. -/
structure Context where
  current : Info
  modules : ModuleArray

/-- What the pointer leads to. -/
def Constraints.erase (constraints : Constraints) : VersionConstraints :=
  ⟨constraints.count, constraints.elements.map Ptr.target⟩

/-- Structs that are zero. -/
def StrList.zero : StrList := ⟨[], none, none⟩

@[inherit_doc StrList.zero] def Constraints.zero : Constraints := ⟨0, none⟩

@[inherit_doc StrList.zero] def Info.zero : Info :=
  ⟨none, none, none, false, false, 0, .zero, .zero⟩

/-! ## The functions -/

/-- `strdup`. -/
def strdup (value : CString) (heap : Heap) : Ptr CString × Heap :=
  (⟨heap.alloc.1, value⟩, heap.alloc.2)

/-- `module_info_clear`. -/
def moduleInfoClear (info : Info) (heap : Heap) : Option (Info × Heap) :=
  match info.id with
  | none => some (info, heap)
  | some id => do
      let heap ← heap.free id.block
      let heap ← heap.freeIf (blockAt info.group)
      let heap ← heap.freeIf (blockAt info.name)
      let heap ← heap.freeIf info.conflicts.elements
      let heap ← heap.freeIf info.conflicts.raw
      let heap ← heap.freeIf (blockAt info.os_version.elements)
      some (.zero, heap)

/-- `str_list_parse`, with the array `items` and the copy `value_dup`. -/
def strListParse (list : StrList) (value delim : List UInt8) (heap : Heap) :
    Option (StrList × Heap) :=
  if value = [] then some (list, heap)
  else do
    let (n_items, parsed) ← StrList.strListParse (.ofStrings list.strings) value delim
    let (items, heap) := heap.alloc
    let (value_dup, heap) := heap.alloc
    if n_items = 0 then
      let heap ← heap.free value_dup
      some (list, heap)
    else some (⟨parsed.strings, some items, some value_dup⟩, heap)

/-- `version_constraints_parse`, with the array `elements` and the copy `tmp`. -/
def versionConstraintsParse (constraints : Constraints) (value : List UInt8) (heap : Heap) :
    Option (Constraints × Heap) := do
  let result ← (parseConstraints constraints.erase value).toOption
  let (elements, heap) := heap.alloc
  let (tmp, heap) := heap.alloc
  match result.elements with
  | some found =>
      let heap ← heap.free tmp
      some (⟨result.count, some ⟨elements, found⟩⟩, heap)
  | none =>
      let heap ← heap.free elements
      let heap ← heap.free tmp
      some (.zero, heap)

/-- What `modules_ini_handler` does with a key. -/
def setKey (current : Info) (name value : CString) (heap : Heap) : Option (Info × Heap) :=
  let (current, heap) :=
    if strcmp (ascii "name") name.bytes = 0 then
      let (copy, heap) := strdup value heap
      ({ current with name := some copy }, heap)
    else (current, heap)
  if strcmp (ascii "group") name.bytes = 0 then
    let (copy, heap) := strdup value heap
    some ({ current with group := some copy }, heap)
  else if strcmp (ascii "weight") name.bytes = 0 then
    some ({ current with weight := weightOf value }, heap)
  else if strcmp (ascii "audio") name.bytes = 0 then
    some ({ current with has_audio := strcmp (ascii "true") value.bytes == 0 }, heap)
  else if strcmp (ascii "video") name.bytes = 0 then
    some ({ current with has_video := strcmp (ascii "true") value.bytes == 0 }, heap)
  else if strcmp (ascii "os_version") name.bytes = 0 then do
    let (os_version, heap) ← versionConstraintsParse current.os_version value.bytes heap
    some ({ current with os_version }, heap)
  else if strcmp (ascii "conflicts") name.bytes = 0 then do
    let (conflicts, heap) ← strListParse current.conflicts value.bytes (ascii ",") heap
    some ({ current with conflicts }, heap)
  else some (current, heap)

/-- `array_list_init`. -/
def arrayListInit (heap : Heap) (initial_capacity : Int) : ModuleArray × Heap :=
  (⟨heap.alloc.1, initial_capacity, []⟩, heap.alloc.2)

/-- `array_list_add` before `-1`, and the module that is written there. -/
def arrayListAdd (modules : ModuleArray) (info : Info) (heap : Heap) :
    Option (ModuleArray × Heap) :=
  let new_size : Int := modules.infos.length + 1
  if modules.capacity ≥ new_size then
    some ({ modules with infos := modules.infos ++ [info] }, heap)
  else do
    let capacity ← ArrayList.grow new_size (ArrayList.startCapacity modules.capacity)
      (ArrayList.startCapacity_pos _)
    let (data, heap) ← heap.realloc modules.data
    some (⟨data, capacity, modules.infos ++ [info]⟩, heap)

/-! ## What is there -/

@[inherit_doc Constraints.erase] def Info.erase (info : Info) : RawInfo where
  id := info.id.map Ptr.target
  group := info.group.map Ptr.target
  name := info.name.map Ptr.target
  has_audio := info.has_audio
  has_video := info.has_video
  weight := info.weight
  conflicts := info.conflicts.strings
  os_version := info.os_version.erase

@[inherit_doc Constraints.erase] def Context.erase (context : Context) : RawContext where
  current := context.current.erase
  modules := context.modules.infos.map Info.erase

/-- `section_changed`. -/
def sectionChanged (os : VersionInfo) (context : Context) (heap : Heap) :
    Option (Context × Heap) :=
  if context.current.id.isNone then some (context, heap)
  else if !versionConstraintsCheck context.current.os_version.erase os then do
    let (current, heap) ← moduleInfoClear context.current heap
    some ({ context with current }, heap)
  else do
    let (modules, heap) ← arrayListAdd context.modules context.current heap
    some (⟨.zero, modules⟩, heap)

/-- What `modules_ini_handler` does when a call belongs to another section. -/
def openSection (os : VersionInfo) (context : Context) (heap : Heap) (sectionName : CString) :
    Option (Context × Heap) := do
  let changed ← isAnotherSection (some sectionName) context.current.erase.id
  if changed then
    let (context, heap) ← sectionChanged os context heap
    let (copy, heap) := strdup sectionName heap
    some ({ context with current := { context.current with id := some copy } }, heap)
  else some (context, heap)

/-- `modules_ini_handler`. -/
def modulesIniHandler (os : VersionInfo) (context : Context) (heap : Heap) (call : IniCall) :
    Option (Context × Heap) := do
  let (context, heap) ← openSection os context heap call.sectionName
  let (current, heap) ← setKey context.current call.name call.value heap
  some ({ context with current }, heap)

/-- `SS4S_ModulesList`: without a file the list is empty. -/
def modulesList (qsort : List Info → List Info) (os : VersionInfo)
    (file : Option (List IniCall)) (heap : Heap) : Option (ModuleArray × Heap) :=
  let (modules, heap) := arrayListInit heap 16
  match file with
  | none => some (modules, heap)
  | some calls => do
      let (current, heap) ← moduleInfoClear .zero heap
      let (context, heap) ← calls.foldlM (fun (context, heap) call =>
        modulesIniHandler os context heap call) (⟨current, modules⟩, heap)
      let (context, heap) ← sectionChanged os context heap
      some ({ context.modules with infos := qsort context.modules.infos }, heap)

/-- `SS4S_ModulesListClear`, from the last module to the first. -/
def modulesListClear (modules : ModuleArray) (heap : Heap) : Option Heap := do
  let heap ← modules.infos.reverse.foldlM (fun heap info =>
    (moduleInfoClear info heap).map Prod.snd) heap
  heap.free modules.data

end CommonsC.Modules.Memory
