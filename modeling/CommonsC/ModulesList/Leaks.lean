import CommonsC.ModulesList.Memory
import Mathlib.Tactic.Ring

/-!
# CommonsC.ModulesList.Leaks

What is left of a module list that was loaded and cleared
(`media/ss4s/modules-list/ss4s_modules.c`).

A key that comes again in its section puts a new pointer where the last one was,
and nobody frees that one; nor is the array freed that `str_list_parse` allocates
for a value without an item.  Nothing else is lost, and no block is freed twice.

`Accounts` says whose every block is while the file is read: it is one of the
list, one of the module that is being read, or it was lost, and how many were lost
follows from the calls.  Each function of the parser keeps the accounts; the main
step is that of a key (`setKey_accounted`).
-/

namespace CommonsC.Modules.Memory

open Blocks CString Version

/-! ## What a file loses -/

/-- The key of a call. -/
def is (key : String) (call : IniCall) : Bool := call.name.bytes = ascii key

/-- A list of conflicts with an item. -/
def stores (call : IniCall) : Bool :=
  is "conflicts" call && pieces (ascii ",") call.value.bytes ≠ []

/-- A list of conflicts that is nothing but delimiters. -/
def drops (call : IniCall) : Bool :=
  is "conflicts" call && call.value.bytes ≠ [] && pieces (ascii ",") call.value.bytes = []

/-- How many calls come after another one of their kind. -/
def repeats (P : IniCall → Bool) (run : List IniCall) : ℕ := run.countP P - 1

/-- How many blocks a section loses. -/
def lostInRun (run : List IniCall) : ℕ :=
  repeats (is "name") run + repeats (is "group") run + 2 * repeats stores run + run.countP drops

/-- How many blocks a file loses. -/
def lostInFile (calls : List IniCall) : ℕ := ((runs calls).map lostInRun).sum

theorem repeats_append (P : IniCall → Bool) (run : List IniCall) (call : IniCall) :
    repeats P (run ++ [call]) =
      repeats P run + if P call = true ∧ run.any P = true then 1 else 0 := by
  rw [repeats, repeats, List.countP_append, List.countP_singleton]
  have hany : run.any P = true ↔ 0 < run.countP P := by
    rw [List.countP_pos_iff, List.any_eq_true]
  by_cases hcall : P call = true
  · simp only [hcall, hany, if_true, true_and]
    split <;> omega
  · simp [hcall]

/-! ## The blocks of a module -/

/-- The blocks of a module. -/
def Info.blocks (info : Info) : Multiset ℕ :=
  blockOf (blockAt info.id) + blockOf (blockAt info.group) + blockOf (blockAt info.name) +
    blockOf info.conflicts.elements + blockOf info.conflicts.raw +
    blockOf (blockAt info.os_version.elements)

/-- The blocks of a list. -/
def ModuleArray.blocks (modules : ModuleArray) : Multiset ℕ :=
  {modules.data} + (modules.infos.map Info.blocks).sum

@[simp] theorem Info.blocks_zero : Info.zero.blocks = 0 := rfl

theorem card_blockOf (p : Option ℕ) : (blockOf p).card = if p.isSome then 1 else 0 := by
  cases p <;> rfl

/-- **`module_info_clear`** frees the blocks of a module that has an id. -/
theorem moduleInfoClear_owned {info : Info} (hid : info.id.isSome) {heap : Heap}
    {rest : Multiset ℕ} (hown : Owned heap (info.blocks + rest)) :
    ∃ heap', moduleInfoClear info heap = some (.zero, heap') ∧ Owned heap' rest := by
  obtain ⟨id, hid⟩ := Option.isSome_iff_exists.1 hid
  have hblock : blockOf (blockAt info.id) = {id.block} := by rw [blockAt, hid]; rfl
  have hstart : Owned heap ({id.block} + (blockOf (blockAt info.group) +
      (blockOf (blockAt info.name) + (blockOf info.conflicts.elements +
        (blockOf info.conflicts.raw + (blockOf (blockAt info.os_version.elements) + rest)))))) :=
    hown.congr (by rw [Info.blocks, hblock]; abel)
  obtain ⟨heap₁, h₁, hown₁⟩ := hstart.free
  obtain ⟨heap₂, h₂, hown₂⟩ := hown₁.freeIf
  obtain ⟨heap₃, h₃, hown₃⟩ := hown₂.freeIf
  obtain ⟨heap₄, h₄, hown₄⟩ := hown₃.freeIf
  obtain ⟨heap₅, h₅, hown₅⟩ := hown₄.freeIf
  obtain ⟨heap₆, h₆, hown₆⟩ := hown₅.freeIf
  refine ⟨heap₆, ?_, hown₆⟩
  simp only [moduleInfoClear, hid, h₁, h₂, h₃, h₄, h₅, h₆, Option.bind_eq_bind, Option.bind_some]

/-- The capacity of a list that has grown from 16 places. -/
def ModuleArray.Grown (modules : ModuleArray) : Prop :=
  0 < modules.capacity ∧ ArrayList.topDoubling (2 ^ 31 - 1) modules.capacity.toNat = 2 ^ 30

/-- `array_list_add` adds the blocks of a module to those of a list, if the
capacity can be doubled once more. -/
theorem arrayListAdd_owned {modules : ModuleArray} {info : Info} {heap : Heap}
    {rest : Multiset ℕ} (hgrown : modules.Grown) (hroom : modules.infos.length < 2 ^ 30)
    (hown : Owned heap (info.blocks + modules.blocks + rest)) :
    ∃ modules' heap', arrayListAdd modules info heap = some (modules', heap') ∧
      modules'.infos = modules.infos ++ [info] ∧ modules'.Grown ∧
      Owned heap' (modules'.blocks + rest) := by
  rw [arrayListAdd]
  dsimp only
  split
  · refine ⟨_, _, rfl, rfl, hgrown, hown.congr ?_⟩
    simp only [ModuleArray.blocks, List.map_append, List.sum_append, List.map_singleton,
      List.sum_singleton]
    abel
  · next hfull =>
      obtain ⟨hpos, htop⟩ := hgrown
      have hstart : ArrayList.startCapacity modules.capacity = modules.capacity := if_pos hpos
      have hmax : modules.capacity ≤ ArrayList.intMax := by
        rw [ArrayList.intMax]
        omega
      obtain ⟨capacity, hgrow, hle, -⟩ :=
        (ArrayList.exists_grow_iff modules.capacity modules.infos.length hmax).2 (by
          rw [max_eq_left (by omega), htop]
          omega)
      have htop' := ArrayList.topDoubling_of_grow hgrow
      rw [hstart] at htop'
      have hdata : Owned heap ({modules.data} +
          (info.blocks + (modules.infos.map Info.blocks).sum + rest)) :=
        hown.congr (by rw [ModuleArray.blocks]; abel)
      obtain ⟨data, heap', hrealloc, hown'⟩ := hdata.realloc
      have hpos' : 0 < capacity := by omega
      rw [hgrow, Option.bind_eq_bind, Option.bind_some, hrealloc]
      refine ⟨_, _, rfl, rfl, ⟨hpos', htop'.trans htop⟩, hown'.congr ?_⟩
      simp only [ModuleArray.blocks, List.map_append, List.sum_append, List.map_singleton,
        List.sum_singleton]
      abel

/-! ## Values that are parsed -/

/-- The assertions held, and either all pieces are constraints or the struct is empty. -/
theorem parseConstraints_ok {constraints parsed : VersionConstraints} {value : List UInt8}
    (h : parseConstraints constraints value = .ok parsed) :
    constraints = .clear ∧ (parsed = .clear ∨ parsed.elements.isSome) := by
  rw [parseConstraints] at h
  cases hparse : Version.versionConstraintsParse constraints value with
  | none =>
      rw [hparse] at h
      cases h
  | some read =>
      have hclear : constraints = .clear := by
        by_contra hne
        cases (versionConstraintsParse_eq_none.2 hne).symm.trans hparse
      rw [hparse] at h
      dsimp only at h
      split at h
      · cases h
        refine ⟨hclear, ?_⟩
        rw [hclear] at hparse
        rcases versionConstraintsParse_cases value with ⟨cs, elements, -, hread, -⟩ | ⟨-, hread⟩
        · cases hparse.symm.trans hread
          exact .inr rfl
        · cases hparse.symm.trans hread
          exact .inl rfl
      · cases h

/-- Constraints are only read where there are none; `tmp` is freed, and `elements`
with a piece that is no constraint. -/
theorem versionConstraintsParse_owned (constraints : Constraints) (value : List UInt8) {heap : Heap}
    {rest : Multiset ℕ} (hown : Owned heap rest) :
    (versionConstraintsParse constraints value heap = none ∧
        ∃ fault, parseConstraints constraints.erase value = .error fault) ∨
      ∃ constraints' heap',
        versionConstraintsParse constraints value heap = some (constraints', heap') ∧
        parseConstraints constraints.erase value = .ok constraints'.erase ∧
        constraints.elements = none ∧
        Owned heap' (blockOf (blockAt constraints'.elements) + rest) := by
  rw [versionConstraintsParse]
  cases hparse : parseConstraints constraints.erase value with
  | error fault => exact .inl ⟨rfl, fault, rfl⟩
  | ok parsed =>
      obtain ⟨hclear, hcases⟩ := parseConstraints_ok hparse
      have hempty : constraints.elements = none :=
        Option.map_eq_none_iff.1 (congrArg VersionConstraints.elements hclear)
      have hallocs : Owned heap.alloc.2.alloc.2
          ({heap.alloc.2.alloc.1} + ({heap.alloc.1} + rest)) := hown.alloc.alloc
      obtain ⟨count, elements⟩ := parsed
      right
      cases elements with
      | some found =>
          obtain ⟨heap', hfree, hown'⟩ := hallocs.free
          refine ⟨⟨count, some ⟨heap.alloc.1, found⟩⟩, heap', ?_, rfl, hempty, hown'⟩
          simp only [Except.toOption, Option.bind_eq_bind, Option.bind_some, hfree]
      | none =>
          have hzero : (⟨count, none⟩ : VersionConstraints) = .clear :=
            hcases.resolve_right (by simp)
          have hswap := hallocs.congr (add_left_comm _ _ _)
          obtain ⟨heap₁, hfree₁, hown₁⟩ := hswap.free
          obtain ⟨heap', hfree, hown'⟩ := hown₁.free
          refine ⟨.zero, heap', ?_, by rw [hzero]; rfl, hempty, hown'.congr (zero_add _).symm⟩
          simp only [Except.toOption, Option.bind_eq_bind, Option.bind_some, hfree₁, hfree]

/-- The strings that are there of a value without an item, and of one with items. -/
theorem strListParse_there (list : StrList) {value : List UInt8}
    (hcount : value.countP (· ∈ ascii ",") < 2 ^ 31 - 1) :
    ∃ n_items parsed,
      StrList.strListParse (.ofStrings list.strings) value (ascii ",") = some (n_items, parsed) ∧
      (n_items = 0 ↔ pieces (ascii ",") value = []) ∧
      (pieces (ascii ",") value = [] → parsed.strings = list.strings) := by
  obtain ⟨parsed, hparse, hsame, -⟩ := (StrList.strListParse_stores (.ofStrings list.strings)
    value (ascii ",")).2 hcount
  refine ⟨_, parsed, hparse, List.length_eq_zero_iff, fun hnil => ?_⟩
  rw [hsame hnil, StrList.strings_ofStrings]

/-- Without an item the list stays, and the array is lost if there was a value. -/
theorem strListParse_drops (list : StrList) {value : List UInt8} {heap : Heap} {rest : Multiset ℕ}
    (hcount : value.countP (· ∈ ascii ",") < 2 ^ 31 - 1)
    (hpieces : pieces (ascii ",") value = []) (hown : Owned heap rest) :
    ∃ heap' lost, strListParse list value (ascii ",") heap = some (list, heap') ∧
      Owned heap' (lost + rest) ∧ lost.card = if value = [] then 0 else 1 := by
  by_cases hvalue : value = []
  · exact ⟨heap, 0, if_pos hvalue, hown.congr (zero_add rest).symm, by simp [hvalue]⟩
  · obtain ⟨n_items, parsed, hparse, hzero, -⟩ := strListParse_there list hcount
    obtain ⟨heap', hfree, hown'⟩ := hown.alloc.alloc.free
    refine ⟨heap', {heap.alloc.1}, ?_, hown', by simp [hvalue]⟩
    rw [strListParse, if_neg hvalue, hparse]
    simp only [Option.bind_eq_bind, Option.bind_some, if_pos (hzero.2 hpieces), hfree]

/-- With an item there are two new blocks. -/
theorem strListParse_allocates (list : StrList) {value : List UInt8} {heap : Heap}
    {rest : Multiset ℕ} (hcount : value.countP (· ∈ ascii ",") < 2 ^ 31 - 1)
    (hpieces : pieces (ascii ",") value ≠ []) (hown : Owned heap rest) :
    ∃ list' heap' n_items parsed items value_dup,
      strListParse list value (ascii ",") heap = some (list', heap') ∧
      StrList.strListParse (.ofStrings list.strings) value (ascii ",") = some (n_items, parsed) ∧
      list'.strings = parsed.strings ∧
      list'.elements = some items ∧ list'.raw = some value_dup ∧
      Owned heap' ({items} + {value_dup} + rest) := by
  have hvalue : value ≠ [] := by
    rintro rfl
    exact hpieces rfl
  obtain ⟨n_items, parsed, hparse, hzero, -⟩ := strListParse_there list hcount
  refine ⟨⟨parsed.strings, some heap.alloc.1, some heap.alloc.2.alloc.1⟩, heap.alloc.2.alloc.2,
    n_items, parsed, _, _, ?_, hparse, rfl, rfl, rfl, hown.alloc.alloc.congr (by abel)⟩
  rw [strListParse, if_neg hvalue, hparse]
  simp only [Option.bind_eq_bind, Option.bind_some, if_neg (mt hzero.1 hpieces)]

/-! ## One key -/

/-- The pointers that the keys of a section have set. -/
structure Has (run : List IniCall) (info : Info) : Prop where
  name : info.name.isSome = run.any (is "name")
  group : info.group.isSome = run.any (is "group")
  elements : info.conflicts.elements.isSome = run.any stores
  raw : info.conflicts.raw.isSome = run.any stores

/-- What a call loses, after the calls `run` of its section. -/
def lostBy (run : List IniCall) (call : IniCall) : ℕ :=
  (if is "name" call = true ∧ run.any (is "name") = true then 1 else 0) +
    (if is "group" call = true ∧ run.any (is "group") = true then 1 else 0) +
    2 * (if stores call = true ∧ run.any stores = true then 1 else 0) +
    if drops call = true then 1 else 0

theorem lostInRun_append (run : List IniCall) (call : IniCall) :
    lostInRun (run ++ [call]) = lostInRun run + lostBy run call := by
  have hdrops : (run ++ [call]).countP drops =
      run.countP drops + if drops call = true then 1 else 0 := by
    rw [List.countP_append, List.countP_singleton]
  rw [lostInRun, lostInRun, lostBy, repeats_append, repeats_append, repeats_append, hdrops]
  ring

/-- What a key does: it fails, as it does for what is there, or the blocks that it
replaces are lost. -/
def Accounted (run : List IniCall) (call : IniCall) (current : Info) (rest : Multiset ℕ)
    (heap : Heap) : Prop :=
  (setKey current call.name call.value heap = none ∧ ∃ fault,
      Modules.setKey current.erase.toModuleFields call.name call.value = .error fault) ∨
    ∃ current' heap' lost, setKey current call.name call.value heap = some (current', heap') ∧
      Modules.setKey current.erase.toModuleFields call.name call.value =
        .ok current'.erase.toModuleFields ∧
      current'.id = current.id ∧ Has (run ++ [call]) current' ∧
      Owned heap' (current'.blocks + (lost + rest)) ∧ lost.card = lostBy run call

section Keys

variable {run : List IniCall} {call : IniCall} {current : Info} {rest : Multiset ℕ} {heap : Heap}

theorem setKey_name (h : call.name.bytes = ascii "name") (hhas : Has run current)
    (hown : Owned heap (current.blocks + rest)) : Accounted run call current rest heap := by
  have hkeys : is "name" call = true ∧ is "group" call = false ∧ stores call = false ∧
      drops call = false := by simp +decide [is, stores, drops, h]
  refine .inr ⟨{ current with name := some (strdup call.value heap).1 }, (strdup call.value heap).2,
    blockOf (blockAt current.name), by simp +decide [setKey, h],
    by simp +decide [Modules.setKey, h, Info.erase, strdup], rfl, ?_, ?_, ?_⟩
  · constructor
    · simp [hkeys]
    · simp [hkeys, hhas.group]
    · simp [hkeys, hhas.elements]
    · simp [hkeys, hhas.raw]
  · refine hown.alloc.congr ?_
    simp only [Info.blocks, strdup, blockAt, Option.map_some, blockOf_some]
    abel
  · rw [card_blockOf, lostBy, blockAt, Option.isSome_map, hhas.name]
    simp [hkeys]

theorem setKey_group (h : call.name.bytes = ascii "group") (hhas : Has run current)
    (hown : Owned heap (current.blocks + rest)) : Accounted run call current rest heap := by
  have hkeys : is "name" call = false ∧ is "group" call = true ∧ stores call = false ∧
      drops call = false := by simp +decide [is, stores, drops, h]
  refine .inr ⟨{ current with group := some (strdup call.value heap).1 },
    (strdup call.value heap).2, blockOf (blockAt current.group), by simp +decide [setKey, h],
    by simp +decide [Modules.setKey, h, Info.erase, strdup], rfl, ?_, ?_, ?_⟩
  · constructor
    · simp [hkeys, hhas.name]
    · simp [hkeys]
    · simp [hkeys, hhas.elements]
    · simp [hkeys, hhas.raw]
  · refine hown.alloc.congr ?_
    simp only [Info.blocks, strdup, blockAt, Option.map_some, blockOf_some]
    abel
  · rw [card_blockOf, lostBy, blockAt, Option.isSome_map, hhas.group]
    simp [hkeys]

/-- A key that sets no string loses nothing. -/
theorem accounted_of_none (current' : Info) (hname : is "name" call = false)
    (hgroup : is "group" call = false) (hstores : stores call = false) {heap' : Heap}
    {lost : Multiset ℕ}
    (hlost : lost.card = if drops call = true then 1 else 0)
    (hset : setKey current call.name call.value heap = some (current', heap'))
    (hthere : Modules.setKey current.erase.toModuleFields call.name call.value =
      .ok current'.erase.toModuleFields)
    (hsame : current'.id = current.id ∧ current'.name = current.name ∧
      current'.group = current.group ∧ current'.conflicts.elements = current.conflicts.elements ∧
      current'.conflicts.raw = current.conflicts.raw)
    (hhas : Has run current) (hown : Owned heap' (current'.blocks + (lost + rest))) :
    Accounted run call current rest heap := by
  obtain ⟨hid, hsameName, hsameGroup, helements, hraw⟩ := hsame
  refine .inr ⟨current', heap', lost, hset, hthere, hid, ?_, hown, ?_⟩
  · constructor
    · simp [hsameName, hname, hhas.name]
    · simp [hsameGroup, hgroup, hhas.group]
    · simp [helements, hstores, hhas.elements]
    · simp [hraw, hstores, hhas.raw]
  · rw [hlost, lostBy]
    simp [hname, hgroup, hstores]

/-- The other keys touch neither the heap nor a pointer. -/
theorem setKey_untouched (hname : is "name" call = false) (hgroup : is "group" call = false)
    (hversion : is "os_version" call = false) (hconflicts : is "conflicts" call = false)
    (current : Info) (heap : Heap) :
    ∃ current', setKey current call.name call.value heap = some (current', heap) ∧
      Modules.setKey current.erase.toModuleFields call.name call.value =
        .ok current'.erase.toModuleFields ∧
      (current'.id = current.id ∧ current'.name = current.name ∧
        current'.group = current.group ∧
        current'.conflicts.elements = current.conflicts.elements ∧
        current'.conflicts.raw = current.conflicts.raw) ∧ current'.blocks = current.blocks := by
  simp only [is, decide_eq_false_iff_not] at hname hgroup hversion hconflicts
  by_cases hweight : call.name.bytes = ascii "weight"
  · exact ⟨{ current with weight := weightOf call.value }, by simp +decide [setKey, hweight],
      by simp +decide [Modules.setKey, hweight, Info.erase], ⟨rfl, rfl, rfl, rfl, rfl⟩, rfl⟩
  by_cases haudio : call.name.bytes = ascii "audio"
  · exact ⟨{ current with has_audio := strcmp (ascii "true") call.value.bytes == 0 },
      by simp +decide [setKey, haudio],
      by simp +decide [Modules.setKey, haudio, Info.erase], ⟨rfl, rfl, rfl, rfl, rfl⟩, rfl⟩
  by_cases hvideo : call.name.bytes = ascii "video"
  · exact ⟨{ current with has_video := strcmp (ascii "true") call.value.bytes == 0 },
      by simp +decide [setKey, hvideo],
      by simp +decide [Modules.setKey, hvideo, Info.erase], ⟨rfl, rfl, rfl, rfl, rfl⟩, rfl⟩
  have hother : ∀ key ∈ ["name", "group", "weight", "audio", "video", "os_version",
      "conflicts"], strcmp (ascii key) call.name.bytes ≠ 0 := by
    intro key hkey hcmp
    have hnul : ∀ key ∈ ["name", "group", "weight", "audio", "video", "os_version",
      "conflicts"], 0 ∉ ascii key := by decide
    have heq := (strcmp_ascii (hnul key hkey)).1 hcmp
    simp only [List.mem_cons, List.not_mem_nil, or_false] at hkey
    rcases hkey with rfl | rfl | rfl | rfl | rfl | rfl | rfl <;> contradiction
  simp only [List.forall_mem_cons] at hother
  obtain ⟨h₁, h₂, h₃, h₄, h₅, h₆, h₇, -⟩ := hother
  exact ⟨current, by simp [setKey, h₁, h₂, h₃, h₄, h₅, h₆, h₇],
    by simp [Modules.setKey, h₁, h₂, h₃, h₄, h₅, h₆, h₇], ⟨rfl, rfl, rfl, rfl, rfl⟩, rfl⟩

theorem setKey_plain (hname : is "name" call = false) (hgroup : is "group" call = false)
    (hversion : is "os_version" call = false) (hconflicts : is "conflicts" call = false)
    (hhas : Has run current) (hown : Owned heap (current.blocks + rest)) :
    Accounted run call current rest heap := by
  have hstores : stores call = false := by rw [stores, hconflicts, Bool.false_and]
  have hdrops : drops call = false := by rw [drops, hconflicts, Bool.false_and, Bool.false_and]
  obtain ⟨current', hset, hthere, hsame, hblocks⟩ :=
    setKey_untouched hname hgroup hversion hconflicts current heap
  exact accounted_of_none current' hname hgroup hstores
    (by rw [hdrops]; exact Multiset.card_zero) hset hthere hsame hhas
    (hown.congr (by rw [hblocks, zero_add]))

/-- Constraints are read where there are none. -/
theorem setKey_os_version (h : call.name.bytes = ascii "os_version") (hhas : Has run current)
    (hown : Owned heap (current.blocks + rest)) : Accounted run call current rest heap := by
  have hkeys : is "name" call = false ∧ is "group" call = false ∧ stores call = false ∧
      drops call = false := by simp +decide [is, stores, drops, h]
  have hset : setKey current call.name call.value heap =
      (versionConstraintsParse current.os_version call.value.bytes heap).map fun r =>
        ({ current with os_version := r.1 }, r.2) := by
    cases hparse : versionConstraintsParse current.os_version call.value.bytes heap <;>
      simp +decide [setKey, h, hparse]
  have hos : IsOsVersion call := h
  have hthere := setKey_parses hos current.erase.toModuleFields
  rcases versionConstraintsParse_owned current.os_version call.value.bytes hown with
    ⟨hmemory, fault, hfault⟩ | ⟨v, heap', hmemory, hparse, hempty, hown'⟩
  · exact .inl ⟨by rw [hset, hmemory]; rfl, fault, hthere.trans (congrArg (Except.map _) hfault)⟩
  · have hblocks : ({ current with os_version := v } : Info).blocks =
        blockOf (blockAt v.elements) + current.blocks := by
      rw [Info.blocks, Info.blocks, hempty]
      simp only [blockAt, Option.map_none, blockOf_none]
      abel
    exact accounted_of_none { current with os_version := v } hkeys.1 hkeys.2.1 hkeys.2.2.1
      (by rw [hkeys.2.2.2]; exact Multiset.card_zero) (by rw [hset, hmemory]; rfl)
      (hthere.trans (congrArg (Except.map _) hparse)) ⟨rfl, rfl, rfl, rfl, rfl⟩ hhas
      (hown'.congr (by rw [hblocks, zero_add, add_assoc]))

/-- `conflicts` on the memory, and for what is there. -/
theorem setKey_eq_conflicts (h : call.name.bytes = ascii "conflicts") (current : Info)
    (heap : Heap) :
    setKey current call.name call.value heap =
        ((strListParse current.conflicts call.value.bytes (ascii ",") heap).map fun r =>
          ({ current with conflicts := r.1 }, r.2)) ∧
      Modules.setKey current.erase.toModuleFields call.name call.value =
        orFault .overflow ((StrList.strListParse (.ofStrings current.conflicts.strings)
          call.value.bytes (ascii ",")).map fun r =>
            { current.erase.toModuleFields with conflicts := r.2.strings }) := by
  constructor
  · cases hparse : strListParse current.conflicts call.value.bytes (ascii ",") heap <;>
      simp +decide [setKey, h, hparse]
  · simp +decide [Modules.setKey, h, Info.erase]

/-- The commas are too many for an `int`. -/
theorem setKey_conflicts_overflow (h : call.name.bytes = ascii "conflicts")
    (hcount : ¬call.value.bytes.countP (· ∈ ascii ",") < 2 ^ 31 - 1) :
    Accounted run call current rest heap := by
  obtain ⟨hset, hthere⟩ := setKey_eq_conflicts h current heap
  have hnone : StrList.strListParse (.ofStrings current.conflicts.strings) call.value.bytes
      (ascii ",") = none := by
    have hstrings := StrList.strings_strListParse (.ofStrings current.conflicts.strings)
      call.value.bytes (ascii ",")
    rwa [if_neg hcount, Option.map_eq_none_iff] at hstrings
  have hvalue : call.value.bytes ≠ [] := fun hnil => hcount (by rw [hnil]; decide)
  refine .inl ⟨?_, .overflow, by rw [hthere, hnone]; rfl⟩
  rw [hset, strListParse, if_neg hvalue, hnone]
  rfl

/-- A list without an item leaves the one before. -/
theorem setKey_conflicts_drops (h : call.name.bytes = ascii "conflicts")
    (hcount : call.value.bytes.countP (· ∈ ascii ",") < 2 ^ 31 - 1)
    (hpieces : pieces (ascii ",") call.value.bytes = []) (hhas : Has run current)
    (hown : Owned heap (current.blocks + rest)) : Accounted run call current rest heap := by
  obtain ⟨hset, hthere⟩ := setKey_eq_conflicts h current heap
  have hkeys : is "name" call = false ∧ is "group" call = false ∧ is "conflicts" call = true ∧
      stores call = false := by simp +decide [is, stores, h, hpieces]
  obtain ⟨heap', lost, hmemory, hown', hcard⟩ :=
    strListParse_drops current.conflicts hcount hpieces hown
  obtain ⟨n_items, parsed, hparse, -, hsame⟩ := strListParse_there current.conflicts hcount
  refine accounted_of_none current hkeys.1 hkeys.2.1 hkeys.2.2.2 ?_ (by rw [hset, hmemory]; rfl)
    ?_ ⟨rfl, rfl, rfl, rfl, rfl⟩ hhas (hown'.congr (by abel))
  · rw [hcard, drops, hkeys.2.2.1, hpieces]
    by_cases hvalue : call.value.bytes = [] <;> simp [hvalue]
  · rw [hthere, hparse, Option.map_some, hsame hpieces]
    rfl

/-- A list with an item replaces the one before. -/
theorem setKey_conflicts_stores (h : call.name.bytes = ascii "conflicts")
    (hcount : call.value.bytes.countP (· ∈ ascii ",") < 2 ^ 31 - 1)
    (hpieces : pieces (ascii ",") call.value.bytes ≠ []) (hhas : Has run current)
    (hown : Owned heap (current.blocks + rest)) : Accounted run call current rest heap := by
  obtain ⟨hset, hthere⟩ := setKey_eq_conflicts h current heap
  have hkeys : is "name" call = false ∧ is "group" call = false ∧ stores call = true ∧
      drops call = false := by simp +decide [is, stores, drops, h, hpieces]
  obtain ⟨l, heap', n_items, parsed, items, value_dup, hmemory, hparse, hstrings, helements, hraw,
    hown'⟩ := strListParse_allocates current.conflicts hcount hpieces hown
  refine .inr ⟨{ current with conflicts := l }, heap',
    blockOf current.conflicts.elements + blockOf current.conflicts.raw,
    by rw [hset, hmemory]; rfl, ?_, rfl, ?_, ?_, ?_⟩
  · rw [hthere, hparse, Option.map_some, ← hstrings]
    rfl
  · constructor
    · simp [hkeys, hhas.name]
    · simp [hkeys, hhas.group]
    · simp [helements, hkeys]
    · simp [hraw, hkeys]
  · refine hown'.congr ?_
    simp only [Info.blocks, helements, hraw, blockOf_some]
    abel
  · rw [Multiset.card_add, card_blockOf, card_blockOf, hhas.elements, hhas.raw, lostBy]
    simp only [hkeys, true_and]
    split <;> rfl

/-- A list of conflicts replaces the one before, if it has an item and is counted. -/
theorem setKey_conflicts (h : call.name.bytes = ascii "conflicts") (hhas : Has run current)
    (hown : Owned heap (current.blocks + rest)) : Accounted run call current rest heap := by
  by_cases hcount : call.value.bytes.countP (· ∈ ascii ",") < 2 ^ 31 - 1
  · by_cases hpieces : pieces (ascii ",") call.value.bytes = []
    · exact setKey_conflicts_drops h hcount hpieces hhas hown
    · exact setKey_conflicts_stores h hcount hpieces hhas hown
  · exact setKey_conflicts_overflow h hcount

/-- **A key loses the blocks that it replaces, and no others.** -/
theorem setKey_accounted (hhas : Has run current) (hown : Owned heap (current.blocks + rest)) :
    Accounted run call current rest heap := by
  by_cases hname : call.name.bytes = ascii "name"
  · exact setKey_name hname hhas hown
  by_cases hgroup : call.name.bytes = ascii "group"
  · exact setKey_group hgroup hhas hown
  by_cases hversion : call.name.bytes = ascii "os_version"
  · exact setKey_os_version hversion hhas hown
  by_cases hconflicts : call.name.bytes = ascii "conflicts"
  · exact setKey_conflicts hconflicts hhas hown
  exact setKey_plain (by simpa [is]) (by simpa [is]) (by simpa [is]) (by simpa [is]) hhas hown

end Keys

/-! ## Sections -/

/-- The calls `before` are those of the section that is being read, and `earlier`
are those of the sections before it. -/
structure Sections (earlier before : List IniCall) (id : Option CString) : Prop where
  started : before = [] → earlier = []
  isSome : id.isSome ↔ before ≠ []
  same : ∀ call ∈ before, ∀ found ∈ id, call.sectionName.bytes = found.bytes
  ends : ∀ x ∈ earlier.getLast?, ∀ y ∈ before.head?, x.sectionName.bytes ≠ y.sectionName.bytes

namespace Sections

variable {earlier before : List IniCall} {id : Option CString}

/-- A section that is at its end is one run more. -/
theorem lostInFile_append (h : Sections earlier before id) :
    lostInFile (earlier ++ before) = lostInFile earlier + lostInRun before := by
  by_cases hbefore : before = []
  · rw [hbefore, h.started hbefore]
    rfl
  · obtain ⟨id, rfl⟩ := Option.isSome_iff_exists.1 (h.isSome.2 hbefore)
    have hsplit : runs (earlier ++ before) = runs earlier ++ runs before :=
      List.splitBy_append fun x hx y hy => beq_eq_false_iff_ne.2 (h.ends x hx y hy)
    have hone : runs before = [before] := by
      refine List.splitBy_of_isChain hbefore
        (List.pairwise_of_forall_mem_list fun x hx y hy => ?_).isChain
      exact beq_iff_eq.2 ((h.same x hx id rfl).trans (h.same y hy id rfl).symm)
    rw [lostInFile, hsplit, hone, List.map_append, List.sum_append, List.map_singleton,
      List.sum_singleton]
    rfl

/-- A call of the section. -/
theorem append {call : IniCall} {id : CString} (h : Sections earlier before (some id))
    (hcall : call.sectionName.bytes = id.bytes) :
    Sections earlier (before ++ [call]) (some id) where
  started hnil := by simp at hnil
  isSome := by simp
  same := by
    rintro c hc _ ⟨⟩
    rcases List.mem_append.1 hc with hc | hc
    · exact h.same c hc id rfl
    · rw [List.mem_singleton.1 hc, hcall]
  ends x hx y hy := by
    obtain ⟨first, rest, rfl⟩ := List.exists_cons_of_ne_nil (h.isSome.1 rfl)
    exact h.ends x hx y hy

/-- The first call of another section. -/
theorem next {call : IniCall} (h : Sections earlier before id)
    (hcall : ∀ found ∈ id, call.sectionName.bytes ≠ found.bytes) :
    Sections (earlier ++ before) [call] (some call.sectionName) where
  started hnil := by simp at hnil
  isSome := by simp
  same := by
    rintro c hc _ ⟨⟩
    rw [List.mem_singleton.1 hc]
  ends x hx y hy := by
    cases hy
    by_cases hbefore : before = []
    · rw [hbefore, h.started hbefore] at hx
      cases hx
    · obtain ⟨id, rfl⟩ := Option.isSome_iff_exists.1 (h.isSome.2 hbefore)
      rw [List.getLast?_append_of_ne_nil _ hbefore] at hx
      rw [h.same x (List.mem_of_getLast? hx) id rfl]
      exact (hcall id rfl).symm

end Sections

/-! ## The accounts -/

/-- Every block is one of a module, one that was lost, or one of `others`. -/
structure Accounts (earlier before : List IniCall) (context : Context) (heap : Heap)
    (others : Multiset ℕ) : Prop where
  sections : Sections earlier before context.current.erase.id
  start : context.current.id = none → context.current = .zero
  has : Has before context.current
  named : ∀ info ∈ context.modules.infos, info.id.isSome
  grown : context.modules.Grown
  room : context.modules.infos.length ≤ earlier.length
  owned : ∃ lost : Multiset ℕ,
    Owned heap (context.current.blocks + (context.modules.blocks + lost + others)) ∧
      lost.card = lostInFile earlier + lostInRun before

/-- The accounts at the end of a section: nothing is being read. -/
structure Closed (calls : List IniCall) (context : Context) (heap : Heap) (others : Multiset ℕ) :
    Prop where
  current : context.current = .zero
  named : ∀ info ∈ context.modules.infos, info.id.isSome
  grown : context.modules.Grown
  room : context.modules.infos.length ≤ calls.length
  owned : ∃ lost : Multiset ℕ, Owned heap (context.modules.blocks + lost + others) ∧
    lost.card = lostInFile calls

section Run

variable {earlier before : List IniCall} {context : Context} {heap : Heap} {others : Multiset ℕ}
  (os : VersionInfo)

/-- A module that fits the system goes to the list. -/
theorem Accounts.keep (h : Accounts earlier before context heap others)
    (hfew : (earlier ++ before).length ≤ 2 ^ 30) (hsome : context.current.id.isSome) :
    ∃ modules heap', arrayListAdd context.modules context.current heap = some (modules, heap') ∧
      modules.infos = context.modules.infos ++ [context.current] ∧
      Closed (earlier ++ before) ⟨.zero, modules⟩ heap' others := by
  obtain ⟨lost, hown, hcard⟩ := h.owned
  have hroom := h.room
  rw [← h.sections.lostInFile_append] at hcard
  have hbefore : 0 < before.length := List.length_pos_iff.2
    (h.sections.isSome.1 (by rw [Info.erase, Option.isSome_map]; exact hsome))
  rw [List.length_append] at hfew
  obtain ⟨modules, heap', hadd, hinfos, hgrown, hown'⟩ :=
    arrayListAdd_owned h.grown (by omega) (hown.congr (by rw [add_assoc, add_assoc]))
  refine ⟨modules, heap', hadd, hinfos, rfl, ?_, hgrown, ?_, lost,
    hown'.congr (by rw [add_assoc]), hcard⟩
  · intro info hmem
    rw [hinfos] at hmem
    rcases List.mem_append.1 hmem with hmem | hmem
    · exact h.named info hmem
    · rwa [List.mem_singleton.1 hmem]
  · rw [hinfos, List.length_append, List.length_append, List.length_singleton]
    omega

/-- One that does not is freed. -/
theorem Accounts.drop (h : Accounts earlier before context heap others)
    (hsome : context.current.id.isSome) :
    ∃ heap', moduleInfoClear context.current heap = some (.zero, heap') ∧
      Closed (earlier ++ before) { context with current := .zero } heap' others := by
  obtain ⟨lost, hown, hcard⟩ := h.owned
  rw [← h.sections.lostInFile_append] at hcard
  obtain ⟨heap', hclear, hown'⟩ := moduleInfoClear_owned hsome hown
  refine ⟨heap', hclear, rfl, h.named, h.grown, ?_, lost, hown', hcard⟩
  rw [List.length_append]
  exact Nat.le_add_right_of_le h.room

/-- **`section_changed`** keeps a module or frees it. -/
theorem Accounts.sectionChanged (h : Accounts earlier before context heap others)
    (hfew : (earlier ++ before).length ≤ 2 ^ 30) :
    ∃ context' heap', Memory.sectionChanged os context heap = some (context', heap') ∧
      context'.erase = sectionChangedPtr os context.erase ∧
      Closed (earlier ++ before) context' heap' others := by
  rw [Memory.sectionChanged, sectionChangedPtr]
  cases hid : context.current.id with
  | none =>
      have hzero := h.start hid
      obtain ⟨lost, hown, hcard⟩ := h.owned
      rw [← h.sections.lostInFile_append] at hcard
      refine ⟨context, heap, rfl, ?_, hzero, h.named, h.grown, ?_, lost, ?_, hcard⟩
      · rw [if_pos (by rw [Context.erase, hzero]; rfl)]
      · rw [List.length_append]
        exact Nat.le_add_right_of_le h.room
      · rwa [hzero, Info.blocks_zero, zero_add] at hown
  | some id =>
      have hsome : context.current.id.isSome := by rw [hid]; rfl
      have herased : context.erase.current.id ≠ none := by
        rw [Context.erase, Info.erase, hid]
        exact Option.some_ne_none _
      rw [Option.isNone_some, if_neg (by simp), if_neg herased]
      by_cases hcheck : (!versionConstraintsCheck context.current.os_version.erase os) = true
      · obtain ⟨heap', hclear, hclosed⟩ := h.drop hsome
        refine ⟨_, heap', ?_, ?_, hclosed⟩
        · rw [if_pos hcheck, hclear]
          rfl
        · refine Eq.trans ?_ (if_pos hcheck).symm
          rw [Modules.moduleInfoClear, if_neg herased]
          rfl
      · obtain ⟨modules, heap', hadd, hinfos, hclosed⟩ := h.keep hfew hsome
        refine ⟨_, heap', ?_, ?_, hclosed⟩
        · rw [if_neg hcheck, hadd]
          rfl
        · refine Eq.trans ?_ (if_neg hcheck).symm
          rw [Context.erase, Context.erase, hinfos, List.map_append]
          rfl

/-- The context to which a key is added. -/
def openedPtr (context : RawContext) (call : IniCall) : RawContext :=
  if context.current.id.all fun id => strcmp call.sectionName.bytes id.bytes ≠ 0 then
    let context := sectionChangedPtr os context
    { context with current := { context.current with id := some call.sectionName } }
  else context

theorem modulesIniHandlerPtr_eq (context : RawContext) (call : IniCall) :
    modulesIniHandlerPtr os context call =
      (Modules.setKey (openedPtr os context call).current.toModuleFields call.name call.value).map
        fun fields => { openedPtr os context call with
          current := { (openedPtr os context call).current with toModuleFields := fields } } := by
  have hbind : modulesIniHandlerPtr os context call =
      Modules.setKey (openedPtr os context call).current.toModuleFields call.name call.value >>=
        fun fields => .ok { openedPtr os context call with
          current := { (openedPtr os context call).current with toModuleFields := fields } } := by
    rw [modulesIniHandlerPtr, isAnotherSection_some]
    rfl
  rw [hbind]
  cases Modules.setKey (openedPtr os context call).current.toModuleFields call.name call.value <;>
    rfl

/-- A key goes to a section with its name. -/
theorem Accounts.openSection (h : Accounts earlier before context heap others) (call : IniCall)
    (hfew : (earlier ++ before).length ≤ 2 ^ 30) :
    ∃ earlier' run context' heap' id, Memory.openSection os context heap call.sectionName =
        some (context', heap') ∧
      context'.erase = openedPtr os context.erase call ∧
      earlier' ++ run = earlier ++ before ∧ context'.current.id = some id ∧
      Sections earlier' (run ++ [call]) (some id.target) ∧ Has run context'.current ∧
      (∀ info ∈ context'.modules.infos, info.id.isSome) ∧ context'.modules.Grown ∧
      context'.modules.infos.length ≤ earlier'.length ∧
      ∃ lost : Multiset ℕ,
        Owned heap' (context'.current.blocks + (context'.modules.blocks + lost + others)) ∧
          lost.card = lostInFile earlier' + lostInRun run := by
  rw [Memory.openSection, isAnotherSection_some, Option.bind_eq_bind, Option.bind_some]
  by_cases hchanged : (context.current.erase.id.all fun id =>
      strcmp call.sectionName.bytes id.bytes ≠ 0) = true
  · obtain ⟨closed, heap', hclose, herase, hclosed⟩ := h.sectionChanged os hfew
    obtain ⟨lost, hown, hcard⟩ := hclosed.owned
    have hother : ∀ found ∈ context.current.erase.id, call.sectionName.bytes ≠ found.bytes := by
      intro found hfound heq
      have hne := of_decide_eq_true ((Option.all_eq_true _ _).1 hchanged found hfound)
      exact hne (by rw [heq, strcmp_self])
    let copied := strdup call.sectionName heap'
    refine ⟨earlier ++ before, [], { closed with
      current := { closed.current with id := some copied.1 } }, copied.2, copied.1,
      by rw [if_pos hchanged, hclose]; rfl, ?_, List.append_nil _, rfl, h.sections.next hother, ?_,
      hclosed.named, hclosed.grown, hclosed.room, lost, ?_, by rw [hcard]; rfl⟩
    · refine Eq.trans ?_ (if_pos hchanged).symm
      rw [← herase]
      rfl
    · rw [hclosed.current]
      exact ⟨rfl, rfl, rfl, rfl⟩
    · refine hown.alloc.congr ?_
      rw [hclosed.current]
      rfl
  · have hsome : ∃ id, context.current.id = some id ∧
        call.sectionName.bytes = id.target.bytes := by
      cases hid : context.current.id with
      | none => exact absurd (by rw [Info.erase, hid]; rfl) hchanged
      | some id =>
          refine ⟨id, rfl, ?_⟩
          rw [Info.erase, hid, Option.map_some, Option.all_some, decide_eq_true_eq, not_not]
            at hchanged
          exact eq_of_strcmp call.sectionName.noNul id.target.noNul hchanged
    obtain ⟨id, hid, hcall⟩ := hsome
    have hsections := h.sections
    rw [Info.erase, hid] at hsections
    refine ⟨earlier, before, context, heap, id, if_neg hchanged, ?_, rfl, hid,
      hsections.append hcall, h.has, h.named, h.grown, h.room, h.owned⟩
    rw [openedPtr]
    exact (if_neg hchanged).symm

/-- **`modules_ini_handler`** keeps the accounts, unless the key fails. -/
theorem Accounts.step (h : Accounts earlier before context heap others) (call : IniCall)
    (hfew : (earlier ++ before).length ≤ 2 ^ 30) :
    (modulesIniHandler os context heap call = none ∧
        ∃ fault, modulesIniHandlerPtr os context.erase call = .error fault) ∨
      ∃ earlier' before' context' heap',
        modulesIniHandler os context heap call = some (context', heap') ∧
        modulesIniHandlerPtr os context.erase call = .ok context'.erase ∧
        earlier' ++ before' = earlier ++ before ++ [call] ∧
        Accounts earlier' before' context' heap' others := by
  obtain ⟨earlier', run, opened, heap₁, id, hopen, herase, hcalls, hid, hsections, hhas, hnamed,
    hgrown, hroom, lost, hown, hcard⟩ := h.openSection os call hfew
  rw [modulesIniHandler, modulesIniHandlerPtr_eq, hopen, ← herase, Option.bind_eq_bind,
    Option.bind_some]
  have hkey : Accounted run call opened.current _ heap₁ := setKey_accounted hhas hown
  rcases hkey with
    ⟨hnone, fault, hptr⟩ | ⟨current, heap', replaced, hset, hptr, hsame, hhas', hown', hcard'⟩
  · exact .inl ⟨congrArg (· >>= _) hnone, fault, congrArg (Except.map _) hptr⟩
  · have hcurrent : current.id = some id := hsame.trans hid
    refine .inr ⟨earlier', run ++ [call], { opened with current }, heap',
      congrArg (· >>= _) hset, (congrArg (Except.map _) hptr).trans ?_, ?_, ?_⟩
    · have hid' : opened.erase.current.id = current.erase.id :=
        congrArg (Option.map Ptr.target) hsame.symm
      dsimp only [Except.map]
      rw [hid']
      rfl
    · rw [← hcalls, List.append_assoc]
    · constructor
      · rw [Info.erase, hcurrent]
        exact hsections
      · exact fun hno => by cases hcurrent.symm.trans hno
      · exact hhas'
      · exact hnamed
      · exact hgrown
      · exact hroom
      · refine ⟨replaced + lost, hown'.congr (by abel), ?_⟩
        rw [Multiset.card_add, hcard, hcard', lostInRun_append]
        omega

/-- The accounts of a run of calls. -/
theorem Accounts.run (h : Accounts earlier before context heap others) (calls : List IniCall)
    (hfew : (earlier ++ before ++ calls).length ≤ 2 ^ 30) :
    (calls.foldlM (fun (context, heap) call => modulesIniHandler os context heap call)
          (context, heap) = none ∧
        ∃ fault, calls.foldlM (modulesIniHandlerPtr os) context.erase = .error fault) ∨
      ∃ earlier' before' context' heap',
        calls.foldlM (fun (context, heap) call => modulesIniHandler os context heap call)
          (context, heap) = some (context', heap') ∧
        calls.foldlM (modulesIniHandlerPtr os) context.erase = .ok context'.erase ∧
        earlier' ++ before' = earlier ++ before ++ calls ∧
        Accounts earlier' before' context' heap' others := by
  induction calls generalizing earlier before context heap with
  | nil => exact .inr ⟨earlier, before, context, heap, rfl, rfl, (List.append_nil _).symm, h⟩
  | cons call calls ih =>
      rw [List.foldlM_cons, List.foldlM_cons]
      have hfew' : (earlier ++ before).length ≤ 2 ^ 30 :=
        (List.length_append ▸ Nat.le_add_right _ _).trans hfew
      rw [List.append_cons] at hfew
      rcases h.step os call hfew' with
        ⟨hnone, fault, hptr⟩ | ⟨e, b, c, heap₁, hstep, hptr, hcalls, h'⟩
      · exact .inl ⟨congrArg (· >>= _) hnone, fault, congrArg (· >>= _) hptr⟩
      · dsimp only
        rw [← hcalls] at hfew
        rw [hstep, hptr, List.append_cons, ← hcalls]
        exact ih h' hfew

end Run

/-! ## A list -/

/-- `SS4S_ModulesListClear` frees the blocks of a list. -/
theorem modulesListClear_owned (modules : ModuleArray) {heap : Heap} {rest : Multiset ℕ}
    (hnamed : ∀ info ∈ modules.infos, info.id.isSome) (hown : Owned heap (modules.blocks + rest)) :
    ∃ heap', modulesListClear modules heap = some heap' ∧ Owned heap' rest := by
  have hloop : ∀ (infos : List Info) (heap : Heap), (∀ info ∈ infos, info.id.isSome) →
      Owned heap ((infos.map Info.blocks).sum + ({modules.data} + rest)) →
      ∃ heap', infos.foldlM (fun heap info => (moduleInfoClear info heap).map Prod.snd) heap =
        some heap' ∧ Owned heap' ({modules.data} + rest) := by
    intro infos
    induction infos with
    | nil => exact fun heap _ hown => ⟨heap, rfl, hown.congr (zero_add _)⟩
    | cons info infos ih =>
        intro heap hnamed hown
        rw [List.map_cons, List.sum_cons, add_assoc] at hown
        obtain ⟨heap₁, hclear, hown₁⟩ :=
          moduleInfoClear_owned (hnamed info List.mem_cons_self) hown
        rw [List.foldlM_cons, hclear]
        exact ih heap₁ (fun i hi => hnamed i (List.mem_cons_of_mem _ hi)) hown₁
  obtain ⟨heap₁, hfold, hown₁⟩ := hloop modules.infos.reverse heap
    (fun info hmem => hnamed info (List.mem_reverse.1 hmem)) (hown.congr (by
      rw [ModuleArray.blocks, List.map_reverse, List.sum_reverse]
      abel))
  obtain ⟨heap', hfree, hown'⟩ := hown₁.free
  exact ⟨heap', by rw [modulesListClear, hfold]; exact hfree, hown'⟩

/-- The keys fail where `os_version` is repeated, or a list cannot be counted. -/
theorem modulesParsePtr_eq_error (os : VersionInfo) {calls : List IniCall} :
    (∃ fault, modulesParsePtr os calls = .error fault) ↔
      ¬(OsVersionsFit calls ∧ ∀ call ∈ calls, Counts call) := by
  have hend := modulesParsePtr_eq os calls
  rw [modulesParse] at hend
  rcases foldlM_cases os calls with
    ⟨hfold, hfit⟩ | ⟨hfit, ⟨hfold, hcounts⟩ | ⟨context, hfold, hcounts, -⟩⟩ <;>
    rw [hfold] at hend
  · exact iff_of_true ⟨_, hend⟩ fun h => hfit (by rw [reached_eq h.2]; exact h.1)
  · exact iff_of_true ⟨_, hend⟩ fun h => hcounts h.2
  · rw [reached_eq hcounts] at hfit
    refine iff_of_false ?_ fun h => h ⟨hfit, hcounts⟩
    rintro ⟨fault, hfault⟩
    cases hend.symm.trans hfault

/-- Before the first key only the array is there. -/
theorem accounts_start (heap : Heap) :
    Accounts [] [] ⟨.zero, (arrayListInit heap 16).1⟩ heap.alloc.2 heap.live.val := by
  have hstart : Owned heap.alloc.2 ({heap.alloc.1} + heap.live.val) := Owned.alloc rfl
  have hgrown : (arrayListInit heap 16).1.Grown :=
    ⟨(by decide : (0 : Int) < 16),
      (by decide +kernel : ArrayList.topDoubling (2 ^ 31 - 1) (16 : Int).toNat = 2 ^ 30)⟩
  refine ⟨⟨fun _ => rfl, by simp [Info.erase, Info.zero], nofun, nofun⟩, fun _ => rfl,
    ⟨rfl, rfl, rfl, rfl⟩, nofun, hgrown, Nat.le_refl 0, 0, hstart.congr ?_, rfl⟩
  rw [add_zero, Info.blocks_zero, zero_add]
  rfl

/-- The list of a file, before it is sorted. -/
theorem modulesList_loads (qsort : List Info → List Info) (os : VersionInfo)
    (file : Option (List IniCall)) (heap : Heap) (hfew : (file.getD []).length ≤ 2 ^ 30) :
    (modulesList qsort os file heap = none ∧
        ∃ fault, modulesParsePtr os (file.getD []) = .error fault) ∨
      ∃ (modules : ModuleArray) (infos : List Info) (heap' : Heap) (lost : Multiset ℕ),
        modulesList qsort os file heap = some ({ modules with infos }, heap') ∧
        (infos = modules.infos ∨ infos = qsort modules.infos) ∧
        modulesParsePtr os (file.getD []) = .ok (modules.infos.map Info.erase) ∧
        (∀ info ∈ modules.infos, info.id.isSome) ∧
        Owned heap' (modules.blocks + lost + heap.live.val) ∧
        lost.card = lostInFile (file.getD []) := by
  cases file with
  | none =>
      have hstart : Owned heap.alloc.2 ({heap.alloc.1} + heap.live.val) := Owned.alloc rfl
      exact .inr ⟨⟨heap.alloc.1, 16, []⟩, [], heap.alloc.2, 0, rfl, .inl rfl, rfl, nofun,
        hstart.congr (by rw [add_zero]; rfl), rfl⟩
  | some calls =>
      have hptr : modulesParsePtr os calls = (calls.foldlM (modulesIniHandlerPtr os)
          (Context.erase ⟨.zero, (arrayListInit heap 16).1⟩)).map fun context =>
            (sectionChangedPtr os context).modules := rfl
      rw [Option.getD_some] at hfew
      rw [Option.getD_some, hptr, modulesList]
      rcases (accounts_start heap).run os calls hfew with
        ⟨hnone, fault, hptrNone⟩ | ⟨earlier, before, context, heap₁, hrun, hptrRun, hcalls, hread⟩
      · exact .inl ⟨congrArg (· >>= _) hnone, fault, by rw [hptrNone]; rfl⟩
      · obtain ⟨context', heap', hclose, herase, hclosed⟩ :=
          hread.sectionChanged os (by rw [hcalls]; exact hfew)
        obtain ⟨lost, hown, hcard⟩ := hclosed.owned
        refine .inr ⟨context'.modules, qsort context'.modules.infos, heap', lost, ?_, .inr rfl, ?_,
          hclosed.named, hown, by rw [hcard, hcalls]; rfl⟩
        · refine (congrArg (· >>= _) hrun).trans ?_
          exact congrArg (· >>= _) hclose
        · rw [hptrRun]
          exact congrArg (fun raw => Except.ok raw.modules) herase.symm

/-- **What is loaded from a file and cleared again is freed, once for each block,
except as many blocks as keys that are repeated have replaced, and the arrays of
lists without an item.** -/
theorem modulesList_accounts (qsort : List Info → List Info)
    (hsort : ∀ infos, (qsort infos).Perm infos) (os : VersionInfo)
    (file : Option (List IniCall)) (heap : Heap) (hfew : (file.getD []).length ≤ 2 ^ 30) :
    (modulesList qsort os file heap = none ↔
        ¬(OsVersionsFit (file.getD []) ∧ ∀ call ∈ file.getD [], Counts call)) ∧
      ∀ modules heap', modulesList qsort os file heap = some (modules, heap') →
        (∃ loaded, modulesParsePtr os (file.getD []) = .ok loaded ∧
          (modules.infos.map Info.erase).Perm loaded) ∧
        ∃ heap'' lost, modulesListClear modules heap' = some heap'' ∧
          Owned heap'' (lost + heap.live.val) ∧ lost.card = lostInFile (file.getD []) := by
  rw [← modulesParsePtr_eq_error os]
  rcases modulesList_loads qsort os file heap hfew with
    ⟨hnone, hptr⟩ | ⟨modules, infos, heap₁, lost, hlist, hinfos, hptr, hnamed, hown, hcard⟩
  · exact ⟨iff_of_true hnone hptr, fun _ _ h => by cases hnone.symm.trans h⟩
  · refine ⟨iff_of_false (by rw [hlist]; exact nofun) (by rw [hptr]; exact nofun), ?_⟩
    intro modules' heap' h
    cases hlist.symm.trans h
    have hperm : infos.Perm modules.infos := by
      rcases hinfos with rfl | rfl
      · exact List.Perm.refl _
      · exact hsort modules.infos
    have hblocks : ({ modules with infos } : ModuleArray).blocks = modules.blocks := by
      rw [ModuleArray.blocks, ModuleArray.blocks, (hperm.map Info.blocks).sum_eq]
    obtain ⟨heap'', hclear, hown'⟩ := modulesListClear_owned { modules with infos }
      (fun info hmem => hnamed info (hperm.mem_iff.1 hmem))
      (hown.congr (by rw [hblocks, add_assoc]))
    exact ⟨⟨_, hptr, hperm.map Info.erase⟩, heap'', lost, hclear, hown', hcard⟩

/-- Of a section with two names, and a list of conflicts that is a comma, two
blocks are left. -/
theorem modulesList_accounts_renamed :
    ∃ modules heap' heap'' lost,
      modulesList id ⟨5, 0, 0⟩ (some [⟨.lit "ndl", .lit "name", .lit "NDL"⟩,
        ⟨.lit "ndl", .lit "conflicts", .lit ","⟩, ⟨.lit "ndl", .lit "name", .lit "NDL 2"⟩])
        .empty = some (modules, heap') ∧
      modulesListClear modules heap' = some heap'' ∧ Owned heap'' lost ∧ lost.card = 2 := by
  generalize hfile : [⟨.lit "ndl", .lit "name", .lit "NDL"⟩,
    ⟨.lit "ndl", .lit "conflicts", .lit ","⟩, (⟨.lit "ndl", .lit "name", .lit "NDL 2"⟩ : IniCall)] =
    calls
  have hloads : (modulesList id ⟨5, 0, 0⟩ (some calls) .empty).isSome = true := by
    rw [← hfile]
    decide +kernel
  have hfew : ((some calls).getD []).length ≤ 2 ^ 30 := by
    rw [← hfile]
    decide
  obtain ⟨⟨modules, heap'⟩, hlist⟩ := Option.isSome_iff_exists.1 hloads
  obtain ⟨-, heap'', lost, hclear, hown, hcard⟩ :=
    (modulesList_accounts id (fun _ => List.Perm.refl _) ⟨5, 0, 0⟩ (some calls) .empty hfew).2
      modules heap' hlist
  refine ⟨modules, heap', heap'', lost, hlist, hclear, hown.congr (add_zero lost), hcard.trans ?_⟩
  rw [← hfile]
  decide +kernel

end CommonsC.Modules.Memory
