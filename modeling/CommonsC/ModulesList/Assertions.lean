import CommonsC.ModulesList.Parse

/-!
# CommonsC.ModulesList.Assertions

What an INI file can do to the parser of the module list
(`media/ss4s/modules-list/ss4s_modules.c`).

`modulesIniHandlerPtr` is the handler on the memory as it is, where every
pointer to a string may be `NULL` and `strcmp` of `NULL` is undefined.  It never
comes to this: the memory is always that of a `ParseContext`, whose modules have
ids (`modulesIniHandlerPtr_raw`).  The assertions of `version_constraints_parse`
are another matter, since nothing empties the constraints between two keys of
one section (`Filled`).
-/

namespace CommonsC.Modules

open CString Numeral Version

/-! ## The memory -/

/-- `SS4S_ModuleInfo`. -/
structure RawInfo extends ModuleFields where
  id : Option CString

/-- `modules_parse_context`. -/
structure RawContext where
  current : RawInfo
  modules : List RawInfo

/-- A struct that is zero. -/
def RawInfo.zero : RawInfo := { ModuleFields.clear with id := none }

/-- `strcmp`: `none` is undefined behaviour. -/
def strcmpPtr : Option CString → Option CString → Option Int
  | some s, some t => some (strcmp s.bytes t.bytes)
  | _, _ => none

/-- `module_info_clear`. -/
def moduleInfoClear (info : RawInfo) : RawInfo := if info.id = none then info else .zero

/-- `section_changed`. -/
def sectionChangedPtr (os : VersionInfo) (context : RawContext) : RawContext :=
  if context.current.id = none then context
  else if !versionConstraintsCheck context.current.os_version os then
    { context with current := moduleInfoClear context.current }
  else { current := .zero, modules := context.modules ++ [context.current] }

/-- The test of `modules_ini_handler` for another section. -/
def isAnotherSection (sectionName id : Option CString) : Option Bool :=
  if sectionName.isSome != id.isSome then some true
  else if sectionName.isSome then (strcmpPtr sectionName id).map (· != 0)
  else some false

/-- `modules_ini_handler`. -/
def modulesIniHandlerPtr (os : VersionInfo) (context : RawContext) (call : IniCall) :
    Except ParseFault RawContext := do
  let changed ← orFault .null (isAnotherSection (some call.sectionName) context.current.id)
  let context :=
    if changed then
      let context := sectionChangedPtr os context
      { context with current := { context.current with id := some call.sectionName } }
    else context
  let fields ← setKey context.current.toModuleFields call.name call.value
  .ok { context with current := { context.current with toModuleFields := fields } }

/-- `SS4S_ModuleInfoGetGroup`. -/
def moduleInfoGetGroupPtr (info : RawInfo) : Option CString :=
  if info.group = none then info.id else info.group

/-- `module_weight_compare_fn`. -/
def moduleWeightComparePtr (m1 m2 : RawInfo) : Option Int :=
  let weight_diff := m2.weight - m1.weight
  if weight_diff = 0 then strcmpPtr (moduleInfoGetGroupPtr m1) (moduleInfoGetGroupPtr m2)
  else some weight_diff

/-- The callbacks of a file, and the end of its last section. -/
def modulesParsePtr (os : VersionInfo) (calls : List IniCall) :
    Except ParseFault (List RawInfo) :=
  (calls.foldlM (modulesIniHandlerPtr os) ⟨moduleInfoClear .zero, []⟩).map fun context =>
    (sectionChangedPtr os context).modules

/-! ## Where the pointers lead -/

/-- A module in memory. -/
def ModuleInfo.raw (info : ModuleInfo) : RawInfo := { info.toModuleFields with id := some info.id }

/-- A context in memory. -/
def ParseContext.raw (context : ParseContext) : RawContext where
  current := { context.current with id := context.id }
  modules := context.modules.map ModuleInfo.raw

/-- Between two sections nothing is left of the last one. -/
def ParseContext.Clean (context : ParseContext) : Prop :=
  context.id = none → context.current = .clear

theorem sectionChanged_clean (os : VersionInfo) {context : ParseContext} (h : context.Clean) :
    (sectionChanged os context).id = none ∧ (sectionChanged os context).current = .clear := by
  rw [sectionChanged]
  cases hid : context.id with
  | none => exact ⟨hid, h hid⟩
  | some id =>
      dsimp only
      split <;> exact ⟨rfl, rfl⟩

theorem sectionChangedPtr_raw (os : VersionInfo) (context : ParseContext) :
    sectionChangedPtr os context.raw = (sectionChanged os context).raw := by
  obtain ⟨id, current, modules⟩ := context
  cases id with
  | none => rfl
  | some id =>
      have hended : sectionChanged os ⟨some id, current, modules⟩ =
          if !versionConstraintsCheck current.os_version os then ⟨none, .clear, modules⟩
          else ⟨none, .clear, modules ++ [{ current with id }]⟩ := rfl
      rw [sectionChangedPtr, if_neg nofun, hended]
      by_cases hfails : (!versionConstraintsCheck current.os_version os) = true
      · refine (if_pos hfails).trans ?_
        rw [if_pos hfails]
        rfl
      · refine (if_neg hfails).trans ?_
        rw [if_neg hfails]
        simp only [ParseContext.raw, List.map_append]
        rfl

/-- Another section begins where the name is another one, or there was none. -/
theorem isAnotherSection_some (sectionName : CString) (id : Option CString) :
    isAnotherSection (some sectionName) id =
      some (id.all fun id => strcmp sectionName.bytes id.bytes ≠ 0) := by
  cases id with
  | none => rfl
  | some id =>
      simp only [isAnotherSection, strcmpPtr, Option.isSome_some, Option.map_some,
        bne_self_eq_false, Bool.false_eq_true, if_false, if_true, Option.all_some, decide_not]
      rfl

/-- The handler never passes `NULL` to `strcmp`. -/
theorem modulesIniHandlerPtr_raw (os : VersionInfo) (context : ParseContext) (call : IniCall) :
    modulesIniHandlerPtr os context.raw call =
      (modulesIniHandler os context call).map ParseContext.raw := by
  have hid : context.raw.current.id = context.id := rfl
  rw [modulesIniHandlerPtr, isAnotherSection_some, modulesIniHandler, hid]
  dsimp only [orFault, Option.elim_some, bind, Except.bind]
  by_cases hchanged : (context.id.all fun id => strcmp call.sectionName.bytes id.bytes ≠ 0) = true
  · rw [if_pos hchanged, if_pos hchanged, sectionChangedPtr_raw]
    dsimp only [ParseContext.raw]
    cases setKey (sectionChanged os context).current call.name call.value <;> rfl
  · rw [if_neg hchanged, if_neg hchanged]
    dsimp only [ParseContext.raw]
    cases setKey context.current call.name call.value <;> rfl

/-- A loop on the memory is one on what is there. -/
theorem foldlM_raw (os : VersionInfo) (context : ParseContext) (calls : List IniCall) :
    calls.foldlM (modulesIniHandlerPtr os) context.raw =
      (calls.foldlM (modulesIniHandler os) context).map ParseContext.raw := by
  induction calls generalizing context with
  | nil => rfl
  | cons call calls ih =>
      rw [List.foldlM_cons, List.foldlM_cons, modulesIniHandlerPtr_raw]
      cases modulesIniHandler os context call with
      | error _ => rfl
      | ok next => exact ih next

theorem modulesParsePtr_eq (os : VersionInfo) (calls : List IniCall) :
    modulesParsePtr os calls =
      (modulesParse os [] calls).map fun modules => modules.map ModuleInfo.raw := by
  have hstart : (⟨moduleInfoClear .zero, []⟩ : RawContext) =
      ParseContext.raw ⟨none, .clear, []⟩ := rfl
  rw [modulesParsePtr, modulesParse, hstart, foldlM_raw]
  cases calls.foldlM (modulesIniHandler os) ⟨none, .clear, []⟩ with
  | error _ => rfl
  | ok context =>
      exact congrArg (fun raw => Except.ok raw.modules) (sectionChangedPtr_raw os context)

/-- A module in memory has a string to be compared by. -/
theorem moduleWeightComparePtr_raw (m1 m2 : ModuleInfo) :
    moduleWeightComparePtr m1.raw m2.raw = some (moduleWeightCompare m1 m2) := by
  have hgroup : ∀ m : ModuleInfo, moduleInfoGetGroupPtr m.raw = some (moduleInfoGetGroup m) := by
    intro m
    rw [moduleInfoGetGroupPtr, moduleInfoGetGroup]
    cases hm : m.group with
    | none => exact if_pos hm
    | some group => exact (if_neg (by rw [ModuleInfo.raw, hm]; exact nofun)).trans hm
  rw [moduleWeightComparePtr, moduleWeightCompare, hgroup, hgroup]
  by_cases hweight : m2.weight - m1.weight = 0
  · exact (if_pos hweight).trans (congrArg some (if_pos hweight).symm)
  · exact (if_neg hweight).trans (congrArg some (if_neg hweight).symm)

/-! ## Keys that are repeated -/

def IsOsVersion (call : IniCall) : Prop := call.name.bytes = ascii "os_version"

/-- Every piece of the value is a constraint. -/
def Parses (value : CString) : Prop :=
  ∀ piece ∈ pieces [44] value.bytes, versionConstraintParse piece ≠ none

/-- The section that is being read has constraints. -/
def Filled (calls : List IniCall) : Prop :=
  ∃ before call after, calls = before ++ call :: after ∧ InSection call.sectionName after ∧
    IsOsVersion call ∧ Parses call.value

/-- The call belongs to the section that is being read. -/
def Continues (calls : List IniCall) (call : IniCall) : Prop :=
  ∃ last ∈ calls.getLast?, call.sectionName.bytes = last.sectionName.bytes

/-- Where a section has several keys `os_version`, only the value of the last is
a list of constraints. -/
def OsVersionsFit (calls : List IniCall) : Prop :=
  ∀ before call between again after, calls = before ++ call :: (between ++ again :: after) →
    InSection call.sectionName (between ++ [again]) → IsOsVersion call → IsOsVersion again →
    ¬Parses call.value

/-- The calls up to the first one with a list that cannot be counted. -/
def reached : List IniCall → List IniCall
  | [] => []
  | call :: calls => if Counts call then call :: reached calls else [call]

theorem reached_append (calls : List IniCall) (call : IniCall) :
    reached (calls ++ [call]) =
      if ∀ c ∈ calls, Counts c then calls ++ [call] else reached calls := by
  induction calls with
  | nil =>
      rw [if_pos (List.forall_mem_nil _), List.nil_append, reached]
      split <;> rfl
  | cons first calls ih =>
      rw [List.cons_append, reached, reached, ih, if_congr List.forall_mem_cons rfl rfl]
      by_cases hcounts : Counts first
      · rw [if_pos hcounts, if_pos hcounts, if_congr (and_iff_right hcounts) rfl rfl]
        split <;> rfl
      · rw [if_neg hcounts, if_neg hcounts, if_neg fun h => hcounts h.1]

theorem reached_eq {calls : List IniCall} (h : ∀ c ∈ calls, Counts c) : reached calls = calls := by
  induction calls with
  | nil => rfl
  | cons call calls ih =>
      obtain ⟨hcall, hcalls⟩ := List.forall_mem_cons.1 h
      rw [reached, if_pos hcall, ih hcalls]

/-- The last call of a section has its name. -/
theorem continues_of_inSection {before after : List IniCall} {call next : IniCall}
    (h : InSection call.sectionName after) :
    Continues (before ++ call :: after) next ↔
      next.sectionName.bytes = call.sectionName.bytes := by
  obtain ⟨last, hlast, hsection⟩ : ∃ last, (before ++ call :: after).getLast? = some last ∧
      last.sectionName.bytes = call.sectionName.bytes := by
    refine ⟨(call :: after).getLast (List.cons_ne_nil _ _), ?_, ?_⟩
    · rw [List.getLast?_append_of_ne_nil _ (List.cons_ne_nil _ _), List.getLast?_eq_some_getLast]
    · rcases List.mem_cons.1 (List.getLast_mem (List.cons_ne_nil call after)) with heq | hmem
      · rw [heq]
      · exact h _ hmem
  rw [Continues, hlast]
  constructor
  · rintro ⟨_, ⟨⟩, heq⟩
    exact heq.trans hsection
  · exact fun heq => ⟨last, rfl, heq.trans hsection.symm⟩

theorem filled_append (calls : List IniCall) (call : IniCall) :
    Filled (calls ++ [call]) ↔
      IsOsVersion call ∧ Parses call.value ∨ Continues calls call ∧ Filled calls := by
  constructor
  · rintro ⟨before, first, after, heq, hsection, hos, hparses⟩
    rcases List.eq_nil_or_concat' after with rfl | ⟨after, last, rfl⟩
    · obtain ⟨-, hcall⟩ := List.append_inj' heq rfl
      cases hcall
      exact .inl ⟨hos, hparses⟩
    · rw [← List.cons_append, ← List.append_assoc] at heq
      obtain ⟨rfl, hcall⟩ := List.append_inj' heq rfl
      cases hcall
      have hafter : InSection first.sectionName after := fun c hc =>
        hsection c (List.mem_append_left _ hc)
      exact .inr ⟨(continues_of_inSection hafter).2
        (hsection call (List.mem_append_right _ List.mem_cons_self)),
        before, first, after, rfl, hafter, hos, hparses⟩
  · rintro (⟨hos, hparses⟩ | ⟨hcontinues, before, first, after, rfl, hafter, hos, hparses⟩)
    · exact ⟨calls, call, [], rfl, nofun, hos, hparses⟩
    · refine ⟨before, first, after ++ [call], by simp, fun c hc => ?_, hos, hparses⟩
      rcases List.mem_append.1 hc with hc | hc
      · exact hafter c hc
      · rw [List.mem_singleton.1 hc]
        exact (continues_of_inSection hafter).1 hcontinues

theorem osVersionsFit_append (calls : List IniCall) (call : IniCall) :
    OsVersionsFit (calls ++ [call]) ↔
      OsVersionsFit calls ∧ ¬(IsOsVersion call ∧ Continues calls call ∧ Filled calls) := by
  constructor
  · intro h
    constructor
    · rintro before first between again after rfl
      exact h before first between again (after ++ [call]) (by simp)
    · rintro ⟨hos, hcontinues, before, first, after, rfl, hafter, hfirst, hparses⟩
      refine h before first after call [] (by simp) (fun c hc => ?_) hfirst hos hparses
      rcases List.mem_append.1 hc with hc | hc
      · exact hafter c hc
      · rw [List.mem_singleton.1 hc]
        exact (continues_of_inSection hafter).1 hcontinues
  · rintro ⟨hfit, hnew⟩ before first between again after heq hsection hfirst hagain hparses
    rcases List.eq_nil_or_concat' after with rfl | ⟨after, last, rfl⟩
    · rw [← List.cons_append, ← List.append_assoc] at heq
      obtain ⟨rfl, hcall⟩ := List.append_inj' heq rfl
      cases hcall
      have hbetween : InSection first.sectionName between := fun c hc =>
        hsection c (List.mem_append_left _ hc)
      exact hnew ⟨hagain, (continues_of_inSection hbetween).2
        (hsection call (List.mem_append_right _ List.mem_cons_self)),
        before, first, between, rfl, hbetween, hfirst, hparses⟩
    · have hshort : calls = before ++ first :: (between ++ again :: after) := by
        rw [← List.cons_append, ← List.append_assoc, ← List.cons_append, ← List.append_assoc]
          at heq
        exact (List.append_inj' heq rfl).1.trans (by simp)
      exact hfit before first between again after hshort hsection hfirst hagain hparses

/-! ## One key -/

/-- Another key than `os_version` leaves the constraints alone. -/
theorem setKey_other {call : IniCall} (h : ¬IsOsVersion call) (current : ModuleFields) :
    (¬Counts call ∧ setKey current call.name call.value = .error .overflow) ∨
      Counts call ∧ ∃ current', setKey current call.name call.value = .ok current' ∧
        current'.os_version = current.os_version := by
  have hversion : strcmp (ascii "os_version") call.name.bytes ≠ 0 := fun heq =>
    h ((strcmp_ascii (by decide)).1 heq)
  -- The name comes first, and leaves the constraints alone.
  obtain ⟨named, hnamed, hsame⟩ : ∃ named, (if strcmp (ascii "name") call.name.bytes = 0 then
      { current with name := some call.value } else current) = named ∧
        named.os_version = current.os_version := by
    split <;> exact ⟨_, rfl, rfl⟩
  rw [setKey]
  dsimp only
  rw [hnamed, if_neg hversion]
  by_cases hconflicts : call.name.bytes = ascii "conflicts"
  · have hcounts : Counts call ↔ call.value.bytes.countP (· ∈ ascii ",") < 2 ^ 31 - 1 :=
      ⟨fun hcounts => hcounts.1 hconflicts, fun hlt => ⟨fun _ => hlt, fun hos => absurd hos h⟩⟩
    have hlist := StrList.strings_strListParse (.ofStrings named.conflicts) call.value.bytes
      (ascii ",")
    simp +decide only [hconflicts, if_true, if_false]
    by_cases hlt : call.value.bytes.countP (· ∈ ascii ",") < 2 ^ 31 - 1
    · rw [if_pos hlt] at hlist
      obtain ⟨parsed, hparsed, -⟩ := Option.map_eq_some_iff.1 hlist
      rw [hparsed]
      exact .inr ⟨hcounts.2 hlt, _, rfl, hsame⟩
    · rw [if_neg hlt, Option.map_eq_none_iff] at hlist
      rw [hlist]
      exact .inl ⟨fun h => hlt (hcounts.1 h), rfl⟩
  · have hcounts : Counts call :=
      ⟨fun heq => absurd heq hconflicts, fun hos => absurd hos h⟩
    have hkey : strcmp (ascii "conflicts") call.name.bytes ≠ 0 := fun heq =>
      hconflicts ((strcmp_ascii (by decide)).1 heq)
    rw [if_neg hkey]
    refine .inr ⟨hcounts, ?_⟩
    split_ifs <;> exact ⟨_, rfl, hsame⟩

/-- The assertions of `version_constraints_parse`. -/
theorem versionConstraintsParse_eq_none {constraints : VersionConstraints} {value : List UInt8} :
    versionConstraintsParse constraints value = none ↔ constraints ≠ .clear := by
  obtain ⟨count, elements⟩ := constraints
  by_cases h : count = 0 ∧ elements = none
  · obtain ⟨rfl, rfl⟩ := h
    obtain ⟨result, hresult⟩ := versionConstraintsParse_clear value
    exact iff_of_false (fun hnone => by cases hresult.symm.trans hnone) fun hne => hne rfl
  · rw [versionConstraintsParse, if_neg h]
    refine iff_of_true rfl fun heq => h ?_
    cases heq
    exact ⟨rfl, rfl⟩

theorem ne_none_of_forall₂ {ps : List (List UInt8)} {cs : List VersionConstraint}
    (h : List.Forall₂ (fun piece c => versionConstraintParse piece = some c) ps cs) :
    ∀ piece ∈ ps, versionConstraintParse piece ≠ none := by
  induction h with
  | nil => exact nofun
  | cons hc _ ih =>
      intro piece hmem
      rcases List.mem_cons.1 hmem with rfl | hmem
      · rw [hc]
        exact nofun
      · exact ih piece hmem

/-- Something is left in the struct if the value was parsed. -/
theorem versionConstraintsParse_filled {value : CString} {result : Int}
    {constraints : VersionConstraints}
    (h : versionConstraintsParse .clear value.bytes = some (result, constraints)) :
    constraints ≠ .clear ↔ Parses value := by
  rcases versionConstraintsParse_cases value.bytes with
    ⟨cs, elements, hall, hparse, -, -⟩ | ⟨⟨piece, hmem, hnone⟩, hparse⟩
  · cases h.symm.trans hparse
    exact iff_of_true (fun heq => nomatch congrArg VersionConstraints.elements heq)
      (ne_none_of_forall₂ hall)
  · cases h.symm.trans hparse
    exact iff_of_false (fun hne => hne rfl) fun hall => hall piece hmem hnone

theorem setKey_parses {call : IniCall} (h : IsOsVersion call) (current : ModuleFields) :
    setKey current call.name call.value =
      (parseConstraints current.os_version call.value.bytes).map fun os_version =>
        { current with os_version } := by
  simp +decide only [setKey, IsOsVersion.eq_1 call ▸ h, if_true, if_false]

/-- The key is an `os_version`, and there are constraints. -/
def Asserts (constrained : Prop) (call : IniCall) : Prop := IsOsVersion call ∧ constrained

/-- There are constraints after a key. -/
def Constrained (constrained : Prop) (call : IniCall) : Prop :=
  IsOsVersion call ∧ Parses call.value ∨ ¬IsOsVersion call ∧ constrained

/-- What a key does to the constraints. -/
theorem setKey_cases (current : ModuleFields) (call : IniCall) :
    (Asserts (current.os_version ≠ .clear) call ∧
        setKey current call.name call.value = .error .assertion) ∨
      ¬Asserts (current.os_version ≠ .clear) call ∧
        (¬Counts call ∧ setKey current call.name call.value = .error .overflow ∨
          Counts call ∧ ∃ current', setKey current call.name call.value = .ok current' ∧
            (current'.os_version ≠ .clear ↔
              Constrained (current.os_version ≠ .clear) call)) := by
  by_cases hos : IsOsVersion call
  · rw [setKey_parses hos, parseConstraints]
    cases hparse : versionConstraintsParse current.os_version call.value.bytes with
    | none => exact .inl ⟨⟨hos, versionConstraintsParse_eq_none.1 hparse⟩, rfl⟩
    | some parsed =>
        obtain ⟨result, constraints⟩ := parsed
        have hclear : current.os_version = .clear := by
          by_contra hne
          cases (versionConstraintsParse_eq_none.2 hne).symm.trans hparse
        refine .inr ⟨fun hasserts => hasserts.2 hclear, ?_⟩
        have hcounts : Counts call ↔ itemsRead call.value.bytes < 2 ^ 31 := by
          refine ⟨fun hcounts => hcounts.2 hos, fun hlt => ⟨fun heq => ?_, fun _ => hlt⟩⟩
          exact absurd (hos.symm.trans heq) (by decide)
        rw [hclear] at hparse
        by_cases hlt : itemsRead call.value.bytes < 2 ^ 31
        · refine .inr ⟨hcounts.2 hlt, _, congrArg (Except.map _) (if_pos hlt), ?_⟩
          exact (versionConstraintsParse_filled hparse).trans
            ⟨fun hparses => .inl ⟨hos, hparses⟩, fun h => h.elim And.right fun h => absurd hos h.1⟩
        · exact .inl ⟨fun h => hlt (hcounts.1 h), congrArg (Except.map _) (if_neg hlt)⟩
  · refine .inr ⟨fun hasserts => hos hasserts.1, ?_⟩
    refine (setKey_other hos current).imp_right ?_
    rintro ⟨hcounts, current', hset, hsame⟩
    refine ⟨hcounts, current', hset, ?_⟩
    rw [hsame]
    exact ⟨fun h => .inr ⟨hos, h⟩, fun h => h.elim (fun h => absurd h.1 hos) And.right⟩

/-! ## One call -/

/-- The context that a key is added to. -/
def opened (os : VersionInfo) (context : ParseContext) (call : IniCall) : ParseContext :=
  if context.id.all fun id => strcmp call.sectionName.bytes id.bytes ≠ 0 then
    { sectionChanged os context with id := some call.sectionName }
  else context

theorem modulesIniHandler_eq (os : VersionInfo) (context : ParseContext) (call : IniCall) :
    modulesIniHandler os context call =
      (setKey (opened os context call).current call.name call.value).map fun current =>
        { opened os context call with current } := rfl

/-- The context after `calls`. -/
structure Follows (calls : List IniCall) (context : ParseContext) : Prop where
  id : context.id.map CString.bytes = calls.getLast?.map (·.sectionName.bytes)
  clean : context.Clean
  filled : context.current.os_version ≠ .clear ↔ Filled calls

section

variable {calls : List IniCall} {context : ParseContext} (h : Follows calls context)
include h

/-- The handler finds out whether the section goes on. -/
theorem Follows.continues (call : IniCall) :
    (context.id.all fun id => strcmp call.sectionName.bytes id.bytes ≠ 0) = true ↔
      ¬Continues calls call := by
  have hid := h.id
  cases hcontext : context.id with
  | none =>
      rw [hcontext, Option.map_none, eq_comm, Option.map_eq_none_iff] at hid
      refine iff_of_true rfl ?_
      rintro ⟨last, hlast, -⟩
      cases hid.symm.trans hlast
  | some id =>
      rw [hcontext, Option.map_some] at hid
      obtain ⟨last, hlast, hsection⟩ := Option.map_eq_some_iff.1 hid.symm
      have hcontinues : Continues calls call ↔ call.sectionName.bytes = id.bytes := by
        rw [Continues, hlast, ← hsection]
        exact ⟨by rintro ⟨_, ⟨⟩, heq⟩; exact heq, fun heq => ⟨last, rfl, heq⟩⟩
      have hcmp : strcmp call.sectionName.bytes id.bytes = 0 ↔
          call.sectionName.bytes = id.bytes :=
        ⟨eq_of_strcmp call.sectionName.noNul id.noNul, fun heq => by rw [heq, strcmp_self]⟩
      rw [Option.all_some, decide_eq_true_eq, ne_eq, hcmp, hcontinues]

/-- The constraints of another section are empty. -/
theorem Follows.opened (os : VersionInfo) (call : IniCall) :
    (opened os context call).id.map CString.bytes = some call.sectionName.bytes ∧
      ((opened os context call).current.os_version ≠ .clear ↔
        Continues calls call ∧ Filled calls) := by
  rw [Modules.opened]
  split
  · next hchanged =>
      have hends := (h.continues call).1 hchanged
      refine ⟨rfl, iff_of_false ?_ fun hcont => hends hcont.1⟩
      rw [(sectionChanged_clean os h.clean).2]
      exact fun hne => hne rfl
  · next hsame =>
      have hcont : Continues calls call := by
        rw [h.continues call, not_not] at hsame
        exact hsame
      refine ⟨?_, h.filled.trans (and_iff_right hcont).symm⟩
      obtain ⟨last, hlast, hsection⟩ := hcont
      rw [h.id, hlast, Option.map_some, hsection]

/-- A key fails an assertion if it is an `os_version` of a section that has
constraints; otherwise its value is read if it can be counted. -/
theorem Follows.step (os : VersionInfo) (call : IniCall) :
    (Asserts (Continues calls call ∧ Filled calls) call ∧
        modulesIniHandler os context call = .error .assertion) ∨
      ¬Asserts (Continues calls call ∧ Filled calls) call ∧
        (¬Counts call ∧ modulesIniHandler os context call = .error .overflow ∨
          Counts call ∧ ∃ context', modulesIniHandler os context call = .ok context' ∧
            Follows (calls ++ [call]) context') := by
  obtain ⟨hid, hfilled⟩ := h.opened os call
  have hkey := setKey_cases (Modules.opened os context call).current call
  rw [hfilled] at hkey
  rw [modulesIniHandler_eq]
  rcases hkey with ⟨hasserts, hset⟩ | ⟨hasserts, ⟨hcounts, hset⟩ | ⟨hcounts, current', hset, hos⟩⟩
  · exact .inl ⟨hasserts, congrArg (Except.map _) hset⟩
  · exact .inr ⟨hasserts, .inl ⟨hcounts, congrArg (Except.map _) hset⟩⟩
  · refine .inr ⟨hasserts, .inr ⟨hcounts, _, congrArg (Except.map _) hset, ?_⟩⟩
    refine ⟨by rw [hid, List.getLast?_concat, Option.map_some], fun hno => ?_, ?_⟩
    · rw [hno] at hid
      cases hid
    · refine hos.trans ?_
      rw [filled_append, Constrained]
      by_cases hversion : IsOsVersion call
      · -- The assertions held, so there were no constraints.
        have hempty : ¬(Continues calls call ∧ Filled calls) := fun hboth =>
          hasserts ⟨hversion, hboth⟩
        simp only [hversion, hempty, true_and, not_true_eq_false, false_and]
      · simp only [hversion, false_and, not_false_eq_true, true_and, false_or]

end

/-! ## A file -/

/-- Where the handler gets to. -/
theorem foldlM_cases (os : VersionInfo) (calls : List IniCall) :
    (calls.foldlM (modulesIniHandler os) ⟨none, .clear, []⟩ = .error .assertion ∧
        ¬OsVersionsFit (reached calls)) ∨
      OsVersionsFit (reached calls) ∧
        (calls.foldlM (modulesIniHandler os) ⟨none, .clear, []⟩ = .error .overflow ∧
            (¬∀ call ∈ calls, Counts call) ∨
          ∃ context, calls.foldlM (modulesIniHandler os) ⟨none, .clear, []⟩ = .ok context ∧
            (∀ call ∈ calls, Counts call) ∧ Follows calls context) := by
  induction calls using List.reverseRecOn with
  | nil =>
      refine .inr ⟨?_, .inr ⟨_, rfl, List.forall_mem_nil _, rfl, fun _ => rfl, ?_⟩⟩
      · rintro before call between again after heq
        simp [reached] at heq
      · refine iff_of_false (fun hne => hne rfl) ?_
        rintro ⟨before, call, after, heq, -⟩
        simp at heq
  | append_singleton calls call ih =>
      rw [List.foldlM_append, reached_append]
      rcases ih with ⟨hfold, hfit⟩ | ⟨hfit, ⟨hfold, hover⟩ | ⟨context, hfold, hcounts, hfollows⟩⟩
      · refine .inl ⟨congrArg (· >>= _) hfold, ?_⟩
        split
        · next hall =>
            rw [reached_eq hall] at hfit
            rw [osVersionsFit_append]
            exact fun h => hfit h.1
        · exact hfit
      · rw [if_neg hover]
        refine .inr ⟨hfit, .inl ⟨congrArg (· >>= _) hfold, fun hall => hover fun c hc => ?_⟩⟩
        exact hall c (List.mem_append_left _ hc)
      · have hlast : (calls.foldlM (modulesIniHandler os) ⟨none, .clear, []⟩ >>= fun context =>
            [call].foldlM (modulesIniHandler os) context) = modulesIniHandler os context call := by
          rw [hfold]
          cases hstep : modulesIniHandler os context call with
          | error _ => exact congrArg (· >>= _) hstep
          | ok _ => exact congrArg (· >>= _) hstep
        rw [reached_eq hcounts] at hfit
        rw [hlast, if_pos hcounts, osVersionsFit_append, and_iff_right hfit]
        refine (hfollows.step os call).imp ?_ fun ⟨hasserts, hstep⟩ => ⟨hasserts, ?_⟩
        · exact fun ⟨hasserts, hstep⟩ => ⟨hstep, fun hnot => hnot hasserts⟩
        · refine hstep.imp ?_ ?_
          · exact fun ⟨hcall, hstep⟩ =>
              ⟨hstep, fun hall => hcall (hall call (List.mem_append_right _ List.mem_cons_self))⟩
          · rintro ⟨hcall, context', hstep, hfollows'⟩
            exact ⟨context', hstep, List.forall_mem_append.2
              ⟨hcounts, List.forall_mem_singleton.2 hcall⟩, hfollows'⟩

/-- **The callbacks of an INI file fail an assertion exactly if a section repeats
`os_version` after a value that was parsed.**  `NULL` is never compared.  Where a
list cannot be counted, an `int` overflows and the calls end. -/
theorem modulesParsePtr_asserts (os : VersionInfo) (calls : List IniCall) :
    (modulesParsePtr os calls ≠ .error .assertion ∧ modulesParsePtr os calls ≠ .error .null ∧
        ∀ modules, modulesParsePtr os calls = .ok modules →
          ∀ m1 ∈ modules, ∀ m2 ∈ modules, moduleWeightComparePtr m1 m2 ≠ none) ↔
      OsVersionsFit (reached calls) := by
  have hcompare : ∀ modules, modulesParsePtr os calls = .ok modules →
      ∀ m1 ∈ modules, ∀ m2 ∈ modules, moduleWeightComparePtr m1 m2 ≠ none := by
    intro modules hparse m1 h1 m2 h2
    rw [modulesParsePtr_eq] at hparse
    cases hread : modulesParse os [] calls with
    | error _ =>
        rw [hread] at hparse
        cases hparse
    | ok read =>
        rw [hread] at hparse
        cases hparse
        obtain ⟨m1, -, rfl⟩ := List.mem_map.1 h1
        obtain ⟨m2, -, rfl⟩ := List.mem_map.1 h2
        rw [moduleWeightComparePtr_raw]
        exact Option.some_ne_none _
  have hend := modulesParsePtr_eq os calls
  rw [modulesParse] at hend
  rcases foldlM_cases os calls with ⟨hfold, hfit⟩ | ⟨hfit, ⟨hfold, -⟩ | ⟨context, hfold, -⟩⟩ <;>
    rw [hfold] at hend
  · exact iff_of_false (fun h => h.1 hend) hfit
  · refine iff_of_true ⟨?_, ?_, hcompare⟩ hfit <;> rw [hend] <;> exact fun h => nomatch h
  · refine iff_of_true ⟨?_, ?_, hcompare⟩ hfit <;> rw [hend] <;> exact fun h => nomatch h

/-- `os_version` is there twice, with one constraint each. -/
theorem modulesParsePtr_repeated :
    modulesParsePtr ⟨5, 0, 0⟩ [⟨.lit "a", .lit "os_version", .lit ">=1"⟩,
      ⟨.lit "a", .lit "os_version", .lit "<9"⟩] = .error .assertion := by
  have hfault : (modulesParsePtr ⟨5, 0, 0⟩ [⟨.lit "a", .lit "os_version", .lit ">=1"⟩,
      ⟨.lit "a", .lit "os_version", .lit "<9"⟩]).map (fun _ => ()) = .error .assertion := by
    decide +kernel
  revert hfault
  cases modulesParsePtr _ _ with
  | error fault => exact fun h => congrArg _ (Except.error.inj h)
  | ok _ => exact fun h => nomatch h

end CommonsC.Modules
