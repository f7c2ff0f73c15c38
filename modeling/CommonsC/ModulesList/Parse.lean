import CommonsC.ModulesList.Model
import CommonsC.ModulesList.StrList
import CommonsC.VersionInfo.Constraints
import Mathlib.Data.List.SplitBy

/-!
# CommonsC.ModulesList.Parse

How the list of modules comes out of an INI file
(`media/ss4s/modules-list/ss4s_modules.c`).

`modules_ini_handler` builds one module at a time, and a section ends when a key
of another one arrives.  What it builds of a run of keys is `fieldsOf`, and the
parser is the list of the modules of the runs.
-/

namespace CommonsC.Modules

open CString Numeral Version

/-! ## The handler -/

/-- A call of the handler.  There is always a section. -/
structure IniCall where
  sectionName : CString
  name : CString
  value : CString

/-- The fields after `module_info_clear`. -/
def ModuleFields.clear : ModuleFields where
  group := none
  name := none
  has_audio := false
  has_video := false
  weight := 0
  conflicts := []
  os_version := .clear

/-- `modules_parse_context`, with the id of the current module on its own. -/
structure ParseContext where
  id : Option CString
  current : ModuleFields
  modules : List ModuleInfo

/-- What ends the program. -/
inductive ParseFault
  /-- An assertion of `version_constraints_parse`. -/
  | assertion
  /-- `NULL` where a string should be. -/
  | null
  /-- An `int` that overflows. -/
  | overflow
deriving DecidableEq, Repr

/-- A result, or the fault that there is instead. -/
def orFault {α : Type} (fault : ParseFault) (result : Option α) : Except ParseFault α :=
  result.elim (.error fault) .ok

/-- `section_changed`: `array_list_add` before `-1` adds to the end. -/
def sectionChanged (os : VersionInfo) (context : ParseContext) : ParseContext :=
  match context.id with
  | none => context
  | some id =>
      if !versionConstraintsCheck context.current.os_version os then
        { context with id := none, current := .clear }
      else
        { id := none
          current := .clear
          modules := context.modules ++ [{ context.current with id }] }

/-- The weight of a module. -/
def weightOf (value : CString) : Int :=
  let weight := toInt (strtol value.bytes).1
  if weight < 0 then 0 else if weight > 100 then 100 else weight

/-- `version_constraints_parse`, with its counter `n_items` that is an `int`. -/
def parseConstraints (constraints : VersionConstraints) (value : List UInt8) :
    Except ParseFault VersionConstraints :=
  match versionConstraintsParse constraints value with
  | none => .error .assertion
  | some (_, result) => if itemsRead value < 2 ^ 31 then .ok result else .error .overflow

/-- What `modules_ini_handler` does with a key. -/
def setKey (current : ModuleFields) (name value : CString) : Except ParseFault ModuleFields :=
  let current :=
    if strcmp (ascii "name") name.bytes = 0 then { current with name := some value } else current
  if strcmp (ascii "group") name.bytes = 0 then .ok { current with group := some value }
  else if strcmp (ascii "weight") name.bytes = 0 then .ok { current with weight := weightOf value }
  else if strcmp (ascii "audio") name.bytes = 0 then
    .ok { current with has_audio := strcmp (ascii "true") value.bytes == 0 }
  else if strcmp (ascii "video") name.bytes = 0 then
    .ok { current with has_video := strcmp (ascii "true") value.bytes == 0 }
  else if strcmp (ascii "os_version") name.bytes = 0 then
    (parseConstraints current.os_version value.bytes).map
      fun os_version => { current with os_version }
  else if strcmp (ascii "conflicts") name.bytes = 0 then
    orFault .overflow <| (StrList.strListParse (.ofStrings current.conflicts) value.bytes
      (ascii ",")).map fun (_, list) => { current with conflicts := list.strings }
  else .ok current

/-- `modules_ini_handler`. -/
def modulesIniHandler (os : VersionInfo) (context : ParseContext) (call : IniCall) :
    Except ParseFault ParseContext :=
  let context :=
    if context.id.all fun id => strcmp call.sectionName.bytes id.bytes ≠ 0 then
      { sectionChanged os context with id := some call.sectionName }
    else context
  (setKey context.current call.name call.value).map fun current => { context with current }

/-- What `SS4S_ModulesList` adds to a list before it is sorted: the handler is
called with every key, and the last section is ended. -/
def modulesParse (os : VersionInfo) (modules : List ModuleInfo) (calls : List IniCall) :
    Except ParseFault (List ModuleInfo) :=
  (calls.foldlM (modulesIniHandler os) ⟨none, .clear, modules⟩).map fun context =>
    (sectionChanged os context).modules

/-! ## The modules of a file -/

/-- The maximal runs of calls with one section. -/
def runs (calls : List IniCall) : List (List IniCall) :=
  calls.splitBy fun a b => a.sectionName.bytes == b.sectionName.bytes

/-- The value of a key. -/
def valueOf (run : List IniCall) (key : String) : Option CString :=
  (run.find? (·.name.bytes = ascii key)).map (·.value)

/-- A value of a flag. -/
def isTrue (value : CString) : Bool := value.bytes = ascii "true"

/-- The number that a text begins with, from 0 to 100. -/
def clampedWeight (value : CString) : Int := max 0 (min 100 (strtol value.bytes).1)

/-- The fields that the keys of a run set, with a weight that is read by `weight`. -/
def fieldsOf (weight : CString → Int) (run : List IniCall) : ModuleFields where
  group := valueOf run "group"
  name := valueOf run "name"
  has_audio := (valueOf run "audio").any isTrue
  has_video := (valueOf run "video").any isTrue
  weight := ((valueOf run "weight").map weight).getD 0
  conflicts := ((valueOf run "conflicts").map fun value => pieces (ascii ",") value.bytes).getD []
  os_version := (((valueOf run "os_version").bind fun value =>
    versionConstraintsParse .clear value.bytes).map Prod.snd).getD .clear

/-- The module of a run, if it is for the version of the OS. -/
def moduleOf (weight : CString → Int) (os : VersionInfo) (run : List IniCall) :
    Option ModuleInfo :=
  run.head?.bind fun call =>
    if versionConstraintsCheck (fieldsOf weight run).os_version os then
      some { fieldsOf weight run with id := call.sectionName }
    else none

/-- The number of a text is on the same side of 0 and of 100 when it is an `int`. -/
def Narrows (value : CString) : Prop :=
  ((strtol value.bytes).1 ≤ 0 → toInt (strtol value.bytes).1 ≤ 0) ∧
    (100 ≤ (strtol value.bytes).1 → 100 ≤ toInt (strtol value.bytes).1)

/-- If the value of the call is a list, an `int` can count its places. -/
def Counts (call : IniCall) : Prop :=
  (call.name.bytes = ascii "conflicts" →
    call.value.bytes.countP (· ∈ ascii ",") < 2 ^ 31 - 1) ∧
  (call.name.bytes = ascii "os_version" → itemsRead call.value.bytes < 2 ^ 31)

instance (call : IniCall) : Decidable (Counts call) := inferInstanceAs (Decidable (_ ∧ _))

/-! ## One key -/

/-- The weight is the number in its limits, if the number narrows. -/
theorem weightOf_eq (value : CString) : weightOf value = clampedWeight value ↔ Narrows value := by
  have hint : ∀ n : Int, 0 < n → n < 100 → toInt n = n := fun n hlo hhi =>
    toInt_of_range (by omega) (by omega)
  have := hint (strtol value.bytes).1
  rw [weightOf, clampedWeight, Narrows]
  split
  · omega
  · split <;> omega

theorem strcmp_ascii {key : List UInt8} (hkey : 0 ∉ key) {name : CString} :
    strcmp key name.bytes = 0 ↔ name.bytes = key :=
  ⟨fun h => (eq_of_strcmp hkey name.noNul h).symm, fun h => by rw [h, strcmp_self]⟩

theorem isTrue_eq (value : CString) : (strcmp (ascii "true") value.bytes == 0) = isTrue value := by
  rw [isTrue, Bool.eq_iff_iff, beq_iff_eq, strcmp_ascii (by decide), decide_eq_true_eq]

theorem valueOf_eq_none {run : List IniCall} {call : IniCall} {key : String}
    (hnew : call.name.bytes ∉ run.map (·.name.bytes)) (h : call.name.bytes = ascii key) :
    valueOf run key = none := by
  rw [valueOf, Option.map_eq_none_iff, List.find?_eq_none]
  intro earlier hmem heq
  exact hnew (List.mem_map.2 ⟨earlier, hmem, (of_decide_eq_true heq).trans h.symm⟩)

/-- The value of a key after a call with a name that is new to the run. -/
theorem valueOf_append {run : List IniCall} {call : IniCall}
    (hnew : call.name.bytes ∉ run.map (·.name.bytes)) (key : String) :
    valueOf (run ++ [call]) key =
      if call.name.bytes = ascii key then some call.value else valueOf run key := by
  have hcons : valueOf (run ++ [call]) key =
      (valueOf run key).or (if call.name.bytes = ascii key then some call.value else none) := by
    rw [valueOf, valueOf, List.find?_append, Option.map_or]
    congr 1
    by_cases h : call.name.bytes = ascii key <;> simp [h]
  rw [hcons]
  split
  · next h => rw [valueOf_eq_none hnew h, Option.none_or]
  · rw [Option.or_none]

/-- The constraints of a value are read into a struct that is empty. -/
theorem versionConstraintsParse_clear (value : List UInt8) :
    ∃ result, versionConstraintsParse .clear value = some result := by
  rcases versionConstraintsParse_cases value with ⟨_, _, -, h, -⟩ | ⟨-, h⟩ <;> exact ⟨_, h⟩

/-- A list of conflicts is read into one that is empty. -/
theorem orFault_conflicts (value : List UInt8) (current : ModuleFields) :
    orFault .overflow ((StrList.strListParse (.ofStrings []) value (ascii ",")).map
        fun (_, list) => { current with conflicts := list.strings }) =
      if value.countP (· ∈ ascii ",") < 2 ^ 31 - 1 then
        .ok { current with conflicts := pieces (ascii ",") value }
      else .error .overflow := by
  have hstrings := congrArg
    (fun strings => orFault .overflow (strings.map fun conflicts => { current with conflicts }))
    (StrList.strings_strListParse (.ofStrings []) value (ascii ","))
  rw [Option.map_map] at hstrings
  refine hstrings.trans ?_
  rw [StrList.strings_ofStrings]
  split
  · by_cases hnil : pieces (ascii ",") value = []
    · rw [if_pos hnil, hnil]
      rfl
    · rw [if_neg hnil]
      rfl
  · rfl

/-- A key that is new to the run adds its value. -/
theorem setKey_fieldsOf {run : List IniCall} {call : IniCall}
    (hnew : call.name.bytes ∉ run.map (·.name.bytes)) :
    setKey (fieldsOf weightOf run) call.name call.value =
      if Counts call then .ok (fieldsOf weightOf (run ++ [call])) else .error .overflow := by
  have hvalue := valueOf_append hnew
  simp only [setKey, Counts, strcmp_ascii (by decide : 0 ∉ ascii "name"),
    strcmp_ascii (by decide : 0 ∉ ascii "group"), strcmp_ascii (by decide : 0 ∉ ascii "weight"),
    strcmp_ascii (by decide : 0 ∉ ascii "audio"), strcmp_ascii (by decide : 0 ∉ ascii "video"),
    strcmp_ascii (by decide : 0 ∉ ascii "os_version"),
    strcmp_ascii (by decide : 0 ∉ ascii "conflicts"), isTrue_eq, fieldsOf, hvalue]
  by_cases hname : call.name.bytes = ascii "name"
  · simp +decide [hname]
  by_cases hgroup : call.name.bytes = ascii "group"
  · simp +decide [hgroup]
  by_cases hweight : call.name.bytes = ascii "weight"
  · simp +decide [hweight]
  by_cases haudio : call.name.bytes = ascii "audio"
  · simp +decide [haudio]
  by_cases hvideo : call.name.bytes = ascii "video"
  · simp +decide [hvideo]
  by_cases hversion : call.name.bytes = ascii "os_version"
  · obtain ⟨result, hparse⟩ := versionConstraintsParse_clear call.value.bytes
    simp +decide only [hversion, valueOf_eq_none hnew hversion, hparse, parseConstraints,
      if_true, if_false, Option.bind_none, Option.map_none, Option.getD_none, Option.bind_some,
      Option.map_some, Option.getD_some, forall_const, false_imp_iff, true_and]
    split <;> rfl
  by_cases hconflicts : call.name.bytes = ascii "conflicts"
  · have hempty := valueOf_eq_none hnew hconflicts
    simp +decide only [hconflicts, hempty, if_true, if_false, Option.map_none, Option.getD_none,
      Option.map_some, Option.getD_some, forall_const, false_imp_iff, and_true]
    exact orFault_conflicts call.value.bytes (fieldsOf weightOf run)
  simp [hname, hgroup, hweight, haudio, hvideo, hversion, hconflicts]

/-! ## A run of keys -/

section

variable (os : VersionInfo)

/-- The section of a run. -/
def InSection (sectionName : CString) (run : List IniCall) : Prop :=
  ∀ call ∈ run, call.sectionName.bytes = sectionName.bytes

/-- No key comes twice. -/
def NoRepeat (run : List IniCall) : Prop := (run.map (·.name.bytes)).Nodup

/-- The rest of a run is read into the module that its beginning has built. -/
theorem foldlM_run {sectionName : CString} (modules : List ModuleInfo) (before : List IniCall)
    {rest : List IniCall}
    (hsection : InSection sectionName rest) (hrepeat : NoRepeat (before ++ rest)) :
    rest.foldlM (modulesIniHandler os) ⟨some sectionName, fieldsOf weightOf before, modules⟩ =
      if ∀ call ∈ rest, Counts call then
        .ok ⟨some sectionName, fieldsOf weightOf (before ++ rest), modules⟩
      else .error .overflow := by
  induction rest generalizing before with
  | nil =>
      rw [List.append_nil, if_pos (List.forall_mem_nil _)]
      rfl
  | cons call rest ih =>
      rw [List.append_cons] at hrepeat ⊢
      have hnew : call.name.bytes ∉ before.map (·.name.bytes) := by
        rw [NoRepeat, List.map_append, List.map_append, List.nodup_append, List.nodup_append]
          at hrepeat
        exact fun hmem => hrepeat.1.2.2 _ hmem _ List.mem_cons_self rfl
      have hsame : strcmp call.sectionName.bytes sectionName.bytes = 0 := by
        rw [hsection call List.mem_cons_self, strcmp_self]
      have hstep : modulesIniHandler os ⟨some sectionName, fieldsOf weightOf before, modules⟩
          call = if Counts call then
            .ok ⟨some sectionName, fieldsOf weightOf (before ++ [call]), modules⟩
          else .error .overflow := by
        simp only [modulesIniHandler, hsame, Option.all_some, ne_eq, not_true_eq_false,
          decide_false, Bool.false_eq_true, if_false, setKey_fieldsOf hnew]
        split <;> rfl
      rw [List.foldlM_cons, hstep, if_congr List.forall_mem_cons rfl rfl]
      by_cases hcounts : Counts call
      · rw [if_pos hcounts, if_congr (and_iff_right hcounts) rfl rfl]
        exact ih (before ++ [call]) (fun c hc => hsection c (List.mem_cons_of_mem _ hc)) hrepeat
      · rw [if_neg hcounts, if_neg fun h => hcounts h.1]
        rfl

/-- The first key of another section ends the section before. -/
theorem modulesIniHandler_first {context : ParseContext} {call : IniCall}
    (hclean : context.id = none → context.current = .clear)
    (hchange : ∀ id, context.id = some id → call.sectionName.bytes ≠ id.bytes) :
    modulesIniHandler os context call =
      if Counts call then
        .ok ⟨some call.sectionName, fieldsOf weightOf [call], (sectionChanged os context).modules⟩
      else .error .overflow := by
  have hall : (context.id.all fun id => strcmp call.sectionName.bytes id.bytes ≠ 0) = true := by
    rw [Option.all_eq_true]
    intro id hid
    rw [decide_eq_true_eq]
    exact fun h => hchange id hid (eq_of_strcmp call.sectionName.noNul id.noNul h)
  have hcurrent : (sectionChanged os context).current = fieldsOf weightOf [] := by
    rw [sectionChanged]
    cases hid : context.id with
    | none => exact hclean hid
    | some id =>
        simp only
        split <;> rfl
  have hnew : call.name.bytes ∉ ([] : List IniCall).map (·.name.bytes) := List.not_mem_nil
  simp only [modulesIniHandler, hall, if_true, hcurrent, setKey_fieldsOf hnew, List.nil_append]
  split <;> rfl

/-- The end of a run adds its module. -/
theorem sectionChanged_run (call : IniCall) (rest : List IniCall) (modules : List ModuleInfo) :
    (sectionChanged os ⟨some call.sectionName, fieldsOf weightOf (call :: rest), modules⟩).modules =
      modules ++ (moduleOf weightOf os (call :: rest)).toList := by
  rw [sectionChanged, moduleOf, List.head?_cons, Option.bind_some]
  cases hcheck : versionConstraintsCheck (fieldsOf weightOf (call :: rest)).os_version os <;> simp

/-- A whole run, behind a context of another section. -/
theorem foldlM_section {context : ParseContext} {call : IniCall} {rest : List IniCall}
    (hsection : InSection call.sectionName rest) (hrepeat : NoRepeat (call :: rest))
    (hclean : context.id = none → context.current = .clear)
    (hchange : ∀ id, context.id = some id → call.sectionName.bytes ≠ id.bytes) :
    (call :: rest).foldlM (modulesIniHandler os) context =
      if ∀ c ∈ call :: rest, Counts c then
        .ok ⟨some call.sectionName, fieldsOf weightOf (call :: rest),
          (sectionChanged os context).modules⟩
      else .error .overflow := by
  rw [List.foldlM_cons, modulesIniHandler_first os hclean hchange,
    if_congr List.forall_mem_cons rfl rfl]
  by_cases hcounts : Counts call
  · rw [if_pos hcounts, if_congr (and_iff_right hcounts) rfl rfl]
    exact foldlM_run os (sectionChanged os context).modules [call] hsection hrepeat
  · rw [if_neg hcounts, if_neg fun h => hcounts h.1]
    rfl

/-! ## All runs -/

/-- The first key behind a run is of another section. -/
theorem next_sectionName_ne {rs : List (List IniCall)} {call next : IniCall} {rest : List IniCall}
    (hsection : InSection call.sectionName rest)
    (hchain : ((call :: rest) :: rs).IsChain fun a b => ∃ ha hb,
      (a.getLast ha).sectionName.bytes ≠ (b.head hb).sectionName.bytes)
    (hnext : rs.flatten.head? = some next) :
    next.sectionName.bytes ≠ call.sectionName.bytes := by
  cases rs with
  | nil => cases hnext
  | cons run rs =>
      obtain ⟨ha, hb, hne⟩ := (List.isChain_cons_cons.1 hchain).1
      obtain ⟨first, run', rfl⟩ := List.exists_cons_of_ne_nil hb
      cases hnext
      have hlast : ((call :: rest).getLast ha).sectionName.bytes = call.sectionName.bytes := by
        rcases List.mem_cons.1 (List.getLast_mem ha) with h | h
        · rw [h]
        · exact hsection _ h
      rw [hlast] at hne
      exact hne.symm

/-- The runs add their modules one after another. -/
theorem foldlM_runs {rs : List (List IniCall)}
    (hrun : ∀ run ∈ rs, ∃ call rest, run = call :: rest ∧ InSection call.sectionName rest ∧
      NoRepeat run)
    (hchain : rs.IsChain fun a b => ∃ ha hb,
      (a.getLast ha).sectionName.bytes ≠ (b.head hb).sectionName.bytes)
    (context : ParseContext) (hclean : context.id = none → context.current = .clear)
    (hchange : ∀ call, rs.flatten.head? = some call →
      ∀ id, context.id = some id → call.sectionName.bytes ≠ id.bytes) :
    ((rs.flatten.foldlM (modulesIniHandler os) context).map fun context =>
        (sectionChanged os context).modules) =
      if ∀ call ∈ rs.flatten, Counts call then
        .ok ((sectionChanged os context).modules ++ rs.filterMap (moduleOf weightOf os))
      else .error .overflow := by
  induction rs generalizing context with
  | nil =>
      rw [List.flatten_nil, if_pos (List.forall_mem_nil _), List.filterMap_nil, List.append_nil]
      rfl
  | cons run rs ih =>
      obtain ⟨call, rest, rfl, hsection, hrepeat⟩ := hrun run List.mem_cons_self
      have hlater := ih (fun r hr => hrun r (List.mem_cons_of_mem _ hr)) hchain.tail
        ⟨some call.sectionName, fieldsOf weightOf (call :: rest),
          (sectionChanged os context).modules⟩
        (fun h => by cases h)
        (fun next h id hid => by cases hid; exact next_sectionName_ne hsection hchain h)
      rw [List.flatten_cons, List.foldlM_append,
        foldlM_section os hsection hrepeat hclean (hchange call rfl),
        if_congr List.forall_mem_append rfl rfl]
      by_cases hcounts : ∀ c ∈ call :: rest, Counts c
      · rw [if_pos hcounts, if_congr (and_iff_right hcounts) rfl rfl]
        refine hlater.trans ?_
        rw [sectionChanged_run, List.append_assoc, List.filterMap_cons]
        cases moduleOf weightOf os (call :: rest) <;> rfl
      · rw [if_neg hcounts, if_neg fun h => hcounts h.1]
        rfl

/-- One section all through a run. -/
theorem inSection_of_isChain {call : IniCall} {rest : List IniCall}
    (h : (call :: rest).IsChain fun a b => (a.sectionName.bytes == b.sectionName.bytes) = true) :
    InSection call.sectionName rest := by
  induction rest generalizing call with
  | nil => exact fun c hc => by cases hc
  | cons next rest ih =>
      obtain ⟨hsame, htail⟩ := List.isChain_cons_cons.1 h
      intro c hc
      rcases List.mem_cons.1 hc with rfl | hc
      · exact (eq_of_beq hsame).symm
      · exact (ih htail c hc).trans (eq_of_beq hsame).symm

theorem runs_spec (calls : List IniCall) (hrepeat : ∀ run ∈ runs calls, NoRepeat run) :
    ∀ run ∈ runs calls, ∃ call rest, run = call :: rest ∧ InSection call.sectionName rest ∧
      NoRepeat run := by
  intro run hmem
  cases run with
  | nil => exact absurd hmem (List.nil_notMem_splitBy _ calls)
  | cons call rest =>
      exact ⟨call, rest, rfl, inSection_of_isChain (List.isChain_of_mem_splitBy hmem),
        hrepeat _ hmem⟩

/-- What the handler makes of the calls, with the weights that it reads. -/
theorem modulesParse_eq (modules : List ModuleInfo) {calls : List IniCall}
    (hrepeat : ∀ run ∈ runs calls, NoRepeat run) :
    modulesParse os modules calls =
      if ∀ call ∈ calls, Counts call then
        .ok (modules ++ (runs calls).filterMap (moduleOf weightOf os))
      else .error .overflow := by
  have hchain := List.isChain_getLast_head_splitBy
    (fun a b : IniCall => a.sectionName.bytes == b.sectionName.bytes) calls
  have hfold := foldlM_runs os (runs_spec calls hrepeat)
    (hchain.imp fun a b ⟨ha, hb, hne⟩ => ⟨ha, hb, by simpa using hne⟩) ⟨none, .clear, modules⟩
    (fun _ => rfl) (fun _ _ id hid => by cases hid)
  rw [runs, List.flatten_splitBy] at hfold
  exact hfold

/-- If the module of a run is added, its weight is a number that narrows. -/
def WeightFits (run : List IniCall) : Prop :=
  versionConstraintsCheck (fieldsOf clampedWeight run).os_version os = true →
    ∀ value ∈ valueOf run "weight", Narrows value

theorem isSome_moduleOf {weight : CString → Int} {run : List IniCall} (hne : run ≠ []) :
    (moduleOf weight os run).isSome =
      versionConstraintsCheck (fieldsOf weight run).os_version os := by
  obtain ⟨call, rest, rfl⟩ := List.exists_cons_of_ne_nil hne
  rw [moduleOf, List.head?_cons, Option.bind_some]
  split
  · next hcheck => exact hcheck.symm
  · next hcheck => exact (Bool.eq_false_iff.2 hcheck).symm

/-- The two weights of a run are one if its number narrows. -/
theorem moduleOf_eq_iff {run : List IniCall} (hne : run ≠ []) :
    moduleOf weightOf os run = moduleOf clampedWeight os run ↔ WeightFits os run := by
  obtain ⟨call, rest, rfl⟩ := List.exists_cons_of_ne_nil hne
  have hsame : (fieldsOf weightOf (call :: rest)).os_version =
      (fieldsOf clampedWeight (call :: rest)).os_version := rfl
  rw [moduleOf, moduleOf, List.head?_cons, Option.bind_some, Option.bind_some, WeightFits, hsame]
  by_cases hcheck : versionConstraintsCheck (fieldsOf clampedWeight (call :: rest)).os_version os
  · rw [if_pos hcheck, if_pos hcheck, Option.some_inj, imp_iff_right hcheck]
    simp only [fieldsOf, ModuleInfo.mk.injEq, ModuleFields.mk.injEq, and_true, true_and]
    cases valueOf (call :: rest) "weight" with
    | none => exact iff_of_true rfl fun _ hmem => nomatch hmem
    | some value =>
        rw [Option.map_some, Option.map_some, Option.getD_some, Option.getD_some, weightOf_eq]
        exact ⟨fun h _ hmem => Option.some_inj.1 hmem ▸ h, fun h => h value rfl⟩
  · rw [if_neg hcheck, if_neg hcheck]
    exact iff_of_true rfl fun h => absurd h hcheck

/-- Two functions that drop the same items keep equal lists if they agree on every item. -/
theorem filterMap_inj {α β : Type*} {f g : α → Option β} {xs : List α}
    (h : ∀ x ∈ xs, (f x).isSome = (g x).isSome) :
    xs.filterMap f = xs.filterMap g ↔ ∀ x ∈ xs, f x = g x := by
  induction xs with
  | nil => exact iff_of_true rfl (List.forall_mem_nil _)
  | cons x xs ih =>
      obtain ⟨hx, hxs⟩ := List.forall_mem_cons.1 h
      rw [List.forall_mem_cons, ← ih hxs, List.filterMap_cons, List.filterMap_cons]
      cases hf : f x <;> cases hg : g x <;> rw [hf, hg] at hx
      · exact (and_iff_right rfl).symm
      · cases hx
      · cases hx
      · rw [List.cons_eq_cons, Option.some_inj]

end

/-- **The modules that are added are those of the runs, in the order of the
file, exactly if the weights narrow and the lists can be counted.** -/
theorem modulesParse_runs (os : VersionInfo) (modules : List ModuleInfo) (calls : List IniCall)
    (hrepeat : ∀ run ∈ runs calls, NoRepeat run) :
    modulesParse os modules calls =
        .ok (modules ++ (runs calls).filterMap (moduleOf clampedWeight os)) ↔
      (∀ call ∈ calls, Counts call) ∧ ∀ run ∈ runs calls, WeightFits os run := by
  have hne : ∀ run ∈ runs calls, run ≠ [] := fun run hrun hnil =>
    List.nil_notMem_splitBy _ calls (hnil ▸ hrun)
  have hsome : ∀ run ∈ runs calls,
      (moduleOf weightOf os run).isSome = (moduleOf clampedWeight os run).isSome := by
    intro run hrun
    rw [isSome_moduleOf os (hne run hrun), isSome_moduleOf os (hne run hrun)]
    rfl
  rw [modulesParse_eq os modules hrepeat]
  by_cases hcounts : ∀ call ∈ calls, Counts call
  · rw [if_pos hcounts, and_iff_right hcounts, Except.ok.injEq, List.append_cancel_left_eq,
      filterMap_inj hsome]
    exact forall₂_congr fun run hrun => moduleOf_eq_iff os (hne run hrun)
  · rw [if_neg hcounts]
    exact iff_of_false (fun h => nomatch h) fun h => hcounts h.1

/-- A section with two keys. -/
theorem modulesParse_runs_ffmpeg :
    modulesParse ⟨5, 0, 0⟩ [] [⟨.lit "ffmpeg", .lit "audio", .lit "true"⟩,
        ⟨.lit "ffmpeg", .lit "weight", .lit "101"⟩] =
      .ok ([] ++ (runs [⟨.lit "ffmpeg", .lit "audio", .lit "true"⟩,
        ⟨.lit "ffmpeg", .lit "weight", .lit "101"⟩]).filterMap
          (moduleOf clampedWeight ⟨5, 0, 0⟩)) :=
  (modulesParse_runs ⟨5, 0, 0⟩ [] _ (by unfold NoRepeat; decide)).2 (by
    unfold WeightFits Narrows
    decide +kernel)

/-- The weight is a number that an `int` takes for a negative one. -/
theorem modulesParse_runs_narrowed :
    modulesParse ⟨5, 0, 0⟩ [] [⟨.lit "ffmpeg", .lit "weight", .lit "3000000000"⟩] ≠
      .ok ([] ++ (runs [⟨.lit "ffmpeg", .lit "weight", .lit "3000000000"⟩]).filterMap
        (moduleOf clampedWeight ⟨5, 0, 0⟩)) := by
  intro h
  have hweights := congrArg (Except.map (·.map (·.weight))) h
  revert hweights
  decide +kernel

end CommonsC.Modules
