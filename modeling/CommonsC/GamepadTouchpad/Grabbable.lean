import CommonsC.Base.Strings
import CommonsC.GamepadTouchpad.Model

/-!
# CommonsC.GamepadTouchpad.Grabbable

The nodes of a controller that may be grabbed, as
`device/gamepad-touchpad/gamepad_touchpad.c` collects them in sysfs.

The file system is a parameter: what a directory lists, in the order of
`readdir`, and what a file contains.  Two loops write to one array of names, and
each stops at the same limit.  Both keep to one form: what is there and what
there is to come, cut off at the limit (`collectEvents_eq`,
`collectInputs_eq`).
-/

namespace CommonsC.GamepadTouchpad

open CString

/-- What `opendir` and `fopen` find: `none` is `NULL`. -/
structure FileSystem where
  opendir : CString → Option (List CString)
  fopen : CString → Option (List UInt8)

/-- `NODE_NAME_MAX`. -/
def nodeNameMax : Nat := 32

/-! ## Properties -/

/-- The value of a hexadecimal digit. -/
def hexDigit (b : UInt8) : Nat :=
  if b ≤ 57 then b.toNat - 48 else if b ≤ 70 then b.toNat - 55 else b.toNat - 87

/-- The number that hexadecimal digits stand for. -/
def hexValue (digits : List UInt8) : Nat := digits.foldl (fun n d => 16 * n + hexDigit d) 0

/-- `%lx` of `fscanf`: the number, which has digits, and before them white
space, a sign and `0x`.  It is converted like `strtoul` does. -/
def scanLongHex (s : List UInt8) : Option Nat :=
  let s := s.dropWhile Numeral.isSpace
  let (neg, s) := match s with
    | 43 :: t => (false, t)
    | 45 :: t => (true, t)
    | _ => (false, s)
  let s := match s with
    | 48 :: 88 :: t | 48 :: 120 :: t => t
    | _ => s
  let digits := s.takeWhile isHexDigit
  if digits = [] then none
  else
    some (if 2 ^ 64 ≤ hexValue digits then 2 ^ 64 - 1
      else if neg then (2 ^ 64 - hexValue digits) % 2 ^ 64 else hexValue digits)

/-- `INPUT_PROP_ACCELEROMETER`. -/
def inputPropAccelerometer : Nat := 6

/-! ## The code -/

/-- `<hid_path>/input`. -/
def inputsPath (hidPath : CString) : CString := hidPath.append (.lit "/input")

/-- An entry of a directory. -/
def entryPath (path name : CString) : CString := (path.append (.lit "/")).append name

/-- `<child_path>/properties`. -/
def propsPath (childPath : CString) : CString := childPath.append (.lit "/properties")

/-- `input_child_reserved_by_sdl`. -/
def inputChildReservedBySdl (fs : FileSystem) (childPath : CString) : Bool :=
  if ((fs.opendir childPath).getD []).any fun ent => strncmp ent.bytes (ascii "js") 2 = 0 then true
  else if (propsPath childPath).strlen ≥ pathMax then false
  else
    match (fs.fopen (propsPath childPath)).bind scanLongHex with
    | none => false
    | some props => (props >>> inputPropAccelerometer) &&& 1 != 0

/-- `strcpy(names[num_names++], name)` with the names that are there, where the
array has `rows` rows: `none` is a write that is not within a row. -/
def addName (rows : Nat) (names : List CString) (name : CString) : Option (List CString) :=
  if names.length < rows ∧ name.strlen < nodeNameMax then some (names ++ [name]) else none

/-- The inner loop of `collect_grabbable_nodes`. -/
def collectEvents (rows : Nat) (maxNames : Int) :
    List CString → List CString → Option (List CString)
  | [], names => some names
  | ent :: entries, names =>
      if names.length < maxNames then
        if strncmp ent.bytes (ascii "event") 5 ≠ 0 ∨ ent.strlen ≥ nodeNameMax then
          collectEvents rows maxNames entries names
        else do
          let names ← addName rows names ent
          collectEvents rows maxNames entries names
      else some names

/-- The outer loop of `collect_grabbable_nodes`. -/
def collectInputs (fs : FileSystem) (inputsPath : CString) (rows : Nat) (maxNames : Int) :
    List CString → List CString → Option (List CString)
  | [], names => some names
  | ent :: entries, names =>
      if names.length < maxNames then
        let inputPath := entryPath inputsPath ent
        if strncmp ent.bytes (ascii "input") 5 ≠ 0 then
          collectInputs fs inputsPath rows maxNames entries names
        else if inputPath.strlen ≥ pathMax then
          collectInputs fs inputsPath rows maxNames entries names
        else if inputChildReservedBySdl fs inputPath then
          collectInputs fs inputsPath rows maxNames entries names
        else
          match fs.opendir inputPath with
          | none => collectInputs fs inputsPath rows maxNames entries names
          | some events => do
              let names ← collectEvents rows maxNames events names
              collectInputs fs inputsPath rows maxNames entries names
      else some names

/-- `collect_grabbable_nodes`: the names that are written, as many as it
returns. -/
def collectGrabbableNodes (fs : FileSystem) (rows : Nat) (hidPath : CString) (maxNames : Int) :
    Option (List CString) :=
  if (inputsPath hidPath).strlen ≥ pathMax then some []
  else
    match fs.opendir (inputsPath hidPath) with
    | none => some []
    | some entries => collectInputs fs (inputsPath hidPath) rows maxNames entries []

/-! ## The nodes of a tree -/

section

variable (fs : FileSystem)

/-- What a directory lists, nothing if it cannot be read. -/
def entriesOf (path : CString) : List CString := (fs.opendir path).getD []

/-- The entries whose name starts with `input`. -/
def inputsAmong (path : CString) (entries : List CString) : List CString :=
  (entries.filter fun name => ascii "input" <+: name.bytes).map (entryPath path)

/-- The children of `input/` whose name starts with `input`. -/
def children (hidPath : CString) : List CString :=
  inputsAmong (inputsPath hidPath) (entriesOf fs (inputsPath hidPath))

/-- The child has a joystick node, or its properties read as a number with bit 6
set. -/
def Reserved (childPath : CString) : Prop :=
  (∃ ent ∈ entriesOf fs childPath, ascii "js" <+: ent.bytes) ∨
    ∃ props ∈ (fs.fopen (propsPath childPath)).bind scanLongHex, props.testBit 6

instance : DecidablePred (Reserved fs) := fun _ => inferInstanceAs (Decidable (_ ∨ _))

/-- The event nodes of a child whose names fit in a row. -/
def eventsOf (childPath : CString) : List CString :=
  (entriesOf fs childPath).filter fun ent => ascii "event" <+: ent.bytes ∧ ent.strlen < 32

/-- The event nodes of the children that are not reserved. -/
def grabbableAmong (children : List CString) : List CString :=
  (children.filter fun child => ¬Reserved fs child).flatMap (eventsOf fs)

/-- The nodes that may be grabbed, in the order of the listings. -/
def grabbableNodes (hidPath : CString) : List CString := grabbableAmong fs (children fs hidPath)

/-- The paths are shorter than `PATH_MAX`. -/
structure PathsFit (hidPath : CString) : Prop where
  inputs : (inputsPath hidPath).strlen < pathMax
  props : ∀ child ∈ children fs hidPath, (propsPath child).strlen < pathMax

/-! ## The loops -/

theorem strncmp_ascii {name : CString} {start : String} (h : 0 ∉ ascii start) :
    strncmp name.bytes (ascii start) (ascii start).length = 0 ↔ ascii start <+: name.bytes :=
  strncmp_eq_zero name.noNul h

/-- Cutting off before more is added makes no difference. -/
theorem take_take_append {α : Type*} (m : Nat) (xs ys : List α) :
    (xs.take m ++ ys).take m = (xs ++ ys).take m := by
  rw [List.take_append, List.take_append, List.take_take, Nat.min_self, List.length_take]
  congr 2
  omega

theorem strlen_append (s t : CString) : (s.append t).strlen = s.strlen + t.strlen :=
  List.length_append

variable {fs}

theorem inputChildReservedBySdl_eq {childPath : CString}
    (hfit : (propsPath childPath).strlen < pathMax) :
    inputChildReservedBySdl fs childPath = decide (Reserved fs childPath) := by
  have hany : ((fs.opendir childPath).getD []).any
      (fun ent => decide (strncmp ent.bytes (ascii "js") 2 = 0)) =
        decide (∃ ent ∈ entriesOf fs childPath, ascii "js" <+: ent.bytes) := by
    rw [Bool.eq_iff_iff, List.any_eq_true, decide_eq_true_eq]
    refine exists_congr fun ent => and_congr_right fun _ => ?_
    rw [decide_eq_true_eq]
    exact strncmp_ascii (by decide)
  rw [inputChildReservedBySdl, hany, if_neg (Nat.not_le.2 hfit)]
  by_cases hjs : ∃ ent ∈ entriesOf fs childPath, ascii "js" <+: ent.bytes
  · rw [if_pos (decide_eq_true hjs)]
    exact (decide_eq_true (.inl hjs)).symm
  · rw [if_neg (by simpa using hjs), Bool.eq_iff_iff, decide_eq_true_eq, Reserved, or_iff_right hjs]
    cases (fs.fopen (propsPath childPath)).bind scanLongHex with
    | none => simp
    | some props => simp [inputPropAccelerometer, Nat.testBit]

variable {rows : Nat} {maxNames : Int}

/-- At the limit nothing is added. -/
theorem take_append_of_limit {names : List CString} (hlen : names.length ≤ maxNames.toNat)
    (hlimit : ¬(names.length : Int) < maxNames) (more : List CString) :
    (names ++ more).take maxNames.toNat = names :=
  List.take_left' (by omega)

/-- The inner loop adds the event nodes, up to the limit. -/
theorem collectEvents_eq (hrows : maxNames ≤ rows) (entries : List CString) {names : List CString}
    (hlen : names.length ≤ maxNames.toNat) :
    collectEvents rows maxNames entries names =
      some ((names ++ entries.filter fun ent => ascii "event" <+: ent.bytes ∧ ent.strlen < 32).take
        maxNames.toNat) := by
  induction entries generalizing names with
  | nil => rw [collectEvents, List.filter_nil, List.append_nil, List.take_of_length_le hlen]
  | cons ent entries ih =>
      have hstart : strncmp ent.bytes (ascii "event") 5 = 0 ↔ ascii "event" <+: ent.bytes :=
        strncmp_ascii (by decide)
      rw [collectEvents]
      by_cases hlt : (names.length : Int) < maxNames
      · rw [if_pos hlt]
        by_cases hevent : ascii "event" <+: ent.bytes ∧ ent.strlen < 32
        · have hadd : addName rows names ent = some (names ++ [ent]) :=
            if_pos ⟨by omega, hevent.2⟩
          rw [if_neg (by simp [hstart, nodeNameMax, hevent]), hadd, Option.bind_eq_bind,
            Option.bind_some, ih (by rw [List.length_append, List.length_singleton]; omega),
            List.filter_cons_of_pos (by simpa using hevent), List.append_assoc]
          rfl
        · have hskip : strncmp ent.bytes (ascii "event") 5 ≠ 0 ∨ ent.strlen ≥ nodeNameMax := by
            rcases not_and_or.1 hevent with h | h
            · exact .inl (mt hstart.1 h)
            · exact .inr (Nat.not_lt.1 h)
          rw [if_pos hskip, ih hlen, List.filter_cons_of_neg (by simpa using hevent)]
      · rw [if_neg hlt, take_append_of_limit hlen hlt]

theorem grabbableAmong_cons (path ent : CString) (entries : List CString) :
    grabbableAmong fs (inputsAmong path (ent :: entries)) =
      grabbableAmong fs (inputsAmong path [ent]) ++
        grabbableAmong fs (inputsAmong path entries) := by
  rw [grabbableAmong, grabbableAmong, grabbableAmong, ← List.flatMap_append, ← List.filter_append,
    inputsAmong, inputsAmong, inputsAmong, ← List.map_append, ← List.filter_append]
  rfl

/-- One round of the outer loop adds the nodes of one child. -/
theorem collectInputs_cons (hrows : maxNames ≤ rows) {path ent : CString}
    {entries names : List CString}
    (hfit : ascii "input" <+: ent.bytes → (propsPath (entryPath path ent)).strlen < pathMax)
    (hlen : names.length ≤ maxNames.toNat) (hlt : (names.length : Int) < maxNames) :
    collectInputs fs path rows maxNames (ent :: entries) names =
      collectInputs fs path rows maxNames entries
        ((names ++ grabbableAmong fs (inputsAmong path [ent])).take maxNames.toNat) := by
  have hstart : strncmp ent.bytes (ascii "input") 5 = 0 ↔ ascii "input" <+: ent.bytes :=
    strncmp_ascii (by decide)
  have hskip : (names ++ []).take maxNames.toNat = names := by
    rw [List.append_nil, List.take_of_length_le hlen]
  rw [collectInputs, if_pos hlt]
  by_cases hinput : ascii "input" <+: ent.bytes
  · have hone : inputsAmong path [ent] = [entryPath path ent] := by
      rw [inputsAmong, List.filter_cons_of_pos (by simpa using hinput)]
      rfl
    have hprops := hfit hinput
    have hpath : (entryPath path ent).strlen < pathMax := by
      rw [propsPath, strlen_append] at hprops
      omega
    rw [if_neg (not_not.2 (hstart.2 hinput)), if_neg (Nat.not_le.2 hpath),
      inputChildReservedBySdl_eq hprops, hone, grabbableAmong]
    by_cases hreserved : Reserved fs (entryPath path ent)
    · rw [if_pos (decide_eq_true hreserved), List.filter_cons_of_neg (by simpa using hreserved),
        List.filter_nil, List.flatMap_nil, hskip]
    · rw [if_neg (by simpa using hreserved), List.filter_cons_of_pos (by simpa using hreserved),
        List.filter_nil, List.flatMap_singleton, eventsOf, entriesOf]
      cases fs.opendir (entryPath path ent) with
      | none => exact congrArg _ hskip.symm
      | some events => exact congrArg (Option.bind · _) (collectEvents_eq hrows events hlen)
  · have hnone : inputsAmong path [ent] = [] := by
      rw [inputsAmong, List.filter_cons_of_neg (by simpa using hinput)]
      rfl
    rw [if_pos (mt hstart.1 hinput), hnone]
    exact congrArg _ hskip.symm

/-- The outer loop adds the nodes of the children that are not reserved, up to
the limit. -/
theorem collectInputs_eq (hrows : maxNames ≤ rows) {path : CString} {entries names : List CString}
    (hfit : ∀ child ∈ inputsAmong path entries, (propsPath child).strlen < pathMax)
    (hlen : names.length ≤ maxNames.toNat) :
    collectInputs fs path rows maxNames entries names =
      some ((names ++ grabbableAmong fs (inputsAmong path entries)).take maxNames.toNat) := by
  induction entries generalizing names with
  | nil =>
      have hnone : grabbableAmong fs (inputsAmong path []) = [] := rfl
      rw [collectInputs, hnone, List.append_nil, List.take_of_length_le hlen]
  | cons ent entries ih =>
      have hmem : ∀ name ∈ ent :: entries, ascii "input" <+: name.bytes →
          (propsPath (entryPath path name)).strlen < pathMax := fun name hname hinput =>
        hfit _ (List.mem_map_of_mem (List.mem_filter.2 ⟨hname, decide_eq_true hinput⟩))
      by_cases hlt : (names.length : Int) < maxNames
      · have hrest : ∀ child ∈ inputsAmong path entries, (propsPath child).strlen < pathMax := by
          intro child hchild
          obtain ⟨name, hname, rfl⟩ := List.mem_map.1 hchild
          obtain ⟨hname, hinput⟩ := List.mem_filter.1 hname
          exact hmem name (List.mem_cons_of_mem _ hname) (of_decide_eq_true hinput)
        rw [collectInputs_cons hrows (hmem ent List.mem_cons_self) hlen hlt,
          ih hrest (List.length_take_le _ _), take_take_append, List.append_assoc,
          ← grabbableAmong_cons]
      · rw [collectInputs, if_neg hlt, take_append_of_limit hlen hlt]

/-- A node that may be grabbed is an event node of a child that is not reserved,
and its name fits in a row. -/
theorem mem_grabbableNodes {hidPath name : CString} (h : name ∈ grabbableNodes fs hidPath) :
    ∃ child ∈ children fs hidPath, ¬Reserved fs child ∧ name ∈ eventsOf fs child := by
  obtain ⟨child, hchild, hname⟩ := List.mem_flatMap.1 h
  obtain ⟨hmem, hfree⟩ := List.mem_filter.1 hchild
  exact ⟨child, hmem, by simpa using hfree, hname⟩

/-- **The names that are collected are those of the first nodes that may be
grabbed, and nothing is written that is not within the array.** -/
theorem collectGrabbableNodes_eq (fs : FileSystem) {rows : Nat} {hidPath : CString}
    {maxNames : Int} (hrows : maxNames ≤ rows) (hfit : PathsFit fs hidPath) :
    ∃ names, collectGrabbableNodes fs rows hidPath maxNames = some names ∧
      names = (grabbableNodes fs hidPath).take maxNames.toNat ∧
      ∀ name ∈ names, ∃ child ∈ children fs hidPath,
        ¬Reserved fs child ∧ name ∈ eventsOf fs child := by
  refine ⟨_, ?_, rfl, fun name hname => mem_grabbableNodes (List.mem_of_mem_take hname)⟩
  have hprops := hfit.props
  rw [collectGrabbableNodes, if_neg (Nat.not_le.2 hfit.inputs), grabbableNodes]
  rw [children, entriesOf] at hprops ⊢
  cases hopen : fs.opendir (inputsPath hidPath) with
  | none => exact (congrArg some List.take_nil).symm
  | some entries =>
      rw [hopen, Option.getD_some] at hprops
      rw [Option.getD_some]
      exact collectInputs_eq hrows hprops (Nat.zero_le _)

/-- A controller with a joystick, a touchpad and a motion sensor. -/
def dualShock : FileSystem where
  opendir path :=
    if path.bytes = ascii "/hid/input" then
      some [.lit "input14", .lit "input15", .lit "input16", .lit "power"]
    else if path.bytes = ascii "/hid/input/input14" then some [.lit "event16", .lit "js7"]
    else if path.bytes = ascii "/hid/input/input15" then some [.lit "event14", .lit "properties"]
    else if path.bytes = ascii "/hid/input/input16" then some [.lit "event15", .lit "properties"]
    else none
  fopen path :=
    if path.bytes = ascii "/hid/input/input15/properties" then some (ascii "5")
    else if path.bytes = ascii "/hid/input/input16/properties" then some (ascii "40")
    else none

theorem collectGrabbableNodes_dualShock :
    ∃ names, collectGrabbableNodes dualShock 8 (.lit "/hid") 8 = some names ∧
      names = (grabbableNodes dualShock (.lit "/hid")).take 8 ∧
      ∀ name ∈ names, ∃ child ∈ children dualShock (.lit "/hid"),
        ¬Reserved dualShock child ∧ name ∈ eventsOf dualShock child :=
  collectGrabbableNodes_eq dualShock (by decide) ⟨by decide, by decide⟩

/-- Only the touchpad is left. -/
example : (grabbableNodes dualShock (.lit "/hid")).map bytes = [ascii "event14"] := by decide

end

end CommonsC.GamepadTouchpad
