import CommonsC.Base.CString
import CommonsC.Base.Paths

/-!
# CommonsC.GamepadTouchpad.Model

The HID device that a node belongs to, as `device/gamepad-touchpad/gamepad_touchpad.c`
finds it in sysfs.

`realpath` is a parameter: the canonical path of a file, `none` if there is no
such file.  The search itself edits the text of that path in place, and is
given the names that count as HID devices (`is_hid_device_dirname` in the code).
-/

namespace CommonsC.GamepadTouchpad

open CString

/-- `PATH_MAX` of Linux. -/
def pathMax : Nat := 4096

/-- `dev_t`: what `major` and `minor` take out of it. -/
structure DevT where
  major : UInt32
  minor : UInt32

/-! ## Names -/

/-- `isxdigit`. -/
def isHexDigit (b : UInt8) : Bool :=
  Numeral.isDigit b || (65 ≤ b && b ≤ 70) || (97 ≤ b && b ≤ 102)

/-- `%x` of `sscanf`: the rest behind a number, which has digits, and before them
white space, a sign and `0x`. -/
def scanHex (s : List UInt8) : Option (List UInt8) :=
  let s := s.dropWhile Numeral.isSpace
  let s := match s with
    | 43 :: t | 45 :: t => t
    | _ => s
  let s := match s with
    | 48 :: 88 :: t | 48 :: 120 :: t => t
    | _ => s
  if s.takeWhile isHexDigit = [] then none else some (s.dropWhile isHexDigit)

/-- An ordinary character of a format. -/
def scanChar (c : UInt8) : List UInt8 → Option (List UInt8)
  | [] => none
  | b :: s => if b = c then some s else none

/-- `is_hid_device_dirname`.  `%x` is read as the C standard has it; the `sscanf` of
glibc also takes a bare `0x`. -/
def isHidDeviceDirname (name : List UInt8) : Bool :=
  let consumed := do
    let s ← scanHex name
    let s ← scanChar 58 s
    let s ← scanHex s
    let s ← scanChar 58 s
    let s ← scanHex s
    let s ← scanChar 46 s
    scanHex s
  consumed == some []

/-! ## The search -/

/-- The loop of `hid_parent_for_devnum`: `resolved` loses its last component as
long as it is longer than the root. -/
def walk (isHidDeviceDirname : List UInt8 → Bool) (devicesRootLen outLen : Nat)
    (resolved : List UInt8) : Option (List UInt8) :=
  if resolved.length > devicesRootLen then
    match _found : strrchr 47 resolved with
    | some (before, base) =>
        if isHidDeviceDirname base then
          if resolved.length ≥ outLen then none else some resolved
        else walk isHidDeviceDirname devicesRootLen outLen before
    | none =>
        if isHidDeviceDirname resolved then
          if resolved.length ≥ outLen then none else some resolved
        else none
  else none
termination_by resolved.length
decreasing_by
  rw [eq_of_strrchr _found, List.length_append, List.length_cons]
  omega

/-- The link to the node. -/
def charLink (sysfsRoot : CString) (rdev : DevT) : CString :=
  (((sysfsRoot.append (.lit "/dev/char/")).append (.decimal rdev.major.toNat)).append
    (.lit ":")).append (.decimal rdev.minor.toNat)

/-- The root of the devices. -/
def devicesLink (sysfsRoot : CString) : CString := sysfsRoot.append (.lit "/devices")

/-- `hid_parent_for_devnum`: what it writes to `out`. -/
def hidParentForDevnum (isHidDeviceDirname : List UInt8 → Bool)
    (realpath : CString → Option AbsPath) (sysfsRoot : CString) (rdev : DevT) (outLen : Nat) :
    Option (List UInt8) :=
  if (charLink sysfsRoot rdev).strlen ≥ pathMax then none
  else do
    let resolved ← realpath (charLink sysfsRoot rdev)
    if (devicesLink sysfsRoot).strlen ≥ pathMax then none
    else do
      let devicesRoot ← realpath (devicesLink sysfsRoot)
      let devicesRootLen := devicesRoot.text.length
      if strncmp resolved.text devicesRoot.text devicesRootLen ≠ 0 then none
      else walk isHidDeviceDirname devicesRootLen outLen resolved.text

end CommonsC.GamepadTouchpad
