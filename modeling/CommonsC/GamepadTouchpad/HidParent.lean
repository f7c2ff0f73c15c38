import CommonsC.GamepadTouchpad.Model

/-!
# CommonsC.GamepadTouchpad.HidParent

Which device `hid_parent_for_devnum` finds.

The loop finds the nearest enclosing HID device with a text longer than that of
the root (`walk_eq_some`).  Below the root these are the devices below the root.
But what is asked before the loop is whether the text begins with that of the
root, and so does that of a directory next to it: there the loop goes up to that
directory, and takes what it finds (`hidParentForDevnum_nearest`).
-/

namespace CommonsC.GamepadTouchpad

open CString AbsPath

variable {isHid : List UInt8 → Bool} {outLen n : Nat} {resolved devicesRoot P : AbsPath}

/-! ## The loop -/

/-- The loop goes up to the nearest HID device, and looks at the lengths. -/
theorem walk_join {cs : List (List UInt8)} (hcs : ∀ c ∈ cs, 47 ∉ c) {out : List UInt8} :
    walk isHid n outLen (join cs) = some out ↔
      n < (join (cs.rdropWhile fun c => !isHid c)).length ∧
        (join (cs.rdropWhile fun c => !isHid c)).length < outLen ∧
        join (cs.rdropWhile fun c => !isHid c) = out := by
  induction cs using List.reverseRecOn with
  | nil =>
      rw [List.rdropWhile_nil, join_nil, walk, if_neg (by simp)]
      exact iff_of_false nofun fun h => absurd h.1 (Nat.not_lt_zero n)
  | append_singleton cs c ih =>
      have hslash : strrchr 47 (join (cs ++ [c])) = some (join cs, c) := by
        rw [join_concat]
        exact strrchr_append _ (hcs c (by simp))
      by_cases hlong : n < (join (cs ++ [c])).length
      · rw [walk, if_pos hlong]
        split
        · next before base h =>
            cases hslash.symm.trans h
            by_cases hhid : isHid c = true
            · rw [List.rdropWhile_concat_neg _ _ _ (by simp [hhid]), if_pos hhid,
                and_iff_right hlong]
              by_cases hfit : (join (cs ++ [c])).length ≥ outLen
              · rw [if_pos hfit]
                exact iff_of_false nofun fun h => absurd hfit (Nat.not_le.2 h.1)
              · rw [if_neg hfit, and_iff_right (Nat.not_le.1 hfit), Option.some.injEq]
            · rw [List.rdropWhile_concat_pos _ _ _ (by simp [hhid]), if_neg hhid]
              exact ih fun d hd => hcs d (by simp [hd])
        · next h => cases hslash.symm.trans h
      · have hshorter := (join_prefix_join (List.rdropWhile_prefix (fun c => !isHid c)
          (cs ++ [c]))).length_le
        rw [walk, if_neg hlong]
        exact iff_of_false nofun fun h => hlong (h.1.trans_le hshorter)

/-- What the loop finds is the longest of what is named like a HID device and
longer than the root. -/
theorem walk_eq_some (hn : 0 < n) {out : List UInt8} :
    walk isHid n outLen resolved.text = some out ↔
      ∃ P, Longest (fun P => Named isHid resolved P ∧ n < P.text.length) P ∧
        P.text.length < outLen ∧ P.text = out := by
  have hroot : ∀ {P : AbsPath}, P.components = [] → ¬n < P.text.length := fun hP h => by
    rw [text_of_nil hP, List.length_singleton] at h
    omega
  have hfound : walk isHid n outLen resolved.text = some out ↔
      n < (nearest isHid resolved).text.length ∧
        (nearest isHid resolved).text.length < outLen ∧
        (nearest isHid resolved).text = out := by
    by_cases hresolved : resolved.components = []
    · have hnil : (nearest isHid resolved).components = [] :=
        List.prefix_nil.1 (hresolved ▸ le_def.1 nearest_le)
      rw [walk, if_neg (hroot hresolved)]
      exact iff_of_false nofun fun h => hroot hnil h.1
    · rw [text_of_ne_nil hresolved, walk_join fun c hc => (resolved.sound c hc).2.1]
      change n < (join (nearest isHid resolved).components).length ∧
        (join (nearest isHid resolved).components).length < outLen ∧
        join (nearest isHid resolved).components = out ↔ _
      by_cases hnil : (nearest isHid resolved).components = []
      · rw [hnil, join_nil]
        exact iff_of_false (fun h => absurd h.1 (Nat.not_lt_zero n)) fun h => hroot hnil h.1
      · rw [text_of_ne_nil hnil]
  rw [hfound]
  constructor
  · exact fun ⟨hlong, hfit, heq⟩ => ⟨_, (longest_iff hn).2 ⟨rfl, hlong⟩, hfit, heq⟩
  · rintro ⟨P, hP, hfit, heq⟩
    obtain ⟨rfl, hlong⟩ := (longest_iff hn).1 hP
    exact ⟨hlong, hfit, heq⟩

/-! ## The search -/

/-- The link to the root is the shorter one, so that the check of its length
never fails. -/
theorem devicesLink_lt (sysfsRoot : CString) (rdev : DevT) :
    (devicesLink sysfsRoot).strlen < (charLink sysfsRoot rdev).strlen := by
  simp only [devicesLink, charLink, CString.strlen, CString.append, CString.lit,
    List.length_append]
  have hdevices : (ascii "/devices").length = 8 := by decide
  have hchar : (ascii "/dev/char/").length = 10 := by decide
  omega

variable {realpath : CString → Option AbsPath} {sysfsRoot : CString} {rdev : DevT}

/-- Behind the links there is a look at how the text begins, and the loop. -/
theorem hidParentForDevnum_eq (hfit : (charLink sysfsRoot rdev).strlen < pathMax)
    (hresolved : realpath (charLink sysfsRoot rdev) = some resolved)
    (hroot : realpath (devicesLink sysfsRoot) = some devicesRoot) :
    hidParentForDevnum isHid realpath sysfsRoot rdev outLen =
      if devicesRoot.text <+: resolved.text then
        walk isHid devicesRoot.text.length outLen resolved.text
      else none := by
  have hfit' := (devicesLink_lt sysfsRoot rdev).trans hfit
  have hcompare := strncmp_eq_zero resolved.zero_not_mem_text
    devicesRoot.zero_not_mem_text
  rw [hidParentForDevnum, if_neg (Nat.not_le.2 hfit), hresolved, Option.bind_eq_bind,
    Option.bind_some, if_neg (Nat.not_le.2 hfit'), hroot, Option.bind_some]
  by_cases hbegins : devicesRoot.text <+: resolved.text
  · rw [if_pos hbegins, if_neg (not_not.2 (hcompare.2 hbegins))]
  · rw [if_neg hbegins, if_pos fun h => hbegins (hcompare.1 h)]

/-- `P` is the resolved path or one of its ancestors, strictly below the root,
and named like a HID device. -/
def HidDevice (isHid : List UInt8 → Bool) (devicesRoot resolved P : AbsPath) : Prop :=
  Named isHid resolved P ∧ devicesRoot < P

/-- On one way up the order and the lengths agree. -/
theorem hidDevice_eq (h : devicesRoot ≤ resolved) : HidDevice isHid devicesRoot resolved =
    fun P => Named isHid resolved P ∧ devicesRoot.text.length < P.text.length := by
  funext P
  exact propext (and_congr_right fun hP => lt_iff_length_text h hP.1)

/-- Nothing is below a root that is not on the way up. -/
theorem le_of_hidDevice (h : HidDevice isHid devicesRoot resolved P) : devicesRoot ≤ resolved :=
  h.2.le.trans h.1.1

/-- **What is found is the nearest enclosing HID device below the root, unless
the way up leads past the root.**  The resolved path can be outside of the root
and begin like it; then nothing must be found, and nothing is exactly if no
ancestor that is longer than the root is named like a HID device, or the longest
does not fit. -/
theorem hidParentForDevnum_nearest (hfit : (charLink sysfsRoot rdev).strlen < pathMax)
    (hresolved : realpath (charLink sysfsRoot rdev) = some resolved)
    (hroot : realpath (devicesLink sysfsRoot) = some devicesRoot) :
    (∀ out, hidParentForDevnum isHid realpath sysfsRoot rdev outLen = some out ↔
      ∃ P, Longest (HidDevice isHid devicesRoot resolved) P ∧ P.text.length < outLen ∧
        P.text = out) ↔
    (devicesRoot.text <+: resolved.text → ¬devicesRoot ≤ resolved →
      ∀ P, Longest (fun P => Named isHid resolved P ∧ devicesRoot.text.length < P.text.length) P →
        outLen ≤ P.text.length) := by
  have hpos := length_text_pos devicesRoot
  rw [hidParentForDevnum_eq hfit hresolved hroot]
  by_cases hbelow : devicesRoot ≤ resolved
  · rw [if_pos (text_prefix_text hbelow), hidDevice_eq hbelow]
    exact iff_of_true (fun out => walk_eq_some hpos) fun _ hnot => absurd hbelow hnot
  · have hnone : ∀ {P}, ¬Longest (HidDevice isHid devicesRoot resolved) P := fun hP =>
      hbelow (le_of_hidDevice hP.1)
    by_cases hbegins : devicesRoot.text <+: resolved.text
    · rw [if_pos hbegins]
      constructor
      · intro hclaim _ _ P hP
        by_contra hlt
        obtain ⟨_, hQ, -⟩ :=
          (hclaim P.text).1 ((walk_eq_some hpos).2 ⟨P, hP, Nat.not_le.1 hlt, rfl⟩)
        exact hnone hQ
      · intro hlong out
        refine iff_of_false (fun hfound => ?_) fun ⟨_, hP, _⟩ => hnone hP
        obtain ⟨P, hP, hlt, -⟩ := (walk_eq_some hpos).1 hfound
        exact absurd hlt (Nat.not_lt.2 (hlong hbegins hbelow P hP))
    · rw [if_neg hbegins]
      exact iff_of_true (fun out => iff_of_false nofun fun ⟨_, hP, _⟩ => hnone hP)
        fun h => absurd h hbegins

/-! ### A device and its neighbour -/

/-- `/sys/devices`. -/
def sysDevices : AbsPath where
  components := [ascii "sys", ascii "devices"]
  sound := by decide

/-- A HID device in `/sys/devices`. -/
def gamepad : AbsPath where
  components := [ascii "sys", ascii "devices", ascii "platform", ascii "usb",
    ascii "0003:054C:09CC.0021"]
  sound := by decide

/-- The event node of its touchpad. -/
def touchpadNode : AbsPath where
  components := gamepad.components ++ [ascii "input", ascii "input15", ascii "event14"]
  sound := by decide

/-- A HID device next to `/sys/devices`. -/
def stranger : AbsPath where
  components := [ascii "sys", ascii "devices2", ascii "0003:054C:09CC.0021"]
  sound := by decide

/-- A sysfs with one node. -/
def sysfs (node : AbsPath) (link : CString) : Option AbsPath :=
  if link.bytes = ascii "/sys/dev/char/13:78" then some node
  else if link.bytes = ascii "/sys/devices" then some sysDevices
  else none

/-- The touchpad belongs to the gamepad. -/
theorem hidParentForDevnum_nearest_gamepad :
    hidParentForDevnum isHidDeviceDirname (sysfs touchpadNode) (.lit "/sys") ⟨13, 78⟩ pathMax =
      some (ascii "/sys/devices/platform/usb/0003:054C:09CC.0021") := by
  have hfit : (charLink (.lit "/sys") ⟨13, 78⟩).strlen < pathMax := by decide
  have hresolved : sysfs touchpadNode (charLink (.lit "/sys") ⟨13, 78⟩) = some touchpadNode := by
    decide
  have hroot : sysfs touchpadNode (devicesLink (.lit "/sys")) = some sysDevices := by decide
  have hbelow : sysDevices ≤ touchpadNode := by decide
  refine ((hidParentForDevnum_nearest hfit hresolved hroot).2 ?_ _).2 ⟨gamepad, ?_, ?_, ?_⟩
  · exact fun _ hnot => absurd hbelow hnot
  · rw [hidDevice_eq hbelow]
    exact (longest_iff (by decide)).2 ⟨by decide, by decide⟩
  · decide
  · decide

/-- What is found next to the root is not below it. -/
theorem hidParentForDevnum_finds_stranger :
    ¬∀ out, hidParentForDevnum isHidDeviceDirname (sysfs stranger) (.lit "/sys") ⟨13, 78⟩
        pathMax = some out ↔
      ∃ P, Longest (HidDevice isHidDeviceDirname sysDevices stranger) P ∧
        P.text.length < pathMax ∧ P.text = out := by
  intro hclaim
  have hfit : (charLink (.lit "/sys") ⟨13, 78⟩).strlen < pathMax := by decide
  have hresolved : sysfs stranger (charLink (.lit "/sys") ⟨13, 78⟩) = some stranger := by decide
  have hroot : sysfs stranger (devicesLink (.lit "/sys")) = some sysDevices := by decide
  have hfound : hidParentForDevnum isHidDeviceDirname (sysfs stranger) (.lit "/sys") ⟨13, 78⟩
      pathMax = some stranger.text := by
    rw [hidParentForDevnum_eq hfit hresolved hroot, if_pos (by decide)]
    refine (walk_eq_some (by decide)).2 ⟨stranger, ?_, by decide, rfl⟩
    exact (longest_iff (by decide)).2 ⟨by decide, by decide⟩
  obtain ⟨_, hP, -⟩ := (hclaim _).1 hfound
  exact absurd (le_of_hidDevice hP.1) (by decide)

end CommonsC.GamepadTouchpad
