import CommonsC.Base.Descriptors
import CommonsC.GamepadTouchpad.Grabbable
import CommonsC.GamepadTouchpad.HidParent

/-!
# CommonsC.GamepadTouchpad.Grab

The touchpad of a controller, from its grab to its release, in
`device/gamepad-touchpad/gamepad_touchpad.c`.

SDL, the file system and what the kernel permits are parameters
(`Surroundings`), and the descriptors are a table (`Descriptors`).
`gamepadTouchpadGrab_held` and `gamepadTouchpadRelease_held` are what the two
functions do to the descriptors that are held, and `gamepadTouchpadGrab_grabbable`
tells whose devices are grabbed.
-/

namespace CommonsC.GamepadTouchpad

open AbsPath CString Descriptors

/-- `MAX_GRABBED`. -/
def maxGrabbed : Nat := 8

/-- What the code finds around it. -/
structure Surroundings where
  /-- The `st_rdev` of a file. -/
  stat : CString → Option DevT
  realpath : CString → Option AbsPath
  fs : FileSystem
  /-- `SDL_calloc` succeeds. -/
  callocs : Bool
  /-- `open` succeeds. -/
  opens : CString → Bool
  /-- The device permits `EVIOCGRAB`. -/
  grabs : CString → Bool

/-! ## The functions -/

/-- `<DEV_INPUT_ROOT>/<name>`. -/
def nodePath (name : CString) : CString := entryPath (.lit "/dev/input") name

/-- `touchpad->fds[touchpad->count++] = fd`: `none` is a write behind the array. -/
def addFd (fds : List Nat) (fd : Nat) : Option (List Nat) :=
  if fds.length < maxGrabbed then some (fds ++ [fd]) else none

/-- The loop of `gamepad_touchpad_grab`, with the descriptors so far. -/
def grabNodes (env : Surroundings) :
    List CString → Table (List UInt8) → List Nat → Option (List Nat × Table (List UInt8))
  | [], t, fds => some (fds, t)
  | name :: names, t, fds =>
      if (nodePath name).strlen ≥ pathMax then grabNodes env names t fds
      else if env.opens (nodePath name) = false then grabNodes env names t fds
      else
        let (fd, t) := t.openDevice (nodePath name).bytes
        let (done, t) := t.ioctl fd true (env.grabs (nodePath name))
        if done then do
          let fds ← addFd fds fd
          grabNodes env names t fds
        else grabNodes env names (t.close fd) fds

/-- The path that is found for the HID device, in `hid_path`. -/
def hidPath (env : Surroundings) (controller : Option (Option CString)) : Option CString := do
  let devPath ← controller.join
  let rdev ← env.stat devPath
  let out ← hidParentForDevnum isHidDeviceDirname env.realpath (.lit "/sys") rdev pathMax
  some ⟨upToNul out, not_mem_upToNul out⟩

/-- `gamepad_touchpad_grab`, for a controller and its path, each of which can be
`NULL`: the descriptors of the touchpad, `none` for `NULL`. -/
def gamepadTouchpadGrab (env : Surroundings) (controller : Option (Option CString))
    (t : Table (List UInt8)) : Option (Option (List Nat) × Table (List UInt8)) :=
  match hidPath env controller with
  | none => some (none, t)
  | some hidPath => do
      let names ← collectGrabbableNodes env.fs maxGrabbed hidPath maxGrabbed
      if names = [] then some (none, t)
      else if env.callocs = false then some (none, t)
      else do
        let (fds, t) ← grabNodes env names t []
        some (if fds.length = 0 then none else some fds, t)

/-- The loop of `gamepad_touchpad_release`, where the kernel permits what
`permits` tells. -/
def releaseFds (permits : Nat → Bool) : List Nat → Table (List UInt8) → Table (List UInt8)
  | [], t => t
  | fd :: fds, t => releaseFds permits fds ((t.ioctl fd false (permits fd)).2.close fd)

/-- `gamepad_touchpad_release`. -/
def gamepadTouchpadRelease (permits : Nat → Bool) (touchpad : Option (List Nat))
    (t : Table (List UInt8)) : Table (List UInt8) :=
  touchpad.elim t fun fds => releaseFds permits fds t

/-! ## The names -/

section

variable {rows : Nat} {maxNames : Int} (hrows : maxNames ≤ rows)

include hrows

theorem collectEvents_total (entries : List CString) {names : List CString}
    (hlen : names.length ≤ maxNames.toNat) :
    ∃ names', collectEvents rows maxNames entries names = some names' ∧
      names'.length ≤ maxNames.toNat := by
  induction entries generalizing names with
  | nil => exact ⟨names, rfl, hlen⟩
  | cons ent entries ih =>
      rw [collectEvents]
      split
      · next hroom =>
          split
          · exact ih hlen
          · next hname =>
              rw [addName, if_pos ⟨by omega, Nat.not_le.1 (not_or.1 hname).2⟩, Option.bind_eq_bind,
                Option.bind_some]
              exact ih (by rw [List.length_append, List.length_singleton]; omega)
      · exact ⟨names, rfl, hlen⟩

theorem collectInputs_total (fs : FileSystem) (path : CString) (entries : List CString)
    {names : List CString} (hlen : names.length ≤ maxNames.toNat) :
    ∃ names', collectInputs fs path rows maxNames entries names = some names' ∧
      names'.length ≤ maxNames.toNat := by
  induction entries generalizing names with
  | nil => exact ⟨names, rfl, hlen⟩
  | cons ent entries ih =>
      rw [collectInputs]
      dsimp only
      split
      · split
        · exact ih hlen
        · split
          · exact ih hlen
          · split
            · exact ih hlen
            · split
              · exact ih hlen
              · next events _ =>
                  obtain ⟨names', hevents, hlen'⟩ := collectEvents_total hrows events hlen
                  rw [hevents, Option.bind_eq_bind, Option.bind_some]
                  exact ih hlen'
      · exact ⟨names, rfl, hlen⟩

/-- The array of names holds what is collected, in every tree. -/
theorem collectGrabbableNodes_total (fs : FileSystem) (hidPath : CString) :
    ∃ names, collectGrabbableNodes fs rows hidPath maxNames = some names ∧
      names.length ≤ maxNames.toNat := by
  rw [collectGrabbableNodes]
  split
  · exact ⟨[], rfl, Nat.zero_le _⟩
  · split
    · exact ⟨[], rfl, Nat.zero_le _⟩
    · exact collectInputs_total hrows fs _ _ (Nat.zero_le _)

end

/-! ## What is held -/

section

variable {others : ℕ → Option (Entry (List UInt8))} {held : List (ℕ × Entry (List UInt8))}
  {t : Table (List UInt8)}

/-- The loop holds the nodes that it grabs, in order, and closes the rest. -/
theorem grabNodes_held (env : Surroundings) {names : List CString} (fds : List Nat)
    (h : Held t others held) (hroom : fds.length + names.length ≤ maxGrabbed) :
    ∃ ys t', grabNodes env names t fds = some (fds ++ ys.map Prod.fst, t') ∧
      Held t' others (ys ++ held) ∧ (∀ y ∈ ys, y.2.grabbed = true) ∧
      (ys.map fun y => y.2.device).Sublist (names.map fun name => (nodePath name).bytes) := by
  induction names generalizing t fds held with
  | nil => exact ⟨[], t, by rw [grabNodes, List.map_nil, List.append_nil], h, nofun, .slnil⟩
  | cons name names ih =>
      rw [List.length_cons] at hroom
      have hskip : ∀ {t'}, Held t' others held → ∃ ys t'', grabNodes env names t' fds =
            some (fds ++ ys.map Prod.fst, t'') ∧
          Held t'' others (ys ++ held) ∧ (∀ y ∈ ys, y.2.grabbed = true) ∧
          (ys.map fun y => y.2.device).Sublist
            ((name :: names).map fun name => (nodePath name).bytes) := by
        intro t' ht'
        obtain ⟨ys, t'', hrun, hheld, hgrabbed, hsub⟩ := ih fds ht' (by omega)
        exact ⟨ys, t'', hrun, hheld, hgrabbed, hsub.cons _⟩
      rw [grabNodes]
      split
      · exact hskip h
      · split
        · exact hskip h
        · have hgrab := (h.openDevice (nodePath name).bytes).grab (env.grabs (nodePath name))
          obtain ⟨fd, t₁, hopen⟩ : ∃ fd t₁, t.openDevice (nodePath name).bytes = (fd, t₁) :=
            ⟨_, _, rfl⟩
          rw [hopen] at hgrab ⊢
          obtain ⟨done, t₂, hioctl⟩ : ∃ done t₂,
              t₁.ioctl fd true (env.grabs (nodePath name)) = (done, t₂) := ⟨_, _, rfl⟩
          dsimp only at hgrab ⊢
          rw [hioctl] at hgrab ⊢
          dsimp only at hgrab ⊢
          cases done with
          | false => exact hskip hgrab.close
          | true =>
              obtain ⟨ys, t', hrun, hheld, hgrabbed, hsub⟩ := ih (fds ++ [fd]) hgrab
                (by rw [List.length_append, List.length_singleton]; omega)
              refine ⟨(fd, ⟨(nodePath name).bytes, true⟩) :: ys, t', ?_,
                hheld.perm List.perm_middle, ?_, hsub.cons_cons _⟩
              · rw [if_pos rfl, addFd, if_pos (by omega), Option.bind_eq_bind, Option.bind_some,
                  hrun, List.append_assoc]
                rfl
              · exact List.forall_mem_cons.2 ⟨rfl, hgrabbed⟩

/-- **Grabbing** holds grabbed nodes of the HID device, as many as the touchpad
has, and nothing if there is no touchpad. -/
theorem gamepadTouchpadGrab_held (env : Surroundings) (controller : Option (Option CString))
    (h : Held t others held) :
    ∃ result t' ys, gamepadTouchpadGrab env controller t = some (result, t') ∧
      Held t' others (ys ++ held) ∧ (∀ y ∈ ys, y.2.grabbed = true) ∧
      match result with
      | none => ys = []
      | some fds => fds = ys.map Prod.fst ∧ 0 < fds.length ∧ fds.length ≤ maxGrabbed ∧
          ∃ path names, hidPath env controller = some path ∧
            collectGrabbableNodes env.fs maxGrabbed path maxGrabbed = some names ∧
            (ys.map fun y => y.2.device).Sublist
              (names.map fun name => (nodePath name).bytes) := by
  rw [gamepadTouchpadGrab]
  cases hpath : hidPath env controller with
  | none => exact ⟨none, t, [], rfl, h, nofun, rfl⟩
  | some path =>
      obtain ⟨names, hnames, hlen⟩ :=
        collectGrabbableNodes_total (le_refl (maxGrabbed : Int)) env.fs path
      simp only [hnames, Option.bind_eq_bind, Option.bind_some]
      split
      · exact ⟨none, t, [], rfl, h, nofun, rfl⟩
      · split
        · exact ⟨none, t, [], rfl, h, nofun, rfl⟩
        · obtain ⟨ys, t', hrun, hheld, hgrabbed, hsub⟩ := grabNodes_held env [] h
            (by simpa using hlen : [].length + names.length ≤ maxGrabbed)
          rw [hrun, Option.bind_some, List.nil_append]
          refine ⟨_, t', ys, rfl, hheld, hgrabbed, ?_⟩
          have hcount : (ys.map Prod.fst).length ≤ maxGrabbed := by
            have hle := hsub.length_le
            rw [List.length_map] at hle ⊢
            rw [List.length_map] at hle
            have hnat : (maxGrabbed : Int).toNat = maxGrabbed := rfl
            omega
          by_cases hnone : (ys.map Prod.fst).length = 0
          · rw [if_pos hnone]
            exact List.map_eq_nil_iff.1 (List.length_eq_zero_iff.1 hnone)
          · rw [if_neg hnone]
            exact ⟨rfl, Nat.pos_of_ne_zero hnone, hcount, path, names, rfl, hnames, hsub⟩

theorem releaseFds_held (permits : Nat → Bool) (ys : List (ℕ × Entry (List UInt8)))
    (h : Held t others (ys ++ held)) :
    Held (releaseFds permits (ys.map Prod.fst) t) others held := by
  induction ys generalizing t with
  | nil => exact h
  | cons y ys ih =>
      obtain ⟨fd, e⟩ := y
      rw [List.map_cons, releaseFds]
      exact ih (h.ioctl false (permits fd)).close

/-- **What is grabbed** is the touchpad: the nodes that may be grabbed, of the HID
device of the controller, at most eight and in order.  No other descriptor
changes, and `gamepad_touchpad_release` leaves the descriptors as they were. -/
theorem gamepadTouchpadGrab_grabbable (env : Surroundings) (controller : Option (Option CString))
    (t : Table (List UInt8))
    (hfit : ∀ path ∈ hidPath env controller, PathsFit env.fs path) :
    ∃ result t', gamepadTouchpadGrab env controller t = some (result, t') ∧
      (∀ fds ∈ result, 0 < fds.length ∧ fds.length ≤ maxGrabbed ∧
        ∃ path ∈ hidPath env controller, ∃ names : List CString,
          names.Sublist ((grabbableNodes env.fs path).take maxGrabbed) ∧
          List.Forall₂ (fun fd name => t.get fd = none ∧
            t'.get fd = some ⟨(nodePath name).bytes, true⟩) fds names) ∧
      (∀ fd, fd ∉ result.getD [] → t'.get fd = t.get fd) ∧
      ∀ permits, (gamepadTouchpadRelease permits result t').get = t.get := by
  obtain ⟨result, t', ys, hrun, hheld, hgrabbed, hresult⟩ :=
    gamepadTouchpadGrab_held env controller (Held.nil_iff.2 (rfl : t.get = t.get))
  refine ⟨result, t', hrun, ?_⟩
  cases result with
  | none =>
      obtain rfl : ys = [] := hresult
      exact ⟨nofun, fun fd _ => hheld.rest fd List.not_mem_nil,
        fun permits => Held.nil_iff.1 hheld⟩
  | some fds =>
      obtain ⟨rfl, hpos, hlen, path, names, hpath, hnames, hsub⟩ := hresult
      refine ⟨?_, ?_, fun permits => Held.nil_iff.1 (releaseFds_held permits ys hheld)⟩
      · rintro _ ⟨⟩
        refine ⟨hpos, hlen, path, hpath, ?_⟩
        obtain ⟨names', hcollect, rfl, -⟩ :=
          collectGrabbableNodes_eq env.fs (le_refl (maxGrabbed : Int)) (hfit path hpath)
        rw [hnames] at hcollect
        cases hcollect
        obtain ⟨names, hnames', hdevices⟩ := List.sublist_map_iff.1 hsub
        refine ⟨names, hnames', List.forall₂_map_left_iff.2 ?_⟩
        have hpairs : List.Forall₂ (fun y name => y.2.device = (nodePath name).bytes) ys names := by
          rw [← List.forall₂_eq_eq_eq, List.forall₂_map_left_iff, List.forall₂_map_right_iff]
            at hdevices
          exact hdevices
        have hys : ∀ y ∈ ys, t.get y.1 = none ∧ t'.get y.1 = some y.2 ∧ y.2.grabbed = true :=
          fun y hy => ⟨hheld.free y (List.mem_append_left _ hy),
            hheld.mine y (List.mem_append_left _ hy), hgrabbed y hy⟩
        refine ((List.forall₂_and_left ys names).2 ⟨hys, hpairs⟩).imp ?_
        rintro ⟨fd, device, grabbed⟩ name ⟨⟨hfree, hget, rfl⟩, rfl⟩
        exact ⟨hfree, hget⟩
      · intro fd hfd
        rw [List.append_nil] at hheld
        exact hheld.rest fd hfd

/-- A controller whose HID device has a joystick and a touchpad. -/
def dualShockEnv : Surroundings where
  stat path := if path.bytes = ascii "/dev/input/event14" then some ⟨13, 78⟩ else none
  realpath := sysfs touchpadNode
  fs.opendir path :=
    if path.bytes = gamepad.text ++ ascii "/input" then some [.lit "input31", .lit "input32"]
    else if path.bytes = gamepad.text ++ ascii "/input/input31" then
      some [.lit "event31", .lit "js31"]
    else if path.bytes = gamepad.text ++ ascii "/input/input32" then some [.lit "event32"]
    else none
  fs.fopen _ := none
  callocs := true
  opens _ := true
  grabs _ := true

/-- The path of the gamepad. -/
def gamepadPath : CString := ⟨gamepad.text, gamepad.zero_not_mem_text⟩

theorem hidPath_dualShock :
    hidPath dualShockEnv (some (some (.lit "/dev/input/event14"))) = some gamepadPath := by
  have hwalk : hidParentForDevnum isHidDeviceDirname dualShockEnv.realpath (.lit "/sys") ⟨13, 78⟩
      pathMax = some gamepad.text := by
    have hfit : (charLink (.lit "/sys") ⟨13, 78⟩).strlen < pathMax := by decide
    have hresolved : dualShockEnv.realpath (charLink (.lit "/sys") ⟨13, 78⟩) =
        some touchpadNode := by decide
    have hroot : dualShockEnv.realpath (devicesLink (.lit "/sys")) = some sysDevices := by decide
    rw [hidParentForDevnum_eq hfit hresolved hroot, if_pos (by decide)]
    exact (walk_eq_some (by decide)).2
      ⟨gamepad, (longest_iff (by decide)).2 ⟨by decide, by decide⟩, by decide, rfl⟩
  have hstat : dualShockEnv.stat (.lit "/dev/input/event14") = some ⟨13, 78⟩ := rfl
  have hwhole : upToNul gamepad.text = gamepad.text :=
    upToNul_of_not_mem gamepad.zero_not_mem_text
  simp only [hidPath, Option.join_some, Option.bind_eq_bind, Option.bind_some, hstat, hwalk, hwhole]
  rfl

/-- No descriptor is open. -/
def noDescriptors : Table (List UInt8) := ⟨[], by rintro _ _ _ _ ⟨⟩⟩

/-- Its touchpad is grabbed, and released. -/
theorem gamepadTouchpadGrab_grabbable_dualShock : ∃ t',
    gamepadTouchpadGrab dualShockEnv (some (some (.lit "/dev/input/event14"))) noDescriptors =
      some (some [0], t') ∧
    (∃ path, t'.get 0 = some ⟨path, true⟩) ∧
    ∀ permits, (gamepadTouchpadRelease permits (some [0]) t').get = noDescriptors.get := by
  obtain ⟨result, t', hrun, hgrabbed, -, hrelease⟩ := gamepadTouchpadGrab_grabbable dualShockEnv
    (some (some (.lit "/dev/input/event14"))) noDescriptors (by
      rw [hidPath_dualShock]
      rintro _ ⟨⟩
      exact ⟨by decide +kernel, by decide +kernel⟩)
  have hresult : (gamepadTouchpadGrab dualShockEnv (some (some (.lit "/dev/input/event14")))
      noDescriptors).map Prod.fst = some (some [0]) := by
    rw [gamepadTouchpadGrab, hidPath_dualShock]
    decide +kernel
  rw [hrun] at hresult
  cases hresult
  obtain ⟨-, -, -, -, _, -, hnames⟩ := hgrabbed [0] rfl
  cases hnames with
  | cons h _ => exact ⟨t', hrun, ⟨_, h.2⟩, hrelease⟩

end

end CommonsC.GamepadTouchpad
