import CommonsC.Base.CString
import CommonsC.Base.Descriptors
import CommonsC.Base.Strings

/-!
# CommonsC.EvMouse.Devices

The devices of `device/evmouse/evmouse.c`: how they are found, grabbed and
closed.

What the kernel answers for a directory entry is a parameter (`Answer`), and so
is whether it permits a grab; its descriptors are a table (`Descriptors`).
`evmouseOpenDefault_held`, `evmouseSetGrab_held` and `evmouseClose_held` are what
the three functions do to the descriptors that are held: the flags of the mouse
are always the grabs of its descriptors.
-/

namespace CommonsC.EvMouse.Devices

open CString Descriptors

/-! ## Capabilities -/

/-- `has_bit`, for a bit that the array has. -/
def hasBit {n : Nat} (bits : Vector UInt8 n) (bit : Nat) (h : bit / 8 < n) : Bool :=
  bits[bit / 8] &&& 1 <<< (bit % 8).toUInt8 != 0

/-- `(KEY_MAX / 8) + 1`. -/
def keyBytes : Nat := 0x2ff / 8 + 1

/-- `(REL_MAX / 8) + 1`. -/
def relBytes : Nat := 0x0f / 8 + 1

/-- `struct input_id`. -/
structure InputId where
  bustype : UInt16
  vendor : UInt16
  product : UInt16
  version : UInt16

/-- `mouse_info_t`. -/
structure MouseInfo where
  id : InputId

/-- What the kernel answers for a directory entry: whether `open` succeeds, what
`ioctl` tells about the device, `none` where it fails, and whether it permits
`EVIOCGRAB`. -/
structure Answer where
  opens : Bool
  id : Option InputId
  keycaps : Option (Vector UInt8 keyBytes)
  relcaps : Option (Vector UInt8 relBytes)
  grabs : Bool

/-- `is_mouse`: what it tells about a mouse.  The bits are those of `BTN_MOUSE`,
`REL_X` and `REL_Y`. -/
def isMouse (answer : Answer) : Option MouseInfo := do
  let id ← answer.id
  let keycaps ← answer.keycaps
  let relcaps ← answer.relcaps
  if hasBit keycaps 0x110 (by decide) && hasBit relcaps 0 (by decide) &&
      hasBit relcaps 1 (by decide) then some ⟨id⟩
  else none

/-! ## The functions -/

/-- `dev_fd_t`. -/
structure DevFd where
  fd : Nat
  grab : Bool
  deriving DecidableEq

/-- `EVMOUSE_MAX_FDS`. -/
def evmouseMaxFds : Nat := 8

/-- `mouse_filter_fn`: whether the mouse is taken, and whether it is grabbed. -/
abbrev MouseFilterFn : Type := MouseInfo → Bool × Bool

/-- `mouse_filter_any`. -/
def mouseFilterAny : MouseFilterFn := fun _ => (true, false)

/-- What the filter says of the device: whether it is grabbed, or `none` if it is
not taken.  Without a filter the memory has `SDL_FALSE`. -/
def wanted (filter : Option MouseFilterFn) (answer : Answer) : Option Bool := do
  let info ← isMouse answer
  match filter with
  | none => some false
  | some filter => if (filter info).1 then some (filter info).2 else none

/-- `dev_path`, which has room for 20 bytes of the name. -/
def devPath (name : CString) : List UInt8 := ascii "/dev/input/" ++ name.bytes.take 20

/-- The loop of `mouse_fds_find`, with the descriptors so far. -/
def mouseFdsFind (filter : Option MouseFilterFn) :
    List (CString × Answer) → Table (List UInt8) → List DevFd → List DevFd × Table (List UInt8)
  | [], t, fds => (fds, t)
  | (name, answer) :: entries, t, fds =>
      if fds.length < evmouseMaxFds then
        if strncmp name.bytes (ascii "event") 5 ≠ 0 then mouseFdsFind filter entries t fds
        else if answer.opens = false then mouseFdsFind filter entries t fds
        else
          let (fd, t) := t.openDevice (devPath name)
          match wanted filter answer with
          | none => mouseFdsFind filter entries (t.close fd) fds
          | some true =>
              let (grab, t) := t.ioctl fd true answer.grabs
              mouseFdsFind filter entries t (fds ++ [⟨fd, grab⟩])
          | some false => mouseFdsFind filter entries t (fds ++ [⟨fd, false⟩])
      else (fds, t)

/-- `evmouse_open_default`, for the entries of `/dev/input`, `none` where it
cannot be read: the descriptors of the mouse, `none` for `NULL`. -/
def evmouseOpenDefault (filter : Option MouseFilterFn) (dir : Option (List (CString × Answer)))
    (t : Table (List UInt8)) : Option (List DevFd) × Table (List UInt8) :=
  let (fds, t) := mouseFdsFind filter (dir.getD []) t []
  (if fds.length = 0 then none else some fds, t)

/-- `evmouse_set_grab`, where the kernel permits what `permits` tells. -/
def evmouseSetGrab (permits : Nat → Bool) (grab : Bool) :
    List DevFd → Table (List UInt8) → List DevFd × Table (List UInt8)
  | [], t => ([], t)
  | dev :: fds, t =>
      if dev.grab ≠ grab then
        let (done, t) := t.ioctl dev.fd grab (permits dev.fd)
        let (fds, t) := evmouseSetGrab permits grab fds t
        ((if done then { dev with grab } else dev) :: fds, t)
      else
        let (fds, t) := evmouseSetGrab permits grab fds t
        (dev :: fds, t)

/-- `evmouse_close`. -/
def evmouseClose (permits : Nat → Bool) : List DevFd → Table (List UInt8) → Table (List UInt8)
  | [], t => t
  | dev :: fds, t =>
      let t := if dev.grab then (t.ioctl dev.fd false (permits dev.fd)).2 else t
      evmouseClose permits fds (t.close dev.fd)

/-! ## What is held -/

/-- The descriptor, as the table has it: its flag tells whether it has grabbed. -/
def DevFd.Is (dev : DevFd) (x : ℕ × Entry (List UInt8)) : Prop :=
  dev.fd = x.1 ∧ dev.grab = x.2.grabbed

/-- The path is that of an event node among the entries that is a mouse, and
that the filter takes. -/
def MouseAmong (filter : Option MouseFilterFn) (entries : List (CString × Answer))
    (path : List UInt8) : Prop :=
  ∃ entry ∈ entries, strncmp entry.1.bytes (ascii "event") 5 = 0 ∧
    wanted filter entry.2 ≠ none ∧ devPath entry.1 = path

variable {others : ℕ → Option (Entry (List UInt8))} {held xs : List (ℕ × Entry (List UInt8))}
  {fds : List DevFd} {t : Table (List UInt8)} {filter : Option MouseFilterFn}
  {all : List (CString × Answer)}

/-- The descriptors that are found after `fds` are those of mice, and held. -/
def Finds (filter : Option MouseFilterFn) (all : List (CString × Answer))
    (others : ℕ → Option (Entry (List UInt8))) (held : List (ℕ × Entry (List UInt8)))
    (fds : List DevFd) (found : List DevFd × Table (List UInt8)) : Prop :=
  ∃ new xs, found.1 = fds ++ new ∧ List.Forall₂ DevFd.Is new xs ∧
    Held found.2 others (xs ++ held) ∧ ∀ x ∈ xs, MouseAmong filter all x.2.device

theorem Finds.nil (h : Held t others held) : Finds filter all others held fds (fds, t) :=
  ⟨[], [], (List.append_nil fds).symm, .nil, h, nofun⟩

theorem Finds.cons {found : List DevFd × Table (List UInt8)} {dev : DevFd} {path : List UInt8}
    (hmouse : MouseAmong filter all path)
    (h : Finds filter all others ((dev.fd, ⟨path, dev.grab⟩) :: held) (fds ++ [dev]) found) :
    Finds filter all others held fds found := by
  obtain ⟨new, xs, hnew, hfds, hheld, hmice⟩ := h
  refine ⟨dev :: new, (dev.fd, ⟨path, dev.grab⟩) :: xs, ?_, .cons ⟨rfl, rfl⟩ hfds,
    hheld.perm List.perm_middle, List.forall_mem_cons.2 ⟨hmouse, hmice⟩⟩
  rw [hnew, List.append_assoc, List.singleton_append]

/-- The loop holds what it finds, and closes the rest. -/
theorem mouseFdsFind_held {entries : List (CString × Answer)} (hall : entries ⊆ all)
    (h : Held t others held) :
    Finds filter all others held fds (mouseFdsFind filter entries t fds) := by
  induction entries generalizing t fds held with
  | nil => exact .nil h
  | cons entry entries ih =>
      obtain ⟨name, answer⟩ := entry
      have hrest : entries ⊆ all := fun e he => hall (List.mem_cons_of_mem _ he)
      rw [mouseFdsFind]
      by_cases hroom : fds.length < evmouseMaxFds
      case neg =>
        rw [if_neg hroom]
        exact .nil h
      rw [if_pos hroom]
      by_cases hname : strncmp name.bytes (ascii "event") 5 = 0
      case neg =>
        rw [if_pos hname]
        exact ih hrest h
      rw [if_neg (not_not.2 hname)]
      by_cases hopens : answer.opens = false
      · rw [if_pos hopens]
        exact ih hrest h
      rw [if_neg hopens]
      have hopen := h.openDevice (devPath name)
      cases hwanted : wanted filter answer with
      | none => exact ih hrest hopen.close
      | some grab =>
          have hmouse : MouseAmong filter all (devPath name) :=
            ⟨(name, answer), hall List.mem_cons_self, hname, by rw [hwanted]; nofun, rfl⟩
          cases grab with
          | false => exact .cons hmouse (ih hrest hopen)
          | true => exact .cons hmouse (ih hrest (hopen.grab answer.grabs))

/-- The loop stays within the array. -/
theorem length_mouseFdsFind (entries : List (CString × Answer))
    (hlen : fds.length ≤ evmouseMaxFds) :
    (mouseFdsFind filter entries t fds).1.length ≤ evmouseMaxFds := by
  induction entries generalizing t fds with
  | nil => exact hlen
  | cons entry entries ih =>
      rw [mouseFdsFind]
      split
      · next hroom =>
          have hmore : ∀ dev : DevFd, (fds ++ [dev]).length ≤ evmouseMaxFds := fun dev => by
            rw [List.length_append]
            exact hroom
          split
          · exact ih hlen
          · split
            · exact ih hlen
            · dsimp only
              split
              · exact ih hlen
              · exact ih (hmore _)
              · exact ih (hmore _)
      · exact hlen

/-- **Opening** holds the mice that are found, and nothing if there are none. -/
theorem evmouseOpenDefault_held (filter : Option MouseFilterFn)
    (dir : Option (List (CString × Answer))) (h : Held t others held) :
    ∃ xs, Held (evmouseOpenDefault filter dir t).2 others (xs ++ held) ∧
      match (evmouseOpenDefault filter dir t).1 with
      | none => xs = []
      | some fds => List.Forall₂ DevFd.Is fds xs ∧ 0 < fds.length ∧ fds.length ≤ evmouseMaxFds ∧
          ∀ x ∈ xs, MouseAmong filter (dir.getD []) x.2.device := by
  obtain ⟨new, xs, hnew, hfds, hheld, hmice⟩ : Finds filter (dir.getD []) others held []
    (mouseFdsFind filter (dir.getD []) t []) := mouseFdsFind_held (List.Subset.refl _) h
  rw [List.nil_append] at hnew
  rw [← hnew] at hfds
  refine ⟨xs, hheld, ?_⟩
  rw [evmouseOpenDefault]
  by_cases hnone : (mouseFdsFind filter (dir.getD []) t []).1.length = 0
  · simp only [if_pos hnone]
    rw [List.length_eq_zero_iff.1 hnone] at hfds
    cases hfds
    rfl
  · simp only [if_neg hnone]
    exact ⟨hfds, Nat.pos_of_ne_zero hnone, length_mouseFdsFind _ (Nat.zero_le _), hmice⟩

/-- **Setting the grab** keeps the descriptors, with their flags. -/
theorem evmouseSetGrab_held (permits : Nat → Bool) (grab : Bool)
    (hfds : List.Forall₂ DevFd.Is fds xs) (h : Held t others (xs ++ held)) :
    ∃ xs', Held (evmouseSetGrab permits grab fds t).2 others (xs' ++ held) ∧
      List.Forall₂ DevFd.Is (evmouseSetGrab permits grab fds t).1 xs' ∧
      List.Forall₂ (fun x x' => x.1 = x'.1 ∧ x.2.device = x'.2.device) xs xs' := by
  induction hfds generalizing t held with
  | nil => exact ⟨[], h, .nil, .nil⟩
  | @cons dev x fds xs hdev hfds ih =>
      -- The rest goes on with this descriptor held.
      have hrest : ∀ {t' : Table (List UInt8)} {dev' : DevFd} {x' : ℕ × Entry (List UInt8)},
          dev'.Is x' → x.1 = x'.1 ∧ x.2.device = x'.2.device →
          Held t' others (x' :: (xs ++ held)) →
          ∃ xs', Held (evmouseSetGrab permits grab fds t').2 others (xs' ++ held) ∧
            List.Forall₂ DevFd.Is (dev' :: (evmouseSetGrab permits grab fds t').1) xs' ∧
            List.Forall₂ (fun x x' => x.1 = x'.1 ∧ x.2.device = x'.2.device) (x :: xs) xs' := by
        intro t' dev' x' hdev' hsame hheld
        obtain ⟨xs', hheld', hfds', hsame'⟩ :=
          ih (hheld.perm List.perm_middle.symm)
        exact ⟨x' :: xs', hheld'.perm List.perm_middle, .cons hdev' hfds', .cons hsame hsame'⟩
      obtain ⟨fd, e⟩ := x
      obtain ⟨hfd, hflag⟩ := hdev
      rw [evmouseSetGrab]
      split
      · have hioctl := h.ioctl grab (permits dev.fd)
        rw [hfd]
        rw [hfd] at hioctl
        refine hrest ?_ ?_ hioctl
        · split <;> exact ⟨by first | rfl | exact hfd, by first | rfl | exact hflag⟩
        · split <;> exact ⟨rfl, rfl⟩
      · exact hrest ⟨hfd, hflag⟩ ⟨rfl, rfl⟩ h

/-- **Closing** gives all descriptors back. -/
theorem evmouseClose_held (permits : Nat → Bool) (hfds : List.Forall₂ DevFd.Is fds xs)
    (h : Held t others (xs ++ held)) : Held (evmouseClose permits fds t) others held := by
  induction hfds generalizing t with
  | nil => exact h
  | @cons dev x fds xs hdev hfds ih =>
      obtain ⟨fd, e⟩ := x
      obtain ⟨hfd, -⟩ := hdev
      rw [evmouseClose]
      refine ih ?_
      rw [hfd]
      split
      · exact (h.ioctl false (permits fd)).close
      · exact h.close

end CommonsC.EvMouse.Devices
