import CommonsC.Base.Transition
import CommonsC.EvMouse.Devices
import CommonsC.GamepadTouchpad.Grab
import Mathlib.Data.List.Forall2

/-!
# CommonsC.Device.Process

A process with mice of `device/evmouse` and touchpads of `device/gamepad-touchpad`.

The process opens, grabs and closes as many of them as it likes, in any order,
while the rest of it has descriptors of its own.  `descriptors_of_reachable`
tells whose descriptors are whose at any time.
-/

namespace CommonsC.Device

open Descriptors TransitionSystem EvMouse.Devices GamepadTouchpad

/-! ## The process -/

/-- What the process has open: an `evmouse_t` or a `gamepad_touchpad_t`. -/
inductive Handle where
  | mouse (fds : List DevFd)
  | touchpad (fds : List ℕ)

/-- The descriptors of a handle. -/
def Handle.fds : Handle → List ℕ
  | .mouse fds => fds.map DevFd.fd
  | .touchpad fds => fds

/-- The descriptors, the handles, in whatever order, and what the rest of the
process has open. -/
structure Process where
  table : Table (List UInt8)
  handles : List Handle
  others : ℕ → Option (Entry (List UInt8))

/-- The descriptors of all handles. -/
def Process.fds (p : Process) : List ℕ := p.handles.flatMap Handle.fds

/-- The calls of the process, and what the rest of it does. -/
inductive Call where
  | openMouse
  | setGrab
  | close
  | grab
  | release
  | others

/-- What a call does. -/
inductive Step : Process → Call → Process → Prop
  | openMouse {p : Process} {dir : Option (List (CString × Answer))} {fds : List DevFd}
      {t : Table (List UInt8)}
      (h : evmouseOpenDefault (some mouseFilterAny) dir p.table = (some fds, t)) :
      Step p .openMouse { p with table := t, handles := .mouse fds :: p.handles }
  | openNone {p : Process} {dir : Option (List (CString × Answer))} {t : Table (List UInt8)}
      (h : evmouseOpenDefault (some mouseFilterAny) dir p.table = (none, t)) :
      Step p .openMouse { p with table := t }
  | setGrab {p : Process} {rest : List Handle} {permits : ℕ → Bool} {grab : Bool}
      {fds fds' : List DevFd} {t : Table (List UInt8)}
      (hmouse : p.handles.Perm (.mouse fds :: rest))
      (h : evmouseSetGrab permits grab fds p.table = (fds', t)) :
      Step p .setGrab { p with table := t, handles := .mouse fds' :: rest }
  | close {p : Process} {rest : List Handle} {permits : ℕ → Bool} {fds : List DevFd}
      (hmouse : p.handles.Perm (.mouse fds :: rest)) :
      Step p .close { p with table := evmouseClose permits fds p.table, handles := rest }
  | grab {p : Process} {env : Surroundings} {controller : Option (Option CString)}
      {fds : List ℕ} {t : Table (List UInt8)}
      (h : gamepadTouchpadGrab env controller p.table = some (some fds, t)) :
      Step p .grab { p with table := t, handles := .touchpad fds :: p.handles }
  | grabNone {p : Process} {env : Surroundings} {controller : Option (Option CString)}
      {t : Table (List UInt8)} (h : gamepadTouchpadGrab env controller p.table = some (none, t)) :
      Step p .grab { p with table := t }
  | release {p : Process} {rest : List Handle} {permits : ℕ → Bool} {fds : List ℕ}
      (htouchpad : p.handles.Perm (.touchpad fds :: rest)) :
      Step p .release { p with
        table := gamepadTouchpadRelease permits (some fds) p.table, handles := rest }
  | others {p : Process} {t : Table (List UInt8)} {others : ℕ → Option (Entry (List UInt8))}
      (hfds : ∀ fd ∈ p.fds, t.get fd = p.table.get fd ∧ others fd = none)
      (hothers : ∀ fd, fd ∉ p.fds → t.get fd = others fd) :
      Step p .others { p with table := t, others }

/-- The process, from when it has no handle. -/
def process : TransitionSystem Process Call where
  init p := p.handles = [] ∧ p.others = p.table.get
  step := Step

/-! ## The descriptors -/

/-- What a handle holds: the flags of a mouse tell what is grabbed, and a touchpad
is grabbed. -/
def Handle.Holds : Handle → List (ℕ × Entry (List UInt8)) → Prop
  | .mouse fds, xs => List.Forall₂ DevFd.Is fds xs ∧ 0 < fds.length ∧ fds.length ≤ evmouseMaxFds
  | .touchpad fds, xs => fds = xs.map Prod.fst ∧ (∀ x ∈ xs, x.2.grabbed = true) ∧
      0 < fds.length ∧ fds.length ≤ maxGrabbed

theorem Handle.Holds.fds_eq {handle : Handle} {xs : List (ℕ × Entry (List UInt8))}
    (h : handle.Holds xs) : handle.fds = xs.map Prod.fst := by
  cases handle with
  | mouse fds =>
      obtain ⟨hfds, -⟩ := h
      induction hfds with
      | nil => rfl
      | cons hdev _ ih => exact congrArg₂ List.cons hdev.1 ih
  | touchpad fds => exact h.1

theorem exists_is {fds : List DevFd} {xs : List (ℕ × Entry (List UInt8))}
    (h : List.Forall₂ DevFd.Is fds xs) {dev : DevFd} (hdev : dev ∈ fds) :
    ∃ x ∈ xs, dev.fd = x.1 ∧ dev.grab = x.2.grabbed := by
  induction h with
  | nil => cases hdev
  | cons hfirst _ ih =>
      rcases List.mem_cons.1 hdev with rfl | hdev
      · exact ⟨_, List.mem_cons_self, hfirst⟩
      · obtain ⟨x, hx, his⟩ := ih hdev
        exact ⟨x, List.mem_cons_of_mem _ hx, his⟩

/-- Each handle holds descriptors, and together they hold them apart. -/
def Holding (p : Process) : Prop :=
  ∃ xss, List.Forall₂ Handle.Holds p.handles xss ∧ Held p.table p.others xss.flatten

theorem fds_eq {handles : List Handle} {xss : List (List (ℕ × Entry (List UInt8)))}
    (h : List.Forall₂ Handle.Holds handles xss) :
    handles.flatMap Handle.fds = xss.flatten.map Prod.fst := by
  induction h with
  | nil => rfl
  | cons hholds _ ih =>
      rw [List.flatMap_cons, hholds.fds_eq, ih, List.flatten_cons, List.map_append]

/-- A handle that is picked holds its descriptors apart from the others. -/
theorem Holding.pick {p : Process} (hp : Holding p) {handle : Handle} {rest : List Handle}
    (h : p.handles.Perm (handle :: rest)) :
    ∃ xs xss, handle.Holds xs ∧ List.Forall₂ Handle.Holds rest xss ∧
      Held p.table p.others (xs ++ xss.flatten) := by
  obtain ⟨xss, hhandles, hheld⟩ := hp
  obtain ⟨xss', hpicked, hperm⟩ := List.perm_comp_forall₂ h.symm hhandles
  cases hpicked with
  | cons hholds hrest => exact ⟨_, _, hholds, hrest, hheld.perm hperm.flatten.symm⟩

/-- **Every call keeps the descriptors apart.** -/
theorem holding_step {p p' : Process} {call : Call} (hp : Holding p) (h : Step p call p') :
    Holding p' := by
  cases h with
  | @openMouse dir fds t h =>
      obtain ⟨xss, hhandles, hheld⟩ := hp
      obtain ⟨xs, hopened, hfds⟩ := evmouseOpenDefault_held (some mouseFilterAny) dir hheld
      rw [h] at hopened hfds
      exact ⟨xs :: xss, .cons ⟨hfds.1, hfds.2.1, hfds.2.2.1⟩ hhandles, hopened⟩
  | @openNone dir t h =>
      obtain ⟨xss, hhandles, hheld⟩ := hp
      obtain ⟨xs, hopened, hfds⟩ := evmouseOpenDefault_held (some mouseFilterAny) dir hheld
      rw [h] at hopened hfds
      obtain rfl : xs = [] := hfds
      exact ⟨xss, hhandles, hopened⟩
  | @setGrab rest permits grab fds fds' t hmouse h =>
      obtain ⟨xs, xss, ⟨hfds, hpos, hlen⟩, hrest, hheld⟩ := hp.pick hmouse
      obtain ⟨xs', hset, hfds', hsame⟩ := evmouseSetGrab_held permits grab hfds hheld
      rw [h] at hset hfds'
      have hlength : fds'.length = fds.length := by
        rw [hfds'.length_eq, hfds.length_eq, hsame.length_eq]
      exact ⟨xs' :: xss, .cons ⟨hfds', hlength ▸ hpos, hlength ▸ hlen⟩ hrest, hset⟩
  | close hmouse =>
      obtain ⟨xs, xss, ⟨hfds, -⟩, hrest, hheld⟩ := hp.pick hmouse
      exact ⟨xss, hrest, evmouseClose_held _ hfds hheld⟩
  | @grab env controller fds t h =>
      obtain ⟨xss, hhandles, hheld⟩ := hp
      obtain ⟨result, t', ys, hrun, hgrabbed, hall, hresult⟩ :=
        gamepadTouchpadGrab_held env controller hheld
      rw [h] at hrun
      cases hrun
      exact ⟨ys :: xss, .cons ⟨hresult.1, hall, hresult.2.1, hresult.2.2.1⟩ hhandles, hgrabbed⟩
  | @grabNone env controller t h =>
      obtain ⟨xss, hhandles, hheld⟩ := hp
      obtain ⟨result, t', ys, hrun, hgrabbed, -, hresult⟩ :=
        gamepadTouchpadGrab_held env controller hheld
      rw [h] at hrun
      cases hrun
      obtain rfl : ys = [] := hresult
      exact ⟨xss, hhandles, hgrabbed⟩
  | release htouchpad =>
      obtain ⟨xs, xss, ⟨rfl, -⟩, hrest, hheld⟩ := hp.pick htouchpad
      exact ⟨xss, hrest, releaseFds_held _ xs hheld⟩
  | others hfds hothers =>
      obtain ⟨xss, hhandles, hheld⟩ := hp
      have hmine : ∀ x ∈ xss.flatten, x.1 ∈ p.fds := fun x hx => by
        rw [Process.fds, fds_eq hhandles]
        exact List.mem_map_of_mem hx
      refine ⟨xss, hhandles, hheld.nodup, fun x hx => ?_, fun fd hfd => ?_, fun x hx => ?_⟩
      · exact (hfds x.1 (hmine x hx)).1.trans (hheld.mine x hx)
      · exact hothers fd (by rwa [Process.fds, fds_eq hhandles])
      · exact (hfds x.1 (hmine x hx)).2

theorem holding_of_reachable {p : Process} (h : process.Reachable p) : Holding p :=
  h.invariant (fun _ ⟨hhandles, hothers⟩ =>
    ⟨[], by rw [hhandles]; exact .nil, Held.nil_iff.2 hothers.symm⟩)
    fun _ _ _ _ hp hstep => holding_step hp hstep

/-- **Whose descriptors are whose**, at any time: those of the handles are apart
and open, the flags of a mouse are its grabs, a touchpad is grabbed, and no
device is grabbed twice.  All other descriptors are as the rest of the process
has them, so that nothing is left of handles that were closed. -/
theorem descriptors_of_reachable {p : Process} (h : process.Reachable p) :
    p.fds.Nodup ∧
    (∀ fds, .mouse fds ∈ p.handles → 0 < fds.length ∧ fds.length ≤ evmouseMaxFds ∧
      ∀ dev ∈ fds, ∃ path, p.table.get dev.fd = some ⟨path, dev.grab⟩) ∧
    (∀ fds, .touchpad fds ∈ p.handles → 0 < fds.length ∧ fds.length ≤ maxGrabbed ∧
      ∀ fd ∈ fds, ∃ path, p.table.get fd = some ⟨path, true⟩) ∧
    (∀ fd fd' path, p.table.get fd = some ⟨path, true⟩ → p.table.get fd' = some ⟨path, true⟩ →
      fd = fd') ∧
    ∀ fd, fd ∉ p.fds → p.table.get fd = p.others fd := by
  obtain ⟨xss, hhandles, hheld⟩ := holding_of_reachable h
  have hfds : p.fds = xss.flatten.map Prod.fst := fds_eq hhandles
  have hholds : ∀ handle ∈ p.handles, ∃ xs, handle.Holds xs ∧
      ∀ x ∈ xs, p.table.get x.1 = some x.2 := by
    intro handle hhandle
    obtain ⟨before, after, hsplit⟩ := List.append_of_mem hhandle
    obtain ⟨xs, _, hholds, -, hpicked⟩ :=
      (holding_of_reachable h).pick (hsplit ▸ List.perm_middle)
    exact ⟨xs, hholds, fun x hx => hpicked.mine x (List.mem_append_left _ hx)⟩
  refine ⟨hfds ▸ hheld.nodup, fun fds hmouse => ?_, fun fds htouchpad => ?_,
    fun fd fd' path hfd hfd' => p.table.exclusive fd _ fd' _ hfd hfd' rfl rfl rfl,
    fun fd hfd => hheld.rest fd (hfds ▸ hfd)⟩
  · obtain ⟨xs, ⟨hdevs, hpos, hlen⟩, hxs⟩ := hholds _ hmouse
    refine ⟨hpos, hlen, fun dev hdev => ?_⟩
    obtain ⟨⟨_, path, _⟩, hx, rfl, hflag⟩ := exists_is hdevs hdev
    exact ⟨path, by rw [hxs _ hx, hflag]⟩
  · obtain ⟨xs, ⟨rfl, hgrabbed, hpos, hlen⟩, hxs⟩ := hholds _ htouchpad
    refine ⟨hpos, hlen, fun fd hfd => ?_⟩
    obtain ⟨⟨_, path, grabbed⟩, hx, rfl⟩ := List.mem_map.1 hfd
    obtain rfl : grabbed = true := hgrabbed _ hx
    exact ⟨path, hxs _ hx⟩

/-- The kernel's answer about a mouse. -/
def mouseAnswer : Answer where
  opens := true
  id := some ⟨3, 0, 0, 0⟩
  keycaps := some (.replicate keyBytes 255)
  relcaps := some (.replicate relBytes 255)
  grabs := true

/-- A process opens a mouse, grabs it and closes it. -/
theorem descriptors_of_reachable_one : ∃ p q, process.Reachable p ∧ process.Reachable q ∧
    p.handles = [.mouse [⟨0, true⟩]] ∧ (∃ path, p.table.get 0 = some ⟨path, true⟩) ∧
    q.handles = [] ∧ q.table.get 0 = none := by
  have hp : process.Reachable ⟨noDescriptors, [], fun _ => none⟩ := .init ⟨rfl, rfl⟩
  have hp := hp.step (.openMouse (rfl : evmouseOpenDefault (some mouseFilterAny)
    (some [(.lit "event4", mouseAnswer)]) _ = _))
  have hp := hp.step (.setGrab (.refl _) (rfl : evmouseSetGrab (fun _ => true) true _ _ = _))
  have hq := hp.step (@Step.close _ _ (fun _ => true) _ (.refl _))
  refine ⟨_, _, hp, hq, rfl, ?_, rfl, ?_⟩
  · exact ((descriptors_of_reachable hp).2.1 _ (List.mem_singleton.2 rfl)).2.2 _
      (List.mem_singleton.2 rfl)
  · exact (descriptors_of_reachable hq).2.2.2.2 0 List.not_mem_nil

end CommonsC.Device
