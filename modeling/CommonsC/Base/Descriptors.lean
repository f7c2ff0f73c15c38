import Mathlib.Data.List.Perm.Basic
import Mathlib.Data.List.Nodup

/-!
# CommonsC.Base.Descriptors

The descriptors of a process, open on devices that one of them can grab.

A table has a slot for each descriptor, and `open` takes the lowest one that is
free.  A grab keeps all other descriptors from the events of a device; it fails
while another one has it, and ends with the descriptor.  That a device is grabbed
once is part of the table.

`Held` says which part of a table is held by some owner, as a list of what its
descriptors are.  The rules `Held.open`, `Held.ioctl` and `Held.close` are what
the operations do to that list; the rest of the table stays as it was.
-/

namespace Descriptors

variable {D : Type*} [DecidableEq D]

/-- What a descriptor is open on, and whether it has grabbed it. -/
structure Entry (D : Type*) where
  device : D
  grabbed : Bool
  deriving DecidableEq

/-- What a slot holds. -/
def lookup (slots : List (Option (Entry D))) (fd : ℕ) : Option (Entry D) := slots[fd]?.join

/-- The descriptors of a process; a device is grabbed by one of them at most. -/
structure Table (D : Type*) where
  slots : List (Option (Entry D))
  exclusive : ∀ fd e fd' e', lookup slots fd = some e → lookup slots fd' = some e' →
    e.grabbed = true → e'.grabbed = true → e.device = e'.device → fd = fd'

namespace Table

/-- What a descriptor is. -/
def get (t : Table D) (fd : ℕ) : Option (Entry D) := lookup t.slots fd

/-- Put something into a slot. -/
def put (slots : List (Option (Entry D))) (fd : ℕ) (e : Option (Entry D)) :
    List (Option (Entry D)) :=
  (slots ++ List.replicate (fd + 1 - slots.length) none).set fd e

omit [DecidableEq D] in
theorem lookup_put (slots : List (Option (Entry D))) (fd : ℕ) (e : Option (Entry D)) (fd' : ℕ) :
    lookup (put slots fd e) fd' = if fd' = fd then e else lookup slots fd' := by
  rw [lookup, put, List.getElem?_set]
  by_cases h : fd' = fd
  · subst h
    have hlen : fd' < (slots ++ List.replicate (fd' + 1 - slots.length) none).length := by
      rw [List.length_append, List.length_replicate]
      omega
    rw [if_pos rfl, if_pos hlen, if_pos rfl, Option.join_some]
  · rw [if_neg (Ne.symm h), if_neg h, lookup, List.getElem?_append]
    split
    · rfl
    · next hlen =>
        rw [List.getElem?_eq_none (Nat.not_lt.1 hlen), List.getElem?_replicate]
        split <;> rfl

/-- The table with another entry, which takes no device that is grabbed. -/
def update (t : Table D) (fd : ℕ) (e : Option (Entry D))
    (h : ∀ e' ∈ e, e'.grabbed = true → ∀ fd' e'', fd' ≠ fd → t.get fd' = some e'' →
      e''.grabbed = true → e''.device ≠ e'.device) : Table D where
  slots := put t.slots fd e
  exclusive a x b y ha hb hx hy hdevice := by
    rw [lookup_put] at ha hb
    by_cases ha' : a = fd <;> by_cases hb' : b = fd
    · rw [ha', hb']
    · rw [if_pos ha'] at ha
      rw [if_neg hb'] at hb
      exact absurd hdevice.symm (h x ha hx b y hb' hb hy)
    · rw [if_neg ha'] at ha
      rw [if_pos hb'] at hb
      exact absurd hdevice (h y hb hy a x ha' ha hx)
    · rw [if_neg ha'] at ha
      rw [if_neg hb'] at hb
      exact t.exclusive a x b y ha hb hx hy hdevice

omit [DecidableEq D] in
@[simp] theorem get_update (t : Table D) (fd : ℕ) (e : Option (Entry D)) (h) (fd' : ℕ) :
    (t.update fd e h).get fd' = if fd' = fd then e else t.get fd' := lookup_put t.slots fd e fd'

/-- The lowest descriptor that is free. -/
def lowest (t : Table D) : ℕ := t.slots.findIdx (·.isNone)

omit [DecidableEq D] in
theorem get_lowest (t : Table D) : t.get t.lowest = none := by
  rw [get, lookup, lowest]
  by_cases h : t.slots.findIdx (·.isNone) < t.slots.length
  · have hfound : t.slots[t.slots.findIdx (·.isNone)].isNone = true := List.findIdx_getElem
    rw [List.getElem?_eq_getElem h, Option.join_some]
    exact Option.isNone_iff_eq_none.1 hfound
  · rw [List.getElem?_eq_none (Nat.not_lt.1 h), Option.join_none]

/-- `open`: the descriptor, and the table. -/
def openDevice (t : Table D) (device : D) : ℕ × Table D :=
  (t.lowest, t.update t.lowest (some ⟨device, false⟩) (by rintro _ ⟨⟩ ⟨⟩))

/-- `close`. -/
def close (t : Table D) (fd : ℕ) : Table D := t.update fd none nofun

/-- A descriptor has grabbed the device. -/
def grabs (t : Table D) (device : D) : Bool :=
  t.slots.any fun e => e.any fun e => e.grabbed && decide (e.device = device)

theorem not_grabs {t : Table D} {device : D} (h : t.grabs device = false) {fd : ℕ} {e : Entry D}
    (he : t.get fd = some e) (hgrabbed : e.grabbed = true) : e.device ≠ device := by
  intro hdevice
  have hmem : some e ∈ t.slots := List.mem_of_getElem? (Option.join_eq_some_iff.1 he)
  have hany := List.any_eq_false.1 h (some e) hmem
  simp [hgrabbed, hdevice] at hany

/-- `ioctl` with `EVIOCGRAB`, where `ok` tells whether the device permits it:
whether it succeeds, and the table. -/
def ioctl (t : Table D) (fd : ℕ) (on ok : Bool) : Bool × Table D :=
  match hfd : t.get fd with
  | none => (false, t)
  | some e =>
      if hon : on = true then
        if hfree : ok = true ∧ t.grabs e.device = false then
          (true, t.update fd (some { e with grabbed := true }) (by
            rintro _ ⟨⟩ - fd' e'' - he'' hgrabbed
            exact not_grabs hfree.2 he'' hgrabbed))
        else (false, t)
      else if ok = true ∧ e.grabbed = true then
        (true, t.update fd (some { e with grabbed := false }) (by rintro _ ⟨⟩ ⟨⟩))
      else (false, t)

omit [DecidableEq D] in
@[simp] theorem get_openDevice (t : Table D) (device : D) (fd : ℕ) :
    (t.openDevice device).2.get fd =
      if fd = (t.openDevice device).1 then some ⟨device, false⟩ else t.get fd := by
  unfold openDevice
  rw [get_update]

omit [DecidableEq D] in
@[simp] theorem get_close (t : Table D) (fd fd' : ℕ) :
    (t.close fd).get fd' = if fd' = fd then none else t.get fd' := by
  simp [close]

/-- What a grab does to the table, if it succeeds. -/
theorem get_ioctl {t : Table D} {fd : ℕ} {e : Entry D} (h : t.get fd = some e) (on ok : Bool)
    (fd' : ℕ) : (t.ioctl fd on ok).2.get fd' =
      if fd' = fd ∧ (t.ioctl fd on ok).1 = true then some { e with grabbed := on }
      else t.get fd' := by
  unfold ioctl
  split
  · next hfd => cases hfd.symm.trans h
  · next e' hfd =>
      obtain rfl : e' = e := Option.some.inj (hfd.symm.trans h)
      split
      · next hon =>
          subst hon
          split <;> simp
      · next hon =>
          obtain rfl : on = false := by simpa using hon
          split <;> simp

end Table

/-! ## Holding descriptors -/

/-- The descriptors of `held` are held, and the others are as `others` tells. -/
structure Held (t : Table D) (others : ℕ → Option (Entry D)) (held : List (ℕ × Entry D)) :
    Prop where
  nodup : (held.map Prod.fst).Nodup
  mine : ∀ x ∈ held, t.get x.1 = some x.2
  rest : ∀ fd, fd ∉ held.map Prod.fst → t.get fd = others fd
  free : ∀ x ∈ held, others x.1 = none

namespace Held

variable {t : Table D} {others : ℕ → Option (Entry D)} {held held' : List (ℕ × Entry D)}
  {fd : ℕ} {e : Entry D}

omit [DecidableEq D]

/-- Who holds nothing finds the table as the others have it. -/
theorem nil_iff : Held t others [] ↔ t.get = others := by
  constructor
  · exact fun h => funext fun fd => h.rest fd List.not_mem_nil
  · rintro rfl
    exact ⟨List.nodup_nil, nofun, fun _ _ => rfl, nofun⟩

/-- The order does not matter. -/
theorem perm (h : Held t others held) (hperm : held.Perm held') : Held t others held' where
  nodup := (hperm.map Prod.fst).nodup h.nodup
  mine x hx := h.mine x (hperm.mem_iff.2 hx)
  rest fd hfd := h.rest fd fun hmem => hfd ((hperm.map Prod.fst).mem_iff.1 hmem)
  free x hx := h.free x (hperm.mem_iff.2 hx)

/-- **`open`** gives a descriptor that was not held. -/
theorem openDevice (h : Held t others held) (device : D) :
    Held (t.openDevice device).2 others (((t.openDevice device).1, ⟨device, false⟩) :: held) := by
  have hfree : t.get (t.openDevice device).1 = none := t.get_lowest
  have hfresh : (t.openDevice device).1 ∉ held.map Prod.fst := by
    intro hmem
    obtain ⟨x, hx, heq⟩ := List.mem_map.1 hmem
    cases (h.mine x hx).symm.trans (heq ▸ hfree)
  constructor
  · exact List.nodup_cons.2 ⟨hfresh, h.nodup⟩
  · intro x hx
    rw [Table.get_openDevice]
    rcases List.mem_cons.1 hx with rfl | hx
    · exact if_pos rfl
    · have hne : x.1 ≠ (t.openDevice device).1 := fun heq =>
        hfresh (heq ▸ List.mem_map_of_mem hx)
      rw [if_neg hne]
      exact h.mine x hx
  · intro fd hfd
    obtain ⟨hne, hfd⟩ := not_or.1 (mt List.mem_cons.2 hfd)
    rw [Table.get_openDevice, if_neg hne]
    exact h.rest fd hfd
  · intro x hx
    rcases List.mem_cons.1 hx with rfl | hx
    · exact (h.rest _ hfresh).symm.trans hfree
    · exact h.free x hx

/-- **`close`** gives a descriptor back. -/
theorem close (h : Held t others ((fd, e) :: held)) : Held (t.close fd) others held := by
  obtain ⟨hfresh, hnodup⟩ := List.nodup_cons.1 h.nodup
  refine ⟨hnodup, fun x hx => ?_, fun fd' hfd' => ?_,
    fun x hx => h.free x (List.mem_cons_of_mem _ hx)⟩
  · have hne : x.1 ≠ fd := by
      rintro rfl
      exact hfresh (show x.1 ∈ held.map Prod.fst from List.mem_map_of_mem hx)
    rw [Table.get_close, if_neg hne]
    exact h.mine x (List.mem_cons_of_mem _ hx)
  · rw [Table.get_close]
    split
    · next heq => exact (heq ▸ h.free _ List.mem_cons_self).symm
    · next hne => exact h.rest fd' fun hmem => (List.mem_cons.1 hmem).elim hne hfd'

end Held

/-- **`ioctl`** changes the grab of a descriptor, or nothing. -/
theorem Held.ioctl {t : Table D} {others : ℕ → Option (Entry D)} {held : List (ℕ × Entry D)}
    {fd : ℕ} {e : Entry D} (h : Held t others ((fd, e) :: held)) (on ok : Bool) :
    Held (t.ioctl fd on ok).2 others
      ((fd, if (t.ioctl fd on ok).1 then { e with grabbed := on } else e) :: held) := by
  have hget := Table.get_ioctl (h.mine _ List.mem_cons_self) on ok
  have hfresh := (List.nodup_cons.1 h.nodup).1
  refine ⟨h.nodup, fun x hx => ?_, fun fd' hfd' => ?_, fun x hx => ?_⟩
  · rw [hget]
    rcases List.mem_cons.1 hx with rfl | hmem
    · by_cases hdone : (t.ioctl fd on ok).1 = true
      · rw [if_pos ⟨rfl, hdone⟩, if_pos hdone]
      · rw [if_neg fun hboth => hdone hboth.2, if_neg hdone]
        exact h.mine _ List.mem_cons_self
    · have hne : x.1 ≠ fd := by
        rintro rfl
        exact hfresh (show x.1 ∈ held.map Prod.fst from List.mem_map_of_mem hmem)
      rw [if_neg fun hboth => hne hboth.1]
      exact h.mine x (List.mem_cons_of_mem _ hmem)
  · obtain ⟨hne, -⟩ := not_or.1 (mt List.mem_cons.2 hfd')
    rw [hget, if_neg fun hboth => hne hboth.1]
    exact h.rest fd' hfd'
  · rcases List.mem_cons.1 hx with rfl | hx
    · exact h.free (fd, e) List.mem_cons_self
    · exact h.free x (List.mem_cons_of_mem _ hx)

/-- A first grab tells whether it succeeds. -/
theorem Held.grab {t : Table D} {others : ℕ → Option (Entry D)} {held : List (ℕ × Entry D)}
    {fd : ℕ} {device : D} (h : Held t others ((fd, ⟨device, false⟩) :: held)) (ok : Bool) :
    Held (t.ioctl fd true ok).2 others
      ((fd, ⟨device, (t.ioctl fd true ok).1⟩) :: held) := by
  have hioctl := h.ioctl true ok
  split at hioctl
  · next hdone => rwa [hdone]
  · next hdone => rwa [Bool.eq_false_iff.2 hdone]

end Descriptors
