import CommonsC.ArrayList.Refine

/-!
# CommonsC.ArrayList.Failure

Array lists when memory runs out.

`ensure_capacity` returns nothing.  Where `realloc` gives no block, the list
stays as it was, and its caller goes on as if there were room: it moves items to
where the block has ended, and counts one more than the capacity.  `Grows` says
when a call does not come to this.  The state between two calls is `Sound`, and
a call keeps it exactly if it `Grows` what it has to.
-/

namespace CommonsC.ArrayList

/-! ## Calls and what is asked of them -/

/-- What is called, with what `realloc` returns if it is called. -/
inductive Op
  | add (insert_before : Int) (realloc : Option (Nat → UInt8))
  | remove (index : Int)
  | get (index : Int)

/-- The list after a call, and the place that is returned. -/
def Op.exec (list : ArrayList) : Op → Option (ArrayList × Option Nat)
  | .add insert_before realloc => arrayListAdd realloc list insert_before
  | .remove index => (arrayListRemove list index).map fun list => (list, none)
  | .get index => some (list, arrayListGet list index)

/-- The call has to grow the list, and `realloc` returns `NULL`. -/
def Op.GrowthFails (list : ArrayList) : Op → Prop
  | .add insert_before realloc =>
      insert_before ≤ list.size ∧ list.capacity < list.size + 1 ∧ realloc = none
  | .remove _ => False
  | .get _ => False

/-- A call leaves a list that is intact. -/
structure Survives (list : ArrayList) (op : Op) (list' : ArrayList) (slot : Option Nat) :
    Prop where
  size : 0 ≤ list'.size ∧ list'.size ≤ list'.capacity
  /-- Without memory nothing is returned and nothing changes. -/
  failed : op.GrowthFails list → slot = none ∧ list' = list
  /-- What is returned is a place inside the block. -/
  slot : ∀ p ∈ slot, p + list'.item_size ≤ list'.data.length

/-- Every call of a run leaves a list that is intact. -/
def Safe : ArrayList → List Op → Prop
  | _, [] => True
  | list, op :: ops =>
      ∃ list' slot, op.exec list = some (list', slot) ∧ Survives list op list' slot ∧
        Safe list' ops

/-- Where a list is full, `realloc` gives a block, twice the capacity is an
`int` and its bytes are a `size_t`. -/
def Grows (list : ArrayList) : Op → Prop
  | .add insert_before realloc =>
      insert_before ≤ list.size → list.size = list.capacity →
        realloc.isSome = true ∧ list.size < 2 ^ 30 ∧
          Allocatable list.item_size (max 1 (2 * list.size))
  | .remove _ => True
  | .get _ => True

/-- No call of a run fails to grow the list. -/
def Grown : ArrayList → List Op → Prop
  | _, [] => True
  | list, op :: ops =>
      Grows list op ∧ ∀ list' slot, op.exec list = some (list', slot) → Grown list' ops

/-! ## Lists that are intact -/

/-- `n` items in a block with room for `c`. -/
structure Sound (list : ArrayList) (n c : Nat) : Prop where
  size : list.size = n
  capacity : list.capacity = c
  size_le : n ≤ c
  capacity_lt : c < 2 ^ 31
  item_size_lt : list.item_size < 2 ^ 64
  allocatable : c * list.item_size < 2 ^ 64
  length_data : list.data.length = c * list.item_size

theorem itemAt_exact {list : ArrayList} {i : Nat} (hi : i < 2 ^ 64)
    (hfits : i * list.item_size < 2 ^ 64) : list.itemAt i = i * list.item_size := by
  have hmod : ((i : Int) % 2 ^ 64).toNat = i := by omega
  rw [itemAt, itemsOffset, hmod, Nat.mod_eq_of_lt hfits]

section

variable {list : ArrayList} {n c : Nat} (h : Sound list n c)
include h

theorem Sound.itemAt_eq {i : Nat} (hi : i ≤ c) : list.itemAt i = i * list.item_size := by
  have hc := h.capacity_lt
  exact itemAt_exact (by omega)
    ((Nat.mul_le_mul_right _ hi).trans_lt h.allocatable)

/-- Items are moved inside the block. -/
theorem Sound.memmove {p q m : Nat} (hp : p + m ≤ c) (hq : q + m ≤ c) :
    ∃ data, list.data.memmove (list.itemAt p) (list.itemAt q) (list.itemsOffset m) =
      some data ∧ data.length = list.data.length := by
  have hm : list.itemsOffset m = m * list.item_size := h.itemAt_eq (by omega)
  have hread : q * list.item_size + m * list.item_size ≤ list.data.length := by
    rw [h.length_data, ← Nat.add_mul]
    exact Nat.mul_le_mul_right _ hq
  have hwrite : p * list.item_size + m * list.item_size ≤ list.data.length := by
    rw [h.length_data, ← Nat.add_mul]
    exact Nat.mul_le_mul_right _ hp
  have hlen : ((list.data.drop (q * list.item_size)).take (m * list.item_size)).length =
      m * list.item_size := by
    rw [List.length_take, List.length_drop]
    omega
  rw [h.itemAt_eq (by omega), h.itemAt_eq (by omega), hm, Block.memmove, if_pos hread,
    Block.memcpy, hlen, if_pos hwrite]
  refine ⟨_, rfl, ?_⟩
  simp only [List.length_append, List.length_take, List.length_drop]
  omega

/-- Another size and other bytes in the same block. -/
theorem Sound.update {data : Block} {size : Int} {m : Nat}
    (hlength : data.length = list.data.length) (hsize : size = m) (hm : m ≤ c) :
    Sound { list with data, size } m c :=
  ⟨hsize, h.capacity, hm, h.capacity_lt, h.item_size_lt, h.allocatable,
    hlength.trans h.length_data⟩

/-- The place of an item is inside the block. -/
theorem Sound.place {i : Nat} (hi : i < c) :
    list.itemAt i + list.item_size ≤ list.data.length := by
  rw [h.itemAt_eq (by omega), h.length_data, ← Nat.succ_mul]
  exact Nat.mul_le_mul_right _ hi

end

/-! ## One call -/

/-- What `array_list_add` does after `ensure_capacity`. -/
def addTo (insert_before : Int) (list : ArrayList) : Option (ArrayList × Option Nat) :=
  if insert_before < 0 then
    some ({ list with size := list.size + 1 },
      some (ArrayList.itemAt { list with size := list.size + 1 } (list.size + 1 - 1)))
  else
    (list.data.memmove (list.itemAt (insert_before + 1)) (list.itemAt insert_before)
      (list.itemsOffset (list.size - insert_before))).bind fun data =>
        some ({ list with data, size := list.size + 1 },
          some (ArrayList.itemAt { list with data, size := list.size + 1 } insert_before))

theorem arrayListAdd_eq (realloc : Option (Nat → UInt8)) (list : ArrayList)
    (insert_before : Int) :
    arrayListAdd realloc list insert_before =
      if insert_before > list.size then some (list, none)
      else if list.size + 1 > intMax then none
      else (ensureCapacity realloc list (list.size + 1)).bind (addTo insert_before) := rfl

/-- A new item counts, and its place is where it belongs. -/
theorem addTo_cases {insert_before : Int} {list list' : ArrayList} {slot : Option Nat}
    (hadd : addTo insert_before list = some (list', slot)) :
    list'.size = list.size + 1 ∧ list'.capacity = list.capacity ∧
      list'.item_size = list.item_size := by
  rw [addTo] at hadd
  split at hadd
  · cases hadd
    exact ⟨rfl, rfl, rfl⟩
  · obtain ⟨data, -, heq⟩ := Option.bind_eq_some_iff.1 hadd
    cases heq
    exact ⟨rfl, rfl, rfl⟩

/-- Where there is room, a place inside the block is returned. -/
theorem Sound.addTo {list : ArrayList} {n c : Nat} (h : Sound list n c) (hroom : n < c)
    {insert_before : Int} (hin : insert_before ≤ n) :
    ∃ list' p, addTo insert_before list = some (list', some p) ∧ Sound list' (n + 1) c ∧
      p + list'.item_size ≤ list'.data.length := by
  have hsize := h.size
  rw [ArrayList.addTo]
  split
  · have hsound : Sound { list with size := list.size + 1 } (n + 1) c :=
      h.update rfl (by omega) hroom
    refine ⟨_, _, rfl, hsound, ?_⟩
    have hplace : list.size + 1 - 1 = (n : Int) := by omega
    rw [hplace]
    exact hsound.place hroom
  · next hpos =>
      obtain ⟨i, rfl⟩ := Int.eq_ofNat_of_zero_le (Int.not_lt.1 hpos)
      have hcount : list.size - i = ((n - i : Nat) : Int) := by omega
      obtain ⟨data, hmove, hlength⟩ :=
        h.memmove (p := i + 1) (q := i) (m := n - i) (by omega) (by omega)
      have hsound : Sound { list with data, size := list.size + 1 } (n + 1) c :=
        h.update hlength (by omega) hroom
      push_cast at hmove
      rw [hcount, hmove]
      exact ⟨_, _, rfl, hsound, hsound.place (by omega)⟩

/-- A full list is doubled. -/
theorem grow_full (n : Nat) :
    grow (n + 1) (startCapacity n) (startCapacity_pos n) =
      if max 1 (2 * (n : Int)) ≤ intMax then some (max 1 (2 * (n : Int))) else none := by
  by_cases hn : n = 0
  · subst hn
    rw [grow, if_neg (by decide)]
    rfl
  · have hstart : startCapacity n = n := if_pos (by omega)
    have hmax : max 1 (2 * (n : Int)) = n * 2 := by omega
    rw [grow, hmax]
    simp only [hstart]
    rw [if_pos (by omega)]
    split
    · rw [grow, if_neg (by omega)]
    · rfl

theorem length_realloc (fresh : Nat → UInt8) (mem : Block) (n : Nat) :
    (mem.realloc fresh n).length = n := by
  simp only [Block.realloc, List.length_append, List.length_take, List.length_map,
    List.length_range']
  omega

/-- What `ensure_capacity` does with a full list. -/
theorem Sound.ensureCapacity_full {list : ArrayList} {n : Nat} (h : Sound list n n)
    (realloc : Option (Nat → UInt8)) :
    ensureCapacity realloc list (list.size + 1) =
      if max 1 (2 * (n : Int)) ≤ intMax then
        match realloc with
        | none => some list
        | some fresh =>
            some { list with
              data := list.data.realloc fresh (list.itemsOffset (max 1 (2 * (n : Int))))
              capacity := max 1 (2 * (n : Int)) }
      else none := by
  have hfull : ¬list.capacity ≥ list.size + 1 := by
    rw [h.size, h.capacity]
    omega
  have hgrow := grow_full n
  rw [ensureCapacity, if_neg hfull]
  simp only [h.size, h.capacity, hgrow]
  split
  · cases realloc <;> rfl
  · rfl

/-- A full list that grows is intact. -/
theorem Sound.grown {list : ArrayList} {n : Nat} (h : Sound list n n) (hn : n < 2 ^ 30)
    (hfits : Allocatable list.item_size (max 1 (2 * n))) (fresh : Nat → UInt8) :
    ∃ grown, ensureCapacity (some fresh) list (list.size + 1) = some grown ∧
      Sound grown n (max 1 (2 * n)) := by
  have hmax : max 1 (2 * (n : Int)) = ((max 1 (2 * n) : Nat) : Int) := by omega
  have hbytes : max 1 (2 * n) * list.item_size < 2 ^ 64 := by
    rw [Allocatable, hmax] at hfits
    exact_mod_cast hfits
  have hoffset : list.itemsOffset (max 1 (2 * (n : Int))) = max 1 (2 * n) * list.item_size := by
    rw [hmax]
    exact itemAt_exact (by omega) hbytes
  rw [h.ensureCapacity_full, if_pos (by rw [intMax]; omega)]
  refine ⟨_, rfl, h.size, hmax, by omega, by omega, h.item_size_lt, hbytes, ?_⟩
  simp only [length_realloc, hoffset]

section

variable {list : ArrayList} {n c : Nat} (h : Sound list n c)
include h

theorem Sound.intact : 0 ≤ list.size ∧ list.size ≤ list.capacity := by
  have := h.size
  have := h.capacity
  have := h.size_le
  omega

/-- There is room, or there will be. -/
theorem Sound.ensureCapacity {insert_before : Int} {realloc : Option (Nat → UInt8)}
    (hin : insert_before ≤ list.size) (hgrows : Grows list (.add insert_before realloc)) :
    ∃ list' c', ensureCapacity realloc list (list.size + 1) = some list' ∧ Sound list' n c' ∧
      n < c' ∧ (list.capacity < list.size + 1 → realloc ≠ none) := by
  have hsize := h.size
  have hcapacity := h.capacity
  by_cases hroom : n < c
  · rw [ArrayList.ensureCapacity, if_pos (by omega)]
    exact ⟨list, c, rfl, h, hroom, fun hlt => by omega⟩
  · obtain rfl : n = c := Nat.le_antisymm h.size_le (Nat.not_lt.1 hroom)
    obtain ⟨hsome, hn, hfits⟩ := hgrows hin (by omega)
    obtain ⟨fresh, rfl⟩ := Option.isSome_iff_exists.1 hsome
    rw [hsize] at hfits
    obtain ⟨grown, hgrown, hsound⟩ := h.grown (by omega) hfits fresh
    exact ⟨grown, _, hgrown, hsound, by omega, fun _ => Option.some_ne_none fresh⟩

theorem Sound.add {insert_before : Int} {realloc : Option (Nat → UInt8)}
    (hgrows : Grows list (.add insert_before realloc)) :
    ∃ list' slot, Op.exec list (.add insert_before realloc) = some (list', slot) ∧
      Survives list (.add insert_before realloc) list' slot ∧ ∃ n' c', Sound list' n' c' := by
  rw [Op.exec, arrayListAdd_eq]
  by_cases hin : insert_before > list.size
  · rw [if_pos hin]
    exact ⟨list, none, rfl, ⟨h.intact, fun hfails => absurd hfails.1 (by omega), nofun⟩, n, c, h⟩
  · obtain ⟨grown, c', hgrown, hsound, hroom, hsome⟩ :=
      h.ensureCapacity (Int.not_lt.1 hin) hgrows
    have hmax := hsound.capacity_lt
    have hsize := h.size
    have hle : insert_before ≤ n := by omega
    obtain ⟨list', p, hadd, hsound', hplace⟩ := hsound.addTo hroom hle
    rw [if_neg hin, if_neg (by rw [intMax]; omega), hgrown, Option.bind_some, hadd]
    refine ⟨list', some p, rfl, ⟨hsound'.intact, ?_, ?_⟩, _, _, hsound'⟩
    · exact fun hfails => absurd hfails.2.2 (hsome hfails.2.1)
    · rintro _ ⟨⟩
      exact hplace

theorem Sound.remove (index : Int) :
    ∃ list' slot, Op.exec list (.remove index) = some (list', slot) ∧
      Survives list (.remove index) list' slot ∧ ∃ n' c', Sound list' n' c' := by
  have hsize := h.size
  have hle := h.size_le
  have hnone : ∀ {place : Nat → Prop}, ∀ p ∈ none, place p := fun p hp =>
    absurd hp (Option.not_mem_none p)
  rw [Op.exec, arrayListRemove]
  by_cases hin : index < 0 ∨ index ≥ list.size
  · rw [if_pos hin]
    exact ⟨list, none, rfl, ⟨h.intact, False.elim, hnone⟩, n, c, h⟩
  · obtain ⟨i, rfl⟩ := Int.eq_ofNat_of_zero_le (by omega : 0 ≤ index)
    have hcount : list.size - i - 1 = ((n - i - 1 : Nat) : Int) := by omega
    -- The items behind it are moved, if there are any.
    obtain ⟨data, hmoved, hlength⟩ : ∃ data, (if (i : Int) < list.size - 1 then
          list.data.memmove (list.itemAt i) (list.itemAt (i + 1))
            (list.itemsOffset (list.size - i - 1))
        else some list.data) = some data ∧ data.length = list.data.length := by
      split
      · obtain ⟨data, hmove, hlength⟩ :=
          h.memmove (p := i) (q := i + 1) (m := n - i - 1) (by omega) (by omega)
        push_cast at hmove
        rw [hcount]
        exact ⟨data, hmove, hlength⟩
      · exact ⟨_, rfl, rfl⟩
    have hsound : Sound { list with data, size := list.size - 1 } (n - 1) c :=
      h.update hlength (by omega) (by omega)
    rw [if_neg hin, hmoved]
    exact ⟨_, none, rfl, ⟨hsound.intact, False.elim, hnone⟩, _, _, hsound⟩

theorem Sound.get (index : Int) :
    ∃ list' slot, Op.exec list (.get index) = some (list', slot) ∧
      Survives list (.get index) list' slot ∧ ∃ n' c', Sound list' n' c' := by
  have hsize := h.size
  have hle := h.size_le
  refine ⟨list, _, rfl, ⟨h.intact, False.elim, fun p hp => ?_⟩, n, c, h⟩
  rw [arrayListGet] at hp
  split at hp
  · cases hp
  · obtain ⟨i, rfl⟩ := Int.eq_ofNat_of_zero_le (by omega : 0 ≤ index)
    cases hp
    exact h.place (by omega)

/-- A call that grows the list where it has to leaves a list that is intact. -/
theorem Sound.step {op : Op} (hgrows : Grows list op) :
    ∃ list' slot, op.exec list = some (list', slot) ∧ Survives list op list' slot ∧
      ∃ n' c', Sound list' n' c' := by
  cases op with
  | add insert_before realloc => exact h.add hgrows
  | remove index => exact h.remove index
  | get index => exact h.get index

end

/-! ## What has not grown -/

/-- To add an item is to reach to the end of the items. -/
theorem addTo_reaches {insert_before : Int} {list list' : ArrayList} {slot : Option Nat} {n : Nat}
    (hadd : addTo insert_before list = some (list', slot)) (hsize : list.size = n)
    (hin : insert_before ≤ n) (hn : n < 2 ^ 64) (hfits : n * list.item_size < 2 ^ 64)
    (hslot : ∀ p ∈ slot, p + list'.item_size ≤ list'.data.length) :
    n * list.item_size ≤ list.data.length := by
  rw [addTo] at hadd
  split at hadd
  · cases hadd
    have hplace : list.size + 1 - 1 = (n : Int) := by omega
    have hoffset : ArrayList.itemAt { list with size := list.size + 1 } n = n * list.item_size :=
      itemAt_exact hn hfits
    have hinside := hslot _ rfl
    rw [hplace, hoffset] at hinside
    exact (Nat.le_add_right _ _).trans hinside
  · next hpos =>
      obtain ⟨i, rfl⟩ := Int.eq_ofNat_of_zero_le (Int.not_lt.1 hpos)
      obtain ⟨data, hmove, -⟩ := Option.bind_eq_some_iff.1 hadd
      have hcount : list.size - i = ((n - i : Nat) : Int) := by omega
      have hmul : i * list.item_size + (n - i) * list.item_size = n * list.item_size := by
        rw [← Nat.add_mul]
        congr 1
        omega
      have hsrc : list.itemAt i = i * list.item_size := itemAt_exact (by omega) (by omega)
      have hbytes : list.itemsOffset (n - i : Nat) = (n - i) * list.item_size :=
        itemAt_exact (by omega) (by omega)
      rw [hcount, hsrc, hbytes, Block.memmove, hmul] at hmove
      split at hmove
      · next hread => exact hread
      · cases hmove

/-- The bytes of a full list are fewer after they have wrapped around. -/
theorem Sound.wraps {list : ArrayList} {n : Nat} (h : Sound list n n)
    (hover : ¬Allocatable list.item_size (max 1 (2 * n))) :
    list.itemsOffset (max 1 (2 * (n : Int))) < n * list.item_size := by
  have hk := h.item_size_lt
  have hfits := h.allocatable
  have hlt := h.capacity_lt
  have hmax : max 1 (2 * (n : Int)) = ((max 1 (2 * n) : Nat) : Int) := by omega
  rw [Allocatable, hmax, Int.not_lt] at hover
  have hbytes : 2 ^ 64 ≤ max 1 (2 * n) * list.item_size := by exact_mod_cast hover
  have hdouble : max 1 (2 * n) = 2 * n := by
    rcases Nat.eq_zero_or_pos n with rfl | hpos
    · rw [Nat.mul_zero, Nat.max_eq_left (by decide), Nat.one_mul] at hbytes
      omega
    · omega
  have hmod : (((2 * n : Nat) : Int) % 2 ^ 64).toNat = 2 * n := by omega
  rw [hdouble, Nat.mul_assoc] at hbytes
  rw [hmax, itemsOffset, hdouble, hmod, Nat.mul_assoc]
  omega

/-- A call that leaves an intact list that is intact has grown it where it had
to. -/
theorem Sound.grows {list : ArrayList} {n c : Nat} (h : Sound list n c) {op : Op}
    {list' : ArrayList} {slot : Option Nat} (hexec : op.exec list = some (list', slot))
    (hsurvives : Survives list op list' slot) : Grows list op := by
  cases op with
  | remove index => trivial
  | get index => trivial
  | add insert_before realloc =>
      intro hin hfull
      have hsize := h.size
      obtain rfl : n = c := by
        have := h.capacity
        omega
      rw [Op.exec, arrayListAdd_eq, if_neg (Int.not_lt.2 hin)] at hexec
      split at hexec
      · cases hexec
      obtain ⟨grown, hgrown, hadd⟩ := Option.bind_eq_some_iff.1 hexec
      rw [h.ensureCapacity_full] at hgrown
      split at hgrown
      · next hmax =>
          rw [intMax] at hmax
          cases realloc with
          | none =>
              -- The list counts one item more than it has room for.
              cases hgrown
              obtain ⟨hsize', hcapacity', -⟩ := addTo_cases hadd
              have := hsurvives.size.2
              omega
          | some fresh =>
              cases hgrown
              refine ⟨rfl, by omega, ?_⟩
              rw [hsize]
              by_contra hover
              have hreaches := addTo_reaches hadd hsize (by omega) (by omega) h.allocatable
                hsurvives.slot
              have hwraps := h.wraps hover
              simp only [length_realloc] at hreaches
              omega
      · cases hgrown

/-! ## Runs -/

theorem Sound.safe_iff (ops : List Op) {list : ArrayList} {n c : Nat} (h : Sound list n c) :
    Safe list ops ↔ Grown list ops := by
  induction ops generalizing list n c with
  | nil => exact iff_of_true trivial trivial
  | cons op ops ih =>
      rw [Safe, Grown]
      constructor
      · rintro ⟨list', slot, hexec, hsurvives, hsafe⟩
        have hgrows := h.grows hexec hsurvives
        obtain ⟨next, slot', hnext, -, n', c', hsound⟩ := h.step hgrows
        refine ⟨hgrows, fun list'' slot'' hexec' => ?_⟩
        cases hnext.symm.trans hexec
        cases hnext.symm.trans hexec'
        exact (ih hsound).1 hsafe
      · rintro ⟨hgrows, hgrown⟩
        obtain ⟨list', slot, hexec, hsurvives, n', c', hsound⟩ := h.step hgrows
        exact ⟨list', slot, hexec, hsurvives, (ih hsound).2 (hgrown list' slot hexec)⟩

theorem sound_init (fresh : Nat → UInt8) {item_size initial_capacity : Nat}
    (hitem : item_size < 2 ^ 64) (hcap : initial_capacity < 2 ^ 31)
    (hmalloc : Allocatable item_size initial_capacity) :
    Sound (arrayListInit fresh item_size initial_capacity) 0 initial_capacity := by
  have hbytes : initial_capacity * item_size < 2 ^ 64 := by
    rw [Allocatable] at hmalloc
    exact_mod_cast hmalloc
  have hmod : ((initial_capacity : Int) % 2 ^ 64).toNat = initial_capacity := by omega
  refine ⟨rfl, rfl, Nat.zero_le _, hcap, hitem, hbytes, ?_⟩
  rw [arrayListInit, length_realloc, hmod, Nat.mod_eq_of_lt hbytes]

/-- **An array list stays intact exactly as long as it grows where it has to.** -/
theorem arrayList_survives (fresh : Nat → UInt8) {item_size initial_capacity : Nat}
    (hitem : item_size < 2 ^ 64) (hcap : initial_capacity < 2 ^ 31)
    (hmalloc : Allocatable item_size initial_capacity) (ops : List Op) :
    Safe (arrayListInit fresh item_size initial_capacity) ops ↔
      Grown (arrayListInit fresh item_size initial_capacity) ops :=
  (sound_init fresh hitem hcap hmalloc).safe_iff ops

/-- The list grows, and the second item is put before the first. -/
theorem arrayList_survives_one :
    Safe (arrayListInit (fun _ => 0) 4 1)
      [.add (-1) none, .add 0 (some fun _ => 0), .get 1, .remove 0] := by
  have hitem : 4 < 2 ^ 64 := by decide
  have hcap : 1 < 2 ^ 31 := by decide
  have hmalloc : Allocatable 4 1 := by decide
  refine (arrayList_survives (fun _ => 0) hitem hcap hmalloc _).2 ⟨nofun, ?_⟩
  rintro one _ ⟨⟩
  exact ⟨fun _ _ => ⟨rfl, by decide, by decide⟩, fun _ _ _ =>
    ⟨trivial, fun _ _ _ => ⟨trivial, fun _ _ _ => trivial⟩⟩⟩

/-- A list for two integers takes a third without memory for it. -/
theorem arrayList_overruns :
    ¬Safe (arrayListInit (fun _ => 0) 4 2) [.add (-1) none, .add (-1) none, .add (-1) none] := by
  have hsound : Sound (arrayListInit (fun _ => 0) 4 2) 0 2 :=
    sound_init (fun _ => 0) (by decide) (by decide) (by decide)
  rw [hsound.safe_iff]
  rintro ⟨-, hsecond⟩
  obtain ⟨-, hthird⟩ := hsecond _ _ rfl
  obtain ⟨hgrows, -⟩ := hthird _ _ rfl
  exact absurd (hgrows (by decide) rfl).1 (by decide)

end CommonsC.ArrayList
