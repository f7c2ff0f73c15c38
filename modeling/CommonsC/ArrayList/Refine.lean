import CommonsC.ArrayList.Model

/-!
# CommonsC.ArrayList.Refine

The array list is a list of items.

Every call is compared with what it is meant to do to a mathematical list
(`Call.apply`).  The relation between the two (`Represents`) says that the items
are the front of the block and that the block has room for as many items as the
capacity says; as long as that many bytes are a `size_t`, the offsets are exact.
-/

namespace CommonsC.ArrayList

variable {k : Nat}

/-! ## The mathematical list -/

/-- What a call is meant to do. -/
def Call.apply (items : List (Item k)) : Call k → List (Item k) × Answer
  | .add insert_before item _ =>
      if insert_before > items.length then (items, .added false)
      else if insert_before < 0 then (items ++ [item], .added true)
      else (items.insertIdx insert_before.toNat item, .added true)
  | .remove index => (if 0 ≤ index then items.eraseIdx index.toNat else items, .removed)
  | .get index => (items, .got (if 0 ≤ index then items[index.toNat]?.map Item.bytes else none))

/-- What calls are meant to do one after another. -/
def apply : List (Item k) → List (Call k) → List (Item k) × List Answer
  | items, [] => (items, [])
  | items, call :: calls =>
      let (items, answer) := call.apply items
      let (items, answers) := apply items calls
      (items, answer :: answers)

/-! ## Memory -/

/-- Memory for so many items can be asked for: their bytes are a `size_t`. -/
def Allocatable (item_size : Nat) (capacity : Int) : Prop := capacity * item_size < 2 ^ 64

instance (item_size : Nat) (capacity : Int) : Decidable (Allocatable item_size capacity) :=
  inferInstanceAs (Decidable (_ < _))

/-- `n` items of size `k`, which are the `front` of the block, in a block with
room for as many as the capacity says. -/
structure Holds (k : Nat) (list : ArrayList) (n : Nat) (front : Block) : Prop where
  item_size : list.item_size = k
  size : list.size = n
  size_le : list.size ≤ list.capacity
  allocatable : Allocatable k list.capacity
  length_data : (list.data.length : Int) = list.capacity * k
  data : ∃ rest, list.data = front ++ rest

/-- The items are those of the list. -/
def Represents (list : ArrayList) (items : List (Item k)) : Prop :=
  Holds k list items.length (Item.flatten items)

/-- The allocation that a call needs, if it needs one, succeeds. -/
def Succeeds (list : ArrayList) : Call k → Prop
  | .add insert_before _ realloc =>
      insert_before ≤ list.size → list.capacity < list.size + 1 →
        realloc.isSome = true ∧
          ∀ new_capacity hpos,
            grow (list.size + 1) (startCapacity list.capacity) hpos = some new_capacity →
              Allocatable list.item_size new_capacity
  | .remove _ => True
  | .get _ => True

/-- Allocations succeed, and the size stays below `2 ^ 30`. -/
def Fits : ArrayList → List (Call k) → Prop
  | _, [] => True
  | list, call :: calls =>
      Succeeds list call ∧
        ∀ list' answer, call.exec list = some (list', answer) →
          list'.size < 2 ^ 30 ∧ Fits list' calls

/-! ## Growth -/

/-- The loop ends with a capacity that is large enough, and without overflow. -/
theorem grow_spec {new_size capacity : Int} (hpos : 0 < capacity) (hsize : new_size ≤ 2 ^ 30) :
    ∃ new_capacity, grow new_size capacity hpos = some new_capacity ∧ new_size ≤ new_capacity ∧
      new_capacity < max (capacity + 1) (2 * new_size) := by
  induction capacity, hpos using grow.induct new_size with
  | case1 capacity hpos hlt hmax ih =>
      obtain ⟨new_capacity, hgrow, hle, hbound⟩ := ih
      refine ⟨new_capacity, ?_, hle, by omega⟩
      rw [grow, if_pos hlt, if_pos hmax]
      exact hgrow
  | case2 capacity hpos hlt hmax =>
      rw [intMax] at hmax
      omega
  | case3 capacity hpos hge =>
      refine ⟨capacity, ?_, by omega, by omega⟩
      rw [grow, if_neg hge]

/-- The bytes stay where a block grows. -/
theorem realloc_grows (fresh : Nat → UInt8) {mem : Block} {n : Nat} (h : mem.length ≤ n) :
    ∃ more, mem.realloc fresh n = mem ++ more ∧ (mem.realloc fresh n).length = n := by
  refine ⟨_, by rw [Block.realloc, List.take_of_length_le h], ?_⟩
  simp only [Block.realloc, List.length_append, List.length_take, List.length_map,
    List.length_range']
  omega

/-- Offsets of allocatable sizes are exact. -/
theorem itemsOffset_eq {list : ArrayList} {size : Int} (hk : 1 ≤ list.item_size)
    (hsize : 0 ≤ size) (hfits : Allocatable list.item_size size) :
    list.itemsOffset size = size.toNat * list.item_size := by
  obtain ⟨n, rfl⟩ := Int.eq_ofNat_of_zero_le hsize
  have hbytes : n * list.item_size < 2 ^ 64 := by
    rw [Allocatable] at hfits
    exact_mod_cast hfits
  have hn : n < 2 ^ 64 := (Nat.le_mul_of_pos_right n hk).trans_lt hbytes
  have hmod : ((n : Int) % 2 ^ 64).toNat = n := by omega
  rw [itemsOffset, hmod, Int.toNat_natCast, Nat.mod_eq_of_lt hbytes]

section

variable {list : ArrayList} {n : Nat} {front : Block} (h : Holds k list n front)
include h

theorem Holds.capacity_nonneg : 0 ≤ list.capacity := by
  have := h.size
  have := h.size_le
  omega

/-- Where an item is. -/
theorem Holds.itemAt_eq (hk : 1 ≤ k) {index : Int} {i : Nat} (hindex : index = i)
    (hhi : index ≤ list.capacity) : list.itemAt index = i * k := by
  have hfits : Allocatable list.item_size index := by
    rw [h.item_size]
    exact (Int.mul_le_mul_of_nonneg_right hhi (Int.natCast_nonneg k)).trans_lt h.allocatable
  rw [itemAt, itemsOffset_eq (h.item_size.symm ▸ hk) (by omega) hfits, h.item_size, hindex,
    Int.toNat_natCast]

/-- Behind the items there is room for another one. -/
theorem Holds.room (hfront : front.length = n * k) (hlt : list.size < list.capacity) :
    ∃ gap rest, gap.length = k ∧ list.data = front ++ (gap ++ rest) := by
  obtain ⟨rest, hdata⟩ := h.data
  have hlength := h.length_data
  rw [hdata, List.length_append, hfront] at hlength
  have hroom : (n + 1 : Int) * k ≤ list.capacity * k := by
    refine Int.mul_le_mul_of_nonneg_right ?_ (Int.natCast_nonneg k)
    rw [← h.size]
    omega
  have hrest : k ≤ rest.length := by
    rw [Int.add_mul, Int.one_mul] at hroom
    push_cast at hlength
    omega
  exact ⟨rest.take k, rest.drop k, List.length_take_of_le hrest, by
    rw [List.take_append_drop, hdata]⟩

/-- Other bytes in the same block. -/
theorem Holds.update {m : Int} {n' : Nat} {data front' rest : Block}
    (hdata : data = front' ++ rest) (hlength : data.length = list.data.length) (hm : m = n')
    (hsize : m ≤ list.capacity) : Holds k { list with data, size := m } n' front' :=
  ⟨h.item_size, hm, hsize, h.allocatable, by simp only [hlength, h.length_data], rest, hdata⟩

/-- The block grows, and its items stay. -/
theorem Holds.ensureCapacity (hk : 1 ≤ k) {new_size : Int}
    {realloc : Option (Nat → UInt8)} (hsize : new_size ≤ 2 ^ 30)
    (hsucc : list.capacity < new_size → realloc.isSome = true ∧
      ∀ new_capacity hpos, grow new_size (startCapacity list.capacity) hpos = some new_capacity →
        Allocatable list.item_size new_capacity) :
    ∃ list', ensureCapacity realloc list new_size = some list' ∧ Holds k list' n front ∧
      new_size ≤ list'.capacity := by
  rw [ArrayList.ensureCapacity]
  split
  · next hge => exact ⟨list, rfl, h, hge⟩
  · next hlt =>
      obtain ⟨hsome, halloc⟩ := hsucc (by omega)
      obtain ⟨fresh, rfl⟩ := Option.isSome_iff_exists.1 hsome
      obtain ⟨new_capacity, hgrow, hle, -⟩ := grow_spec (startCapacity_pos list.capacity) hsize
      have hfits := halloc new_capacity _ hgrow
      have hcapacity := h.capacity_nonneg
      have hoffset := itemsOffset_eq (h.item_size.symm ▸ hk) (by omega) hfits
      rw [h.item_size] at hoffset hfits
      have hbytes : ((new_capacity.toNat * k : Nat) : Int) = new_capacity * k := by
        rw [Int.natCast_mul, Int.toNat_of_nonneg (by omega)]
      have hgrows : list.data.length ≤ new_capacity.toNat * k := by
        have hmul := Int.mul_le_mul_of_nonneg_right (a := list.capacity) (b := new_capacity)
          (by omega) (Int.natCast_nonneg k)
        have := h.length_data
        omega
      obtain ⟨more, hmore, hlength⟩ := realloc_grows fresh hgrows
      obtain ⟨rest, hdata⟩ := h.data
      rw [hgrow]
      refine ⟨_, rfl, ⟨h.item_size, h.size, ?_, hfits, ?_, rest ++ more, ?_⟩, hle⟩
      · exact h.size_le.trans (by simp only; omega)
      · simp only [hoffset, hlength, hbytes]
      · simp only [hoffset]
        rw [hmore, hdata, List.append_assoc]

end

/-! ## One call -/

section

variable {list : ArrayList} {items : List (Item k)}

/-- The items from an index on are moved up by one. -/
theorem Holds.memmove_up {a b : List (Item k)} {gap rest : Block}
    (h : Holds k list (a ++ b).length (Item.flatten (a ++ b))) (hk : 1 ≤ k)
    (hlt : list.size < list.capacity) (hgap : gap.length = k)
    (hdata : list.data = Item.flatten (a ++ b) ++ (gap ++ rest)) {index : Int}
    (hindex : index = a.length) :
    ∃ junk : Block, junk.length = k ∧
      list.data.memmove (list.itemAt (index + 1)) (list.itemAt index)
          (list.itemsOffset (list.size - index)) =
        some (Item.flatten a ++ (junk ++ Item.flatten b) ++ rest) := by
  obtain ⟨junk, hjunk, hmove⟩ := @Item.memmove_insert k a b rest gap hgap
  have hsize := h.size
  rw [List.length_append] at hsize
  have hdst : list.itemAt (index + 1) = (a.length + 1) * k := h.itemAt_eq hk (by omega) (by omega)
  have hsrc : list.itemAt index = a.length * k := h.itemAt_eq hk (by omega) (by omega)
  have hcount : list.itemsOffset (list.size - index) = b.length * k :=
    h.itemAt_eq hk (by omega) (by omega)
  refine ⟨junk, hjunk, ?_⟩
  rw [hdst, hsrc, hcount, hdata, Item.flatten_append, List.append_assoc, hmove]
  simp only [List.append_assoc]

/-- The items behind an index are moved down by one, if there are any. -/
theorem Holds.memmove_down {a b : List (Item k)} {item : Item k}
    (h : Holds k list (a ++ item :: b).length (Item.flatten (a ++ item :: b))) (hk : 1 ≤ k)
    {index : Int} (hindex : index = a.length) :
    ∃ (data junk rest : Block), (if index < list.size - 1 then
        list.data.memmove (list.itemAt index) (list.itemAt (index + 1))
          (list.itemsOffset (list.size - index - 1))
      else some list.data) = some data ∧ junk.length = k ∧
        list.data = Item.flatten (a ++ item :: b) ++ rest ∧
        data = Item.flatten (a ++ b) ++ (junk ++ rest) := by
  obtain ⟨rest, hdata⟩ := h.data
  have hsize := h.size
  have hcapacity := h.size_le
  rw [List.length_append, List.length_cons] at hsize
  by_cases hlast : index < list.size - 1
  · obtain ⟨junk, hjunk, hmove⟩ := @Item.memmove_erase k a b rest item
    have hdst : list.itemAt index = a.length * k := h.itemAt_eq hk (by omega) (by omega)
    have hsrc : list.itemAt (index + 1) = (a.length + 1) * k :=
      h.itemAt_eq hk (by omega) (by omega)
    have hcount : list.itemsOffset (list.size - index - 1) = b.length * k :=
      h.itemAt_eq hk (by omega) (by omega)
    refine ⟨_, junk, rest, ?_, hjunk, hdata, rfl⟩
    rw [if_pos hlast, hdst, hsrc, hcount, hdata, hmove]
  · have hnil : b = [] := List.eq_nil_of_length_eq_zero (by omega)
    subst hnil
    refine ⟨list.data, item.bytes, rest, if_neg hlast, item.length_eq, hdata, ?_⟩
    rw [hdata]
    simp

/-- Where `array_list_add` makes room. -/
theorem Represents.arrayListAdd (h : Represents list items) (hk : 1 ≤ k)
    (hsize : list.size < 2 ^ 30) {insert_before : Int} {item : Item k}
    {realloc : Option (Nat → UInt8)} (hsucc : Succeeds list (.add insert_before item realloc))
    (hin : insert_before ≤ list.size) :
    ∃ list' a b gap, arrayListAdd realloc list insert_before =
        some (list', some (a.length * k)) ∧ items = a ++ b ∧
      (if insert_before < 0 then b = [] else (a.length : Int) = insert_before) ∧
      gap.length = k ∧
      Holds k list' (items.length + 1) (Item.flatten a ++ (gap ++ Item.flatten b)) := by
  obtain ⟨grown, hgrown, hrep, hroom⟩ := Holds.ensureCapacity h hk
    (show list.size + 1 ≤ 2 ^ 30 by omega) fun hlt => hsucc hin hlt
  have hsame : grown.size = list.size := hrep.size.trans h.size.symm
  have hlength := h.size
  obtain ⟨gap, rest, hgap, hdata⟩ := hrep.room (Item.length_flatten items) (by omega)
  rw [ArrayList.arrayListAdd, if_neg (by omega), if_neg (by rw [intMax]; omega), hgrown]
  by_cases hneg : insert_before < 0
  · -- Behind the last item there is room already.
    have hslot : grown.itemAt (grown.size + 1 - 1) = items.length * k :=
      hrep.itemAt_eq hk (by omega) (by omega)
    refine ⟨{ grown with size := grown.size + 1 }, items, [], gap, ?_, ?_, ?_, hgap, ?_⟩
    · simp only [Option.bind_eq_bind, Option.bind_some, if_pos hneg]
      rw [← hslot]
      rfl
    · rw [List.append_nil]
    · rw [if_pos hneg]
    · have hdata' : grown.data =
          Item.flatten items ++ (gap ++ Item.flatten ([] : List (Item k))) ++ rest := by
        rw [hdata, Item.flatten_nil, List.append_nil, List.append_assoc]
      exact hrep.update hdata' rfl (by omega) (by omega)
  · -- The items from there on are moved up by one.
    obtain ⟨a, b, rfl, ha, hb⟩ :=
      Item.split_at (show insert_before.toNat ≤ items.length by omega)
    rw [List.length_append] at hlength
    obtain ⟨junk, hjunk, hmoved⟩ := hrep.memmove_up hk (by omega) hgap hdata
      (show insert_before = a.length by omega)
    have hslot : grown.itemAt insert_before = a.length * k :=
      hrep.itemAt_eq hk (by omega) (by omega)
    refine ⟨{ grown with
      data := Item.flatten a ++ (junk ++ Item.flatten b) ++ rest
      size := grown.size + 1 }, a, b, junk, ?_, rfl, ?_, hjunk, ?_⟩
    · simp only [Option.bind_eq_bind, Option.bind_some, if_neg hneg]
      rw [hmoved, ← hslot]
      rfl
    · rw [if_neg hneg]
      omega
    · refine hrep.update rfl ?_ ?_ ?_
      · rw [hdata, Item.flatten_append]
        simp only [List.length_append, hgap, hjunk]
        omega
      · rw [List.length_append]
        omega
      · omega

/-- `array_list_add`, and the item that is written there. -/
theorem Represents.add (h : Represents list items) (hk : 1 ≤ k) (hsize : list.size < 2 ^ 30)
    {insert_before : Int} {item : Item k} {realloc : Option (Nat → UInt8)}
    (hsucc : Succeeds list (.add insert_before item realloc)) :
    ∃ list', Call.exec list (.add insert_before item realloc) =
        some (list', (Call.apply items (.add insert_before item realloc)).2) ∧
      Represents list' (Call.apply items (.add insert_before item realloc)).1 := by
  have hlength := h.size
  rw [Call.exec, Call.apply]
  by_cases hin : insert_before ≤ list.size
  · obtain ⟨added, a, b, gap, hadd, rfl, hplace, hgap, hroom⟩ := h.arrayListAdd hk hsize hsucc hin
    obtain ⟨rest, hdata⟩ := hroom.data
    have hwrite : added.write (a.length * k) item =
        some { added with data := Item.flatten (a ++ item :: b) ++ rest } := by
      have hcopy := @Item.memcpy_item k a (Item.flatten b ++ rest) gap hgap item
      simp only [Item.flatten_append, Item.flatten_cons, Item.flatten_nil, List.append_nil,
        List.append_assoc] at hcopy hdata ⊢
      rw [write, hdata, hcopy]
      rfl
    have hrep : Represents { added with data := Item.flatten (a ++ item :: b) ++ rest }
        (a ++ item :: b) := by
      refine hroom.update rfl ?_ ?_ hroom.size_le
      · rw [hdata]
        simp only [Item.flatten_append, Item.flatten_cons, List.length_append, hgap,
          item.length_eq]
      · rw [hroom.size]
        simp only [List.length_append, List.length_cons]
        omega
    rw [hadd, if_neg (by omega)]
    simp only [Option.bind_eq_bind, Option.bind_some, hwrite]
    split
    · next hneg =>
        rw [if_pos hneg] at hplace
        subst hplace
        rw [List.append_nil]
        exact ⟨_, rfl, hrep⟩
    · next hpos =>
        rw [if_neg hpos] at hplace
        rw [← hplace, Int.toNat_natCast, Item.insertIdx_append]
        exact ⟨_, rfl, hrep⟩
  · rw [ArrayList.arrayListAdd, if_pos (by omega), if_pos (by omega)]
    exact ⟨list, rfl, h⟩

/-- `array_list_remove`. -/
theorem Represents.remove (h : Represents list items) (hk : 1 ≤ k) (index : Int) :
    ∃ list', Call.exec list (.remove index : Call k) =
        some (list', (Call.apply items (.remove index)).2) ∧
      Represents list' (Call.apply items (.remove index)).1 := by
  have hlength := h.size
  have hcapacity := h.size_le
  rw [Call.exec, Call.apply, arrayListRemove]
  by_cases hin : 0 ≤ index ∧ index < list.size
  · obtain ⟨a, item, b, rfl, ha, hb⟩ :=
      Item.split_item (show index.toNat < items.length by omega)
    rw [List.length_append, List.length_cons] at hlength
    obtain ⟨data, junk, rest, hmoved, hjunk, hdata, hdata'⟩ :=
      Holds.memmove_down h hk (show index = a.length by omega)
    have hrep : Represents { list with data, size := list.size - 1 } (a ++ b) := by
      refine Holds.update h hdata' ?_ ?_ ?_
      · rw [hdata', hdata]
        simp only [Item.flatten_append, Item.flatten_cons, List.length_append, hjunk,
          item.length_eq]
        omega
      · rw [List.length_append]
        omega
      · omega
    rw [if_neg (by omega), hmoved, if_pos hin.1, ← ha, Item.eraseIdx_append]
    exact ⟨_, rfl, hrep⟩
  · have hsame : (if 0 ≤ index then items.eraseIdx index.toNat else items) = items := by
      split
      · exact List.eraseIdx_of_length_le (by omega)
      · rfl
    rw [if_pos (by omega), hsame]
    exact ⟨list, rfl, h⟩

/-- `array_list_get`, and the item that is read there. -/
theorem Represents.get (h : Represents list items) (hk : 1 ≤ k) (index : Int) :
    Call.exec list (.get index : Call k) =
      some (list, (Call.apply items (.get index)).2) := by
  have hlength := h.size
  have hcapacity := h.size_le
  rw [Call.exec, Call.apply, arrayListGet]
  by_cases hin : 0 ≤ index ∧ index < list.size
  · obtain ⟨a, item, b, rfl, ha, -⟩ :=
      Item.split_item (show index.toNat < items.length by omega)
    obtain ⟨rest, hdata⟩ := h.data
    have hread : list.read (a.length * k) = some item.bytes := by
      rw [read, h.item_size, if_pos, hdata, Item.read_item]
      rw [hdata]
      simp only [Item.flatten_append, Item.flatten_cons, List.length_append,
        Item.length_flatten, item.length_eq]
      omega
    have hslot : list.itemAt index = a.length * k :=
      Holds.itemAt_eq h hk (by omega) (by omega)
    have hitem : (a ++ item :: b)[index.toNat]? = some item := by
      rw [← ha, List.getElem?_append_right (Nat.le_refl _), Nat.sub_self]
      rfl
    rw [if_neg (by omega), hslot, if_pos hin.1, hitem]
    simp only [hread, Option.bind_eq_bind, Option.bind_some, Option.map_some]
  · have hnone : (if 0 ≤ index then items[index.toNat]?.map Item.bytes else none) = none := by
      split
      · rw [List.getElem?_eq_none (by omega), Option.map_none]
      · rfl
    rw [if_pos (by omega), hnone]

/-- A call does what it is meant to do. -/
theorem Represents.exec (h : Represents list items) (hk : 1 ≤ k) (hsize : list.size < 2 ^ 30)
    {call : Call k} (hsucc : Succeeds list call) :
    ∃ list', call.exec list = some (list', (call.apply items).2) ∧
      Represents list' (call.apply items).1 := by
  cases call with
  | add insert_before item realloc => exact h.add hk hsize hsucc
  | remove index => exact h.remove hk index
  | get index => exact ⟨list, h.get hk index, h⟩

end

/-! ## Calls one after another -/

/-- A new list is empty. -/
theorem represents_init (hk : 1 ≤ k) (fresh : Nat → UInt8) {initial_capacity : Int}
    (hcap : 0 ≤ initial_capacity) (hfits : Allocatable k initial_capacity) :
    Represents (arrayListInit fresh k initial_capacity) ([] : List (Item k)) := by
  have hbytes : (initial_capacity % 2 ^ 64).toNat * k % 2 ^ 64 = initial_capacity.toNat * k :=
    @itemsOffset_eq (arrayListInit fresh k initial_capacity) _ hk hcap hfits
  have hzero : ([] : Block).length ≤ initial_capacity.toNat * k := Nat.zero_le _
  obtain ⟨-, -, hlength⟩ := realloc_grows fresh hzero
  refine ⟨rfl, rfl, hcap, hfits, ?_, _, rfl⟩
  simp only [arrayListInit, hbytes, hlength]
  rw [Int.natCast_mul, Int.toNat_of_nonneg hcap]

/-- Calls do what they are meant to do. -/
theorem Represents.execs (hk : 1 ≤ k) (calls : List (Call k)) {list : ArrayList}
    {items : List (Item k)} (h : Represents list items) (hsize : list.size < 2 ^ 30)
    (hfits : Fits list calls) :
    ∃ list', ArrayList.exec list calls = some (list', (apply items calls).2) ∧
      Represents list' (apply items calls).1 := by
  induction calls generalizing list items with
  | nil => exact ⟨list, rfl, h⟩
  | cons call calls ih =>
      obtain ⟨hsucc, hnext⟩ := hfits
      obtain ⟨next, hcall, hrep⟩ := h.exec hk hsize hsucc
      obtain ⟨hsize', hfits'⟩ := hnext next _ hcall
      obtain ⟨list', hcalls, hrep'⟩ := ih hrep hsize' hfits'
      refine ⟨list', ?_, hrep'⟩
      rw [ArrayList.exec, hcall]
      simp only [Option.bind_eq_bind, Option.bind_some, hcalls]
      rfl

/-- **The array list refines a sequence**: whatever is called, clients see what
they would see of the mathematical list, and the block holds its items.  No
call leaves the block, which has room for as many items as the capacity says. -/
theorem arrayList_refines {k : Nat} (hk : 1 ≤ k) (fresh : Nat → UInt8) {initial_capacity : Int}
    (hcap : 0 ≤ initial_capacity) (hmalloc : Allocatable k initial_capacity)
    (calls : List (Call k)) (hfits : Fits (arrayListInit fresh k initial_capacity) calls) :
    ∃ list, exec (arrayListInit fresh k initial_capacity) calls =
        some (list, (apply [] calls).2) ∧
      Represents list (apply [] calls).1 := by
  have hinit := represents_init hk fresh hcap hmalloc
  have hsize : (arrayListInit fresh k initial_capacity).size < 2 ^ 30 := by
    rw [Holds.size hinit, List.length_nil]
    decide
  exact hinit.execs hk calls hsize hfits

/-! ## Lists of moderate size -/

/-- Every `realloc` gives a block. -/
def Reallocates (calls : List (Call k)) : Prop :=
  ∀ insert_before item realloc, .add insert_before item realloc ∈ calls → realloc.isSome = true

theorem Call.length_apply_le (items : List (Item k)) (call : Call k) :
    (call.apply items).1.length ≤ items.length + 1 := by
  cases call with
  | add insert_before item realloc =>
      rw [apply]
      split
      · exact Nat.le_succ _
      · split
        · rw [List.length_append, List.length_singleton]
        · exact List.length_insertIdx_le_succ
  | remove index =>
      rw [apply]
      split
      · exact (List.length_eraseIdx_le _ _).trans (Nat.le_succ _)
      · exact Nat.le_succ _
  | get index => exact Nat.le_succ _

/-- Items of up to 8 GiB, as long as there are fewer than `2 ^ 30` calls. -/
theorem Represents.fits (hk : 1 ≤ k) (hsmall : k ≤ 2 ^ 33) (calls : List (Call k))
    {list : ArrayList} {items : List (Item k)} (h : Represents list items)
    (hsize : items.length + calls.length < 2 ^ 30) (hrealloc : Reallocates calls) :
    Fits list calls := by
  induction calls generalizing list items with
  | nil => trivial
  | cons call calls ih =>
      rw [List.length_cons] at hsize
      have hlength := h.size
      have hsucc : Succeeds list call := by
        cases call with
        | add insert_before item realloc =>
            intro _ hlt
            refine ⟨hrealloc _ _ _ List.mem_cons_self, fun new_capacity _ hgrow => ?_⟩
            obtain ⟨_, hgrow', -, hbound⟩ := grow_spec (startCapacity_pos list.capacity)
              (show list.size + 1 ≤ 2 ^ 30 by omega)
            rw [hgrow] at hgrow'
            cases hgrow'
            have hstart : startCapacity list.capacity ≤ list.size + 1 := by
              rw [startCapacity]
              split <;> omega
            have hcapacity : new_capacity < 2 ^ 31 := by omega
            rw [Allocatable, h.item_size]
            calc new_capacity * k < 2 ^ 31 * k := Int.mul_lt_mul_of_pos_right hcapacity (by omega)
              _ ≤ 2 ^ 64 := by omega
        | remove index => trivial
        | get index => trivial
      refine ⟨hsucc, fun list' answer hcall => ?_⟩
      obtain ⟨next, hnext, hrep⟩ := h.exec hk (by omega) hsucc
      rw [hcall] at hnext
      cases hnext
      have hgrown := call.length_apply_le items
      have hlength' := hrep.size
      exact ⟨by omega, ih hrep (by omega)
        fun insert_before item realloc hmem => hrealloc _ _ _ (List.mem_cons_of_mem _ hmem)⟩

/-- Two items are added to a list without room for any, the second in front of
the first, which is then removed. -/
theorem arrayList_refines_two :
    ∃ list, exec (arrayListInit (fun _ => 0) 1 0)
        [.add (-1) ⟨[7], rfl⟩ (some fun _ => 0), .add 0 ⟨[8], rfl⟩ (some fun _ => 0), .remove 1,
          .get (0 : Int)] =
        some (list, [.added true, .added true, .removed, .got (some [8])]) ∧
      Represents list [(⟨[8], rfl⟩ : Item 1)] := by
  refine arrayList_refines (k := 1) (by decide) (fun _ => 0) (by decide) (by decide) _ ?_
  refine (represents_init (by decide) _ (by decide) (by decide)).fits (by decide) (by decide) _
    (by decide) fun insert_before item realloc hmem => ?_
  simp only [List.mem_cons, List.not_mem_nil, or_false, reduceCtorEq, Call.add.injEq] at hmem
  rcases hmem with ⟨-, -, rfl⟩ | ⟨-, -, rfl⟩ <;> rfl

end CommonsC.ArrayList
