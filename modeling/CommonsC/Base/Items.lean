import CommonsC.Base.CString

/-!
# CommonsC.Base.Items

Items of one size, one behind another in a block.

A list of items is written to memory by `flatten`, and what is at an index is at
that many times the size.  The lemmas say what moving and copying bytes at such
places does to the list: room is made for an item (`memmove_insert`), an item is
written there (`memcpy_item`), and the items behind one are moved over it
(`memmove_erase`).
-/

/-- `size` bytes. -/
structure Item (size : Nat) where
  bytes : Block
  length_eq : bytes.length = size

namespace Item

variable {size : Nat}

/-- Items as they are in memory. -/
def flatten (items : List (Item size)) : Block := items.flatMap Item.bytes

@[simp] theorem flatten_nil : flatten ([] : List (Item size)) = [] := rfl

@[simp] theorem flatten_cons (item : Item size) (items : List (Item size)) :
    flatten (item :: items) = item.bytes ++ flatten items := rfl

@[simp] theorem flatten_append (a b : List (Item size)) :
    flatten (a ++ b) = flatten a ++ flatten b := List.flatMap_append

theorem length_flatten (items : List (Item size)) :
    (flatten items).length = items.length * size := by
  induction items with
  | nil => simp
  | cons item items ih =>
      rw [flatten_cons, List.length_append, ih, item.length_eq, List.length_cons, Nat.add_mul,
        Nat.one_mul, Nat.add_comm]

/-- Where a list is cut at an index. -/
theorem split_at {α : Type*} {items : List α} {i : Nat} (h : i ≤ items.length) :
    ∃ a b, items = a ++ b ∧ a.length = i ∧ items.length - i = b.length :=
  ⟨items.take i, items.drop i, (List.take_append_drop i items).symm, by simp [h], by simp⟩

theorem split_item {α : Type*} {items : List α} {i : Nat} (h : i < items.length) :
    ∃ a item b, items = a ++ item :: b ∧ a.length = i ∧ items.length - i - 1 = b.length := by
  obtain ⟨a, b, rfl, ha, hb⟩ := split_at (Nat.le_of_lt h)
  cases b with
  | nil =>
      rw [List.length_append, List.length_nil] at h
      omega
  | cons item b =>
      rw [List.length_cons] at hb
      exact ⟨a, item, b, rfl, ha, by omega⟩

theorem insertIdx_append {α : Type*} (a b : List α) (x : α) :
    (a ++ b).insertIdx a.length x = a ++ x :: b := by
  induction a with
  | nil => rfl
  | cons y a ih =>
      rw [List.cons_append, List.length_cons, List.insertIdx_succ_cons, ih, List.cons_append]

theorem eraseIdx_append {α : Type*} (a b : List α) (x : α) :
    (a ++ x :: b).eraseIdx a.length = a ++ b := by
  rw [List.eraseIdx_append_of_length_le (Nat.le_refl _), Nat.sub_self, List.eraseIdx_cons_zero]

/-! ## Memory -/

variable {a b : List (Item size)} {rest : Block}

/-- Room for an item is made at the place where the items are cut. -/
theorem memmove_insert {gap : Block} (hgap : gap.length = size) :
    ∃ junk : Block, junk.length = size ∧
      Block.memmove (flatten a ++ (flatten b ++ (gap ++ rest))) ((a.length + 1) * size)
          (a.length * size) (b.length * size) =
        some (flatten a ++ (junk ++ (flatten b ++ rest))) := by
  have hq : (a.length + 1) * size = a.length * size + gap.length := by
    rw [hgap, Nat.add_mul, Nat.one_mul]
  obtain ⟨junk, hjunk, hmove⟩ :=
    Block.memmove_up (length_flatten a) hq (length_flatten b).symm rest
  exact ⟨junk, hjunk.trans hgap, hmove⟩

/-- An item is written behind others. -/
theorem memcpy_item {old : Block} (hold : old.length = size) (item : Item size) :
    Block.memcpy (flatten a ++ (old ++ rest)) (a.length * size) item.bytes =
      some (flatten (a ++ [item]) ++ rest) := by
  rw [Block.memcpy_append (length_flatten a) (hold.trans item.length_eq.symm)]
  simp

/-- The items behind one are moved over it. -/
theorem memmove_erase (item : Item size) :
    ∃ junk : Block, junk.length = size ∧
      Block.memmove (flatten (a ++ item :: b) ++ rest) (a.length * size)
          ((a.length + 1) * size) (b.length * size) =
        some (flatten (a ++ b) ++ (junk ++ rest)) := by
  have hq : (a.length + 1) * size = a.length * size + item.bytes.length := by
    rw [item.length_eq, Nat.add_mul, Nat.one_mul]
  obtain ⟨junk, hjunk, hmove⟩ :=
    Block.memmove_down (length_flatten a) item.bytes (flatten b) rest hq (length_flatten b).symm
  refine ⟨junk, hjunk.trans item.length_eq, ?_⟩
  simp only [flatten_append, flatten_cons, List.append_assoc]
  exact hmove

/-- An item is read where it is. -/
theorem read_item (item : Item size) :
    ((flatten (a ++ item :: b) ++ rest).drop (a.length * size)).take size = item.bytes := by
  have hitem := item.length_eq
  rw [flatten_append, flatten_cons, List.append_assoc, ← length_flatten a, List.drop_left,
    List.append_assoc, List.take_left' hitem]

end Item
