import CommonsC.Base.Items
import Mathlib.Algebra.Order.Ring.Int

/-!
# CommonsC.ArrayList.Model

The growing array of items of one size in `util/array-list/array_list.c`.

Pointers into the data are offsets, computed as the source computes them, in a
`size_t` of 64 bits.  `none` is undefined behaviour: an access outside the
allocated block, or an `int` that overflows.  What `realloc` returns is a
parameter: `none` is `NULL`, and `some fresh` a block with these bytes where it
grew.
-/

namespace CommonsC

/-- `array_list_t`.  Where `data` is `NULL` it has no bytes. -/
structure ArrayList where
  data : Block
  item_size : Nat
  capacity : Int
  size : Int

namespace ArrayList

/-- The largest `int`. -/
def intMax : Int := 2 ^ 31 - 1

/-- `items_offset`. -/
def itemsOffset (list : ArrayList) (size : Int) : Nat :=
  (size % 2 ^ 64).toNat * list.item_size % 2 ^ 64

/-- `item_at`. -/
def itemAt (list : ArrayList) (index : Int) : Nat := list.itemsOffset index

/-- `array_list_init`, where `malloc` gives a block with the bytes `fresh`. -/
def arrayListInit (fresh : Nat → UInt8) (item_size : Nat) (initial_capacity : Int) : ArrayList where
  data := Block.realloc fresh [] ((initial_capacity % 2 ^ 64).toNat * item_size % 2 ^ 64)
  item_size := item_size
  capacity := initial_capacity
  size := 0

/-- The loop of `ensure_capacity`. -/
def grow (new_size new_capacity : Int) (hpos : 0 < new_capacity) : Option Int :=
  if new_capacity < new_size then
    if new_capacity * 2 ≤ intMax then grow new_size (new_capacity * 2) (by omega) else none
  else some new_capacity
termination_by (new_size - new_capacity).toNat

/-- The capacity from which the loop starts. -/
def startCapacity (capacity : Int) : Int := if capacity > 0 then capacity else 1

theorem startCapacity_pos (capacity : Int) : 0 < startCapacity capacity := by
  rw [startCapacity]
  split <;> omega

/-- `ensure_capacity`. -/
def ensureCapacity (realloc : Option (Nat → UInt8)) (list : ArrayList) (new_size : Int) :
    Option ArrayList :=
  if list.capacity ≥ new_size then some list
  else do
    let new_capacity ← grow new_size (startCapacity list.capacity) (startCapacity_pos _)
    match realloc with
    | none => some list
    | some fresh =>
        some { list with
          data := list.data.realloc fresh (list.itemsOffset new_capacity)
          capacity := new_capacity }

/-- `array_list_get`: where the item is, or `NULL`. -/
def arrayListGet (list : ArrayList) (index : Int) : Option Nat :=
  if index ≥ list.size ∨ index < 0 then none else some (list.itemAt index)

/-- `array_list_add`: the list, and where there is room for the item, or
`NULL`. -/
def arrayListAdd (realloc : Option (Nat → UInt8)) (list : ArrayList) (insert_before : Int) :
    Option (ArrayList × Option Nat) :=
  if insert_before > list.size then some (list, none)
  else if list.size + 1 > intMax then none
  else do
    let list ← ensureCapacity realloc list (list.size + 1)
    if insert_before < 0 then
      let list := { list with size := list.size + 1 }
      some (list, some (list.itemAt (list.size - 1)))
    else
      let data ← list.data.memmove (list.itemAt (insert_before + 1)) (list.itemAt insert_before)
        (list.itemsOffset (list.size - insert_before))
      let list := { list with data, size := list.size + 1 }
      some (list, some (list.itemAt insert_before))

/-- `array_list_remove`. -/
def arrayListRemove (list : ArrayList) (index : Int) : Option ArrayList :=
  if index < 0 ∨ index ≥ list.size then some list
  else
    let moved :=
      if index < list.size - 1 then
        list.data.memmove (list.itemAt index) (list.itemAt (index + 1))
          (list.itemsOffset (list.size - index - 1))
      else some list.data
    moved.map fun data => { list with data, size := list.size - 1 }

/-! ## Clients -/

/-- A client writes an item to the place that `array_list_add` returned. -/
def write {k : Nat} (list : ArrayList) (slot : Nat) (item : Item k) : Option ArrayList :=
  (list.data.memcpy slot item.bytes).map fun data => { list with data }

/-- A client reads the item that `array_list_get` returned. -/
def read (list : ArrayList) (slot : Nat) : Option Block :=
  if slot + list.item_size ≤ list.data.length then
    some ((list.data.drop slot).take list.item_size)
  else none

/-- What clients call, on lists with items of size `k`.  An item to be added
comes with what `realloc` returns if it is called. -/
inductive Call (k : Nat)
  | add (insert_before : Int) (item : Item k) (realloc : Option (Nat → UInt8))
  | remove (index : Int)
  | get (index : Int)

/-- What clients see: whether there was room, or the item. -/
inductive Answer
  | added (room : Bool)
  | removed
  | got (item : Option Block)

/-- One call, with what the client does with the place that is returned. -/
def Call.exec {k : Nat} (list : ArrayList) : Call k → Option (ArrayList × Answer)
  | .add insert_before item realloc => do
      match ← arrayListAdd realloc list insert_before with
      | (list, none) => some (list, .added false)
      | (list, some slot) =>
          let list ← list.write slot item
          some (list, .added true)
  | .remove index => do
      let list ← arrayListRemove list index
      some (list, .removed)
  | .get index =>
      match arrayListGet list index with
      | none => some (list, .got none)
      | some slot => do
          let item ← list.read slot
          some (list, .got (some item))

/-- Calls one after another. -/
def exec {k : Nat} : ArrayList → List (Call k) → Option (ArrayList × List Answer)
  | list, [] => some (list, [])
  | list, call :: calls => do
      let (list, answer) ← call.exec list
      let (list, answers) ← exec list calls
      some (list, answer :: answers)

end ArrayList

end CommonsC
