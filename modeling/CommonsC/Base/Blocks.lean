import Mathlib.Algebra.Order.Group.Multiset
import Mathlib.Data.Finset.Erase
import Mathlib.Data.Finset.Insert
import Mathlib.Tactic.Abel

/-!
# CommonsC.Base.Blocks

A heap of blocks, with `malloc`, `realloc` and `free`.

A block is a number, and the heap is the set of those that are live.  Memory
does not run out.  `free` of a block that is not live, whether it was freed
before or never allocated, is undefined: `none`.

`Owned h bs` says whose the live blocks are: as a multiset they are `bs`, so that
an owner's blocks are a term of a sum.  Each operation has one rule for it, and a
rule leaves the other terms alone.
-/

namespace Blocks

/-- The live blocks, and one that no block comes after. -/
structure Heap where
  live : Finset ℕ
  next : ℕ
  lt_next : ∀ b ∈ live, b < next

namespace Heap

/-- `malloc`: the block, and the heap. -/
def alloc (h : Heap) : ℕ × Heap where
  fst := h.next
  snd :=
    { live := insert h.next h.live
      next := h.next + 1
      lt_next := fun b hb => by
        rcases Finset.mem_insert.1 hb with rfl | hb
        · exact Nat.lt_succ_self _
        · exact Nat.lt_succ_of_lt (h.lt_next b hb) }

/-- `free`. -/
def free (h : Heap) (b : ℕ) : Option Heap :=
  if b ∈ h.live then
    some
      { live := h.live.erase b
        next := h.next
        lt_next := fun c hc => h.lt_next c (Finset.mem_of_mem_erase hc) }
  else none

/-- `free`, unless the pointer is `NULL`. -/
def freeIf (h : Heap) : Option ℕ → Option Heap
  | none => some h
  | some b => h.free b

/-- `realloc`: the block moves. -/
def realloc (h : Heap) (b : ℕ) : Option (ℕ × Heap) := (h.free b).map alloc

/-- No block is live. -/
def empty : Heap := ⟨∅, 0, nofun⟩

end Heap

/-- The block of a pointer that may be `NULL`. -/
def blockOf (p : Option ℕ) : Multiset ℕ := p.toList

@[simp] theorem blockOf_none : blockOf none = 0 := rfl

@[simp] theorem blockOf_some (b : ℕ) : blockOf (some b) = {b} := rfl

/-- The live blocks are those of `bs`. -/
def Owned (h : Heap) (bs : Multiset ℕ) : Prop := h.live.val = bs

namespace Owned

variable {h : Heap} {bs bs' : Multiset ℕ} {b : ℕ}

theorem congr (hown : Owned h bs) (heq : bs = bs') : Owned h bs' := hown.trans heq

/-- **`malloc`** gives a block that nobody had. -/
theorem alloc (hown : Owned h bs) : Owned h.alloc.2 ({h.alloc.1} + bs) := by
  have hfresh : h.next ∉ h.live := fun hmem => Nat.lt_irrefl _ (h.lt_next _ hmem)
  rw [Owned, Heap.alloc, Finset.insert_val_of_notMem hfresh, hown, Multiset.singleton_add]

/-- **`free`** takes a block of an owner. -/
theorem free (hown : Owned h ({b} + bs)) : ∃ h', h.free b = some h' ∧ Owned h' bs := by
  have hval : h.live.val = b ::ₘ bs := hown.trans (Multiset.singleton_add b bs)
  have hmem : b ∈ h.live := by
    rw [← Finset.mem_val, hval]
    exact Multiset.mem_cons_self b bs
  refine ⟨_, if_pos hmem, ?_⟩
  rw [Owned, Finset.erase_val, hval, Multiset.erase_cons_head]

theorem freeIf {p : Option ℕ} (hown : Owned h (blockOf p + bs)) :
    ∃ h', h.freeIf p = some h' ∧ Owned h' bs := by
  cases p with
  | none => exact ⟨h, rfl, hown.congr (zero_add bs)⟩
  | some b => exact hown.free

/-- **`realloc`** gives another block for one of an owner. -/
theorem realloc (hown : Owned h ({b} + bs)) :
    ∃ b' h', h.realloc b = some (b', h') ∧ Owned h' ({b'} + bs) := by
  obtain ⟨h', hfree, hown'⟩ := hown.free
  exact ⟨_, _, by rw [Heap.realloc, hfree]; rfl, hown'.alloc⟩

end Owned

end Blocks
