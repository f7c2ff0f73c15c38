import CommonsC.Base.CString

/-!
# CommonsC.Base.Cursor

Writing at a cursor: `line[offset++] = c` in a block of fixed size.

A write behind the block is undefined: `none`.  `Writes f out` says what `f` appends
to what was written, where there is room for it, whatever the block held before.
Writers compose (`Writes.bind`), so the text of a formatter is that of its parts, and
the room it needs is the length of the text.
-/

/-- A block, and where the next byte goes. -/
structure Cursor where
  block : Block
  offset : ℕ

namespace Cursor

/-- `line[offset++] = c`. -/
def put (c : UInt8) (k : Cursor) : Option Cursor :=
  (k.block.store k.offset c).map fun block => ⟨block, k.offset + 1⟩

/-- What was written is `text`, in a block of `n` bytes. -/
def Holds (n : ℕ) (k : Cursor) (text : List UInt8) : Prop :=
  k.offset = text.length ∧ k.block.length = n ∧ ∃ rest, k.block = text ++ rest

/-- `f` appends `out`, where there is room. -/
def Writes (n : ℕ) (f : Cursor → Option Cursor) (out : List UInt8) : Prop :=
  ∀ k text, Holds n k text → text.length + out.length ≤ n →
    ∃ k', f k = some k' ∧ Holds n k' (text ++ out)

variable {n : ℕ} {f g : Cursor → Option Cursor} {a b : List UInt8}

theorem Writes.skip : Writes n some [] := fun k text h _ =>
  ⟨k, rfl, by rwa [List.append_nil]⟩

theorem Writes.put (c : UInt8) : Writes n (put c) [c] := by
  rintro ⟨_, _⟩ text ⟨rfl, hlength, rest, rfl⟩ hroom
  change (text ++ rest).length = n at hlength
  cases rest with
  | nil =>
      rw [List.append_nil] at hlength
      rw [List.length_singleton] at hroom
      omega
  | cons old rest =>
      refine ⟨⟨text ++ c :: rest, text.length + 1⟩, ?_, ?_, ?_, rest, ?_⟩
      · rw [Cursor.put, Block.store_append rfl]
        rfl
      · rw [List.length_append, List.length_singleton]
      · rw [List.length_append, List.length_cons] at hlength ⊢
        exact hlength
      · rw [List.append_assoc, List.singleton_append]

/-- Writers one after the other. -/
theorem Writes.bind (hf : Writes n f a) (hg : Writes n g b) :
    Writes n (fun k => f k >>= g) (a ++ b) := by
  intro k text hk hroom
  rw [List.length_append] at hroom
  obtain ⟨k₁, hrun₁, hk₁⟩ := hf k text hk (by omega)
  obtain ⟨k₂, hrun₂, hk₂⟩ := hg k₁ (text ++ a) hk₁ (by rw [List.length_append]; omega)
  refine ⟨k₂, ?_, by rwa [← List.append_assoc]⟩
  change (f k).bind g = some k₂
  rw [hrun₁]
  exact hrun₂

theorem Writes.ite {c : Prop} [Decidable c] (hf : Writes n f a) (hg : Writes n g b) :
    Writes n (fun k => if c then f k else g k) (if c then a else b) := by
  by_cases hc : c
  · simpa only [if_pos hc] using hf
  · simpa only [if_neg hc] using hg

/-- A loop of writers. -/
theorem Writes.foldlM {ι : Type*} {body : Cursor → ι → Option Cursor} {out : ι → List UInt8}
    (hbody : ∀ i, Writes n (body · i) (out i)) (is : List ι) :
    Writes n (fun k => is.foldlM body k) (is.flatMap out) := by
  induction is with
  | nil => exact .skip
  | cons i is ih => exact (hbody i).bind ih

/-- The string that was written, with its NUL. -/
theorem Holds.string {k : Cursor} (h : Holds n k a) (hroom : a.length < n) (hnul : 0 ∉ a) :
    ∃ block, k.block.store k.offset 0 = some block ∧ block.length = n ∧
      CString.upToNul block = a := by
  obtain ⟨hoffset, hlength, rest, hblock⟩ := h
  rw [hblock] at hlength ⊢
  rw [List.length_append] at hlength
  cases rest with
  | nil =>
      rw [List.length_nil] at hlength
      omega
  | cons old rest =>
      rw [List.length_cons] at hlength
      refine ⟨a ++ 0 :: rest, Block.store_append hoffset.symm old 0 rest, ?_, ?_⟩
      · rw [List.length_append, List.length_cons]
        exact hlength
      · rw [CString.upToNul_append_zero, CString.upToNul_of_not_mem hnul]

end Cursor
