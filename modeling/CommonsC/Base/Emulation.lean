import Mathlib.Data.List.Basic

/-!
# CommonsC.Base.Emulation

Emulation prevention, as NAL units use it: an encoder inserts a byte 0x03
after two zero bytes wherever the next byte is at most 0x03, and a decoder
deletes every 0x03 that directly follows two zero bytes.  Escaped bytes are
restored (`unescape_escape`) and have no three zero bytes in a row
(`short_escape`).

The functions carry the number of zero bytes directly before the current
position, so that a byte string can be cut anywhere.
-/

namespace Emulation

/-- How many zero bytes stand directly before the position after `b`. -/
def zerosAfter (zeros : Nat) (b : UInt8) : Nat := if b = 0 then zeros + 1 else 0

/-- Insert the emulation prevention bytes. -/
def escape (zeros : Nat) : List UInt8 → List UInt8
  | [] => []
  | b :: bs =>
      if 2 ≤ zeros ∧ b ≤ 3 then 3 :: b :: escape (zerosAfter 0 b) bs
      else b :: escape (zerosAfter zeros b) bs

/-- Delete every byte 0x03 that directly follows two zero bytes. -/
def unescape (zeros : Nat) : List UInt8 → List UInt8
  | [] => []
  | b :: bs =>
      if b = 3 ∧ 2 ≤ zeros then unescape 0 bs else b :: unescape (zerosAfter zeros b) bs

/-- No three zero bytes stand in a row. -/
def Short (zeros : Nat) : List UInt8 → Prop
  | [] => zeros ≤ 2
  | b :: bs => zeros ≤ 2 ∧ Short (zerosAfter zeros b) bs

theorem Short.zeros_le {zeros : Nat} {bs : List UInt8} (h : Short zeros bs) : zeros ≤ 2 := by
  cases bs with
  | nil => exact h
  | cons b bs => exact h.1

/-- **Round trip**: what `escape` inserts, `unescape` deletes, and nothing else. -/
theorem unescape_escape (zeros : Nat) (bs : List UInt8) :
    unescape zeros (escape zeros bs) = bs := by
  induction bs generalizing zeros with
  | nil => rfl
  | cons b bs ih =>
      by_cases hins : 2 ≤ zeros ∧ b ≤ 3
      · rw [escape, if_pos hins, unescape, if_pos ⟨rfl, hins.1⟩, unescape, if_neg (by simp), ih]
      · have hkeep : ¬(b = 3 ∧ 2 ≤ zeros) := fun h => hins ⟨h.2, by rw [h.1]; decide⟩
        rw [escape, if_neg hins, unescape, if_neg hkeep, ih]

/-- An escaped byte string has no three zero bytes in a row. -/
theorem short_escape {zeros : Nat} (hz : zeros ≤ 2) (bs : List UInt8) :
    Short zeros (escape zeros bs) := by
  induction bs generalizing zeros with
  | nil => exact hz
  | cons b bs ih =>
      by_cases hins : 2 ≤ zeros ∧ b ≤ 3
      · have hafter : zerosAfter 0 b ≤ 2 := by unfold zerosAfter; split <;> omega
        rw [escape, if_pos hins]
        exact ⟨hz, by simp [zerosAfter], ih hafter⟩
      · have hafter : zerosAfter zeros b ≤ 2 := by
          unfold zerosAfter
          split
          · next hb => subst hb; simp at hins; omega
          · omega
        rw [escape, if_neg hins]
        exact ⟨hz, ih hafter⟩

/-- Escaping a byte string escapes each of its prefixes. -/
theorem escape_append (zeros : Nat) (as bs : List UInt8) :
    ∃ rest, escape zeros (as ++ bs) = escape zeros as ++ rest := by
  induction as generalizing zeros with
  | nil => exact ⟨_, rfl⟩
  | cons a as ih =>
      by_cases hins : 2 ≤ zeros ∧ a ≤ 3
      · obtain ⟨rest, hrest⟩ := ih (zerosAfter 0 a)
        exact ⟨rest, by simp [escape, hins, hrest]⟩
      · obtain ⟨rest, hrest⟩ := ih (zerosAfter zeros a)
        exact ⟨rest, by simp [escape, hins, hrest]⟩

/-- A byte that is not zero is not escaped at the beginning. -/
theorem escape_cons {b : UInt8} (hb : b ≠ 0) (bs : List UInt8) :
    escape 0 (b :: bs) = b :: escape 0 bs := by
  rw [escape, if_neg (by omega), zerosAfter, if_neg hb]

/-- Escaping at most doubles the length. -/
theorem length_escape_le (zeros : Nat) (bs : List UInt8) :
    (escape zeros bs).length ≤ 2 * bs.length := by
  induction bs generalizing zeros with
  | nil => simp [escape]
  | cons b bs ih =>
      rw [escape]
      split
      · have := ih (zerosAfter 0 b)
        simp only [List.length_cons]
        omega
      · have := ih (zerosAfter zeros b)
        simp only [List.length_cons]
        omega

end Emulation
