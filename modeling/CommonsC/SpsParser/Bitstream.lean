import CommonsC.Base.BitParser
import CommonsC.Base.Emulation

/-!
# CommonsC.SpsParser.Bitstream

The bit reader of `media/sps-parser/sps_parser.c`, and what it reads.

The reader removes emulation prevention bytes as it goes: its per-bit loop
moves `offset` while it indexes with `offset + i`, and carries a count of zero
bytes from call to call.  `readBits_eq` and `skipBits_eq` reduce every call to
taking single bits (`nextBit`), and `yields_unescape` shows which bits these
are: those of the unescaped bytes.

The data is a function from indices to bytes: the code is given a pointer
without a length.  `offset` and `consecutive_zeroes` are `uint32_t` and wrap.
-/

namespace CommonsC.SpsParser

open Bits Parser Emulation

/-! ## The reader -/

/-- `bitstream_t`. -/
structure Bitstream where
  data : Nat → UInt8
  offset : UInt32
  consecutive_zeroes : UInt32

/-- `bitstream_init`. -/
def bitstreamInit (data : Nat → UInt8) : Bitstream := ⟨data, 0, 0⟩

/-- At the first bit of a byte: count zeros, and step over an emulation
prevention byte. -/
def Bitstream.enterByte (buf : Bitstream) (i : UInt32) : Bitstream :=
  let b := buf.data ((buf.offset + i) / 8).toNat
  if b = 0 then { buf with consecutive_zeroes := buf.consecutive_zeroes + 1 }
  else if b = 0x03 ∧ buf.consecutive_zeroes = 2 then
    let offset := buf.offset + 8
    { buf with
      offset
      consecutive_zeroes := if buf.data ((offset + i) / 8).toNat = 0 then 1 else 0 }
  else { buf with consecutive_zeroes := 0 }

/-- The body of the loop of `bitstream_read_bits`: the bit at `offset + i`. -/
def Bitstream.readBit (buf : Bitstream) (i : UInt32) : Nat × Bitstream :=
  let buf := if (buf.offset + i) % 8 = 0 then buf.enterByte i else buf
  let cur_offset := buf.offset + i
  let bit_offset := 7 - cur_offset % 8
  ((buf.data (cur_offset / 8).toNat).toNat >>> bit_offset.toNat &&& 1, buf)

/-- The loop of `bitstream_read_bits`, with `n` rounds to go from `i` on. -/
def readLoop (size : Nat) : (n i result : Nat) → Bitstream → Nat × Bitstream
  | 0, _, result, buf => (result, buf)
  | n + 1, i, result, buf =>
      let (bit, buf) := buf.readBit (.ofNat i)
      readLoop size n (i + 1) (result ||| bit <<< (size - i - 1)) buf

/-- `buf->offset += size`. -/
def Bitstream.shift (buf : Bitstream) (size : UInt32) : Bitstream :=
  { buf with offset := buf.offset + size }

/-- `bitstream_read_bits`. -/
def bitstreamReadBits (size : Nat) : Parser Bitstream Nat := fun _ buf =>
  if 32 < size then some (none, buf)
  else
    let (result, buf) := readLoop size size 0 0 buf
    some (some result, buf.shift (.ofNat size))

/-- What is undefined has no result, whatever the fuel. -/
def undefinedBehaviour {α : Type} : Parser Bitstream α := fun _ _ => none

/-- The loop of `bitstream_skip_bits`, with at most `n` rounds to go from `i`
on.  `i` is an `int`. -/
def skipLoop (size : Nat) : (n i : Nat) → Parser Bitstream Unit
  | 0, _ => pure ()
  | n + 1, i =>
      if i < size then do
        let _ ← bitstreamReadBits (if size - i < 16 then size - i else 16)
        if i + 16 < 2 ^ 31 then skipLoop size n (i + 16) else undefinedBehaviour
      else pure ()

/-- `bitstream_skip_bits`. -/
def bitstreamSkipBits (size : Nat) : Parser Bitstream Unit := skipLoop size size 0

/-- `bitstream_read8`. -/
def bitstreamRead8 : Parser Bitstream Nat := bitstreamReadBits 8

/-- `bitstream_read1`. -/
def bitstreamRead1 : Parser Bitstream Bool := do
  let tmp ← bitstreamReadBits 1
  pure (tmp != 0)

/-! ## One bit at a time -/

/-- What `bitstream_read_bits` does for a single bit. -/
def nextBit (buf : Bitstream) : Bool × Bitstream :=
  let (bit, buf) := buf.readBit 0
  (bit == 1, buf.shift 1)

theorem shift_zero (buf : Bitstream) : buf.shift 0 = buf := by
  simp [Bitstream.shift]

theorem shift_add (buf : Bitstream) (i j : UInt32) :
    (buf.shift i).shift j = buf.shift (i + j) := by
  simp [Bitstream.shift, UInt32.add_assoc]

theorem enterByte_shift (buf : Bitstream) (i : UInt32) :
    (buf.shift i).enterByte 0 = (buf.enterByte i).shift i := by
  have hcomm : buf.offset + i + 8 = buf.offset + 8 + i := by
    rw [UInt32.add_assoc, UInt32.add_comm i 8, ← UInt32.add_assoc]
  unfold Bitstream.enterByte Bitstream.shift
  simp only [UInt32.add_zero, hcomm]
  split
  · rfl
  · split <;> rfl

/-- The index of the loop may as well be added to the offset beforehand. -/
theorem readBit_shift (buf : Bitstream) (i : UInt32) :
    (buf.shift i).readBit 0 = ((buf.readBit i).1, (buf.readBit i).2.shift i) := by
  have hoffset : (buf.shift i).offset = buf.offset + i := rfl
  unfold Bitstream.readBit
  simp only [UInt32.add_zero, hoffset, enterByte_shift]
  split <;> rfl

/-- A bit is 0 or 1. -/
theorem readBit_eq (buf : Bitstream) (i : UInt32) :
    (buf.readBit i).1 = ((buf.readBit i).1 == 1).toNat := by
  have : ∀ x : Nat, x &&& 1 = ((x &&& 1) == 1).toNat := fun x => by
    have h : x % 2 = 0 ∨ x % 2 = 1 := by omega
    rw [Nat.and_one_is_mod]
    rcases h with h | h <;> rw [h] <;> rfl
  exact this _

/-- The bit of one round, taken on its own. -/
theorem nextBit_shift (buf : Bitstream) (i : Nat) :
    nextBit (buf.shift (.ofNat i)) =
      ((buf.readBit (.ofNat i)).1 == 1, (buf.readBit (.ofNat i)).2.shift (.ofNat (i + 1))) := by
  rw [nextBit, readBit_shift]
  simp only [shift_add, UInt32.ofNat_add]
  rfl

/-- The loop takes the next `n` bits and puts them below the result so far. -/
theorem readLoop_eq (n i result : Nat) (buf : Bitstream) :
    (readLoop (i + n) n i result buf).1 =
        result ||| toNat (peek nextBit n (buf.shift (.ofNat i))) ∧
      (readLoop (i + n) n i result buf).2.shift (.ofNat (i + n)) =
        advance nextBit n (buf.shift (.ofNat i)) := by
  induction n generalizing i result buf with
  | zero => simp [readLoop, peek, advance]
  | succ n ih =>
      have hsize : i + (n + 1) = i + 1 + n := by omega
      have hshift : i + 1 + n - i - 1 = n := by omega
      obtain ⟨hres, hbuf⟩ := ih (i + 1) (result ||| (buf.readBit (.ofNat i)).1 <<< n)
        (buf.readBit (.ofNat i)).2
      have hlt := toNat_lt (peek nextBit n ((buf.readBit (.ofNat i)).2.shift (.ofNat (i + 1))))
      rw [length_peek] at hlt
      rw [hsize, readLoop, hshift, peek, advance, nextBit_shift, toNat_cons, length_peek]
      refine ⟨?_, hbuf⟩
      rw [hres, Nat.or_assoc, ← readBit_eq, ← Nat.shiftLeft_eq, Nat.shiftLeft_add_eq_or_of_lt hlt]

/-- Reading up to 32 bits takes them one by one. -/
theorem readBits_eq {size : Nat} (h : size ≤ 32) (fuel : Nat) (buf : Bitstream) :
    bitstreamReadBits size fuel buf =
      some (some (toNat (peek nextBit size buf)), advance nextBit size buf) := by
  obtain ⟨hres, hbuf⟩ := readLoop_eq size 0 0 buf
  have hzero : UInt32.ofNat 0 = 0 := rfl
  rw [Nat.zero_add, Nat.zero_or, hzero, shift_zero] at hres
  rw [Nat.zero_add, hzero, shift_zero] at hbuf
  rw [bitstreamReadBits, if_neg (Nat.not_lt_of_le h)]
  simp only [hres, hbuf]

/-- The longest skip, with which `i` ends as the last multiple of 16 that is an
`int`. -/
def longestSkip : Nat := 2 ^ 31 - 16

/-- Skipping takes single bits too, and never fails; but it comes to no end if `i`
would have to go further than an `int` can. -/
theorem skipLoop_eq (size n i : Nat) (h : size ≤ i + n) (hi : i ≤ longestSkip) (hi16 : i % 16 = 0)
    (fuel : Nat) (buf : Bitstream) :
    skipLoop size n i fuel buf =
      if size ≤ longestSkip then some (some (), advance nextBit (size - i) buf) else none := by
  rw [longestSkip] at hi ⊢
  induction n generalizing i buf with
  | zero =>
      have hdone : size - i = 0 := by omega
      rw [skipLoop, pure_run, hdone, advance, if_pos (by omega)]
  | succ n ih =>
      rw [skipLoop]
      split
      · next hlt =>
          have hchunk : (if size - i < 16 then size - i else 16) ≤ 32 := by split <;> omega
          rw [bind_run (readBits_eq hchunk fuel buf)]
          by_cases hint : i + 16 < 2 ^ 31
          · rw [if_pos hint, ih (i + 16) (by omega) (by omega) (by omega), ← advance_add]
            congr 4
            split <;> omega
          · rw [if_neg hint, if_neg (show ¬size ≤ 2 ^ 31 - 16 by omega)]
            rfl
      · next hge =>
          have hdone : size - i = 0 := by omega
          rw [pure_run, hdone, advance, if_pos (by omega)]

theorem skipBits_eq {size : Nat} (h : size ≤ longestSkip) (fuel : Nat) (buf : Bitstream) :
    bitstreamSkipBits size fuel buf = some (some (), advance nextBit size buf) := by
  rw [bitstreamSkipBits, skipLoop_eq size size 0 (by omega) (Nat.zero_le _) rfl, if_pos h,
    Nat.sub_zero]

theorem skipBits_overflow {size : Nat} (h : longestSkip < size) (fuel : Nat) (buf : Bitstream) :
    bitstreamSkipBits size fuel buf = none := by
  rw [bitstreamSkipBits, skipLoop_eq size size 0 (by omega) (Nat.zero_le _) rfl,
    if_neg (Nat.not_le.2 h)]

/-- A bit moves the offset on, over at most one emulation prevention byte. -/
theorem nextBit_offset (buf : Bitstream) :
    (nextBit buf).2.offset = buf.offset + 1 ∨ (nextBit buf).2.offset = buf.offset + 9 := by
  have henter : (buf.enterByte 0).offset = buf.offset ∨
      (buf.enterByte 0).offset = buf.offset + 8 := by
    unfold Bitstream.enterByte
    simp only
    split
    · exact .inl rfl
    · split
      · exact .inr rfl
      · exact .inl rfl
  have hnine : buf.offset + 9 = buf.offset + 8 + 1 := by rw [UInt32.add_assoc]; rfl
  unfold nextBit Bitstream.readBit Bitstream.shift
  simp only
  split
  · rw [hnine]
    exact henter.imp (fun h => by rw [h]) fun h => by rw [h]
  · exact .inl rfl

theorem advance_offset (n : Nat) (buf : Bitstream) (h : buf.offset.toNat + 9 * n < 2 ^ 32) :
    buf.offset.toNat + n ≤ (advance nextBit n buf).offset.toNat ∧
      (advance nextBit n buf).offset.toNat ≤ buf.offset.toNat + 9 * n := by
  induction n generalizing buf with
  | zero => exact ⟨Nat.le_refl _, Nat.le_refl _⟩
  | succ n ih =>
      have hstep : buf.offset.toNat + 1 ≤ (nextBit buf).2.offset.toNat ∧
          (nextBit buf).2.offset.toNat ≤ buf.offset.toNat + 9 := by
        rcases nextBit_offset buf with h | h <;> rw [h, UInt32.toNat_add, Nat.mod_eq_of_lt] <;>
          simp <;> omega
      have := ih (nextBit buf).2 (by omega)
      rw [advance]
      omega

/-- The position tells how many bits were taken. -/
theorem advance_inj {data : Nat → UInt8} {m n : Nat} (hm : m ≤ 2 ^ 28) (hn : n ≤ 2 ^ 28)
    (h : advance nextBit m (bitstreamInit data) = advance nextBit n (bitstreamInit data)) :
    m = n := by
  have hinit : (bitstreamInit data).offset.toNat = 0 := rfl
  have hlt : ∀ {k l : Nat}, l ≤ 2 ^ 28 → k < l →
      (advance nextBit k (bitstreamInit data)).offset.toNat <
        (advance nextBit l (bitstreamInit data)).offset.toNat := by
    intro k l hl hkl
    have hsplit : l = k + (l - k) := by omega
    have hk := advance_offset k (bitstreamInit data) (by omega)
    have hl := advance_offset (l - k) (advance nextBit k (bitstreamInit data)) (by omega)
    rw [hsplit, advance_add]
    omega
  rcases Nat.lt_trichotomy m n with hmn | hmn | hmn
  · have := hlt hn hmn
    rw [h] at this
    omega
  · exact hmn
  · have := hlt hm hmn
    rw [h] at this
    omega

/-! ## The bits of the unescaped bytes -/

/-- The reader at bit `k` of the data, after `zeros` zero bytes in a row. -/
def readerAt (data : Nat → UInt8) (k zeros : Nat) : Bitstream := ⟨data, .ofNat k, .ofNat zeros⟩

theorem toNat_offset {k : Nat} (h : k < 2 ^ 32) : (UInt32.ofNat k).toNat = k :=
  UInt32.toNat_ofNat_of_lt' h

/-- Entering a byte that is not an emulation prevention byte counts its zeros. -/
theorem enterByte_readerAt {data : Nat → UInt8} {i zeros : Nat} (hi : 8 * i < 2 ^ 32)
    (hz : zeros ≤ 2) (hkeep : ¬(data i = 3 ∧ 2 ≤ zeros)) :
    (readerAt data (8 * i) zeros).enterByte 0 =
      readerAt data (8 * i) (zerosAfter zeros (data i)) := by
  have hindex : ((UInt32.ofNat (8 * i) + 0) / 8).toNat = i := by
    rw [UInt32.add_zero, UInt32.toNat_div, toNat_offset hi]
    exact Nat.mul_div_cancel_left i (by decide)
  have htwo : UInt32.ofNat zeros = 2 ↔ zeros = 2 := by
    rw [← UInt32.toNat_inj, toNat_offset (by omega)]
    rfl
  unfold Bitstream.enterByte readerAt zerosAfter
  simp only [hindex]
  by_cases hb : data i = 0
  · rw [if_pos hb, if_pos hb, UInt32.ofNat_add]
    rfl
  · have hskip : ¬(data i = 3 ∧ UInt32.ofNat zeros = 2) := fun h =>
      hkeep ⟨h.1, by rw [htwo.1 h.2]⟩
    rw [if_neg hb, if_neg hskip, if_neg hb]
    rfl

/-- The bit that `readBit` takes out of the byte it is in. -/
theorem bit_readerAt (data : Nat → UInt8) {k : Nat} (hk : k < 2 ^ 32) :
    ((data ((UInt32.ofNat k + 0) / 8).toNat).toNat >>>
        (7 - (UInt32.ofNat k + 0) % 8).toNat &&& 1 == 1) =
      (data (k / 8)).toNat.testBit (7 - k % 8) := by
  have hdiv : ((UInt32.ofNat k + 0) / 8).toNat = k / 8 := by
    rw [UInt32.add_zero, UInt32.toNat_div, toNat_offset hk]
    rfl
  have hmod : ((UInt32.ofNat k + 0) % 8).toNat = k % 8 := by
    rw [UInt32.add_zero, UInt32.toNat_mod, toNat_offset hk]
    rfl
  have hle : (UInt32.ofNat k + 0) % 8 ≤ 7 := by
    rw [UInt32.le_iff_toNat_le, hmod]
    exact Nat.le_of_lt_succ (Nat.mod_lt k (by decide))
  have hsub : (7 - (UInt32.ofNat k + 0) % 8).toNat = 7 - k % 8 := by
    rw [UInt32.toNat_sub_of_le _ _ hle, hmod]
    rfl
  rw [hdiv, hsub, Nat.testBit_eq_decide_div_mod_eq, Nat.shiftRight_eq_div_pow, Nat.and_one_is_mod]
  rfl

theorem shift_readerAt (data : Nat → UInt8) (k zeros : Nat) :
    (readerAt data k zeros).shift 1 = readerAt data (k + 1) zeros := by
  simp [Bitstream.shift, readerAt, UInt32.ofNat_add]

/-- A bit inside a byte. -/
theorem nextBit_inside (data : Nat → UInt8) {k : Nat} (zeros : Nat) (hk : k < 2 ^ 32)
    (hin : k % 8 ≠ 0) :
    nextBit (readerAt data k zeros) =
      ((data (k / 8)).toNat.testBit (7 - k % 8), readerAt data (k + 1) zeros) := by
  have hmod : ¬((readerAt data k zeros).offset + 0) % 8 = 0 := by
    rw [← UInt32.toNat_inj, UInt32.toNat_mod, UInt32.add_zero]
    unfold readerAt
    rw [toNat_offset hk]
    exact hin
  rw [nextBit, Bitstream.readBit, if_neg hmod]
  simp only [shift_readerAt, Prod.mk.injEq, and_true]
  exact bit_readerAt data hk

/-- At the first bit of a byte the reader enters the byte, and takes the bit
from where that leaves it. -/
theorem nextBit_aligned (data : Nat → UInt8) {i : Nat} (zeros : Nat) {j zeros' : Nat}
    (hi : 8 * i < 2 ^ 32) (hj : 8 * j < 2 ^ 32)
    (henter : (readerAt data (8 * i) zeros).enterByte 0 = readerAt data (8 * j) zeros') :
    nextBit (readerAt data (8 * i) zeros) =
      ((data j).toNat.testBit 7, readerAt data (8 * j + 1) zeros') := by
  have hmod : ((readerAt data (8 * i) zeros).offset + 0) % 8 = 0 := by
    rw [← UInt32.toNat_inj, UInt32.toNat_mod, UInt32.add_zero]
    unfold readerAt
    rw [toNat_offset hi]
    exact Nat.mul_mod_right 8 i
  rw [nextBit, Bitstream.readBit, if_pos hmod, henter]
  simp only [shift_readerAt, Prod.mk.injEq, and_true]
  have hbit := bit_readerAt data hj
  rwa [Nat.mul_div_cancel_left j (by decide), Nat.mul_mod_right] at hbit

/-- The first bit of a byte that is not an emulation prevention byte. -/
theorem nextBit_first {data : Nat → UInt8} {i zeros : Nat} (hi : 8 * i < 2 ^ 32) (hz : zeros ≤ 2)
    (hkeep : ¬(data i = 3 ∧ 2 ≤ zeros)) :
    nextBit (readerAt data (8 * i) zeros) =
      ((data i).toNat.testBit 7, readerAt data (8 * i + 1) (zerosAfter zeros (data i))) :=
  nextBit_aligned data zeros hi hi (enterByte_readerAt hi hz hkeep)

/-- At an emulation prevention byte the reader is where it would be after it. -/
theorem nextBit_emulation {data : Nat → UInt8} {i : Nat} (hi : 8 * (i + 1) < 2 ^ 32)
    (hb : data i = 3) :
    nextBit (readerAt data (8 * i) 2) = nextBit (readerAt data (8 * (i + 1)) 0) := by
  have hlt : 8 * i < 2 ^ 32 := by omega
  have hindex : ((UInt32.ofNat (8 * i) + 0) / 8).toNat = i := by
    rw [UInt32.add_zero, UInt32.toNat_div, toNat_offset hlt]
    exact Nat.mul_div_cancel_left i (by decide)
  have hoffset : UInt32.ofNat (8 * i) + 8 = UInt32.ofNat (8 * (i + 1)) := by
    rw [Nat.mul_add, UInt32.ofNat_add]
    rfl
  have hindex' : ((UInt32.ofNat (8 * (i + 1)) + 0) / 8).toNat = i + 1 := by
    rw [UInt32.add_zero, UInt32.toNat_div, toNat_offset hi]
    exact Nat.mul_div_cancel_left (i + 1) (by decide)
  have henter : (readerAt data (8 * i) 2).enterByte 0 =
      readerAt data (8 * (i + 1)) (zerosAfter 0 (data (i + 1))) := by
    unfold Bitstream.enterByte readerAt zerosAfter
    simp only [hindex, hb]
    rw [if_neg (by decide), if_pos ⟨trivial, rfl⟩, hoffset, hindex']
    split <;> rfl
  rw [nextBit_aligned data 2 hlt hi henter, nextBit_first hi (Nat.zero_le 2) (by simp)]

/-- The last `m` bits of a byte. -/
theorem peek_inside (data : Nat → UInt8) {i m : Nat} (zeros : Nat) (hm : m ≤ 7)
    (hi : 8 * (i + 1) ≤ 2 ^ 32) :
    peek nextBit m (readerAt data (8 * i + (8 - m)) zeros) = Bits.ofNat m (data i).toNat ∧
      advance nextBit m (readerAt data (8 * i + (8 - m)) zeros) =
        readerAt data (8 * (i + 1)) zeros := by
  induction m with
  | zero => exact ⟨rfl, rfl⟩
  | succ m ih =>
      have hdiv : (8 * i + (8 - (m + 1))) / 8 = i := by omega
      have hmod : 7 - (8 * i + (8 - (m + 1))) % 8 = m := by omega
      have hnext : 8 * i + (8 - (m + 1)) + 1 = 8 * i + (8 - m) := by omega
      obtain ⟨hpeek, hadv⟩ := ih (by omega)
      rw [peek, advance, nextBit_inside data zeros (by omega) (by omega), hdiv, hmod, hnext]
      exact ⟨by rw [hpeek, Bits.ofNat], hadv⟩

/-- The bits of a byte that is not an emulation prevention byte. -/
theorem peek_byte {data : Nat → UInt8} {i zeros : Nat} (hi : 8 * (i + 1) ≤ 2 ^ 32)
    (hz : zeros ≤ 2) (hkeep : ¬(data i = 3 ∧ 2 ≤ zeros)) :
    peek nextBit 8 (readerAt data (8 * i) zeros) = ofByte (data i) ∧
      advance nextBit 8 (readerAt data (8 * i) zeros) =
        readerAt data (8 * (i + 1)) (zerosAfter zeros (data i)) := by
  obtain ⟨hpeek, hadv⟩ := peek_inside data (zerosAfter zeros (data i)) (Nat.le_refl 7) hi
  rw [peek, advance, nextBit_first (by omega) hz hkeep]
  exact ⟨by rw [hpeek]; rfl, hadv⟩

/-- The `n` bytes of the data from index `i` on. -/
def rawBytes (data : Nat → UInt8) : (i n : Nat) → List UInt8
  | _, 0 => []
  | i, n + 1 => data i :: rawBytes data (i + 1) n

@[simp] theorem length_rawBytes (data : Nat → UInt8) (i n : Nat) :
    (rawBytes data i n).length = n := by
  induction n generalizing i with
  | zero => rfl
  | succ n ih => rw [rawBytes, List.length_cons, ih]

/-- **The reader yields the unescaped bytes**, whatever part of the data it is
at, as long as no three zero bytes stand in a row. -/
theorem yields_unescape (data : Nat → UInt8) {i n zeros : Nat} (hn : 8 * (i + n) ≤ 2 ^ 32)
    (hshort : Short zeros (rawBytes data i n)) :
    Yields nextBit (readerAt data (8 * i) zeros)
      (ofBytes (unescape zeros (rawBytes data i n))) := by
  induction n generalizing i zeros with
  | zero => exact yields_nil nextBit _
  | succ n ih =>
      have hrest := ih (by omega) hshort.2
      have hz := hshort.zeros_le
      rw [rawBytes, unescape]
      by_cases hemu : data i = 3 ∧ 2 ≤ zeros
      · have htwo : zeros = 2 := by omega
        have hafter : zerosAfter zeros (data i) = 0 := by rw [hemu.1]; rfl
        rw [hafter] at hrest
        rw [if_pos hemu, htwo]
        cases hbits : ofBytes (unescape 0 (rawBytes data (i + 1) n)) with
        | nil => exact yields_nil nextBit _
        | cons b bits =>
            have hpos : n ≠ 0 := fun h => by rw [h] at hbits; cases hbits
            rw [hbits, yields_cons] at hrest
            rw [yields_cons, nextBit_emulation (by omega) hemu.1]
            exact hrest
      · obtain ⟨hpeek, hadv⟩ := peek_byte (by omega) hz hemu
        rw [if_neg hemu, ofBytes_cons, yields_append, length_ofByte, hadv]
        exact ⟨by rw [Yields, length_ofByte, hpeek], hrest⟩

theorem rawBytes_append (data : Nat → UInt8) (i m n : Nat) :
    rawBytes data i (m + n) = rawBytes data i m ++ rawBytes data (i + m) n := by
  induction m generalizing i with
  | zero => rw [Nat.zero_add, rawBytes, List.nil_append, Nat.add_zero]
  | succ m ih =>
      rw [Nat.add_right_comm, rawBytes, rawBytes, ih, List.cons_append, Nat.add_assoc,
        Nat.add_comm 1 m]

/-- Data given by its first bytes, with zeros after them. -/
def dataOf (bytes : List UInt8) : Nat → UInt8 := fun i => bytes.getD i 0

theorem rawBytes_dataOf (bytes : List UInt8) : rawBytes (dataOf bytes) 0 bytes.length = bytes := by
  have hfrom : ∀ (pre post : List UInt8),
      rawBytes (dataOf (pre ++ post)) pre.length post.length = post := by
    intro pre post
    induction post generalizing pre with
    | nil => rfl
    | cons b post ih =>
        have hhead : dataOf (pre ++ b :: post) pre.length = b := by simp [dataOf]
        have htail := ih (pre ++ [b])
        rw [List.append_assoc, List.singleton_append, List.length_append,
          List.length_singleton] at htail
        rw [List.length_cons, rawBytes, hhead, htail]
  exact hfrom [] bytes

/-- **An escaped payload is read back**: on data that starts with escaped bytes
and goes on in any way, the reader yields the bits of the bytes.  The bits asked
for may be any part at the beginning of them, but not reach past the 2^32 bits
of raw data that `offset` can count. -/
theorem yields_escape {data : Nat → UInt8} {bytes : List UInt8}
    (hdata : rawBytes data 0 (escape 0 bytes).length = escape 0 bytes) {bits rest : List Bool}
    (hbytes : ofBytes bytes = bits ++ rest) (hlen : bits.length ≤ 2 ^ 28) :
    Yields nextBit (bitstreamInit data) bits := by
  -- The whole bytes that hold the bits, and their escaped form.
  let k := (bits.length + 7) / 8
  obtain ⟨tail, htail⟩ := escape_append 0 (bytes.take k) (bytes.drop k)
  rw [List.take_append_drop] at htail
  have hraw : rawBytes data 0 (escape 0 (bytes.take k)).length = escape 0 (bytes.take k) := by
    rw [htail, List.length_append, rawBytes_append] at hdata
    exact (List.append_inj hdata (length_rawBytes data 0 _)).1
  have hk : (bytes.take k).length ≤ k := List.length_take_le k bytes
  have hesc := length_escape_le 0 (bytes.take k)
  have hshort : Short 0 (rawBytes data 0 (escape 0 (bytes.take k)).length) := by
    rw [hraw]
    exact short_escape (Nat.zero_le 2) _
  have hbound : 8 * (0 + (escape 0 (bytes.take k)).length) ≤ 2 ^ 32 := by omega
  have hyields := yields_unescape data hbound hshort
  rw [hraw, unescape_escape] at hyields
  -- The bits are at the beginning of those of the bytes.
  have hbits : bits <+: ofBytes (bytes.take k) := by
    have hall : ofBytes (bytes.take k) ++ ofBytes (bytes.drop k) = bits ++ rest := by
      rw [← ofBytes_append, List.take_append_drop, hbytes]
    have htotal : bits.length ≤ 8 * bytes.length := by
      have := congrArg List.length hbytes
      rw [length_ofBytes, List.length_append] at this
      omega
    refine List.prefix_of_prefix_length_le ⟨rest, rfl⟩ ⟨_, hall⟩ ?_
    rw [length_ofBytes, List.length_take]
    omega
  obtain ⟨more, hmore⟩ := hbits
  rw [← hmore, yields_append] at hyields
  exact hyields.1

end CommonsC.SpsParser
