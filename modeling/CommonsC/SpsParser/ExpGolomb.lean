import CommonsC.SpsParser.Bitstream

/-!
# CommonsC.SpsParser.ExpGolomb

The Exp-Golomb readers of `sps_parser.c`, `bitstream_read_ueg` and
`bitstream_read_eg`, and the statement that every reader function makes of the
bits it is given (`Reads`): fixed widths, flags, and the codes `ue(v)` and
`se(v)`.
-/

namespace CommonsC.SpsParser

open Bits Parser

/-! ## The readers -/

/-- The values that C leaves open: of variables that a failed read did not
assign, of `1 << 32`, and of what lies past the end of a table. -/
structure Indeterminate where
  pic_order_cnt_type : Nat
  num_ref_frames_in_pic_order_cnt_cycle : Nat
  /-- `cpb_cnt_minus1` in the call for the NAL HRD parameters. -/
  nal_cpb_cnt_minus1 : Nat
  /-- `cpb_cnt_minus1` in the call for the VCL HRD parameters. -/
  vcl_cpb_cnt_minus1 : Nat
  one_shl_32 : Nat
  /-- Past the end of `subwc` and of `subhc` in `sps_parse_dimension_hevc`. -/
  past_subwc : Nat → Nat
  past_subhc : Nat → Nat

/-- One way to fill what C leaves open. -/
def Indeterminate.zeros : Indeterminate := ⟨0, 0, 0, 0, 0, fun _ => 0, fun _ => 0⟩

/-- The `for (;;)` of `bitstream_read_ueg`: count the zeros before a one. -/
def uegLoop : (fuel bitcount : Nat) → Bitstream → Option (Option Nat × Bitstream)
  | 0, _, _ => none
  | fuel + 1, bitcount, buf =>
      let body : Parser Bitstream Nat := do
        let tmp ← bitstreamReadBits 1
        if tmp = 0 then fun _ => uegLoop fuel ((bitcount + 1) % 2 ^ 32) else pure bitcount
      body fuel buf

/-- `1 << bitcount`, of which only the value modulo 2^32 matters.  `(1 << 31) - 1`
overflows `int`; it is taken modulo 2^32 here, as compilers compute it. -/
def Indeterminate.shl (u : Indeterminate) (bitcount : Nat) : Nat :=
  if bitcount < 32 then 1 <<< bitcount else u.one_shl_32

/-- `bitstream_read_ueg`. -/
def bitstreamReadUeg (u : Indeterminate) : Parser Bitstream Nat := do
  let bitcount ← fun fuel => uegLoop fuel 0
  if bitcount ≠ 0 then do
    let tmp ← bitstreamReadBits bitcount
    -- `(1 << bitcount) - 1 + tmp`
    pure ((u.shl bitcount + (2 ^ 32 - 1) + tmp) % 2 ^ 32)
  else pure 0

/-- The conversion to `int32_t`. -/
def toInt32 (x : Int) : Int := x.bmod (2 ^ 32)

/-- `bitstream_read_eg`; the cast binds tighter than the division. -/
def bitstreamReadEg (u : Indeterminate) : Parser Bitstream Int := do
  let tmp ← bitstreamReadUeg u
  if tmp &&& 0x01 ≠ 0 then pure ((toInt32 (tmp + 1)).tdiv 2) else pure (toInt32 (-(tmp / 2 : Nat)))

/-! ## What the readers read -/

/-- On every source that starts with `bits`, the function returns `a` and
consumes exactly these bits.  No code that succeeds has more than 31 zeros, so
32 rounds of each loop are enough. -/
abbrev Reads {α : Type} (p : Parser Bitstream α) (bits : List Bool) (a : α) : Prop :=
  Parses nextBit 32 p bits a

theorem reads_bits {bits : List Bool} {size : Nat} (hlen : bits.length = size) (h : size ≤ 32) :
    Reads (bitstreamReadBits size) bits (toNat bits) := by
  intro fuel s hs
  rw [Yields, hlen] at hs
  rw [readBits_eq h, hs, hlen]
  exact .inl rfl

/-- A field `u(n)`. -/
theorem reads_ofNat {size v : Nat} (h : size ≤ 32) (hv : v < 2 ^ size) :
    Reads (bitstreamReadBits size) (Bits.ofNat size v) v := by
  have := reads_bits (length_ofNat size v) h
  rwa [toNat_ofNat hv] at this

theorem reads_skip {bits : List Bool} {size : Nat} (hlen : bits.length = size)
    (h : size ≤ longestSkip) : Reads (bitstreamSkipBits size) bits () := by
  intro fuel s _
  rw [skipBits_eq h, hlen]
  exact .inl rfl

theorem reads_bit (b : Bool) : Reads (bitstreamReadBits 1) [b] b.toNat := by
  have hread : Reads (bitstreamReadBits 1) [b] (toNat [b]) := reads_bits rfl (by decide)
  cases b <;> exact hread

/-- A flag. -/
theorem reads_flag (b : Bool) : Reads bitstreamRead1 [b] b :=
  (reads_bit b).bind_pure (by cases b <;> rfl)

/-- The loop goes on after a zero. -/
theorem uegLoop_false {s : Bitstream} (h : (nextBit s).1 = false) (fuel bitcount : Nat) :
    uegLoop (fuel + 1) bitcount s = uegLoop fuel ((bitcount + 1) % 2 ^ 32) (nextBit s).2 := by
  have hread : bitstreamReadBits 1 fuel s = some (some 0, (nextBit s).2) := by
    rw [readBits_eq (by decide), peek, h]
    rfl
  rw [uegLoop, bind_run hread]
  rfl

theorem uegLoop_zero {s : Bitstream} (h : (nextBit s).1 = false) (fuel : Nat) {bitcount : Nat}
    (hcount : bitcount + 1 < 2 ^ 32) :
    uegLoop (fuel + 1) bitcount s = uegLoop fuel (bitcount + 1) (nextBit s).2 := by
  rw [uegLoop_false h, Nat.mod_eq_of_lt hcount]

/-- The loop ends at a one. -/
theorem uegLoop_one {s : Bitstream} (h : (nextBit s).1 = true) (fuel bitcount : Nat) :
    uegLoop (fuel + 1) bitcount s = some (some bitcount, (nextBit s).2) := by
  have hread : bitstreamReadBits 1 fuel s = some (some 1, (nextBit s).2) := by
    rw [readBits_eq (by decide), peek, h]
    rfl
  rw [uegLoop, bind_run hread]
  rfl

/-- The zeros of a code and the one after them. -/
theorem uegLoop_eq {k bitcount : Nat} (hk : bitcount + k < 2 ^ 32) (fuel : Nat) {s : Bitstream}
    {rest : List Bool} (hs : Yields nextBit s (List.replicate k false ++ true :: rest)) :
    (k < fuel → uegLoop fuel bitcount s =
      some (some (bitcount + k), advance nextBit (k + 1) s)) ∧
    (fuel ≤ k → uegLoop fuel bitcount s = none) := by
  induction k generalizing bitcount fuel s with
  | zero =>
      cases fuel with
      | zero => exact ⟨fun h => absurd h (Nat.lt_irrefl 0), fun _ => rfl⟩
      | succ fuel =>
          have hone : (nextBit s).1 = true := ((yields_cons nextBit s true rest).1 hs).1
          rw [uegLoop_one hone]
          exact ⟨fun _ => rfl, fun h => absurd h (Nat.not_succ_le_zero fuel)⟩
  | succ k ih =>
      cases fuel with
      | zero => exact ⟨fun h => absurd h (Nat.not_lt_zero _), fun _ => rfl⟩
      | succ fuel =>
          rw [List.replicate_succ, List.cons_append, yields_cons] at hs
          have hcount : bitcount + 1 + k < 2 ^ 32 := by omega
          obtain ⟨hin, hout⟩ := ih hcount fuel hs.2
          rw [uegLoop_zero hs.1 fuel (by omega), advance]
          refine ⟨fun h => ?_, fun h => hout (by omega)⟩
          rw [hin (by omega), Nat.add_assoc, Nat.add_comm 1 k]

/-- **`ue(v)`** is read exactly. -/
theorem reads_ue (u : Indeterminate) {v : Nat} (hv : v < 2 ^ 32 - 1) :
    Reads (bitstreamReadUeg u) (ue v) v := by
  have hk : Nat.log 2 (v + 1) < 32 := Nat.log_lt_of_lt_pow (by omega) (by omega)
  have hlow : 2 ^ Nat.log 2 (v + 1) ≤ v + 1 := Nat.pow_log_le_self 2 (Nat.succ_ne_zero v)
  have hhigh : v + 1 < 2 ^ (Nat.log 2 (v + 1) + 1) := Nat.lt_pow_succ_log_self (by decide) _
  have hue := ue_eq v
  generalize Nat.log 2 (v + 1) = k at *
  have hzeros : Reads (fun fuel => uegLoop fuel 0) (List.replicate k false ++ [true]) k := by
    intro fuel s hs
    have hzero : 0 + k < 2 ^ 32 := by omega
    obtain ⟨hin, hout⟩ := uegLoop_eq hzero fuel hs
    rw [Nat.zero_add] at hin
    rw [List.length_append, List.length_replicate]
    by_cases h : k < fuel
    · exact .inl (hin h)
    · exact .inr ⟨by omega, hout (by omega)⟩
  rw [hue, ← List.singleton_append, ← List.append_assoc]
  refine hzeros.bind ?_
  by_cases hzero : k = 0
  · subst hzero
    obtain rfl : v = 0 := by omega
    exact Parses.pure 0
  · rw [if_pos hzero]
    refine (reads_bits (length_ofNat k (v + 1)) (by omega)).bind_pure ?_
    have hval : toNat (Bits.ofNat k (v + 1)) = v + 1 - 2 ^ k := by
      rw [toNat_ofNat_mod, Nat.mod_eq_sub_mod hlow, Nat.mod_eq_of_lt]
      rw [Nat.pow_succ] at hhigh
      omega
    have hpow : 2 ^ k ≤ 2 ^ 31 := Nat.pow_le_pow_right (by decide) (by omega)
    rw [hval, Indeterminate.shl, if_pos hk, Nat.one_shiftLeft]
    congr 1
    omega

/-- The value `bitstream_read_eg` makes of a code number. -/
def egValue (n : Nat) : Int :=
  if n &&& 0x01 ≠ 0 then (toInt32 (n + 1)).tdiv 2 else toInt32 (-(n / 2 : Nat))

/-- `se(v)` is passed over exactly. -/
theorem reads_se (u : Indeterminate) {s : Int} (hs : -2 ^ 31 < s ∧ s < 2 ^ 31) :
    Reads (bitstreamReadEg u) (se s) (egValue (seCodeNum s)) := by
  have hnum : seCodeNum s < 2 ^ 32 - 1 := by
    unfold seCodeNum
    split <;> omega
  refine (reads_ue u hnum).bind_pure ?_
  unfold egValue
  split <;> rfl

theorem toInt32_eq {x : Int} (h : -2 ^ 31 ≤ x ∧ x < 2 ^ 31) : toInt32 x = x := by
  unfold toInt32
  rw [Int.bmod_def]
  norm_num at h ⊢
  split <;> omega

/-- An odd code number: the cast may turn the sum negative before the division,
which is an error of 2^31. -/
theorem egValue_odd (n : Nat) : egValue (2 * n + 1) % 2 ^ 31 = (n + 1) % 2 ^ 31 := by
  have hodd : (2 * n + 1) &&& 0x01 ≠ 0 := by rw [Nat.and_one_is_mod]; omega
  have hcast : ∃ y : Int,
      toInt32 ((2 * n + 1 : Nat) + 1) = 2 * y ∧ y % 2 ^ 31 = (n + 1) % 2 ^ 31 := by
    unfold toInt32
    rw [Int.bmod_def]
    split
    · exact ⟨((2 * n + 1 : Nat) + 1) % 2 ^ 32 / 2, by omega, by omega⟩
    · exact ⟨(((2 * n + 1 : Nat) + 1) % 2 ^ 32 - 2 ^ 32) / 2, by omega, by omega⟩
  obtain ⟨y, hy, hmod⟩ := hcast
  rw [egValue, if_pos hodd, hy, Int.mul_tdiv_cancel_left y (by decide), hmod]

theorem egValue_even {n : Nat} (h : n < 2 ^ 31) : egValue (2 * n) = -n := by
  have heven : ¬(2 * n) &&& 0x01 ≠ 0 := by rw [Nat.and_one_is_mod]; omega
  rw [egValue, if_neg heven, Nat.mul_div_cancel_left n (by decide), toInt32_eq (by omega)]

/-- The value read for `se(v)` is right modulo 2^31. -/
theorem egValue_seCodeNum {s : Int} (hs : -2 ^ 31 < s ∧ s < 2 ^ 31) :
    egValue (seCodeNum s) % 2 ^ 31 = s % 2 ^ 31 := by
  unfold seCodeNum
  by_cases hpos : 0 < s
  · have hodd : (2 * s - 1).toNat = 2 * (s - 1).toNat + 1 := by omega
    rw [if_pos hpos, hodd, egValue_odd]
    congr 1
    omega
  · have heven : (-2 * s).toNat = 2 * (-s).toNat := by omega
    rw [if_neg hpos, heven, egValue_even (by omega)]
    congr 1
    omega

end CommonsC.SpsParser
