import CommonsC.Base.Traced
import CommonsC.SpsParser.ExpGolomb

/-!
# CommonsC.SpsParser.Codes

Which streams the Exp-Golomb readers take for a code, and how much of them they
consume.

* `readUeg_zeros`: `bitstream_read_ueg` on `k` zeros and a one, for every `k`;
* `uegExact_iff`: it is exact and bounded unless the zeros are 32, or more
  than 64;
* `readEg_exact`: `bitstream_read_eg` gives back the integers below 2^30.

What is consumed is told by the readers' log (`Traced`): the payload bits that
they take, one after the other.  The position in the data does not tell, since
`offset` wraps after 2^32 bits.
-/

namespace CommonsC.SpsParser

open Bits Parser Traced

/-! ## The bits that are taken -/

/-- `bitstream_read_bits`, with the bits it takes. -/
def readBitsTraced (size : Nat) : Traced Bool Bitstream Nat :=
  observe (bitstreamReadBits size) fun buf value =>
    if value.isSome then peek nextBit size buf else []

/-- The loop of `bitstream_read_ueg`, with the bits it takes. -/
def uegLoopTraced : (fuel bitcount : Nat) → Bitstream →
    List Bool × Option (Option Nat × Bitstream)
  | 0, _, _ => ([], none)
  | fuel + 1, bitcount, buf =>
      let body : Traced Bool Bitstream Nat := do
        let tmp ← readBitsTraced 1
        if tmp = 0 then fun _ => uegLoopTraced fuel ((bitcount + 1) % 2 ^ 32) else pure bitcount
      body fuel buf

/-- `bitstream_read_ueg`, with the bits it takes. -/
def readUegTraced (u : Indeterminate) : Traced Bool Bitstream Nat := do
  let bitcount ← fun fuel => uegLoopTraced fuel 0
  if bitcount ≠ 0 then do
    let tmp ← readBitsTraced bitcount
    pure ((u.shl bitcount + (2 ^ 32 - 1) + tmp) % 2 ^ 32)
  else pure 0

theorem readBitsTraced_eq {size : Nat} (h : size ≤ 32) (fuel : Nat) (buf : Bitstream) :
    readBitsTraced size fuel buf = (peek nextBit size buf,
      some (some (toNat (peek nextBit size buf)), advance nextBit size buf)) :=
  observe_run (readBits_eq h fuel buf) _

theorem readBitsTraced_fail {size : Nat} (h : 32 < size) (fuel : Nat) (buf : Bitstream) :
    readBitsTraced size fuel buf = ([], some (none, buf)) := by
  have hrun : bitstreamReadBits size fuel buf = some (none, buf) := by
    rw [bitstreamReadBits, if_pos h]
  exact observe_run hrun _

/-- One bit, and whether it was a zero. -/
theorem uegLoopTraced_succ (fuel bitcount : Nat) (buf : Bitstream) :
    uegLoopTraced (fuel + 1) bitcount buf =
      if (nextBit buf).1 then ([true], some (some bitcount, (nextBit buf).2))
      else (false :: (uegLoopTraced fuel ((bitcount + 1) % 2 ^ 32) (nextBit buf).2).1,
        (uegLoopTraced fuel ((bitcount + 1) % 2 ^ 32) (nextBit buf).2).2) := by
  by_cases hbit : (nextBit buf).1 = true
  · have hread : readBitsTraced 1 fuel buf = ([true], some (some 1, (nextBit buf).2)) := by
      rw [readBitsTraced_eq (by decide), peek, hbit]
      rfl
    rw [if_pos hbit, uegLoopTraced, bind_run (congrArg Prod.snd hread), hread]
    rfl
  · have hzero : (nextBit buf).1 = false := Bool.not_eq_true _ ▸ hbit
    have hread : readBitsTraced 1 fuel buf = ([false], some (some 0, (nextBit buf).2)) := by
      rw [readBitsTraced_eq (by decide), peek, hzero]
      rfl
    rw [if_neg hbit, uegLoopTraced, bind_run (congrArg Prod.snd hread), hread]
    rfl

/-- The log of the loop changes nothing. -/
theorem uegLoopTraced_snd (fuel bitcount : Nat) (buf : Bitstream) :
    (uegLoopTraced fuel bitcount buf).2 = uegLoop fuel bitcount buf := by
  induction fuel generalizing bitcount buf with
  | zero => rfl
  | succ fuel ih =>
      rw [uegLoopTraced_succ]
      by_cases hbit : (nextBit buf).1 = true
      · rw [if_pos hbit, uegLoop_one hbit]
      · rw [if_neg hbit, uegLoop_false (Bool.not_eq_true _ ▸ hbit)]
        exact ih _ _

/-- The log changes nothing. -/
theorem readUegTraced_snd (u : Indeterminate) (fuel : Nat) (buf : Bitstream) :
    (readUegTraced u fuel buf).2 = bitstreamReadUeg u fuel buf := by
  have hloop := uegLoopTraced_snd fuel 0 buf
  rw [readUegTraced, bitstreamReadUeg]
  cases hrun : (uegLoopTraced fuel 0 buf).2 with
  | none =>
      rw [bind_run_none (q := fun fuel => uegLoopTraced fuel 0) hrun,
        Parser.bind_run_none (p := fun fuel => uegLoop fuel 0) (hloop.symm.trans hrun)]
  | some r =>
      obtain ⟨bitcount, buf'⟩ := r
      cases bitcount with
      | none =>
          rw [bind_run_fail (q := fun fuel => uegLoopTraced fuel 0) hrun,
            Parser.bind_run_fail (p := fun fuel => uegLoop fuel 0) (hloop.symm.trans hrun)]
      | some bitcount =>
          rw [bind_run (q := fun fuel => uegLoopTraced fuel 0) hrun,
            Parser.bind_run (p := fun fuel => uegLoop fuel 0) (hloop.symm.trans hrun)]
          by_cases hzero : bitcount ≠ 0
          · rw [if_pos hzero, if_pos hzero]
            by_cases hle : bitcount ≤ 32
            · have hread := readBitsTraced_eq hle fuel buf'
              rw [bind_run (congrArg Prod.snd hread),
                Parser.bind_run (readBits_eq hle fuel buf')]
              rfl
            · have hread := readBitsTraced_fail (Nat.lt_of_not_le hle) fuel buf'
              have hplain : bitstreamReadBits bitcount fuel buf' = some (none, buf') := by
                rw [bitstreamReadBits, if_pos (Nat.lt_of_not_le hle)]
              rw [bind_run_fail (congrArg Prod.snd hread), Parser.bind_run_fail hplain]
          · rw [if_neg hzero, if_neg hzero]
            rfl

/-! ## Zeros before a one -/

/-- `k` zeros and a one. -/
def zerosOne (k : Nat) : List Bool := List.replicate k false ++ [true]

@[simp] theorem length_zerosOne (k : Nat) : (zerosOne k).length = k + 1 := by
  rw [zerosOne, List.length_append, List.length_replicate, List.length_singleton]

/-- A code of the standard begins with fewer than 32 zeros and a one. -/
theorem ue_eq_zerosOne {v : Nat} (h : v < 2 ^ 32 - 1) :
    ∃ k < 32, ue v = zerosOne k ++ ofNat k (v + 1) := by
  refine ⟨Nat.log 2 (v + 1), Nat.log_lt_of_lt_pow (by omega) (by omega), ?_⟩
  rw [ue_eq, zerosOne, List.append_assoc, List.singleton_append]

/-- The number of zeros is determined by the stream. -/
theorem zerosOne_inj {k l : Nat} {buf : Bitstream} (hk : Yields nextBit buf (zerosOne k))
    (hl : Yields nextBit buf (zerosOne l)) : k = l := by
  induction k generalizing l buf with
  | zero =>
      cases l with
      | zero => rfl
      | succ l =>
          have hone := ((yields_cons nextBit buf true _).1 hk).1
          have hzero := ((yields_cons nextBit buf false _).1 hl).1
          rw [hone] at hzero
          cases hzero
  | succ k ih =>
      cases l with
      | zero =>
          have hone := ((yields_cons nextBit buf true _).1 hl).1
          have hzero := ((yields_cons nextBit buf false _).1 hk).1
          rw [hone] at hzero
          cases hzero
      | succ l =>
          have hk := ((yields_cons nextBit buf false _).1 hk).2
          have hl := ((yields_cons nextBit buf false _).1 hl).2
          rw [ih hk hl]

/-- The loop takes the zeros and the one; `bitcount` wraps. -/
theorem uegLoopTraced_zeros {k bitcount fuel : Nat} (hcount : bitcount < 2 ^ 32) (hk : k < fuel)
    {buf : Bitstream} (hbuf : Yields nextBit buf (zerosOne k)) :
    uegLoopTraced fuel bitcount buf =
      (zerosOne k, some (some ((bitcount + k) % 2 ^ 32), advance nextBit (k + 1) buf)) := by
  induction k generalizing bitcount fuel buf with
  | zero =>
      obtain ⟨fuel, rfl⟩ := Nat.exists_eq_add_of_lt hk
      have hone := ((yields_cons nextBit buf true _).1 hbuf).1
      rw [uegLoopTraced_succ, if_pos hone, Nat.add_zero, Nat.mod_eq_of_lt hcount]
      rfl
  | succ k ih =>
      cases fuel with
      | zero => exact absurd hk (Nat.not_lt_zero _)
      | succ fuel =>
          obtain ⟨hzero, hrest⟩ := (yields_cons nextBit buf false _).1 hbuf
          have hcount' : (bitcount + 1) % 2 ^ 32 < 2 ^ 32 := Nat.mod_lt _ (by decide)
          rw [uegLoopTraced_succ, hzero, ih hcount' (Nat.lt_of_succ_lt_succ hk) hrest,
            Nat.mod_add_mod, Nat.add_assoc, Nat.add_comm 1 k]
          rfl

/-- The loop does not end without a one. -/
theorem zerosOne_of_uegLoopTraced {fuel bitcount : Nat} {buf : Bitstream}
    (h : (uegLoopTraced fuel bitcount buf).2 ≠ none) :
    ∃ k < fuel, Yields nextBit buf (zerosOne k) := by
  induction fuel generalizing bitcount buf with
  | zero => exact absurd rfl h
  | succ fuel ih =>
      rw [uegLoopTraced_succ] at h
      cases hbit : (nextBit buf).1 with
      | true =>
          exact ⟨0, Nat.succ_pos fuel, (yields_cons nextBit buf true []).2 ⟨hbit, rfl⟩⟩
      | false =>
          rw [hbit] at h
          obtain ⟨k, hk, hyields⟩ := ih h
          exact ⟨k + 1, Nat.succ_lt_succ hk, (yields_cons nextBit buf false _).2 ⟨hbit, hyields⟩⟩

/-- **`bitstream_read_ueg` after `k` zeros**: with at most 32 of them, as far as
`bitcount` can tell, it takes that many bits more and returns a value. -/
theorem readUegTraced_zeros (u : Indeterminate) {k fuel : Nat} (hk : k < fuel) {buf : Bitstream}
    (hbuf : Yields nextBit buf (zerosOne k)) (hle : k % 2 ^ 32 ≤ 32) :
    readUegTraced u fuel buf =
      (zerosOne k ++ peek nextBit (k % 2 ^ 32) (advance nextBit (k + 1) buf),
        some (some ((u.shl (k % 2 ^ 32) + (2 ^ 32 - 1) +
            toNat (peek nextBit (k % 2 ^ 32) (advance nextBit (k + 1) buf))) % 2 ^ 32),
          advance nextBit (k + 1 + k % 2 ^ 32) buf)) := by
  have hloop := uegLoopTraced_zeros (by decide : 0 < 2 ^ 32) hk hbuf
  rw [Nat.zero_add] at hloop
  rw [readUegTraced,
    bind_run (q := fun fuel => uegLoopTraced fuel 0) (congrArg Prod.snd hloop), hloop]
  by_cases hzero : k % 2 ^ 32 ≠ 0
  · have hread := readBitsTraced_eq hle fuel (advance nextBit (k + 1) buf)
    rw [if_pos hzero, bind_run (congrArg Prod.snd hread), hread, advance_add (m := k + 1)]
    simp only [Traced.pure_run, List.append_nil]
  · rw [if_neg hzero, not_not.1 hzero]
    simp [Traced.pure_run, peek, toNat_nil, Indeterminate.shl]

/-- With more than 32 zeros it fails. -/
theorem readUegTraced_zeros_fail (u : Indeterminate) {k fuel : Nat} (hk : k < fuel)
    {buf : Bitstream} (hbuf : Yields nextBit buf (zerosOne k)) (hlt : 32 < k % 2 ^ 32) :
    readUegTraced u fuel buf = (zerosOne k, some (none, advance nextBit (k + 1) buf)) := by
  have hloop := uegLoopTraced_zeros (by decide : 0 < 2 ^ 32) hk hbuf
  have hread := readBitsTraced_fail hlt fuel (advance nextBit (k + 1) buf)
  have hzero : k % 2 ^ 32 ≠ 0 := by omega
  rw [Nat.zero_add] at hloop
  rw [readUegTraced,
    bind_run (q := fun fuel => uegLoopTraced fuel 0) (congrArg Prod.snd hloop), hloop, if_pos hzero,
    bind_run_fail (congrArg Prod.snd hread), congrArg Prod.fst hread, List.append_nil]

/-- It does not end without a one. -/
theorem zerosOne_of_readUeg {u : Indeterminate} {fuel : Nat} {buf : Bitstream}
    (h : bitstreamReadUeg u fuel buf ≠ none) : ∃ k < fuel, Yields nextBit buf (zerosOne k) := by
  refine @zerosOne_of_uegLoopTraced fuel 0 buf fun hnone => h ?_
  rw [uegLoopTraced_snd] at hnone
  exact Parser.bind_run_none (p := fun fuel => uegLoop fuel 0) hnone

/-- The stream goes on with a code that `bitstream_read_ueg` refuses: more than
32 zeros, counted in the 32 bits of `bitcount`. -/
def Malformed (buf : Bitstream) : Prop := ∃ k, 32 < k % 2 ^ 32 ∧ Yields nextBit buf (zerosOne k)

/-- A read that ends reports failure exactly if the code is malformed. -/
theorem readUeg_fails_iff {u : Indeterminate} {fuel : Nat} {buf buf' : Bitstream} {r : Option Nat}
    (h : bitstreamReadUeg u fuel buf = some (r, buf')) : r = none ↔ Malformed buf := by
  obtain ⟨k, hk, hbuf⟩ := zerosOne_of_readUeg (h ▸ Option.some_ne_none _)
  rw [← readUegTraced_snd] at h
  by_cases hlt : 32 < k % 2 ^ 32
  · have hrun := congrArg Prod.snd (readUegTraced_zeros_fail u hk hbuf hlt)
    rw [h] at hrun
    cases hrun
    exact ⟨fun _ => ⟨k, hlt, hbuf⟩, fun _ => rfl⟩
  · have hrun := congrArg Prod.snd (readUegTraced_zeros u hk hbuf (Nat.le_of_not_lt hlt))
    rw [h] at hrun
    cases hrun
    refine ⟨fun h => (nomatch h), fun ⟨l, hl, hbuf'⟩ => ?_⟩
    rw [zerosOne_inj hbuf' hbuf] at hl
    exact absurd hl hlt

/-! ## The exactness of `ue(v)` -/

/-- What `bitstream_read_ueg` is for, from the state `buf` on: it ends after at
most 65 bits; it returns `v` exactly if the code of `v` comes next, having taken
this code; and otherwise it reports failure. -/
def UegExact (u : Indeterminate) (buf : Bitstream) : Prop :=
  ∃ enough bits r buf', (∀ fuel, enough ≤ fuel →
      readUegTraced u fuel buf = (bits, some (r, buf'))) ∧
    bits.length ≤ 65 ∧
    (∀ v, r = some v ↔ v ≤ 2 ^ 32 - 2 ∧ Yields nextBit buf (ue v)) ∧
    (∀ v, r = some v → bits = ue v)

/-- `k` bits after `k` zeros and a one complete a code. -/
theorem ue_of_bits (bits : List Bool) :
    ue (2 ^ bits.length - 1 + toNat bits) = zerosOne bits.length ++ bits := by
  have hpos : 0 < 2 ^ bits.length := Nat.two_pow_pos _
  have hlt := toNat_lt bits
  have hsucc : 2 ^ bits.length - 1 + toNat bits + 1 = toNat bits + 1 * 2 ^ bits.length := by omega
  have hlog : Nat.log 2 (2 ^ bits.length - 1 + toNat bits + 1) = bits.length := by
    refine Nat.log_eq_of_pow_le_of_lt_pow (by omega) ?_
    rw [Nat.pow_succ]
    omega
  rw [ue_eq, hlog, hsucc, ofNat_add_mul, ofNat_toNat, zerosOne, List.append_assoc,
    List.singleton_append]

/-- Fewer than 32 zeros: a code of the standard comes next, and is read. -/
theorem uegExact_of_lt (u : Indeterminate) {k : Nat} (hk : k < 32) {buf : Bitstream}
    (hbuf : Yields nextBit buf (zerosOne k)) : UegExact u buf := by
  let rest := peek nextBit k (advance nextBit (k + 1) buf)
  have hlen : rest.length = k := length_peek nextBit k _
  have hpow : 2 ^ k ≤ 2 ^ 31 := Nat.pow_le_pow_right (by decide) (by omega)
  have hpos : 0 < 2 ^ k := Nat.two_pow_pos k
  have hrest : toNat rest < 2 ^ k := hlen ▸ toNat_lt rest
  have hmod : k % 2 ^ 32 = k := Nat.mod_eq_of_lt (by omega)
  have hcode : ue (2 ^ k - 1 + toNat rest) = zerosOne k ++ rest := by
    have := ue_of_bits rest
    rwa [hlen] at this
  have hyields : Yields nextBit buf (ue (2 ^ k - 1 + toNat rest)) := by
    have hpeek : Yields nextBit (advance nextBit (k + 1) buf) rest := yields_peek nextBit k _
    rw [hcode, yields_append, length_zerosOne]
    exact ⟨hbuf, hpeek⟩
  have hval : (u.shl k + (2 ^ 32 - 1) + toNat rest) % 2 ^ 32 = 2 ^ k - 1 + toNat rest := by
    rw [Indeterminate.shl, if_pos hk, Nat.one_shiftLeft]
    omega
  refine ⟨32, ue (2 ^ k - 1 + toNat rest), some (2 ^ k - 1 + toNat rest),
    advance nextBit (k + 1 + k) buf, fun fuel hfuel => ?_, ?_, fun v => ⟨?_, ?_⟩, ?_⟩
  · have hrun := readUegTraced_zeros u (Nat.lt_of_lt_of_le hk hfuel) hbuf
      (by rw [hmod]; exact Nat.le_of_lt hk)
    rw [hmod] at hrun
    rw [hrun, hcode, ← hval]
  · rw [hcode, List.length_append, length_zerosOne, hlen]
    omega
  · rintro ⟨⟩
    exact ⟨by omega, hyields⟩
  · -- Two codes at the same place have the same number of zeros and the same rest.
    rintro ⟨hv, hother⟩
    have hread := (reads_ue u (by omega : v < 2 ^ 32 - 1)).eq_some hother (Nat.le_refl 32)
    have hread' := (reads_ue u (by omega : 2 ^ k - 1 + toNat rest < 2 ^ 32 - 1)).eq_some hyields
      (Nat.le_refl 32)
    rw [hread] at hread'
    exact (congrArg Prod.fst (Option.some.inj hread')).symm
  · rintro v ⟨⟩
    rfl

/-- Exactly 32 zeros pass the size check of `bitstream_read_bits`, and give a
value that no code has. -/
theorem not_uegExact_of_eq (u : Indeterminate) {buf : Bitstream}
    (hbuf : Yields nextBit buf (zerosOne 32)) : ¬UegExact u buf := by
  rintro ⟨enough, bits, r, buf', hrun, -, hvalue, -⟩
  have hrun := hrun (enough + 33) (Nat.le_add_right _ _)
  rw [readUegTraced_zeros u (by omega) hbuf (by decide)] at hrun
  obtain ⟨v, rfl⟩ : ∃ v, r = some v := by
    cases hrun
    exact ⟨_, rfl⟩
  obtain ⟨hv, hyields⟩ := (hvalue v).1 rfl
  obtain ⟨k, hk, hue⟩ := ue_eq_zerosOne (by omega : v < 2 ^ 32 - 1)
  rw [hue, yields_append] at hyields
  have := zerosOne_inj hyields.1 hbuf
  omega

/-- At most 65 bits have at most 64 zeros before the one. -/
theorem zeros_le_of_uegExact {u : Indeterminate} {buf : Bitstream} (h : UegExact u buf) :
    ∃ k ≤ 64, Yields nextBit buf (zerosOne k) := by
  obtain ⟨enough, bits, r, buf', hrun, hlen, -, -⟩ := h
  have hrun := hrun enough (Nat.le_refl _)
  have hends : bitstreamReadUeg u enough buf ≠ none := by
    rw [← readUegTraced_snd, hrun]
    exact Option.some_ne_none _
  obtain ⟨k, hk, hbuf⟩ := zerosOne_of_readUeg hends
  refine ⟨k, ?_, hbuf⟩
  by_cases hlt : 32 < k % 2 ^ 32
  · rw [readUegTraced_zeros_fail u hk hbuf hlt] at hrun
    cases hrun
    rw [length_zerosOne] at hlen
    omega
  · rw [readUegTraced_zeros u hk hbuf (Nat.le_of_not_lt hlt)] at hrun
    cases hrun
    rw [List.length_append, length_zerosOne] at hlen
    omega

/-- **Unsigned Exp-Golomb decoding** is exact and bounded precisely if there is
a one among the next 65 bits, and it is not preceded by 32 zeros. -/
theorem uegExact_iff (u : Indeterminate) (buf : Bitstream) :
    UegExact u buf ↔ ∃ k, k ≤ 64 ∧ k ≠ 32 ∧ Yields nextBit buf (zerosOne k) := by
  constructor
  · intro hexact
    obtain ⟨k, hbound, hbuf⟩ := zeros_le_of_uegExact hexact
    refine ⟨k, hbound, ?_, hbuf⟩
    rintro rfl
    exact not_uegExact_of_eq u hbuf hexact
  · rintro ⟨k, hbound, hne, hbuf⟩
    by_cases hk : k < 32
    · exact uegExact_of_lt u hk hbuf
    · have hlt : 32 < k % 2 ^ 32 := by omega
      refine ⟨65, zerosOne k, none, advance nextBit (k + 1) buf, fun fuel hfuel => ?_, ?_,
        fun v => ⟨fun h => (nomatch h), fun ⟨hv, hyields⟩ => ?_⟩, fun v h => (nomatch h)⟩
      · exact readUegTraced_zeros_fail u (by omega) hbuf hlt
      · rw [length_zerosOne]
        omega
      · obtain ⟨l, hl, hue⟩ := ue_eq_zerosOne (by omega : v < 2 ^ 32 - 1)
        rw [hue, yields_append] at hyields
        have := zerosOne_inj hyields.1 hbuf
        omega

/-- 32 zeros, a one and 32 zeros more. -/
theorem not_uegExact_thirtyTwo :
    ¬UegExact .zeros (bitstreamInit (dataOf [0x00, 0x00, 0x00, 0x00, 0x80])) :=
  not_uegExact_of_eq .zeros (by decide +kernel)

/-! ## The round trip of `se(v)` -/

/-- The value read for the code of `s`: the cast comes before the division, so
twice a large `s` turns negative. -/
theorem egValue_seCodeNum_eq_iff {s : Int} (hs : -2 ^ 31 < s ∧ s < 2 ^ 31) :
    egValue (seCodeNum s) = s ↔ s < 2 ^ 30 := by
  by_cases hpos : 0 < s
  · have hnum : seCodeNum s = 2 * (s - 1).toNat + 1 := by
      rw [seCodeNum, if_pos hpos]
      omega
    have hodd : (2 * (s - 1).toNat + 1) &&& 0x01 ≠ 0 := by rw [Nat.and_one_is_mod]; omega
    have hsum : ((2 * (s - 1).toNat + 1 : Nat) : Int) + 1 = 2 * s := by omega
    rw [hnum, egValue, if_pos hodd, hsum]
    by_cases hlt : s < 2 ^ 30
    · rw [toInt32_eq (by omega), Int.mul_tdiv_cancel_left s (by decide)]
      exact ⟨fun _ => hlt, fun _ => rfl⟩
    · have hneg : toInt32 (2 * s) = 2 * (s - 2 ^ 31) := by
        unfold toInt32
        rw [Int.bmod_def]
        split <;> omega
      rw [hneg, Int.mul_tdiv_cancel_left _ (by decide)]
      exact ⟨fun h => by omega, fun h => absurd h hlt⟩
  · have hnum : seCodeNum s = 2 * (-s).toNat := by
      rw [seCodeNum, if_neg hpos]
      omega
    rw [hnum, egValue_even (by omega)]
    exact ⟨fun _ => by omega, fun _ => by omega⟩

/-- **Signed Exp-Golomb round trip**: on every stream that starts with the code
of `s`, `bitstream_read_eg` returns `s`, having taken exactly the code,
precisely if `s` is below 2^30. -/
theorem readEg_exact (u : Indeterminate) {s : Int} (hs : -2 ^ 31 + 1 ≤ s ∧ s ≤ 2 ^ 31 - 1)
    {buf : Bitstream} (hbuf : Yields nextBit buf (se s)) :
    (∃ enough, ∀ fuel, enough ≤ fuel → bitstreamReadEg u fuel buf =
      some (some s, advance nextBit (se s).length buf)) ↔ s < 2 ^ 30 := by
  have hrange : -2 ^ 31 < s ∧ s < 2 ^ 31 := by omega
  have hread : ∀ fuel, 32 ≤ fuel → bitstreamReadEg u fuel buf =
      some (some (egValue (seCodeNum s)), advance nextBit (se s).length buf) :=
    fun fuel hfuel => (reads_se u hrange).eq_some hbuf hfuel
  rw [← egValue_seCodeNum_eq_iff hrange]
  constructor
  · rintro ⟨enough, hexact⟩
    have hsame := (hread (enough + 32) (by omega)).symm.trans (hexact (enough + 32) (by omega))
    exact Option.some.inj (congrArg Prod.fst (Option.some.inj hsame))
  · intro hvalue
    refine ⟨32, fun fuel hfuel => ?_⟩
    rw [hread fuel hfuel, hvalue]

/-- The code of 2^30: 31 zeros, a one and 31 zeros more. -/
def codeOfTwoPow30 : Nat → UInt8 := dataOf [0x00, 0x00, 0x00, 0x01]

/-- It is read as −2^30. -/
theorem readEg_twoPow30 : Yields nextBit (bitstreamInit codeOfTwoPow30) (se (2 ^ 30)) ∧
    ∀ fuel, 32 ≤ fuel → (bitstreamReadEg .zeros fuel (bitstreamInit codeOfTwoPow30)).map (·.1) =
      some (some (-2 ^ 30)) := by
  have hbuf : Yields nextBit (bitstreamInit codeOfTwoPow30) (se (2 ^ 30)) := by decide +kernel
  have hvalue : egValue (seCodeNum (2 ^ 30)) = -2 ^ 30 := by decide
  refine ⟨hbuf, fun fuel hfuel => ?_⟩
  rw [(reads_se .zeros (by decide)).eq_some hbuf hfuel, hvalue, Option.map_some]

/-- The code of −1. -/
theorem readEg_exact_minusOne :
    ∃ enough, ∀ fuel, enough ≤ fuel →
      bitstreamReadEg .zeros fuel (bitstreamInit (dataOf [0x60])) =
        some (some (-1), advance nextBit (se (-1)).length (bitstreamInit (dataOf [0x60]))) :=
  (readEg_exact .zeros (by decide) (by decide +kernel)).2 (by decide)

end CommonsC.SpsParser
