import CommonsC.SpsParser.Bitstream

/-!
# CommonsC.SpsParser.Payload

The bit reader against its specification: whatever sequence of reads and skips
is made on a byte stream without three zero bytes in a row, the reads return
the consecutive bits of the payload, that is of the stream with the emulation
prevention bytes deleted.  Reads may start and end anywhere, so the zero count
and the offset are carried over every cut.
-/

namespace CommonsC.SpsParser

open Bits Parser Emulation

/-! ## Sequences of calls -/

/-- A call of the reader. -/
inductive Op
  | read (size : Nat)
  | skip (size : Nat)

/-- How many bits the call takes. -/
def Op.size : Op → Nat
  | .read size | .skip size => size

/-- Make the calls, and collect what the reads return. -/
def runOps : List Op → Parser Bitstream (List Nat)
  | [] => pure []
  | .read size :: ops => do
      let value ← bitstreamReadBits size
      let values ← runOps ops
      pure (value :: values)
  | .skip size :: ops => do
      bitstreamSkipBits size
      runOps ops

/-- What the reads should return on a stream of bits. -/
def expected : List Op → List Bool → List Nat
  | [], _ => []
  | .read size :: ops, bits => toNat (bits.take size) :: expected ops (bits.drop size)
  | .skip size :: ops, bits => expected ops (bits.drop size)

/-- The calls return the bits the source yields, and take no more of them than
their sizes say. -/
theorem runOps_eq {ops : List Op} (hops : ∀ size, Op.read size ∈ ops → size ≤ 32)
    (hskips : ∀ size, Op.skip size ∈ ops → size ≤ longestSkip) (fuel : Nat)
    {buf : Bitstream} {bits : List Bool} (hbuf : Yields nextBit buf bits)
    (hlen : (ops.map Op.size).sum ≤ bits.length) :
    runOps ops fuel buf =
      some (some (expected ops bits), advance nextBit (ops.map Op.size).sum buf) := by
  induction ops generalizing buf bits with
  | nil => rfl
  | cons op ops ih =>
      have hrest : ∀ size, Op.read size ∈ ops → size ≤ 32 := fun size h =>
        hops size (List.mem_cons_of_mem op h)
      have hskips' : ∀ size, Op.skip size ∈ ops → size ≤ longestSkip := fun size h =>
        hskips size (List.mem_cons_of_mem op h)
      rw [List.map_cons, List.sum_cons] at hlen ⊢
      have hsplit : Yields nextBit buf (bits.take op.size ++ bits.drop op.size) := by
        rwa [List.take_append_drop]
      rw [yields_append, List.length_take, Nat.min_eq_left (by omega)] at hsplit
      have hrun := ih hrest hskips' hsplit.2 (by rw [List.length_drop]; omega)
      rw [advance_add]
      cases op with
      | read size =>
          have hpeek : peek nextBit size buf = bits.take size := by
            have htake : (bits.take size).length = size := by
              rw [List.length_take, Nat.min_eq_left]
              exact Nat.le_of_add_right_le hlen
            have := hsplit.1
            rwa [Yields, Op.size, htake] at this
          rw [runOps, bind_run (readBits_eq (hops size (by simp)) fuel buf), hpeek]
          exact bind_run hrun
      | skip size =>
          rw [runOps, bind_run (skipBits_eq (hskips size List.mem_cons_self) fuel buf)]
          exact hrun

/-- A skip that is too long has no result, and nothing comes after it. -/
theorem runOps_overflow {ops : List Op} (hops : ∀ size, Op.read size ∈ ops → size ≤ 32) {size : Nat}
    (hskip : Op.skip size ∈ ops) (hlong : longestSkip < size) (fuel : Nat) (buf : Bitstream) :
    runOps ops fuel buf = none := by
  induction ops generalizing buf with
  | nil => cases hskip
  | cons op ops ih =>
      have hrest : ∀ size, Op.read size ∈ ops → size ≤ 32 := fun size h =>
        hops size (List.mem_cons_of_mem op h)
      cases op with
      | read first =>
          have hskip' : Op.skip size ∈ ops := (List.mem_cons.1 hskip).resolve_left Op.noConfusion
          rw [runOps, bind_run (readBits_eq (hops first List.mem_cons_self) fuel buf)]
          exact bind_run_none (ih hrest hskip' _)
      | skip first =>
          by_cases hfirst : longestSkip < first
          · exact bind_run_none (skipBits_overflow hfirst fuel buf)
          · have hskip' : Op.skip size ∈ ops := by
              refine (List.mem_cons.1 hskip).resolve_left fun h => ?_
              cases h
              exact hfirst hlong
            rw [runOps, bind_run (skipBits_eq (Nat.le_of_not_lt hfirst) fuel buf)]
            exact ih hrest hskip' _

/-- Single bits, one after the other. -/
theorem times_readBits (n fuel : Nat) (buf : Bitstream) :
    times n (void (bitstreamReadBits 1)) fuel buf = some (some (), advance nextBit n buf) := by
  induction n generalizing buf with
  | zero => rfl
  | succ n ih =>
      have hone : void (bitstreamReadBits 1) fuel buf = some (some (), advance nextBit 1 buf) := by
        rw [void, readBits_eq (by decide)]
        rfl
      rw [times, bind_run hone, ih, ← advance_add, Nat.add_comm 1 n]

/-- Skipping `n` bits is reading `n` single bits, if `n` is not too long. -/
theorem skipBits_eq_times (n fuel : Nat) (buf : Bitstream) :
    bitstreamSkipBits n fuel buf = times n (void (bitstreamReadBits 1)) fuel buf ↔
      n ≤ longestSkip := by
  rw [times_readBits]
  by_cases h : n ≤ longestSkip
  · exact iff_of_true (skipBits_eq h fuel buf) h
  · rw [skipBits_overflow (Nat.lt_of_not_le h)]
    exact iff_of_false (Option.some_ne_none _).symm h

/-! ## The payload -/

/-- The bytes before index `i` end in `zeros` zero bytes. -/
def ZerosBefore (data : Nat → UInt8) (i zeros : Nat) : Prop :=
  zeros ≤ i ∧ ∀ k, i - zeros ≤ k → k < i → data k = 0

theorem ZerosBefore.le_two {data : Nat → UInt8}
    (hdata : ∀ i, ¬(data i = 0 ∧ data (i + 1) = 0 ∧ data (i + 2) = 0)) {i zeros : Nat}
    (h : ZerosBefore data i zeros) : zeros ≤ 2 := by
  by_contra hgt
  obtain ⟨hi, hz⟩ := h
  exact hdata (i - 3) ⟨hz _ (by omega) (by omega), hz _ (by omega) (by omega),
    hz _ (by omega) (by omega)⟩

theorem ZerosBefore.after {data : Nat → UInt8} {i zeros : Nat} (h : ZerosBefore data i zeros) :
    ZerosBefore data (i + 1) (zerosAfter zeros (data i)) := by
  obtain ⟨hi, hz⟩ := h
  unfold zerosAfter
  split
  · next hb =>
      refine ⟨by omega, fun k hk hlt => ?_⟩
      rcases Nat.lt_succ_iff_lt_or_eq.1 hlt with hlt | rfl
      · exact hz k (by omega) hlt
      · exact hb
  · exact ⟨by omega, fun k hk hlt => by omega⟩

/-- A stream without three zero bytes in a row, looked at from any index on. -/
theorem short_rawBytes {data : Nat → UInt8}
    (hdata : ∀ i, ¬(data i = 0 ∧ data (i + 1) = 0 ∧ data (i + 2) = 0)) {i zeros : Nat} (n : Nat)
    (hzeros : ZerosBefore data i zeros) : Short zeros (rawBytes data i n) := by
  induction n generalizing i zeros with
  | zero => exact hzeros.le_two hdata
  | succ n ih => exact ⟨hzeros.le_two hdata, ih hzeros.after⟩

/-- **The reader reads the payload**: on a stream without three zero bytes in a
row, any reads of up to 32 bits and any skips that stay within the first `n`
bytes return the consecutive bits of these bytes with every 0x03 deleted that
directly follows two zero bytes, and each skip leaves the reader where single
reads would, exactly if no skip is longer than 2^31 - 16 bits. -/
theorem runOps_payload {data : Nat → UInt8}
    (hdata : ∀ i, ¬(data i = 0 ∧ data (i + 1) = 0 ∧ data (i + 2) = 0))
    {n : Nat} (hn : 8 * n ≤ 2 ^ 31) {ops : List Op}
    (hops : ∀ size, Op.read size ∈ ops → size ≤ 32)
    (hlen : (ops.map Op.size).sum ≤ (ofBytes (unescape 0 (rawBytes data 0 n))).length)
    (fuel : Nat) :
    ((∃ buf, runOps ops fuel (bitstreamInit data) =
        some (some (expected ops (ofBytes (unescape 0 (rawBytes data 0 n)))), buf)) ∧
      (∀ size, Op.skip size ∈ ops → ∀ buf, bitstreamSkipBits size fuel buf =
        times size (void (bitstreamReadBits 1)) fuel buf) ↔
      ∀ size, Op.skip size ∈ ops → size ≤ longestSkip) ∧
    ∀ size buf, bitstreamSkipBits size fuel buf =
      times size (void (bitstreamReadBits 1)) fuel buf ↔ size ≤ longestSkip := by
  have hshort : Short 0 (rawBytes data 0 n) :=
    short_rawBytes hdata n ⟨Nat.le_refl 0, fun k _ hk => absurd hk (Nat.not_lt_zero k)⟩
  have hyields := yields_unescape data (by omega) hshort
  refine ⟨⟨fun ⟨_, hsteps⟩ size hskip => ?_, fun hskips => ⟨?_, fun size hskip buf => ?_⟩⟩,
    fun size buf => skipBits_eq_times size fuel buf⟩
  · exact (skipBits_eq_times size fuel (bitstreamInit data)).1 (hsteps size hskip _)
  · exact ⟨_, runOps_eq hops hskips fuel hyields hlen⟩
  · exact (skipBits_eq_times size fuel buf).2 (hskips size hskip)

/-- A stream with an emulation prevention byte at index 3. -/
def escapedData : Nat → UInt8
  | 0 => 0x67
  | 1 | 2 => 0x00
  | 3 => 0x03
  | 4 => 0x01
  | _ => 0xff

/-- Reads across the escaped bytes, with a skip between them. -/
theorem runOps_payload_escaped :
    ∃ buf, runOps [.read 12, .skip 4, .read 16] 0 (bitstreamInit escapedData) =
      some (some [0x670, 0x0001], buf) := by
  have hdata : ∀ i, ¬(escapedData i = 0 ∧ escapedData (i + 1) = 0 ∧ escapedData (i + 2) = 0) := by
    intro i
    match i with
    | 0 | 1 | 2 | 3 | 4 => decide
    | i + 5 => simp [escapedData]
  have hops : ∀ size, Op.read size ∈ [Op.read 12, .skip 4, .read 16] → size ≤ 32 := by simp
  have hn : 8 * 5 ≤ 2 ^ 31 := by decide
  have hskips : ∀ size, Op.skip size ∈ [Op.read 12, .skip 4, .read 16] → size ≤ longestSkip := by
    intro size hskip
    simp only [List.mem_cons, reduceCtorEq, Op.skip.injEq, List.not_mem_nil, or_false, false_or]
      at hskip
    exact hskip ▸ by decide
  exact ((runOps_payload hdata hn hops (by decide) 0).1.2 hskips).1

/-- Nothing is deleted from ones. -/
theorem length_ones (i n zeros : Nat) :
    (ofBytes (unescape zeros (rawBytes (fun _ => 0xff) i n))).length = 8 * n := by
  rw [length_ofBytes]
  congr 1
  induction n generalizing i zeros with
  | zero => rfl
  | succ n ih =>
      rw [rawBytes, unescape, if_neg (by simp), List.length_cons, ih]

/-- **A skip can be too long**: one bit more than the counter of the loop allows. -/
theorem runOps_payload_overflow : ¬∀ (data : Nat → UInt8),
    (∀ i, ¬(data i = 0 ∧ data (i + 1) = 0 ∧ data (i + 2) = 0)) →
    ∀ (n : Nat), 8 * n ≤ 2 ^ 31 → ∀ ops : List Op, (∀ size, Op.read size ∈ ops → size ≤ 32) →
    (ops.map Op.size).sum ≤ (ofBytes (unescape 0 (rawBytes data 0 n))).length → ∀ fuel,
    (∃ buf, runOps ops fuel (bitstreamInit data) =
        some (some (expected ops (ofBytes (unescape 0 (rawBytes data 0 n)))), buf)) ∧
      ∀ size, Op.skip size ∈ ops → ∀ buf, bitstreamSkipBits size fuel buf =
        times size (void (bitstreamReadBits 1)) fuel buf := by
  intro hclaim
  obtain ⟨⟨buf, hrun⟩, -⟩ := hclaim (fun _ => 0xff) (fun _ h => absurd h.1 (by decide)) (2 ^ 28)
    (by decide) [.skip (2 ^ 31 - 15)] (by simp) (by rw [length_ones]; decide) 0
  rw [runOps_overflow (by simp) List.mem_cons_self (by decide)] at hrun
  cases hrun

end CommonsC.SpsParser
