import Mathlib.Data.Nat.Digits.Lemmas

/-!
# CommonsC.Base.Hex

Numbers and bytes as hexadecimal digits, in lower case, and how they are read.

* `read_pair` — the two digits of a byte are read as that byte;
* `read_number` — the digits of a number are read as that number, whatever zeros
  come before and whatever comes behind that is no digit.
-/

namespace Hex

/-- The digit of a number below 16. -/
def digit (n : ℕ) : UInt8 := if n < 10 then .ofNat (48 + n) else .ofNat (87 + n)

/-- What a digit stands for. -/
def value (b : UInt8) : Option ℕ :=
  if 48 ≤ b ∧ b ≤ 57 then some (b.toNat - 48)
  else if 97 ≤ b ∧ b ≤ 102 then some (b.toNat - 87)
  else none

theorem value_digit {n : ℕ} (h : n < 16) : value (digit n) = some n := by
  revert n
  decide

theorem digit_ne_zero {n : ℕ} (h : n < 16) : digit n ≠ 0 := by
  revert n
  decide

/-! ## Bytes -/

/-- The two digits of a byte. -/
def pair (b : UInt8) : List UInt8 := [digit (b.toNat / 16), digit (b.toNat % 16)]

/-- The byte that two digits are. -/
def read : List UInt8 → Option UInt8
  | [hi, lo] => do
      let h ← value hi
      let l ← value lo
      some (.ofNat (16 * h + l))
  | _ => none

theorem read_pair (b : UInt8) : read (pair b) = some b := by
  have hlt := b.toNat_lt
  rw [pair, read, value_digit (by omega), value_digit (by omega)]
  change some (UInt8.ofNat (16 * (b.toNat / 16) + b.toNat % 16)) = some b
  rw [Nat.div_add_mod, UInt8.ofNat_toNat]

theorem pair_ne_zero (b : UInt8) : 0 ∉ pair b := by
  have hlt := b.toNat_lt
  have hhi := digit_ne_zero (show b.toNat / 16 < 16 by omega)
  have hlo := digit_ne_zero (show b.toNat % 16 < 16 by omega)
  simp [pair, hhi.symm, hlo.symm]

/-! ## Numbers -/

/-- `%0kx`: at least `k` digits. -/
def padded (k n : ℕ) : List UInt8 :=
  List.replicate (k - (Nat.digits 16 n).length) 48 ++ (Nat.digits 16 n).reverse.map digit

/-- The number that the digits in front are. -/
def readNumber (s : List UInt8) : ℕ :=
  (s.takeWhile fun b => (value b).isSome).foldl (fun n b => 16 * n + (value b).getD 0) 0

theorem length_padded (k n : ℕ) : (padded k n).length = max k (Nat.digits 16 n).length := by
  rw [padded, List.length_append, List.length_replicate, List.length_map, List.length_reverse]
  omega

theorem exists_digit_of_mem {k n : ℕ} {b : UInt8} (h : b ∈ padded k n) :
    ∃ d < 16, b = digit d := by
  rcases List.mem_append.1 h with h | h
  · exact ⟨0, by decide, (List.mem_replicate.1 h).2⟩
  · obtain ⟨d, hd, rfl⟩ := List.mem_map.1 h
    exact ⟨d, Nat.digits_lt_base (by decide) (List.mem_reverse.1 hd), rfl⟩

theorem padded_ne_zero (k n : ℕ) : 0 ∉ padded k n := fun h => by
  obtain ⟨d, hd, h⟩ := exists_digit_of_mem h
  exact digit_ne_zero hd h.symm

theorem foldl_zeros (k : ℕ) (s : List UInt8) :
    (List.replicate k (48 : UInt8) ++ s).foldl (fun n b => 16 * n + (value b).getD 0) 0 =
      s.foldl (fun n b => 16 * n + (value b).getD 0) 0 := by
  induction k with
  | zero => rfl
  | succ k ih => exact ih

theorem foldl_digits (n : ℕ) : ((Nat.digits 16 n).reverse.map digit).foldl
    (fun n b => 16 * n + (value b).getD 0) 0 = n := by
  have hdigits : ∀ ds : List ℕ, (∀ d ∈ ds, d < 16) →
      (ds.reverse.map digit).foldl (fun n b => 16 * n + (value b).getD 0) 0 =
        Nat.ofDigits 16 ds := by
    intro ds
    induction ds with
    | nil => intro _; rfl
    | cons d ds ih =>
        intro h
        have hd := h d List.mem_cons_self
        rw [List.reverse_cons, List.map_append, List.foldl_append,
          ih fun e he => h e (List.mem_cons_of_mem d he), Nat.ofDigits_cons, List.map_singleton,
          List.foldl_cons, List.foldl_nil, value_digit hd, Option.getD_some, Nat.add_comm]
  rw [hdigits _ fun d hd => Nat.digits_lt_base (by decide) hd, Nat.ofDigits_digits]

theorem value_lt {b : UInt8} {n : ℕ} (h : value b = some n) : n < 16 := by
  rw [value] at h
  split at h
  · next hb =>
      obtain rfl := Option.some.inj h
      have := UInt8.le_iff_toNat_le.1 hb.2
      change b.toNat ≤ 57 at this
      omega
  · split at h
    · next hb =>
        obtain rfl := Option.some.inj h
        have := UInt8.le_iff_toNat_le.1 hb.2
        change b.toNat ≤ 102 at this
        omega
    · cases h

/-- What is read is bounded by the number of digits. -/
theorem readNumber_lt (s : List UInt8) : readNumber s < 16 ^ s.length := by
  have hfold : ∀ (ds : List UInt8) (n : ℕ),
      ds.foldl (fun n b => 16 * n + (value b).getD 0) n < 16 ^ ds.length * (n + 1) := by
    intro ds
    induction ds with
    | nil =>
        intro n
        rw [List.foldl_nil, List.length_nil, pow_zero, Nat.one_mul]
        exact Nat.lt_succ_self n
    | cons b ds ih =>
        intro n
        have hb : (value b).getD 0 < 16 := by
          cases h : value b with
          | none => decide
          | some d => exact value_lt h
        rw [List.foldl_cons, List.length_cons, pow_succ, Nat.mul_assoc]
        refine (ih _).trans_le (Nat.mul_le_mul_left _ ?_)
        omega
  have hdigits := hfold (s.takeWhile fun b => (value b).isSome) 0
  rw [Nat.zero_add, Nat.mul_one] at hdigits
  exact hdigits.trans_le (Nat.pow_le_pow_right (by decide)
    (List.takeWhile_prefix _).length_le)

/-- **The digits of a number are read as that number.** -/
theorem read_number (k n : ℕ) {rest : List UInt8} (hrest : ∀ b ∈ rest.head?, value b = none) :
    readNumber (padded k n ++ rest) = n := by
  have hdigits : ∀ b ∈ padded k n, (value b).isSome = true := by
    intro b hb
    obtain ⟨d, hd, rfl⟩ := exists_digit_of_mem hb
    rw [value_digit hd]
    rfl
  have hstop : rest.takeWhile (fun b => (value b).isSome) = [] := by
    cases rest with
    | nil => rfl
    | cons b rest =>
        rw [List.takeWhile_cons, hrest b rfl]
        rfl
  rw [readNumber, List.takeWhile_append_of_pos hdigits, hstop, List.append_nil, padded,
    foldl_zeros, foldl_digits]

end Hex
