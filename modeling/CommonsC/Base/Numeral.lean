import Mathlib.Algebra.Order.Ring.Int
import Mathlib.Data.List.Induction
import Mathlib.Data.List.TakeWhile

/-!
# CommonsC.Base.Numeral

Decimal numbers in C strings.

`decimal` is what `%d` prints for a natural number, and `strtol` and `strtoul`
are those of the C library in base ten and the C locale, with 64-bit longs:
the number, and the string from `endptr` on.  Digits are read back up to the next
byte that is none (`scan_digits`).
-/

namespace Numeral

/-! ## Digits -/

/-- `isdigit`. -/
def isDigit (b : UInt8) : Bool := 48 ≤ b && b ≤ 57

theorem isDigit_iff {b : UInt8} : isDigit b = true ↔ 48 ≤ b.toNat ∧ b.toNat ≤ 57 := by
  rw [isDigit, Bool.and_eq_true, decide_eq_true_eq, decide_eq_true_eq]
  rfl

/-- `isspace` in the C locale. -/
def isSpace (b : UInt8) : Bool := b == 32 || (9 ≤ b && b ≤ 13)

/-- The number that digits stand for. -/
def value (digits : List UInt8) : Nat := digits.foldl (fun n d => 10 * n + (d.toNat - 48)) 0

theorem foldl_value (digits : List UInt8) (n : Nat) :
    digits.foldl (fun n d => 10 * n + (d.toNat - 48)) n =
      n * 10 ^ digits.length + value digits := by
  induction digits generalizing n with
  | nil => simp [value]
  | cons d digits ih =>
      have htail : value (d :: digits) = (d.toNat - 48) * 10 ^ digits.length + value digits := by
        rw [value, List.foldl_cons, ih, Nat.mul_zero, Nat.zero_add]
      rw [List.foldl_cons, ih, htail, List.length_cons, Nat.pow_succ, Nat.add_mul, Nat.mul_comm 10,
        Nat.mul_assoc, Nat.mul_comm 10, Nat.add_assoc]

theorem value_append (a b : List UInt8) : value (a ++ b) = value a * 10 ^ b.length + value b := by
  rw [value, List.foldl_append, foldl_value]
  rfl

theorem value_take_drop (digits : List UInt8) (k : Nat) :
    value digits =
      value (digits.take k) * 10 ^ (digits.drop k).length + value (digits.drop k) := by
  rw [← value_append, List.take_append_drop]

theorem value_take_le (digits : List UInt8) (k : Nat) : value (digits.take k) ≤ value digits := by
  rw [value_take_drop digits k]
  exact Nat.le_add_right_of_le (Nat.le_mul_of_pos_right _ (Nat.pow_pos (by decide)))

/-- Without its last digits a number is a tenth or less. -/
theorem value_take_eq_iff {digits : List UInt8} {k : Nat} :
    value (digits.take k) = value digits ↔ digits.length ≤ k ∨ value digits = 0 := by
  have hvalue := value_take_drop digits k
  by_cases hfit : digits.length ≤ k
  · rw [List.take_of_length_le hfit]
    exact iff_of_true rfl (.inl hfit)
  · have hpow : 10 ≤ 10 ^ (digits.drop k).length := by
      refine Nat.le_self_pow ?_ 10
      rw [List.length_drop]
      omega
    have hgrow := Nat.mul_le_mul_left (value (digits.take k)) hpow
    omega

/-- `%d` of a number that is not negative. -/
def decimal (n : Nat) : List UInt8 := (Nat.toDigits 10 n).map fun c => c.toNat.toUInt8

theorem digit_toUInt8 {c : Char} (h : c.isDigit = true) :
    c.toNat.toUInt8.toNat = c.toNat ∧ isDigit c.toNat.toUInt8 = true := by
  have hc : 48 ≤ c.toNat ∧ c.toNat ≤ 57 := by
    rw [Char.isDigit, Bool.and_eq_true, decide_eq_true_eq, decide_eq_true_eq] at h
    exact h
  have hval : c.toNat.toUInt8.toNat = c.toNat := by
    rw [Nat.toUInt8, UInt8.toNat_ofNat']
    omega
  exact ⟨hval, isDigit_iff.2 (by rwa [hval])⟩

theorem isDigit_of_mem_decimal {n : Nat} {b : UInt8} (h : b ∈ decimal n) : isDigit b = true := by
  obtain ⟨c, hc, rfl⟩ := List.mem_map.1 h
  exact (digit_toUInt8 (Nat.isDigit_of_mem_toDigits (by decide) (by decide) hc)).2

theorem decimal_ne_nil (n : Nat) : decimal n ≠ [] := by
  rw [decimal, ne_eq, List.map_eq_nil_iff]
  exact Nat.toDigits_ne_nil

theorem length_decimal_le {n k : Nat} (hk : 0 < k) (h : n < 10 ^ k) : (decimal n).length ≤ k := by
  rw [decimal, List.length_map]
  exact (Nat.length_toDigits_le_iff (by decide) hk).2 h

/-- The digits of a number stand for it. -/
theorem value_decimal (n : Nat) : value (decimal n) = n := by
  have hfold : ∀ (cs : List Char) (k : Nat), (∀ c ∈ cs, c.isDigit = true) →
      (cs.map fun c => c.toNat.toUInt8).foldl (fun n d => 10 * n + (d.toNat - 48)) k =
        Nat.ofDigitChars 10 cs k := by
    intro cs
    induction cs with
    | nil => intro k _; exact Nat.ofDigitChars_nil.symm
    | cons c cs ih =>
        intro k h
        rw [List.map_cons, List.foldl_cons, Nat.ofDigitChars_cons,
          (digit_toUInt8 (h c List.mem_cons_self)).1]
        exact ih _ fun c hc => h c (List.mem_cons_of_mem _ hc)
  rw [value, decimal, hfold _ _ fun c hc =>
    Nat.isDigit_of_mem_toDigits (by decide) (by decide) hc]
  exact Nat.ofDigitChars_ten_toDigits

/-- Digits without a superfluous zero in front. -/
structure IsDecimal (digits : List UInt8) : Prop where
  ne_nil : digits ≠ []
  isDigit : ∀ d ∈ digits, isDigit d = true
  head : digits.head? = some 48 → digits = [48]

theorem decimal_digit {d : UInt8} (h : isDigit d = true) : decimal (d.toNat - 48) = [d] := by
  rw [isDigit_iff] at h
  obtain ⟨n, hn, hlt⟩ : ∃ n, d.toNat = 48 + n ∧ n < 10 := ⟨d.toNat - 48, by omega, by omega⟩
  have hd : d = .ofNat (48 + n) := by rw [← hn, UInt8.ofNat_toNat]
  rw [hn, Nat.add_sub_cancel_left, hd]
  clear hn hd h
  revert n
  decide

/-- Digits that do not begin with a zero stand for some number but zero. -/
theorem value_pos {d : UInt8} {digits : List UInt8} (hd : isDigit d = true) (hne : d ≠ 48) :
    0 < value (d :: digits) := by
  have hpos : 0 < d.toNat - 48 := by
    have hzero : d.toNat ≠ 48 := fun h => hne (UInt8.toNat_inj.1 h)
    have hge := (isDigit_iff.1 hd).1
    omega
  have hlead := Nat.mul_pos hpos (Nat.pow_pos (by decide : 0 < 10) (n := digits.length))
  rw [value, List.foldl_cons, foldl_value, Nat.mul_zero, Nat.zero_add]
  omega

/-- The digits without superfluous zeros are the ones that are printed. -/
theorem decimal_value {digits : List UInt8} (h : IsDecimal digits) :
    decimal (value digits) = digits := by
  induction digits using List.reverseRecOn with
  | nil => exact absurd rfl h.ne_nil
  | append_singleton digits d ih =>
      have hd := h.isDigit d (List.mem_append_right _ List.mem_cons_self)
      have hvalue : value (digits ++ [d]) = 10 * value digits + (d.toNat - 48) := by
        rw [value, List.foldl_append]
        rfl
      cases digits with
      | nil =>
          rw [hvalue, value, List.foldl_nil, Nat.mul_zero, Nat.zero_add, decimal_digit hd]
          rfl
      | cons e digits =>
          have he := h.isDigit e List.mem_cons_self
          have hzero : e ≠ 48 := by
            rintro rfl
            exact absurd (h.head rfl) (by simp)
          have hlt : d.toNat - 48 < 10 := by
            have hle := (isDigit_iff.1 hd).2
            omega
          have hfront : decimal (value (e :: digits)) = e :: digits :=
            ih ⟨List.cons_ne_nil _ _, fun b hb => h.isDigit b (List.mem_append_left _ hb),
              fun hhead => absurd (Option.some.inj hhead) hzero⟩
          rw [hvalue, decimal, ← Nat.toDigits_append_toDigits (by decide) (value_pos he hzero) hlt,
            List.map_append]
          exact congrArg₂ (· ++ ·) hfront (decimal_digit hd)

/-! ## Reading -/

/-- The sign and the digits that the library functions look for, and the rest. -/
def scan (s : List UInt8) : Option (Bool × List UInt8 × List UInt8) :=
  let t := s.dropWhile isSpace
  let (neg, t) := match t with
    | 45 :: u => (true, u)
    | 43 :: u => (false, u)
    | _ => (false, t)
  if t.takeWhile isDigit = [] then none
  else some (neg, t.takeWhile isDigit, t.dropWhile isDigit)

/-- A `long`, or the nearest one. -/
@[irreducible] def clampLong (x : Int) : Int := max (-2 ^ 63) (min x (2 ^ 63 - 1))

/-- `strtol(s, &endptr, 10)`: the number, and the string at `endptr`. -/
def strtol (s : List UInt8) : Int × List UInt8 :=
  match scan s with
  | none => (0, s)
  | some (neg, digits, rest) => (clampLong (if neg then -value digits else value digits), rest)

/-- `strtoul(s, &endptr, 10)`: the number, and the string at `endptr`. -/
def strtoul (s : List UInt8) : Nat × List UInt8 :=
  match scan s with
  | none => (0, s)
  | some (neg, digits, rest) =>
      (if 2 ^ 64 ≤ value digits then 2 ^ 64 - 1
        else if neg then (2 ^ 64 - value digits) % 2 ^ 64 else value digits, rest)

/-- The conversion of a `long` to `int`. -/
@[irreducible] def toInt (x : Int) : Int := x.bmod (2 ^ 32)

theorem toInt_of_range {x : Int} (hlo : -2 ^ 31 ≤ x) (hhi : x < 2 ^ 31) : toInt x = x := by
  rw [toInt, Int.bmod_eq_of_le] <;> omega

theorem toInt_of_lt {n : Nat} (h : n < 2 ^ 31) : toInt n = n := toInt_of_range (by omega) (by omega)

/-- `i++` of an `int` that is not negative: `none` if it overflows. -/
def intSucc (i : Nat) : Option Nat := if i + 1 < 2 ^ 31 then some (i + 1) else none

theorem intSucc_of_lt {i : Nat} (h : i + 1 < 2 ^ 31) : intSucc i = some (i + 1) := if_pos h

theorem intSucc_of_ge {i : Nat} (h : 2 ^ 31 ≤ i + 1) : intSucc i = none := if_neg (by omega)

theorem takeWhile_digits {digits rest : List UInt8} (h : ∀ d ∈ digits, isDigit d = true)
    (hrest : ∀ b ∈ rest.head?, isDigit b = false) :
    (digits ++ rest).takeWhile isDigit = digits ∧ (digits ++ rest).dropWhile isDigit = rest := by
  rw [List.takeWhile_append_of_pos h, List.dropWhile_append_of_pos h]
  cases rest with
  | nil => simp
  | cons b rest => simp [hrest b rfl]

theorem isSpace_of_isDigit {b : UInt8} (h : isDigit b = true) : isSpace b = false := by
  rw [isDigit_iff] at h
  simp only [isSpace, Bool.or_eq_false_iff, beq_eq_false_iff_ne, Bool.and_eq_false_iff,
    decide_eq_false_iff_not, ne_eq, UInt8.le_iff_toNat_le, ← UInt8.toNat_inj]
  simp only [UInt8.reduceToNat]
  omega

/-- Digits are read up to the next byte that is none. -/
theorem scan_digits {digits rest : List UInt8} (hne : digits ≠ [])
    (h : ∀ d ∈ digits, isDigit d = true) (hrest : ∀ b ∈ rest.head?, isDigit b = false) :
    scan (digits ++ rest) = some (false, digits, rest) := by
  obtain ⟨htake, hdrop⟩ := takeWhile_digits h hrest
  cases digits with
  | nil => exact absurd rfl hne
  | cons d digits =>
      have hd := h d List.mem_cons_self
      have hspace : (d :: digits ++ rest).dropWhile isSpace = d :: digits ++ rest := by
        rw [List.cons_append, List.dropWhile_cons, isSpace_of_isDigit hd]
        rfl
      rw [scan, hspace]
      have hsign : d ≠ 45 ∧ d ≠ 43 := by
        constructor <;>
          · rintro rfl
            cases hd
      simp only
      split
      · next heq => exact absurd (List.cons.inj heq).1 hsign.1
      · next heq => exact absurd (List.cons.inj heq).1 hsign.2
      · rw [htake, hdrop, if_neg hne]

/-- A number is read, or nothing. -/
theorem length_scan_lt {s digits rest : List UInt8} {neg : Bool}
    (h : scan s = some (neg, digits, rest)) : rest.length < s.length := by
  have hcut : ∀ {neg neg' : Bool} {t digits rest : List UInt8},
      (if t.takeWhile isDigit = [] then none
        else some (neg', t.takeWhile isDigit, t.dropWhile isDigit)) = some (neg, digits, rest) →
      rest.length < t.length := by
    intro neg neg' t digits rest h
    split at h
    · cases h
    · next hne =>
        cases h
        have hlen := congrArg List.length (List.takeWhile_append_dropWhile (p := isDigit) (l := t))
        have hpos := List.length_pos_iff.2 hne
        rw [List.length_append] at hlen
        omega
  have hle : (s.dropWhile isSpace).length ≤ s.length := (List.dropWhile_suffix _).length_le
  rw [scan] at h
  simp only at h
  split at h
  · next hsign =>
      rw [hsign, List.length_cons] at hle
      exact Nat.lt_of_lt_of_le (hcut h) (Nat.le_of_succ_le hle)
  · next hsign =>
      rw [hsign, List.length_cons] at hle
      exact Nat.lt_of_lt_of_le (hcut h) (Nat.le_of_succ_le hle)
  · exact (hcut h).trans_le hle

theorem strtol_of_scan {s digits rest : List UInt8} {neg : Bool}
    (h : scan s = some (neg, digits, rest)) :
    strtol s = (clampLong (if neg then -value digits else value digits), rest) := by
  rw [strtol, h]

end Numeral
