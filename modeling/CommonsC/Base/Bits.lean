import Mathlib.Data.Nat.Log
import Mathlib.Tactic.Ring

/-!
# CommonsC.Base.Bits

Bit strings, most significant bit first: numbers of a fixed width, bytes, and
the Exp-Golomb codes `ue(v)` and `se(v)` of the video coding standards.

Nothing here depends on how a stream is read; the encoders of a format are
written with these functions, and its readers are measured against
`Bits.toNat`.
-/

namespace Bits

/-! ## Numbers -/

/-- The number a bit string stands for. -/
def toNat (bits : List Bool) : Nat := bits.foldl (fun n b => 2 * n + b.toNat) 0

/-- The `w` low bits of `v`. -/
def ofNat : (w v : Nat) → List Bool
  | 0, _ => []
  | w + 1, v => v.testBit w :: ofNat w v

@[simp] theorem toNat_nil : toNat [] = 0 := rfl

theorem foldl_eq (bits : List Bool) (n : Nat) :
    bits.foldl (fun n b => 2 * n + b.toNat) n = n * 2 ^ bits.length + toNat bits := by
  induction bits generalizing n with
  | nil => simp
  | cons b bits ih =>
      have htail : toNat (b :: bits) = b.toNat * 2 ^ bits.length + toNat bits := by
        rw [toNat, List.foldl_cons, ih]
        simp
      rw [List.foldl_cons, ih, htail, List.length_cons, Nat.pow_succ]
      ring

theorem toNat_cons (b : Bool) (bits : List Bool) :
    toNat (b :: bits) = b.toNat * 2 ^ bits.length + toNat bits := by
  rw [toNat, List.foldl_cons, foldl_eq]
  simp

theorem toNat_lt (bits : List Bool) : toNat bits < 2 ^ bits.length := by
  induction bits with
  | nil => simp
  | cons b bits ih =>
      rw [toNat_cons, List.length_cons, Nat.pow_succ]
      cases b <;> simp <;> omega

@[simp] theorem length_ofNat (w v : Nat) : (ofNat w v).length = w := by
  induction w with
  | zero => rfl
  | succ w ih => rw [ofNat, List.length_cons, ih]

theorem toNat_ofNat_mod (w v : Nat) : toNat (ofNat w v) = v % 2 ^ w := by
  induction w with
  | zero => simp [ofNat, Nat.mod_one]
  | succ w ih =>
      rw [ofNat, toNat_cons, ih, length_ofNat, Nat.testBit_eq_decide_div_mod_eq]
      have hdiv : v / 2 ^ w % 2 = 0 ∨ v / 2 ^ w % 2 = 1 := by omega
      have hmod : v % 2 ^ (w + 1) = v % 2 ^ w + 2 ^ w * (v / 2 ^ w % 2) := by
        rw [Nat.pow_succ, Nat.mod_mul]
      rcases hdiv with h | h <;> rw [hmod, h] <;> simp [Nat.add_comm]

/-- A number that fits its width is read back. -/
theorem toNat_ofNat {w v : Nat} (h : v < 2 ^ w) : toNat (ofNat w v) = v := by
  rw [toNat_ofNat_mod, Nat.mod_eq_of_lt h]

/-- Bits above the width do not count. -/
theorem ofNat_add_mul (w v k : Nat) : ofNat w (v + k * 2 ^ w) = ofNat w v := by
  induction w generalizing k with
  | zero => rfl
  | succ w ih =>
      have hv : v + k * 2 ^ (w + 1) = v + k * 2 * 2 ^ w := by ring
      have hbit : (v + k * 2 ^ (w + 1)).testBit w = v.testBit w := by
        simp only [Nat.testBit_eq_decide_div_mod_eq]
        rw [hv, Nat.add_mul_div_right _ _ (Nat.two_pow_pos w), Nat.add_mul_mod_self_right]
      rw [ofNat, ofNat, hbit, hv, ih]

/-- The high and the low bits of a number. -/
theorem ofNat_add (m n v : Nat) : ofNat (m + n) v = ofNat m (v / 2 ^ n) ++ ofNat n v := by
  induction m with
  | zero => rw [Nat.zero_add, ofNat, List.nil_append]
  | succ m ih =>
      rw [Nat.add_right_comm, ofNat, ofNat, ih, Nat.testBit_div_two_pow, List.cons_append]

/-- A bit string is the bits of its number. -/
theorem ofNat_toNat (bits : List Bool) : ofNat bits.length (toNat bits) = bits := by
  induction bits with
  | nil => rfl
  | cons b bits ih =>
      have hlt := toNat_lt bits
      have hbit : (toNat bits + b.toNat * 2 ^ bits.length).testBit bits.length = b := by
        rw [Nat.testBit_eq_decide_div_mod_eq, Nat.add_mul_div_right _ _ (Nat.two_pow_pos _),
          Nat.div_eq_of_lt hlt]
        cases b <;> rfl
      rw [toNat_cons, Nat.add_comm, List.length_cons, ofNat, hbit, ofNat_add_mul, ih]

/-! ## Bytes -/

/-- The bits of a byte. -/
def ofByte (b : UInt8) : List Bool := ofNat 8 b.toNat

@[simp] theorem length_ofByte (b : UInt8) : (ofByte b).length = 8 := length_ofNat 8 _

/-- The bits of a byte string. -/
def ofBytes (bytes : List UInt8) : List Bool := bytes.flatMap ofByte

@[simp] theorem ofBytes_nil : ofBytes [] = [] := rfl

@[simp] theorem ofBytes_cons (b : UInt8) (bytes : List UInt8) :
    ofBytes (b :: bytes) = ofByte b ++ ofBytes bytes := rfl

@[simp] theorem length_ofBytes (bytes : List UInt8) :
    (ofBytes bytes).length = 8 * bytes.length := by
  induction bytes with
  | nil => rfl
  | cons b bytes ih =>
      rw [ofBytes_cons, List.length_append, length_ofByte, ih, List.length_cons]
      omega

theorem ofBytes_append (as bs : List UInt8) : ofBytes (as ++ bs) = ofBytes as ++ ofBytes bs :=
  List.flatMap_append ..

/-- The bytes of a bit string, eight bits each; an incomplete byte is left out. -/
def pack : List Bool → List UInt8
  | b₇ :: b₆ :: b₅ :: b₄ :: b₃ :: b₂ :: b₁ :: b₀ :: bits =>
      UInt8.ofNat (toNat [b₇, b₆, b₅, b₄, b₃, b₂, b₁, b₀]) :: pack bits
  | _ => []

/-- Packing eight bits and reading them back. -/
theorem ofByte_toNat {bits : List Bool} (h : bits.length = 8) :
    ofByte (UInt8.ofNat (toNat bits)) = bits := by
  have hlt : toNat bits < 2 ^ 8 := h ▸ toNat_lt bits
  rw [ofByte, UInt8.toNat_ofNat', Nat.mod_eq_of_lt hlt, ← h, ofNat_toNat]

/-- Whole bytes are read back as they were packed. -/
theorem ofBytes_pack {bits : List Bool} (h : 8 ∣ bits.length) : ofBytes (pack bits) = bits := by
  induction bits using pack.induct with
  | case1 b₇ b₆ b₅ b₄ b₃ b₂ b₁ b₀ bits ih =>
      have hbits : 8 ∣ bits.length := by
        simp only [List.length_cons] at h
        omega
      rw [pack, ofBytes_cons, ofByte_toNat rfl, ih hbits]
      rfl
  | case2 bits hshort =>
      have hlen : bits.length < 8 := by
        by_contra hlen
        match bits, hlen with
        | b₇ :: b₆ :: b₅ :: b₄ :: b₃ :: b₂ :: b₁ :: b₀ :: bits, _ =>
            exact hshort _ _ _ _ _ _ _ _ _ rfl
        | [], h | [_], h | [_, _], h | [_, _, _], h | [_, _, _, _], h | [_, _, _, _, _], h
        | [_, _, _, _, _, _], h | [_, _, _, _, _, _, _], h => simp at h
      have hnil : bits = [] := List.length_eq_zero_iff.mp (by omega)
      subst hnil
      rfl

/-! ## Exp-Golomb codes -/

/-- `ue(v)`: as many zeros as `v + 1` has bits after its first, then `v + 1`. -/
def ue (v : Nat) : List Bool :=
  List.replicate (Nat.log 2 (v + 1)) false ++ ofNat (Nat.log 2 (v + 1) + 1) (v + 1)

/-- The number `se(v)` codes for an integer: the positive ones are odd. -/
def seCodeNum (s : Int) : Nat := if 0 < s then (2 * s - 1).toNat else (-2 * s).toNat

/-- `se(v)`. -/
def se (s : Int) : List Bool := ue (seCodeNum s)

/-- After the zeros of `ue(v)` comes a one, and then the rest of `v + 1`. -/
theorem ue_eq (v : Nat) :
    ue v = List.replicate (Nat.log 2 (v + 1)) false ++
      true :: ofNat (Nat.log 2 (v + 1)) (v + 1) := by
  have hlow : 2 ^ Nat.log 2 (v + 1) ≤ v + 1 := Nat.pow_log_le_self 2 (Nat.succ_ne_zero v)
  have hhigh : v + 1 < 2 ^ (Nat.log 2 (v + 1) + 1) := Nat.lt_pow_succ_log_self (by decide) _
  have hdiv : (v + 1) / 2 ^ Nat.log 2 (v + 1) = 1 := by
    refine Nat.div_eq_of_lt_le (by simpa using hlow) ?_
    rw [Nat.pow_succ] at hhigh
    omega
  have hbit : (v + 1).testBit (Nat.log 2 (v + 1)) = true := by
    rw [Nat.testBit_eq_decide_div_mod_eq, hdiv]
    rfl
  rw [ue, ofNat, hbit]

theorem length_ue (v : Nat) : (ue v).length = 2 * Nat.log 2 (v + 1) + 1 := by
  rw [ue, List.length_append, List.length_replicate, length_ofNat]
  omega

/-- The code of a 32-bit value takes at most 63 bits. -/
theorem length_ue_le {v : Nat} (h : v < 2 ^ 32 - 1) : (ue v).length ≤ 63 := by
  have : Nat.log 2 (v + 1) < 32 := Nat.log_lt_of_lt_pow (by omega) (by omega)
  rw [length_ue]
  omega

end Bits
