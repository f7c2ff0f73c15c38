import CommonsC.ArrayList.Model
import Mathlib.Data.Nat.Log

/-!
# CommonsC.ArrayList.Growth

How far the loop of `ensure_capacity` can double a capacity.

The loop doubles until the size fits, and looks at nothing else: it does not
ask whether the next doubling is still an `int`.  The capacities that it can
reach from `c` are the `c * 2 ^ k`, and the largest one within a limit `m` is
`topDoubling m c`.  What comes out of the loop is always large enough and an
`int`; something comes out exactly up to the top (`exists_grow_iff`).
-/

namespace CommonsC.ArrayList

/-! ## Doubling within a limit -/

/-- The largest `c * 2 ^ k` that is at most `m`. -/
def topDoubling (m c : Nat) : Nat := c * 2 ^ Nat.log 2 (m / c)

variable {m c k : Nat}

theorem topDoubling_le (hc : c ≠ 0) (hcm : c ≤ m) : topDoubling m c ≤ m := by
  have hpos : m / c ≠ 0 := (Nat.div_pos hcm (Nat.pos_of_ne_zero hc)).ne'
  calc c * 2 ^ Nat.log 2 (m / c)
      ≤ c * (m / c) := Nat.mul_le_mul_left c (Nat.pow_log_le_self 2 hpos)
    _ ≤ m := Nat.mul_div_le m c

theorem le_topDoubling : c ≤ topDoubling m c :=
  Nat.le_mul_of_pos_right c (Nat.pow_pos (by decide))

theorem le_topDoubling_of_le (hc : c ≠ 0) (h : c * 2 ^ k ≤ m) : c * 2 ^ k ≤ topDoubling m c := by
  have hpow : 2 ^ k ≤ m / c := by
    rwa [Nat.le_div_iff_mul_le (Nat.pos_of_ne_zero hc), Nat.mul_comm]
  have hpos : m / c ≠ 0 := (Nat.lt_of_lt_of_le (Nat.pow_pos (by decide)) hpow).ne'
  exact Nat.mul_le_mul_left c
    (Nat.pow_le_pow_right (by decide) (Nat.le_log_of_pow_le (by decide) hpow))

/-- The top is the largest capacity within the limit. -/
theorem isGreatest_topDoubling (hc : c ≠ 0) (hcm : c ≤ m) :
    IsGreatest {r | r ≤ m ∧ ∃ k, r = c * 2 ^ k} (topDoubling m c) := by
  refine ⟨⟨topDoubling_le hc hcm, _, rfl⟩, ?_⟩
  rintro r ⟨hr, k, rfl⟩
  exact le_topDoubling_of_le hc hr

/-- The top is the same after a doubling. -/
theorem topDoubling_double (hc : c ≠ 0) (hcm : c * 2 ≤ m) :
    topDoubling m (c * 2) = topDoubling m c := by
  have htwo : 2 ≤ m / c := (Nat.le_div_iff_mul_le (Nat.pos_of_ne_zero hc)).2 (by omega)
  have hlog : Nat.log 2 (m / c) ≠ 0 := (Nat.log_pos (by decide) htwo).ne'
  rw [topDoubling, topDoubling, ← Nat.div_div_eq_div_mul, Nat.log_div_base, Nat.mul_assoc,
    ← Nat.pow_succ', Nat.succ_eq_add_one, Nat.sub_add_cancel (Nat.pos_of_ne_zero hlog)]

/-- The top is reached when another doubling is too much. -/
theorem topDoubling_eq_self (hm : m < c * 2) : topDoubling m c = c := by
  have hlt : m / c < 2 := Nat.div_lt_of_lt_mul hm
  rw [topDoubling, Nat.log_of_lt hlt, Nat.pow_zero, Nat.mul_one]

/-! ## The loop -/

theorem intMax_eq : intMax = ((2 ^ 31 - 1 : Nat) : Int) := rfl

/-- What comes out of the loop is large enough, and an `int`. -/
theorem of_grow {new_size new_capacity : Int} {hpos : 0 < new_capacity} {result : Int}
    (hmax : new_capacity ≤ intMax) (h : grow new_size new_capacity hpos = some result) :
    new_size ≤ result ∧ result ≤ intMax := by
  induction new_capacity, hpos using grow.induct new_size with
  | case1 new_capacity hpos hlt hdouble ih =>
      rw [grow, if_pos hlt, if_pos hdouble] at h
      exact ih hdouble h
  | case2 new_capacity hpos hlt hover =>
      rw [grow, if_pos hlt, if_neg hover] at h
      cases h
  | case3 new_capacity hpos hge =>
      rw [grow, if_neg hge] at h
      cases h
      exact ⟨Int.not_lt.1 hge, hmax⟩

/-- The loop comes to an end with a capacity exactly if the top is large
enough. -/
theorem exists_grow {new_size new_capacity : Int} (hpos : 0 < new_capacity)
    (hmax : new_capacity ≤ intMax) :
    (∃ result, grow new_size new_capacity hpos = some result) ↔
      new_size ≤ topDoubling (2 ^ 31 - 1) new_capacity.toNat := by
  have hmax' := intMax_eq
  induction new_capacity, hpos using grow.induct new_size with
  | case1 new_capacity hpos hlt hdouble ih =>
      have htop : topDoubling (2 ^ 31 - 1) (new_capacity * 2).toNat =
          topDoubling (2 ^ 31 - 1) new_capacity.toNat := by
        rw [show (new_capacity * 2).toNat = new_capacity.toNat * 2 by omega]
        exact topDoubling_double (by omega) (by omega)
      rw [grow, if_pos hlt, if_pos hdouble, ← htop]
      exact ih hdouble
  | case2 new_capacity hpos hlt hover =>
      have htop : topDoubling (2 ^ 31 - 1) new_capacity.toNat = new_capacity.toNat :=
        topDoubling_eq_self (by omega)
      rw [grow, if_pos hlt, if_neg hover, htop]
      constructor
      · rintro ⟨_, h⟩
        cases h
      · intro hle
        omega
  | case3 new_capacity hpos hge =>
      have hle := le_topDoubling (m := 2 ^ 31 - 1) (c := new_capacity.toNat)
      rw [grow, if_neg hge]
      refine ⟨fun _ => by omega, fun _ => ⟨_, rfl⟩⟩

/-- The top is the same when the loop has ended. -/
theorem topDoubling_of_grow {new_size new_capacity : Int} {hpos : 0 < new_capacity} {result : Int}
    (h : grow new_size new_capacity hpos = some result) :
    topDoubling (2 ^ 31 - 1) result.toNat = topDoubling (2 ^ 31 - 1) new_capacity.toNat := by
  have hmax := intMax_eq
  induction new_capacity, hpos using grow.induct new_size with
  | case1 new_capacity hpos hlt hdouble ih =>
      rw [grow, if_pos hlt, if_pos hdouble] at h
      rw [ih h, show (new_capacity * 2).toNat = new_capacity.toNat * 2 by omega]
      exact topDoubling_double (by omega) (by omega)
  | case2 new_capacity hpos hlt hover =>
      rw [grow, if_pos hlt, if_neg hover] at h
      cases h
  | case3 new_capacity hpos hge =>
      rw [grow, if_neg hge] at h
      cases h
      rfl

theorem startCapacity_le {capacity : Int} (h : capacity ≤ intMax) :
    startCapacity capacity ≤ intMax := by
  have hmax := intMax_eq
  rw [startCapacity]
  split <;> omega

/-- **The loop of `ensure_capacity` ends with a capacity that the new size fits
in, and that is an `int`, exactly if the size is below the largest `int` that
the capacity can be doubled to.** -/
theorem exists_grow_iff (capacity size : Int) (hcapacity : capacity ≤ 2 ^ 31 - 1) :
    (∃ new_capacity,
        grow (size + 1) (startCapacity capacity) (startCapacity_pos capacity) = some new_capacity ∧
        size + 1 ≤ new_capacity ∧ new_capacity ≤ 2 ^ 31 - 1) ↔
      size < topDoubling (2 ^ 31 - 1) (max capacity 1).toNat := by
  have hmax : startCapacity capacity ≤ intMax := startCapacity_le hcapacity
  have hstart : max capacity 1 = startCapacity capacity := by
    rw [startCapacity]
    split <;> omega
  rw [hstart, ← Int.add_one_le_iff, ← exists_grow (startCapacity_pos capacity) hmax]
  constructor
  · rintro ⟨new_capacity, h, -⟩
    exact ⟨new_capacity, h⟩
  · rintro ⟨new_capacity, h⟩
    exact ⟨new_capacity, h, of_grow hmax h⟩

/-- A full list of 16 items grows. -/
theorem exists_grow_sixteen :
    ∃ new_capacity,
      grow (16 + 1) (startCapacity 16) (startCapacity_pos 16) = some new_capacity ∧
        16 + 1 ≤ new_capacity ∧ new_capacity ≤ 2 ^ 31 - 1 :=
  (exists_grow_iff 16 16 (by decide)).2 (by decide +kernel)

/-- A full list of `2 ^ 30` items cannot grow: twice its capacity is no `int`. -/
theorem grow_overflows :
    ¬∃ new_capacity,
      grow (2 ^ 30 + 1) (startCapacity (2 ^ 30)) (startCapacity_pos (2 ^ 30)) = some new_capacity ∧
        2 ^ 30 + 1 ≤ new_capacity ∧ new_capacity ≤ 2 ^ 31 - 1 := by
  rintro ⟨new_capacity, h, -⟩
  rw [grow, if_pos (by decide), if_neg (by decide)] at h
  cases h

end CommonsC.ArrayList
