import Mathlib.Algebra.Order.Ring.Int
import Mathlib.Data.Finset.Image
import Mathlib.Data.Multiset.Count

/-!
# CommonsC.Base.Shift

Shifting the keys of a table in place.

A table of entries is known by the multiset of its keys.  To shift the keys
from `lo` on by `δ`, an in-place loop goes from the largest key down to `lo`,
and at each key `i` moves one entry to `i + δ`, or drops it if that is not in
the range from `lower` to `upper` (`slideOne`).  On keys that have no hole the
loop does what it is meant to do (`shift`); a hole would let an entry that was
moved down once be met, and moved, again.  `slideOne_le_expected` and
`expected_le_slideOne` are the two halves of the loop invariant.

What the loop does on any keys, `Slid` says of the keys before and after it: a
key that the loop meets (`Meets`) loses an entry, and gets one if the loop meets
what is to go there.
-/

namespace Shift

variable {lower upper δ lo hi : ℤ} {T : Finset ℤ}

/-- One round of the loop, at the key `i`. -/
def slideOne (lower upper δ i : ℤ) (s : Multiset ℤ) : Multiset ℤ :=
  if i ∈ s then
    if lower ≤ i + δ ∧ i + δ ≤ upper then (i + δ) ::ₘ s.erase i else s.erase i
  else s

/-- What the loop is meant to do: keys from `lo` to `upper` are shifted, and
dropped when they leave the range. -/
def shift (lower upper δ lo : ℤ) (T : Finset ℤ) : Finset ℤ :=
  {p ∈ T | p < lo ∨ upper < p} ∪
    {p ∈ {p ∈ T | lo ≤ p ∧ p ≤ upper}.image (· + δ) | lower ≤ p ∧ p ≤ upper}

theorem mem_shift {q : ℤ} :
    q ∈ shift lower upper δ lo T ↔
      (q ∈ T ∧ (q < lo ∨ upper < q)) ∨
        (q - δ ∈ T ∧ lo ≤ q - δ ∧ q - δ ≤ upper ∧ lower ≤ q ∧ q ≤ upper) := by
  simp only [shift, Finset.mem_union, Finset.mem_filter, Finset.mem_image]
  constructor
  · rintro (h | ⟨⟨p, ⟨hp, hlo, hup⟩, rfl⟩, h⟩)
    · exact .inl h
    · rw [Int.add_sub_cancel]
      exact .inr ⟨hp, hlo, hup, h⟩
  · rintro (h | ⟨hp, hlo, hup, h⟩)
    · exact .inl h
    · exact .inr ⟨⟨q - δ, ⟨hp, hlo, hup⟩, Int.sub_add_cancel q δ⟩, h⟩

/-- Nothing is shifted if there is nothing to shift. -/
theorem shift_of_lt (h : ∀ p ∈ T, p ≤ upper → p < lo) : shift lower upper δ lo T = T := by
  ext q
  rw [mem_shift]
  constructor
  · rintro (hq | ⟨hq, hlo, hup, -⟩)
    · exact hq.1
    · have := h (q - δ) hq hup
      omega
  · intro hq
    have := h q hq
    exact .inl ⟨hq, by omega⟩

/-- Moving down never passes over a key that is not there. -/
def HoleFree (lower upper δ lo : ℤ) (T : Finset ℤ) : Prop :=
  δ < 0 → ∀ p ∈ T, lo ≤ p + δ → p ≤ upper → lower ≤ p + δ → p + δ ∈ T

instance : Decidable (HoleFree lower upper δ lo T) := inferInstanceAs (Decidable (_ → _))

/-- How often the key `q` is to be there when the loop has come down to `i`:
once if it was there and is still to come or stays, and once more if an entry
was moved to it. -/
def expected (lower upper δ hi : ℤ) (T : Finset ℤ) (i q : ℤ) : ℕ :=
  (if q ∈ T ∧ (q ≤ i ∨ hi < q) then 1 else 0) +
    if q - δ ∈ T ∧ i < q - δ ∧ q - δ ≤ hi ∧ lower ≤ q ∧ q ≤ upper then 1 else 0

/-- Before the loop every key is there as it was. -/
theorem expected_init (q : ℤ) : expected lower upper δ hi T hi q = T.val.count q := by
  have hnone : ¬(q - δ ∈ T ∧ hi < q - δ ∧ q - δ ≤ hi ∧ lower ≤ q ∧ q ≤ upper) := by omega
  have hall : (q ∈ T ∧ (q ≤ hi ∨ hi < q)) ↔ q ∈ T := ⟨And.left, fun h => ⟨h, by omega⟩⟩
  rw [expected, if_neg hnone, if_congr hall rfl rfl, Nat.add_zero,
    Multiset.count_eq_of_nodup T.nodup]
  rfl

/-- After the loop every key is there as it should. -/
theorem expected_last (hhi : hi ≤ upper) (hT : ∀ p ∈ T, p ≤ upper → p ≤ hi)
    (hgap : ∀ p ∈ T, p < lo → p < lo + δ) (q : ℤ) :
    expected lower upper δ hi T (lo - 1) q = (shift lower upper δ lo T).val.count q := by
  have hstay : (q ∈ T ∧ (q ≤ lo - 1 ∨ hi < q)) ↔ (q ∈ T ∧ (q < lo ∨ upper < q)) := by
    refine and_congr_right fun hq => ?_
    have := hT q hq
    omega
  have hland : (q - δ ∈ T ∧ lo - 1 < q - δ ∧ q - δ ≤ hi ∧ lower ≤ q ∧ q ≤ upper) ↔
      (q - δ ∈ T ∧ lo ≤ q - δ ∧ q - δ ≤ upper ∧ lower ≤ q ∧ q ≤ upper) := by
    refine and_congr_right fun hq => ?_
    have := hT (q - δ) hq
    omega
  have hmem : q ∈ (shift lower upper δ lo T).val ↔ _ := mem_shift
  rw [expected, if_congr hstay rfl rfl, if_congr hland rfl rfl,
    Multiset.count_eq_of_nodup (shift lower upper δ lo T).nodup]
  by_cases hA : q ∈ T ∧ (q < lo ∨ upper < q)
  · -- Nothing lands on a key that stays.
    have hB : ¬(q - δ ∈ T ∧ lo ≤ q - δ ∧ q - δ ≤ upper ∧ lower ≤ q ∧ q ≤ upper) := by
      have := hgap q hA.1
      omega
    rw [if_pos hA, if_neg hB, if_pos (hmem.2 (.inl hA))]
  · rw [if_neg hA, Nat.zero_add]
    refine if_congr ?_ rfl rfl
    exact ⟨fun h => hmem.2 (.inr h), fun h => (hmem.1 h).resolve_left hA⟩

/-! ## The loop invariant -/

/-- The keys after a round. -/
theorem count_slideOne (s : Multiset ℤ) {i : ℤ} (hi : i ∈ s) (q : ℤ) :
    (slideOne lower upper δ i s).count q =
      (if q = i then s.count q - 1 else s.count q) +
        if q = i + δ ∧ lower ≤ q ∧ q ≤ upper then 1 else 0 := by
  have herase : (s.erase i).count q = if q = i then s.count q - 1 else s.count q := by
    split
    · next h => rw [h, Multiset.count_erase_self]
    · next h => rw [Multiset.count_erase_of_ne h]
  rw [slideOne, if_pos hi, ← herase]
  split
  · next hrange =>
      rw [Multiset.count_cons]
      congr 1
      refine if_congr ⟨fun h => ?_, And.left⟩ rfl rfl
      rw [h]
      exact ⟨rfl, hrange⟩
  · next hrange =>
      rw [if_neg]
      · rfl
      · rintro ⟨rfl, h⟩
        exact hrange h

/-- A round adds to what is expected where the key `i` goes, and takes from
it at `i`. -/
theorem expected_round {i : ℤ} (hi' : i ≤ hi) (q : ℤ) :
    expected lower upper δ hi T (i - 1) q + (if q = i ∧ i ∈ T then 1 else 0) =
      expected lower upper δ hi T i q +
        if (q = i + δ ∧ lower ≤ q ∧ q ≤ upper) ∧ i ∈ T then 1 else 0 := by
  have hstay : (if q ∈ T ∧ (q ≤ i - 1 ∨ hi < q) then 1 else 0) + (if q = i ∧ i ∈ T then 1 else 0) =
      if q ∈ T ∧ (q ≤ i ∨ hi < q) then 1 else 0 := by
    by_cases h : q = i
    · subst h
      have hnot : ¬(q ≤ q - 1 ∨ hi < q) := by omega
      have hyes : q ≤ q ∨ hi < q := .inl le_rfl
      simp only [hnot, hyes, and_false, if_false, true_and, and_true, Nat.zero_add]
    · have heq : (q ≤ i - 1 ∨ hi < q) ↔ (q ≤ i ∨ hi < q) := by omega
      simp only [heq, h, false_and, if_false, Nat.add_zero]
  have hland : (if q - δ ∈ T ∧ i - 1 < q - δ ∧ q - δ ≤ hi ∧ lower ≤ q ∧ q ≤ upper then 1 else 0) =
      (if q - δ ∈ T ∧ i < q - δ ∧ q - δ ≤ hi ∧ lower ≤ q ∧ q ≤ upper then 1 else 0) +
        if (q = i + δ ∧ lower ≤ q ∧ q ≤ upper) ∧ i ∈ T then 1 else 0 := by
    by_cases h : q = i + δ
    · subst h
      have hnot : ¬i < i := lt_irrefl i
      have hyes : i - 1 < i := by omega
      simp only [Int.add_sub_cancel, hnot, hyes, hi', false_and, and_false, if_false, true_and,
        Nat.zero_add]
      exact if_congr and_comm rfl rfl
    · have heq : i - 1 < q - δ ↔ i < q - δ := by omega
      simp only [heq, h, false_and, if_false, Nat.add_zero]
  rw [expected, expected, hland, ← hstay]
  omega

/-- Nothing is expected at a hole. -/
theorem expected_hole (hfree : HoleFree lower upper δ lo T) (hhi : hi ≤ upper) {i : ℤ}
    (hlo : lo ≤ i) (hT : i ∉ T) : expected lower upper δ hi T i i = 0 := by
  have hland : ¬(i - δ ∈ T ∧ i < i - δ ∧ i - δ ≤ hi ∧ lower ≤ i ∧ i ≤ upper) := by
    rintro ⟨hmem, hlt, hle, hlower, -⟩
    have := hfree (by omega) (i - δ) hmem (by omega) (by omega) (by omega)
    rw [Int.sub_add_cancel] at this
    exact hT this
  rw [expected, if_neg fun h => hT h.1, if_neg hland]

variable {s : Multiset ℤ} {i : ℤ}

/-- Where a key that is expected is, a round changes as much of what there is as
of what is expected. -/
theorem slideOne_add_expected (hi' : i ≤ hi) (hs : i ∈ s) (hT : i ∈ T) (q : ℤ) :
    (slideOne lower upper δ i s).count q + expected lower upper δ hi T i q =
      expected lower upper δ hi T (i - 1) q + s.count q := by
  have hround : expected lower upper δ hi T (i - 1) q + _ = _ := expected_round hi' q
  have hpos := Multiset.count_pos.2 hs
  simp only [hT, and_true] at hround
  rw [count_slideOne s hs]
  by_cases hqi : q = i
  · rw [← hqi] at hpos
    rw [if_pos hqi] at hround
    rw [if_pos hqi]
    omega
  · rw [if_neg hqi] at hround
    rw [if_neg hqi]
    omega

/-- **At most what is expected** is kept by a round. -/
theorem slideOne_le_expected (hfree : HoleFree lower upper δ lo T) (hhi : hi ≤ upper)
    (hlo : lo ≤ i) (hi' : i ≤ hi) (h : ∀ q, s.count q ≤ expected lower upper δ hi T i q) (q : ℤ) :
    (slideOne lower upper δ i s).count q ≤ expected lower upper δ hi T (i - 1) q := by
  have hq := h q
  by_cases hs : i ∈ s
  · have hT : i ∈ T := by
      by_contra hT
      have := h i
      rw [expected_hole hfree hhi hlo hT] at this
      exact Multiset.count_pos.2 hs |>.ne' (Nat.le_zero.1 this)
    have hround : (slideOne lower upper δ i s).count q + _ = _ := slideOne_add_expected hi' hs hT q
    omega
  · have hround : expected lower upper δ hi T (i - 1) q + _ = _ := expected_round hi' q
    have hzero : s.count i = 0 := Multiset.count_eq_zero.2 hs
    rw [slideOne, if_neg hs]
    by_cases hqi : q = i
    · rw [hqi, hzero]
      exact Nat.zero_le _
    · simp only [hqi, false_and, if_false, Nat.add_zero] at hround
      omega

/-- **At least what is expected** is kept by a round. -/
theorem expected_le_slideOne (hfree : HoleFree lower upper δ lo T) (hhi : hi ≤ upper)
    (hlo : lo ≤ i) (hi' : i ≤ hi) (h : ∀ q, expected lower upper δ hi T i q ≤ s.count q) (q : ℤ) :
    expected lower upper δ hi T (i - 1) q ≤ (slideOne lower upper δ i s).count q := by
  have hq := h q
  by_cases hT : i ∈ T
  · have hs : i ∈ s := by
      have := h i
      rw [expected, if_pos ⟨hT, .inl le_rfl⟩] at this
      exact Multiset.count_pos.1 (by omega)
    have hround : (slideOne lower upper δ i s).count q + _ = _ := slideOne_add_expected hi' hs hT q
    omega
  · have hround : expected lower upper δ hi T (i - 1) q + _ = _ := expected_round hi' q
    simp only [hT, and_false, if_false, Nat.add_zero] at hround
    rw [hround]
    by_cases hs : i ∈ s
    · rw [count_slideOne s hs]
      by_cases hqi : q = i
      · rw [hqi, expected_hole hfree hhi hlo hT]
        exact Nat.zero_le _
      · rw [if_neg hqi]
        omega
    · rw [slideOne, if_neg hs]
      exact hq

/-! ## Any keys -/

/-- The loop meets an entry at the key `q`: one that was there, or one that it has
moved down to there in `n` rounds. -/
def Meets (lower δ lo hi : ℤ) (s : Multiset ℤ) (q : ℤ) : Prop :=
  lo ≤ q ∧ q ≤ hi ∧ ∃ n : ℕ, q - n * δ ∈ s ∧ q - n * δ ≤ hi ∧ (0 < n → δ < 0 ∧ lower ≤ q)

/-- The loop moves an entry to the key `q`. -/
def Lands (lower upper δ lo hi : ℤ) (s : Multiset ℤ) (q : ℤ) : Prop :=
  Meets lower δ lo hi s (q - δ) ∧ lower ≤ q ∧ q ≤ upper

open Classical in
/-- The keys `t` that the loop has made of `s` when it has come down to `i`. -/
def Midway (lower upper δ lo hi : ℤ) (s : Multiset ℤ) (i : ℤ) (t : Multiset ℤ) : Prop :=
  ∀ q, t.count q + (if i < q ∧ Meets lower δ lo hi s q then 1 else 0) =
    s.count q + if i < q - δ ∧ Lands lower upper δ lo hi s q then 1 else 0

open Classical in
/-- **The keys `t` that the loop makes of `s`.** -/
def Slid (lower upper δ lo hi : ℤ) (s t : Multiset ℤ) : Prop :=
  ∀ q, t.count q + (if Meets lower δ lo hi s q then 1 else 0) =
    s.count q + if Lands lower upper δ lo hi s q then 1 else 0

theorem midway_init : Midway lower upper δ lo hi s hi s := by
  intro q
  rw [if_neg fun h => absurd h.2.2.1 (by omega), if_neg fun h => absurd h.2.1.2.1 (by omega)]

/-- What the loop meets was there, or has landed there from above. -/
theorem meets_iff (hhi : hi ≤ upper) (hlo : lo ≤ i) (hi' : i ≤ hi) :
    Meets lower δ lo hi s i ↔ i ∈ s ∨ (δ < 0 ∧ Lands lower upper δ lo hi s i) := by
  constructor
  · rintro ⟨-, -, n, hmem, hle, hdown⟩
    cases n with
    | zero =>
        refine .inl ?_
        rwa [Int.natCast_zero, Int.zero_mul, Int.sub_zero] at hmem
    | succ n =>
        obtain ⟨hδ, hlower⟩ := hdown n.succ_pos
        have hnext : i - ↑(n + 1) * δ = i - δ - n * δ := by
          push_cast
          rw [Int.add_mul, Int.one_mul]
          omega
        have hn : (n : ℤ) * δ ≤ 0 := Int.mul_nonpos_of_nonneg_of_nonpos (by omega) hδ.le
        rw [hnext] at hmem hle
        exact .inr ⟨hδ, ⟨by omega, by omega, n, hmem, hle, fun _ => ⟨hδ, by omega⟩⟩, hlower,
          hi'.trans hhi⟩
  · rintro (hmem | ⟨hδ, ⟨-, -, n, hmem, hle, -⟩, hlower, -⟩)
    · refine ⟨hlo, hi', 0, ?_, ?_, nofun⟩
      · rwa [Int.natCast_zero, Int.zero_mul, Int.sub_zero]
      · rwa [Int.natCast_zero, Int.zero_mul, Int.sub_zero]
    · have hnext : i - ↑(n + 1) * δ = i - δ - n * δ := by
        push_cast
        rw [Int.add_mul, Int.one_mul]
        omega
      rw [← hnext] at hmem hle
      exact ⟨hlo, hi', n + 1, hmem, hle, fun _ => ⟨hδ, hlower⟩⟩

section

variable {t : Multiset ℤ} (hhi : hi ≤ upper) (hlo : lo ≤ i) (hi' : i ≤ hi)
  (h : Midway lower upper δ lo hi s i t)

include hhi hlo hi' h

/-- A round finds an entry exactly where the loop meets one. -/
theorem Midway.mem_iff : i ∈ t ↔ Meets lower δ lo hi s i := by
  have hcount := h i
  rw [if_neg fun hlt => lt_irrefl i hlt.1] at hcount
  rw [meets_iff hhi hlo hi', ← Multiset.count_pos, ← Multiset.count_pos, ← Nat.add_zero (t.count i),
    hcount]
  split
  · next hland => exact iff_of_true (by omega) (.inr ⟨by omega, hland.2⟩)
  · next hland =>
      exact ⟨.inl, fun hmeets => hmeets.resolve_right fun hdown => hland ⟨by omega, hdown.2⟩⟩

/-- **One round** takes an entry from the key `i`, and moves it if it is to land. -/
theorem Midway.slideOne :
    Midway lower upper δ lo hi s (i - 1) (slideOne lower upper δ i t) := by
  classical
  have hmeets := h.mem_iff hhi hlo hi'
  intro q
  have hq := h q
  have htake : (if i - 1 < q ∧ Meets lower δ lo hi s q then 1 else 0) =
      (if i < q ∧ Meets lower δ lo hi s q then 1 else 0) +
        if q = i ∧ i ∈ t then 1 else 0 := by
    by_cases hqi : q = i
    · have hnot : ¬i < i := lt_irrefl i
      have hyes : i - 1 < i := by omega
      simp only [hqi, hmeets, hnot, hyes, true_and, false_and, if_false, Nat.zero_add]
    · have heq : i - 1 < q ↔ i < q := by omega
      simp only [heq, hqi, false_and, if_false, Nat.add_zero]
  have hland : (if i - 1 < q - δ ∧ Lands lower upper δ lo hi s q then 1 else 0) =
      (if i < q - δ ∧ Lands lower upper δ lo hi s q then 1 else 0) +
        if (q = i + δ ∧ lower ≤ q ∧ q ≤ upper) ∧ i ∈ t then 1 else 0 := by
    by_cases hqi : q = i + δ
    · have hnot : ¬i < i := lt_irrefl i
      have hyes : i - 1 < i := by omega
      simp only [Lands, hqi, Int.add_sub_cancel, hmeets, hnot, hyes, true_and, false_and, if_false,
        Nat.zero_add]
      exact if_congr and_comm rfl rfl
    · have heq : i - 1 < q - δ ↔ i < q - δ := by omega
      simp only [heq, hqi, false_and, if_false, Nat.add_zero]
  rw [htake, hland]
  by_cases hmem : i ∈ t
  · have hpos := Multiset.count_pos.2 hmem
    simp only [hmem, and_true]
    rw [count_slideOne t hmem]
    by_cases hqi : q = i
    · rw [← hqi] at hpos
      rw [if_pos hqi, if_pos hqi]
      omega
    · rw [if_neg hqi, if_neg hqi]
      omega
  · simp only [hmem, and_false, if_false, Nat.add_zero]
    rw [Shift.slideOne, if_neg hmem]
    exact hq

end

/-- At the end of the loop. -/
theorem Midway.slid {t : Multiset ℤ} (hi' : i < lo)
    (h : Midway lower upper δ lo hi s i t) : Slid lower upper δ lo hi s t := by
  classical
  intro q
  have hq := h q
  have htake : (i < q ∧ Meets lower δ lo hi s q) ↔ Meets lower δ lo hi s q :=
    ⟨And.right, fun hmeets => ⟨hi'.trans_le hmeets.1, hmeets⟩⟩
  have hland : (i < q - δ ∧ Lands lower upper δ lo hi s q) ↔ Lands lower upper δ lo hi s q :=
    ⟨And.right, fun hlands => ⟨hi'.trans_le hlands.1.1, hlands⟩⟩
  rwa [if_congr htake rfl rfl, if_congr hland rfl rfl] at hq

end Shift
