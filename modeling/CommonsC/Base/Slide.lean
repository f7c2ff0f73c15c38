import Mathlib.Algebra.Order.Ring.Int
import Mathlib.Data.List.Nodup

/-!
# CommonsC.Base.Slide

Moving the entries of a list in place, one key after the other.

A list of entries is searched by key, and the first entry at a key is moved to
another key, or dropped (`slideFirst`).  A loop that does so at every key from
`hi` downwards is meant to move every entry once (`slid`).  It does, as long as
no entry is in front at the key it was moved to (`LedAt`); an entry that is gets
moved again, and never comes back (`misled`).

This is `CommonsC.Base.Shift` with the entries told apart.
-/

namespace Slide

variable {α : Type*} (key : α → ℤ) (move : α → Option α)

/-- Move the first entry at the key `i`. -/
def slideFirst (i : ℤ) : List α → List α
  | [] => []
  | a :: l => if key a = i then (move a).toList ++ l else a :: slideFirst i l

/-- What is to become of an entry when the loop has come down to `i`. -/
def slid (hi i : ℤ) (a : α) : Option α := if i < key a ∧ key a ≤ hi then move a else some a

/-- An entry that was moved to the key `i` stands behind one that was there. -/
def LedAt (hi i : ℤ) (l : List α) : Prop :=
  ∀ x ∈ l, i < key x → key x ≤ hi → ∀ y, move x = some y → key y = i →
    ∃ m, key m = i ∧ List.Sublist [m, x] l

variable {key move} {l a b : List α} {hi i : ℤ} {x y : α}

theorem slideFirst_append (ha : ∀ m ∈ a, key m ≠ i) (hx : key x = i) :
    slideFirst key move i (a ++ x :: b) = a ++ ((move x).toList ++ b) := by
  induction a with
  | nil => rw [List.nil_append, slideFirst, if_pos hx, List.nil_append]
  | cons m a ih =>
      rw [List.cons_append, slideFirst, if_neg (ha m List.mem_cons_self),
        ih fun n hn => ha n (List.mem_cons_of_mem m hn), List.cons_append]

theorem slideFirst_of_forall_ne (h : ∀ m ∈ l, key m ≠ i) : slideFirst key move i l = l := by
  induction l with
  | nil => rfl
  | cons m l ih =>
      rw [slideFirst, if_neg (h m List.mem_cons_self),
        ih fun n hn => h n (List.mem_cons_of_mem m hn)]

theorem slideFirst_congr {move' : α → Option α} (h : ∀ a, key a = i → move a = move' a) :
    slideFirst key move i l = slideFirst key move' i l := by
  induction l with
  | nil => rfl
  | cons m l ih =>
      rw [slideFirst, slideFirst, ih]
      by_cases hm : key m = i
      · rw [if_pos hm, if_pos hm, h m hm]
      · rw [if_neg hm, if_neg hm]

/-- Dropping the entry at a key that is there once. -/
theorem slideFirst_none (hl : (l.map key).Nodup) :
    slideFirst key (fun _ => none) i l = l.filter (key · ≠ i) := by
  induction l with
  | nil => rfl
  | cons m l ih =>
      rw [List.map_cons, List.nodup_cons] at hl
      rw [slideFirst]
      by_cases hm : key m = i
      · have hrest : ∀ n ∈ l, decide (key n ≠ i) = true := fun n hn =>
          decide_eq_true fun heq => hl.1 (hm ▸ heq ▸ List.mem_map_of_mem hn)
        rw [if_pos hm, List.filter_cons_of_neg (by simpa using hm), List.filter_eq_self.2 hrest]
        rfl
      · rw [if_neg hm, List.filter_cons_of_pos (by simpa using hm), ih hl.2]

/-- An entry comes from one that was there, or from one that was moved. -/
theorem mem_slideFirst (h : y ∈ slideFirst key move i l) :
    y ∈ l ∨ ∃ x ∈ l, move x = some y := by
  induction l with
  | nil => cases h
  | cons m l ih =>
      rw [slideFirst] at h
      split at h
      · rcases List.mem_append.1 h with h | h
        · exact .inr ⟨m, List.mem_cons_self, Option.mem_toList.1 h⟩
        · exact .inl (List.mem_cons_of_mem m h)
      · rcases List.mem_cons.1 h with rfl | h
        · exact .inl List.mem_cons_self
        · exact (ih h).imp (List.mem_cons_of_mem m) fun ⟨x, hx, hmove⟩ =>
            ⟨x, List.mem_cons_of_mem m hx, hmove⟩

/-- Only entries at the key `i` are still to be moved. -/
theorem slid_pred (h : key x ≠ i) : slid key move hi (i - 1) x = slid key move hi i x := by
  have hiff : (i - 1 < key x ∧ key x ≤ hi) ↔ (i < key x ∧ key x ≤ hi) := by omega
  rw [slid, slid, if_congr hiff rfl rfl]

theorem filterMap_slid_pred (h : ∀ x ∈ l, key x ≠ i) :
    l.filterMap (slid key move hi (i - 1)) = l.filterMap (slid key move hi i) :=
  List.filterMap_congr fun x hx => slid_pred (h x hx)

theorem slid_of_mem (hlo : i < key x) (hhi : key x ≤ hi) : slid key move hi i x = move x :=
  if_pos ⟨hlo, hhi⟩

theorem slid_of_not (h : ¬(i < key x ∧ key x ≤ hi)) : slid key move hi i x = some x := if_neg h

/-- Before the first round nothing has been moved. -/
theorem filterMap_slid_init (l : List α) : l.filterMap (slid key move hi hi) = l := by
  rw [List.filterMap_congr fun x _ => slid_of_not (x := x) (by omega), List.filterMap_some]

/-- A loop without rounds has moved nothing. -/
theorem slid_min : slid key move hi (min hi i) x = slid key move hi i x := by
  have hiff : (min hi i < key x ∧ key x ≤ hi) ↔ (i < key x ∧ key x ≤ hi) := by omega
  rw [slid, slid, if_congr hiff rfl rfl]

theorem slid_self : slid key move hi (key x) x = some x := slid_of_not (by omega)

theorem slid_pred_self (h : key x ≤ hi) : slid key move hi (key x - 1) x = move x :=
  slid_of_mem (by omega) h

/-- What stands at the key `i` has not been moved yet, or was moved there. -/
theorem of_slid_eq (h : slid key move hi i x = some y) (hy : key y = i) :
    y = x ∨ i < key x ∧ key x ≤ hi ∧ move x = some y := by
  rw [slid] at h
  split at h
  · next hrange => exact .inr ⟨hrange.1, hrange.2, h⟩
  · cases h
    exact .inl rfl

/-- In a list without duplicates two entries have one order. -/
theorem not_sublist_swap (hl : l.Nodup) (hxy : List.Sublist [x, y] l) :
    ¬List.Sublist [y, x] l := by
  induction l with
  | nil => cases hxy
  | cons c l ih =>
      obtain ⟨hc, hl⟩ := List.nodup_cons.1 hl
      intro hyx
      cases hxy with
      | cons _ hxy =>
          cases hyx with
          | cons _ hyx => exact ih hl hxy hyx
          | cons_cons _ hx => exact hc (hxy.subset (by simp))
      | cons_cons _ hy =>
          cases hyx with
          | cons _ hyx => exact hc (hyx.subset (by simp))
          | cons_cons _ hx => exact hc (hy.subset (by simp))

/-- An entry before another. -/
theorem sublist_of_mem (h : y ∈ a) : List.Sublist [y, x] (a ++ x :: b) :=
  (List.singleton_sublist.2 h).append (List.singleton_sublist.2 List.mem_cons_self)

/-! ## The loop invariant -/

/-- **One round** moves the entry at its key, if what was moved there stands
behind. -/
theorem slideFirst_slid (hl : (l.map key).Nodup) (hled : LedAt key move hi i l) (hi' : i ≤ hi) :
    slideFirst key move i (l.filterMap (slid key move hi i)) =
      l.filterMap (slid key move hi (i - 1)) := by
  by_cases hx : ∃ x ∈ l, key x = i
  · obtain ⟨x, hx, rfl⟩ := hx
    obtain ⟨a, b, rfl⟩ := List.append_of_mem hx
    have hnodup := hl
    rw [List.map_append, List.map_cons, List.nodup_middle, List.nodup_cons, List.mem_append]
      at hnodup
    have hother : ∀ m, m ∈ a ∨ m ∈ b → key m ≠ key x := fun m hm heq =>
      hnodup.1 (heq ▸ hm.imp List.mem_map_of_mem List.mem_map_of_mem)
    -- Nothing that comes before the entry is at its key.
    have hfront : ∀ y ∈ a.filterMap (slid key move hi (key x)), key y ≠ key x := by
      intro y hy heq
      obtain ⟨w, hw, hslid⟩ := List.mem_filterMap.1 hy
      rcases of_slid_eq hslid heq with rfl | ⟨hlt, hle, hmove⟩
      · exact hother y (.inl hw) heq
      · obtain ⟨m, hm, hsub⟩ := hled w (List.mem_append_left _ hw) hlt hle y hmove heq
        have hmx : m = x := List.inj_on_of_nodup_map hl (hsub.subset (by simp)) hx hm
        rw [hmx] at hsub
        exact not_sublist_swap hl.of_map (sublist_of_mem hw) hsub
    rw [List.filterMap_append, List.filterMap_append, List.filterMap_cons_some slid_self,
      slideFirst_append hfront rfl, filterMap_slid_pred fun m hm => hother m (.inl hm)]
    congr 1
    rw [List.filterMap_cons, slid_pred_self hi',
      filterMap_slid_pred fun m hm => hother m (.inr hm)]
    cases move x <;> rfl
  · have hnone : ∀ x ∈ l, key x ≠ i := fun x hxl heq => hx ⟨x, hxl, heq⟩
    rw [filterMap_slid_pred hnone, slideFirst_of_forall_ne]
    intro y hy heq
    obtain ⟨w, hw, hslid⟩ := List.mem_filterMap.1 hy
    rcases of_slid_eq hslid heq with rfl | ⟨hlt, hle, hmove⟩
    · exact hnone y hw heq
    · obtain ⟨m, hm, hsub⟩ := hled w hw hlt hle y hmove heq
      exact hnone m (hsub.subset (by simp)) hm

/-! ## Entries that are moved again -/

section

variable {β : Type*} {item : α → β} {δ : ℤ} (hδ : δ < 0)
  (hkey : ∀ x y, move x = some y → key y = key x + δ)
  (hitem : ∀ x y, move x = some y → item y = item x)

include hδ hkey hitem

/-- Once below a key, an entry stays below it. -/
theorem slideFirst_below {t : β} {k : ℤ} (h : ∀ z ∈ l, item z = t → key z < k) :
    ∀ z ∈ slideFirst key move i l, item z = t → key z < k := by
  intro z hz ht
  rcases mem_slideFirst hz with hz | ⟨w, hw, hmove⟩
  · exact h z hz ht
  · have := h w hw (by rw [← hitem w z hmove, ht])
    have := hkey w z hmove
    omega

/-- **An entry that is in front** at the key it was moved to is moved again. -/
theorem misled (hl : (l.map key).Nodup) (hitems : (l.map item).Nodup) (hx : x ∈ l)
    (hlt : i < key x) (hle : key x ≤ hi) (hmove : move x = some y) (hy : key y = i)
    (hnone : ∀ m, key m = i → ¬List.Sublist [m, x] l) :
    ∀ z ∈ slideFirst key move i (l.filterMap (slid key move hi i)), item z = item x →
      key z < i := by
  obtain ⟨a, b, rfl⟩ := List.append_of_mem hx
  have hslid : slid key move hi i x = some y := by rw [slid, if_pos ⟨hlt, hle⟩, hmove]
  -- Nothing before it is at that key: no other entry was moved there.
  have hfront : ∀ z ∈ a.filterMap (slid key move hi i), key z ≠ i := by
    intro z hz heq
    obtain ⟨w, hw, hw'⟩ := List.mem_filterMap.1 hz
    rcases of_slid_eq hw' heq with rfl | ⟨-, -, hmove'⟩
    · exact hnone z heq (sublist_of_mem hw)
    · have hwx : key w = key x := by
        have := hkey w z hmove'
        have := hkey x y hmove
        omega
      rw [List.map_append, List.map_cons, List.nodup_middle, List.nodup_cons] at hl
      exact hl.1 (List.mem_append_left _ (hwx ▸ List.mem_map_of_mem hw))
  have hother : ∀ w z, w ∈ a ∨ w ∈ b → slid key move hi i w = some z → item z ≠ item x := by
    intro w z hw hw' heq
    have hsame : item z = item w := by
      rw [slid] at hw'
      split at hw'
      · exact hitem w z hw'
      · cases hw'
        rfl
    rw [List.map_append, List.map_cons, List.nodup_middle, List.nodup_cons,
      ← List.map_append] at hitems
    exact hitems.1 (List.mem_map.2 ⟨w, List.mem_append.2 hw, hsame.symm.trans heq⟩)
  intro z hz heq
  rw [List.filterMap_append, List.filterMap_cons_some hslid, slideFirst_append hfront hy] at hz
  rcases List.mem_append.1 hz with hz | hz
  · obtain ⟨w, hw, hw'⟩ := List.mem_filterMap.1 hz
    exact absurd heq (hother w z (.inl hw) hw')
  · rcases List.mem_append.1 hz with hz | hz
    · have := hkey y z (Option.mem_toList.1 hz)
      omega
    · obtain ⟨w, hw, hw'⟩ := List.mem_filterMap.1 hz
      exact absurd heq (hother w z (.inr hw) hw')

end

end Slide
