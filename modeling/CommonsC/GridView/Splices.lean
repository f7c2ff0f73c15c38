import CommonsC.Base.Shift
import CommonsC.GridView.Pools

/-!
# CommonsC.GridView.Splices

The change loop of `update_grid`.

`Change.carry` says what a splice is meant to do to a set of positions in use:
those of removed items are dropped, those behind the splice are shifted, if
they are not beyond `max_item_end`, and dropped when they leave the range.  The
loop does this in place, one position after the other, and is right on
positions without holes (`changeLoop_eq`).
-/

namespace CommonsC.GridView

open Multiset

/-! ## Splices -/

/-- `move_delta`. -/
def Change.moveDelta (change : Change) : ℤ := change.add_count - change.remove_count

/-- `move_from`. -/
def Change.moveFrom (change : Change) : ℤ := change.start + change.remove_count

/-- The first item behind the splice is moved to behind the new ones. -/
theorem Change.moveFrom_add_moveDelta (change : Change) :
    change.moveFrom + change.moveDelta = change.start + change.add_count := by
  rw [Change.moveFrom, Change.moveDelta]
  omega

/-- The positions without those of removed items. -/
def Change.keep (change : Change) (shown : Finset ℤ) : Finset ℤ :=
  shown \ interval change.start change.moveFrom

/-- Where a splice takes the positions. -/
def Change.carry (item_start max_item_end : ℤ) (change : Change) (shown : Finset ℤ) : Finset ℤ :=
  if change.moveDelta = 0 then change.keep shown
  else Shift.shift item_start max_item_end change.moveDelta change.moveFrom (change.keep shown)

/-- A splice that takes away more than it brings meets no hole. -/
def Change.HoleFree (item_start max_item_end : ℤ) (change : Change) (shown : Finset ℤ) : Prop :=
  Shift.HoleFree item_start max_item_end change.moveDelta change.moveFrom (change.keep shown)

/-- A list of splices of `old` items that leaves `new` ones. -/
def Splices : List Change → (old new : ℤ) → Prop
  | [], old, new => old = new
  | change :: changes, old, new =>
      0 ≤ change.start ∧ 0 ≤ change.remove_count ∧ 0 ≤ change.add_count ∧
        change.moveFrom ≤ old ∧ Splices changes (old + change.moveDelta) new

/-- Where a list of splices takes the positions. -/
def carryAll (item_start max_item_end : ℤ) : List Change → Finset ℤ → Finset ℤ
  | [], shown => shown
  | change :: changes, shown =>
      carryAll item_start max_item_end changes (change.carry item_start max_item_end shown)

/-- No splice of the list meets a hole. -/
def HoleFreeAll (item_start max_item_end : ℤ) : List Change → Finset ℤ → Prop
  | [], _ => True
  | change :: changes, shown =>
      change.HoleFree item_start max_item_end shown ∧
        HoleFreeAll item_start max_item_end changes (change.carry item_start max_item_end shown)

/-! ## One view -/

/-- Renumbering a position that is in use. -/
theorem coe_map_renumber {pool : ViewPool} {old_pos : ℤ} (new_pos : ℤ)
    (h : old_pos ∈ pool.map ViewPoolNode.position) :
    (↑((renumber old_pos new_pos pool).map ViewPoolNode.position) : Multiset ℤ) =
      new_pos ::ₘ (↑(pool.map ViewPoolNode.position) : Multiset ℤ).erase old_pos := by
  induction pool with
  | nil => cases h
  | cons node next ih =>
      rw [renumber]
      by_cases hnode : node.position = old_pos
      · rw [if_pos hnode, List.map_cons, List.map_cons, ← cons_coe, ← cons_coe, hnode,
          erase_cons_head]
      · rw [List.map_cons, List.mem_cons] at h
        have hnext := h.resolve_left (Ne.symm hnode)
        rw [if_neg hnode, List.map_cons, List.map_cons, ← cons_coe, ← cons_coe, ih hnext,
          erase_cons_tail _ hnode, cons_swap]

/-- A round of the moving loop slides one position. -/
theorem moveView_eq (column_count item_start max_item_end move_delta old_pos : ℤ)
    (views : Views) :
    ∃ views', moveView column_count item_start max_item_end move_delta old_pos views =
        .ok views' ∧
      views'.inuse =
        Shift.slideOne item_start max_item_end move_delta old_pos views.inuse := by
  rw [moveView, Shift.slideOne]
  by_cases hrange : old_pos + move_delta < item_start ∨ max_item_end < old_pos + move_delta
  · have hout : ¬(item_start ≤ old_pos + move_delta ∧ old_pos + move_delta ≤ max_item_end) := by
      omega
    obtain ⟨views', hrun⟩ : ∃ views', gridRecycleItem old_pos true views = .ok views' :=
      gridRecycleItem_ok (.inl rfl)
    refine ⟨views', by rw [if_pos hrange, hrun], ?_⟩
    rw [inuse_gridRecycleItem hrun, if_neg hout]
    split
    · rfl
    · next hmem => exact erase_of_notMem hmem
  · have hin : item_start ≤ old_pos + move_delta ∧ old_pos + move_delta ≤ max_item_end := by
      omega
    rw [if_neg hrange, if_pos hin]
    cases hnode : viewPoolNodeByPosition views.pool_inuse old_pos with
    | none => exact ⟨views, rfl, (if_neg (nodeByPosition_eq_none.1 hnode)).symm⟩
    | some node =>
        have hmem := mem_inuse_of_nodeByPosition hnode
        refine ⟨_, rfl, ?_⟩
        rw [if_pos hmem, inuse_call]
        exact coe_map_renumber _ hmem

/-! ## One splice -/

/-- The views of removed items are recycled. -/
theorem removeLoop_eq {lo hi : ℤ} (hle : lo ≤ hi) (views : Views) :
    ∃ views', Loop.up lo hi (fun del_pos => gridRecycleItem del_pos true) views = .ok views' ∧
      views'.inuse = views.inuse - (interval lo hi).val := by
  refine Loop.up_ok (P := fun i (v : Views) => v.inuse = views.inuse - (interval lo i).val)
    hle ?_ ?_
  · rw [interval_of_le le_rfl, Finset.empty_val]
    exact (tsub_zero _).symm
  · intro i v hi _ hv
    obtain ⟨v', hrun⟩ : ∃ v', gridRecycleItem i true v = .ok v' := gridRecycleItem_ok (.inl rfl)
    refine ⟨v', hrun, ?_⟩
    rw [inuse_gridRecycleItem hrun, hv, sub_interval_succ _ hi]

/-- What the views in use have to do with a set of positions: there are no
others, and none twice; or they are all there. -/
def Bounds (carry : Finset ℤ → Finset ℤ) (shown : Finset ℤ) (views views' : Views) : Prop :=
  (views.inuse ≤ shown.val → views'.inuse ≤ (carry shown).val) ∧
    (shown.val ≤ views.inuse → (carry shown).val ≤ views'.inuse)

/-- The moving loop shifts positions that have no hole. -/
theorem moveLoop_eq (column_count item_start max_item_end : ℤ) {move_delta move_from hi : ℤ}
    (hhi : hi ≤ max_item_end) {shown : Finset ℤ}
    (hshown : ∀ p ∈ shown, p ≤ max_item_end → p ≤ hi)
    (hgap : ∀ p ∈ shown, p < move_from → p < move_from + move_delta)
    (hfree : Shift.HoleFree item_start max_item_end move_delta move_from shown) (views : Views) :
    ∃ views', Loop.down hi move_from
        (moveView column_count item_start max_item_end move_delta) views = .ok views' ∧
      Bounds (Shift.shift item_start max_item_end move_delta move_from) shown views views' := by
  by_cases hle : move_from ≤ hi + 1
  · -- The two halves of the invariant, each under its own assumption.
    let expected := Shift.expected item_start max_item_end move_delta hi shown
    obtain ⟨views', hrun, hupper, hlower⟩ := Loop.down_ok
      (P := fun i (v : Views) =>
        (views.inuse ≤ shown.val → ∀ q, v.inuse.count q ≤ expected i q) ∧
          (shown.val ≤ views.inuse → ∀ q, expected i q ≤ v.inuse.count q))
      hle
      ⟨fun h q => (le_iff_count.1 h q).trans (Shift.expected_init q).ge,
        fun h q => (Shift.expected_init q).le.trans (le_iff_count.1 h q)⟩
      fun i v hlo hi' ⟨hupper, hlower⟩ => by
        obtain ⟨v', hrun, hslide⟩ :=
          moveView_eq column_count item_start max_item_end move_delta i v
        refine ⟨v', hrun, fun h q => ?_, fun h q => ?_⟩
        · rw [hslide]
          exact Shift.slideOne_le_expected hfree hhi hlo hi' (hupper h) q
        · rw [hslide]
          exact Shift.expected_le_slideOne hfree hhi hlo hi' (hlower h) q
    refine ⟨views', hrun, fun h => le_iff_count.2 fun q => ?_, fun h => le_iff_count.2 fun q => ?_⟩
    · rw [← Shift.expected_last hhi hshown hgap q]
      exact hupper h q
    · rw [← Shift.expected_last hhi hshown hgap q]
      exact hlower h q
  · -- There is nothing to move.
    have hshift : Shift.shift item_start max_item_end move_delta move_from shown = shown :=
      Shift.shift_of_lt fun p hp hup => by
        have := hshown p hp hup
        omega
    refine ⟨views, Loop.down_of_lt (by omega), ?_⟩
    rw [Bounds, hshift]
    exact ⟨id, id⟩

/-- What is left of a splice once the views of removed items are recycled. -/
theorem applyChange_of_remove {column_count item_start max_item_end expect_item_count : ℤ}
    {change : Change} (hstart : 0 ≤ change.start) {views kept : Views}
    (hremove : Loop.up change.start change.moveFrom (fun del_pos => gridRecycleItem del_pos true)
      views = .ok kept) :
    applyChange column_count item_start max_item_end expect_item_count change views =
      if change.moveDelta = 0 then .ok kept
      else Loop.down (min (expect_item_count - 1) max_item_end) change.moveFrom
        (moveView column_count item_start max_item_end change.moveDelta) kept := by
  rw [applyChange, if_neg (by omega)]
  change Except.bind (Loop.up change.start change.moveFrom _ views) _ = _
  rw [hremove]
  rfl

/-- **One splice** carries the positions in use, if it meets no hole. -/
theorem applyChange_eq (column_count item_start max_item_end : ℤ) {expect_item_count : ℤ}
    {change : Change} (hstart : 0 ≤ change.start) (hremove : 0 ≤ change.remove_count)
    (hadd : 0 ≤ change.add_count) {shown : Finset ℤ}
    (hshown : ∀ p ∈ shown, p ≤ max_item_end → p < expect_item_count)
    (hfree : change.HoleFree item_start max_item_end shown) (views : Views) :
    ∃ views', applyChange column_count item_start max_item_end expect_item_count change views =
        .ok views' ∧
      Bounds (change.carry item_start max_item_end) shown views views' := by
  obtain ⟨kept, hrun, hkept⟩ : ∃ kept, Loop.up change.start change.moveFrom
      (fun del_pos => gridRecycleItem del_pos true) views = .ok kept ∧ _ :=
    removeLoop_eq (by rw [Change.moveFrom]; omega) views
  have hkeep : (change.keep shown).val = shown.val - (interval change.start change.moveFrom).val :=
    Finset.sdiff_val _ _
  have hupper : views.inuse ≤ shown.val → kept.inuse ≤ (change.keep shown).val := fun h => by
    rw [hkept, hkeep]
    exact tsub_le_tsub_right h _
  have hlower : shown.val ≤ views.inuse → (change.keep shown).val ≤ kept.inuse := fun h => by
    rw [hkept, hkeep]
    exact tsub_le_tsub_right h _
  rw [applyChange_of_remove hstart hrun]
  by_cases hdelta : change.moveDelta = 0
  · refine ⟨kept, if_pos hdelta, ?_⟩
    simp only [Bounds, Change.carry, if_pos hdelta]
    exact ⟨hupper, hlower⟩
  · rw [if_neg hdelta]
    have hmem : ∀ p ∈ change.keep shown, p ∈ shown ∧ (p < change.start ∨ change.moveFrom ≤ p) := by
      intro p hp
      rw [Change.keep, Finset.mem_sdiff, mem_interval] at hp
      exact ⟨hp.1, by omega⟩
    obtain ⟨views', hmove, hbounds⟩ := moveLoop_eq column_count item_start max_item_end
      (min_le_right (expect_item_count - 1) max_item_end)
      (fun p hp hup => le_min (by have := hshown p (hmem p hp).1 hup; omega) hup)
      (fun p hp hlt => by
        have := (hmem p hp).2
        simp only [Change.moveFrom, Change.moveDelta] at this hlt ⊢
        omega)
      hfree kept
    refine ⟨views', hmove, ?_⟩
    simp only [Bounds, Change.carry, if_neg hdelta]
    exact ⟨fun h => hbounds.1 (hupper h), fun h => hbounds.2 (hlower h)⟩

/-! ## The loop -/

/-- Positions in the range of the loop stay below the item count. -/
theorem lt_of_mem_carry {item_start max_item_end old : ℤ} {change : Change}
    (hadd : 0 ≤ change.add_count) (hfrom : change.moveFrom ≤ old) {shown : Finset ℤ}
    (hshown : ∀ p ∈ shown, p ≤ max_item_end → p < old) {q : ℤ}
    (hq : q ∈ change.carry item_start max_item_end shown) (hup : q ≤ max_item_end) :
    q < old + change.moveDelta := by
  have hkeep : ∀ p ∈ change.keep shown, p ≤ max_item_end →
      p < old ∧ (p < change.start ∨ change.moveFrom ≤ p) := by
    intro p hp hup
    rw [Change.keep, Finset.mem_sdiff, mem_interval] at hp
    exact ⟨hshown p hp.1 hup, by omega⟩
  rw [Change.carry] at hq
  split at hq
  · next hdelta =>
      rw [hdelta, Int.add_zero]
      exact (hkeep q hq hup).1
  · rcases Shift.mem_shift.1 hq with ⟨hmem, hlt⟩ | ⟨hmem, -, hle, -⟩
    · have := hkeep q hmem hup
      simp only [Change.moveFrom, Change.moveDelta] at this hlt hfrom ⊢
      omega
    · have := hkeep _ hmem hle
      omega

/-- **The change loop** carries the positions in use through all splices, and
arrives at the new item count. -/
theorem changeLoop_eq (column_count item_start max_item_end : ℤ) {changes : List Change}
    {old new : ℤ} (hsplices : Splices changes old new) {shown : Finset ℤ}
    (hshown : changes ≠ [] → ∀ p ∈ shown, p ≤ max_item_end → p < old)
    (hfree : HoleFreeAll item_start max_item_end changes shown) (views : Views) :
    ∃ views', changeLoop column_count item_start max_item_end changes old views =
        .ok (new, views') ∧
      Bounds (carryAll item_start max_item_end changes) shown views views' := by
  induction changes generalizing old shown views with
  | nil => exact ⟨views, by rw [changeLoop, hsplices], id, id⟩
  | cons change changes ih =>
      obtain ⟨hstart, hremove, hadd, hfrom, hrest⟩ := hsplices
      have hlt := hshown (List.cons_ne_nil change changes)
      obtain ⟨mid, hrun, hupper, hlower⟩ := applyChange_eq column_count item_start max_item_end
        hstart hremove hadd hlt hfree.1 views
      obtain ⟨views', hruns, hupper', hlower'⟩ := ih hrest
        (fun _ q hq hup => lt_of_mem_carry hadd hfrom hlt hq hup) hfree.2 mid
      refine ⟨views', ?_, fun h => hupper' (hupper h), fun h => hlower' (hlower h)⟩
      rw [changeLoop, hrun]
      exact hruns

end CommonsC.GridView
