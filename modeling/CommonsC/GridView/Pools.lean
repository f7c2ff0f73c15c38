import Mathlib.Data.Finset.Union
import Mathlib.Data.Int.Range
import Mathlib.Data.Multiset.UnionInter
import CommonsC.GridView.Model

/-!
# CommonsC.GridView.Pools

The positions that are in use.

Of the in-use pool, what the row window has to do with is the multiset of its
positions (`Views.inuse`).  On it `grid_recycle_item` is erasure and
`grid_obtain_item` is the union with one position, so that the loops of
`clear_rows` and `fill_rows` subtract and unite intervals of positions.
-/

namespace CommonsC.GridView

open Multiset

theorem inInt_cases (values : List ℤ) :
    inInt values = .ok () ∨ inInt values = .error .overflow := by
  rw [inInt]
  split
  · exact .inl rfl
  · exact .inr rfl

theorem inInt_ok {values : List ℤ} : inInt values = .ok () ↔ ∀ x ∈ values, IsInt x := by
  rw [inInt]
  split
  · next h => exact iff_of_true rfl h
  · next h => exact iff_of_false nofun h

/-- The positions of the views in use. -/
def Views.inuse (views : Views) : Multiset ℤ := views.pool_inuse.map ViewPoolNode.position

/-- A position is found exactly if it is in use. -/
theorem nodeByPosition_eq_none {views : Views} {position : ℤ} :
    viewPoolNodeByPosition views.pool_inuse position = none ↔ position ∉ views.inuse := by
  rw [viewPoolNodeByPosition, List.find?_eq_none, Views.inuse, mem_coe, List.mem_map]
  simp only [beq_iff_eq, not_exists, not_and]

theorem mem_inuse_of_nodeByPosition {views : Views} {position : ℤ} {node : ViewPoolNode}
    (h : viewPoolNodeByPosition views.pool_inuse position = some node) :
    position ∈ views.inuse := by
  by_contra hnot
  rw [nodeByPosition_eq_none.2 hnot] at h
  cases h

theorem mem_inuse {views : Views} {a b : ViewPool} {node : ViewPoolNode}
    (h : views.pool_inuse = a ++ node :: b) : node.position ∈ views.inuse := by
  rw [Views.inuse, h]
  exact mem_coe.2 (List.mem_map_of_mem (by simp))

@[simp] theorem inuse_call (views : Views) (c : Call) : (views.call c).inuse = views.inuse := rfl

/-! ## Recycling -/

theorem coe_map_eraseP (pool : ViewPool) (position : ℤ) :
    (↑((pool.eraseP (·.position == position)).map ViewPoolNode.position) : Multiset ℤ) =
      (↑(pool.map ViewPoolNode.position) : Multiset ℤ).erase position := by
  rw [coe_erase]
  congr 1
  induction pool with
  | nil => rfl
  | cons node next ih =>
      rw [List.map_cons, List.erase_cons, List.eraseP_cons]
      by_cases h : node.position == position
      · rw [if_pos h, h, cond_true]
      · rw [if_neg h, Bool.eq_false_iff.2 h, cond_false, List.map_cons, ih]

/-- What `grid_recycle_item` does to the positions. -/
theorem inuse_gridRecycleItem {position : ℤ} {optional : Bool} {views views' : Views}
    (h : gridRecycleItem position optional views = .ok views') :
    views'.inuse = views.inuse.erase position := by
  rw [gridRecycleItem, viewPoolTakeByPosition] at h
  cases hnode : viewPoolNodeByPosition views.pool_inuse position with
  | none =>
      rw [hnode] at h
      cases optional
      · cases h
      · cases h
        rw [erase_of_notMem (nodeByPosition_eq_none.1 hnode)]
  | some node =>
      rw [hnode] at h
      cases h
      exact coe_map_eraseP views.pool_inuse position

/-- `grid_recycle_item` succeeds if the position is in use, or need not be. -/
theorem gridRecycleItem_ok {position : ℤ} {optional : Bool} {views : Views}
    (h : optional = true ∨ position ∈ views.inuse) :
    ∃ views', gridRecycleItem position optional views = .ok views' := by
  rw [gridRecycleItem, viewPoolTakeByPosition]
  cases hnode : viewPoolNodeByPosition views.pool_inuse position with
  | none =>
      rcases h with rfl | h
      · exact ⟨views, rfl⟩
      · exact absurd h (nodeByPosition_eq_none.1 hnode)
  | some node => exact ⟨_, rfl⟩

/-- The positions from `lo` to before `hi`. -/
def interval (lo hi : ℤ) : Finset ℤ := (Int.range lo hi).toFinset

@[simp] theorem mem_interval {lo hi p : ℤ} : p ∈ interval lo hi ↔ lo ≤ p ∧ p < hi := by
  rw [interval, List.mem_toFinset, Int.mem_range_iff]

theorem interval_of_le {lo hi : ℤ} (h : hi ≤ lo) : interval lo hi = ∅ := by
  refine Finset.eq_empty_of_forall_notMem fun p hp => ?_
  rw [mem_interval] at hp
  omega

/-- Erasing the next position of an interval. -/
theorem sub_interval_succ (s : Multiset ℤ) {lo i : ℤ} (h : lo ≤ i) :
    (s - (interval lo i).val).erase i = s - (interval lo (i + 1)).val := by
  have hinsert : (interval lo (i + 1)).val = i ::ₘ (interval lo i).val := by
    rw [← Finset.insert_val_of_notMem (by simp)]
    congr 1
    ext p
    simp only [mem_interval, Finset.mem_insert]
    omega
  ext p
  rw [hinsert, count_sub, count_cons]
  by_cases hp : p = i
  · rw [hp, count_erase_self, count_sub, if_pos rfl]
    omega
  · rw [count_erase_of_ne hp, count_sub, if_neg hp, Nat.add_zero]

/-- The positions from `lo` to before `hi` that have items. -/
def items (item_count lo hi : ℤ) : Finset ℤ := interval lo (min item_count hi)

@[simp] theorem mem_items {item_count lo hi p : ℤ} :
    p ∈ items item_count lo hi ↔ lo ≤ p ∧ p < item_count ∧ p < hi := by
  rw [items, mem_interval, lt_min_iff]

/-- What one round over positions does. -/
def recycleRound (item_count : ℤ) (optional : Bool) (position : ℤ) (views : Views) :
    Except Fault Views :=
  if item_count ≤ position then .ok views else gridRecycleItem position optional views

/-- The rows and columns are taken in the order of the positions. -/
theorem recycleRows_eq {column_count : ℤ} (hcols : 0 ≤ column_count) (item_count lo hi : ℤ)
    (optional : Bool) (views : Views) :
    recycleRows column_count item_count lo hi optional views =
      Loop.up (lo * column_count) (hi * column_count) (recycleRound item_count optional) views := by
  rcases le_total lo hi with h | h
  · have hflat : Loop.up lo hi (fun row_idx => Loop.up 0 column_count fun col_idx =>
        recycleRound item_count optional (row_idx * column_count + col_idx)) views = _ :=
      Loop.up_up hcols h
    exact hflat
  · rw [Loop.up_of_le (Int.mul_le_mul_of_nonneg_right h hcols)]
    exact Loop.up_of_le h

/-- **Recycled rows** are subtracted. -/
theorem inuse_recycleRows {column_count : ℤ} (hcols : 0 ≤ column_count)
    {item_count lo hi : ℤ} {optional : Bool} {views views' : Views}
    (h : recycleRows column_count item_count lo hi optional views = .ok views') :
    views'.inuse =
      views.inuse - (items item_count (lo * column_count) (hi * column_count)).val := by
  rw [recycleRows_eq hcols] at h
  generalize lo * column_count = a, hi * column_count = b at h
  rcases le_total a b with hle | hle
  · refine Loop.of_up (P := fun i v => v.inuse = views.inuse - (items item_count a i).val) hle
      ?_ ?_ h
    · have hempty : items item_count a a = ∅ := interval_of_le (by omega)
      rw [hempty]
      exact (tsub_zero _).symm
    · intro i v v' hi _ hv hround
      rw [recycleRound] at hround
      split at hround
      · next hcount =>
          cases hround
          rw [hv, items, items, min_eq_left hcount, min_eq_left (hcount.trans (by omega))]
      · next hcount =>
          rw [inuse_gridRecycleItem hround, hv, items, items, min_eq_right (by omega),
            min_eq_right (by omega), sub_interval_succ _ hi]
  · rw [Loop.up_of_le hle] at h
    cases h
    have hempty : items item_count a b = ∅ := interval_of_le (by omega)
    rw [hempty]
    exact (tsub_zero _).symm

/-- Rows can be recycled if their items are in use, or need not be. -/
theorem recycleRows_ok {column_count : ℤ} (hcols : 0 ≤ column_count) {item_count lo hi : ℤ}
    {optional : Bool} {views : Views}
    (h : optional = true ∨
      ∀ p ∈ items item_count (lo * column_count) (hi * column_count), p ∈ views.inuse) :
    ∃ views', recycleRows column_count item_count lo hi optional views = .ok views' := by
  rw [recycleRows_eq hcols]
  generalize lo * column_count = a, hi * column_count = b at h
  rcases le_total a b with hle | hle
  · have hround : ∀ i v, a ≤ i → i < b →
        (optional = true ∨ ∀ p ∈ items item_count i b, p ∈ v.inuse) →
        ∃ v', recycleRound item_count optional i v = .ok v' ∧
          (optional = true ∨ ∀ p ∈ items item_count (i + 1) b, p ∈ v'.inuse) := by
      intro i v _ hi hv
      rw [recycleRound]
      split
      · exact ⟨v, rfl, hv.imp_right fun hv p hp => hv p (by rw [mem_items] at hp ⊢; omega)⟩
      · next hcount =>
          obtain ⟨v', hrun⟩ := gridRecycleItem_ok (hv.imp_right fun hv =>
            hv i (by rw [mem_items]; omega))
          refine ⟨v', hrun, hv.imp_right fun hv p hp => ?_⟩
          rw [mem_items] at hp
          rw [inuse_gridRecycleItem hrun, mem_erase_of_ne (by omega)]
          exact hv p (by rw [mem_items]; omega)
    obtain ⟨views', hrun, -⟩ := Loop.up_ok hle h hround
    exact ⟨views', hrun⟩
  · exact ⟨views, Loop.up_of_le hle⟩

/-! ## Showing -/

/-- `grid_obtain_item` adds the position if it is not in use. -/
theorem inuse_gridObtainItem (position : ℤ) (views : Views) :
    (gridObtainItem position views).1.inuse = views.inuse ∪ {position} := by
  rw [gridObtainItem]
  cases hnode : viewPoolNodeByPosition views.pool_inuse position with
  | some node =>
      have hle : {position} ≤ views.inuse := singleton_le.2 (mem_inuse_of_nodeByPosition hnode)
      exact (sup_of_le_left hle).symm
  | none =>
      have hmem := nodeByPosition_eq_none.1 hnode
      have htake : (takeFree views).1.pool_inuse = views.pool_inuse := by
        rw [takeFree]
        split <;> rfl
      have hadd : views.inuse ∪ {position} = position ::ₘ views.inuse := by
        ext p
        rw [count_union, count_cons, count_singleton]
        by_cases hp : p = position
        · rw [hp, if_pos rfl, count_eq_zero.2 hmem]
          rfl
        · rw [if_neg hp]
          exact max_eq_left (Nat.zero_le _)
      rw [hadd]
      change (↑(position :: (takeFree views).1.pool_inuse.map ViewPoolNode.position) :
        Multiset ℤ) = _
      rw [htake]
      rfl

theorem inuse_refreshCell (grid : Grid) (row_idx col_idx : ℤ) (views : Views) :
    (refreshCell grid row_idx col_idx views).inuse =
      views.inuse ∪ {row_idx * grid.column_count + col_idx} := by
  rw [refreshCell, ← inuse_gridObtainItem]
  simp only
  split <;> rfl

/-- Uniting one interval after the other. -/
theorem union_items (s : Multiset ℤ) (item_count : ℤ) {a b c : ℤ} (hab : a ≤ b) (hbc : b ≤ c) :
    s ∪ (items item_count a b).val ∪ (items item_count b c).val =
      s ∪ (items item_count a c).val := by
  have hunion : items item_count a b ∪ items item_count b c = items item_count a c := by
    ext p
    simp only [Finset.mem_union, mem_items]
    omega
  rw [← hunion, Finset.union_val]
  exact sup_assoc _ _ _

theorem union_items_of_le (s : Multiset ℤ) {item_count lo hi : ℤ} (h : min item_count hi ≤ lo) :
    s ∪ (items item_count lo hi).val = s := by
  rw [items, interval_of_le h]
  ext p
  rw [count_union, Finset.empty_val, count_zero, Nat.max_zero]

/-- The cells of a row with items are shown. -/
theorem inuse_refreshCols (grid : Grid) (row_idx : ℤ) (n : ℕ) (col_idx : ℤ) (views : Views) :
    (refreshCols grid row_idx n col_idx views).inuse =
      views.inuse ∪ (items grid.item_count (row_idx * grid.column_count + col_idx)
        (row_idx * grid.column_count + col_idx + n)).val := by
  induction n generalizing col_idx views with
  | zero => rw [refreshCols, union_items_of_le _ (by omega)]
  | succ n ih =>
      rw [refreshCols]
      split
      · next hcount => rw [union_items_of_le _ (by omega)]
      · next hcount =>
          have hone : items grid.item_count (row_idx * grid.column_count + col_idx)
              (row_idx * grid.column_count + col_idx + 1) =
                {row_idx * grid.column_count + col_idx} := by
            ext p
            rw [mem_items, Finset.mem_singleton]
            omega
          rw [ih, inuse_refreshCell, ← Finset.singleton_val, ← hone, ← Int.add_assoc,
            union_items _ _ (by omega) (by omega)]
          congr 3
          push_cast
          omega

/-- The rows are shown, one after the other. -/
theorem inuse_showRows (grid : Grid) (hcols : 0 ≤ grid.column_count) {lo hi : ℤ} (hle : lo ≤ hi)
    (views : Views) :
    ∃ views', Loop.up lo hi (fun row_idx views =>
        (.ok (refreshCols grid row_idx grid.column_count.toNat 0 views) : Except Fault Views))
          views = .ok views' ∧
      views'.inuse = views.inuse ∪
        (items grid.item_count (lo * grid.column_count) (hi * grid.column_count)).val := by
  refine Loop.up_ok (P := fun i (v : Views) => v.inuse = views.inuse ∪
    (items grid.item_count (lo * grid.column_count) (i * grid.column_count)).val) hle ?_ ?_
  · exact (union_items_of_le _ (min_le_right _ _)).symm
  · intro i v hi _ hv
    refine ⟨_, rfl, ?_⟩
    have hstep : lo * grid.column_count ≤ i * grid.column_count :=
      Int.mul_le_mul_of_nonneg_right hi hcols
    rw [inuse_refreshCols, hv, Int.add_zero, Int.toNat_of_nonneg hcols, Int.add_mul, Int.one_mul,
      union_items _ _ hstep (by omega)]

/-! ## Focus -/

theorem defocus_eq (position : ℤ) (grid : Grid) :
    ∃ views focused_index, defocus position grid = { grid with views, focused_index } ∧
      views.inuse = grid.views.inuse := by
  rw [defocus]
  split
  · split
    · exact ⟨_, _, rfl, rfl⟩
    · exact ⟨_, _, rfl, rfl⟩
  · exact ⟨grid.views, grid.focused_index, rfl, rfl⟩

/-- Focusing an item may take a view into use, and changes nothing else but the
focus. -/
theorem lvGridviewFocus_eq (position : ℤ) (grid : Grid) :
    ∃ views focused_index,
      (lvGridviewFocus position grid).1 = { grid with views, focused_index } ∧
        grid.views.inuse ≤ views.inuse := by
  obtain ⟨views, focused_index, heq, hinuse⟩ := defocus_eq position grid
  rw [lvGridviewFocus, heq]
  simp only
  split
  · exact ⟨_, _, rfl, hinuse.ge⟩
  · refine ⟨_, _, rfl, ?_⟩
    have hobtain : grid.views.inuse ≤ (gridObtainItem position views).1.inuse := by
      rw [inuse_gridObtainItem, ← hinuse]
      exact le_union_left
    rw [inuse_call]
    split
    · exact hobtain
    · exact hobtain

theorem focusAvailable_eq (grid : Grid) :
    ∃ views focused_index focus_when_available,
      focusAvailable grid = { grid with views, focused_index, focus_when_available } ∧
        grid.views.inuse ≤ views.inuse := by
  rw [focusAvailable]
  split
  · obtain ⟨views, focused_index, heq, hle⟩ :=
      lvGridviewFocus_eq grid.focus_when_available grid
    rw [heq]
    exact ⟨_, _, _, rfl, hle⟩
  · exact ⟨grid.views, grid.focused_index, grid.focus_when_available, rfl, le_rfl⟩

/-- Without an item to wait for, nothing is focused. -/
theorem focusAvailable_of_neg {grid : Grid} (h : grid.focus_when_available < 0) :
    focusAvailable grid = grid := by
  rw [focusAvailable, if_neg (by omega)]

/-! ## The row window -/

/-- The items that the window shows. -/
def Grid.window (grid : Grid) : Finset ℤ :=
  items grid.item_count (max 0 grid.row_start * grid.column_count)
    ((grid.row_end + 1) * grid.column_count)

/-- The items of the rows that `fill_rows` recycles on the way to a new
window. -/
def givenUp (row_start row_end : ℤ) (grid : Grid) : Finset ℤ :=
  items grid.item_count (max 0 grid.row_start * grid.column_count)
      (row_start * grid.column_count) ∪
    items grid.item_count ((row_end + 1) * grid.column_count)
      ((grid.row_end + 1) * grid.column_count)

/-- The items that `fill_rows` shows. -/
def taken (row_start row_end : ℤ) (grid : Grid) : Finset ℤ :=
  items grid.item_count (row_start * grid.column_count) ((row_end + 1) * grid.column_count)

/-- The items of the last row of the window, which `clear_rows` leaves. -/
def Grid.lastRow (grid : Grid) : Finset ℤ :=
  items grid.item_count (max (max 0 grid.row_start) grid.row_end * grid.column_count)
    ((grid.row_end + 1) * grid.column_count)

/-- The rows above and below the new window are apart. -/
theorem sub_givenUp {row_start row_end : ℤ} (hend : row_start ≤ row_end) {grid : Grid}
    (hcols : 0 ≤ grid.column_count) (s : Multiset ℤ) :
    s - (givenUp row_start row_end grid).val =
      s - (items grid.item_count (max 0 grid.row_start * grid.column_count)
          (row_start * grid.column_count)).val -
        (items grid.item_count ((row_end + 1) * grid.column_count)
          ((grid.row_end + 1) * grid.column_count)).val := by
  have hle : row_start * grid.column_count ≤ (row_end + 1) * grid.column_count :=
    Int.mul_le_mul_of_nonneg_right (by omega) hcols
  have hdisj : Disjoint
      (items grid.item_count (max 0 grid.row_start * grid.column_count)
        (row_start * grid.column_count))
      (items grid.item_count ((row_end + 1) * grid.column_count)
        ((grid.row_end + 1) * grid.column_count)) := by
    rw [Finset.disjoint_left]
    intro p hp hp'
    rw [mem_items] at hp hp'
    omega
  rw [givenUp, ← Finset.disjUnion_eq_union _ _ hdisj, Finset.disjUnion_val, tsub_add_eq_tsub_tsub]

/-- **`fill_rows`**: the items given up are subtracted, those taken united. -/
theorem inuse_fillRows {row_start row_end : ℤ} (hstart : 0 ≤ row_start)
    (hend : row_start ≤ row_end) {grid : Grid} (hcols : 0 ≤ grid.column_count) {grid' : Grid}
    {filled : Bool} (h : fillRows row_start row_end grid = .ok (grid', filled)) :
    filled = true ∧ ∃ views : Views,
      grid' = focusAvailable { grid with views, row_start, row_end } ∧
      views.inuse = (grid.views.inuse - (givenUp row_start row_end grid).val) ∪
        (taken row_start row_end grid).val := by
  rw [fillRows, if_neg (by omega)] at h
  obtain ⟨above, habove, h⟩ := Loop.of_bind h
  obtain ⟨below, hbelow, h⟩ := Loop.of_bind h
  obtain ⟨-, -, h⟩ := Loop.of_bind h
  obtain ⟨shown, hshown, hunion⟩ := inuse_showRows grid hcols
    (show row_start ≤ row_end + 1 by omega) below
  rw [hshown] at h
  cases h
  refine ⟨rfl, shown, rfl, ?_⟩
  have hbelowStart : max 0 (row_end + 1) = row_end + 1 := max_eq_right (by omega)
  rw [hunion, inuse_recycleRows hcols hbelow, inuse_recycleRows hcols habove, hbelowStart,
    ← sub_givenUp hend hcols]
  rfl

/-- `fill_rows` does not fail, but for an overflow, if the items it gives up are in
use. -/
theorem fillRows_ok {row_start row_end : ℤ} {grid : Grid} (hcols : 0 ≤ grid.column_count)
    (h : 0 ≤ row_start → row_start ≤ row_end →
      (givenUp row_start row_end grid).val ≤ grid.views.inuse) :
    (∃ result, fillRows row_start row_end grid = .ok result) ∨
      fillRows row_start row_end grid = .error .overflow := by
  rw [fillRows]
  split
  · exact .inl ⟨_, rfl⟩
  · next hrange =>
      have hend : row_start ≤ row_end := by omega
      have hused : ∀ p ∈ givenUp row_start row_end grid, p ∈ grid.views.inuse := fun p hp =>
        mem_of_le (h (by omega) hend) hp
      have hbelowStart : max 0 (row_end + 1) = row_end + 1 := max_eq_right (by omega)
      obtain ⟨above, habove⟩ : ∃ above, recycleRows grid.column_count grid.item_count
          (max 0 grid.row_start) row_start false grid.views = .ok above :=
        recycleRows_ok hcols (.inr fun p hp => hused p (Finset.mem_union_left _ hp))
      have hle : row_start * grid.column_count ≤ (row_end + 1) * grid.column_count :=
        Int.mul_le_mul_of_nonneg_right (by omega) hcols
      obtain ⟨below, hbelow⟩ : ∃ below, recycleRows grid.column_count grid.item_count
          (max 0 (row_end + 1)) (grid.row_end + 1) false above = .ok below := by
        rw [hbelowStart]
        refine recycleRows_ok hcols (.inr fun p hp => ?_)
        -- What is recycled above is not below.
        have hnot : p ∉ (items grid.item_count (max 0 grid.row_start * grid.column_count)
            (row_start * grid.column_count)).val := by
          rw [Finset.mem_val, mem_items]
          rw [mem_items] at hp
          omega
        rw [inuse_recycleRows hcols habove, mem_sub, count_eq_zero.2 hnot]
        exact count_pos.2 (hused p (Finset.mem_union_right _ hp))
      obtain ⟨shown, hshown, -⟩ := inuse_showRows grid hcols
        (show row_start ≤ row_end + 1 by omega) below
      simp only [habove, hbelow, hshown, Bind.bind, Except.bind]
      rcases inInt_cases (fillInts row_start row_end grid) with hints | hints
      · rw [hints]
        exact .inl ⟨_, rfl⟩
      · rw [hints]
        exact .inr rfl

/-- **A window that is fully shown**: if no view is in use twice, or for an
item out of reach, the new window is exactly what is in use. -/
theorem fill_exact {row_start row_end : ℤ} {grid : Grid} {s : Multiset ℤ}
    (h : s ≤ (givenUp row_start row_end grid ∪ taken row_start row_end grid).val) :
    (s - (givenUp row_start row_end grid).val) ∪ (taken row_start row_end grid).val =
      (taken row_start row_end grid).val := by
  refine sup_of_le_right (le_iff_count.2 fun p => ?_)
  have hp := le_iff_count.1 h p
  rw [count_sub]
  rw [count_eq_of_nodup (Finset.nodup _)] at hp ⊢
  rw [count_eq_of_nodup (Finset.nodup _)]
  simp only [Finset.mem_val, Finset.mem_union] at hp ⊢
  by_cases hg : p ∈ givenUp row_start row_end grid
  · simp only [hg, true_or, if_true] at hp ⊢
    omega
  · simp only [hg, false_or, if_false] at hp ⊢
    omega

end CommonsC.GridView
