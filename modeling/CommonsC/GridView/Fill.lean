import CommonsC.GridView.Ownership

/-!
# CommonsC.GridView.Fill

What `fill_rows` shows.

The cells are refreshed in the order of their positions, one round of a loop
for each (`showRows_eq`).  A round gives its position a view and binds it; the
views of the positions before keep theirs, since no view is in two nodes
(`Shown.round`).  So after `fill_rows` no cell of the rows is blank or stale, and
filling the same rows again only binds (`fillRows_fresh`).
-/

namespace CommonsC.GridView

/-! ## Cells in the order of positions -/

/-- The loop of `fill_rows` over the rows that are shown. -/
def showRows (grid : Grid) (lo hi : ℤ) : Views → Except Fault Views :=
  Loop.up lo hi fun row_idx views =>
    .ok (refreshCols grid row_idx grid.column_count.toNat 0 views)

/-- A round of it at one position. -/
def refreshRound (grid : Grid) (position : ℤ) (views : Views) : Except Fault Views :=
  .ok (if grid.item_count ≤ position then views
    else refreshCell grid (position / grid.column_count) (position % grid.column_count) views)

theorem refreshRound_of_le {grid : Grid} {position : ℤ} (h : grid.item_count ≤ position)
    (views : Views) : refreshRound grid position views = .ok views := by
  rw [refreshRound, if_pos h]

theorem refreshRound_of_lt {grid : Grid} {position : ℤ} (h : position < grid.item_count)
    (views : Views) : refreshRound grid position views =
      .ok (refreshCell grid (position / grid.column_count) (position % grid.column_count)
        views) := by
  rw [refreshRound, if_neg (by omega)]

/-- Some columns of a row. -/
theorem refreshCols_eq (grid : Grid) (row_idx : ℤ) (n : ℕ) {col_idx : ℤ} (hcol : 0 ≤ col_idx)
    (hn : col_idx + n ≤ grid.column_count) (views : Views) :
    Loop.up (row_idx * grid.column_count + col_idx) (row_idx * grid.column_count + col_idx + n)
        (refreshRound grid) views = .ok (refreshCols grid row_idx n col_idx views) := by
  induction n generalizing col_idx views with
  | zero => exact Loop.up_of_le (by omega)
  | succ n ih =>
      rw [refreshCols]
      split
      · next hcount =>
          exact Loop.up_noop fun i hi _ => refreshRound_of_le (hcount.trans hi) views
      · next hcount =>
          have hquot : (row_idx * grid.column_count + col_idx) / grid.column_count = row_idx := by
            rw [Int.add_comm, Int.add_mul_ediv_right _ _ (by omega),
              Int.ediv_eq_zero_of_lt hcol (by omega), Int.zero_add]
          have hrem : (row_idx * grid.column_count + col_idx) % grid.column_count = col_idx := by
            rw [Int.add_comm, Int.add_mul_emod_self_right, Int.emod_eq_of_lt hcol (by omega)]
          have hlast : row_idx * grid.column_count + col_idx + ↑(n + 1) =
              row_idx * grid.column_count + (col_idx + 1) + n := by
            push_cast
            omega
          rw [Loop.up_of_lt (by omega), refreshRound_of_lt (by omega), hquot, hrem, hlast,
            Int.add_assoc]
          exact ih (by omega) (by omega) _

/-- **The rows are shown** position by position. -/
theorem showRows_eq {grid : Grid} (hcols : 0 ≤ grid.column_count) {lo hi : ℤ} (hle : lo ≤ hi)
    (views : Views) :
    showRows grid lo hi views =
      Loop.up (lo * grid.column_count) (hi * grid.column_count) (refreshRound grid) views := by
  rw [← Loop.up_up hcols hle, showRows]
  congr 1
  funext row_idx views
  have hrow := refreshCols_eq grid row_idx grid.column_count.toNat (le_refl (0 : ℤ))
    (by omega) views
  rw [Int.toNat_of_nonneg hcols, Int.add_assoc, Int.zero_add] at hrow
  exact hrow.symm.trans (Loop.up_shift _ _ _).symm

/-- Without columns nothing is shown. -/
theorem showRows_of_nonpos {grid : Grid} (hcols : grid.column_count ≤ 0) (lo hi : ℤ)
    (views : Views) : showRows grid lo hi views = .ok views := by
  refine Loop.up_noop fun i _ _ => ?_
  rw [Int.toNat_of_nonpos hcols, refreshCols]

/-! ## `fill_rows` -/

/-- What rounds of `grid_recycle_item` keep. -/
theorem recycleRows_keeps {P : Views → Prop} {column_count item_count lo hi : ℤ} {optional : Bool}
    {views views' : Views}
    (hstep : ∀ position v v', P v → gridRecycleItem position optional v = .ok v' → P v')
    (hrun : recycleRows column_count item_count lo hi optional views = .ok views')
    (h : P views) : P views' := by
  refine Loop.up_keeps h (fun row_idx v v' _ _ hv hrow => ?_) hrun
  refine Loop.up_keeps hv (fun col_idx v v' _ _ hv hround => ?_) hrow
  simp only at hround
  split at hround
  · cases hround
    exact hv
  · exact hstep _ v v' hv hround

/-- The parts of `fill_rows`. -/
theorem fillRows_parts {row_start row_end : ℤ} (hstart : 0 ≤ row_start)
    (hend : row_start ≤ row_end) {grid grid' : Grid} {filled : Bool}
    (h : fillRows row_start row_end grid = .ok (grid', filled)) :
    filled = true ∧ ∃ above below views,
      recycleRows grid.column_count grid.item_count (max 0 grid.row_start) row_start false
        grid.views = .ok above ∧
      recycleRows grid.column_count grid.item_count (max 0 (row_end + 1)) (grid.row_end + 1) false
        above = .ok below ∧
      inInt (fillInts row_start row_end grid) = .ok () ∧
      showRows grid row_start (row_end + 1) below = .ok views ∧
      grid' = focusAvailable { grid with views, row_start, row_end } := by
  rw [fillRows, if_neg (by omega)] at h
  obtain ⟨above, habove, h⟩ := Loop.of_bind h
  obtain ⟨below, hbelow, h⟩ := Loop.of_bind h
  obtain ⟨⟨⟩, hints, h⟩ := Loop.of_bind h
  obtain ⟨views, hviews, h⟩ := Loop.of_bind h
  cases h
  exact ⟨rfl, above, below, views, habove, hbelow, hints, hviews, rfl⟩

/-- **One cell**: its position has a view, which is bound, and placed if it
is new there. -/
theorem refreshRound_cases {grid : Grid} {position : ℤ} (h : position < grid.item_count)
    (views : Views) :
    (∃ node, viewPoolNodeByPosition views.pool_inuse position = some node ∧
      refreshRound grid position views =
        .ok (views.call (.bindView node.item grid.data position))) ∨
      (viewPoolNodeByPosition views.pool_inuse position = none ∧ ∃ views' item,
        refreshRound grid position views =
          .ok ((views'.call (.setGridCell item (position % grid.column_count)
            (position / grid.column_count))).call (.bindView item grid.data position)) ∧
        views'.pool_inuse = ⟨position, item⟩ :: views.pool_inuse ∧
        views.Asks Call.Quiet views' ∧ (Sound views → Sound views')) := by
  rw [refreshRound_of_lt h, refreshCell, Int.ediv_mul_add_emod]
  rcases gridObtainItem_cases position views with
    ⟨node, hnode, hobtain⟩ | ⟨hnone, views', item, hobtain, hviews'⟩
  · rw [hobtain]
    exact .inl ⟨node, hnode, rfl⟩
  · rw [hobtain]
    exact .inr ⟨hnone, views', item, rfl, hviews'⟩

/-! ## No blank or stale cell -/

theorem Sound.call {views : Views} (h : Sound views) (c : Call) : Sound (views.call c) :=
  ⟨h.nodup, h.lt_created⟩

theorem lastBind_bindView_self (views : Views) (view : ℕ) (data : Option ℕ) (position : ℤ) :
    (views.call (.bindView view data position)).lastBind view = some (data, position) := by
  rw [lastBind_call, Call.bound, if_pos rfl]
  rfl

theorem lastBind_bindView_of_ne (views : Views) {item view : ℕ} (h : item ≠ view)
    (data : Option ℕ) (position : ℤ) :
    (views.call (.bindView item data position)).lastBind view = views.lastBind view := by
  rw [lastBind_call, Call.bound, if_neg h]
  rfl

theorem lastBind_setGridCell (views : Views) (item : ℕ) (col row : ℤ) (view : ℕ) :
    (views.call (.setGridCell item col row)).lastBind view = views.lastBind view :=
  lastBind_call ..

/-- The positions from `lo` to before `hi` have views, bound to them last. -/
structure Shown (grid : Grid) (lo hi : ℤ) (views : Views) : Prop where
  sound : Sound views
  shown : ∀ p, lo ≤ p → p < grid.item_count → p < hi →
    ∃ node, viewPoolNodeByPosition views.pool_inuse p = some node ∧
      views.lastBind node.item = some (grid.data, p)

/-- **One round** shows one more position, and takes no view from another. -/
theorem Shown.round {grid : Grid} {lo i : ℤ} {views views' : Views} (h : Shown grid lo i views)
    (hrun : refreshRound grid i views = .ok views') : Shown grid lo (i + 1) views' := by
  by_cases hcount : grid.item_count ≤ i
  · rw [refreshRound_of_le hcount] at hrun
    cases hrun
    exact ⟨h.sound, fun p hlo hp hi => h.shown p hlo hp (by omega)⟩
  · rcases refreshRound_cases (show i < grid.item_count by omega) views with
      ⟨node, hnode, hround⟩ | ⟨hnone, fresh, item, hround, hpool, hasks, hsound⟩
    · rw [hround] at hrun
      cases hrun
      refine ⟨h.sound.call _, fun p hlo hp hi => ?_⟩
      by_cases hpi : p = i
      · rw [hpi]
        exact ⟨node, hnode, lastBind_bindView_self ..⟩
      · obtain ⟨m, hm, hbind⟩ := h.shown p hlo hp (by omega)
        refine ⟨m, hm, ?_⟩
        -- The views of two positions differ.
        obtain ⟨hmp, a, b, hpool, -⟩ := nodeByPosition_split hm
        obtain ⟨hnp, a', b', hpool', -⟩ := nodeByPosition_split hnode
        have hne : node.item ≠ m.item := fun heq => hpi <| by
          rw [← hmp, ← hnp, h.sound.node_inj (by simp [hpool']) (by simp [hpool]) heq]
        rw [lastBind_bindView_of_ne _ hne, hbind]
    · rw [hround] at hrun
      cases hrun
      have hfresh := hsound h.sound
      refine ⟨(hfresh.call _).call _, fun p hlo hp hi => ?_⟩
      by_cases hpi : p = i
      · rw [hpi]
        refine ⟨⟨i, item⟩, ?_, lastBind_bindView_self ..⟩
        change viewPoolNodeByPosition fresh.pool_inuse i = _
        rw [hpool, nodeByPosition_cons_self]
      · obtain ⟨m, hm, hbind⟩ := h.shown p hlo hp (by omega)
        refine ⟨m, ?_, ?_⟩
        · change viewPoolNodeByPosition fresh.pool_inuse p = _
          rw [hpool, nodeByPosition_cons_of_ne (Ne.symm hpi), hm]
        · -- The view that comes in is not in use.
          obtain ⟨-, a, b, hsplit, -⟩ := nodeByPosition_split hm
          have hnodup := hfresh.nodup_inuse
          rw [hpool, List.map_cons, List.nodup_cons] at hnodup
          have hne : item ≠ m.item := fun heq =>
            hnodup.1 (List.mem_map.2 ⟨m, by simp [hsplit], heq.symm⟩)
          rw [lastBind_bindView_of_ne _ hne, lastBind_setGridCell,
            lastBind_of_asks hasks fun c hc => hc.bound_eq m.item, hbind]

/-- After the loop over the rows all their positions are shown. -/
theorem shown_of_showRows {grid : Grid} {lo hi : ℤ} (hle : lo ≤ hi) {views views' : Views}
    (hsound : Sound views) (hrun : showRows grid lo hi views = .ok views') :
    Shown grid (lo * grid.column_count) (hi * grid.column_count) views' := by
  rcases le_total 0 grid.column_count with hcols | hcols
  · rw [showRows_eq hcols hle] at hrun
    refine Loop.of_up (Int.mul_le_mul_of_nonneg_right hle hcols) ⟨hsound, fun p hlo _ hhi => ?_⟩
      (fun i v v' _ _ hv => hv.round) hrun
    omega
  · rw [showRows_of_nonpos hcols] at hrun
    cases hrun
    have := Int.mul_le_mul_of_nonpos_right hle hcols
    exact ⟨hsound, fun p hlo _ hhi => by omega⟩

/-! ## Filling again -/

/-- Positions that have views are only bound. -/
theorem showRows_again {grid : Grid} {lo hi : ℤ} (hle : lo ≤ hi) {views : Views}
    (hshown : Shown grid (lo * grid.column_count) (hi * grid.column_count) views) :
    ∃ views', showRows grid lo hi views = .ok views' ∧ OnlyCalls Call.Binds views views' := by
  rcases le_total 0 grid.column_count with hcols | hcols
  · rw [showRows_eq hcols hle]
    refine Loop.up_ok (P := fun _ => OnlyCalls Call.Binds views)
      (Int.mul_le_mul_of_nonneg_right hle hcols) (.refl _ _) ?_
    intro i v hlo hhi hv
    by_cases hcount : grid.item_count ≤ i
    · exact ⟨v, refreshRound_of_le hcount v, hv⟩
    · obtain ⟨node, hnode, -⟩ := hshown.shown i hlo (by omega) hhi
      rw [← hv.inuse_eq] at hnode
      rcases refreshRound_cases (show i < grid.item_count by omega) v with
        ⟨node', -, hround⟩ | ⟨hnone, -⟩
      · exact ⟨_, hround, hv.inuse_eq, hv.free_eq, hv.created_eq, hv.asks.call trivial⟩
      · rw [hnode] at hnone
        cases hnone
  · exact ⟨views, showRows_of_nonpos hcols lo hi views, .refl _ _⟩

/-- Filling rows that were filled just now computes what it computed of them. -/
theorem fillInts_again {row_start row_end : ℤ} {grid grid' : Grid}
    (hcols : grid'.column_count = grid.column_count) (hfirst : row_start ≤ grid'.row_start)
    (hlast : grid'.row_end ≤ row_end) (h : inInt (fillInts row_start row_end grid) = .ok ()) :
    inInt (fillInts row_start row_end grid') = .ok () := by
  have habove : lastPosition grid'.column_count (max 0 grid'.row_start) row_start = [] :=
    if_neg (by omega)
  have hbelow : lastPosition grid'.column_count (max 0 (row_end + 1)) (grid'.row_end + 1) = [] :=
    if_neg (by omega)
  rw [fillInts, habove, hbelow, hcols]
  exact inInt_ok.2 fun x hx => inInt_ok.1 h x (List.mem_append_right _ hx)

/-- Filling rows that were filled just now: none is given up, and all positions
have views. -/
theorem fillRows_again {row_start row_end : ℤ} (hstart : 0 ≤ row_start) (hend : row_start ≤ row_end)
    {grid : Grid} (hfirst : grid.row_start = row_start) (hlast : grid.row_end = row_end)
    (hshown : Shown grid (row_start * grid.column_count) ((row_end + 1) * grid.column_count)
      grid.views)
    (hints : inInt (fillInts row_start row_end grid) = .ok ())
    (hpending :
      ¬(0 ≤ grid.focus_when_available ∧ grid.focus_when_available < grid.item_count)) :
    ∃ grid', fillRows row_start row_end grid = .ok (grid', true) ∧
      OnlyCalls Call.Binds grid.views grid'.views := by
  obtain ⟨views, hshow, honly⟩ := showRows_again (show row_start ≤ row_end + 1 by omega) hshown
  have habove : recycleRows grid.column_count grid.item_count (max 0 grid.row_start) row_start
      false grid.views = .ok grid.views := Loop.up_of_le (hfirst ▸ le_max_right _ _)
  have hbelow : recycleRows grid.column_count grid.item_count (max 0 (row_end + 1))
      (grid.row_end + 1) false grid.views = .ok grid.views :=
    Loop.up_of_le (hlast ▸ le_max_right _ _)
  have hsame : focusAvailable { grid with views, row_start, row_end } =
      { grid with views, row_start, row_end } := if_neg hpending
  refine ⟨{ grid with views, row_start, row_end }, ?_, honly⟩
  rw [fillRows, if_neg (by omega)]
  simp only [habove, hbelow, hints, Bind.bind, Except.bind]
  change Except.bind (showRows grid row_start (row_end + 1) grid.views) _ = _
  rw [hshow, ← hsame]
  rfl

/-- **No blank or stale cell** after `fill_rows`, in any grid whose views are in
one node each: every item of the rows has a view of its own, bound last to that
item of the data, and filling the same rows again only binds. -/
theorem fillRows_fresh {row_start row_end : ℤ} (hstart : 0 ≤ row_start)
    (hend : row_start ≤ row_end) {grid grid' : Grid} {filled : Bool} (hsound : Sound grid.views)
    (hpending :
      ¬(0 ≤ grid.focus_when_available ∧ grid.focus_when_available < grid.item_count))
    (hrun : fillRows row_start row_end grid = .ok (grid', filled)) :
    let shown := fun p => row_start * grid.column_count ≤ p ∧
      p < min grid.item_count ((row_end + 1) * grid.column_count)
    (∀ p, shown p → ∃ view, lvGridviewGetItemView p grid' = some view ∧
      grid'.views.lastBind view = some (grid.data, p)) ∧
    (∀ p q, shown p → shown q →
      lvGridviewGetItemView p grid' = lvGridviewGetItemView q grid' → p = q) ∧
    ∃ grid'', fillRows row_start row_end grid' = .ok (grid'', true) ∧
      OnlyCalls Call.Binds grid'.views grid''.views := by
  intro shown
  obtain ⟨-, above, below, views, habove, hbelow, hints, hviews, rfl⟩ :=
    fillRows_parts hstart hend hrun
  have hsame : focusAvailable { grid with views, row_start, row_end } =
      { grid with views, row_start, row_end } := if_neg hpending
  have hsound' : Sound below :=
    recycleRows_keeps (fun _ _ _ hv => hv.recycle) hbelow
      (recycleRows_keeps (fun _ _ _ hv => hv.recycle) habove hsound)
  have hshown := shown_of_showRows (show row_start ≤ row_end + 1 by omega) hsound' hviews
  have hviewed : ∀ p, shown p → ∃ node, viewPoolNodeByPosition views.pool_inuse p = some node ∧
      views.lastBind node.item = some (grid.data, p) := fun p hp =>
    hshown.shown p hp.1 (lt_min_iff.1 hp.2).1 (lt_min_iff.1 hp.2).2
  rw [hsame]
  refine ⟨fun p hp => ?_, fun p q hp hq heq => ?_, ?_⟩
  · obtain ⟨node, hnode, hbind⟩ := hviewed p hp
    exact ⟨node.item, by rw [lvGridviewGetItemView, hnode]; rfl, hbind⟩
  · -- A view is bound last to one position.
    obtain ⟨node, hnode, hbind⟩ := hviewed p hp
    obtain ⟨node', hnode', hbind'⟩ := hviewed q hq
    simp only [lvGridviewGetItemView, hnode, hnode', Option.map_some, Option.some.injEq] at heq
    rw [heq, hbind'] at hbind
    cases hbind
    rfl
  · have hshown' : Shown { grid with views, row_start, row_end }
        (row_start * grid.column_count) ((row_end + 1) * grid.column_count) views :=
      ⟨hshown.sound, hshown.shown⟩
    have hints' : inInt (fillInts row_start row_end { grid with views, row_start, row_end }) =
        .ok () := @fillInts_again _ _ grid _ rfl le_rfl le_rfl hints
    exact @fillRows_again _ _ hstart hend { grid with views, row_start, row_end } rfl rfl hshown'
      hints' hpending

/-- Five items: those at 2 and 3 have views, and one more view is free. -/
def Grid.unfilled : Grid :=
  { Grid.zeroed with
    column_count := 1, data := some 0, item_count := 5, row_start := 2, row_end := 3
    focus_when_available := -1
    views := ⟨[⟨3, 1⟩, ⟨2, 0⟩], [⟨-1, 2⟩], 3, []⟩ }

/-- One view stays, one is recycled, and a free one comes in. -/
theorem fillRows_fresh_unfilled : ∃ grid', fillRows 0 2 Grid.unfilled = .ok (grid', true) ∧
    grid'.views.pool_inuse = [⟨1, 2⟩, ⟨0, 1⟩, ⟨2, 0⟩] ∧
    (∃ view, lvGridviewGetItemView 1 grid' = some view ∧
      grid'.views.lastBind view = some (some 0, 1)) ∧
    lvGridviewGetItemView 0 grid' ≠ lvGridviewGetItemView 1 grid' ∧
    ∃ grid'', fillRows 0 2 grid' = .ok (grid'', true) ∧
      OnlyCalls Call.Binds grid'.views grid''.views := by
  obtain ⟨grid', hrun, hpool⟩ : ∃ grid', fillRows 0 2 Grid.unfilled = .ok (grid', true) ∧
      grid'.views.pool_inuse = [⟨1, 2⟩, ⟨0, 1⟩, ⟨2, 0⟩] := ⟨_, rfl, rfl⟩
  have hsound : Sound Grid.unfilled.views := ⟨by decide, by decide⟩
  obtain ⟨hviewed, hdistinct, hagain⟩ :=
    fillRows_fresh le_rfl (by decide) hsound (by decide) hrun
  exact ⟨grid', hrun, hpool, hviewed 1 (by decide),
    fun heq => absurd (hdistinct 0 1 (by decide) (by decide) heq) (by decide), hagain⟩

end CommonsC.GridView
