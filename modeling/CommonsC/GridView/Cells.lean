import CommonsC.GridView.Operations

/-!
# CommonsC.GridView.Cells

Where the views are placed.

A view is placed when it comes into use and when a splice moves it.  Two things
can part its cell from its position: another column count, for the views that
`clear_rows` leaves in use, and a splice that moves a view to a cell beyond
what `uint8_t` holds.  `run_placed` says for one operation, and `placement` for
runs, that nothing else does.
-/

namespace CommonsC.GridView

open Multiset

/-! ## The condition -/

/-- The position has the same cell with another column count. -/
def SameCell (old_cols new_cols position : ℤ) : Prop :=
  position % old_cols = position % new_cols ∧ position / old_cols = position / new_cols

/-- The positions of the views that `clear_rows` leaves in use. -/
def Grid.leftInUse (grid : Grid) : Multiset ℤ :=
  grid.views.inuse - (items grid.item_count (max 0 grid.row_start * grid.column_count)
    (grid.row_end * grid.column_count)).val

/-- A view is in use at the position, and the next `update_grid`, which has no
splices to apply, does not recycle it. -/
def Survives (coord : ℤ → ℤ) (scroll_y : ℤ) (handed : Grid) (inuse : Multiset ℤ) (position : ℤ) :
    Prop :=
  position ∈ inuse ∧ (0 < handed.content_height → ∀ render,
    renderRows coord scroll_y handed = .ok render → render.Fills →
      position ∈ inuse - (givenUp render.row_start render.row_end handed).val)

/-- The cell of a position fits in `uint8_t`. -/
def FitsCell (column_count position : ℤ) : Prop :=
  position / column_count < 256 ∧ position % column_count < 256

/-- The positions in use without those of removed items. -/
def Change.kept (change : Change) (inuse : Multiset ℤ) : Multiset ℤ :=
  inuse - (interval change.start change.moveFrom).val

/-- The splice moves a view to the position. -/
def Change.Lands (item_start max_item_end expect_item_count : ℤ) (change : Change)
    (inuse : Multiset ℤ) : ℤ → Prop :=
  Shift.Lands item_start max_item_end change.moveDelta change.moveFrom
    (min (expect_item_count - 1) max_item_end) (change.kept inuse)

/-- The positions in use after a splice. -/
def Change.Carries (item_start max_item_end expect_item_count : ℤ) (change : Change)
    (inuse inuse' : Multiset ℤ) : Prop :=
  if change.moveDelta = 0 then inuse' = change.kept inuse
  else Shift.Slid item_start max_item_end change.moveDelta change.moveFrom
    (min (expect_item_count - 1) max_item_end) (change.kept inuse) inuse'

/-- A splice moves views to cells that fit. -/
def Change.Fits (column_count item_start max_item_end expect_item_count : ℤ) (change : Change)
    (inuse : Multiset ℤ) : Prop :=
  change.moveDelta ≠ 0 → ∀ position,
    change.Lands item_start max_item_end expect_item_count inuse position →
      FitsCell column_count position

/-- Every splice of the list does so, on the positions in use before it. -/
def FitsAll (column_count item_start max_item_end : ℤ) :
    List Change → (expect_item_count : ℤ) → Multiset ℤ → Prop
  | [], _, _ => True
  | change :: changes, expect_item_count, inuse =>
      change.Fits column_count item_start max_item_end expect_item_count inuse ∧
        ∀ inuse', change.Carries item_start max_item_end expect_item_count inuse inuse' →
          FitsAll column_count item_start max_item_end changes
            (expect_item_count + change.moveDelta) inuse'

/-- The condition on what is handed to `update_grid`. -/
def Narrow (coord : ℤ → ℤ) (scroll_y : ℤ) (handed : Grid) : Prop :=
  0 < handed.content_height → ∀ render, renderRows coord scroll_y handed = .ok render →
    FitsAll handed.column_count (render.itemStart handed.column_count)
      (render.maxItemEnd handed.column_count) handed.pending handed.countBefore handed.views.inuse

/-- The condition on an operation: the views that outlast another column count
keep their cell, and splices move views to cells that fit. -/
def Op.Places (coord : ℤ → ℤ) (grid : Grid) : Op → Prop
  | .setConfig col_count row_height scroll_y =>
      grid.column_count ≠ col_count →
        ∀ handed, configure col_count row_height true grid = .ok handed →
          ∀ p, Survives coord scroll_y handed grid.leftInUse p →
            SameCell grid.column_count col_count p
  | .setDataAdvanced data changes num_changes scroll_y =>
      ∀ handed, loadData data changes num_changes grid = .ok handed → Narrow coord scroll_y handed
  | _ => True

/-! ## Views -/

/-- Every view in use was placed last where its position is. -/
structure Placed (column_count : ℤ) (views : Views) : Prop where
  sound : Sound views
  cell : ∀ node ∈ views.pool_inuse, views.lastCell node.item =
    some (node.position % column_count, node.position / column_count)

section

variable {column_count : ℤ} {views views' : Views} (h : Placed column_count views)

include h

theorem Placed.quiet (honly : OnlyCalls Call.Quiet views views') : Placed column_count views' := by
  refine ⟨honly.sound h.sound, fun node hnode => ?_⟩
  rw [honly.inuse_eq] at hnode
  rw [lastCell_of_asks honly.asks fun c hc => hc.placed_eq node.item, h.cell node hnode]

theorem Placed.recycle {position : ℤ} {optional : Bool}
    (hrun : gridRecycleItem position optional views = .ok views') : Placed column_count views' := by
  obtain ⟨hasks, hmem⟩ := recycle_quiet hrun
  refine ⟨h.sound.recycle hrun, fun m hm => ?_⟩
  rw [lastCell_of_asks hasks fun c hc => hc.placed_eq m.item]
  exact h.cell m (hmem m hm)

theorem Placed.recycleRows {cols count lo hi : ℤ} {optional : Bool}
    (hrun : GridView.recycleRows cols count lo hi optional views = .ok views') :
    Placed column_count views' :=
  recycleRows_keeps (fun _ _ _ hv hround => hv.recycle hround) hrun h

theorem Placed.bind (item : ℕ) (data : Option ℕ) (position : ℤ) :
    Placed column_count (views.call (.bindView item data position)) :=
  ⟨h.sound.call _, fun node hnode => (lastCell_call ..).trans (h.cell node hnode)⟩

/-- A view comes into use and is placed. -/
theorem Placed.shown {position : ℤ} {item : ℕ}
    (hpool : views'.pool_inuse = ⟨position, item⟩ :: views.pool_inuse)
    (hasks : views.Asks Call.Quiet views') (hsound : Sound views → Sound views') :
    Placed column_count
      (views'.call (.setGridCell item (position % column_count) (position / column_count))) := by
  have hsound' := hsound h.sound
  refine ⟨hsound'.call _, fun m hm => ?_⟩
  change m ∈ views'.pool_inuse at hm
  rw [hpool] at hm
  rw [lastCell_call, Call.placed]
  rcases List.mem_cons.1 hm with rfl | hm
  · rw [if_pos rfl]
    rfl
  · have hnodup := hsound'.nodup_inuse
    rw [hpool, List.map_cons, List.nodup_cons] at hnodup
    have hne : item ≠ m.item := fun heq => hnodup.1 (List.mem_map.2 ⟨m, hm, heq.symm⟩)
    rw [if_neg hne, Option.none_or, lastCell_of_asks hasks fun c hc => hc.placed_eq m.item,
      h.cell m hm]

/-- A view is moved to a cell that fits. -/
theorem Placed.move {new_pos : ℤ} {a b : ViewPool} {node : ViewPoolNode}
    (hpool : views.pool_inuse = a ++ node :: b)
    (hmoved : Moved column_count new_pos views views' a node b) (hcols : 0 < column_count)
    (hnew : 0 ≤ new_pos) (hfits : FitsCell column_count new_pos) : Placed column_count views' := by
  refine ⟨h.sound.of_owned_eq (hmoved.owned_eq hpool) hmoved.created_eq, fun m hm => ?_⟩
  have hlast : views'.lastCell m.item = (Call.placed m.item (.setGridCell node.item
      (new_pos.tmod column_count % 256) (new_pos.tdiv column_count % 256))).or
        (views.lastCell m.item) := by
    rw [← lastCell_call, Views.lastCell, Views.lastCell, hmoved.calls_eq]
    rfl
  have hcol : new_pos.tmod column_count % 256 = new_pos % column_count := by
    rw [Int.tmod_eq_emod_of_nonneg hnew,
      Int.emod_eq_of_lt (Int.emod_nonneg _ hcols.ne') hfits.2]
  have hrow : new_pos.tdiv column_count % 256 = new_pos / column_count := by
    rw [Int.tdiv_eq_ediv_of_nonneg hnew,
      Int.emod_eq_of_lt (Int.ediv_nonneg hnew hcols.le) hfits.1]
  rw [hlast, Call.placed, hcol, hrow]
  rcases hmoved.mem_cases hpool hm with rfl | ⟨hother, hm⟩
  · rw [if_pos rfl]
    rfl
  · have hnodup := h.sound.nodup_inuse
    rw [hpool, List.map_append, List.map_cons, List.nodup_middle, List.nodup_cons,
      ← List.map_append] at hnodup
    have hne : node.item ≠ m.item := fun heq =>
      hnodup.1 (List.mem_map.2 ⟨m, hother, heq.symm⟩)
    rw [if_neg hne, Option.none_or, h.cell m hm]

end

/-! ## Splices -/

section

variable {column_count item_start max_item_end expect_item_count : ℤ} {change : Change}
  {inuse : Multiset ℤ}

/-- The positions when the moving loop has come down to `i`. -/
def Change.Midway (item_start max_item_end expect_item_count : ℤ) (change : Change)
    (inuse : Multiset ℤ) (i : ℤ) (views : Views) : Prop :=
  Shift.Midway item_start max_item_end change.moveDelta change.moveFrom
    (min (expect_item_count - 1) max_item_end) (change.kept inuse) i views.inuse

/-- A round of the moving loop takes the positions a round further. -/
theorem Change.Midway.round {views views' : Views} {i : ℤ}
    (h : change.Midway item_start max_item_end expect_item_count inuse i views)
    (hfrom : change.moveFrom ≤ i) (hi : i ≤ min (expect_item_count - 1) max_item_end)
    (hrun : moveView column_count item_start max_item_end change.moveDelta i views = .ok views') :
    change.Midway item_start max_item_end expect_item_count inuse (i - 1) views' := by
  obtain ⟨moved, hmove, hslide⟩ :=
    moveView_eq column_count item_start max_item_end change.moveDelta i views
  obtain rfl := Except.ok.inj (hrun.symm.trans hmove)
  rw [Change.Midway, hslide]
  exact Shift.Midway.slideOne (min_le_right _ _) hfrom hi h

/-- A round of the moving loop leaves the views placed if it moves one to a cell
that fits. -/
theorem Placed.round {views views' : Views} {i : ℤ} (h : Placed column_count views)
    (hcols : 0 < column_count) (hsane : change.Sane) (hdelta : change.moveDelta ≠ 0)
    (hfits : change.Fits column_count item_start max_item_end expect_item_count inuse)
    (hfrom : change.moveFrom ≤ i) (hi : i ≤ min (expect_item_count - 1) max_item_end)
    (hmidway : change.Midway item_start max_item_end expect_item_count inuse i views)
    (hrun : moveView column_count item_start max_item_end change.moveDelta i views = .ok views') :
    Placed column_count views' := by
  rcases moveView_cases hrun with
    ⟨-, rfl⟩ | ⟨hrecycle, -⟩ | ⟨a, node, b, hpool, hnode, -, hlower, hupper, hmoved⟩
  · exact h
  · exact h.recycle hrecycle
  · have hmeets := (Shift.Midway.mem_iff (min_le_right _ _) hfrom hi hmidway).1
      (hnode ▸ mem_inuse hpool)
    rw [← Int.add_sub_cancel i change.moveDelta] at hmeets
    exact h.move hpool hmoved hcols (hsane.new_pos_nonneg hfrom)
      (hfits hdelta _ ⟨hmeets, hlower, hupper⟩)

/-- **One splice** leaves the views placed if it moves them to cells that fit. -/
theorem applyChange_placed {views views' : Views} (hcols : 0 < column_count)
    (hsane : change.Sane)
    (hfits : change.Fits column_count item_start max_item_end expect_item_count views.inuse)
    (h : Placed column_count views)
    (hrun : applyChange column_count item_start max_item_end expect_item_count change views =
      .ok views') :
    Placed column_count views' ∧
      change.Carries item_start max_item_end expect_item_count views.inuse views'.inuse := by
  obtain ⟨kept, hremove, hmoves⟩ := applyChange_parts hrun
  have hkept : Placed column_count kept :=
    Loop.up_keeps h (fun _ _ _ _ _ hv hround => hv.recycle hround) hremove
  have hinuse : kept.inuse = change.kept views.inuse := by
    obtain ⟨removed, hremoved, heq⟩ := removeLoop_eq hsane.start_le_moveFrom views
    obtain rfl := Except.ok.inj (hremove.symm.trans hremoved)
    exact heq
  rw [Change.Carries]
  by_cases hdelta : change.moveDelta = 0
  · rw [if_pos hdelta] at hmoves ⊢
    cases hmoves
    exact ⟨hkept, hinuse⟩
  · rw [if_neg hdelta] at hmoves ⊢
    have hinit : change.Midway item_start max_item_end expect_item_count views.inuse
        (min (expect_item_count - 1) max_item_end) kept := by
      rw [Change.Midway, hinuse]
      exact Shift.midway_init
    obtain ⟨hplaced, hmidway⟩ := Loop.of_down
      (P := fun i v => Placed column_count v ∧
        change.Midway item_start max_item_end expect_item_count views.inuse i v)
      ⟨hkept, hinit⟩
      (fun i _ _ hlo hhi hv hround =>
        ⟨hv.1.round hcols hsane hdelta hfits hlo hhi hv.2 hround, hv.2.round hlo hhi hround⟩)
      hmoves
    exact ⟨hplaced, Shift.Midway.slid (by omega) hmidway⟩

end

/-- All splices of a list leave the views placed. -/
theorem changeLoop_placed {column_count item_start max_item_end : ℤ} {changes : List Change}
    {old new : ℤ} {views views' : Views} (hcols : 0 < column_count)
    (hsane : ∀ change ∈ changes, change.Sane)
    (hfits : FitsAll column_count item_start max_item_end changes old views.inuse)
    (h : Placed column_count views)
    (hrun : changeLoop column_count item_start max_item_end changes old views =
      .ok (new, views')) : Placed column_count views' := by
  induction changes generalizing old views with
  | nil =>
      cases hrun
      exact h
  | cons change changes ih =>
      obtain ⟨mid, hchange, hrest⟩ := Loop.of_bind hrun
      obtain ⟨hmid, hcarries⟩ :=
        applyChange_placed hcols (hsane change List.mem_cons_self) hfits.1 h hchange
      exact ih (fun c hc => hsane c (List.mem_cons_of_mem _ hc)) (hfits.2 mid.inuse hcarries)
        hmid hrest

/-! ## `update_grid` -/

theorem Placed.refresh {grid : Grid} {views views' : Views} (h : Placed grid.column_count views)
    {position : ℤ} (hrun : refreshRound grid position views = .ok views') :
    Placed grid.column_count views' := by
  by_cases hcount : grid.item_count ≤ position
  · rw [refreshRound_of_le hcount] at hrun
    cases hrun
    exact h
  · rcases refreshRound_cases (show position < grid.item_count by omega) views with
      ⟨node, -, hround⟩ | ⟨-, fresh, item, hround, hpool, hasks, hsound⟩
    · rw [hround] at hrun
      cases hrun
      exact h.bind _ _ _
    · rw [hround] at hrun
      cases hrun
      exact (h.shown hpool hasks hsound).bind _ _ _

theorem Focused.placed {position : ℤ} {grid grid' : Grid} (h : Focused position grid grid')
    (hplaced : Placed grid.column_count grid.views) : Placed grid.column_count grid'.views := by
  cases h with
  | missed hrange honly => exact hplaced.quiet honly
  | found hlo hhi hnode honly => exact hplaced.quiet honly
  | shown hlo hhi hnone hpool hasks hsound =>
      rw [Int.tmod_eq_emod_of_nonneg hlo, Int.tdiv_eq_ediv_of_nonneg hlo]
      exact ((hplaced.shown hpool hasks hsound).bind _ _ _).quiet
        ⟨rfl, rfl, rfl, (Views.Asks.refl rfl).call trivial⟩

theorem focusAvailable_placed {grid : Grid} (h : Placed grid.column_count grid.views) :
    Placed grid.column_count (focusAvailable grid).views := by
  rw [focusAvailable]
  split
  · exact (lvGridviewFocus_cases grid.focus_when_available grid).placed h
  · exact h

/-- The rows that are shown, and the item that was waited for, are placed. -/
theorem showRows_placed {grid : Grid} (hcols : 0 < grid.column_count) {render : Render}
    (hfills : render.Fills) {views views' : Views} (h : Placed grid.column_count views)
    (hrun : showRows grid render.row_start (render.row_end + 1) views = .ok views') :
    Placed grid.column_count (focusAvailable
      { grid with
        views := views', row_start := render.row_start, row_end := render.row_end }).views := by
  have hend : render.row_start ≤ render.row_end + 1 := hfills.2.trans (by omega)
  rw [showRows_eq hcols.le hend] at hrun
  have hshown : Placed grid.column_count views' :=
    Loop.up_keeps h (fun _ _ _ _ _ hv hround => hv.refresh hround) hrun
  exact @focusAvailable_placed { grid with
    views := views', row_start := render.row_start, row_end := render.row_end } hshown

/-- **`update_grid`** leaves the views placed if its splices move them to cells
that fit. -/
theorem updateGrid_placed {coord : ℤ → ℤ} {scroll_y : ℤ} {grid grid' : Grid} {filled : Bool}
    (hcols : 0 < grid.column_count) (hsane : ∀ change ∈ grid.pending, change.Sane)
    (hnarrow : Narrow coord scroll_y grid) (h : Placed grid.column_count grid.views)
    (hrun : updateGrid coord scroll_y grid = .ok (grid', filled)) :
    Placed grid.column_count grid'.views := by
  rcases updateGrid_parts hrun with ⟨-, rfl, -⟩ | ⟨render, views, hupdated, hfill⟩
  · exact h
  · have hfits := hnarrow hupdated.height_pos render hupdated.render_eq
    have hmoved : Placed grid.column_count views :=
      changeLoop_placed hcols hsane hfits h hupdated.loop_eq
    rcases fillRows_cases hfill with
      ⟨-, rfl, -⟩ | ⟨hfills, -, above, below, shown, habove, hbelow, hshown, rfl⟩
    · exact hmoved
    · have hbelow' := (hmoved.recycleRows habove).recycleRows hbelow
      exact @showRows_placed { grid with views } hcols render hfills _ _ hbelow' hshown

/-- Views keep their places under another column count that gives their
positions the same cells. -/
theorem Placed.same_cell {old_cols new_cols : ℤ} {views : Views} (h : Placed old_cols views)
    (hsame : ∀ p ∈ views.inuse, SameCell old_cols new_cols p) : Placed new_cols views := by
  refine ⟨h.sound, fun node hnode => ?_⟩
  obtain ⟨hcol, hrow⟩ := hsame node.position (mem_coe.2 (List.mem_map_of_mem hnode))
  rw [h.cell node hnode, hcol, hrow]

/-- **Another column count** leaves the views placed if those that outlast it
keep their cells. -/
theorem updateGrid_reconfigured {coord : ℤ → ℤ} {scroll_y old_cols : ℤ} {handed grid' : Grid}
    {filled : Bool} (hcols : 0 < handed.column_count) (hnum : handed.num_changes = 0)
    (h : Placed old_cols handed.views)
    (hsame : ∀ p, Survives coord scroll_y handed handed.views.inuse p →
      SameCell old_cols handed.column_count p)
    (hrun : updateGrid coord scroll_y handed = .ok (grid', filled)) :
    Placed handed.column_count grid'.views := by
  rcases updateGrid_parts hrun with ⟨hheight, rfl, -⟩ | ⟨render, views, hupdated, hfill⟩
  · exact h.same_cell fun p hp => hsame p ⟨hp, fun hpos => absurd hpos (by omega)⟩
  · obtain rfl : views = handed.views := by
      have hloop := hupdated.loop_eq
      rw [pending_of_nonpos hnum.le, changeLoop] at hloop
      exact (Prod.mk.inj (Except.ok.inj hloop)).2.symm
    rcases fillRows_cases hfill with
      ⟨hnot, rfl, -⟩ | ⟨hfills, -, above, below, shown, habove, hbelow, hshown, rfl⟩
    · refine h.same_cell fun p hp => hsame p ⟨hp, fun _ render' hrender' hfills => ?_⟩
      rw [hupdated.render_eq] at hrender'
      cases hrender'
      exact absurd hfills hnot
    · have hbelow' := (h.recycleRows habove).recycleRows hbelow
      have hinuse : below.inuse =
          handed.views.inuse - (givenUp render.row_start render.row_end handed).val := by
        have hbelowStart : max 0 (render.row_end + 1) = render.row_end + 1 :=
          max_eq_right (by have := hfills.1; have := hfills.2; omega)
        rw [sub_givenUp hfills.2 hcols.le, inuse_recycleRows hcols.le hbelow,
          inuse_recycleRows hcols.le habove, hbelowStart]
      have hkept : Placed handed.column_count below := hbelow'.same_cell fun p hp => by
        rw [hinuse] at hp
        refine hsame p ⟨mem_of_le (Multiset.sub_le_self _ _) hp, fun _ render' hrender' _ => ?_⟩
        rw [hupdated.render_eq] at hrender'
        cases hrender'
        exact hp
      exact @showRows_placed handed hcols render hfills _ _ hkept hshown

/-! ## Operations and runs -/

/-- A grid between two operations, with its views placed. -/
structure Cells (grid : Grid) : Prop extends Idle grid where
  placed : Placed grid.column_count grid.views

theorem Cells.of_kept {grid grid' : Grid} (hcols : 0 < grid.column_count)
    (hnum : grid.num_changes = 0) (hkept : Kept grid grid')
    (hplaced : Placed grid.column_count grid'.views) : Cells grid' := by
  rw [← hkept.column_count_eq] at hplaced hcols
  exact ⟨⟨hcols, hkept.num_changes_eq.trans hnum⟩, hplaced⟩

theorem scrapViews_placed {scrap : Bool} {grid : Grid} {views : Views}
    (h : Placed grid.column_count grid.views) (hrun : scrapViews scrap grid = .ok views) :
    Placed grid.column_count views := by
  cases scrap with
  | false =>
      cases hrun
      exact h
  | true => exact h.recycleRows (recycleRows_of_clearRows hrun)

/-- Without splices there is nothing to fit. -/
theorem narrow_of_nonpos {coord : ℤ → ℤ} {scroll_y : ℤ} {handed : Grid}
    (h : handed.num_changes ≤ 0) : Narrow coord scroll_y handed := by
  intro _ render _
  rw [pending_of_nonpos h]
  trivial

theorem load_placed {coord : ℤ → ℤ} {data : Option (ℕ × ℤ)} {changes : Option (List Change)}
    {num_changes scroll_y : ℤ} {grid handed grid' : Grid} {views : Views} {filled : Bool}
    (hcells : Cells grid)
    (hvalid : (Op.setDataAdvanced data changes num_changes scroll_y).Valid grid)
    (hplaces : (Op.setDataAdvanced data changes num_changes scroll_y).Places coord grid)
    (hscrap : scrapViews (changes.isNone || num_changes < 0) grid = .ok views)
    (hload : loadData data changes num_changes { grid with views } = .ok handed)
    (hrun : updateGrid coord scroll_y handed = .ok (grid', filled)) :
    Cells (dropChanges grid') := by
  obtain ⟨row_count, hhanded, hload'⟩ := loadData_ok hload
  have hcols : handed.column_count = grid.column_count := by rw [hhanded]
  have hviews : handed.views = views := by rw [hhanded]
  have hsane : ∀ change ∈ handed.pending, change.Sane :=
    hvalid.pending_sane (by rw [hhanded]) (by rw [hhanded])
  have hnarrow : Narrow coord scroll_y handed := by
    rcases hvalid.2 with ⟨-, hle⟩ | hneg | ⟨list, hlist, hlen, -⟩
    · exact narrow_of_nonpos (by rw [hhanded]; exact hle)
    · exact narrow_of_nonpos (by rw [hhanded]; exact hneg.le)
    · -- With splices no view was scrapped.
      have hkeep : (changes.isNone || decide (num_changes < 0)) = false := by
        rw [hlist, hlen]
        simp
      rw [hkeep] at hscrap
      cases hscrap
      have hnarrow := hplaces _ hload'
      rwa [← hviews] at hnarrow
  have hplaced : Placed handed.column_count handed.views := by
    rw [hcols, hviews]
    exact scrapViews_placed hcells.placed hscrap
  have hkept := updateGrid_kept hrun
  have hpos : 0 < handed.column_count := hcols ▸ hcells.cols
  have hplaced' := updateGrid_placed hpos hsane hnarrow hplaced hrun
  rw [← hkept.column_count_eq] at hplaced' hpos
  exact ⟨⟨hpos, rfl⟩, hplaced'⟩

/-- `update_grid` without splices. -/
theorem update_placed {coord : ℤ → ℤ} {scroll_y : ℤ} {grid grid' : Grid} {filled : Bool}
    (hcells : Cells grid) (hrun : updateGrid coord scroll_y grid = .ok (grid', filled)) :
    Cells grid' := by
  have hnone := hcells.num_changes.le
  exact .of_kept hcells.cols hcells.num_changes (updateGrid_kept hrun)
    (updateGrid_placed hcells.cols (pending_sane_of_nonpos hnone) (narrow_of_nonpos hnone)
      hcells.placed hrun)

/-- **One operation** leaves the views placed. -/
theorem run_placed {coord : ℤ → ℤ} {grid grid' : Grid} {op : Op} {filled : Bool}
    (hcells : Cells grid) (hvalid : op.Valid grid) (hplaces : op.Places coord grid)
    (hrun : op.run coord grid = .ok (grid', filled)) : Cells grid' := by
  cases run_ran hrun with
  | reconfigured hne hclear hconfigure hupdate =>
      rename_i col_count row_height scroll_y views handed
      obtain ⟨row_count, hhanded, hconfigure'⟩ := configure_ok hconfigure
      have hcols : handed.column_count = col_count := by rw [hhanded]
      have hnum : handed.num_changes = 0 := by rw [hhanded, hcells.num_changes]
      have hviews : handed.views = views := by rw [hhanded]
      have hinuse : handed.views.inuse = grid.leftInUse := by
        rw [hviews, inuse_recycleRows hcells.cols.le (recycleRows_of_clearRows hclear),
          Grid.leftInUse]
      have hplaced : Placed grid.column_count handed.views := by
        rw [hviews]
        exact scrapViews_placed hcells.placed (show scrapViews true grid = .ok views from hclear)
      have hsame : ∀ p, Survives coord scroll_y handed handed.views.inuse p →
          SameCell grid.column_count handed.column_count p := fun p hp => by
        rw [hinuse] at hp
        rw [hcols]
        exact hplaces hne _ hconfigure' p hp
      have hpos : 0 < handed.column_count := hcols ▸ hvalid.1
      exact .of_kept hpos hnum (updateGrid_kept hupdate)
        (updateGrid_reconfigured hpos hnum hplaced hsame hupdate)
  | configured hconfigure =>
      obtain ⟨row_count, rfl, -⟩ := @configure_ok _ _ _ grid _ grid.views hconfigure
      exact ⟨⟨hcells.cols, hcells.num_changes⟩, hcells.placed⟩
  | reloaded hclear hload hupdate =>
      rename_i data scroll_y views handed after
      have hvalid' : (Op.setDataAdvanced data none 0 scroll_y).Valid grid :=
        ⟨hvalid, .inl ⟨rfl, le_rfl⟩⟩
      have hplaces' : (Op.setDataAdvanced data none 0 scroll_y).Places coord grid :=
        fun handed hload => by
          obtain ⟨row_count, rfl, -⟩ := @loadData_ok _ _ _ grid _ grid.views hload
          exact narrow_of_nonpos le_rfl
      exact load_placed hcells hvalid' hplaces' hclear hload hupdate
  | loaded hscrap hload hupdate => exact load_placed hcells hvalid hplaces hscrap hload hupdate
  | focused hfocused =>
      exact .of_kept hcells.cols hcells.num_changes hfocused.kept (hfocused.placed hcells.placed)
  | awaited => exact ⟨⟨hcells.cols, hcells.num_changes⟩, hcells.placed⟩
  | scrolled hupdate => exact update_placed hcells hupdate
  | resized hchanged hupdate =>
      rename_i content_height pad_row pad_top pad_bottom scroll_y
      let sized : Grid := { grid with content_height, pad_row, pad_top, pad_bottom }
      have hsized : Cells sized := ⟨⟨hcells.cols, hcells.num_changes⟩, hcells.placed⟩
      exact update_placed hsized hupdate
  | sized => exact ⟨⟨hcells.cols, hcells.num_changes⟩, hcells.placed⟩

/-- **The placement matches the position** of every view in use, in the rendered
rows or not, in every run in which no view that outlasts another column count
had a different cell, and no view was moved to a cell that does not fit, after
every operation in which `fill_rows` gets past its range check. -/
theorem placement (coord : ℤ → ℤ) {grid : Grid}
    (hgrid : ((system coord).restrict fun grid op => op.Places coord grid).Reachable grid)
    {op : Op} (hvalid : op.Valid grid) (hplaces : op.Places coord grid) {grid' : Grid}
    (hrun : op.run coord grid = .ok (grid', true)) {node : ViewPoolNode}
    (hnode : node ∈ grid'.views.pool_inuse) :
    grid'.views.lastCell node.item =
      some (node.position % grid'.column_count, node.position / grid'.column_count) := by
  have hcells : Cells grid := hgrid.invariant
    (fun s hs => by
      rw [system_init.1 hs]
      exact ⟨⟨by decide, rfl⟩, ⟨by decide, by decide⟩, nofun⟩)
    fun s op s' _ hcells hstep => by
      obtain ⟨hplaces, hvalid, filled, hrun⟩ := hstep
      exact run_placed hcells hvalid hplaces hrun
  exact (run_placed hcells hvalid hplaces hrun).placed.cell node hnode

/-- The grid that shows two items, item 1 in row 1. -/
theorem placement_twoItems : Grid.twoItems.views.lastCell 1 = some (0, 1) := by
  have hsized : ((system id).restrict fun grid op => op.Places id grid).Reachable Grid.sized :=
    sized_reachable (fun hne => absurd rfl hne) trivial
  exact placement id hsized setData_twoItems_valid trivial setData_twoItems
    (show (⟨1, 1⟩ : ViewPoolNode) ∈ Grid.twoItems.views.pool_inuse by decide)

/-- Two columns in the same grid: item 1 keeps its place in row 1. -/
theorem setConfig_twoColumns : ∃ grid, (Op.setConfig 2 10 0).run id Grid.twoItems =
    .ok (grid, true) ∧ grid.column_count = 2 ∧ grid.row_start = 0 ∧ grid.row_end = 0 ∧
      ⟨1, 1⟩ ∈ grid.views.pool_inuse ∧ grid.views.lastCell 1 = some (0, 1) :=
  ⟨_, rfl, rfl, rfl, rfl, by decide, by decide⟩

/-- **The placement does not always match the position.** -/
theorem misplacement : ¬∀ (grid : Grid) (op : Op) (grid' : Grid) (node : ViewPoolNode),
    (system id).Reachable grid → op.Valid grid → op.run id grid = .ok (grid', true) →
    node ∈ grid'.views.pool_inuse → grid'.row_start * grid'.column_count ≤ node.position →
    node.position < (grid'.row_end + 1) * grid'.column_count →
    grid'.views.lastCell node.item =
      some (node.position % grid'.column_count, node.position / grid'.column_count) := by
  intro hclaim
  have hsized : ((system id).restrict fun _ _ => True).Reachable Grid.sized :=
    sized_reachable trivial trivial
  have htwo : (system id).Reachable Grid.twoItems :=
    .step (l := .setData (some (0, 2)) 0) hsized.of_restrict
      ⟨setData_twoItems_valid, true, setData_twoItems⟩
  obtain ⟨grid', hrun, hcols, hstart, hend, hnode, hcell⟩ := setConfig_twoColumns
  have hplaced := hclaim Grid.twoItems (.setConfig 2 10 0) grid' ⟨1, 1⟩ htwo
    ⟨by decide, by decide⟩ hrun hnode (by rw [hstart, hcols]; decide) (by rw [hend, hcols]; decide)
  rw [hcell, hcols] at hplaced
  exact absurd hplaced (by decide)

end CommonsC.GridView
