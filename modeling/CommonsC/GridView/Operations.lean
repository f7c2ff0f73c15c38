import CommonsC.GridView.Fill
import CommonsC.GridView.Update

/-!
# CommonsC.GridView.Operations

What the operations do, taken apart.

`Ran` lists the ways in which an operation can succeed, in terms of what it
hands to `update_grid`; `updateGrid_parts` does the same for `update_grid`, and
`Focused` for `lv_gridview_focus`.  The invariants of the grid over its runs are
read off these, and no operation is unfolded again.
-/

namespace CommonsC.GridView

/-! ## Moving views -/

/-- A view is moved to another position. -/
structure Moved (column_count new_pos : ℤ) (views views' : Views) (a : ViewPool)
    (node : ViewPoolNode) (b : ViewPool) : Prop where
  inuse_eq : views'.pool_inuse = a ++ { node with position := new_pos } :: b
  free_eq : views'.pool_free = views.pool_free
  created_eq : views'.created = views.created
  calls_eq : views'.calls =
    .setGridCell node.item (new_pos.tmod column_count % 256) (new_pos.tdiv column_count % 256) ::
      views.calls

/-- What a round of the moving loop can do. -/
theorem moveView_cases {column_count item_start max_item_end move_delta old_pos : ℤ}
    {views views' : Views}
    (h : moveView column_count item_start max_item_end move_delta old_pos views = .ok views') :
    (viewPoolNodeByPosition views.pool_inuse old_pos = none ∧ views' = views) ∨
      (gridRecycleItem old_pos true views = .ok views' ∧
        (old_pos + move_delta < item_start ∨ max_item_end < old_pos + move_delta)) ∨
      ∃ a node b, views.pool_inuse = a ++ node :: b ∧ node.position = old_pos ∧
        (∀ m ∈ a, m.position ≠ old_pos) ∧ item_start ≤ old_pos + move_delta ∧
        old_pos + move_delta ≤ max_item_end ∧
        Moved column_count (old_pos + move_delta) views views' a node b := by
  rw [moveView] at h
  simp only at h
  split at h
  · next hrange => exact .inr (.inl ⟨h, hrange⟩)
  · next hrange =>
      cases hnode : viewPoolNodeByPosition views.pool_inuse old_pos with
      | none =>
          rw [hnode] at h
          cases h
          exact .inl ⟨rfl, rfl⟩
      | some node =>
          rw [hnode] at h
          cases h
          obtain ⟨hposition, a, b, hpool, ha⟩ := nodeByPosition_split hnode
          refine .inr (.inr ⟨a, node, b, hpool, hposition, ha, by omega, by omega, ?_, rfl, rfl,
            rfl⟩)
          change renumber old_pos (old_pos + move_delta) views.pool_inuse = _
          rw [hpool, renumber_append _ ha hposition]

/-- What is in use after a view was moved. -/
theorem Moved.mem_cases {column_count new_pos : ℤ} {views views' : Views} {a b : ViewPool}
    {node m : ViewPoolNode} (h : Moved column_count new_pos views views' a node b)
    (hpool : views.pool_inuse = a ++ node :: b) (hm : m ∈ views'.pool_inuse) :
    m = { node with position := new_pos } ∨ (m ∈ a ++ b ∧ m ∈ views.pool_inuse) := by
  rw [h.inuse_eq, List.mem_append, List.mem_cons] at hm
  rw [hpool, List.mem_append, List.mem_append, List.mem_cons]
  rcases hm with hm | rfl | hm
  · exact .inr ⟨.inl hm, .inl hm⟩
  · exact .inl rfl
  · exact .inr ⟨.inr hm, .inr (.inr hm)⟩

theorem Moved.owned_eq {column_count new_pos : ℤ} {views views' : Views} {a b : ViewPool}
    {node : ViewPoolNode} (h : Moved column_count new_pos views views' a node b)
    (hpool : views.pool_inuse = a ++ node :: b) : views'.owned = views.owned := by
  rw [Views.owned, Views.owned, h.inuse_eq, h.free_eq, hpool]
  simp only [List.map_append, List.map_cons]

/-- Moving leaves every view in one node. -/
theorem owned_moveView {column_count item_start max_item_end move_delta old_pos : ℤ}
    {views views' : Views}
    (h : moveView column_count item_start max_item_end move_delta old_pos views = .ok views') :
    views'.owned = views.owned ∧ views'.created = views.created := by
  rcases moveView_cases h with ⟨-, rfl⟩ | ⟨hrun, -⟩ | ⟨a, node, b, hpool, -, -, -, -, hmoved⟩
  · exact ⟨rfl, rfl⟩
  · exact owned_gridRecycleItem hrun
  · exact ⟨hmoved.owned_eq hpool, hmoved.created_eq⟩

/-- The parts of a splice. -/
theorem applyChange_parts {column_count item_start max_item_end expect_item_count : ℤ}
    {change : Change} {views views' : Views}
    (h : applyChange column_count item_start max_item_end expect_item_count change views =
      .ok views') :
    ∃ kept, Loop.up change.start change.moveFrom (fun del_pos => gridRecycleItem del_pos true)
        views = .ok kept ∧
      (if change.moveDelta = 0 then .ok kept
        else Loop.down (min (expect_item_count - 1) max_item_end) change.moveFrom
          (moveView column_count item_start max_item_end change.moveDelta) kept) =
        (.ok views' : Except Fault Views) := by
  rw [applyChange] at h
  split at h
  · cases h
  · exact Loop.of_bind h

/-- What recycling and moving keep, the change loop keeps. -/
theorem changeLoop_keeps {P : Views → Prop} {column_count item_start max_item_end : ℤ}
    {changes : List Change} {old new : ℤ} {views views' : Views}
    (hrecycle : ∀ position v v', P v → gridRecycleItem position true v = .ok v' → P v')
    (hmove : ∀ change ∈ changes, ∀ old_pos v v', change.moveFrom ≤ old_pos → P v →
      moveView column_count item_start max_item_end change.moveDelta old_pos v = .ok v' → P v')
    (hrun : changeLoop column_count item_start max_item_end changes old views = .ok (new, views'))
    (h : P views) : P views' := by
  induction changes generalizing old views with
  | nil =>
      cases hrun
      exact h
  | cons change changes ih =>
      obtain ⟨mid, hchange, hrest⟩ := Loop.of_bind hrun
      refine ih (fun c hc => hmove c (List.mem_cons_of_mem _ hc)) hrest ?_
      obtain ⟨kept, hremove, hmoves⟩ := applyChange_parts hchange
      have hkept : P kept :=
        Loop.up_keeps h (fun i v v' _ _ hv hround => hrecycle i v v' hv hround) hremove
      split at hmoves
      · cases hmoves
        exact hkept
      · exact Loop.down_keeps hkept
          (fun i v v' hlo _ hv => hmove change List.mem_cons_self i v v' hlo hv) hmoves

/-! ## `update_grid` -/

/-- The parts of `update_grid`, when it is not done at once. -/
structure Updated (coord : ℤ → ℤ) (scroll_y : ℤ) (grid : Grid) (render : Render) (views : Views) :
    Prop where
  height_pos : 0 < grid.content_height
  render_eq : renderRows coord scroll_y grid = .ok render
  pending_eq : pendingChanges grid = .ok grid.pending
  loop_eq : changeLoop grid.column_count (render.itemStart grid.column_count)
    (render.maxItemEnd grid.column_count) grid.pending grid.countBefore grid.views =
      .ok (grid.item_count, views)

theorem pending_of_nonpos {grid : Grid} (h : grid.num_changes ≤ 0) : grid.pending = [] := by
  rw [Grid.pending, Int.toNat_of_nonpos h, List.take_zero]

theorem pendingChanges_eq {grid : Grid} {changes : List Change}
    (h : pendingChanges grid = .ok changes) : changes = grid.pending := by
  rw [pendingChanges] at h
  split at h
  · next hnum =>
      cases h
      exact (pending_of_nonpos hnum).symm
  · rw [Grid.pending]
    cases hchanges : grid.changes with
    | none =>
        rw [hchanges] at h
        cases h
    | some list =>
        rw [hchanges] at h
        simp only at h
        split at h
        · cases h
          rfl
        · cases h

/-- **`update_grid`** does nothing, or applies the splices and ends in
`fill_rows`. -/
theorem updateGrid_parts {coord : ℤ → ℤ} {scroll_y : ℤ} {grid grid' : Grid} {filled : Bool}
    (h : updateGrid coord scroll_y grid = .ok (grid', filled)) :
    (grid.content_height ≤ 0 ∧ grid' = grid ∧ filled = false) ∨
      ∃ render views, Updated coord scroll_y grid render views ∧
        fillRows render.row_start render.row_end { grid with views } = .ok (grid', filled) := by
  rw [updateGrid] at h
  split at h
  · next hheight =>
      cases h
      exact .inl ⟨hheight, rfl, rfl⟩
  · next hheight =>
      obtain ⟨render, hrender, h⟩ := Loop.of_bind h
      obtain ⟨-, -, h⟩ := Loop.of_bind h
      obtain ⟨changes, hchanges, h⟩ := Loop.of_bind h
      obtain ⟨-, -, h⟩ := Loop.of_bind h
      obtain ⟨⟨count, views⟩, hloop, h⟩ := Loop.of_bind h
      simp only at h
      split at h
      · next hcount =>
          have hpending := pendingChanges_eq hchanges
          rw [hpending] at hchanges hloop
          rw [hcount] at hloop
          exact .inr ⟨render, views, ⟨by omega, hrender, hchanges, hloop⟩, h⟩
      · cases h

/-- **`fill_rows`** does nothing, or shows its rows. -/
theorem fillRows_cases {render : Render} {grid grid' : Grid} {filled : Bool}
    (h : fillRows render.row_start render.row_end grid = .ok (grid', filled)) :
    (¬render.Fills ∧ grid' = grid ∧ filled = false) ∨
      (render.Fills ∧ filled = true ∧ ∃ above below views,
        recycleRows grid.column_count grid.item_count (max 0 grid.row_start) render.row_start false
          grid.views = .ok above ∧
        recycleRows grid.column_count grid.item_count (max 0 (render.row_end + 1))
          (grid.row_end + 1) false above = .ok below ∧
        showRows grid render.row_start (render.row_end + 1) below = .ok views ∧
        grid' = focusAvailable
          { grid with views, row_start := render.row_start, row_end := render.row_end }) := by
  by_cases hfills : render.Fills
  · obtain ⟨hfilled, above, below, views, habove, hbelow, -, hviews, heq⟩ :=
      fillRows_parts hfills.1 hfills.2 h
    exact .inr ⟨hfills, hfilled, above, below, views, habove, hbelow, hviews, heq⟩
  · rw [fillRows_of_not hfills] at h
    cases h
    exact .inl ⟨hfills, rfl, rfl⟩

/-! ## `lv_gridview_focus` -/

/-- The focused index after another item lost the focus. -/
def Grid.unfocused (position : ℤ) (grid : Grid) : ℤ :=
  if 0 ≤ grid.focused_index ∧ position ≠ grid.focused_index then -1 else grid.focused_index

theorem defocus_parts (position : ℤ) (grid : Grid) :
    ∃ views, defocus position grid =
        { grid with views, focused_index := grid.unfocused position } ∧
      OnlyCalls Call.Quiet grid.views views := by
  rw [defocus, Grid.unfocused]
  split
  · split
    · next node _ => exact ⟨_, rfl, rfl, rfl, rfl, (Views.Asks.refl rfl).call trivial⟩
    · exact ⟨_, rfl, .refl _ _⟩
  · exact ⟨_, rfl, .refl _ _⟩

/-- What `lv_gridview_focus` can do. -/
inductive Focused (position : ℤ) (grid : Grid) : Grid → Prop
  /-- There is no such item. -/
  | missed {views : Views} : position < 0 ∨ grid.item_count ≤ position →
      OnlyCalls Call.Quiet grid.views views →
      Focused position grid { grid with views, focused_index := grid.unfocused position }
  /-- The item has a view. -/
  | found {views : Views} {node : ViewPoolNode} : 0 ≤ position → position < grid.item_count →
      viewPoolNodeByPosition grid.views.pool_inuse position = some node →
      OnlyCalls Call.Quiet grid.views views →
      Focused position grid { grid with views, focused_index := position }
  /-- The item is shown. -/
  | shown {views : Views} {item : ℕ} : 0 ≤ position → position < grid.item_count →
      viewPoolNodeByPosition grid.views.pool_inuse position = none →
      views.pool_inuse = ⟨position, item⟩ :: grid.views.pool_inuse →
      grid.views.Asks Call.Quiet views → (Sound grid.views → Sound views) →
      Focused position grid { grid with
        views := ((views.call (.setGridCell item (position.tmod grid.column_count)
          (position.tdiv grid.column_count))).call
            (.bindView item grid.data position)).call (.sendFocused item)
        focused_index := position }

theorem lvGridviewFocus_cases (position : ℤ) (grid : Grid) :
    Focused position grid (lvGridviewFocus position grid).1 := by
  obtain ⟨quiet, hdefocus, honly⟩ := defocus_parts position grid
  rw [lvGridviewFocus, hdefocus]
  simp only
  split
  · next hrange => exact .missed hrange honly
  · next hrange =>
      rcases gridObtainItem_cases position quiet with
        ⟨node, hnode, hobtain⟩ | ⟨hnone, views, item, hobtain, hpool, hasks, hsound⟩
      · rw [hobtain]
        rw [honly.inuse_eq] at hnode
        exact .found (by omega) (by omega) hnode ⟨honly.inuse_eq, honly.free_eq,
          honly.created_eq, honly.asks.call trivial⟩
      · rw [hobtain]
        rw [honly.inuse_eq] at hnone hpool
        exact .shown (by omega) (by omega) hnone hpool (honly.asks.trans hasks)
          fun h => hsound (honly.sound h)

/-! ## What stays -/

/-- What `update_grid` and `lv_gridview_focus` leave as it is. -/
structure Kept (grid grid' : Grid) : Prop where
  column_count_eq : grid'.column_count = grid.column_count
  data_eq : grid'.data = grid.data
  item_count_eq : grid'.item_count = grid.item_count
  num_changes_eq : grid'.num_changes = grid.num_changes

theorem Focused.kept {position : ℤ} {grid grid' : Grid} (h : Focused position grid grid') :
    Kept grid grid' := by
  cases h <;> exact ⟨rfl, rfl, rfl, rfl⟩

theorem focusAvailable_kept (grid : Grid) : Kept grid (focusAvailable grid) := by
  rw [focusAvailable]
  split
  · obtain ⟨hcols, hdata, hcount, hnum⟩ :=
      (lvGridviewFocus_cases grid.focus_when_available grid).kept
    exact ⟨hcols, hdata, hcount, hnum⟩
  · exact ⟨rfl, rfl, rfl, rfl⟩

theorem updateGrid_kept {coord : ℤ → ℤ} {scroll_y : ℤ} {grid grid' : Grid} {filled : Bool}
    (h : updateGrid coord scroll_y grid = .ok (grid', filled)) : Kept grid grid' := by
  rcases updateGrid_parts h with ⟨-, rfl, -⟩ | ⟨render, views, -, hfill⟩
  · exact ⟨rfl, rfl, rfl, rfl⟩
  · rcases fillRows_cases hfill with ⟨-, rfl, -⟩ | ⟨-, -, -, -, shown, -, -, -, rfl⟩
    · exact ⟨rfl, rfl, rfl, rfl⟩
    · obtain ⟨hcols, hdata, hcount, hnum⟩ := focusAvailable_kept
        { grid with views := shown, row_start := render.row_start, row_end := render.row_end }
      exact ⟨hcols, hdata, hcount, hnum⟩

/-! ## Valid splices -/

/-- What every splice of a valid list is. -/
def Change.Sane (change : Change) : Prop :=
  0 ≤ change.start ∧ 0 ≤ change.remove_count ∧ 0 ≤ change.add_count

theorem Splices.sane {changes : List Change} {old new : ℤ} (h : Splices changes old new) :
    ∀ change ∈ changes, change.Sane := by
  induction changes generalizing old with
  | nil => exact nofun
  | cons head rest ih =>
      obtain ⟨hstart, hremove, hadd, -, hrest⟩ := h
      intro change hmem
      rcases List.mem_cons.1 hmem with rfl | hmem
      · exact ⟨hstart, hremove, hadd⟩
      · exact ih hrest change hmem

theorem Change.Sane.start_le_moveFrom {change : Change} (h : change.Sane) :
    change.start ≤ change.moveFrom := by
  have := h.2.1
  rw [Change.moveFrom]
  omega

/-- A view is never moved to a negative position. -/
theorem Change.Sane.new_pos_nonneg {change : Change} (h : change.Sane) {old_pos : ℤ}
    (hfrom : change.moveFrom ≤ old_pos) : 0 ≤ old_pos + change.moveDelta := by
  obtain ⟨hstart, -, hadd⟩ := h
  have := change.moveFrom_add_moveDelta
  omega

/-- Without splices there is nothing to check. -/
theorem pending_sane_of_nonpos {grid : Grid} (h : grid.num_changes ≤ 0) :
    ∀ change ∈ grid.pending, change.Sane := by
  rw [pending_of_nonpos h]
  exact nofun

/-- The splices that come with new data. -/
theorem Op.Valid.pending_sane {data : Option (ℕ × ℤ)} {changes : Option (List Change)}
    {num_changes scroll_y : ℤ} {grid handed : Grid}
    (h : (Op.setDataAdvanced data changes num_changes scroll_y).Valid grid)
    (hchanges : handed.changes = changes) (hnum : handed.num_changes = num_changes) :
    ∀ change ∈ handed.pending, change.Sane := by
  rcases h.2 with ⟨-, hle⟩ | hneg | ⟨list, hlist, -, hsplices⟩
  · exact pending_sane_of_nonpos (hnum.trans_le hle)
  · exact pending_sane_of_nonpos (hnum.trans_le hneg.le)
  · rw [Grid.pending, hchanges, hlist]
    exact fun change hmem => hsplices.sane change (List.mem_of_mem_take hmem)

/-! ## Operations -/

/-- What is configured does not depend on the views. -/
theorem configure_ok {col_count row_height : ℤ} {changed : Bool} {grid handed : Grid}
    {views : Views} (h : configure col_count row_height changed { grid with views } = .ok handed) :
    ∃ row_count, handed =
        { grid with views, column_count := col_count, row_height, row_count } ∧
      configure col_count row_height changed grid = .ok { handed with views := grid.views } := by
  rcases configure_eq col_count row_height changed grid with ⟨row_count, hprep⟩ | ⟨e, -, hprep⟩
  · obtain rfl := Except.ok.inj (h.symm.trans (hprep views))
    exact ⟨row_count, rfl, hprep grid.views⟩
  · cases h.symm.trans (hprep views)

/-- What is set with the data does not depend on the views. -/
theorem loadData_ok {data : Option (ℕ × ℤ)} {changes : Option (List Change)} {num_changes : ℤ}
    {grid handed : Grid} {views : Views}
    (h : loadData data changes num_changes { grid with views } = .ok handed) :
    ∃ row_count, handed = { grid with
        views, old_item_count := grid.item_count, changes, num_changes
        data := data.map Prod.fst, item_count := countOf data grid, row_count } ∧
      loadData data changes num_changes grid = .ok { handed with views := grid.views } := by
  rcases loadData_eq data changes num_changes grid with ⟨row_count, hprep⟩ | ⟨e, -, hprep⟩
  · obtain rfl := Except.ok.inj (h.symm.trans (hprep views))
    exact ⟨row_count, rfl, hprep grid.views⟩
  · cases h.symm.trans (hprep views)

/-- How an operation succeeds. -/
inductive Ran (coord : ℤ → ℤ) (grid : Grid) : Op → Grid → Bool → Prop
  | reconfigured {col_count row_height scroll_y : ℤ} {views : Views} {handed grid' : Grid}
      {filled : Bool} : grid.column_count ≠ col_count → clearRows grid = .ok views →
      configure col_count row_height true { grid with views } = .ok handed →
      updateGrid coord scroll_y handed = .ok (grid', filled) →
      Ran coord grid (.setConfig col_count row_height scroll_y) grid' filled
  | configured {row_height scroll_y : ℤ} {grid' : Grid} :
      configure grid.column_count row_height false grid = .ok grid' →
      Ran coord grid (.setConfig grid.column_count row_height scroll_y) grid' false
  | reloaded {data : Option (ℕ × ℤ)} {scroll_y : ℤ} {views : Views} {handed grid' : Grid}
      {filled : Bool} : clearRows grid = .ok views →
      loadData data none 0 { grid with views } = .ok handed →
      updateGrid coord scroll_y handed = .ok (grid', filled) →
      Ran coord grid (.setData data scroll_y) (dropChanges grid') filled
  | loaded {data : Option (ℕ × ℤ)} {changes : Option (List Change)} {num_changes scroll_y : ℤ}
      {views : Views} {handed grid' : Grid} {filled : Bool} :
      scrapViews (changes.isNone || num_changes < 0) grid = .ok views →
      loadData data changes num_changes { grid with views } = .ok handed →
      updateGrid coord scroll_y handed = .ok (grid', filled) →
      Ran coord grid (.setDataAdvanced data changes num_changes scroll_y) (dropChanges grid') filled
  | focused {position : ℤ} {grid' : Grid} : Focused position grid grid' →
      Ran coord grid (.focus position) grid' false
  | awaited {position : ℤ} :
      Ran coord grid (.focusWhenAvailable position)
        { grid with focus_when_available := position } false
  | scrolled {scroll_y : ℤ} {grid' : Grid} {filled : Bool} :
      updateGrid coord scroll_y grid = .ok (grid', filled) →
      Ran coord grid (.scroll scroll_y) grid' filled
  | resized {content_height pad_row pad_top pad_bottom scroll_y : ℤ} {grid' : Grid}
      {filled : Bool} :
      (updateSizes content_height pad_row pad_top pad_bottom grid).2 = true →
      updateGrid coord scroll_y { grid with content_height, pad_row, pad_top, pad_bottom } =
        .ok (grid', filled) →
      Ran coord grid (.sizeChanged content_height pad_row pad_top pad_bottom scroll_y) grid' filled
  | sized {content_height pad_row pad_top pad_bottom scroll_y : ℤ} :
      Ran coord grid (.sizeChanged content_height pad_row pad_top pad_bottom scroll_y)
        { grid with content_height, pad_row, pad_top, pad_bottom } false

theorem setDataAdvanced_ran {coord : ℤ → ℤ} {data : Option (ℕ × ℤ)}
    {changes : Option (List Change)} {num_changes scroll_y : ℤ} {grid grid' : Grid} {filled : Bool}
    (h : lvGridviewSetDataAdvanced coord data changes num_changes scroll_y grid =
      .ok (grid', filled)) :
    ∃ views handed updated, scrapViews (changes.isNone || num_changes < 0) grid = .ok views ∧
      loadData data changes num_changes { grid with views } = .ok handed ∧
      updateGrid coord scroll_y handed = .ok (updated, filled) ∧ grid' = dropChanges updated := by
  obtain ⟨views, hscrap, h⟩ := Loop.of_bind h
  obtain ⟨handed, hload, h⟩ := Loop.of_bind h
  cases hupdate : updateGrid coord scroll_y handed with
  | error e =>
      rw [hupdate] at h
      cases h
  | ok result =>
      rw [hupdate] at h
      cases h
      exact ⟨views, handed, result.1, hscrap, hload, hupdate, rfl⟩

/-- **An operation that succeeds** does so in one of these ways. -/
theorem run_ran {coord : ℤ → ℤ} {grid grid' : Grid} {op : Op} {filled : Bool}
    (h : op.run coord grid = .ok (grid', filled)) : Ran coord grid op grid' filled := by
  cases op with
  | setConfig col_count row_height scroll_y =>
      obtain ⟨views, hscrap, hrest⟩ := Loop.of_bind h
      obtain ⟨handed, hconfigure, hupdate⟩ := Loop.of_bind hrest
      by_cases hsame : grid.column_count = col_count
      · subst hsame
        rw [bne_self_eq_false] at hscrap hconfigure hupdate
        cases hscrap
        cases hupdate
        exact .configured hconfigure
      · have hchanged : (grid.column_count != col_count) = true := bne_iff_ne.2 hsame
        rw [hchanged] at hscrap hconfigure hupdate
        exact .reconfigured hsame hscrap hconfigure hupdate
  | setData data scroll_y =>
      obtain ⟨views, handed, updated, hscrap, hload, hupdate, rfl⟩ := setDataAdvanced_ran h
      exact .reloaded hscrap hload hupdate
  | setDataAdvanced data changes num_changes scroll_y =>
      obtain ⟨views, handed, updated, hscrap, hload, hupdate, rfl⟩ := setDataAdvanced_ran h
      exact .loaded hscrap hload hupdate
  | focus position =>
      cases h
      exact .focused (lvGridviewFocus_cases position grid)
  | focusWhenAvailable position =>
      cases h
      exact .awaited
  | scroll scroll_y => exact .scrolled h
  | sizeChanged content_height pad_row pad_top pad_bottom scroll_y =>
      change (if (updateSizes content_height pad_row pad_top pad_bottom grid).2 = true then _
        else _) = _ at h
      split at h
      · next hchanged => exact .resized hchanged h
      · cases h
        exact .sized

end CommonsC.GridView
