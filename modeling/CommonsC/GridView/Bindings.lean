import CommonsC.GridView.Events

/-!
# CommonsC.GridView.Bindings

What the adapter is asked to bind.

The grid keeps the item count that the adapter reported for the data it was
given last.  It asks for bindings below that count only, with two exceptions.
NULL data leaves the old count, and everything that shows or rebinds an item
then does so without data; and rebinding one item looks at no count.
`bind_within_data` says that nothing else goes wrong.
-/

namespace CommonsC.GridView

/-! ## The client's side -/

/-- The grid, and the data it was given last with the item count that the
adapter reported for it. -/
structure Client where
  grid : KeyGrid
  reported : Option (ℕ × ℤ)

/-- What is reported after an event. -/
def Event.report (reported : Option (ℕ × ℤ)) : Event → Option (ℕ × ℤ)
  | .op (.setData data _) => data
  | .op (.setDataAdvanced data _ _ _) => data
  | _ => reported

/-- A grid with an adapter, and its client. -/
def clientSystem (coord : ℤ → ℤ) : TransitionSystem Client Event where
  init client := client = ⟨KeyGrid.created, none⟩
  step client event client' :=
    (eventSystem coord).step client.grid event client'.grid ∧
      client'.reported = event.report client.reported

/-- A call that binds a view, if it does, to an item of the data. -/
def Call.Within (data : Option ℕ) (item_count : ℤ) : Call → Prop
  | .bindView _ data' position =>
      data' = data ∧ data ≠ none ∧ 0 ≤ position ∧ position < item_count
  | _ => True

theorem Call.Quiet.within {c : Call} (h : c.Quiet) (data : Option ℕ) (item_count : ℤ) :
    c.Within data item_count := by
  cases c with
  | bindView => exact h.elim
  | _ => trivial

/-! ## The condition -/

/-- Without data, `update_grid` does not get to show an item. -/
def Idles (coord : ℤ → ℤ) (scroll_y : ℤ) (grid : Grid) : Prop :=
  grid.data = none → grid.item_count ≤ 0 ∨ grid.content_height ≤ 0 ∨
    ∀ render, renderRows coord scroll_y grid = .ok render → ¬render.Fills

/-- Without data, no item is focused that has no view. -/
def FocusIdles (position : ℤ) (grid : Grid) : Prop :=
  grid.data = none → position < 0 ∨ grid.item_count ≤ position ∨ position ∈ grid.views.inuse

/-- Without data, `lv_gridview_rebind` finds no view for its first position. -/
def RebindIdles (grid : Grid) : Prop :=
  grid.data = none → grid.row_end < max 0 grid.row_start ∨
    grid.item_count ≤ max 0 grid.row_start * grid.column_count ∨
      max 0 grid.row_start * grid.column_count ∉ grid.views.inuse

/-- The condition on an event: nothing is shown or rebound without data, and a
single view is rebound only to an item. -/
def Event.Backed (coord : ℤ → ℤ) (grid : KeyGrid) : Event → Prop
  | .op operation =>
      operation.Hands (fun scroll_y handed _ => Idles coord scroll_y handed) grid.toGrid ∧
        ∀ position, operation = .focus position → FocusIdles position grid.toGrid
  | .key pressed => ∀ position ∈ keyTarget pressed grid, FocusIdles position grid.toGrid
  | .rebind => RebindIdles grid.toGrid
  | .rebindItem position =>
      position ∈ grid.views.inuse → grid.data ≠ none ∧ position < grid.item_count
  | _ => True

/-! ## One operation -/

/-- What the rounds of `update_grid` keep: only items were bound, and no
position is negative. -/
structure Binds (data : Option ℕ) (item_count : ℤ) (before views : Views) : Prop where
  asks : before.Asks (Call.Within data item_count) views
  nonneg : ∀ node ∈ views.pool_inuse, 0 ≤ node.position

section

variable {data : Option ℕ} {item_count : ℤ} {before views views' : Views}
  (h : Binds data item_count before views)

include h

theorem Binds.call {c : Call} (hc : c.Within data item_count) :
    Binds data item_count before (views.call c) :=
  ⟨h.asks.call hc, h.nonneg⟩

theorem Binds.quiet (honly : OnlyCalls Call.Quiet views views') :
    Binds data item_count before views' :=
  ⟨h.asks.trans (honly.asks.mono fun _ hc => hc.within _ _),
    fun m hm => h.nonneg m (honly.inuse_eq ▸ hm)⟩

theorem Binds.recycle {position : ℤ} {optional : Bool}
    (hrun : gridRecycleItem position optional views = .ok views') :
    Binds data item_count before views' := by
  obtain ⟨hasks, hmem⟩ := recycle_quiet hrun
  exact ⟨h.asks.trans (hasks.mono fun _ hc => hc.within _ _), fun m hm => h.nonneg m (hmem m hm)⟩

theorem Binds.recycleRows {column_count count lo hi : ℤ} {optional : Bool}
    (hrun : GridView.recycleRows column_count count lo hi optional views = .ok views') :
    Binds data item_count before views' :=
  recycleRows_keeps (fun _ _ _ hv hround => hv.recycle hround) hrun h

theorem Binds.move {column_count item_start max_item_end move_delta old_pos : ℤ}
    (hnew : 0 ≤ old_pos + move_delta)
    (hrun : moveView column_count item_start max_item_end move_delta old_pos views = .ok views') :
    Binds data item_count before views' := by
  rcases moveView_cases hrun with ⟨-, rfl⟩ | ⟨hrecycle, -⟩ | ⟨a, node, b, hpool, -, -, -, -, hmoved⟩
  · exact h
  · exact h.recycle hrecycle
  · refine ⟨h.asks.trans ⟨[_], hmoved.calls_eq, ?_⟩, fun m hm => ?_⟩
    · intro c hc
      rw [List.mem_singleton.1 hc]
      trivial
    · rcases hmoved.mem_cases hpool hm with rfl | ⟨-, hm⟩
      · exact hnew
      · exact h.nonneg m hm

/-- A view that comes into use for an item is bound to it. -/
theorem Binds.shown {position : ℤ} {item : ℕ} (hsome : data ≠ none) (hlo : 0 ≤ position)
    (hhi : position < item_count)
    (hpool : views'.pool_inuse = ⟨position, item⟩ :: views.pool_inuse)
    (hasks : views.Asks Call.Quiet views') (col row : ℤ) :
    Binds data item_count before
      ((views'.call (.setGridCell item col row)).call (.bindView item data position)) := by
  have hfresh : Binds data item_count before views' := by
    refine ⟨h.asks.trans (hasks.mono fun _ hc => hc.within _ _), fun m hm => ?_⟩
    rw [hpool] at hm
    rcases List.mem_cons.1 hm with rfl | hm
    · exact hlo
    · exact h.nonneg m hm
  have hplaced : Binds data item_count before (views'.call (.setGridCell item col row)) :=
    hfresh.call trivial
  exact hplaced.call ⟨rfl, hsome, hlo, hhi⟩

end

/-- Showing an item binds it, if there is data. -/
theorem Binds.refresh {grid : Grid} {before views views' : Views}
    (h : Binds grid.data grid.item_count before views)
    (hsome : 0 < grid.item_count → grid.data ≠ none) {position : ℤ} (hposition : 0 ≤ position)
    (hrun : refreshRound grid position views = .ok views') :
    Binds grid.data grid.item_count before views' := by
  by_cases hcount : grid.item_count ≤ position
  · rw [refreshRound_of_le hcount] at hrun
    cases hrun
    exact h
  · have hlt : position < grid.item_count := by omega
    have hdata := hsome (by omega)
    rcases refreshRound_cases hlt views with
      ⟨node, -, hround⟩ | ⟨-, fresh, item, hround, hpool, hasks, -⟩
    · rw [hround] at hrun
      cases hrun
      exact h.call ⟨rfl, hdata, hposition, hlt⟩
    · rw [hround] at hrun
      cases hrun
      exact h.shown hdata hposition hlt hpool hasks _ _

/-- The rows that are shown are bound. -/
theorem showRows_binds {grid : Grid} {before views views' : Views}
    (h : Binds grid.data grid.item_count before views)
    (hsome : 0 < grid.item_count → grid.data ≠ none) {lo hi : ℤ} (hlo : 0 ≤ lo) (hle : lo ≤ hi)
    (hrun : showRows grid lo hi views = .ok views') :
    Binds grid.data grid.item_count before views' := by
  rcases le_total 0 grid.column_count with hcols | hcols
  · rw [showRows_eq hcols hle] at hrun
    have hnonneg := Int.mul_nonneg hlo hcols
    exact Loop.up_keeps h
      (fun i v v' hi _ hv hround => hv.refresh hsome (by omega) hround) hrun
  · rw [showRows_of_nonpos hcols] at hrun
    cases hrun
    exact h

/-- Focusing an item binds it if it had no view. -/
theorem Focused.binds {position : ℤ} {grid grid' : Grid} (h : Focused position grid grid')
    (hidles : FocusIdles position grid) {before : Views}
    (hbinds : Binds grid.data grid.item_count before grid.views) :
    Binds grid.data grid.item_count before grid'.views := by
  cases h with
  | missed hrange honly => exact hbinds.quiet honly
  | found hlo hhi hnode honly => exact hbinds.quiet honly
  | shown hlo hhi hnone hpool hasks =>
      have hdata : grid.data ≠ none := fun hnull => by
        have hunused := nodeByPosition_eq_none.1 hnone
        rcases hidles hnull with hneg | hbeyond | hused
        · omega
        · omega
        · exact hunused hused
      have hshown := hbinds.shown hdata hlo hhi hpool hasks
        (position.tmod grid.column_count) (position.tdiv grid.column_count)
      exact hshown.call trivial

theorem focusAvailable_binds {grid : Grid} (hsome : 0 < grid.item_count → grid.data ≠ none)
    {before : Views} (hbinds : Binds grid.data grid.item_count before grid.views) :
    Binds grid.data grid.item_count before (focusAvailable grid).views := by
  rw [focusAvailable]
  split
  · next hawaited =>
      exact (lvGridviewFocus_cases grid.focus_when_available grid).binds
        (fun hnull => absurd hnull (hsome (by omega))) hbinds
  · exact hbinds

/-- **`update_grid`** binds only items of the data. -/
theorem updateGrid_binds {coord : ℤ → ℤ} {scroll_y : ℤ} {grid grid' : Grid} {filled : Bool}
    (h : updateGrid coord scroll_y grid = .ok (grid', filled)) (hidles : Idles coord scroll_y grid)
    (hsane : ∀ change ∈ grid.pending, change.Sane) {before : Views}
    (hbinds : Binds grid.data grid.item_count before grid.views) :
    Binds grid.data grid.item_count before grid'.views := by
  rcases updateGrid_parts h with ⟨-, rfl, -⟩ | ⟨render, views, hupdated, hfill⟩
  · exact hbinds
  · have hmoved : Binds grid.data grid.item_count before views := changeLoop_keeps
      (fun _ _ _ hv hround => hv.recycle hround)
      (fun change hmem old_pos _ _ hfrom hv hround =>
        hv.move ((hsane change hmem).new_pos_nonneg hfrom) hround)
      hupdated.loop_eq hbinds
    rcases fillRows_cases hfill with
      ⟨-, rfl, -⟩ | ⟨hfills, -, above, below, shown, habove, hbelow, hshown, rfl⟩
    · exact hmoved
    · have hsome : 0 < grid.item_count → grid.data ≠ none := fun hpos hnull => by
        rcases hidles hnull with hcount | hheight | hnot
        · omega
        · have := hupdated.height_pos
          omega
        · exact hnot render hupdated.render_eq hfills
      have hbelow' := (hmoved.recycleRows habove).recycleRows hbelow
      have hend : render.row_start ≤ render.row_end + 1 := hfills.2.trans (by omega)
      let filledGrid : Grid :=
        { grid with views := shown, row_start := render.row_start, row_end := render.row_end }
      have hshown' : Binds grid.data grid.item_count before shown :=
        @showRows_binds { grid with views } _ _ _ hbelow' hsome _ _ hfills.1 hend hshown
      exact @focusAvailable_binds filledGrid hsome _ hshown'

/-! ## Rebinding -/

/-- A round of `lv_gridview_rebind` at one position. -/
def rebindRound (grid : Grid) (position : ℤ) (views : Views) : Except Views Views :=
  if grid.item_count ≤ position then .ok views
  else
    match viewPoolNodeByPosition views.pool_inuse position with
    | none => .error views
    | some node => .ok (views.call (.bindView node.item grid.data position))

theorem rebindRows_eq {grid : Grid} (hcols : 0 ≤ grid.column_count)
    (hle : max 0 grid.row_start ≤ grid.row_end + 1) :
    rebindRows grid = Loop.up (max 0 grid.row_start * grid.column_count)
      ((grid.row_end + 1) * grid.column_count) (rebindRound grid) grid.views :=
  @Loop.up_up _ _ (rebindRound grid) grid.views _ hcols _ _ hle

/-- `lv_gridview_rebind` binds only items of the data. -/
theorem rebindRows_binds {grid : Grid} (hidles : RebindIdles grid)
    (hnonneg : ∀ node ∈ grid.views.pool_inuse, 0 ≤ node.position) :
    Loop.Ends (Binds grid.data grid.item_count grid.views) (rebindRows grid) := by
  have hstart : Binds grid.data grid.item_count grid.views grid.views := ⟨.refl rfl, hnonneg⟩
  rcases le_total grid.column_count 0 with hcols | hcols
  · rw [rebindRows, Loop.up_noop fun i _ _ => Loop.up_of_le hcols]
    exact hstart
  · rcases lt_or_ge grid.row_end (max 0 grid.row_start) with hrows | hrows
    · rw [rebindRows, Loop.up_of_le (by omega)]
      exact hstart
    · rw [rebindRows_eq hcols (by omega)]
      have hlo := Int.mul_nonneg (le_max_left 0 grid.row_start) hcols
      by_cases hdata : grid.data = none
      · -- Nothing is bound: there are no items, or the loop ends at its first position.
        rcases hidles hdata with hnone | hcount | hunused
        · omega
        · rw [Loop.up_noop fun i hi _ => if_pos (hcount.trans hi)]
          exact hstart
        · by_cases hcount : grid.item_count ≤ max 0 grid.row_start * grid.column_count
          · rw [Loop.up_noop fun i hi _ => if_pos (hcount.trans hi)]
            exact hstart
          · rcases lt_or_ge (max 0 grid.row_start * grid.column_count)
              ((grid.row_end + 1) * grid.column_count) with hlt | hge
            · rw [Loop.up_of_lt hlt, rebindRound, if_neg hcount,
                nodeByPosition_eq_none.2 hunused]
              exact hstart
            · rw [Loop.up_of_le hge]
              exact hstart
      · refine Loop.up_ends hstart fun i views hi _ hviews => ?_
        rw [rebindRound]
        split
        · exact hviews
        · split
          · exact hviews
          · exact hviews.call ⟨rfl, hdata, by omega, by omega⟩

theorem lvGridviewRebind_binds {grid grid' : Grid} (hidles : RebindIdles grid)
    (hnonneg : ∀ node ∈ grid.views.pool_inuse, 0 ≤ node.position)
    (h : lvGridviewRebind grid = .ok grid') :
    Kept grid grid' ∧ Binds grid.data grid.item_count grid.views grid'.views := by
  have hends := rebindRows_binds hidles hnonneg
  obtain ⟨views, hrows | hrows, rfl⟩ := lvGridviewRebind_cases h
  · rw [hrows] at hends
    exact ⟨⟨rfl, rfl, rfl, rfl⟩, hends⟩
  · rw [hrows] at hends
    exact ⟨⟨rfl, rfl, rfl, rfl⟩, hends⟩

theorem lvGridviewRebindItem_binds {grid : Grid} {position : ℤ}
    (hbacked : position ∈ grid.views.inuse → grid.data ≠ none ∧ position < grid.item_count)
    (hnonneg : ∀ node ∈ grid.views.pool_inuse, 0 ≤ node.position) :
    Kept grid (lvGridviewRebindItem position grid) ∧
      Binds grid.data grid.item_count grid.views (lvGridviewRebindItem position grid).views := by
  have hstart : Binds grid.data grid.item_count grid.views grid.views := ⟨.refl rfl, hnonneg⟩
  rw [lvGridviewRebindItem]
  split
  · exact ⟨⟨rfl, rfl, rfl, rfl⟩, hstart⟩
  · next node hnode =>
      obtain ⟨hdata, hlt⟩ := hbacked (mem_inuse_of_nodeByPosition hnode)
      obtain ⟨hposition, a, b, hpool, -⟩ := nodeByPosition_split hnode
      have hpos : 0 ≤ position := hposition ▸ hnonneg node (by simp [hpool])
      exact ⟨⟨rfl, rfl, rfl, rfl⟩, hstart.call ⟨rfl, hdata, hpos, hlt⟩⟩

/-! ## One event -/

/-- The grid knows what was reported, and has bound only items of it since
`before`. -/
structure Serves (reported : Option (ℕ × ℤ)) (before : Views) (grid : Grid) : Prop where
  data_eq : grid.data = reported.map Prod.fst
  count_eq : ∀ d ∈ reported, grid.item_count = d.2
  binds : Binds grid.data grid.item_count before grid.views

section

variable {reported : Option (ℕ × ℤ)} {before : Views} {grid grid' : Grid}
  (h : Serves reported before grid)

include h

theorem Serves.restart : Serves reported grid.views grid :=
  ⟨h.data_eq, h.count_eq, .refl rfl, h.binds.nonneg⟩

theorem Serves.kept (hkept : Kept grid grid')
    (hbinds : Binds grid.data grid.item_count before grid'.views) :
    Serves reported before grid' := by
  refine ⟨hkept.data_eq.trans h.data_eq,
    fun d hd => hkept.item_count_eq.trans (h.count_eq d hd), ?_⟩
  rw [hkept.data_eq, hkept.item_count_eq]
  exact hbinds

theorem Serves.update {coord : ℤ → ℤ} {scroll_y : ℤ} {filled : Bool}
    (hrun : updateGrid coord scroll_y grid = .ok (grid', filled))
    (hidles : Idles coord scroll_y grid) (hsane : ∀ change ∈ grid.pending, change.Sane) :
    Serves reported before grid' :=
  h.kept (updateGrid_kept hrun) (updateGrid_binds hrun hidles hsane h.binds)

theorem Serves.update_idle {coord : ℤ → ℤ} {scroll_y : ℤ} {filled : Bool}
    (hnum : grid.num_changes = 0) (hrun : updateGrid coord scroll_y grid = .ok (grid', filled))
    (hidles : Idles coord scroll_y grid) :
    Serves reported before grid' ∧ grid'.num_changes = 0 :=
  ⟨h.update hrun hidles (pending_sane_of_nonpos hnum.le),
    (updateGrid_kept hrun).num_changes_eq.trans hnum⟩

theorem Serves.focus {position : ℤ} (hrun : Focused position grid grid')
    (hidles : FocusIdles position grid) : Serves reported before grid' :=
  h.kept hrun.kept (hrun.binds hidles h.binds)

end

/-- Scrapping views binds none. -/
theorem scrapViews_binds (data : Option ℕ) (item_count : ℤ) {scrap : Bool} {grid : Grid}
    {views : Views} (hnonneg : ∀ node ∈ grid.views.pool_inuse, 0 ≤ node.position)
    (hrun : scrapViews scrap grid = .ok views) : Binds data item_count grid.views views := by
  have hstart : Binds data item_count grid.views grid.views := ⟨.refl rfl, hnonneg⟩
  cases scrap with
  | false =>
      cases hrun
      exact hstart
  | true => exact hstart.recycleRows (recycleRows_of_clearRows hrun)

/-- **New data** is served from then on. -/
theorem load_serves {coord : ℤ → ℤ} {data : Option (ℕ × ℤ)} {changes : Option (List Change)}
    {num_changes scroll_y : ℤ} {scrap : Bool} {grid handed grid' : Grid} {views : Views}
    {filled : Bool} (hnonneg : ∀ node ∈ grid.views.pool_inuse, 0 ≤ node.position)
    (hvalid : (Op.setDataAdvanced data changes num_changes scroll_y).Valid grid)
    (hidles : ∀ handed, loadData data changes num_changes grid = .ok handed →
      Idles coord scroll_y handed)
    (hscrap : scrapViews scrap grid = .ok views)
    (hload : loadData data changes num_changes { grid with views } = .ok handed)
    (hrun : updateGrid coord scroll_y handed = .ok (grid', filled)) :
    Serves data grid.views (dropChanges grid') := by
  obtain ⟨row_count, hhanded, hload'⟩ := loadData_ok hload
  have hidles' := hidles _ hload'
  have hsane : ∀ change ∈ handed.pending, change.Sane :=
    hvalid.pending_sane (by rw [hhanded]) (by rw [hhanded])
  have hserves : Serves data grid.views handed := by
    rw [hhanded]
    refine ⟨rfl, fun d hd => ?_, scrapViews_binds _ _ hnonneg hscrap⟩
    change countOf data grid = d.2
    rw [countOf, Option.mem_def.1 hd]
    rfl
  have hupdated := hserves.update hrun hidles' hsane
  exact ⟨hupdated.data_eq, hupdated.count_eq, hupdated.binds⟩

/-- **One operation** binds only items of the data it leaves. -/
theorem ran_serves {coord : ℤ → ℤ} {grid grid' : Grid} {operation : Op} {filled : Bool}
    {reported : Option (ℕ × ℤ)} (h : Serves reported grid.views grid)
    (hnum : grid.num_changes = 0) (hvalid : operation.Valid grid)
    (hidles : operation.Hands (fun scroll_y handed _ => Idles coord scroll_y handed) grid)
    (hfocus : ∀ position, operation = .focus position → FocusIdles position grid)
    (hran : Ran coord grid operation grid' filled) :
    Serves ((Event.op operation).report reported) grid.views grid' ∧ grid'.num_changes = 0 := by
  have hnonneg := h.binds.nonneg
  cases hran with
  | reconfigured hne hclear hconfigure hupdate =>
      rename_i views handed
      obtain ⟨row_count, hhanded, hconfigure'⟩ := configure_ok hconfigure
      have hidles' := hidles hne _ hconfigure'
      have hnum' : handed.num_changes = 0 := by rw [hhanded, hnum]
      have hscrapped : Binds grid.data grid.item_count grid.views views :=
        scrapViews_binds _ _ hnonneg (show scrapViews true grid = .ok views from hclear)
      have hserves : Serves reported grid.views handed := by
        rw [hhanded]
        exact ⟨h.data_eq, h.count_eq, hscrapped⟩
      exact hserves.update_idle hnum' hupdate hidles'
  | configured hconfigure =>
      obtain ⟨row_count, rfl, -⟩ := @configure_ok _ _ _ grid _ grid.views hconfigure
      exact ⟨⟨h.data_eq, h.count_eq, h.binds⟩, hnum⟩
  | reloaded hclear hload hupdate =>
      rename_i data scroll_y views handed after
      have hvalid' : (Op.setDataAdvanced data none 0 scroll_y).Valid grid :=
        ⟨hvalid, .inl ⟨rfl, le_rfl⟩⟩
      have hscrap : scrapViews true grid = .ok views := hclear
      exact ⟨load_serves hnonneg hvalid' hidles hscrap hload hupdate, rfl⟩
  | loaded hscrap hload hupdate =>
      exact ⟨load_serves hnonneg hvalid hidles hscrap hload hupdate, rfl⟩
  | focused hfocused =>
      refine ⟨h.focus hfocused (hfocus _ rfl), ?_⟩
      rw [hfocused.kept.num_changes_eq, hnum]
  | awaited => exact ⟨⟨h.data_eq, h.count_eq, h.binds⟩, hnum⟩
  | scrolled hupdate =>
      exact h.update_idle hnum hupdate hidles
  | resized hchanged hupdate =>
      rename_i content_height pad_row pad_top pad_bottom scroll_y
      let sized : Grid := { grid with content_height, pad_row, pad_top, pad_bottom }
      have hidles' : Idles coord scroll_y sized := hidles hchanged
      have hserves : Serves reported grid.views sized := ⟨h.data_eq, h.count_eq, h.binds⟩
      exact hserves.update_idle hnum hupdate hidles'
  | sized => exact ⟨⟨h.data_eq, h.count_eq, h.binds⟩, hnum⟩

/-- **One event** binds only items of the data it leaves. -/
theorem run_serves {coord : ℤ → ℤ} {grid grid' : KeyGrid} {event : Event}
    {reported : Option (ℕ × ℤ)} (h : Serves reported grid.views grid.toGrid)
    (hnum : grid.num_changes = 0) (hvalid : event.Valid grid) (hbacked : event.Backed coord grid)
    (hrun : event.run coord grid = .ok grid') :
    Serves (event.report reported) grid.views grid'.toGrid ∧ grid'.num_changes = 0 := by
  have hfocus : ∀ position, FocusIdles position grid.toGrid →
      Serves reported grid.views (grid.focus position).toGrid ∧
        (grid.focus position).num_changes = 0 := fun position hidles => by
    have hfocused := lvGridviewFocus_cases position grid.toGrid
    exact ⟨h.focus hfocused hidles, hfocused.kept.num_changes_eq.trans hnum⟩
  cases event with
  | op operation =>
      obtain ⟨filled, hran⟩ := run_op hrun
      exact ran_serves h hnum hvalid hbacked.1 hbacked.2 hran
  | key pressed =>
      rcases keyCb_cases hrun with rfl | ⟨position, hposition, rfl⟩
      · exact ⟨h, hnum⟩
      · exact hfocus position (hbacked position hposition)
  | cancel =>
      cases hrun
      exact hfocus (-1) fun _ => .inl (by decide)
  | setKeyFocusClamp enable =>
      cases hrun
      exact ⟨h, hnum⟩
  | rebind =>
      obtain ⟨rebound, hrebind, rfl⟩ := run_rebind hrun
      obtain ⟨hkept, hbinds⟩ := lvGridviewRebind_binds hbacked h.binds.nonneg hrebind
      exact ⟨h.kept hkept hbinds, hkept.num_changes_eq.trans hnum⟩
  | rebindItem position =>
      cases hrun
      obtain ⟨hkept, hbinds⟩ := lvGridviewRebindItem_binds hbacked h.binds.nonneg
      exact ⟨h.kept hkept hbinds, hkept.num_changes_eq.trans hnum⟩
  | itemDelete obj =>
      cases hrun
      exact ⟨⟨h.data_eq, h.count_eq, .refl rfl,
        fun m hm => h.binds.nonneg m (List.mem_of_mem_eraseP hm)⟩, hnum⟩

/-! ## Runs -/

/-- A call that binds a view, if it does, to an item of the current data, which
is not NULL, below the item count that was reported for it. -/
def Call.Reported (client : Client) : Call → Prop
  | .bindView _ data position =>
      data = client.grid.data ∧
        ∃ d ∈ client.reported, data = some d.1 ∧ 0 ≤ position ∧ position < d.2
  | _ => True

/-- The condition on runs. -/
def Client.backed (coord : ℤ → ℤ) (client : Client) (event : Event) : Prop :=
  event.Backed coord client.grid

/-- In every such run the grid knows what was reported. -/
theorem reachable_serves {coord : ℤ → ℤ} {client : Client}
    (h : ((clientSystem coord).restrict (Client.backed coord)).Reachable client) :
    Serves client.reported client.grid.views client.grid.toGrid ∧ client.grid.num_changes = 0 := by
  refine h.invariant
    (P := fun client => Serves client.reported client.grid.views client.grid.toGrid ∧
      client.grid.num_changes = 0) (fun s hs => ?_) fun s event s' _ hserves hstep => ?_
  · rw [show s = ⟨KeyGrid.created, none⟩ from hs]
    exact ⟨⟨rfl, nofun, .refl rfl, nofun⟩, rfl⟩
  · obtain ⟨hbacked, ⟨hvalid, hrun⟩, hreport⟩ := hstep
    obtain ⟨hserves', hnum⟩ := run_serves hserves.1 hserves.2 hvalid hbacked hrun
    rw [hreport]
    exact ⟨hserves'.restart, hnum⟩

/-- **The adapter is asked for items of its data only**, in every run in which
nothing is shown or rebound without data, and no view is rebound to an item
that is gone. -/
theorem bind_within_data (coord : ℤ → ℤ) {client client' : Client} {event : Event}
    (hclient : ((clientSystem coord).restrict (Client.backed coord)).Reachable client)
    (hbacked : event.Backed coord client.grid)
    (hstep : (clientSystem coord).step client event client') :
    client.grid.views.Asks (Call.Reported client') client'.grid.views := by
  obtain ⟨hserves, hnum⟩ := reachable_serves hclient
  obtain ⟨⟨hvalid, hrun⟩, hreport⟩ := hstep
  obtain ⟨hserves', -⟩ := run_serves hserves hnum hvalid hbacked hrun
  rw [← hreport] at hserves'
  refine hserves'.binds.asks.mono fun c hc => ?_
  cases c with
  | bindView item data position =>
      obtain ⟨hdata, hsome, hlo, hhi⟩ := hc
      refine ⟨hdata, ?_⟩
      rw [hserves'.data_eq] at hdata hsome
      cases hd : client'.reported with
      | none =>
          rw [hd] at hsome
          exact absurd rfl hsome
      | some d =>
          rw [hd] at hdata
          exact ⟨d, rfl, hdata, hlo, hserves'.count_eq d hd ▸ hhi⟩
  | _ => trivial

/-- The grid that shows two items, with the keys not clamped. -/
def Client.twoItems : Client := ⟨{ Grid.twoItems with key_focus_clamp := false }, some (0, 2)⟩

theorem twoItems_backed :
    ((clientSystem id).restrict (Client.backed id)).Reachable Client.twoItems := by
  let configured : Client :=
    ⟨{ Grid.created with row_height := 10, key_focus_clamp := false }, none⟩
  let sized : Client := ⟨{ Grid.sized with key_focus_clamp := false }, none⟩
  have hconfigured : ((clientSystem id).restrict (Client.backed id)).Reachable configured :=
    .step (l := .op (.setConfig 1 10 0)) (.init rfl)
      ⟨⟨fun hne => absurd rfl hne, nofun⟩, ⟨⟨by decide, by decide⟩, rfl⟩, rfl⟩
  have hsized : ((clientSystem id).restrict (Client.backed id)).Reachable sized :=
    .step (l := .op (.sizeChanged 20 0 0 0 0)) hconfigured
      ⟨⟨fun _ _ => .inl le_rfl, nofun⟩, ⟨trivial, rfl⟩, rfl⟩
  refine .step (l := .op (.setData (some (0, 2)) 0)) hsized
    ⟨⟨fun handed hload hnull => ?_, nofun⟩, ⟨setData_twoItems_valid, rfl⟩, rfl⟩
  cases hload
  cases hnull

/-- The same grid after both items were bound again. -/
def Grid.rebound : Grid :=
  { Grid.twoItems with
    views := (Grid.twoItems.views.call (.bindView 0 (some 0) 0)).call (.bindView 1 (some 0) 1) }

/-- Rebinding the grid that shows two items. -/
theorem bind_within_data_twoItems : lvGridviewRebind Grid.twoItems = .ok Grid.rebound ∧
    Client.twoItems.grid.views.Asks
      (Call.Reported ⟨{ Grid.rebound with key_focus_clamp := false }, some (0, 2)⟩)
      Grid.rebound.views :=
  ⟨rfl, @bind_within_data id Client.twoItems
    ⟨{ Grid.rebound with key_focus_clamp := false }, some (0, 2)⟩ .rebind
    twoItems_backed nofun ⟨⟨trivial, rfl⟩, rfl⟩⟩

/-- NULL data in the same grid: the items that were counted before are bound to
it. -/
theorem setData_null : ∃ grid item position calls,
    (Op.setData none 0).run id Grid.twoItems = .ok (grid, true) ∧
      grid.views.calls = .bindView item none position :: calls := ⟨_, _, _, _, rfl, rfl⟩

/-- **The adapter is not always called within its data.** -/
theorem bind_outside_data : ¬∀ (client client' : Client) (event : Event),
    (clientSystem id).Reachable client → (clientSystem id).step client event client' →
    client.grid.views.Asks (Call.Reported client') client'.grid.views := by
  intro hclaim
  obtain ⟨grid, item, position, calls, hrun, hcalls⟩ := setData_null
  have hvalid : (Op.setData none 0).Valid Grid.twoItems := nofun
  obtain ⟨new, hnew, hall⟩ := hclaim Client.twoItems
    ⟨{ grid with key_focus_clamp := false }, none⟩ (.op (.setData none 0))
    twoItems_backed.of_restrict ⟨⟨hvalid, by rw [Event.run]; exact congrArg _ hrun⟩, rfl⟩
  rw [hcalls] at hnew
  cases new with
  | nil => cases hnew
  | cons c rest =>
      cases hnew
      obtain ⟨-, d, hd, -⟩ := hall _ List.mem_cons_self
      cases hd

end CommonsC.GridView
