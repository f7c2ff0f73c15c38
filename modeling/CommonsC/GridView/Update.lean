import CommonsC.GridView.Splices

/-!
# CommonsC.GridView.Update

What the operations do to the positions in use.

Every operation that touches the pools ends in `update_grid`: it prepares the
grid, hands it over with a set of positions that the views in use are for (all
of the window, or the last row that `clear_rows` leaves), and `update_grid`
carries them through the pending splices and moves the window.
`renderGrid_eq` says so for `update_grid`, and `run_outcome` for the
operations.
-/

namespace CommonsC.GridView

open Multiset

/-! ## `update_grid` -/

/-- The splices that `update_grid` is to apply. -/
def Grid.pending (grid : Grid) : List Change :=
  (grid.changes.getD []).take grid.num_changes.toNat

/-- The item count before them. -/
def Grid.countBefore (grid : Grid) : ℤ :=
  if grid.num_changes ≤ 0 then grid.item_count else grid.old_item_count

/-- The grid is ready for `update_grid`, its views in use being for the items
`shown`. -/
structure Ready (grid : Grid) (shown : Finset ℤ) : Prop where
  cols : 0 < grid.column_count
  pending_eq : pendingChanges grid = .ok grid.pending
  splices : Splices grid.pending grid.countBefore grid.item_count
  shown_lt : grid.pending ≠ [] → ∀ p ∈ shown, p < grid.countBefore

/-- The positions that the views for `shown` get from the change loop. -/
def Render.carried (render : Render) (grid : Grid) : Finset ℤ → Finset ℤ :=
  carryAll (render.itemStart grid.column_count) (render.maxItemEnd grid.column_count) grid.pending

/-- The change loop meets no hole. -/
def Render.HoleFree (render : Render) (grid : Grid) : Finset ℤ → Prop :=
  HoleFreeAll (render.itemStart grid.column_count) (render.maxItemEnd grid.column_count)
    grid.pending

/-- The rows pass the range check of `fill_rows`. -/
def Render.Fills (render : Render) : Prop :=
  0 ≤ render.row_start ∧ render.row_start ≤ render.row_end

instance (render : Render) : Decidable render.Fills := inferInstanceAs (Decidable (_ ∧ _))

/-- The second part of `update_grid` is `fill_rows` with the views carried
along, if nothing overflows. -/
theorem renderGrid_eq {render : Render} {grid : Grid} {shown : Finset ℤ}
    (hready : Ready grid shown) (hfree : render.HoleFree grid shown) :
    ∃ views, Bounds (render.carried grid) shown grid.views views ∧
      (renderGrid render grid = fillRows render.row_start render.row_end { grid with views } ∨
        renderGrid render grid = .error .overflow) := by
  obtain ⟨views, hrun, hbounds⟩ := changeLoop_eq grid.column_count
    (render.itemStart grid.column_count) (render.maxItemEnd grid.column_count) hready.splices
    (fun hne p hp _ => hready.shown_lt hne p hp) hfree grid.views
  refine ⟨views, hbounds, ?_⟩
  rw [renderGrid, hready.pending_eq]
  rcases inInt_cases (changesInts (render.maxItemEnd grid.column_count) grid.pending
    grid.countBefore) with hints | hints
  · refine .inl ?_
    change Except.bind (inInt (changesInts _ grid.pending grid.countBefore)) _ = _
    rw [hints]
    change Except.bind (changeLoop _ _ _ grid.pending grid.countBefore grid.views) _ = _
    rw [hrun]
    exact if_pos rfl
  · refine .inr ?_
    change Except.bind (inInt (changesInts _ grid.pending grid.countBefore)) _ = _
    rw [hints]
    rfl

theorem fillRows_of_not {render : Render} (h : ¬render.Fills) (grid : Grid) :
    fillRows render.row_start render.row_end grid = .ok (grid, false) := by
  rw [Render.Fills] at h
  rw [fillRows, if_pos (by omega)]

/-! ## Preparations -/

/-- The positions that are in use after `clear_rows`, if it is called. -/
def Grid.left (scrap : Bool) (grid : Grid) : Finset ℤ :=
  if scrap then grid.lastRow else grid.window

/-- What `clear_rows` recycles. -/
theorem recycleRows_of_clearRows {grid : Grid} {views : Views} (h : clearRows grid = .ok views) :
    recycleRows grid.column_count grid.item_count (max 0 grid.row_start) grid.row_end true
      grid.views = .ok views := by
  obtain ⟨recycled, hrun, h⟩ := Loop.of_bind h
  obtain ⟨-, -, h⟩ := Loop.of_bind h
  cases h
  exact hrun

/-- `clear_rows` does not fail, but for an overflow. -/
theorem clearRows_ok {grid : Grid} (hcols : 0 ≤ grid.column_count) :
    (∃ views, clearRows grid = .ok views) ∨ clearRows grid = .error .overflow := by
  obtain ⟨views, hrun⟩ : ∃ views, recycleRows grid.column_count grid.item_count
      (max 0 grid.row_start) grid.row_end true grid.views = .ok views :=
    recycleRows_ok hcols (.inl rfl)
  rw [clearRows]
  simp only [hrun, Bind.bind, Except.bind]
  rcases inInt_cases (lastPosition grid.column_count (max 0 grid.row_start) grid.row_end) with
    hints | hints
  · exact .inl ⟨views, by rw [hints]⟩
  · exact .inr (by rw [hints])

/-- `clear_rows` forgets the last row, but no other. -/
theorem scrapViews_eq (scrap : Bool) {grid : Grid} (hcols : 0 < grid.column_count) :
    (∃ views, scrapViews scrap grid = .ok views ∧
      Bounds (fun _ => grid.left scrap) grid.window grid.views views) ∨
      scrapViews scrap grid = .error .overflow := by
  cases scrap with
  | false => exact .inl ⟨grid.views, rfl, id, id⟩
  | true =>
      refine (clearRows_ok hcols.le).imp_left fun ⟨views, hcleared⟩ => ?_
      have hrun := recycleRows_of_clearRows hcleared
      have hlast : grid.lastRow.val = grid.window.val -
          (items grid.item_count (max 0 grid.row_start * grid.column_count)
            (grid.row_end * grid.column_count)).val := by
        rw [← Finset.sdiff_val]
        congr 1
        have hmax : max (max 0 grid.row_start) grid.row_end * grid.column_count =
            max (max 0 grid.row_start * grid.column_count) (grid.row_end * grid.column_count) :=
          max_mul_of_nonneg _ _ hcols.le
        ext p
        rw [Finset.mem_sdiff, Grid.window, Grid.lastRow, mem_items, mem_items, mem_items, hmax]
        omega
      refine ⟨views, hcleared, fun h => ?_, fun h => ?_⟩
      · rw [inuse_recycleRows hcols.le hrun]
        exact (tsub_le_tsub_right h _).trans hlast.ge
      · rw [inuse_recycleRows hcols.le hrun]
        exact hlast.le.trans (tsub_le_tsub_right h _)

/-- A preparation that looks at no view: it yields the same on any views, or
stops, but not for an invalid item. -/
def Prepares (prepare : Grid → Except Fault Grid) (grid grid' : Grid) : Prop :=
  ∀ views, prepare { grid with views } = .ok { grid' with views }

theorem updateRowDsc_eq (row_count : ℤ) :
    updateRowDsc row_count = .ok () ∨
      ∃ e, e ≠ Fault.invalidItem ∧ updateRowDsc row_count = .error e := by
  by_cases h : 0 < (if row_count = 0 then 1 else row_count)
  · have hdsc : updateRowDsc row_count = inInt [(if row_count = 0 then 1 else row_count) + 1] :=
      if_pos h
    rw [hdsc]
    exact (inInt_cases _).imp id fun hints => ⟨_, by decide, hints⟩
  · exact .inr ⟨_, by decide, if_neg h⟩

theorem updateColDsc_eq (column_count : ℤ) :
    updateColDsc column_count = .ok () ∨
      ∃ e, e ≠ Fault.invalidItem ∧ updateColDsc column_count = .error e := by
  rw [updateColDsc]
  rcases inInt_cases [column_count + 1] with hints | hints
  · rw [hints]
    simp only [Bind.bind, Except.bind]
    split_ifs
    · exact .inr ⟨_, by decide, rfl⟩
    · exact .inl rfl
  · rw [hints]
    exact .inr ⟨_, by decide, rfl⟩

theorem ceilDivide_eq (a b : ℤ) :
    (∃ c, ceilDivide a b = .ok c) ∨ ceilDivide a b = .error .division := by
  rw [ceilDivide]
  split
  · exact .inr rfl
  · exact .inl ⟨_, rfl⟩

theorem countRows_eq (item_count column_count : ℤ) :
    (∃ c, countRows item_count column_count = .ok c) ∨
      ∃ e, e ≠ Fault.invalidItem ∧ countRows item_count column_count = .error e := by
  rw [countRows]
  rcases inInt_cases [item_count + column_count, item_count + column_count - 1] with hints | hints
  · rw [hints]
    exact (ceilDivide_eq item_count column_count).imp id fun h => ⟨_, by decide, h⟩
  · rw [hints]
    exact .inr ⟨_, by decide, rfl⟩

theorem updateRowCount_eq (row_count : ℤ) (grid : Grid) :
    ∃ row_count', ∀ views, updateRowCount row_count { grid with views } =
      { grid with views, row_count := row_count' } := by
  by_cases h : row_count ≤ 0
  · exact ⟨grid.row_count, fun views => if_pos h⟩
  · exact ⟨row_count, fun views => if_neg h⟩

/-- What `lv_gridview_set_config` sets. -/
theorem configure_eq (col_count row_height : ℤ) (changed : Bool) (grid : Grid) :
    (∃ row_count, Prepares (configure col_count row_height changed) grid
        { grid with column_count := col_count, row_height, row_count }) ∨
      ∃ e, e ≠ Fault.invalidItem ∧
        ∀ views, configure col_count row_height changed { grid with views } = .error e := by
  rcases updateColDsc_eq col_count with hcol | ⟨e, he, hcol⟩
  swap
  · refine .inr ⟨e, he, fun views => ?_⟩
    simp only [configure, hcol, Bind.bind, Except.bind]
  have hdsc : ∀ row_count,
      (∀ views, cond changed (recount { grid with views, column_count := col_count, row_height })
        (.ok { grid with views, column_count := col_count, row_height }) =
          .ok { grid with views, column_count := col_count, row_height, row_count }) →
      (∃ row_count, Prepares (configure col_count row_height changed) grid
        { grid with column_count := col_count, row_height, row_count }) ∨
      ∃ e, e ≠ Fault.invalidItem ∧
        ∀ views, configure col_count row_height changed { grid with views } = .error e := by
    intro row_count h
    rcases updateRowDsc_eq row_count with hrow | ⟨e, he, hrow⟩
    · refine .inl ⟨row_count, fun views => ?_⟩
      simp only [configure, hcol, h, Bind.bind, Except.bind, hrow]
    · refine .inr ⟨e, he, fun views => ?_⟩
      simp only [configure, hcol, h, Bind.bind, Except.bind, hrow]
  cases changed with
  | false => exact hdsc grid.row_count fun _ => rfl
  | true =>
      rcases countRows_eq grid.item_count col_count with ⟨c, hc⟩ | ⟨e, he, hc⟩
      · obtain ⟨row_count, hrow⟩ :=
          updateRowCount_eq c { grid with column_count := col_count, row_height }
        refine hdsc row_count fun views => ?_
        simp only [cond_true, recount, hc, Bind.bind, Except.bind, hrow]
      · refine .inr ⟨e, he, fun views => ?_⟩
        simp only [configure, hcol, cond_true, recount, hc, Bind.bind, Except.bind]

/-- The item count that comes with the data. -/
def countOf (data : Option (Nat × ℤ)) (grid : Grid) : ℤ := (data.map Prod.snd).getD grid.item_count

/-- What `lv_gridview_set_data_advanced` sets. -/
theorem loadData_eq (data : Option (Nat × ℤ)) (changes : Option (List Change)) (num_changes : ℤ)
    (grid : Grid) :
    (∃ row_count, Prepares (loadData data changes num_changes) grid
        { grid with
          old_item_count := grid.item_count, changes, num_changes, data := data.map Prod.fst
          item_count := countOf data grid, row_count }) ∨
      ∃ e, e ≠ Fault.invalidItem ∧
        ∀ views, loadData data changes num_changes { grid with views } = .error e := by
  cases data with
  | none => exact .inl ⟨grid.row_count, fun _ => rfl⟩
  | some d =>
      obtain ⟨ptr, item_count⟩ := d
      by_cases hsame : grid.item_count = item_count
      · refine .inl ⟨grid.row_count, fun views => ?_⟩
        simp only [loadData, hsame, if_true, countOf, Option.map_some, Option.getD_some]
      · rcases countRows_eq item_count grid.column_count with ⟨c, hc⟩ | ⟨e, he, hc⟩
        · rcases updateRowDsc_eq c with hdsc | ⟨e, he, hdsc⟩
          · obtain ⟨row_count, hrow⟩ := updateRowCount_eq c
              { grid with
                old_item_count := grid.item_count, changes, num_changes, data := some ptr
                item_count }
            refine .inl ⟨row_count, fun views => ?_⟩
            simp only [loadData, hsame, if_false, hc, hdsc, Bind.bind, Except.bind,
              Option.map_some, countOf, Option.getD_some, hrow]
          · refine .inr ⟨e, he, fun views => ?_⟩
            simp only [loadData, hsame, if_false, hc, hdsc, Bind.bind, Except.bind]
        · refine .inr ⟨e, he, fun views => ?_⟩
          simp only [loadData, hsame, if_false, hc, Bind.bind, Except.bind]

/-- A grid without splices is ready. -/
theorem ready_of_nonpos {grid : Grid} (hcols : 0 < grid.column_count) (h : grid.num_changes ≤ 0)
    (shown : Finset ℤ) : Ready grid shown := by
  have hpending : grid.pending = [] := by
    rw [Grid.pending, Int.toNat_of_nonpos h, List.take_zero]
  refine ⟨hcols, ?_, ?_, fun hne => absurd hpending hne⟩
  · rw [pendingChanges, if_pos h, hpending]
  · rw [hpending, Grid.countBefore, if_pos h]
    rfl

/-- A grid is ready for the splices from the item count it had. -/
theorem ready_of_splices {grid : Grid} (hcols : 0 < grid.column_count) {changes : List Change}
    (hchanges : grid.changes = some changes) (hnum : grid.num_changes = changes.length)
    (hsplices : Splices changes grid.old_item_count grid.item_count) {shown : Finset ℤ}
    (hshown : ∀ p ∈ shown, p < grid.old_item_count) : Ready grid shown := by
  by_cases h : grid.num_changes ≤ 0
  · exact ready_of_nonpos hcols h shown
  · have hpending : grid.pending = changes := by
      rw [Grid.pending, hchanges, hnum, Int.toNat_natCast, Option.getD_some, List.take_length]
    have hcount : grid.countBefore = grid.old_item_count := if_neg h
    refine ⟨hcols, ?_, ?_, fun _ => by rwa [hcount]⟩
    · rw [pendingChanges, if_neg h, hchanges, hpending]
      simp only [hnum, le_refl, if_true, Int.toNat_natCast, List.take_length]
    · rwa [hpending, hcount]

/-! ## Operations -/

/-- What the documentation asks of the caller. -/
def Op.Valid (grid : Grid) : Op → Prop
  | .setConfig col_count row_height _ => 0 < col_count ∧ 0 < row_height
  | .setData data _ => ∀ d ∈ data, 0 ≤ d.2
  | .setDataAdvanced data changes num_changes _ =>
      (∀ d ∈ data, 0 ≤ d.2) ∧
        (changes = none ∧ num_changes ≤ 0 ∨ num_changes < 0 ∨
          ∃ list, changes = some list ∧ num_changes = list.length ∧
            Splices list grid.item_count (countOf data grid))
  | _ => True

/-- The operations that ask for no focus. -/
def Op.Unfocused : Op → Prop
  | .focus _ | .focusWhenAvailable _ => False
  | _ => True

/-- The condition on what an operation hands to `update_grid`: the scroll
offset, the grid and the positions that its views in use are for. -/
def Op.Hands (C : ℤ → Grid → Finset ℤ → Prop) (grid : Grid) : Op → Prop
  | .setConfig col_count row_height scroll_y =>
      grid.column_count ≠ col_count →
        ∀ grid', configure col_count row_height true grid = .ok grid' →
          C scroll_y grid' grid.lastRow
  | .setData data scroll_y =>
      ∀ grid', loadData data none 0 grid = .ok grid' → C scroll_y grid' grid.lastRow
  | .setDataAdvanced data changes num_changes scroll_y =>
      ∀ grid', loadData data changes num_changes grid = .ok grid' →
        C scroll_y grid' (grid.left (changes.isNone || num_changes < 0))
  | .focus _ | .focusWhenAvailable _ => True
  | .scroll scroll_y => C scroll_y grid grid.window
  | .sizeChanged content_height pad_row pad_top pad_bottom scroll_y =>
      (updateSizes content_height pad_row pad_top pad_bottom grid).2 = true →
        C scroll_y (updateSizes content_height pad_row pad_top pad_bottom grid).1 grid.window

/-- A grid between two operations. -/
structure Idle (grid : Grid) : Prop where
  cols : 0 < grid.column_count
  num_changes : grid.num_changes = 0

/-- What does not concern the views in use. -/
structure Alike (grid grid' : Grid) : Prop where
  views_eq : grid'.views = grid.views
  window_eq : grid'.window = grid.window
  row_start_eq : grid'.row_start = grid.row_start
  focus_eq : grid'.focus_when_available = grid.focus_when_available

/-- What an operation that asks for no focus comes to. -/
inductive Outcome (coord : ℤ → ℤ) (C : ℤ → Grid → Finset ℤ → Prop) (grid : Grid) :
    Except Fault (Grid × Bool) → Prop
  /-- It does not call `update_grid`. -/
  | quiet {grid' : Grid} : Idle grid' → Alike grid grid' → Outcome coord C grid (.ok (grid', false))
  /-- It stops before, but not for an invalid item. -/
  | failed {e : Fault} : e ≠ .invalidItem → Outcome coord C grid (.error e)
  /-- It calls `update_grid`, and settles what that leaves. -/
  | updated {scroll_y : ℤ} {handed : Grid} {shown : Finset ℤ} {settle : Grid → Grid} :
      Ready handed shown → Bounds (fun _ => shown) grid.window grid.views handed.views →
      C scroll_y handed shown → handed.focus_when_available = grid.focus_when_available →
      (∀ grid', grid'.column_count = handed.column_count →
        grid'.num_changes = handed.num_changes → Idle (settle grid') ∧ Alike grid' (settle grid')) →
      Outcome coord C grid
        ((updateGrid coord scroll_y handed).map fun result => (settle result.1, result.2))

/-- Without splices there is nothing to settle. -/
theorem settle_id {handed : Grid} (hcols : 0 < handed.column_count)
    (hnum : handed.num_changes = 0) (grid' : Grid)
    (hcols' : grid'.column_count = handed.column_count)
    (hnum' : grid'.num_changes = handed.num_changes) : Idle (id grid') ∧ Alike grid' (id grid') :=
  ⟨⟨hcols' ▸ hcols, hnum'.trans hnum⟩, rfl, rfl, rfl, rfl⟩

theorem map_id_result (result : Except Fault (Grid × Bool)) :
    result = result.map fun r => (id r.1, r.2) := by
  cases result <;> rfl

section

variable {coord : ℤ → ℤ} {C : ℤ → Grid → Finset ℤ → Prop}
  (hviews : ∀ scroll_y grid shown views, C scroll_y grid shown →
    C scroll_y { grid with views } shown)
  {grid : Grid} (hidle : Idle grid)

include hviews hidle

theorem setConfig_outcome {col_count row_height scroll_y : ℤ} (hcols : 0 < col_count)
    (hhands : (Op.setConfig col_count row_height scroll_y).Hands C grid) :
    Outcome coord C grid (lvGridviewSetConfig coord col_count row_height scroll_y grid) := by
  rw [lvGridviewSetConfig]
  rcases scrapViews_eq (grid.column_count != col_count) hidle.cols with
    ⟨views, hscrap, hbounds⟩ | hscrap
  swap
  · simp only [Bind.bind, Except.bind, hscrap]
    exact .failed (by decide)
  simp only [Bind.bind, Except.bind, hscrap]
  by_cases hsame : grid.column_count = col_count
  · have hunchanged : (grid.column_count != col_count) = false := by rw [hsame, bne_self_eq_false]
    rw [hunchanged] at hscrap ⊢
    cases hscrap
    rcases configure_eq col_count row_height false grid with ⟨row_count, hprep⟩ | ⟨e, he, hprep⟩
    · rw [hprep grid.views]
      refine .quiet ⟨hcols, hidle.num_changes⟩ ⟨rfl, ?_, rfl, rfl⟩
      rw [Grid.window, Grid.window, hsame]
    · rw [hprep grid.views]
      exact .failed he
  · have hchanged : (grid.column_count != col_count) = true := bne_iff_ne.2 hsame
    rw [hchanged] at hbounds ⊢
    rcases configure_eq col_count row_height true grid with ⟨row_count, hprep⟩ | ⟨e, he, hprep⟩
    · rw [hprep views]
      simp only [if_true]
      rw [map_id_result (updateGrid _ _ _)]
      refine .updated ?_ hbounds (hviews _ _ _ views (hhands hsame _ (hprep grid.views))) rfl
        (settle_id hcols hidle.num_changes)
      refine ready_of_nonpos ?_ ?_ _
      · exact hcols
      · exact hidle.num_changes.le
    · rw [hprep views]
      exact .failed he

theorem setDataAdvanced_outcome {data : Option (Nat × ℤ)} {changes : Option (List Change)}
    {num_changes scroll_y : ℤ}
    (hvalid : (Op.setDataAdvanced data changes num_changes scroll_y).Valid grid)
    (hhands : (Op.setDataAdvanced data changes num_changes scroll_y).Hands C grid) :
    Outcome coord C grid
      (lvGridviewSetDataAdvanced coord data changes num_changes scroll_y grid) := by
  rw [lvGridviewSetDataAdvanced]
  rcases scrapViews_eq (changes.isNone || num_changes < 0) hidle.cols with
    ⟨views, hscrap, hbounds⟩ | hscrap
  swap
  · simp only [Bind.bind, Except.bind, hscrap]
    exact .failed (by decide)
  simp only [Bind.bind, Except.bind, hscrap]
  rcases loadData_eq data changes num_changes grid with ⟨row_count, hprep⟩ | ⟨e, he, hprep⟩
  · rw [hprep views]
    refine .updated ?_ hbounds (hviews _ _ _ views (hhands _ (hprep grid.views))) rfl
      fun grid' hcols _ => ⟨⟨hcols ▸ hidle.cols, rfl⟩, rfl, rfl, rfl, rfl⟩
    rcases hvalid.2 with ⟨-, hle⟩ | hneg | ⟨list, hlist, hlen, hsplices⟩
    · refine ready_of_nonpos ?_ ?_ _
      · exact hidle.cols
      · exact hle
    · refine ready_of_nonpos ?_ ?_ _
      · exact hidle.cols
      · exact hneg.le
    · have hkeep : (changes.isNone || decide (num_changes < 0)) = false := by
        rw [hlist, hlen]
        simp
      rw [hkeep]
      refine ready_of_splices ?_ hlist hlen hsplices fun p hp => ?_
      · exact hidle.cols
      · exact (mem_items.1 hp).2.1
  · rw [hprep views]
    exact .failed he

/-- **What an operation can do.** -/
theorem run_outcome {op : Op} (hvalid : op.Valid grid) (hunfocused : op.Unfocused)
    (hhands : op.Hands C grid) : Outcome coord C grid (op.run coord grid) := by
  cases op with
  | setConfig col_count row_height scroll_y =>
      exact setConfig_outcome hviews hidle hvalid.1 hhands
  | setData data scroll_y =>
      have hnone : (Op.setDataAdvanced data none 0 scroll_y).Valid grid :=
        ⟨hvalid, .inl ⟨rfl, le_rfl⟩⟩
      exact setDataAdvanced_outcome hviews hidle hnone hhands
  | setDataAdvanced data changes num_changes scroll_y =>
      exact setDataAdvanced_outcome hviews hidle hvalid hhands
  | focus position => exact hunfocused.elim
  | focusWhenAvailable position => exact hunfocused.elim
  | scroll scroll_y =>
      rw [Op.run, map_id_result (updateGrid coord scroll_y grid)]
      exact .updated (ready_of_nonpos hidle.cols hidle.num_changes.le _) ⟨id, id⟩ hhands rfl
        (settle_id hidle.cols hidle.num_changes)
  | sizeChanged content_height pad_row pad_top pad_bottom scroll_y =>
      rw [Op.run, sizeChanged]
      simp only
      split
      · next hchanged =>
          rw [map_id_result (updateGrid _ _ _)]
          refine .updated ?_ ⟨id, id⟩ (hhands hchanged) rfl
            (settle_id hidle.cols hidle.num_changes)
          refine ready_of_nonpos ?_ ?_ _
          · exact hidle.cols
          · exact hidle.num_changes.le
      · exact .quiet ⟨hidle.cols, hidle.num_changes⟩ ⟨rfl, rfl, rfl, rfl⟩

end

/-! ## Runs -/

/-- The grid with the operations that keep to the documentation. -/
def system (coord : ℤ → ℤ) : TransitionSystem Grid Op where
  init grid := ∃ scroll_y, lvGridviewCreate coord scroll_y = .ok grid
  step grid op grid' := op.Valid grid ∧ ∃ filled, op.run coord grid = .ok (grid', filled)

/-- A grid as `lv_gridview_create` leaves it. -/
def Grid.created : Grid :=
  { Grid.zeroed with
    column_count := 1, row_height := 1
    row_start := -1, row_end := -1, focused_index := -1, focus_when_available := -1 }

theorem lvGridviewCreate_eq (coord : ℤ → ℤ) (scroll_y : ℤ) :
    lvGridviewCreate coord scroll_y = .ok Grid.created := rfl

theorem system_init {coord : ℤ → ℤ} {grid : Grid} :
    (system coord).init grid ↔ grid = Grid.created := by
  constructor
  · rintro ⟨scroll_y, h⟩
    rw [lvGridviewCreate_eq] at h
    cases h
    rfl
  · rintro rfl
    exact ⟨0, rfl⟩

/-- A grid with a size and rows of ten, but without data. -/
def Grid.sized : Grid := { Grid.created with row_height := 10, content_height := 20 }

theorem sized_reachable {ok : Grid → Op → Prop} (hconfig : ok Grid.created (.setConfig 1 10 0))
    (hsize : ok { Grid.created with row_height := 10 } (.sizeChanged 20 0 0 0 0)) :
    ((system id).restrict ok).Reachable Grid.sized := by
  have hcreated : ((system id).restrict ok).Reachable Grid.created :=
    .init (system_init.2 rfl)
  have hconfigured : ((system id).restrict ok).Reachable { Grid.created with row_height := 10 } :=
    .step hcreated ⟨hconfig, ⟨by decide, by decide⟩, false, rfl⟩
  exact .step hconfigured ⟨hsize, trivial, false, rfl⟩

/-- The grid that shows two items. -/
def Grid.twoItems : Grid :=
  { Grid.sized with
    data := some 0, item_count := 2, row_count := 2, row_start := 0, row_end := 1
    views :=
      { pool_inuse := [⟨1, 1⟩, ⟨0, 0⟩], pool_free := [], created := 2
        calls := [.bindView 1 (some 0) 1, .setGridCell 1 0 1, .clearFlagHidden 1, .createView 1,
          .bindView 0 (some 0) 0, .setGridCell 0 0 0, .clearFlagHidden 0, .createView 0] } }

theorem setData_twoItems : (Op.setData (some (0, 2)) 0).run id Grid.sized =
    .ok (Grid.twoItems, true) := rfl

theorem setData_twoItems_valid : (Op.setData (some (0, 2)) 0).Valid Grid.sized := fun d hd => by
  cases hd
  decide

end CommonsC.GridView
