import CommonsC.GridView.Update

/-!
# CommonsC.GridView.Window

The views in use are those of the window.

As long as no view is in use for an item outside of the window, a call of
`fill_rows` that gets past its range check leaves in use exactly the window
(`inuse_exact`).  `clear_rows` and the splices may break this: the condition
`Keeps` says that what they leave in use is in the reach of `fill_rows`, and
`inuse_not_exact` is a run that does not meet it.
-/

namespace CommonsC.GridView

open Multiset

/-! ## The condition -/

/-- The items that `fill_rows` recycles or shows. -/
def Render.reach (render : Render) (grid : Grid) : Finset ℤ :=
  if render.Fills then
    givenUp render.row_start render.row_end grid ∪ taken render.row_start render.row_end grid
  else grid.window

/-- Every view that is in use for `shown` gets, without meeting a hole, to an
item in the reach of `fill_rows`. -/
def Keeps (coord : ℤ → ℤ) (scroll_y : ℤ) (grid : Grid) (shown : Finset ℤ) : Prop :=
  if grid.content_height ≤ 0 then shown ⊆ grid.window
  else ∀ render, renderRows coord scroll_y grid = .ok render →
    render.HoleFree grid shown ∧ render.carried grid shown ⊆ render.reach grid

/-- Scrolling and new sizes always meet the condition. -/
theorem keeps_window (coord : ℤ → ℤ) (scroll_y : ℤ) {grid : Grid} (h : grid.pending = []) :
    Keeps coord scroll_y grid grid.window := by
  rw [Keeps]
  split
  · exact Finset.Subset.refl _
  · intro render _
    rw [Render.HoleFree, Render.carried, h]
    refine ⟨trivial, fun p hp => ?_⟩
    rw [Render.reach]
    split
    · change p ∈ grid.window at hp
      rw [Grid.window, mem_items] at hp
      rw [givenUp, taken, Finset.mem_union, Finset.mem_union, mem_items, mem_items, mem_items]
      omega
    · exact hp

/-- Without views nothing can go out of reach. -/
theorem keeps_empty (coord : ℤ → ℤ) (scroll_y : ℤ) {grid : Grid} (h : grid.pending = []) :
    Keeps coord scroll_y grid ∅ := by
  rw [Keeps]
  split
  · exact Finset.empty_subset _
  · intro render _
    rw [Render.HoleFree, Render.carried, h]
    exact ⟨trivial, Finset.empty_subset _⟩

/-! ## One step -/

/-- No view is in use twice, or for an item that is not in the window; and no
item is waited for. -/
structure Tidy (grid : Grid) : Prop extends Idle grid where
  inuse_le : grid.views.inuse ≤ grid.window.val
  focus_neg : grid.focus_when_available < 0

/-- The window is exactly what is in use. -/
structure Exact (grid : Grid) : Prop where
  row_start_nonneg : 0 ≤ grid.row_start
  inuse_eq : grid.views.inuse = grid.window.val

theorem Alike.exact {grid grid' : Grid} (h : Alike grid grid') (hexact : Exact grid) :
    Exact grid' :=
  ⟨h.row_start_eq ▸ hexact.row_start_nonneg, by rw [h.views_eq, h.window_eq, hexact.inuse_eq]⟩

/-- `fill_rows` makes the window exact if all views in use are in its reach. -/
theorem fillRows_exact {render : Render} (grid : Grid) (hcols : 0 < grid.column_count)
    (hfocus : grid.focus_when_available < 0) (hreach : grid.views.inuse ≤ (render.reach grid).val)
    {grid' : Grid} {filled : Bool}
    (h : fillRows render.row_start render.row_end grid = .ok (grid', filled)) :
    grid'.column_count = grid.column_count ∧ grid'.num_changes = grid.num_changes ∧
      grid'.focus_when_available < 0 ∧ grid'.views.inuse ≤ grid'.window.val ∧
        (filled = true → Exact grid') := by
  by_cases hfills : render.Fills
  · obtain ⟨-, views, rfl, hinuse⟩ := inuse_fillRows hfills.1 hfills.2 hcols.le h
    rw [Render.reach, if_pos hfills] at hreach
    rw [fill_exact hreach] at hinuse
    let shown : Grid :=
      { grid with views, row_start := render.row_start, row_end := render.row_end }
    have hsame : focusAvailable shown = shown := focusAvailable_of_neg hfocus
    have hwindow : shown.window = taken render.row_start render.row_end grid := by
      have hmax : max 0 render.row_start = render.row_start := max_eq_right hfills.1
      simp only [shown, Grid.window, taken, hmax]
    have heq : shown.views.inuse = shown.window.val := by rw [hwindow]; exact hinuse
    rw [hsame]
    exact ⟨rfl, rfl, hfocus, heq.le, fun _ => ⟨hfills.1, heq⟩⟩
  · rw [fillRows_of_not hfills] at h
    cases h
    rw [Render.reach, if_neg hfills] at hreach
    exact ⟨rfl, rfl, hfocus, hreach, fun h => by cases h⟩

theorem updateGrid_exact {coord : ℤ → ℤ} {scroll_y : ℤ} {grid : Grid} {shown : Finset ℤ}
    (hready : Ready grid shown) (hfocus : grid.focus_when_available < 0)
    (hinuse : grid.views.inuse ≤ shown.val) (hkeeps : Keeps coord scroll_y grid shown)
    {grid' : Grid} {filled : Bool} (h : updateGrid coord scroll_y grid = .ok (grid', filled)) :
    grid'.column_count = grid.column_count ∧ grid'.num_changes = grid.num_changes ∧
      grid'.focus_when_available < 0 ∧ grid'.views.inuse ≤ grid'.window.val ∧
        (filled = true → Exact grid') := by
  rw [updateGrid] at h
  by_cases hheight : grid.content_height ≤ 0
  · rw [if_pos hheight] at h
    rw [Keeps, if_pos hheight] at hkeeps
    cases h
    exact ⟨rfl, rfl, hfocus, hinuse.trans (Finset.val_le_iff.2 hkeeps), fun h => by cases h⟩
  · rw [if_neg hheight] at h
    rw [Keeps, if_neg hheight] at hkeeps
    obtain ⟨render, hrender, h⟩ := Loop.of_bind h
    obtain ⟨-, -, h⟩ := Loop.of_bind h
    obtain ⟨hfree, hreach⟩ := hkeeps render hrender
    obtain ⟨views, hbounds, hrun | hrun⟩ := renderGrid_eq hready hfree
    · rw [hrun] at h
      exact fillRows_exact { grid with views } hready.cols hfocus
        ((hbounds.1 hinuse).trans (Finset.val_le_iff.2 hreach)) h
    · rw [hrun] at h
      cases h

/-- **One operation** keeps the grid tidy, and makes the window exact if it
gets to fill it. -/
theorem run_tidy {coord : ℤ → ℤ} {grid : Grid} (htidy : Tidy grid) {op : Op}
    (hvalid : op.Valid grid) (hunfocused : op.Unfocused) (hkeeps : op.Hands (Keeps coord) grid)
    {grid' : Grid} {filled : Bool} (h : op.run coord grid = .ok (grid', filled)) :
    Tidy grid' ∧ (filled = true → Exact grid') := by
  have houtcome : Outcome coord (Keeps coord) grid (op.run coord grid) :=
    run_outcome (fun _ _ _ _ h => h) htidy.toIdle hvalid hunfocused hkeeps
  rw [h] at houtcome
  generalize hresult : Except.ok (grid', filled) = result at houtcome
  cases houtcome with
  | quiet hidle halike =>
      cases hresult
      refine ⟨⟨hidle, ?_, ?_⟩, fun h => by cases h⟩
      · rw [halike.views_eq, halike.window_eq]
        exact htidy.inuse_le
      · rw [halike.focus_eq]
        exact htidy.focus_neg
  | failed => cases hresult
  | updated hready hbounds hcond hfocus hsettle =>
      rename_i scroll_y handed shown settle
      cases hrun : updateGrid coord scroll_y handed with
      | error e =>
          rw [hrun] at hresult
          cases hresult
      | ok updated =>
          rw [hrun] at hresult
          cases hresult
          obtain ⟨hcols, hnum, hneg, hinuse, hexact⟩ := updateGrid_exact hready
            (hfocus ▸ htidy.focus_neg) (hbounds.1 htidy.inuse_le) hcond hrun
          obtain ⟨hidle, halike⟩ := hsettle updated.1 hcols hnum
          refine ⟨⟨hidle, ?_, ?_⟩, fun h => halike.exact (hexact h)⟩
          · rw [halike.views_eq, halike.window_eq]
            exact hinuse
          · rw [halike.focus_eq]
            exact hneg

/-! ## Runs -/

/-- **The views in use are those of the window**, in every run whose operations
keep their views in the reach of `fill_rows`, after every operation in which
`fill_rows` gets past its range check. -/
theorem inuse_exact (coord : ℤ → ℤ) {grid : Grid}
    (hgrid : ((system coord).restrict fun grid op =>
      op.Unfocused ∧ op.Hands (Keeps coord) grid).Reachable grid)
    {op : Op} (hvalid : op.Valid grid) (hunfocused : op.Unfocused)
    (hkeeps : op.Hands (Keeps coord) grid) {grid' : Grid}
    (hrun : op.run coord grid = .ok (grid', true)) (position : ℤ) :
    grid'.views.pool_inuse.countP (·.position == position) =
      if grid'.row_start * grid'.column_count ≤ position ∧
          position < min grid'.item_count ((grid'.row_end + 1) * grid'.column_count) then 1
      else 0 := by
  have htidy : Tidy grid := hgrid.invariant
    (fun s hs => by
      rw [system_init.1 hs]
      exact ⟨⟨by decide, rfl⟩, le_rfl, by decide⟩)
    fun s op s' _ htidy hstep => by
      obtain ⟨⟨hunfocused, hkeeps⟩, hvalid, filled, hrun⟩ := hstep
      exact (run_tidy htidy hvalid hunfocused hkeeps hrun).1
  obtain ⟨hstart, hexact⟩ := (run_tidy htidy hvalid hunfocused hkeeps hrun).2 rfl
  have hcount : grid'.views.pool_inuse.countP (·.position == position) =
      grid'.views.inuse.count position := by
    rw [Views.inuse, coe_count, List.count_eq_countP, List.countP_map]
    rfl
  have hmax : max 0 grid'.row_start = grid'.row_start := max_eq_right hstart
  rw [hcount, hexact, count_eq_of_nodup (Finset.nodup _)]
  refine if_congr ?_ rfl rfl
  rw [Finset.mem_val, Grid.window, mem_items, hmax, lt_min_iff]

/-- Two items in an empty grid: item 1 has a view. -/
theorem inuse_exact_twoItems : Grid.twoItems.views.pool_inuse.countP (·.position == 1) = 1 := by
  refine inuse_exact id (sized_reachable ⟨trivial, ?_⟩ ⟨trivial, ?_⟩) setData_twoItems_valid trivial
    ?_ setData_twoItems 1
  · exact fun hne => absurd rfl hne
  · exact fun _ => keeps_empty id 0 rfl
  · rintro grid' h
    cases h
    exact keeps_empty id 0 rfl

/-- The same grid with one item less: the last row was forgotten, and the view
of item 1 stays in use. -/
theorem setData_oneItem : ∃ grid, (Op.setData (some (0, 1)) 0).run id Grid.twoItems =
    .ok (grid, true) ∧ grid.item_count = 1 ∧
      grid.views.pool_inuse.countP (·.position == 1) = 1 := ⟨_, rfl, rfl, by decide⟩

/-- **The window is not always exact.** -/
theorem inuse_not_exact : ¬∀ (grid : Grid) (op : Op) (grid' : Grid) (position : ℤ),
    ((system id).restrict fun _ op => op.Unfocused).Reachable grid → op.Valid grid →
    op.Unfocused → op.run id grid = .ok (grid', true) →
    grid'.views.pool_inuse.countP (·.position == position) =
      if grid'.row_start * grid'.column_count ≤ position ∧
          position < min grid'.item_count ((grid'.row_end + 1) * grid'.column_count) then 1
      else 0 := by
  intro hclaim
  have hsized : ((system id).restrict fun _ op => op.Unfocused).Reachable Grid.sized :=
    sized_reachable trivial trivial
  have htwo : ((system id).restrict fun _ op => op.Unfocused).Reachable Grid.twoItems :=
    .step (l := .setData (some (0, 2)) 0) hsized
      ⟨trivial, setData_twoItems_valid, true, setData_twoItems⟩
  obtain ⟨grid', hrun, hcount, hinuse⟩ := setData_oneItem
  have hvalid : (Op.setData (some (0, 1)) 0).Valid Grid.twoItems := fun d hd => by
    cases hd
    decide
  have hone := hclaim Grid.twoItems _ grid' 1 htwo hvalid trivial hrun
  rw [hinuse, hcount, if_neg (by omega)] at hone
  cases hone

end CommonsC.GridView
