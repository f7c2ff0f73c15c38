import CommonsC.GridView.Update

/-!
# CommonsC.GridView.Recycle

The views that `fill_rows` recycles.

`fill_rows` asserts that every item in the rows it gives up has a view.  As
long as all items of the window have one, this is so if the new window touches
the old (`covers_window`); but not after a jump, since the rows in between are
given up without ever having been shown, nor after `clear_rows`, which leaves
the window as it was.  The condition `Covers` says what is needed, and
`recycle_valid` that it is enough.
-/

namespace CommonsC.GridView

open Multiset

/-! ## The condition -/

/-- The items that are to have views: those given up, or those of a window
that stays. -/
def Render.due (render : Render) (grid : Grid) : Finset ℤ :=
  if render.Fills then givenUp render.row_start render.row_end grid else grid.window

/-- The views in use for `shown` get, without meeting a hole, to all items that
are to have views.  Those that `lv_gridview_focus` has taken for items outside of
the window do not count: the rows given up between two windows have nothing to do
with what was focused. -/
def Covers (coord : ℤ → ℤ) (scroll_y : ℤ) (grid : Grid) (shown : Finset ℤ) : Prop :=
  if grid.content_height ≤ 0 then grid.window ⊆ shown
  else ∀ render, renderRows coord scroll_y grid = .ok render →
    render.HoleFree grid shown ∧ render.due grid ⊆ render.carried grid shown

/-- Scrolling and new sizes meet the condition if no row lies between the old
window and the new. -/
theorem covers_window (coord : ℤ → ℤ) (scroll_y : ℤ) {grid : Grid} (hcols : 0 < grid.column_count)
    (h : grid.pending = [])
    (htouch : ∀ render, renderRows coord scroll_y grid = .ok render → render.Fills →
      render.row_start ≤ grid.row_end + 1 ∧ max 0 grid.row_start ≤ render.row_end + 1) :
    Covers coord scroll_y grid grid.window := by
  rw [Covers]
  split
  · exact Finset.Subset.refl _
  · intro render hrender
    rw [Render.HoleFree, Render.carried, h]
    refine ⟨trivial, fun p hp => ?_⟩
    rw [Render.due] at hp
    split at hp
    · next hfills =>
        obtain ⟨habove, hbelow⟩ := htouch render hrender hfills
        have habove' := Int.mul_le_mul_of_nonneg_right habove hcols.le
        have hbelow' := Int.mul_le_mul_of_nonneg_right hbelow hcols.le
        rw [givenUp, Finset.mem_union, mem_items, mem_items] at hp
        change p ∈ grid.window
        rw [Grid.window, mem_items]
        omega
    · exact hp

/-! ## One step -/

theorem renderRows_ne_invalidItem (coord : ℤ → ℤ) (scroll_y : ℤ) (grid : Grid) :
    renderRows coord scroll_y grid ≠ .error .invalidItem := by
  rw [renderRows]
  rcases ceilDivide_eq (grid.content_height + grid.pad_row + grid.row_height.tdiv 4)
    (grid.row_height + grid.pad_row) with ⟨rows, h⟩ | h
  · simp only [h]
    exact nofun
  · simp only [h]
    exact nofun

/-- Every item of the window has a view. -/
structure Complete (grid : Grid) : Prop extends Idle grid where
  window_le : grid.window.val ≤ grid.views.inuse

/-- `fill_rows` does not fail, but for an overflow, and shows all of its window, if
the items that are to have views have them. -/
theorem fillRows_complete {render : Render} (grid : Grid) (hcols : 0 < grid.column_count)
    (hdue : (render.due grid).val ≤ grid.views.inuse) :
    fillRows render.row_start render.row_end grid = .error .overflow ∨
      ∃ grid' filled, fillRows render.row_start render.row_end grid = .ok (grid', filled) ∧
        grid'.column_count = grid.column_count ∧ grid'.num_changes = grid.num_changes ∧
          grid'.window.val ≤ grid'.views.inuse := by
  by_cases hfills : render.Fills
  · rw [Render.due, if_pos hfills] at hdue
    refine (fillRows_ok hcols.le fun _ _ => hdue).symm.imp_right ?_
    rintro ⟨⟨grid', filled⟩, hrun⟩
    obtain ⟨-, views, rfl, hinuse⟩ := inuse_fillRows hfills.1 hfills.2 hcols.le hrun
    obtain ⟨views', focused_index, focus_when_available, hfocus, hle⟩ := focusAvailable_eq
      { grid with views, row_start := render.row_start, row_end := render.row_end }
    rw [hfocus] at hrun
    refine ⟨_, filled, hrun, rfl, rfl, ?_⟩
    have hwindow : Grid.window { grid with
        views := views', row_start := render.row_start, row_end := render.row_end
        focused_index, focus_when_available } = taken render.row_start render.row_end grid := by
      have hmax : max 0 render.row_start = render.row_start := max_eq_right hfills.1
      simp only [Grid.window, taken, hmax]
    rw [hwindow]
    refine le_trans ?_ hle
    rw [hinuse]
    exact le_union_right
  · rw [Render.due, if_neg hfills] at hdue
    exact .inr ⟨grid, false, fillRows_of_not hfills grid, rfl, rfl, hdue⟩

theorem updateGrid_complete {coord : ℤ → ℤ} {scroll_y : ℤ} {grid : Grid} {shown : Finset ℤ}
    (hready : Ready grid shown) (hinuse : shown.val ≤ grid.views.inuse)
    (hcovers : Covers coord scroll_y grid shown) :
    (∃ e, updateGrid coord scroll_y grid = .error e ∧ e ≠ .invalidItem) ∨
      ∃ grid' filled, updateGrid coord scroll_y grid = .ok (grid', filled) ∧
        grid'.column_count = grid.column_count ∧ grid'.num_changes = grid.num_changes ∧
          grid'.window.val ≤ grid'.views.inuse := by
  rw [updateGrid]
  by_cases hheight : grid.content_height ≤ 0
  · rw [if_pos hheight]
    rw [Covers, if_pos hheight] at hcovers
    exact .inr ⟨grid, false, rfl, rfl, rfl, (Finset.val_le_iff.2 hcovers).trans hinuse⟩
  · rw [if_neg hheight]
    rw [Covers, if_neg hheight] at hcovers
    cases hrender : renderRows coord scroll_y grid with
    | error e =>
        refine .inl ⟨e, rfl, ?_⟩
        rintro rfl
        exact renderRows_ne_invalidItem coord scroll_y grid hrender
    | ok render =>
        obtain ⟨hfree, hdue⟩ := hcovers render hrender
        obtain ⟨views, hbounds, hrun⟩ := renderGrid_eq hready hfree
        rcases inInt_cases (render.ints grid.column_count) with hints | hints
        swap
        · exact .inl ⟨.overflow, by simp only [Bind.bind, Except.bind, hints], by decide⟩
        simp only [Bind.bind, Except.bind, hints]
        rcases hrun with hrun | hrun
        · rw [hrun]
          exact (fillRows_complete { grid with views } hready.cols
            ((Finset.val_le_iff.2 hdue).trans (hbounds.2 hinuse))).imp_left
              fun hoverflow => ⟨.overflow, hoverflow, by decide⟩
        · exact .inl ⟨.overflow, hrun, by decide⟩

/-- **One operation** does not fail for an invalid item, and leaves a view for
every item of the window. -/
theorem run_complete {coord : ℤ → ℤ} {grid : Grid} (hcomplete : Complete grid) {op : Op}
    (hvalid : op.Valid grid) (hcovers : op.Hands (Covers coord) grid) :
    (∃ e, op.run coord grid = .error e ∧ e ≠ .invalidItem) ∨
      ∃ grid' filled, op.run coord grid = .ok (grid', filled) ∧ Complete grid' := by
  by_cases hunfocused : op.Unfocused
  · have houtcome : Outcome coord (Covers coord) grid (op.run coord grid) :=
      run_outcome (fun _ _ _ _ h => h) hcomplete.toIdle hvalid hunfocused hcovers
    generalize op.run coord grid = result at houtcome ⊢
    cases houtcome with
    | quiet hidle halike =>
        refine .inr ⟨_, _, rfl, hidle, ?_⟩
        rw [halike.views_eq, halike.window_eq]
        exact hcomplete.window_le
    | failed he => exact .inl ⟨_, rfl, he⟩
    | updated hready hbounds hcond _ hsettle =>
        rcases updateGrid_complete hready (hbounds.2 hcomplete.window_le) hcond with
          ⟨e, hrun, he⟩ | ⟨updated, filled, hrun, hcols, hnum, hle⟩
        · rw [hrun]
          exact .inl ⟨e, rfl, he⟩
        · rw [hrun]
          obtain ⟨hidle, halike⟩ := hsettle updated hcols hnum
          refine .inr ⟨_, _, rfl, hidle, ?_⟩
          rw [halike.views_eq, halike.window_eq]
          exact hle
  · cases op with
    | focus position =>
        obtain ⟨views, focused_index, heq, hle⟩ := lvGridviewFocus_eq position grid
        have hrun : (Op.focus position).run coord grid =
            .ok ({ grid with views, focused_index }, false) := by rw [Op.run, heq]
        exact .inr ⟨_, _, hrun, ⟨hcomplete.cols, hcomplete.num_changes⟩,
          hcomplete.window_le.trans hle⟩
    | focusWhenAvailable position =>
        exact .inr ⟨_, false, rfl, ⟨hcomplete.cols, hcomplete.num_changes⟩, hcomplete.window_le⟩
    | _ => exact absurd trivial hunfocused

/-! ## Runs -/

/-- **`fill_rows` recycles no invalid item**, in every run whose operations
leave a view for every item that is to have one. -/
theorem recycle_valid (coord : ℤ → ℤ) {grid : Grid}
    (hgrid : ((system coord).restrict fun grid op => op.Hands (Covers coord) grid).Reachable grid)
    {op : Op} (hvalid : op.Valid grid) (hcovers : op.Hands (Covers coord) grid) :
    op.run coord grid ≠ .error .invalidItem := by
  have hcomplete : Complete grid := hgrid.invariant
    (fun s hs => by
      rw [system_init.1 hs]
      exact ⟨⟨by decide, rfl⟩, le_rfl⟩)
    fun s op s' _ hcomplete hstep => by
      obtain ⟨hcovers, hvalid, filled, hrun⟩ := hstep
      rcases run_complete hcomplete hvalid hcovers with ⟨e, he, -⟩ | ⟨s'', filled', h, hcomplete'⟩
      · rw [he] at hrun
        cases hrun
      · rw [h] at hrun
        cases hrun
        exact hcomplete'
  rcases run_complete hcomplete hvalid hcovers with ⟨e, he, hne⟩ | ⟨grid', filled, h, -⟩
  · rw [he]
    exact fun h => hne (Except.error.inj h)
  · rw [h]
    exact nofun

/-- Scrolling by half a row in a grid that shows two items. -/
theorem recycle_valid_twoItems : (Op.scroll 5).run id Grid.twoItems ≠ .error .invalidItem := by
  have hsized : ((system id).restrict fun grid op => op.Hands (Covers id) grid).Reachable
      Grid.sized := by
    refine sized_reachable (fun hne => absurd rfl hne) fun _ => ?_
    rw [Covers, if_neg (by decide)]
    intro render hrender
    cases hrender
    exact ⟨trivial, by decide⟩
  have htwo : ((system id).restrict fun grid op => op.Hands (Covers id) grid).Reachable
      Grid.twoItems := by
    refine .step (l := .setData (some (0, 2)) 0) hsized
      ⟨?_, setData_twoItems_valid, true, setData_twoItems⟩
    intro grid' hgrid'
    cases hgrid'
    rw [Covers, if_neg (by decide)]
    intro render hrender
    cases hrender
    exact ⟨trivial, by decide⟩
  refine recycle_valid id htwo trivial (covers_window id 5 (by decide) rfl ?_)
  intro render hrender _
  cases hrender
  decide

/-- **The assertion can fail**: thirty items in an empty grid that is scrolled
down make `fill_rows` give up rows that it has never shown. -/
theorem recycle_invalid : ¬∀ (grid : Grid) (op : Op), (system id).Reachable grid →
    op.Valid grid → op.run id grid ≠ .error .invalidItem := by
  intro hclaim
  have hsized : ((system id).restrict fun _ _ => True).Reachable Grid.sized :=
    sized_reachable trivial trivial
  refine hclaim Grid.sized (.setData (some (0, 30)) 100) hsized.of_restrict (fun d hd => ?_) rfl
  cases hd
  decide

end CommonsC.GridView
