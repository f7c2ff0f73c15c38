import CommonsC.GridView.Events

/-!
# CommonsC.GridView.Focus

The focused index.

Focusing leaves an index that is `-1` or that of an item.  What breaks this is
new data with fewer items: the index of an item that is gone is kept, unless
`focus_when_available` replaces it on the way.  `run_focus_iff` says that
nothing else breaks it, for one event, and `focus_valid` for runs.
-/

namespace CommonsC.GridView

/-- The focused index is `-1` or that of an item. -/
def FocusValid (grid : Grid) : Prop :=
  lvGridviewGetFocusedIndex grid = -1 ∨
    0 ≤ lvGridviewGetFocusedIndex grid ∧ lvGridviewGetFocusedIndex grid < grid.item_count

/-! ## The condition -/

/-- `update_grid` gets to focus an item that was waited for. -/
def Focuses (coord : ℤ → ℤ) (scroll_y : ℤ) (grid : Grid) : Prop :=
  (0 ≤ grid.focus_when_available ∧ grid.focus_when_available < grid.item_count) ∧
    0 < grid.content_height ∧
      ∀ render, renderRows coord scroll_y grid = .ok render → render.Fills

/-- The data has an item at the focused index, or `update_grid` moves the focus
on. -/
def LoadKeepsFocus (coord : ℤ → ℤ) (data : Option (ℕ × ℤ)) (changes : Option (List Change))
    (num_changes scroll_y : ℤ) (grid : Grid) : Prop :=
  0 ≤ grid.focused_index → grid.focused_index < countOf data grid ∨
    ∀ handed, loadData data changes num_changes grid = .ok handed → Focuses coord scroll_y handed

/-- The condition on an event: only new data is asked for something. -/
def Event.KeepsFocus (coord : ℤ → ℤ) (grid : KeyGrid) : Event → Prop
  | .op (.setData data scroll_y) => LoadKeepsFocus coord data none 0 scroll_y grid.toGrid
  | .op (.setDataAdvanced data changes num_changes scroll_y) =>
      LoadKeepsFocus coord data changes num_changes scroll_y grid.toGrid
  | _ => True

/-! ## One event -/

/-- Focusing an item leaves a valid index, and so does anything else, if it was
valid. -/
theorem Focused.valid {position : ℤ} {grid grid' : Grid} (h : Focused position grid grid')
    (hvalid : 0 ≤ position ∧ position < grid.item_count ∨ FocusValid grid) : FocusValid grid' := by
  cases h with
  | missed hrange =>
      change grid.unfocused position = -1 ∨ 0 ≤ grid.unfocused position ∧
        grid.unfocused position < grid.item_count
      have hvalid' := hvalid.resolve_left (by omega)
      rw [Grid.unfocused]
      split
      · exact .inl rfl
      · exact hvalid'
  | found hlo hhi => exact .inr ⟨hlo, hhi⟩
  | shown hlo hhi => exact .inr ⟨hlo, hhi⟩

/-- What `update_grid` does to the focused index. -/
theorem updateGrid_focus {coord : ℤ → ℤ} {scroll_y : ℤ} {grid grid' : Grid} {filled : Bool}
    (h : updateGrid coord scroll_y grid = .ok (grid', filled)) :
    grid'.item_count = grid.item_count ∧ (Focuses coord scroll_y grid → FocusValid grid') ∧
      (¬Focuses coord scroll_y grid → grid'.focused_index = grid.focused_index) := by
  rcases updateGrid_parts h with ⟨hheight, rfl, -⟩ | ⟨render, views, hupdated, hfill⟩
  · exact ⟨rfl, fun hfocuses => absurd hfocuses.2.1 (by omega), fun _ => rfl⟩
  · rcases fillRows_cases hfill with ⟨hfills, rfl, -⟩ | ⟨hfills, -, -, -, shown, -, -, -, rfl⟩
    · exact ⟨rfl, fun hfocuses => absurd (hfocuses.2.2 render hupdated.render_eq) hfills,
        fun _ => rfl⟩
    · by_cases hawaited :
          0 ≤ grid.focus_when_available ∧ grid.focus_when_available < grid.item_count
      · rw [focusAvailable, if_pos hawaited]
        have hfocused := lvGridviewFocus_cases grid.focus_when_available
          { grid with views := shown, row_start := render.row_start, row_end := render.row_end }
        refine ⟨hfocused.kept.item_count_eq, fun _ => hfocused.valid (.inl hawaited),
          fun hnot => ?_⟩
        refine absurd ⟨hawaited, hupdated.height_pos, fun render' hrender' => ?_⟩ hnot
        rw [hupdated.render_eq] at hrender'
        cases hrender'
        exact hfills
      · rw [focusAvailable, if_neg hawaited]
        exact ⟨rfl, fun hfocuses => absurd hfocuses.1 hawaited, fun _ => rfl⟩

/-- A valid index stays valid through `update_grid` if the items stay. -/
theorem updateGrid_focus_valid {coord : ℤ → ℤ} {scroll_y : ℤ} {grid grid' : Grid} {filled : Bool}
    (h : updateGrid coord scroll_y grid = .ok (grid', filled)) (hvalid : FocusValid grid) :
    FocusValid grid' := by
  obtain ⟨hcount, hfocuses, hstays⟩ := updateGrid_focus h
  by_cases hcond : Focuses coord scroll_y grid
  · exact hfocuses hcond
  · rw [FocusValid, lvGridviewGetFocusedIndex, hcount, hstays hcond]
    exact hvalid

/-- **New data** leaves a valid index exactly under the condition. -/
theorem load_focus_iff {coord : ℤ → ℤ} {data : Option (ℕ × ℤ)} {changes : Option (List Change)}
    {num_changes scroll_y : ℤ} {grid handed grid' : Grid} {views : Views} {filled : Bool}
    (hvalid : FocusValid grid)
    (hload : loadData data changes num_changes { grid with views } = .ok handed)
    (h : updateGrid coord scroll_y handed = .ok (grid', filled)) :
    FocusValid (dropChanges grid') ↔
      LoadKeepsFocus coord data changes num_changes scroll_y grid := by
  obtain ⟨row_count, hhanded, hload'⟩ := loadData_ok hload
  have hindex : handed.focused_index = grid.focused_index := by rw [hhanded]
  have hitems : handed.item_count = countOf data grid := by rw [hhanded]
  obtain ⟨hcount, hfocuses, hstays⟩ := updateGrid_focus h
  rw [hitems] at hcount
  -- `update_grid` looks at no view before it focuses.
  have hsame : Focuses coord scroll_y { handed with views := grid.views } ↔
      Focuses coord scroll_y handed := Iff.rfl
  by_cases hcond : Focuses coord scroll_y handed
  · refine ⟨fun _ _ => .inr fun handed' hload'' => ?_, fun _ => hfocuses hcond⟩
    rw [hload'] at hload''
    cases hload''
    exact hsame.2 hcond
  · have hstay := (hstays hcond).trans hindex
    change (grid'.focused_index = -1 ∨
      0 ≤ grid'.focused_index ∧ grid'.focused_index < grid'.item_count) ↔ _
    rw [hstay, hcount]
    constructor
    · intro hnew hfocused
      exact .inl (by omega)
    · intro hkeeps
      rcases hvalid with hnone | ⟨hfocused, -⟩
      · exact .inl hnone
      · refine .inr ⟨hfocused, (hkeeps hfocused).resolve_right fun hall => ?_⟩
        exact hcond (hsame.1 (hall _ hload'))

theorem configured_focus_valid {col_count row_height : ℤ} {changed : Bool} {grid handed : Grid}
    {views : Views} (h : configure col_count row_height changed { grid with views } = .ok handed)
    (hvalid : FocusValid grid) : FocusValid handed := by
  obtain ⟨row_count, rfl, -⟩ := configure_ok h
  exact hvalid

/-- **One operation** leaves a valid index exactly under the condition. -/
theorem ran_focus_iff {coord : ℤ → ℤ} {grid : KeyGrid} {grid' : Grid} {operation : Op}
    {filled : Bool} (hvalid : FocusValid grid.toGrid)
    (hran : Ran coord grid.toGrid operation grid' filled) :
    FocusValid grid' ↔ (Event.op operation).KeepsFocus coord grid := by
  cases hran with
  | reconfigured hne hscrap hconfigure hupdate =>
      exact iff_of_true
        (updateGrid_focus_valid hupdate (configured_focus_valid hconfigure hvalid)) trivial
  | configured hconfigure =>
      obtain ⟨row_count, rfl, -⟩ := @configure_ok _ _ _ grid.toGrid _ grid.views hconfigure
      exact iff_of_true hvalid trivial
  | reloaded hscrap hload hupdate => exact load_focus_iff hvalid hload hupdate
  | loaded hscrap hload hupdate => exact load_focus_iff hvalid hload hupdate
  | focused hfocused => exact iff_of_true (hfocused.valid (.inr hvalid)) trivial
  | awaited => exact iff_of_true hvalid trivial
  | scrolled hupdate => exact iff_of_true (updateGrid_focus_valid hupdate hvalid) trivial
  | resized hchanged hupdate =>
      exact iff_of_true (updateGrid_focus_valid hupdate hvalid) trivial
  | sized => exact iff_of_true hvalid trivial

/-- **One event** leaves a valid index exactly under the condition. -/
theorem run_focus_iff {coord : ℤ → ℤ} {grid grid' : KeyGrid} {event : Event}
    (hvalid : FocusValid grid.toGrid) (hrun : event.run coord grid = .ok grid') :
    FocusValid grid'.toGrid ↔ event.KeepsFocus coord grid := by
  have hfocus : ∀ position, FocusValid (grid.focus position).toGrid := fun position =>
    (lvGridviewFocus_cases position grid.toGrid).valid (.inr hvalid)
  cases event with
  | op operation =>
      obtain ⟨filled, hran⟩ := run_op hrun
      exact ran_focus_iff hvalid hran
  | key pressed =>
      refine iff_of_true ?_ trivial
      rcases keyCb_cases hrun with rfl | ⟨position, -, rfl⟩
      · exact hvalid
      · exact hfocus position
  | cancel =>
      cases hrun
      exact iff_of_true (hfocus (-1)) trivial
  | setKeyFocusClamp enable =>
      cases hrun
      exact iff_of_true hvalid trivial
  | rebind =>
      obtain ⟨rebound, hrebind, rfl⟩ := run_rebind hrun
      obtain ⟨views, -, rfl⟩ := lvGridviewRebind_cases hrebind
      exact iff_of_true hvalid trivial
  | rebindItem position =>
      cases hrun
      refine iff_of_true ?_ trivial
      simp only [lvGridviewRebindItem]
      split
      · exact hvalid
      · exact hvalid
  | itemDelete obj =>
      cases hrun
      exact iff_of_true hvalid trivial

/-! ## Runs -/

/-- **The focused index stays valid**, in every run in which no data arrives
that ends before the focused item. -/
theorem focus_valid (coord : ℤ → ℤ) {grid : KeyGrid}
    (hgrid : ((eventSystem coord).restrict fun grid event =>
      event.KeepsFocus coord grid).Reachable grid) : FocusValid grid.toGrid :=
  hgrid.invariant
    (fun s hs => by
      rw [show s = KeyGrid.created from hs]
      exact .inl rfl)
    fun _ _ _ _ hvalid hstep => (run_focus_iff hvalid hstep.2.2).2 hstep.1

/-- Two items, the second of which has the focus. -/
def Grid.secondFocused : Grid := (lvGridviewFocus 1 Grid.twoItems).1

theorem secondFocused_reachable {ok : Grid → Op → Prop}
    (hconfig : ok Grid.created (.setConfig 1 10 0))
    (hsize : ok { Grid.created with row_height := 10 } (.sizeChanged 20 0 0 0 0))
    (hload : ok Grid.sized (.setData (some (0, 2)) 0)) (hfocus : ok Grid.twoItems (.focus 1)) :
    ((system id).restrict ok).Reachable Grid.secondFocused := by
  have htwo : ((system id).restrict ok).Reachable Grid.twoItems :=
    .step (l := .setData (some (0, 2)) 0) (sized_reachable hconfig hsize)
      ⟨hload, setData_twoItems_valid, true, setData_twoItems⟩
  exact .step (l := .focus 1) htwo ⟨hfocus, trivial, false, rfl⟩

theorem focus_valid_secondFocused : FocusValid Grid.secondFocused := by
  let ok : Grid → Op → Prop := fun grid operation =>
    Event.KeepsFocus id { grid with key_focus_clamp := false } (.op operation)
  have hload : ok Grid.sized (.setData (some (0, 2)) 0) := fun hfocused =>
    absurd hfocused (by decide)
  have hreachable : ((system id).restrict ok).Reachable Grid.secondFocused :=
    secondFocused_reachable trivial trivial hload trivial
  exact focus_valid id (reachable_events (fun _ _ h => h) hreachable)

/-- The same grid with one item less keeps the index of the item that is gone. -/
theorem setData_focusGone : ∃ grid, (Op.setData (some (0, 1)) 0).run id Grid.secondFocused =
    .ok (grid, true) ∧ grid.item_count = 1 ∧ lvGridviewGetFocusedIndex grid = 1 :=
  ⟨_, rfl, rfl, rfl⟩

/-- **The focused index is not always valid.** -/
theorem focus_not_valid : ¬∀ grid : KeyGrid, (eventSystem id).Reachable grid →
    FocusValid grid.toGrid := by
  intro hclaim
  have hsecond : ((eventSystem id).restrict fun _ _ => True).Reachable
      { Grid.secondFocused with key_focus_clamp := false } :=
    @reachable_events id (fun _ _ => True) _ (fun _ _ _ => trivial) _
      (secondFocused_reachable trivial trivial trivial trivial)
  obtain ⟨grid, hrun, hcount, hindex⟩ := setData_focusGone
  have hvalid : (Op.setData (some (0, 1)) 0).Valid Grid.secondFocused := fun d hd => by
    cases hd
    decide
  have hgone := hclaim { grid with key_focus_clamp := false }
    (.step (l := .op (.setData (some (0, 1)) 0)) hsecond.of_restrict
      ⟨hvalid, by rw [Event.run, hrun]; rfl⟩)
  rw [FocusValid, hcount, hindex] at hgone
  omega

end CommonsC.GridView
