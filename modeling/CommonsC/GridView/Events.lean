import CommonsC.GridView.Operations

/-!
# CommonsC.GridView.Events

Key and cancel events, rebinding, and views that are deleted.

These come on top of the operations of `CommonsC.GridView.Model`.  Keys move the
focus by an item or a row, with the position clamped if `key_focus_clamp` is
set.  Events that are only passed on to the focused view are left out: they
change nothing here.
-/

namespace CommonsC.GridView

/-- `lv_grid_t`, with the field that only key events look at. -/
structure KeyGrid extends Grid where
  key_focus_clamp : Bool

/-! ## Keys -/

/-- The keys that `key_cb` tells apart. -/
inductive Key
  | left
  | right
  | up
  | down
  | other
deriving DecidableEq, Repr

/-- The first part of `key_cb`: how far a key moves the focus. -/
def Key.offset (column_count : ℤ) : Key → Option ℤ
  | .left => some (-1)
  | .right => some 1
  | .up => some (-column_count)
  | .down => some column_count
  | .other => none

/-- `LV_CLAMP`. -/
def lvClamp (lo val hi : ℤ) : ℤ := max lo (min val hi)

/-- The position that `key_cb` focuses, unless it returns before. -/
def keyTarget (key : Key) (grid : KeyGrid) : Option ℤ :=
  (key.offset grid.column_count).bind fun offset =>
    let index :=
      if grid.focused_index < 0 then grid.row_start * grid.column_count
      else grid.focused_index + offset
    if grid.key_focus_clamp then some (lvClamp 0 index (grid.item_count - 1))
    else if index < 0 ∨ grid.item_count ≤ index then none
    else some index

/-- What `key_cb` computes. -/
def keyInts (key : Key) (grid : KeyGrid) : List ℤ :=
  match key.offset grid.column_count with
  | none => []
  | some offset =>
      let index :=
        if grid.focused_index < 0 then grid.row_start * grid.column_count
        else grid.focused_index + offset
      [offset, index] ++ if grid.key_focus_clamp then [grid.item_count - 1] else []

/-- `lv_gridview_focus`, on the whole of `lv_grid_t`. -/
def KeyGrid.focus (position : ℤ) (grid : KeyGrid) : KeyGrid :=
  { grid with toGrid := (lvGridviewFocus position grid.toGrid).1 }

/-- `key_cb`. -/
def keyCb (key : Key) (grid : KeyGrid) : Except Fault KeyGrid := do
  inInt (keyInts key grid)
  .ok ((keyTarget key grid).elim grid grid.focus)

theorem keyCb_cases {key : Key} {grid grid' : KeyGrid} (h : keyCb key grid = .ok grid') :
    grid' = grid ∨ ∃ position ∈ keyTarget key grid, grid' = grid.focus position := by
  obtain ⟨-, -, h⟩ := Loop.of_bind h
  cases h
  cases keyTarget key grid with
  | none => exact .inl rfl
  | some position => exact .inr ⟨position, rfl, rfl⟩

/-- `cancel_cb`. -/
def cancelCb (grid : KeyGrid) : KeyGrid := grid.focus (-1)

/-- `lv_gridview_set_key_focus_clamp`. -/
def lvGridviewSetKeyFocusClamp (enable : Bool) (grid : KeyGrid) : KeyGrid :=
  { grid with key_focus_clamp := enable }

/-! ## Rebinding -/

/-- A round of `lv_gridview_rebind`.  It ends the loops, with the views as they
are, at a position without a view. -/
def rebindCell (grid : Grid) (row_idx col_idx : ℤ) (views : Views) : Except Views Views :=
  let position := row_idx * grid.column_count + col_idx
  if grid.item_count ≤ position then .ok views
  else
    match viewPoolNodeByPosition views.pool_inuse position with
    | none => .error views
    | some node => .ok (views.call (.bindView node.item grid.data position))

/-- The loops of `lv_gridview_rebind`. -/
def rebindRows (grid : Grid) : Except Views Views :=
  Loop.up (max 0 grid.row_start) (grid.row_end + 1)
    (fun row_idx => Loop.up 0 grid.column_count (rebindCell grid row_idx)) grid.views

/-- `lv_gridview_rebind`.  Loops that run to their end have computed all
positions. -/
def lvGridviewRebind (grid : Grid) : Except Fault Grid :=
  match rebindRows grid with
  | .ok views => do
      inInt (lastPosition grid.column_count (max 0 grid.row_start) (grid.row_end + 1))
      .ok { grid with views }
  | .error views => .ok { grid with views }

theorem lvGridviewRebind_cases {grid grid' : Grid} (h : lvGridviewRebind grid = .ok grid') :
    ∃ views, (rebindRows grid = .ok views ∨ rebindRows grid = .error views) ∧
      grid' = { grid with views } := by
  rw [lvGridviewRebind] at h
  cases hrows : rebindRows grid with
  | ok views =>
      rw [hrows] at h
      obtain ⟨-, -, h⟩ := Loop.of_bind h
      cases h
      exact ⟨views, .inl rfl, rfl⟩
  | error views =>
      rw [hrows] at h
      cases h
      exact ⟨views, .inr rfl, rfl⟩

/-- `lv_gridview_rebind_item`. -/
def lvGridviewRebindItem (position : ℤ) (grid : Grid) : Grid :=
  match viewPoolNodeByPosition grid.views.pool_inuse position with
  | none => grid
  | some node => { grid with views := grid.views.call (.bindView node.item grid.data position) }

/-! ## Deleted views -/

/-- `view_pool_remove_by_instance`. -/
def viewPoolRemoveByInstance (pool : ViewPool) (obj : ℕ) : ViewPool := pool.eraseP (·.item == obj)

/-- `item_delete_cb`. -/
def itemDeleteCb (obj : ℕ) (grid : Grid) : Grid :=
  { grid with
    views := { grid.views with
      pool_inuse := viewPoolRemoveByInstance grid.views.pool_inuse obj
      pool_free := viewPoolRemoveByInstance grid.views.pool_free obj } }

/-! ## Events -/

/-- Everything that can happen to a grid. -/
inductive Event
  | op (operation : Op)
  | key (pressed : Key)
  | cancel
  | setKeyFocusClamp (enable : Bool)
  | rebind
  | rebindItem (position : ℤ)
  | itemDelete (obj : ℕ)

/-- The grid after an event. -/
def Event.run (coord : ℤ → ℤ) (grid : KeyGrid) : Event → Except Fault KeyGrid
  | .op operation =>
      (operation.run coord grid.toGrid).map fun result => { grid with toGrid := result.1 }
  | .key pressed => keyCb pressed grid
  | .cancel => .ok (cancelCb grid)
  | .setKeyFocusClamp enable => .ok (lvGridviewSetKeyFocusClamp enable grid)
  | .rebind => (lvGridviewRebind grid.toGrid).map fun rebound => { grid with toGrid := rebound }
  | .rebindItem position => .ok { grid with toGrid := lvGridviewRebindItem position grid.toGrid }
  | .itemDelete obj => .ok { grid with toGrid := itemDeleteCb obj grid.toGrid }

/-- What the documentation asks of the caller. -/
def Event.Valid (grid : KeyGrid) : Event → Prop
  | .op operation => operation.Valid grid.toGrid
  | _ => True

/-- A grid as `lv_gridview_create` leaves it. -/
def KeyGrid.created : KeyGrid := { Grid.created with key_focus_clamp := false }

/-- The grid with all events. -/
def eventSystem (coord : ℤ → ℤ) : TransitionSystem KeyGrid Event where
  init grid := grid = KeyGrid.created
  step grid event grid' := event.Valid grid ∧ event.run coord grid = .ok grid'

/-- Runs of operations are runs of events. -/
theorem reachable_events {coord : ℤ → ℤ} {ok : Grid → Op → Prop} {ok' : KeyGrid → Event → Prop}
    (hok : ∀ grid op, ok grid op → ok' { grid with key_focus_clamp := false } (.op op))
    {grid : Grid} (h : ((system coord).restrict ok).Reachable grid) :
    ((eventSystem coord).restrict ok').Reachable { grid with key_focus_clamp := false } := by
  induction h with
  | init hinit =>
      rw [system_init.1 hinit]
      exact .init rfl
  | step _ hstep ih =>
      obtain ⟨hallowed, hvalid, filled, hrun⟩ := hstep
      refine .step ih ⟨hok _ _ hallowed, hvalid, ?_⟩
      rw [Event.run, hrun]
      rfl

/-- An operation among the events. -/
theorem run_op {coord : ℤ → ℤ} {grid grid' : KeyGrid} {op : Op}
    (h : (Event.op op).run coord grid = .ok grid') :
    ∃ filled, Ran coord grid.toGrid op grid'.toGrid filled := by
  rw [Event.run] at h
  cases hrun : op.run coord grid.toGrid with
  | error e =>
      rw [hrun] at h
      cases h
  | ok result =>
      rw [hrun] at h
      cases h
      exact ⟨result.2, run_ran hrun⟩

/-- `lv_gridview_rebind` among the events. -/
theorem run_rebind {coord : ℤ → ℤ} {grid grid' : KeyGrid}
    (h : Event.rebind.run coord grid = .ok grid') :
    ∃ rebound, lvGridviewRebind grid.toGrid = .ok rebound ∧
      grid' = { grid with toGrid := rebound } := by
  rw [Event.run] at h
  cases hrun : lvGridviewRebind grid.toGrid with
  | error e =>
      rw [hrun] at h
      cases h
  | ok rebound =>
      rw [hrun] at h
      cases h
      exact ⟨rebound, rfl, rfl⟩

end CommonsC.GridView
