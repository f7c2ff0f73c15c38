import CommonsC.Base.Loop
import CommonsC.Base.Transition

/-!
# CommonsC.GridView.Model

The grid view of `lvgl/widgets/gridview/lv_gridview.c`.

The grid shows the items in its row window, each by a view: an object of the
in-use pool whose node holds the position of the item.  Views leave through
`grid_recycle_item` and come back through `grid_obtain_item`; in between,
`update_grid` moves views to the new positions of their items and `fill_rows`
moves the window.

Counts and positions are of type `int`: where the code computes one, `inInt` is
a fault if it overflows.  Coordinates are exact up to the conversion to
`lv_coord_t`, whose width is a build option of LVGL and which is a parameter
`coord`; what LVGL reports (the scroll offset, the content height, the paddings)
comes with the operations.  Layout calls, events and adapter callbacks do not
call back into the grid; what is asked of them is recorded in `calls`, the latest
call first.
-/

namespace CommonsC.GridView

/-- What ends the program: a failed assertion, or what C leaves undefined. -/
inductive Fault
  /-- `LV_ASSERT(row_count > 0)`. -/
  | rowCount
  /-- `LV_ASSERT(change.start >= 0)`. -/
  | changeStart
  /-- `LV_ASSERT(expect_item_count == grid->item_count)`. -/
  | itemCount
  /-- `should not recycle invalid item`. -/
  | invalidItem
  /-- A division by zero. -/
  | division
  /-- A read outside of the array `changes`. -/
  | changes
  /-- A write outside of the array `col_dsc`. -/
  | colDsc
  /-- An `int` that overflows. -/
  | overflow
deriving DecidableEq, Repr

/-- A value of type `int`. -/
def IsInt (x : Int) : Prop := -2 ^ 31 ≤ x ∧ x < 2 ^ 31

instance (x : Int) : Decidable (IsInt x) := inferInstanceAs (Decidable (_ ∧ _))

/-- Values that are computed in `int`. -/
def inInt (values : List Int) : Except Fault Unit :=
  if ∀ x ∈ values, IsInt x then .ok () else .error .overflow

/-! ## Pools of views -/

/-- `view_pool_ll_t`. -/
structure ViewPoolNode where
  position : Int
  item : Nat
deriving DecidableEq, Repr

/-- A pool, from its head. -/
abbrev ViewPool := List ViewPoolNode

/-- `view_pool_node_by_position`. -/
def viewPoolNodeByPosition (pool : ViewPool) (position : Int) : Option ViewPoolNode :=
  pool.find? (·.position == position)

/-- `view_pool_take_by_position`. -/
def viewPoolTakeByPosition (pool : ViewPool) (position : Int) : Option (Nat × ViewPool) :=
  (viewPoolNodeByPosition pool position).map fun node =>
    (node.item, pool.eraseP (·.position == position))

/-- `view_pool_poll`. -/
def viewPoolPoll : ViewPool → Option (Nat × ViewPool)
  | [] => none
  | head :: next => some (head.item, next)

/-- `view_pool_put`. -/
def viewPoolPut (pool : ViewPool) (position : Int) (value : Nat) : ViewPool :=
  ⟨position, value⟩ :: pool

/-- `node->position = new_pos` for the node found at `old_pos`. -/
def renumber (old_pos new_pos : Int) : ViewPool → ViewPool
  | [] => []
  | node :: next =>
      if node.position = old_pos then { node with position := new_pos } :: next
      else node :: renumber old_pos new_pos next

/-- Calls to LVGL and to the adapter. -/
inductive Call
  | createView (item : Nat)
  | bindView (item : Nat) (data : Option Nat) (position : Int)
  | setGridCell (item : Nat) (col row : Int)
  | sendFocused (item : Nat)
  | sendDefocused (item : Nat)
  | addFlagHidden (item : Nat)
  | clearFlagHidden (item : Nat)
deriving DecidableEq, Repr

/-- The pools, the number of views the adapter has created, and the calls. -/
structure Views where
  pool_inuse : ViewPool
  pool_free : ViewPool
  created : Nat
  calls : List Call

def Views.call (views : Views) (c : Call) : Views := { views with calls := c :: views.calls }

/-- `grid_recycle_item`.  No caller looks at its result. -/
def gridRecycleItem (position : Int) (optional : Bool) (views : Views) : Except Fault Views :=
  match viewPoolTakeByPosition views.pool_inuse position with
  | none => if optional then .ok views else .error .invalidItem
  | some (item, pool_inuse) =>
      let views := { views with pool_inuse }
      let views := (views.call (.sendDefocused item)).call (.addFlagHidden item)
      .ok { views with pool_free := viewPoolPut views.pool_free (-1) item }

/-- The view that `grid_obtain_item` takes when the position has none. -/
def takeFree (views : Views) : Views × Nat :=
  match viewPoolPoll views.pool_free with
  | some (item, pool_free) => ({ views with pool_free }, item)
  | none =>
      let item := views.created
      ({ views with created := item + 1 }.call (.createView item), item)

/-- `grid_obtain_item`: the view, and whether it is new at the position. -/
def gridObtainItem (position : Int) (views : Views) : Views × Nat × Bool :=
  match viewPoolNodeByPosition views.pool_inuse position with
  | some cur => (views, cur.item, false)
  | none =>
      let (views, item) := takeFree views
      let views := views.call (.clearFlagHidden item)
      ({ views with pool_inuse := viewPoolPut views.pool_inuse position item }, item, true)

/-! ## The grid -/

/-- `lv_gridview_data_change_t`. -/
structure Change where
  start : Int
  remove_count : Int
  add_count : Int
deriving DecidableEq, Repr

/-- `lv_grid_t`. -/
structure Grid where
  column_count : Int
  row_height : Int
  data : Option Nat
  item_count : Int
  row_count : Int
  row_start : Int
  row_end : Int
  focused_index : Int
  focus_when_available : Int
  content_height : Int
  pad_row : Int
  pad_top : Int
  pad_bottom : Int
  old_item_count : Int
  changes : Option (List Change)
  num_changes : Int
  views : Views

/-- `CEIL_DIVIDE`, of coordinates. -/
def ceilDivide (a b : Int) : Except Fault Int :=
  if b = 0 then .error .division else .ok ((a + b - 1).tdiv b)

/-- `CEIL_DIVIDE(item_count, column_count)`. -/
def countRows (item_count column_count : Int) : Except Fault Int := do
  inInt [item_count + column_count, item_count + column_count - 1]
  ceilDivide item_count column_count

/-- `update_col_dsc`: the size of its array, and where it writes. -/
def updateColDsc (column_count : Int) : Except Fault Unit := do
  inInt [column_count + 1]
  if column_count < 0 then .error .colDsc else .ok ()

/-- `update_row_dsc`: its assertion, and the size of its array. -/
def updateRowDsc (row_count : Int) : Except Fault Unit :=
  let row_count := if row_count = 0 then 1 else row_count
  if 0 < row_count then inInt [row_count + 1] else .error .rowCount

/-- `update_row_count`. -/
def updateRowCount (row_count : Int) (grid : Grid) : Grid :=
  if row_count ≤ 0 then grid else { grid with row_count }

/-- Recycle what is shown in the rows from `lo` to before `hi`. -/
def recycleRows (column_count item_count lo hi : Int) (optional : Bool) (views : Views) :
    Except Fault Views :=
  Loop.up lo hi (fun row_idx => Loop.up 0 column_count fun col_idx views =>
    let position := row_idx * column_count + col_idx
    if item_count ≤ position then .ok views else gridRecycleItem position optional views) views

/-- The last position in the rows from `lo` to before `hi`, which is the largest. -/
def lastPosition (column_count lo hi : Int) : List Int :=
  if lo < hi ∧ 0 < column_count then [hi * column_count - 1] else []

/-- `clear_rows`. -/
def clearRows (grid : Grid) : Except Fault Views := do
  let views ← recycleRows grid.column_count grid.item_count (max 0 grid.row_start) grid.row_end
    true grid.views
  inInt (lastPosition grid.column_count (max 0 grid.row_start) grid.row_end)
  .ok views

/-- The first part of `lv_gridview_focus`: another item loses the focus. -/
def defocus (position : Int) (grid : Grid) : Grid :=
  if 0 ≤ grid.focused_index ∧ position ≠ grid.focused_index then
    match viewPoolNodeByPosition grid.views.pool_inuse grid.focused_index with
    | some node =>
        { grid with views := grid.views.call (.sendDefocused node.item), focused_index := -1 }
    | none => { grid with focused_index := -1 }
  else grid

/-- `lv_gridview_focus`. -/
def lvGridviewFocus (position : Int) (grid : Grid) : Grid × Bool :=
  let grid := defocus position grid
  if position < 0 ∨ grid.item_count ≤ position then (grid, false)
  else
    let (views, will_focus, created) := gridObtainItem position grid.views
    let views :=
      if created then
        (views.call (.setGridCell will_focus (position.tmod grid.column_count)
          (position.tdiv grid.column_count))).call (.bindView will_focus grid.data position)
      else views
    ({ grid with views := views.call (.sendFocused will_focus), focused_index := position }, true)

/-- `lv_gridview_get_focused_index`. -/
def lvGridviewGetFocusedIndex (grid : Grid) : Int := grid.focused_index

/-- `lv_gridview_get_item_view`. -/
def lvGridviewGetItemView (position : Int) (grid : Grid) : Option Nat :=
  (viewPoolNodeByPosition grid.views.pool_inuse position).map ViewPoolNode.item

/-- One cell of a row that is shown. -/
def refreshCell (grid : Grid) (row_idx col_idx : Int) (views : Views) : Views :=
  let position := row_idx * grid.column_count + col_idx
  let (views, item, created) := gridObtainItem position views
  let views := if created then views.call (.setGridCell item col_idx row_idx) else views
  views.call (.bindView item grid.data position)

/-- The cells of a row from `col_idx` on, with `n` columns to go. -/
def refreshCols (grid : Grid) (row_idx : Int) : (n : Nat) → (col_idx : Int) → Views → Views
  | 0, _, views => views
  | n + 1, col_idx, views =>
      if grid.item_count ≤ row_idx * grid.column_count + col_idx then views
      else refreshCols grid row_idx n (col_idx + 1) (refreshCell grid row_idx col_idx views)

/-- The end of `fill_rows`: focus an item that was waited for. -/
def focusAvailable (grid : Grid) : Grid :=
  if 0 ≤ grid.focus_when_available ∧ grid.focus_when_available < grid.item_count then
    { (lvGridviewFocus grid.focus_when_available grid).1 with focus_when_available := -1 }
  else grid

/-- The positions that `fill_rows` computes.  The loop over the rows that are shown
leaves a row at the first position that has no item. -/
def fillInts (row_start row_end : Int) (grid : Grid) : List Int :=
  lastPosition grid.column_count (max 0 grid.row_start) row_start ++
    lastPosition grid.column_count (max 0 (row_end + 1)) (grid.row_end + 1) ++
    [row_end + 1, row_end * grid.column_count]

/-- `fill_rows`.  The second result tells whether it got past its range
check. -/
def fillRows (row_start row_end : Int) (grid : Grid) : Except Fault (Grid × Bool) :=
  if row_start < 0 ∨ row_end < 0 ∨ row_end < row_start then .ok (grid, false)
  else do
    let recycle := recycleRows grid.column_count grid.item_count
    let views ← recycle (max 0 grid.row_start) row_start false grid.views
    let views ← recycle (max 0 (row_end + 1)) (grid.row_end + 1) false views
    inInt (fillInts row_start row_end grid)
    let views ← Loop.up row_start (row_end + 1) (fun row_idx views =>
      .ok (refreshCols grid row_idx grid.column_count.toNat 0 views)) views
    .ok (focusAvailable { grid with views, row_start, row_end }, true)

/-! ## `update_grid` -/

/-- The rows that `update_grid` works with. -/
structure Render where
  row_start : Int
  row_end : Int
  visible_row_end : Int

/-- Beginning item index to render. -/
def Render.itemStart (render : Render) (column_count : Int) : Int := column_count * render.row_start

/-- Inclusive ending index that could possibly be visible. -/
def Render.maxItemEnd (render : Render) (column_count : Int) : Int :=
  column_count * (render.visible_row_end + 1) - 1

/-- What `update_grid` computes of the rows. -/
def Render.ints (render : Render) (column_count : Int) : List Int :=
  [render.visible_row_end, render.itemStart column_count, render.visible_row_end + 1,
    column_count * (render.visible_row_end + 1), render.maxItemEnd column_count]

/-- The first part of `update_grid`: which rows are to be rendered. -/
def renderRows (coord : Int → Int) (scroll_y : Int) (grid : Grid) : Except Fault Render := do
  let extend := grid.row_height.tdiv 4
  let row_top := fun i => coord (grid.row_height * i + grid.pad_row * i)
  let start_bound := coord (scroll_y - grid.pad_top - extend)
  let end_bound := coord (scroll_y + grid.content_height + grid.pad_bottom + extend)
  let row_start := (((List.range grid.row_count.toNat).map Int.ofNat).find? fun i =>
    start_bound ≤ coord (row_top i + grid.row_height)).getD (-1)
  let row_end := (((List.range (grid.row_count - row_start).toNat).map fun k =>
    grid.row_count - 1 - Int.ofNat k).find? fun i => row_top i ≤ end_bound).getD (-1)
  let rows ← ceilDivide (grid.content_height + grid.pad_row + extend)
    (grid.row_height + grid.pad_row)
  .ok { row_start, row_end, visible_row_end := row_start + rows }

/-- The first `num_changes` of the array `changes`. -/
def pendingChanges (grid : Grid) : Except Fault (List Change) :=
  if grid.num_changes ≤ 0 then .ok []
  else
    match grid.changes with
    | none => .error .changes
    | some changes =>
        if grid.num_changes ≤ changes.length then .ok (changes.take grid.num_changes.toNat)
        else .error .changes

/-- What a round of the change loop computes, for `expect_item_count` items. -/
def Change.ints (max_item_end expect_item_count : Int) (change : Change) : List Int :=
  let move_from := change.start + change.remove_count
  let move_delta := change.add_count - change.remove_count
  let last := min (expect_item_count - 1) max_item_end
  [move_from, move_delta, expect_item_count + move_delta] ++
    (if move_delta = 0 then [] else [expect_item_count - 1]) ++
    if move_delta = 0 ∨ last < move_from then []
    else [move_from + move_delta, last + move_delta, move_from - 1]

/-- What the change loop computes, up to a change that fails its assertion. -/
def changesInts (max_item_end : Int) : List Change → (expect_item_count : Int) → List Int
  | [], _ => []
  | change :: changes, expect_item_count =>
      if change.start < 0 then []
      else
        change.ints max_item_end expect_item_count ++
          changesInts max_item_end changes
            (expect_item_count + (change.add_count - change.remove_count))

/-- Move the view at `old_pos`, or recycle it if it gets out of range. -/
def moveView (column_count item_start max_item_end move_delta old_pos : Int) (views : Views) :
    Except Fault Views :=
  let new_pos := old_pos + move_delta
  if new_pos < item_start ∨ max_item_end < new_pos then gridRecycleItem old_pos true views
  else
    match viewPoolNodeByPosition views.pool_inuse old_pos with
    | none => .ok views
    | some node =>
        -- The cell is computed in `uint8_t`.
        let row_idx := new_pos.tdiv column_count % 256
        let col_idx := new_pos.tmod column_count % 256
        let views := { views with pool_inuse := renumber old_pos new_pos views.pool_inuse }
        .ok (views.call (.setGridCell node.item col_idx row_idx))

/-- One round of the change loop, for `expect_item_count` items. -/
def applyChange (column_count item_start max_item_end expect_item_count : Int) (change : Change)
    (views : Views) : Except Fault Views :=
  if change.start < 0 then .error .changeStart
  else do
    let views ← Loop.up change.start (change.start + change.remove_count)
      (fun del_pos => gridRecycleItem del_pos true) views
    let move_from := change.start + change.remove_count
    let move_delta := change.add_count - change.remove_count
    if move_delta = 0 then .ok views
    else
      Loop.down (min (expect_item_count - 1) max_item_end) move_from
        (moveView column_count item_start max_item_end move_delta) views

/-- The change loop of `update_grid`: the expected item count, and the views. -/
def changeLoop (column_count item_start max_item_end : Int) :
    List Change → (expect_item_count : Int) → Views → Except Fault (Int × Views)
  | [], expect_item_count, views => .ok (expect_item_count, views)
  | change :: changes, expect_item_count, views => do
      let views ← applyChange column_count item_start max_item_end expect_item_count change views
      changeLoop column_count item_start max_item_end changes
        (expect_item_count + (change.add_count - change.remove_count)) views

/-- The second part of `update_grid`: data changes, and `fill_rows`. -/
def renderGrid (render : Render) (grid : Grid) : Except Fault (Grid × Bool) := do
  let expect_item_count := if grid.num_changes ≤ 0 then grid.item_count else grid.old_item_count
  let changes ← pendingChanges grid
  inInt (changesInts (render.maxItemEnd grid.column_count) changes expect_item_count)
  let (expect_item_count, views) ← changeLoop grid.column_count
    (render.itemStart grid.column_count) (render.maxItemEnd grid.column_count) changes
    expect_item_count grid.views
  if expect_item_count = grid.item_count then
    fillRows render.row_start render.row_end { grid with views }
  else .error .itemCount

/-- `update_grid`.  The second result tells whether `fill_rows` got past its
range check. -/
def updateGrid (coord : Int → Int) (scroll_y : Int) (grid : Grid) : Except Fault (Grid × Bool) :=
  if grid.content_height ≤ 0 then .ok (grid, false)
  else do
    let render ← renderRows coord scroll_y grid
    inInt (render.ints grid.column_count)
    renderGrid render grid

/-! ## Operations -/

/-- Scrap all views, if there is reason to. -/
def scrapViews (scrap : Bool) (grid : Grid) : Except Fault Views :=
  if scrap then clearRows grid else .ok grid.views

/-- The row count that goes with the item count. -/
def recount (grid : Grid) : Except Fault Grid := do
  let row_count ← countRows grid.item_count grid.column_count
  .ok (updateRowCount row_count grid)

/-- What `lv_gridview_set_config` does between `clear_rows` and
`update_grid`. -/
def configure (col_count row_height : Int) (column_count_changed : Bool) (grid : Grid) :
    Except Fault Grid := do
  let configured := { grid with column_count := col_count, row_height }
  updateColDsc col_count
  let grid ← cond column_count_changed (recount configured) (.ok configured)
  updateRowDsc grid.row_count
  .ok grid

/-- `lv_gridview_set_config`. -/
def lvGridviewSetConfig (coord : Int → Int) (col_count row_height scroll_y : Int) (grid : Grid) :
    Except Fault (Grid × Bool) := do
  let column_count_changed := grid.column_count != col_count
  let views ← scrapViews column_count_changed grid
  let grid ← configure col_count row_height column_count_changed { grid with views }
  if column_count_changed then updateGrid coord scroll_y grid else .ok (grid, false)

/-- What `lv_gridview_set_data_advanced` does before `update_grid`, but for
`clear_rows`.  The data comes with the item count the adapter reports for it. -/
def loadData (data : Option (Nat × Int)) (changes : Option (List Change)) (num_changes : Int)
    (grid : Grid) : Except Fault Grid :=
  let grid := { grid with
    old_item_count := grid.item_count, changes, num_changes, data := data.map Prod.fst }
  match data with
  | none => .ok grid
  | some (_, item_count) =>
      if grid.item_count = item_count then .ok grid
      else do
        let row_count ← countRows item_count grid.column_count
        updateRowDsc row_count
        .ok (updateRowCount row_count { grid with item_count })

/-- The end of `lv_gridview_set_data_advanced`: the changes are done. -/
def dropChanges (grid : Grid) : Grid := { grid with changes := none, num_changes := 0 }

/-- `lv_gridview_set_data_advanced`. -/
def lvGridviewSetDataAdvanced (coord : Int → Int) (data : Option (Nat × Int))
    (changes : Option (List Change)) (num_changes scroll_y : Int) (grid : Grid) :
    Except Fault (Grid × Bool) := do
  let views ← scrapViews (changes.isNone || num_changes < 0) grid
  let grid ← loadData data changes num_changes { grid with views }
  (updateGrid coord scroll_y grid).map fun (grid, filled) => (dropChanges grid, filled)

/-- `lv_gridview_set_data`. -/
def lvGridviewSetData (coord : Int → Int) (data : Option (Nat × Int)) (scroll_y : Int) :
    Grid → Except Fault (Grid × Bool) :=
  lvGridviewSetDataAdvanced coord data none 0 scroll_y

/-- `lv_gridview_focus_when_available`. -/
def lvGridviewFocusWhenAvailable (position : Int) (grid : Grid) : Grid :=
  { grid with focus_when_available := position }

/-- `update_sizes`: the sizes are those that LVGL has now. -/
def updateSizes (content_height pad_row pad_top pad_bottom : Int) (grid : Grid) : Grid × Bool :=
  ({ grid with content_height, pad_row, pad_top, pad_bottom },
    grid.content_height != content_height || grid.pad_row != pad_row ||
      grid.pad_top != pad_top || grid.pad_bottom != pad_bottom)

/-- `LV_EVENT_SIZE_CHANGED` and `LV_EVENT_STYLE_CHANGED`. -/
def sizeChanged (coord : Int → Int) (content_height pad_row pad_top pad_bottom scroll_y : Int)
    (grid : Grid) : Except Fault (Grid × Bool) :=
  let (grid, changed) := updateSizes content_height pad_row pad_top pad_bottom grid
  if changed then updateGrid coord scroll_y grid else .ok (grid, false)

/-- A grid in the memory that `lv_obj_class_create_obj` has cleared. -/
def Grid.zeroed : Grid where
  column_count := 0
  row_height := 0
  data := none
  item_count := 0
  row_count := 0
  row_start := 0
  row_end := 0
  focused_index := 0
  focus_when_available := 0
  content_height := 0
  pad_row := 0
  pad_top := 0
  pad_bottom := 0
  old_item_count := 0
  changes := none
  num_changes := 0
  views := ⟨[], [], 0, []⟩

/-- `lv_gridview_create`, with `lv_gridview_constructor`. -/
def lvGridviewCreate (coord : Int → Int) (scroll_y : Int) : Except Fault Grid := do
  let (grid, _) ← lvGridviewSetConfig coord 1 1 scroll_y Grid.zeroed
  .ok { grid with row_start := -1, row_end := -1, focused_index := -1, focus_when_available := -1 }

/-- Operations and events, with what LVGL reports meanwhile. -/
inductive Op
  | setConfig (col_count row_height scroll_y : Int)
  | setData (data : Option (Nat × Int)) (scroll_y : Int)
  | setDataAdvanced (data : Option (Nat × Int)) (changes : Option (List Change))
      (num_changes scroll_y : Int)
  | focus (position : Int)
  | focusWhenAvailable (position : Int)
  | scroll (scroll_y : Int)
  | sizeChanged (content_height pad_row pad_top pad_bottom scroll_y : Int)

/-- The grid after an operation, and whether `fill_rows` got past its range
check in it. -/
def Op.run (coord : Int → Int) (grid : Grid) : Op → Except Fault (Grid × Bool)
  | .setConfig col_count row_height scroll_y =>
      lvGridviewSetConfig coord col_count row_height scroll_y grid
  | .setData data scroll_y => lvGridviewSetData coord data scroll_y grid
  | .setDataAdvanced data changes num_changes scroll_y =>
      lvGridviewSetDataAdvanced coord data changes num_changes scroll_y grid
  | .focus position => .ok ((lvGridviewFocus position grid).1, false)
  | .focusWhenAvailable position => .ok (lvGridviewFocusWhenAvailable position grid, false)
  | .scroll scroll_y => updateGrid coord scroll_y grid
  | .sizeChanged content_height pad_row pad_top pad_bottom scroll_y =>
      GridView.sizeChanged coord content_height pad_row pad_top pad_bottom scroll_y grid

end CommonsC.GridView
