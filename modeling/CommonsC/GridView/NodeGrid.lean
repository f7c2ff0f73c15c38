import CommonsC.GridView.Conservation
import CommonsC.GridView.Events

/-!
# CommonsC.GridView.NodeGrid

The grid view of `lvgl/widgets/gridview/lv_gridview.c` with its pools as they are
in memory.

The functions are those of `CommonsC.GridView.Model` and
`CommonsC.GridView.Events`, on lists of nodes with links: every search follows
the links, every view that is recycled has its node freed and another one
allocated.  A search is given the number of views that were created to come to
its end.  `lv_mem_alloc` is a parameter.
-/

namespace CommonsC.GridView

/-- What ends the program: a fault, an access to memory that is not allocated, or
a search without an end. -/
inductive NodeFault
  | fault (fault : Fault)
  | memory

/-- An access to memory. -/
def access {α : Type} : Option α → Except NodeFault α
  | some a => .ok a
  | none => .error .memory

/-- The pools, the number of views that the adapter has created, and the calls. -/
structure NodeViews (ν : Type) where
  heap : Heap ν
  pool_inuse : Option ν
  pool_free : Option ν
  created : Nat
  calls : List Call

namespace NodeViews

variable {ν : Type}

def call (s : NodeViews ν) (c : Call) : NodeViews ν := { s with calls := c :: s.calls }

variable [DecidableEq ν]

/-- The node in use for a position, and its item. -/
def nodeAt (s : NodeViews ν) (position : Int) : Except NodeFault (Option (ν × Nat)) := do
  match ← access (s.heap.viewPoolNodeByPosition s.created s.pool_inuse position) with
  | none => .ok none
  | some cur => do
      let node ← access (s.heap cur)
      .ok (some (cur, node.item))

variable (alloc : Heap ν → ν)

/-- `grid_recycle_item`. -/
def gridRecycleItem (position : Int) (optional : Bool) (s : NodeViews ν) :
    Except NodeFault (NodeViews ν) := do
  let (item, pool_inuse, heap) ←
    access (s.heap.viewPoolTakeByPosition s.created s.pool_inuse position)
  let s := { s with heap, pool_inuse }
  match item with
  | none => if optional then .ok s else .error (.fault .invalidItem)
  | some item => do
      let s := (s.call (.sendDefocused item)).call (.addFlagHidden item)
      let (pool_free, heap) ← access (heap.viewPoolPut s.pool_free (alloc heap) (-1) item)
      .ok { s with heap, pool_free }

/-- The view that `grid_obtain_item` takes, with what is left in the free pool. -/
def takeFree (item : Option Nat) (s : NodeViews ν) : NodeViews ν × Nat :=
  match item with
  | some item => (s, item)
  | none => ({ s with created := s.created + 1 }.call (.createView s.created), s.created)

/-- `grid_obtain_item`: the view, and whether it is new at the position. -/
def gridObtainItem (position : Int) (s : NodeViews ν) :
    Except NodeFault (NodeViews ν × Nat × Bool) := do
  match ← nodeAt s position with
  | some (_, item) => .ok (s, item, false)
  | none => do
      let (item, pool_free, heap) ← access (s.heap.viewPoolPoll s.pool_free)
      let (s, item) := takeFree item { s with heap, pool_free }
      let s := s.call (.clearFlagHidden item)
      let (pool_inuse, heap) ←
        access (s.heap.viewPoolPut s.pool_inuse (alloc s.heap) position item)
      .ok ({ s with heap, pool_inuse }, item, true)

/-- Recycle what is shown in the rows from `lo` to before `hi`. -/
def recycleRows (column_count item_count lo hi : Int) (optional : Bool) (s : NodeViews ν) :
    Except NodeFault (NodeViews ν) :=
  Loop.up lo hi (fun row_idx => Loop.up 0 column_count fun col_idx s =>
    let position := row_idx * column_count + col_idx
    if item_count ≤ position then .ok s else gridRecycleItem alloc position optional s) s

/-- Move the view at `old_pos`, or recycle it if it gets out of range. -/
def moveView (column_count item_start max_item_end move_delta old_pos : Int) (s : NodeViews ν) :
    Except NodeFault (NodeViews ν) :=
  let new_pos := old_pos + move_delta
  if new_pos < item_start ∨ max_item_end < new_pos then gridRecycleItem alloc old_pos true s
  else do
    match ← nodeAt s old_pos with
    | none => .ok s
    | some (node, item) => do
        let heap ← access (s.heap.store node ({ · with position := new_pos }))
        let row_idx := new_pos.tdiv column_count % 256
        let col_idx := new_pos.tmod column_count % 256
        .ok ({ s with heap }.call (.setGridCell item col_idx row_idx))

/-- One round of the change loop, for `expect_item_count` items. -/
def applyChange (column_count item_start max_item_end expect_item_count : Int) (change : Change)
    (s : NodeViews ν) : Except NodeFault (NodeViews ν) :=
  if change.start < 0 then .error (.fault .changeStart)
  else do
    let s ← Loop.up change.start (change.start + change.remove_count)
      (fun del_pos => gridRecycleItem alloc del_pos true) s
    let move_from := change.start + change.remove_count
    let move_delta := change.add_count - change.remove_count
    if move_delta = 0 then .ok s
    else
      Loop.down (min (expect_item_count - 1) max_item_end) move_from
        (moveView alloc column_count item_start max_item_end move_delta) s

/-- The change loop of `update_grid`: the expected item count, and the views. -/
def changeLoop (column_count item_start max_item_end : Int) :
    List Change → (expect_item_count : Int) → NodeViews ν → Except NodeFault (Int × NodeViews ν)
  | [], expect_item_count, s => .ok (expect_item_count, s)
  | change :: changes, expect_item_count, s => do
      let s ← applyChange alloc column_count item_start max_item_end expect_item_count change s
      changeLoop column_count item_start max_item_end changes
        (expect_item_count + (change.add_count - change.remove_count)) s

/-- `item_delete_cb`. -/
def itemDeleteCb (obj : Nat) (s : NodeViews ν) : Except NodeFault (NodeViews ν) := do
  let (pool_inuse, heap) ← access (s.heap.viewPoolRemoveByInstance s.created s.pool_inuse obj)
  let (pool_free, heap) ← access (heap.viewPoolRemoveByInstance s.created s.pool_free obj)
  .ok { s with heap, pool_inuse, pool_free }

/-- The loop of `view_pool_reset`. -/
def viewPoolReset (heap : Heap ν) : Nat → Option ν → Except NodeFault (Heap ν)
  | _, none => .ok heap
  | 0, some _ => .error .memory
  | fuel + 1, some cur => do
      let node ← access (heap cur)
      let heap ← access (heap.memFree cur)
      viewPoolReset heap fuel node.next

/-- What `lv_gridview_destructor` does to the pools. -/
def lvGridviewDestructor (s : NodeViews ν) : Except NodeFault (NodeViews ν) := do
  let heap ← viewPoolReset s.heap s.created s.pool_free
  let heap ← viewPoolReset heap s.created s.pool_inuse
  .ok { s with heap, pool_inuse := none, pool_free := none }

end NodeViews

/-! ## The grid -/

/-- `lv_grid_t`, with its key focus.  The pools are `nodes`, and `grid` has none. -/
structure NodeGrid (ν : Type) where
  grid : Grid
  nodes : NodeViews ν
  key_focus_clamp : Bool

namespace NodeGrid

open NodeViews (nodeAt)

variable {ν : Type} [DecidableEq ν] (alloc : Heap ν → ν)

/-- `clear_rows`. -/
def clearRows (g : NodeGrid ν) : Except NodeFault (NodeGrid ν) := do
  let nodes ← g.nodes.recycleRows alloc g.grid.column_count g.grid.item_count
    (max 0 g.grid.row_start) g.grid.row_end true
  (inInt (lastPosition g.grid.column_count (max 0 g.grid.row_start) g.grid.row_end)).mapError
    .fault
  .ok { g with nodes }

/-- The first part of `lv_gridview_focus`: another item loses the focus. -/
def defocus (position : Int) (g : NodeGrid ν) : Except NodeFault (NodeGrid ν) :=
  if 0 ≤ g.grid.focused_index ∧ position ≠ g.grid.focused_index then do
    let grid := { g.grid with focused_index := -1 }
    match ← nodeAt g.nodes g.grid.focused_index with
    | some (_, item) => .ok { g with grid, nodes := g.nodes.call (.sendDefocused item) }
    | none => .ok { g with grid }
  else .ok g

/-- `lv_gridview_focus`. -/
def lvGridviewFocus (position : Int) (g : NodeGrid ν) : Except NodeFault (NodeGrid ν × Bool) := do
  let g ← defocus position g
  if position < 0 ∨ g.grid.item_count ≤ position then .ok (g, false)
  else do
    let (nodes, will_focus, created) ← NodeViews.gridObtainItem alloc position g.nodes
    let nodes :=
      if created then
        (nodes.call (.setGridCell will_focus (position.tmod g.grid.column_count)
          (position.tdiv g.grid.column_count))).call (.bindView will_focus g.grid.data position)
      else nodes
    .ok ({ g with
      grid := { g.grid with focused_index := position },
      nodes := nodes.call (.sendFocused will_focus) }, true)

/-- One cell of a row that is shown. -/
def refreshCell (grid : Grid) (row_idx col_idx : Int) (nodes : NodeViews ν) :
    Except NodeFault (NodeViews ν) := do
  let position := row_idx * grid.column_count + col_idx
  let (nodes, item, created) ← NodeViews.gridObtainItem alloc position nodes
  let nodes := if created then nodes.call (.setGridCell item col_idx row_idx) else nodes
  .ok (nodes.call (.bindView item grid.data position))

/-- The cells of a row from `col_idx` on, with `n` columns to go. -/
def refreshCols (grid : Grid) (row_idx : Int) :
    (n : Nat) → (col_idx : Int) → NodeViews ν → Except NodeFault (NodeViews ν)
  | 0, _, nodes => .ok nodes
  | n + 1, col_idx, nodes =>
      if grid.item_count ≤ row_idx * grid.column_count + col_idx then .ok nodes
      else do
        let nodes ← refreshCell alloc grid row_idx col_idx nodes
        refreshCols grid row_idx n (col_idx + 1) nodes

/-- The end of `fill_rows`: focus an item that was waited for. -/
def focusAvailable (g : NodeGrid ν) : Except NodeFault (NodeGrid ν) :=
  if 0 ≤ g.grid.focus_when_available ∧ g.grid.focus_when_available < g.grid.item_count then do
    let (g, _) ← lvGridviewFocus alloc g.grid.focus_when_available g
    .ok { g with grid := { g.grid with focus_when_available := -1 } }
  else .ok g

/-- `fill_rows`.  The second result tells whether it got past its range
check. -/
def fillRows (row_start row_end : Int) (g : NodeGrid ν) : Except NodeFault (NodeGrid ν × Bool) :=
  if row_start < 0 ∨ row_end < 0 ∨ row_end < row_start then .ok (g, false)
  else do
    let grid := g.grid
    let nodes ← g.nodes.recycleRows alloc grid.column_count grid.item_count
      (max 0 grid.row_start) row_start false
    let nodes ← nodes.recycleRows alloc grid.column_count grid.item_count
      (max 0 (row_end + 1)) (grid.row_end + 1) false
    (inInt (fillInts row_start row_end grid)).mapError .fault
    let nodes ← Loop.up row_start (row_end + 1) (fun row_idx nodes =>
      refreshCols alloc grid row_idx grid.column_count.toNat 0 nodes) nodes
    let g ← focusAvailable alloc { g with grid := { grid with row_start, row_end }, nodes }
    .ok (g, true)

/-- The second part of `update_grid`: data changes, and `fill_rows`. -/
def renderGrid (render : Render) (g : NodeGrid ν) : Except NodeFault (NodeGrid ν × Bool) := do
  let grid := g.grid
  let expect_item_count := if grid.num_changes ≤ 0 then grid.item_count else grid.old_item_count
  let changes ← (pendingChanges grid).mapError .fault
  (inInt (changesInts (render.maxItemEnd grid.column_count) changes expect_item_count)).mapError
    .fault
  let (expect_item_count, nodes) ← g.nodes.changeLoop alloc grid.column_count
    (render.itemStart grid.column_count) (render.maxItemEnd grid.column_count) changes
    expect_item_count
  if expect_item_count = grid.item_count then
    fillRows alloc render.row_start render.row_end { g with nodes }
  else .error (.fault .itemCount)

/-- `update_grid`. -/
def updateGrid (coord : Int → Int) (scroll_y : Int) (g : NodeGrid ν) :
    Except NodeFault (NodeGrid ν × Bool) :=
  if g.grid.content_height ≤ 0 then .ok (g, false)
  else do
    let render ← (renderRows coord scroll_y g.grid).mapError .fault
    (inInt (render.ints g.grid.column_count)).mapError .fault
    renderGrid alloc render g

/-! ## Operations -/

/-- Scrap all views, if there is reason to. -/
def scrapViews (scrap : Bool) (g : NodeGrid ν) : Except NodeFault (NodeGrid ν) :=
  if scrap then clearRows alloc g else .ok g

/-- `lv_gridview_set_config`. -/
def lvGridviewSetConfig (coord : Int → Int) (col_count row_height scroll_y : Int)
    (g : NodeGrid ν) : Except NodeFault (NodeGrid ν × Bool) := do
  let column_count_changed := g.grid.column_count != col_count
  let g ← scrapViews alloc column_count_changed g
  let grid ← (configure col_count row_height column_count_changed g.grid).mapError .fault
  if column_count_changed then updateGrid alloc coord scroll_y { g with grid }
  else .ok ({ g with grid }, false)

/-- `lv_gridview_set_data_advanced`. -/
def lvGridviewSetDataAdvanced (coord : Int → Int) (data : Option (Nat × Int))
    (changes : Option (List Change)) (num_changes scroll_y : Int) (g : NodeGrid ν) :
    Except NodeFault (NodeGrid ν × Bool) := do
  let g ← scrapViews alloc (changes.isNone || num_changes < 0) g
  let grid ← (loadData data changes num_changes g.grid).mapError .fault
  let (g, filled) ← updateGrid alloc coord scroll_y { g with grid }
  .ok ({ g with grid := dropChanges g.grid }, filled)

/-- `LV_EVENT_SIZE_CHANGED` and `LV_EVENT_STYLE_CHANGED`. -/
def sizeChanged (coord : Int → Int) (content_height pad_row pad_top pad_bottom scroll_y : Int)
    (g : NodeGrid ν) : Except NodeFault (NodeGrid ν × Bool) :=
  let (grid, changed) := updateSizes content_height pad_row pad_top pad_bottom g.grid
  if changed then updateGrid alloc coord scroll_y { g with grid } else .ok ({ g with grid }, false)

/-- `lv_gridview_create`, with `lv_gridview_constructor`. -/
def lvGridviewCreate (coord : Int → Int) (scroll_y : Int) : Except NodeFault (NodeGrid ν) := do
  let zeroed : NodeGrid ν :=
    { grid := Grid.zeroed, nodes := ⟨fun _ => none, none, none, 0, []⟩, key_focus_clamp := false }
  let (g, _) ← lvGridviewSetConfig alloc coord 1 1 scroll_y zeroed
  .ok { g with
    grid := { g.grid with
      row_start := -1, row_end := -1, focused_index := -1, focus_when_available := -1 } }

/-- An operation. -/
def runOp (coord : Int → Int) (g : NodeGrid ν) : Op → Except NodeFault (NodeGrid ν × Bool)
  | .setConfig col_count row_height scroll_y =>
      lvGridviewSetConfig alloc coord col_count row_height scroll_y g
  | .setData data scroll_y => lvGridviewSetDataAdvanced alloc coord data none 0 scroll_y g
  | .setDataAdvanced data changes num_changes scroll_y =>
      lvGridviewSetDataAdvanced alloc coord data changes num_changes scroll_y g
  | .focus position => do
      let (g, _) ← lvGridviewFocus alloc position g
      .ok (g, false)
  | .focusWhenAvailable position =>
      .ok ({ g with grid := lvGridviewFocusWhenAvailable position g.grid }, false)
  | .scroll scroll_y => updateGrid alloc coord scroll_y g
  | .sizeChanged content_height pad_row pad_top pad_bottom scroll_y =>
      sizeChanged alloc coord content_height pad_row pad_top pad_bottom scroll_y g

/-! ## Events -/

/-- `key_cb`. -/
def keyCb (key : Key) (g : NodeGrid ν) : Except NodeFault (NodeGrid ν) := do
  let keyGrid : KeyGrid := { g.grid with key_focus_clamp := g.key_focus_clamp }
  (inInt (keyInts key keyGrid)).mapError .fault
  match keyTarget key keyGrid with
  | none => .ok g
  | some position => do
      let (g, _) ← lvGridviewFocus alloc position g
      .ok g

/-- How the loops of `lv_gridview_rebind` are left before their end. -/
inductive Left (ν : Type)
  | returned (nodes : NodeViews ν)
  | fault (fault : NodeFault)

/-- A round of `lv_gridview_rebind`. -/
def rebindCell (grid : Grid) (row_idx col_idx : Int) (nodes : NodeViews ν) :
    Except (Left ν) (NodeViews ν) := do
  let position := row_idx * grid.column_count + col_idx
  if grid.item_count ≤ position then .ok nodes
  else
    match ← (nodeAt nodes position).mapError .fault with
    | none => .error (.returned nodes)
    | some (_, item) => .ok (nodes.call (.bindView item grid.data position))

/-- The loops of `lv_gridview_rebind`. -/
def rebindRows (g : NodeGrid ν) : Except (Left ν) (NodeViews ν) :=
  Loop.up (max 0 g.grid.row_start) (g.grid.row_end + 1)
    (fun row_idx => Loop.up 0 g.grid.column_count (rebindCell g.grid row_idx)) g.nodes

/-- `lv_gridview_rebind`. -/
def lvGridviewRebind (g : NodeGrid ν) : Except NodeFault (NodeGrid ν) :=
  match rebindRows g with
  | .ok nodes => do
      (inInt (lastPosition g.grid.column_count (max 0 g.grid.row_start)
        (g.grid.row_end + 1))).mapError .fault
      .ok { g with nodes }
  | .error (.returned nodes) => .ok { g with nodes }
  | .error (.fault e) => .error e

/-- `lv_gridview_rebind_item`. -/
def lvGridviewRebindItem (position : Int) (g : NodeGrid ν) : Except NodeFault (NodeGrid ν) := do
  match ← nodeAt g.nodes position with
  | none => .ok g
  | some (_, item) => .ok { g with nodes := g.nodes.call (.bindView item g.grid.data position) }

/-- The grid after an event. -/
def runEvent (coord : Int → Int) (g : NodeGrid ν) : Event → Except NodeFault (NodeGrid ν)
  | .op operation => do
      let (g, _) ← runOp alloc coord g operation
      .ok g
  | .key pressed => keyCb alloc pressed g
  | .cancel => do
      let (g, _) ← lvGridviewFocus alloc (-1) g
      .ok g
  | .setKeyFocusClamp enable => .ok { g with key_focus_clamp := enable }
  | .rebind => lvGridviewRebind g
  | .rebindItem position => lvGridviewRebindItem position g
  | .itemDelete obj => do
      let nodes ← g.nodes.itemDeleteCb obj
      .ok { g with nodes }

/-- A grid from its creation on. -/
def run (coord : Int → Int) (scroll_y : Int) (events : List Event) :
    Except NodeFault (NodeGrid ν) := do
  let g ← lvGridviewCreate alloc coord scroll_y
  events.foldlM (runEvent alloc coord) g

end NodeGrid

/-- The grid of the model from its creation on. -/
def KeyGrid.run (coord : Int → Int) (scroll_y : Int) (events : List Event) :
    Except Fault KeyGrid := do
  let grid ← lvGridviewCreate coord scroll_y
  events.foldlM (Event.run coord) { grid with key_focus_clamp := false }

end CommonsC.GridView
