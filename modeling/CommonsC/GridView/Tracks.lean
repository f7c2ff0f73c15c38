import CommonsC.Base.Blocks
import CommonsC.Base.Refines
import CommonsC.GridView.Refinement
import CommonsC.GridView.Rows

/-!
# CommonsC.GridView.Tracks

The tracks of the grid layout: `col_dsc`, `row_dsc` and the placeholder of
`lvgl/widgets/gridview/lv_gridview.c`.

LVGL lays out the views by two arrays that the grid allocates and hands over with
`lv_obj_set_grid_dsc_array`; an array ends with `LV_GRID_TEMPLATE_LAST`.  The
placeholder is an object in the last row, which keeps the content as high as all
rows.  The functions are those of `CommonsC.GridView.Model` with these fields, on
a heap that has the arrays.  `lv_mem_realloc` always moves an array, and memory
does not run out.
-/

namespace CommonsC.GridView

open Blocks

/-! ## Arrays of tracks -/

/-- An entry of `col_dsc` or `row_dsc`: `LV_GRID_FR`, a height, or
`LV_GRID_TEMPLATE_LAST`. -/
inductive Track
  | fr (share : Int)
  | height (row_height : Int)
  | last
deriving DecidableEq, Repr

/-- An array in memory.  An entry that was not written is `none`. -/
structure Dsc where
  block : Nat
  tracks : List (Option Track)

/-- `lv_mem_realloc` of an array. -/
def memRealloc (dsc : Option Dsc) (size : Nat) (heap : Blocks.Heap) :
    Except NodeFault (Dsc × Blocks.Heap) :=
  match dsc with
  | none => .ok (⟨heap.alloc.1, List.replicate size none⟩, heap.alloc.2)
  | some dsc => do
      let (block, heap) ← access (heap.realloc dsc.block)
      .ok (⟨block, dsc.tracks.take size ++ List.replicate (size - dsc.tracks.length) none⟩, heap)

/-- `dsc[i] = track`. -/
def writeTrack (i : Int) (track : Track) (tracks : List (Option Track)) :
    Except NodeFault (List (Option Track)) :=
  access (if 0 ≤ i ∧ i < tracks.length then some (tracks.set i.toNat (some track)) else none)

/-- `count` entries and `LV_GRID_TEMPLATE_LAST`, in the array reallocated. -/
def updateDsc (count : Int) (track : Track) (dsc : Option Dsc) (heap : Blocks.Heap) :
    Except NodeFault (Dsc × Blocks.Heap) := do
  (inInt [count + 1]).mapError .fault
  let (dsc, heap) ← memRealloc dsc (count + 1).toNat heap
  let tracks ← Loop.up 0 count (fun i => writeTrack i track) dsc.tracks
  let tracks ← writeTrack count .last tracks
  .ok ({ dsc with tracks }, heap)

/-! ## The grid -/

/-- The fields of `lv_grid_t` for the layout, and what LVGL knows of them: the cell
of the placeholder, and the arrays of `lv_obj_set_grid_dsc_array`. -/
structure Layout where
  heap : Blocks.Heap
  col_dsc : Option Dsc
  row_dsc : Option Dsc
  placeholder : Option (Option (Int × Int))
  col_template : Option Nat
  row_template : Option Nat

/-- `lv_grid_t`. -/
structure LaidGrid extends KeyGrid where
  layout : Layout

namespace LaidGrid

/-- `update_col_dsc`. -/
def updateColDsc (g : LaidGrid) : Except NodeFault LaidGrid := do
  let (dsc, heap) ← updateDsc g.column_count (.fr 1) g.layout.col_dsc g.layout.heap
  .ok { g with layout := { g.layout with heap, col_dsc := some dsc } }

/-- `update_row_dsc`. -/
def updateRowDsc (row_count : Int) (g : LaidGrid) : Except NodeFault LaidGrid := do
  let row_count := if row_count = 0 then 1 else row_count
  if row_count ≤ 0 then .error (.fault .rowCount)
  else do
    let (dsc, heap) ← updateDsc row_count (.height g.row_height) g.layout.row_dsc g.layout.heap
    .ok { g with layout := { g.layout with heap, row_dsc := some dsc } }

/-- `update_row_count`. -/
def updateRowCount (row_count : Int) (g : LaidGrid) : Except NodeFault LaidGrid :=
  if row_count ≤ 0 then .ok g
  else do
    let _ ← access g.layout.placeholder
    let layout := { g.layout with placeholder := some (some (0, row_count - 1)) }
    .ok { g with row_count, layout }

/-- `lv_obj_set_grid_dsc_array`. -/
def setGridDscArray (g : LaidGrid) : LaidGrid :=
  { g with
    layout := { g.layout with
      col_template := g.layout.col_dsc.map Dsc.block
      row_template := g.layout.row_dsc.map Dsc.block } }

/-- `update_grid`. -/
def updateGrid (coord : Int → Int) (scroll_y : Int) (g : LaidGrid) : Except NodeFault LaidGrid := do
  let (grid, _) ← (GridView.updateGrid coord scroll_y g.toGrid).mapError .fault
  .ok { g with toGrid := grid }

/-- The row count that goes with the item count. -/
def recount (g : LaidGrid) : Except NodeFault LaidGrid := do
  let row_count ← (countRows g.item_count g.column_count).mapError .fault
  g.updateRowCount row_count

/-- What `lv_gridview_set_config` does between `clear_rows` and
`update_grid`. -/
def configure (col_count row_height : Int) (column_count_changed : Bool) (g : LaidGrid) :
    Except NodeFault LaidGrid := do
  let g ← { g with column_count := col_count, row_height }.updateColDsc
  let g ← cond column_count_changed g.recount (.ok g)
  let g ← g.updateRowDsc g.row_count
  .ok g.setGridDscArray

/-- `lv_gridview_set_config`. -/
def lvGridviewSetConfig (coord : Int → Int) (col_count row_height scroll_y : Int) (g : LaidGrid) :
    Except NodeFault LaidGrid := do
  let column_count_changed := g.column_count != col_count
  let views ← (scrapViews column_count_changed g.toGrid).mapError .fault
  let g ← { g with views }.configure col_count row_height column_count_changed
  if column_count_changed then g.updateGrid coord scroll_y else .ok g

/-- What `lv_gridview_set_data_advanced` does before `update_grid`, but for
`clear_rows`. -/
def loadData (data : Option (Nat × Int)) (changes : Option (List Change)) (num_changes : Int)
    (g : LaidGrid) : Except NodeFault LaidGrid :=
  let g := { g with
    old_item_count := g.item_count, changes, num_changes, data := data.map Prod.fst }
  match data with
  | none => .ok g
  | some (_, item_count) =>
      if g.item_count = item_count then .ok g
      else do
        let row_count ← (countRows item_count g.column_count).mapError .fault
        let g ← { g with item_count }.updateRowDsc row_count
        g.setGridDscArray.updateRowCount row_count

/-- `lv_gridview_set_data_advanced`. -/
def lvGridviewSetDataAdvanced (coord : Int → Int) (data : Option (Nat × Int))
    (changes : Option (List Change)) (num_changes scroll_y : Int) (g : LaidGrid) :
    Except NodeFault LaidGrid := do
  let views ← (scrapViews (changes.isNone || num_changes < 0) g.toGrid).mapError .fault
  let g ← { g with views }.loadData data changes num_changes
  let g ← g.updateGrid coord scroll_y
  .ok { g with toGrid := dropChanges g.toGrid }

/-- A grid in the memory that `lv_obj_class_create_obj` has cleared. -/
def zeroed : LaidGrid :=
  { Grid.zeroed with
    key_focus_clamp := false
    layout := ⟨Blocks.Heap.empty, none, none, none, none, none⟩ }

/-- `lv_gridview_create`, with `lv_gridview_constructor`. -/
def lvGridviewCreate (coord : Int → Int) (scroll_y : Int) : Except NodeFault LaidGrid := do
  let g ← lvGridviewSetConfig coord 1 1 scroll_y zeroed
  .ok { g with
    row_start := -1, row_end := -1, focused_index := -1, focus_when_available := -1
    layout := { g.layout with placeholder := some none } }

/-- What `lv_gridview_destructor` does to the arrays. -/
def lvGridviewDestructor (g : LaidGrid) : Except NodeFault Blocks.Heap := do
  let heap ← access (g.layout.heap.freeIf (g.layout.row_dsc.map Dsc.block))
  access (heap.freeIf (g.layout.col_dsc.map Dsc.block))

/-- The grid after an event. -/
def runEvent (coord : Int → Int) (g : LaidGrid) : Event → Except NodeFault LaidGrid
  | .op (.setConfig col_count row_height scroll_y) =>
      g.lvGridviewSetConfig coord col_count row_height scroll_y
  | .op (.setData data scroll_y) => g.lvGridviewSetDataAdvanced coord data none 0 scroll_y
  | .op (.setDataAdvanced data changes num_changes scroll_y) =>
      g.lvGridviewSetDataAdvanced coord data changes num_changes scroll_y
  | event => do
      let grid ← (event.run coord g.toKeyGrid).mapError .fault
      .ok { g with toKeyGrid := grid }

/-- A grid from its creation on. -/
def run (coord : Int → Int) (scroll_y : Int) (events : List Event) :
    Except NodeFault LaidGrid := do
  let g ← lvGridviewCreate coord scroll_y
  events.foldlM (runEvent coord) g

end LaidGrid

/-! ## What is written -/

/-- An array of `count` entries with its end. -/
def written (count : ℕ) (track : Track) : List (Option Track) :=
  List.replicate count (some track) ++ [some .last]

theorem writeTrack_seam (before : List (Option Track)) (track : Track) (old : Option Track)
    (after : List (Option Track)) :
    writeTrack before.length track (before ++ old :: after) =
      .ok (before ++ some track :: after) := by
  have hlt : (before.length : ℤ) < ((before ++ old :: after).length : ℤ) := by
    rw [List.length_append, List.length_cons]
    omega
  rw [writeTrack, if_pos ⟨Int.natCast_nonneg _, hlt⟩, Int.toNat_natCast]
  simp [access]

theorem memRealloc_spec {dsc : Option Dsc} (size : ℕ) {heap : Blocks.Heap} {bs : Multiset ℕ}
    (hown : Owned heap (blockOf (dsc.map Dsc.block) + bs)) :
    ∃ dsc' heap', memRealloc dsc size heap = .ok (dsc', heap') ∧ dsc'.tracks.length = size ∧
      Owned heap' ({dsc'.block} + bs) := by
  cases dsc with
  | none => exact ⟨_, _, rfl, List.length_replicate, (hown.congr (zero_add bs)).alloc⟩
  | some dsc =>
      obtain ⟨block, heap', hrealloc, hown'⟩ := hown.realloc
      refine ⟨⟨block, dsc.tracks.take size ++ List.replicate (size - dsc.tracks.length) none⟩,
        heap', ?_, ?_, hown'⟩
      · rw [memRealloc, hrealloc]
        rfl
      · rw [List.length_append, List.length_take, List.length_replicate]
        omega

/-- The loop over the entries before the last. -/
theorem writeTracks_spec (n : ℕ) (track : Track) {tracks : List (Option Track)}
    (hlength : tracks.length = n + 1) :
    ∃ old, Loop.up 0 (n : ℤ) (fun i => writeTrack i track) tracks =
      .ok (List.replicate n (some track) ++ [old]) := by
  have hround : ∀ (i : ℤ) (tracks : List (Option Track)), 0 ≤ i → i < n → (∃ rest,
      tracks = List.replicate i.toNat (some track) ++ rest ∧ rest.length + i.toNat = n + 1) →
      ∃ tracks', writeTrack i track tracks = .ok tracks' ∧ ∃ rest,
        tracks' = List.replicate (i + 1).toNat (some track) ++ rest ∧
        rest.length + (i + 1).toNat = n + 1 := by
    rintro i _ hlo hlt ⟨rest, rfl, hrest⟩
    obtain ⟨k, rfl⟩ := Int.eq_ofNat_of_zero_le hlo
    rw [Int.toNat_natCast] at hrest
    cases rest with
    | nil =>
        rw [List.length_nil] at hrest
        omega
    | cons old rest =>
        have hwrite := writeTrack_seam (List.replicate k (some track)) track old rest
        rw [List.length_replicate] at hwrite
        have hnext : ((k : ℤ) + 1).toNat = k + 1 := by omega
        rw [List.length_cons] at hrest
        refine ⟨_, hwrite, rest, ?_, by omega⟩
        rw [hnext, List.replicate_succ', List.append_assoc, List.singleton_append]
  obtain ⟨_, hloop, rest, rfl, hrest⟩ :=
    Loop.up_ok (Int.natCast_nonneg n) ⟨tracks, rfl, hlength⟩ hround
  rw [Int.toNat_natCast] at hloop hrest
  obtain ⟨old, rfl⟩ := List.length_eq_one_iff.1 (show rest.length = 1 by omega)
  exact ⟨old, hloop⟩

/-- **An array is written**: nothing outside of it is, and no entry is left out. -/
theorem updateDsc_spec {count : ℤ} (hcount : 0 ≤ count) (hint : inInt [count + 1] = .ok ())
    (track : Track) {dsc : Option Dsc} {heap : Blocks.Heap} {bs : Multiset ℕ}
    (hown : Owned heap (blockOf (dsc.map Dsc.block) + bs)) :
    ∃ block heap',
      updateDsc count track dsc heap = .ok (⟨block, written count.toNat track⟩, heap') ∧
      Owned heap' ({block} + bs) := by
  obtain ⟨n, rfl⟩ := Int.eq_ofNat_of_zero_le hcount
  obtain ⟨⟨block, tracks⟩, heap', hrealloc, hlength, hown'⟩ := memRealloc_spec (n + 1) hown
  obtain ⟨old, hloop⟩ := writeTracks_spec n track hlength
  have hwrite := writeTrack_seam (List.replicate n (some track)) .last old []
  rw [List.length_replicate] at hwrite
  have hsize : ((n : ℤ) + 1).toNat = n + 1 := by omega
  refine ⟨block, heap', ?_, hown'⟩
  rw [updateDsc, hint]
  simp only [Except.mapError, hsize, hrealloc, hloop, hwrite, Bind.bind, Except.bind]
  rfl

/-- The size of an array can overflow. -/
theorem updateDsc_of_overflow {count : ℤ} (hint : inInt [count + 1] = .error .overflow)
    (track : Track) (dsc : Option Dsc) (heap : Blocks.Heap) :
    updateDsc count track dsc heap = .error (.fault .overflow) := by
  rw [updateDsc, hint]
  rfl

/-! ## What the functions do -/

/-- The cell of the last row, if there are rows. -/
def lastRowCell (row_count : ℤ) : Option (ℤ × ℤ) :=
  if row_count ≤ 0 then none else some (0, row_count - 1)

namespace LaidGrid

theorem updateColDsc_spec {g : LaidGrid} (hcols : 0 ≤ g.column_count)
    (hint : inInt [g.column_count + 1] = .ok ()) (bs : Multiset ℕ)
    (hown : Owned g.layout.heap (blockOf (g.layout.col_dsc.map Dsc.block) + bs)) :
    ∃ col heap, g.updateColDsc = .ok { g with
        layout := { g.layout with
          heap, col_dsc := some ⟨col, written g.column_count.toNat (.fr 1)⟩ } } ∧
      Owned heap ({col} + bs) := by
  obtain ⟨col, heap, hdsc, hown'⟩ := updateDsc_spec hcols hint (.fr 1) hown
  refine ⟨col, heap, ?_, hown'⟩
  rw [updateColDsc, hdsc]
  rfl

/-- The rows of the array: there is one without items. -/
theorem rows_eq_max {row_count : ℤ} (hrows : 0 ≤ row_count) :
    (if row_count = 0 then 1 else row_count) = max 1 row_count := by
  split <;> omega

theorem updateRowDsc_spec {g : LaidGrid} {row_count : ℤ} (hrows : 0 ≤ row_count)
    (hint : inInt [max 1 row_count + 1] = .ok ()) (bs : Multiset ℕ)
    (hown : Owned g.layout.heap (blockOf (g.layout.row_dsc.map Dsc.block) + bs)) :
    ∃ row heap, g.updateRowDsc row_count = .ok { g with
        layout := { g.layout with
          heap, row_dsc := some ⟨row, written (max 1 row_count).toNat (.height g.row_height)⟩ } } ∧
      Owned heap ({row} + bs) := by
  obtain ⟨row, heap, hdsc, hown'⟩ :=
    updateDsc_spec (show 0 ≤ max 1 row_count by omega) hint (.height g.row_height) hown
  refine ⟨row, heap, ?_, hown'⟩
  have hpos : ¬max 1 row_count ≤ 0 := by omega
  simp only [updateRowDsc, rows_eq_max hrows, if_neg hpos, hdsc, Bind.bind, Except.bind]

theorem updateRowDsc_of_overflow (g : LaidGrid) {row_count : ℤ} (hrows : 0 ≤ row_count)
    (hint : inInt [max 1 row_count + 1] = .error .overflow) :
    g.updateRowDsc row_count = .error (.fault .overflow) := by
  have hpos : ¬max 1 row_count ≤ 0 := by omega
  simp only [updateRowDsc, rows_eq_max hrows, if_neg hpos, updateDsc_of_overflow hint, Bind.bind,
    Except.bind]

theorem updateRowDsc_of_neg {g : LaidGrid} {row_count : ℤ} (hrows : row_count < 0) :
    g.updateRowDsc row_count = .error (.fault .rowCount) := by
  have hne : row_count ≠ 0 := by omega
  simp only [updateRowDsc, if_neg hne, if_pos hrows.le]

/-- The placeholder goes to the last row. -/
theorem updateRowCount_spec {g : LaidGrid} (row_count : ℤ)
    (hplaceholder : g.layout.placeholder = some (lastRowCell g.row_count)) :
    g.updateRowCount row_count = .ok { g with
      toGrid := GridView.updateRowCount row_count g.toGrid
      layout := { g.layout with
        placeholder :=
          some (lastRowCell (GridView.updateRowCount row_count g.toGrid).row_count) } } := by
  rw [updateRowCount, GridView.updateRowCount]
  split
  · rw [← hplaceholder]
  · next hpos =>
      have hcell : some (0, row_count - 1) = lastRowCell row_count := (if_neg hpos).symm
      rw [hplaceholder]
      exact congrArg (fun cell => Except.ok ({ g with
        row_count, layout := { g.layout with placeholder := some cell } } : LaidGrid)) hcell

end LaidGrid

/-! ## What the tracks depend on -/

/-- The sizes of the grid. -/
def Grid.dims (grid : Grid) : ℤ × ℤ × ℤ × ℤ :=
  (grid.column_count, grid.row_height, grid.item_count, grid.row_count)

/-- The operations that lay out the grid. -/
def Event.LaysOut : Event → Prop
  | .op (.setConfig ..) | .op (.setData ..) | .op (.setDataAdvanced ..) => True
  | _ => False

theorem Focused.dims_eq {position : ℤ} {grid grid' : Grid} (h : Focused position grid grid') :
    grid'.dims = grid.dims := by
  cases h <;> rfl

theorem updateGrid_dims {coord : ℤ → ℤ} {scroll_y : ℤ} {grid grid' : Grid} {filled : Bool}
    (h : updateGrid coord scroll_y grid = .ok (grid', filled)) : grid'.dims = grid.dims := by
  rcases updateGrid_parts h with ⟨-, rfl, -⟩ | ⟨render, views, -, hfill⟩
  · rfl
  · rcases fillRows_cases hfill with ⟨-, rfl, -⟩ | ⟨-, -, -, -, shown, -, -, -, rfl⟩
    · rfl
    · rw [focusAvailable]
      split
      · exact (lvGridviewFocus_cases _ _).dims_eq
      · rfl

theorem lvGridviewRebindItem_dims (position : ℤ) (grid : Grid) :
    (lvGridviewRebindItem position grid).dims = grid.dims := by
  rw [lvGridviewRebindItem]
  cases viewPoolNodeByPosition grid.views.pool_inuse position <;> rfl

theorem Ran.dims_eq {coord : ℤ → ℤ} {grid grid' : Grid} {operation : Op} {filled : Bool}
    (h : Ran coord grid operation grid' filled) (hother : ¬(Event.op operation).LaysOut) :
    grid'.dims = grid.dims := by
  cases h with
  | reconfigured | configured | reloaded | loaded => exact absurd trivial hother
  | focused hfocused => exact hfocused.dims_eq
  | awaited | sized => rfl
  | scrolled hupdate => exact updateGrid_dims hupdate
  | resized _ hupdate => exact (updateGrid_dims hupdate).trans rfl

/-- Other events leave the sizes as they are. -/
theorem run_dims {coord : ℤ → ℤ} {grid grid' : KeyGrid} {event : Event}
    (hother : ¬event.LaysOut) (h : event.run coord grid = .ok grid') :
    grid'.dims = grid.dims := by
  cases event with
  | op operation =>
      obtain ⟨filled, hran⟩ := run_op h
      exact hran.dims_eq hother
  | key pressed =>
      rcases keyCb_cases h with rfl | ⟨position, -, rfl⟩
      · rfl
      · exact (lvGridviewFocus_cases position grid.toGrid).dims_eq
  | cancel =>
      cases h
      exact (lvGridviewFocus_cases (-1) grid.toGrid).dims_eq
  | setKeyFocusClamp | itemDelete =>
      cases h
      rfl
  | rebind =>
      obtain ⟨rebound, hrebind, rfl⟩ := run_rebind h
      obtain ⟨views, -, rfl⟩ := lvGridviewRebind_cases hrebind
      rfl
  | rebindItem position =>
      cases h
      exact lvGridviewRebindItem_dims position grid.toGrid

/-- How many rows there are in the array.  Without items the row count is that of
earlier ones. -/
def RowsFor (column_count item_count row_count : ℤ) (rows : ℕ) : Prop :=
  if 0 < item_count then
    row_count = (item_count + column_count - 1) / column_count ∧ (rows : ℤ) = row_count
  else rows = 1 ∨ (rows : ℤ) = max 1 row_count

/-- What LVGL has of the grid: the two arrays, which are all that is allocated, and
the cell of the placeholder. -/
structure Lays (g : LaidGrid) (rows : ℕ) : Prop where
  cols_pos : 0 < g.column_count
  row_count : 0 ≤ g.row_count
  rows_for : RowsFor g.column_count g.item_count g.row_count rows
  layout : ∃ heap col row, Owned heap ({col} + {row}) ∧ g.layout =
    { heap := heap
      col_dsc := some ⟨col, written g.column_count.toNat (.fr 1)⟩
      row_dsc := some ⟨row, written rows (.height g.row_height)⟩
      placeholder := some (lastRowCell g.row_count)
      col_template := some col
      row_template := some row }

theorem Lays.of_dims {g : LaidGrid} {rows : ℕ} (h : Lays g rows) {grid : KeyGrid}
    (hdims : grid.dims = g.dims) : Lays { g with toKeyGrid := grid } rows := by
  obtain ⟨hcols, hheight, hitems, hrows⟩ : grid.column_count = g.column_count ∧
      grid.row_height = g.row_height ∧ grid.item_count = g.item_count ∧
        grid.row_count = g.row_count := by
    simpa [Grid.dims] using hdims
  refine ⟨?_, ?_, ?_, ?_⟩
  · exact hcols ▸ h.cols_pos
  · exact hrows ▸ h.row_count
  · change RowsFor grid.column_count grid.item_count grid.row_count rows
    rw [hcols, hitems, hrows]
    exact h.rows_for
  · change ∃ heap col row, Owned heap ({col} + {row}) ∧ g.layout =
      ⟨heap, some ⟨col, written grid.column_count.toNat (.fr 1)⟩,
        some ⟨row, written rows (.height grid.row_height)⟩, some (lastRowCell grid.row_count),
        some col, some row⟩
    rw [hcols, hheight, hrows]
    exact h.layout

/-! ## Operations -/

/-- The model has the same grid, and LVGL its tracks. -/
structure SameTracks (clamp : Bool) (g : LaidGrid) (grid : Grid) : Prop where
  same : g.toKeyGrid = { grid with key_focus_clamp := clamp }
  lays : ∃ rows, Lays g rows

theorem SameTracks.updateGrid {clamp : Bool} {g : LaidGrid} {grid : Grid}
    (h : SameTracks clamp g grid) (coord : ℤ → ℤ) (scroll_y : ℤ) :
    Refines (fun g result => SameTracks clamp g result.1) IsFault (g.updateGrid coord scroll_y)
      (GridView.updateGrid coord scroll_y grid) := by
  obtain ⟨hsame, rows, hlays⟩ := h
  have hgrid : g.toGrid = grid := by rw [hsame]
  have hclamp : g.key_focus_clamp = clamp := by rw [hsame]
  rw [LaidGrid.updateGrid, hgrid]
  cases hrun : GridView.updateGrid coord scroll_y grid with
  | error e => exact .error (isFault e)
  | ok result =>
      refine .ok ⟨by rw [← hclamp], rows, ?_⟩
      have hdims : ({ g.toKeyGrid with toGrid := result.1 } : KeyGrid).dims = g.dims :=
        (updateGrid_dims hrun).trans (by rw [hgrid])
      exact hlays.of_dims hdims

/-- The columns and the placeholder are up to date. -/
structure HasColumns (g : LaidGrid) : Prop where
  row_count : 0 ≤ g.row_count
  layout : ∃ heap col row tracks col_template row_template, Owned heap ({col} + {row}) ∧ g.layout =
    { heap := heap
      col_dsc := some ⟨col, written g.column_count.toNat (.fr 1)⟩
      row_dsc := some ⟨row, tracks⟩
      placeholder := some (lastRowCell g.row_count)
      col_template := col_template
      row_template := row_template }

/-- The row count is that of the items, if there are items. -/
structure Counted (grid : Grid) : Prop where
  cols_pos : 0 < grid.column_count
  row_count : 0 < grid.item_count →
    grid.row_count = (grid.item_count + grid.column_count - 1) / grid.column_count ∧
      0 < grid.row_count

/-- Rows for items. -/
theorem tdiv_rows (item_count : ℤ) {column_count : ℤ} (hcols : 0 < column_count) :
    (0 < item_count → (item_count + column_count - 1).tdiv column_count =
        (item_count + column_count - 1) / column_count ∧
      0 < (item_count + column_count - 1) / column_count) ∧
      (item_count ≤ 0 → (item_count + column_count - 1).tdiv column_count ≤ 0) := by
  refine ⟨fun hitems => ?_, fun hitems => ?_⟩
  · rw [Int.tdiv_eq_ediv_of_nonneg (by omega)]
    exact ⟨rfl, Int.le_ediv_of_mul_le hcols (by omega)⟩
  · by_cases hpos : 0 ≤ item_count + column_count - 1
    · rw [Int.tdiv_eq_ediv_of_nonneg hpos, Int.ediv_eq_zero_of_lt hpos (by omega)]
    · have hneg := Int.tdiv_nonneg (show 0 ≤ -(item_count + column_count - 1) by omega) hcols.le
      rw [Int.neg_tdiv] at hneg
      omega

/-- The rows that are counted, where nothing overflows. -/
theorem countRows_rows {item_count column_count row_count : ℤ} (hcols : 0 ≤ column_count)
    (h : countRows item_count column_count = .ok row_count) :
    0 < column_count ∧
      (0 < item_count → row_count = (item_count + column_count - 1) / column_count ∧
        0 < row_count) ∧ (item_count ≤ 0 → row_count ≤ 0) := by
  obtain ⟨-, -, h⟩ := Loop.of_bind h
  rw [ceilDivide] at h
  split at h
  · cases h
  · next hne =>
      cases h
      have hpos : 0 < column_count := by omega
      obtain ⟨hitems, hnone⟩ := tdiv_rows item_count hpos
      exact ⟨hpos, fun h => ⟨(hitems h).1, (hitems h).1 ▸ (hitems h).2⟩, hnone⟩

theorem Lays.counted {g : LaidGrid} {rows : ℕ} (h : Lays g rows) : Counted g.toGrid := by
  refine ⟨h.cols_pos, fun hitems => ?_⟩
  have hrows := h.rows_for
  rw [RowsFor, if_pos hitems] at hrows
  exact ⟨hrows.1, hrows.1 ▸ ((tdiv_rows g.item_count h.cols_pos).1 hitems).2⟩

/-- The rows are written for the row count, and LVGL gets both arrays. -/
theorem HasColumns.layRows {g : LaidGrid} (h : HasColumns g) (hcounted : Counted g.toGrid)
    (hint : inInt [max 1 g.row_count + 1] = .ok ()) :
    ∃ g' rows, (g.updateRowDsc g.row_count >>= fun g => .ok g.setGridDscArray) = .ok g' ∧
      g'.toKeyGrid = g.toKeyGrid ∧ Lays g' rows := by
  obtain ⟨hrow_count, heap, col, row, tracks, _, _, hown, hlayout⟩ := h
  obtain ⟨row', heap', hdsc, hown'⟩ := LaidGrid.updateRowDsc_spec (g := g) hrow_count
    hint {col} (by rw [hlayout]; exact hown.congr (add_comm _ _))
  rw [hdsc]
  refine ⟨_, (max 1 g.row_count).toNat, rfl, rfl, hcounted.cols_pos, hrow_count, ?_, heap', col,
    row', hown'.congr (add_comm _ _), ?_⟩
  · change RowsFor g.column_count g.item_count g.row_count _
    rw [RowsFor]
    split
    · next hpos =>
        obtain ⟨hceil, hrows⟩ := hcounted.row_count hpos
        exact ⟨hceil, by omega⟩
    · exact .inr (by omega)
  · rw [LaidGrid.setGridDscArray, hlayout]
    rfl

theorem updateRowDsc_of_nonneg {row_count : ℤ} (h : 0 ≤ row_count) :
    GridView.updateRowDsc row_count = inInt [max 1 row_count + 1] := by
  have hpos : 0 < max 1 row_count := by omega
  rw [GridView.updateRowDsc, LaidGrid.rows_eq_max h]
  exact if_pos hpos

theorem updateColDsc_of_nonneg {column_count : ℤ} (h : 0 ≤ column_count) :
    GridView.updateColDsc column_count = inInt [column_count + 1] := by
  rw [GridView.updateColDsc, if_neg (not_lt.2 h)]
  rcases inInt_cases [column_count + 1] with hint | hint
  · rw [hint]
    rfl
  · rw [hint]
    rfl

theorem updateRowCount_nonneg (row_count : ℤ) {grid : Grid} (h : 0 ≤ grid.row_count) :
    0 ≤ (GridView.updateRowCount row_count grid).row_count := by
  rw [GridView.updateRowCount]
  split
  · exact h
  · next hpos => exact (not_le.1 hpos).le

theorem updateRowCount_counted {row_count : ℤ} {grid : Grid} (hcols : 0 < grid.column_count)
    (hrows : 0 < grid.item_count →
      row_count = (grid.item_count + grid.column_count - 1) / grid.column_count ∧ 0 < row_count) :
    Counted (GridView.updateRowCount row_count grid) := by
  rw [GridView.updateRowCount]
  split
  · next hnone => exact ⟨hcols, fun hitems => absurd (hrows hitems).2 (by omega)⟩
  · exact ⟨hcols, hrows⟩

theorem updateRowCount_fields (row_count : ℤ) (grid : Grid) :
    GridView.updateRowCount row_count grid =
      { grid with row_count := if row_count ≤ 0 then grid.row_count else row_count } := by
  rw [GridView.updateRowCount]
  split <;> rfl

/-- The rows are counted anew. -/
theorem HasColumns.recount {g : LaidGrid} (h : HasColumns g) (hcols : 0 ≤ g.column_count) :
    Refines (fun g' grid => g'.toKeyGrid = { grid with key_focus_clamp := g.key_focus_clamp } ∧
      HasColumns g' ∧ Counted grid) IsFault g.recount (GridView.recount g.toGrid) := by
  obtain ⟨hrow_count, heap, col, row, tracks, col_template, row_template, hown, hlayout⟩ := h
  refine .bind_same isFault (countRows g.item_count g.column_count) fun row_count hcount => ?_
  obtain ⟨hpos, hrows, -⟩ := countRows_rows hcols hcount
  rw [LaidGrid.updateRowCount_spec row_count (by rw [hlayout])]
  refine .ok ⟨rfl, ⟨updateRowCount_nonneg row_count hrow_count, heap, col, row, tracks,
    col_template, row_template, hown, ?_⟩, updateRowCount_counted hpos hrows⟩
  simp only [hlayout, updateRowCount_fields]

/-- **The tracks are configured.** -/
theorem Lays.configure {g : LaidGrid} {rows : ℕ} (h : Lays g rows) {col_count : ℤ}
    (hcol : 0 ≤ col_count) (row_height : ℤ) {changed : Bool}
    (hsame : changed = false → col_count = g.column_count) :
    Refines (SameTracks g.key_focus_clamp) IsFault (g.configure col_count row_height changed)
      (GridView.configure col_count row_height changed g.toGrid) := by
  have hcounted := h.counted
  obtain ⟨hcols, hrow_count, -, heap, col, row, hown, hlayout⟩ := h
  let configured : LaidGrid := { g with column_count := col_count, row_height }
  rw [LaidGrid.configure, GridView.configure, updateColDsc_of_nonneg hcol]
  rcases inInt_cases [col_count + 1] with hint | hint
  swap
  · have hdsc : configured.updateColDsc = .error (.fault .overflow) := by
      rw [LaidGrid.updateColDsc, updateDsc_of_overflow hint]
      rfl
    rw [hdsc, hint]
    exact .error (isFault _)
  obtain ⟨col', heap', hdsc, hown'⟩ := LaidGrid.updateColDsc_spec (g := configured) hcol hint
    {row} (by rw [show configured.layout = _ from hlayout]; exact hown)
  let updated : LaidGrid := { configured with
    layout :=
      { g.layout with heap := heap', col_dsc := some ⟨col', written col_count.toNat (.fr 1)⟩ } }
  have hupdated : HasColumns updated := by
    refine ⟨hrow_count, heap', col', row, written rows (.height g.row_height), some col, some row,
      hown', ?_⟩
    simp only [updated, configured, hlayout]
  have hcounts : Refines (fun g' grid => g'.toKeyGrid = { grid with
        key_focus_clamp := g.key_focus_clamp } ∧ HasColumns g' ∧ Counted grid) IsFault
      (cond changed updated.recount (.ok updated))
      (cond changed (GridView.recount configured.toGrid) (.ok configured.toGrid)) := by
    cases changed with
    | true => exact hupdated.recount hcol
    | false =>
        obtain rfl := hsame rfl
        exact .ok ⟨rfl, hupdated, hcounted.cols_pos, hcounted.row_count⟩
  rw [hdsc, hint]
  refine hcounts.bind fun g' grid hg => ?_
  obtain ⟨hsame', hcolumns, hcounted⟩ := hg
  have hgrid : g'.toGrid = grid := by rw [hsame']
  rw [← hgrid, updateRowDsc_of_nonneg hcolumns.row_count]
  rcases inInt_cases [max 1 g'.row_count + 1] with hrows | hrows
  · obtain ⟨g'', rows', hrun, hkept, hlays⟩ := hcolumns.layRows (hgrid ▸ hcounted) hrows
    rw [hrun, hrows]
    exact .ok ⟨hkept.trans (hgrid ▸ hsame'), rows', hlays⟩
  · rw [LaidGrid.updateRowDsc_of_overflow g' hcolumns.row_count hrows, hrows]
    exact .error (isFault _)

/-- **`lv_gridview_set_config`** lays out the grid. -/
theorem Lays.setConfig {g : LaidGrid} {rows : ℕ} (h : Lays g rows) {col_count : ℤ}
    (hcol : 0 ≤ col_count) (coord : ℤ → ℤ) (row_height scroll_y : ℤ) :
    Refines (fun g' result => SameTracks g.key_focus_clamp g' result.1) IsFault
      (g.lvGridviewSetConfig coord col_count row_height scroll_y)
      (GridView.lvGridviewSetConfig coord col_count row_height scroll_y g.toGrid) := by
  rw [LaidGrid.lvGridviewSetConfig, GridView.lvGridviewSetConfig]
  refine .bind_same isFault (scrapViews (g.column_count != col_count) g.toGrid) fun views _ => ?_
  have hscrapped : Lays { g with views } rows := ⟨h.cols_pos, h.row_count, h.rows_for, h.layout⟩
  refine (hscrapped.configure hcol row_height fun hchanged => ?_).bind fun g' grid hg => ?_
  · simpa using (bne_eq_false_iff_eq.1 hchanged).symm
  · exact .ite (fun _ => hg.updateGrid coord scroll_y) fun _ => .ok hg

theorem rowsFor_updateRowCount {row_count : ℤ} {grid : Grid} (hnonneg : 0 ≤ row_count)
    (hpos : 0 < grid.item_count →
      row_count = (grid.item_count + grid.column_count - 1) / grid.column_count ∧ 0 < row_count)
    (hnonpos : grid.item_count ≤ 0 → row_count ≤ 0) :
    RowsFor (GridView.updateRowCount row_count grid).column_count
      (GridView.updateRowCount row_count grid).item_count
      (GridView.updateRowCount row_count grid).row_count (max 1 row_count).toNat := by
  rw [updateRowCount_fields, RowsFor]
  change if 0 < grid.item_count then _ else _
  split
  · next hitems =>
      obtain ⟨hceil, hrows⟩ := hpos hitems
      simp only [if_neg (not_le.2 hrows)]
      exact ⟨hceil, by omega⟩
  · next hitems =>
      have hzero : row_count = 0 := le_antisymm (hnonpos (by omega)) hnonneg
      rw [hzero]
      exact .inl rfl

/-- The rows are written for other items, and the placeholder follows. -/
theorem HasColumns.layItems {g : LaidGrid} (h : HasColumns g) (hcols : 0 < g.column_count)
    {row_count : ℤ} (hpos : 0 < g.item_count →
      row_count = (g.item_count + g.column_count - 1) / g.column_count ∧ 0 < row_count)
    (hnonpos : g.item_count ≤ 0 → row_count ≤ 0) :
    Refines (SameTracks g.key_focus_clamp) IsFault
      (g.updateRowDsc row_count >>= fun g => g.setGridDscArray.updateRowCount row_count)
      (GridView.updateRowDsc row_count >>= fun _ =>
        .ok (GridView.updateRowCount row_count g.toGrid)) := by
  rcases lt_or_ge row_count 0 with hneg | hnonneg
  · rw [LaidGrid.updateRowDsc_of_neg hneg, GridView.updateRowDsc, if_neg (by split <;> omega)]
    exact .error (isFault _)
  · rw [updateRowDsc_of_nonneg hnonneg]
    rcases inInt_cases [max 1 row_count + 1] with hint | hint
    swap
    · rw [LaidGrid.updateRowDsc_of_overflow g hnonneg hint, hint]
      exact .error (isFault _)
    obtain ⟨hrow_count, heap, col, row, tracks, _, _, hown, hlayout⟩ := h
    obtain ⟨row', heap', hdsc, hown'⟩ := LaidGrid.updateRowDsc_spec (g := g) hnonneg hint
      {col} (by rw [hlayout]; exact hown.congr (add_comm _ _))
    rw [hdsc, hint]
    change Refines _ _ (LaidGrid.updateRowCount row_count (LaidGrid.setGridDscArray { g with
      layout := { g.layout with heap := heap', row_dsc := _ } })) (.ok _)
    rw [LaidGrid.updateRowCount_spec row_count (by
      simp only [LaidGrid.setGridDscArray, hlayout])]
    refine .ok ⟨rfl, (max 1 row_count).toNat, ?_, updateRowCount_nonneg row_count hrow_count, ?_,
      heap', col, row', hown'.congr (add_comm _ _), ?_⟩
    · change 0 < (GridView.updateRowCount row_count g.toGrid).column_count
      rwa [updateRowCount_fields]
    · exact rowsFor_updateRowCount hnonneg hpos hnonpos
    · simp only [LaidGrid.setGridDscArray, hlayout, updateRowCount_fields, Option.map_some]

/-- **The tracks for other data.** -/
theorem Lays.loadData {g : LaidGrid} {rows : ℕ} (h : Lays g rows) (data : Option (ℕ × ℤ))
    (changes : Option (List Change)) (num_changes : ℤ) :
    Refines (SameTracks g.key_focus_clamp) IsFault (g.loadData data changes num_changes)
      (GridView.loadData data changes num_changes g.toGrid) := by
  obtain ⟨hcols, hrow_count, hrows_for, hlayout⟩ := h
  rcases data with _ | ⟨ptr, item_count⟩
  · exact .ok ⟨rfl, rows, hcols, hrow_count, hrows_for, hlayout⟩
  · refine .ite (fun _ => .ok ⟨rfl, rows, hcols, hrow_count, hrows_for, hlayout⟩) fun _ => ?_
    refine .bind_same isFault (countRows item_count g.column_count) fun row_count hcount => ?_
    obtain ⟨-, hpos, hnonpos⟩ := countRows_rows hcols.le hcount
    obtain ⟨heap, col, row, hown, hlayout⟩ := hlayout
    exact HasColumns.layItems (g := { g with
      old_item_count := g.item_count, changes, num_changes, data := some ptr, item_count })
      ⟨hrow_count, heap, col, row, _, _, _, hown, hlayout⟩ hcols hpos hnonpos

/-- **`lv_gridview_set_data_advanced`** lays out the grid. -/
theorem Lays.setDataAdvanced {g : LaidGrid} {rows : ℕ} (h : Lays g rows) (coord : ℤ → ℤ)
    (data : Option (ℕ × ℤ)) (changes : Option (List Change)) (num_changes scroll_y : ℤ) :
    Refines (fun g' result => SameTracks g.key_focus_clamp g' result.1) IsFault
      (g.lvGridviewSetDataAdvanced coord data changes num_changes scroll_y)
      (GridView.lvGridviewSetDataAdvanced coord data changes num_changes scroll_y g.toGrid) := by
  rw [LaidGrid.lvGridviewSetDataAdvanced, GridView.lvGridviewSetDataAdvanced]
  refine .bind_same isFault (scrapViews _ g.toGrid) fun views _ => ?_
  have hscrapped : Lays { g with views } rows := ⟨h.cols_pos, h.row_count, h.rows_for, h.layout⟩
  refine (hscrapped.loadData data changes num_changes).bind fun g' grid hg => ?_
  refine (hg.updateGrid coord scroll_y).map fun g' result hg => ?_
  obtain ⟨hsame, rows, hlays⟩ := hg
  obtain ⟨hcols, hrow_count, hrows_for, hlayout⟩ := hlays
  exact ⟨congrArg (fun k : KeyGrid => { k with toGrid := dropChanges k.toGrid }) hsame, rows, hcols,
    hrow_count, hrows_for, hlayout⟩

/-! ## Runs -/

/-- No negative column count is asked for. -/
def Event.Columns : Event → Prop
  | .op (.setConfig col_count _ _) => 0 ≤ col_count
  | _ => True

/-- The grid that the events are given to. -/
def Laid (g : LaidGrid) (grid : KeyGrid) : Prop := g.toKeyGrid = grid ∧ ∃ rows, Lays g rows

theorem SameTracks.laid {clamp : Bool} {g : LaidGrid} {grid : Grid} (h : SameTracks clamp g grid) :
    Laid g { grid with key_focus_clamp := clamp } := ⟨h.same, h.lays⟩

theorem Lays.runEvent {g : LaidGrid} {rows : ℕ} (h : Lays g rows) (coord : ℤ → ℤ) {event : Event}
    (hcols : event.Columns) :
    Refines Laid IsFault (g.runEvent coord event) (event.run coord g.toKeyGrid) := by
  have hother : ¬event.LaysOut → Refines Laid IsFault
      ((event.run coord g.toKeyGrid).mapError NodeFault.fault >>= fun grid =>
        .ok { g with toKeyGrid := grid }) (event.run coord g.toKeyGrid) := by
    intro hlaysOut
    cases hrun : event.run coord g.toKeyGrid with
    | error e => exact .error (isFault e)
    | ok grid => exact .ok ⟨rfl, rows, h.of_dims (run_dims hlaysOut hrun)⟩
  cases event with
  | op operation =>
      cases operation with
      | setConfig col_count row_height scroll_y =>
          exact (h.setConfig hcols coord row_height scroll_y).map_right fun _ _ hg => hg.laid
      | setData data scroll_y =>
          exact (h.setDataAdvanced coord data none 0 scroll_y).map_right fun _ _ hg => hg.laid
      | setDataAdvanced data changes num_changes scroll_y =>
          exact (h.setDataAdvanced coord data changes num_changes scroll_y).map_right
            fun _ _ hg => hg.laid
      | focus | focusWhenAvailable | scroll | sizeChanged => exact hother id
  | key | cancel | setKeyFocusClamp | rebind | rebindItem | itemDelete => exact hother id

/-- The arrays are freed once, and nothing is left. -/
theorem Lays.destroy {g : LaidGrid} {rows : ℕ} (h : Lays g rows) :
    ∃ heap, g.lvGridviewDestructor = .ok heap ∧ heap.live = ∅ := by
  obtain ⟨-, -, -, heap, col, row, hown, hlayout⟩ := h
  obtain ⟨heap₁, hrow, hown₁⟩ := (hown.congr (add_comm _ _)).free
  obtain ⟨heap₂, hcol, hown₂⟩ := (hown₁.congr (add_zero _).symm).free
  refine ⟨heap₂, ?_, Finset.val_eq_zero.1 hown₂⟩
  rw [LaidGrid.lvGridviewDestructor, hlayout]
  change access (heap.free row) >>= (fun heap => access (heap.free col)) = .ok heap₂
  rw [hrow]
  change access (heap₁.free col) = .ok heap₂
  rw [hcol]
  rfl

theorem create_lays (coord : ℤ → ℤ) (scroll_y : ℤ) :
    Refines (fun g grid => Laid g { grid with key_focus_clamp := false }) IsFault
      (LaidGrid.lvGridviewCreate coord scroll_y) (lvGridviewCreate coord scroll_y) := by
  have hcreate : LaidGrid.lvGridviewCreate coord scroll_y = .ok { KeyGrid.created with
      layout :=
        { heap := Blocks.Heap.empty.alloc.2.alloc.2
          col_dsc := some ⟨0, written 1 (.fr 1)⟩
          row_dsc := some ⟨1, written 1 (.height 1)⟩
          placeholder := some none
          col_template := some 0
          row_template := some 1 } } := rfl
  have hmodel : lvGridviewCreate coord scroll_y = .ok Grid.created := rfl
  have hempty : Owned Blocks.Heap.empty 0 := rfl
  rw [hcreate, hmodel]
  refine .ok ⟨rfl, 1, by decide, le_rfl, .inl rfl, _, 0, 1, ?_, rfl⟩
  exact hempty.alloc.alloc.congr (by rw [add_zero, add_comm]; rfl)

/-- Every item has its cell in the arrays. -/
theorem Lays.cell_lt {g : LaidGrid} {rows : ℕ} (h : Lays g rows) {position : ℤ}
    (hlt : position < g.item_count) (hnonneg : 0 ≤ position) :
    position / g.column_count < rows := by
  obtain ⟨hceil, hrows⟩ : g.row_count = (g.item_count + g.column_count - 1) / g.column_count ∧
      (rows : ℤ) = g.row_count := by
    have hrows_for := h.rows_for
    rwa [RowsFor, if_pos (hnonneg.trans_lt hlt)] at hrows_for
  rw [hrows, Int.ediv_lt_iff_lt_mul h.cols_pos]
  exact hlt.trans_le ((ceil_le_iff h.cols_pos).1 hceil.ge)

/-- **The layout has the tracks of the grid.**  Whatever events a grid gets, LVGL has
the arrays of the grid and not ones that were freed; they have its columns, and rows
of its height for all items; nothing is written outside of them, and when the grid is
deleted, nothing is left. -/
theorem run_lays (coord : ℤ → ℤ) (scroll_y : ℤ) {events : List Event}
    (hcols : ∀ event ∈ events, event.Columns) :
    Refines (fun g grid => g.toKeyGrid = grid ∧
        (∃ rows, Lays g rows ∧ ∀ position : ℤ, 0 ≤ position → position < grid.item_count →
          position % grid.column_count < grid.column_count ∧
            position / grid.column_count < rows) ∧
        ∃ heap, g.lvGridviewDestructor = .ok heap ∧ heap.live = ∅) IsFault
      (LaidGrid.run coord scroll_y events) (KeyGrid.run coord scroll_y events) := by
  have hrun : Refines Laid IsFault (LaidGrid.run coord scroll_y events)
      (KeyGrid.run coord scroll_y events) :=
    (create_lays coord scroll_y).bind fun g grid h =>
      .foldlM events h fun event hevent g grid h => by
        obtain ⟨rfl, rows, hlays⟩ := h
        exact hlays.runEvent coord (hcols event hevent)
  refine hrun.imp fun g grid h => ?_
  obtain ⟨rfl, rows, hlays⟩ := h
  exact ⟨rfl, ⟨rows, hlays, fun position hnonneg hlt =>
    ⟨Int.emod_lt_of_pos position hlays.cols_pos, hlays.cell_lt hlt hnonneg⟩⟩, hlays.destroy⟩

theorem run_lays_twoItems :
    (∃ grid, KeyGrid.run id 0 twoItems = .ok grid ∧ grid.item_count = 2) ∧
      Refines (fun g grid => g.toKeyGrid = grid ∧
        (∃ rows, Lays g rows ∧ ∀ position : ℤ, 0 ≤ position → position < grid.item_count →
          position % grid.column_count < grid.column_count ∧
            position / grid.column_count < rows) ∧
        ∃ heap, g.lvGridviewDestructor = .ok heap ∧ heap.live = ∅) IsFault
      (LaidGrid.run id 0 twoItems) (KeyGrid.run id 0 twoItems) :=
  ⟨⟨_, rfl, rfl⟩, run_lays id 0
    (show ∀ event ∈ twoItems, event.Columns by simp [twoItems, Event.Columns])⟩

end CommonsC.GridView
