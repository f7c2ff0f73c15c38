import CommonsC.GridView.Update

/-!
# CommonsC.GridView.Rows

The rows that `update_grid` renders, and the range in which it moves views.

With exact coordinates a row is an interval, and the rows that are rendered are
those that meet the viewport with its paddings and a quarter of a row on either
side (`mem_rows_iff`).  The range in which views are moved ends with a row that is
estimated from the content height alone.  It is short of a row if the first row
only just meets the viewport: `renderRows_covers` says exactly when it is long
enough, and `renderRows_short` that it need not be.
-/

namespace CommonsC.GridView

/-! ## Searches -/

/-- The first hit of a loop that counts up. -/
theorem find?_up {n : ℤ} {p : ℤ → Bool}
    (h : 0 ≤ (((List.range n.toNat).map Int.ofNat).find? p).getD (-1)) :
    ∃ i, (((List.range n.toNat).map Int.ofNat).find? p).getD (-1) = i ∧ 0 ≤ i ∧ i < n ∧
      p i = true ∧ ∀ j, 0 ≤ j → j < i → p j = false := by
  rw [List.find?_map] at h ⊢
  cases hfind : (List.range n.toNat).find? (p ∘ Int.ofNat) with
  | none =>
      rw [hfind] at h
      cases h
  | some k =>
      obtain ⟨hk, hmem, hbefore⟩ := List.find?_range_eq_some.1 hfind
      rw [List.mem_range] at hmem
      refine ⟨k, rfl, by omega, by omega, hk, fun j hj hlt => ?_⟩
      obtain ⟨m, rfl⟩ := Int.eq_ofNat_of_zero_le hj
      simpa using hbefore m (by omega)

/-- The first hit of a loop that counts down. -/
theorem find?_down {hi : ℤ} {n : ℕ} {p : ℤ → Bool}
    (h : 0 ≤ (((List.range n).map fun k => hi - Int.ofNat k).find? p).getD (-1)) :
    ∃ i, (((List.range n).map fun k => hi - Int.ofNat k).find? p).getD (-1) = i ∧ i ≤ hi ∧
      p i = true ∧ ∀ j, i < j → j ≤ hi → p j = false := by
  rw [List.find?_map] at h ⊢
  cases hfind : (List.range n).find? (p ∘ fun k => hi - Int.ofNat k) with
  | none =>
      rw [hfind] at h
      cases h
  | some k =>
      obtain ⟨hk, hmem, hbefore⟩ := List.find?_range_eq_some.1 hfind
      refine ⟨hi - k, rfl, by omega, hk, fun j hlt hle => ?_⟩
      obtain ⟨m, hm⟩ := Int.eq_ofNat_of_zero_le (show 0 ≤ hi - j by omega)
      have hj : hi - Int.ofNat m = j := by
        change hi - (m : ℤ) = j
        omega
      rw [← hj]
      simpa using hbefore m (by omega)

/-- A quotient that is rounded up. -/
theorem ceil_le_iff {a b c : ℤ} (hb : 0 < b) : (a + b - 1) / b ≤ c ↔ a ≤ c * b := by
  rw [← Int.lt_add_one_iff, Int.ediv_lt_iff_lt_mul hb, Int.add_mul, Int.one_mul]
  omega

/-! ## Rows and the viewport -/

/-- `extend`: a quarter of a row. -/
def Grid.extend (grid : Grid) : ℤ := grid.row_height.tdiv 4

/-- The distance from one row to the next. -/
def Grid.pitch (grid : Grid) : ℤ := grid.row_height + grid.pad_row

/-- `row_top`. -/
def Grid.rowTop (grid : Grid) (i : ℤ) : ℤ := grid.row_height * i + grid.pad_row * i

/-- `start_bound`. -/
def Grid.startBound (grid : Grid) (scroll_y : ℤ) : ℤ := scroll_y - grid.pad_top - grid.extend

/-- `end_bound`. -/
def Grid.endBound (grid : Grid) (scroll_y : ℤ) : ℤ :=
  scroll_y + grid.content_height + grid.pad_bottom + grid.extend

/-- The extent of a row meets the extended viewport: they have a coordinate in
common. -/
def Grid.Meets (grid : Grid) (scroll_y i : ℤ) : Prop :=
  ∃ y, (grid.rowTop i ≤ y ∧ y ≤ grid.rowTop i + grid.row_height) ∧
    grid.startBound scroll_y ≤ y ∧ y ≤ grid.endBound scroll_y

theorem rowTop_eq (grid : Grid) (i : ℤ) : grid.rowTop i = i * grid.pitch := by
  rw [Grid.rowTop, Grid.pitch, Int.mul_add, Int.mul_comm i, Int.mul_comm i]

/-- The sizes that `update_grid` is called with. -/
structure Sizes (grid : Grid) : Prop where
  row_height : 0 < grid.row_height
  pad_row : 0 ≤ grid.pad_row
  pad_top : 0 ≤ grid.pad_top
  pad_bottom : 0 ≤ grid.pad_bottom
  content_height : 0 < grid.content_height

section

variable {grid : Grid} (hsizes : Sizes grid)

include hsizes

theorem Sizes.extend_nonneg : 0 ≤ grid.extend :=
  Int.tdiv_nonneg hsizes.row_height.le (by decide)

theorem Sizes.pitch_pos : 0 < grid.pitch :=
  Int.add_pos_of_pos_of_nonneg hsizes.row_height hsizes.pad_row

theorem Sizes.rowTop_le {i j : ℤ} (h : i ≤ j) : grid.rowTop i ≤ grid.rowTop j := by
  rw [rowTop_eq, rowTop_eq]
  exact Int.mul_le_mul_of_nonneg_right h hsizes.pitch_pos.le

/-- Two intervals meet if neither ends before the other begins. -/
theorem Sizes.meets_iff {scroll_y i : ℤ} :
    grid.Meets scroll_y i ↔ grid.startBound scroll_y ≤ grid.rowTop i + grid.row_height ∧
      grid.rowTop i ≤ grid.endBound scroll_y := by
  have hheight := hsizes.row_height
  have hbounds : grid.startBound scroll_y ≤ grid.endBound scroll_y := by
    have := hsizes.extend_nonneg
    have := hsizes.pad_top
    have := hsizes.pad_bottom
    have := hsizes.content_height
    rw [Grid.startBound, Grid.endBound]
    omega
  constructor
  · rintro ⟨y, ⟨htop, hbottom⟩, hstart, hend⟩
    omega
  · rintro ⟨hstart, hend⟩
    exact ⟨max (grid.rowTop i) (grid.startBound scroll_y),
      ⟨le_max_left _ _, max_le (by omega) hstart⟩, le_max_right _ _, max_le hend hbounds⟩

/-! ## What is rendered -/

/-- What the searches of `update_grid` find. -/
theorem Sizes.renderRows_spec {scroll_y : ℤ} {render : Render}
    (hrender : renderRows id scroll_y grid = .ok render) (hfills : render.Fills) :
    (grid.startBound scroll_y ≤ grid.rowTop render.row_start + grid.row_height ∧
      ∀ j, 0 ≤ j → j < render.row_start →
        grid.rowTop j + grid.row_height < grid.startBound scroll_y) ∧
    (render.row_end < grid.row_count ∧ grid.rowTop render.row_end ≤ grid.endBound scroll_y ∧
      ∀ j, render.row_end < j → j < grid.row_count →
        grid.endBound scroll_y < grid.rowTop j) ∧
    render.visible_row_end = render.row_start +
      (grid.content_height + grid.pad_row + grid.extend + grid.pitch - 1) / grid.pitch := by
  have hpitch := hsizes.pitch_pos
  have hrows : ceilDivide (grid.content_height + grid.pad_row + grid.extend) grid.pitch =
      .ok ((grid.content_height + grid.pad_row + grid.extend + grid.pitch - 1) / grid.pitch) := by
    have := hsizes.extend_nonneg
    have := hsizes.pad_row
    have := hsizes.content_height
    rw [ceilDivide, if_neg (by omega), Int.tdiv_eq_ediv_of_nonneg (by omega)]
  rw [renderRows] at hrender
  obtain ⟨rows, hceil, hrender⟩ := Loop.of_bind hrender
  have hrows' : rows = _ := Except.ok.inj (hceil.symm.trans hrows)
  cases hrender
  obtain ⟨hstart, hend⟩ := hfills
  obtain ⟨s, hs, -, -, hhit, hbefore⟩ := find?_up hstart
  obtain ⟨e, he, hle, hhit', hafter⟩ := find?_down (hstart.trans hend)
  refine ⟨⟨?_, fun j hj hlt => ?_⟩, ⟨?_, ?_, fun j hlt hcount => ?_⟩, ?_⟩
  · rw [← hs] at hhit
    exact of_decide_eq_true hhit
  · have hlt' : j < s := hs ▸ hlt
    exact not_le.1 (of_decide_eq_false (hbefore j hj hlt'))
  · have : e < grid.row_count := by omega
    exact he ▸ this
  · rw [← he] at hhit'
    exact of_decide_eq_true hhit'
  · have hlt' : e < j := he ▸ hlt
    exact not_le.1 (of_decide_eq_false (hafter j hlt' (by omega)))
  · rw [hrows']

/-- **The rows that are rendered** are those that meet the extended viewport. -/
theorem Sizes.mem_rows_iff {scroll_y : ℤ} {render : Render}
    (hrender : renderRows id scroll_y grid = .ok render) (hfills : render.Fills) (i : ℤ) :
    (render.row_start ≤ i ∧ i ≤ render.row_end) ↔
      0 ≤ i ∧ i < grid.row_count ∧ grid.Meets scroll_y i := by
  obtain ⟨⟨hstart, habove⟩, ⟨hcount, hend, hbelow⟩, -⟩ := hsizes.renderRows_spec hrender hfills
  rw [hsizes.meets_iff]
  constructor
  · rintro ⟨hlo, hhi⟩
    have htop := hsizes.rowTop_le hlo
    have hbottom := hsizes.rowTop_le hhi
    exact ⟨hfills.1.trans hlo, by omega, by omega, by omega⟩
  · rintro ⟨hi, hlt, htop, hbottom⟩
    refine ⟨not_lt.1 fun h => ?_, not_lt.1 fun h => ?_⟩
    · have := habove i hi h
      omega
    · have := hbelow i h hlt
      omega

end

/-! ## The range in which views are moved -/

/-- The first row that meets the viewport, if that row exists. -/
def Grid.firstRow (grid : Grid) (scroll_y : ℤ) : ℤ :=
  max 0 ((grid.startBound scroll_y - grid.row_height + grid.pitch - 1) / grid.pitch)

/-- The rows that the content height is taken to span. -/
def Grid.spannedRows (grid : Grid) : ℤ :=
  (grid.content_height + grid.pad_row + grid.extend + grid.pitch - 1) / grid.pitch

/-- Beyond the estimated last row there is none that meets the viewport: the
next one does not exist, or is too far down. -/
def Grid.Spans (grid : Grid) (scroll_y : ℤ) : Prop :=
  grid.row_count ≤ grid.firstRow scroll_y + grid.spannedRows + 1 ∨
    grid.endBound scroll_y < grid.rowTop (grid.firstRow scroll_y + grid.spannedRows + 1)

instance (grid : Grid) (scroll_y : ℤ) : Decidable (grid.Spans scroll_y) :=
  inferInstanceAs (Decidable (_ ∨ _))

section

variable {grid : Grid} (hsizes : Sizes grid)

include hsizes

theorem Sizes.row_start_eq {scroll_y : ℤ} {render : Render}
    (hrender : renderRows id scroll_y grid = .ok render) (hfills : render.Fills) :
    render.row_start = grid.firstRow scroll_y := by
  obtain ⟨⟨hstart, habove⟩, -⟩ := hsizes.renderRows_spec hrender hfills
  have hbottom : ∀ i, grid.startBound scroll_y ≤ grid.rowTop i + grid.row_height ↔
      (grid.startBound scroll_y - grid.row_height + grid.pitch - 1) / grid.pitch ≤ i := by
    intro i
    rw [ceil_le_iff hsizes.pitch_pos, rowTop_eq]
    omega
  rw [Grid.firstRow]
  refine le_antisymm ?_ (max_le hfills.1 ((hbottom _).1 hstart))
  -- The row before the first is not negative, or does not meet the viewport.
  by_contra hlt
  have hprev := habove (render.row_start - 1) (by omega) (by omega)
  have := (hbottom (render.row_start - 1)).2 (by omega)
  omega

theorem Sizes.spannedRows_nonneg : 0 ≤ grid.spannedRows := by
  have hpitch := hsizes.pitch_pos
  have := hsizes.extend_nonneg
  have := hsizes.pad_row
  have := hsizes.content_height
  exact Int.ediv_nonneg (by omega) hpitch.le

/-- **The rendered rows and the range in which views are moved**: the rows are
right, and the range reaches to the last of their positions, exactly if no row
beyond the estimated last one meets the viewport. -/
theorem renderRows_covers (hcols : 0 < grid.column_count) {scroll_y : ℤ} {render : Render}
    (hrender : renderRows id scroll_y grid = .ok render) (hfills : render.Fills) :
    ((∀ i, (render.row_start ≤ i ∧ i ≤ render.row_end) ↔
        0 ≤ i ∧ i < grid.row_count ∧ grid.Meets scroll_y i) ∧
      (render.row_end + 1) * grid.column_count - 1 ≤ render.maxItemEnd grid.column_count) ↔
      grid.Spans scroll_y := by
  obtain ⟨-, -, hvisible⟩ := hsizes.renderRows_spec hrender hfills
  have hmem := hsizes.mem_rows_iff hrender hfills
  have hstart := hsizes.row_start_eq hrender hfills
  have hspan := hsizes.spannedRows_nonneg
  have hvisible' : render.visible_row_end = grid.firstRow scroll_y + grid.spannedRows := by
    rw [hvisible, hstart, Grid.spannedRows]
  have hreach : (render.row_end + 1) * grid.column_count - 1 ≤
      render.maxItemEnd grid.column_count ↔ render.row_end ≤ render.visible_row_end := by
    rw [Render.maxItemEnd, Int.sub_le_sub_right_iff, Int.mul_comm grid.column_count,
      mul_le_mul_iff_left₀ hcols]
    omega
  have hnext := hmem (grid.firstRow scroll_y + grid.spannedRows + 1)
  rw [hsizes.meets_iff] at hnext
  have hbottom : grid.startBound scroll_y ≤
      grid.rowTop (grid.firstRow scroll_y + grid.spannedRows + 1) + grid.row_height := by
    have hle := hsizes.rowTop_le
      (show render.row_start ≤ grid.firstRow scroll_y + grid.spannedRows + 1 by omega)
    have := (hsizes.renderRows_spec hrender hfills).1.1
    omega
  have hnonneg := hfills.1
  rw [and_iff_right hmem, hreach, hvisible', Grid.Spans]
  omega

end

/-- Four rows of a hundred, of which a little more than one and a half fit. -/
def Grid.fourRows : Grid :=
  { Grid.zeroed with
    column_count := 1, row_height := 100, item_count := 4, row_count := 4, content_height := 160 }

theorem fourRows_sizes : Sizes Grid.fourRows :=
  ⟨by decide, by decide, by decide, by decide, by decide⟩

/-- Without scrolling the range is long enough. -/
theorem renderRows_covers_fourRows :
    (1 + 1) * Grid.fourRows.column_count - 1 ≤
      (Render.mk 0 1 2).maxItemEnd Grid.fourRows.column_count :=
  ((renderRows_covers fourRows_sizes (by decide)
    (show renderRows id 0 Grid.fourRows = .ok ⟨0, 1, 2⟩ from rfl) (by decide)).2 (by decide)).2

/-- **The range can be short of a row**: with the first row at its very end, all
four meet the extended viewport, but views are moved in the first three only. -/
theorem renderRows_short : ¬∀ (grid : Grid) (scroll_y : ℤ) (render : Render),
    Sizes grid → 0 < grid.column_count → renderRows id scroll_y grid = .ok render →
    render.Fills →
    (∀ i, (render.row_start ≤ i ∧ i ≤ render.row_end) ↔
      0 ≤ i ∧ i < grid.row_count ∧ grid.Meets scroll_y i) ∧
    (render.row_end + 1) * grid.column_count - 1 ≤ render.maxItemEnd grid.column_count := by
  intro hclaim
  have hshort := (hclaim Grid.fourRows 125 ⟨0, 3, 2⟩ fourRows_sizes (by decide) rfl (by decide)).2
  exact absurd hshort (by decide)

end CommonsC.GridView
