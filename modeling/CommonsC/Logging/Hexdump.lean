import CommonsC.Base.Cursor
import CommonsC.Base.Hex

/-!
# CommonsC.Logging.Hexdump

Hex dumps in the log (`util/logging/logging_common.c`).

A row of 16 bytes is written into `line[80]`, with an index in front and the bytes as
text behind, as the options ask.  The texts of the rows are `rowText`, and what they
show is the data (`commons_log_hexdump2_reads`).  The index has room for six digits.
-/

namespace CommonsC.Logging

open CString

/-- `commons_log_level`. -/
inductive LogLevel
  | fatal
  | error
  | warn
  | info
  | debug
  | verbose
deriving DecidableEq, Repr

/-- The value of the enumerator. -/
def LogLevel.toNat : LogLevel → ℕ
  | .fatal => 0
  | .error => 1
  | .warn => 2
  | .info => 3
  | .debug => 4
  | .verbose => 5

/-- `check_level`. -/
def checkLevel (level : LogLevel) : Bool := level.toNat < LogLevel.verbose.toNat

/-- `COMMONS_HEXDUMP_INDEX`. -/
def hexdumpIndex : UInt32 := 0x01

/-- `COMMONS_HEXDUMP_TEXT`. -/
def hexdumpText : UInt32 := 0x02

/-- `COMMONS_HEXDUMP_ALL`. -/
def hexdumpAll : UInt32 := 0xFF

/-- An addition of `int`. -/
def intAdd (a b : ℕ) : Option ℕ := if a + b < 2 ^ 31 then some (a + b) else none

/-! ## A row -/

/-- What `%04x` and two blanks print. -/
def indexText (i : ℕ) : List UInt8 := Hex.padded 4 i ++ [32, 32]

/-- What `snprintf` stores of it in `line[80]`. -/
def storedIndex (i : ℕ) : List UInt8 := (indexText i).take 79 ++ [0]

/-- The index, of which six bytes are kept. -/
def writeIndex (options : UInt32) (i : ℕ) (line : Block) : Option Cursor :=
  if options &&& hexdumpIndex ≠ 0 then (line.memcpy 0 (storedIndex i)).map fun line => ⟨line, 6⟩
  else some ⟨line, 0⟩

/-- A round of the loop over the columns of digits. -/
def writeHex (data : List UInt8) (i : ℕ) (k : Cursor) (col : ℕ) : Option Cursor := do
  let k ←
    match data[col]? with
    | none => k.put 32 >>= Cursor.put 32
    | some b => k.put (Hex.digit (b.toNat / 16)) >>= Cursor.put (Hex.digit (b.toNat % 16))
  let k ← k.put 32
  if col - i = 7 then k.put 32 else some k

/-- A byte of the text. -/
def printable (ch : UInt8) : UInt8 := if 32 ≤ ch ∧ ch ≤ 126 then ch else 46

/-- The bytes as text. -/
def writeText (options : UInt32) (data : List UInt8) (i : ℕ) (k : Cursor) : Option Cursor :=
  if options &&& hexdumpText ≠ 0 then do
    let k ← k.put 32
    let k ← k.put 124
    let k ← ((data.drop i).take 16).foldlM (fun k ch => k.put (printable ch)) k
    k.put 124
  else some k

/-- One row, with its NUL. -/
def writeRow (options : UInt32) (data : List UInt8) (i : ℕ) (line : Block) : Option Block := do
  let k ← writeIndex options i line
  let k ← (List.range' i 16).foldlM (writeHex data i) k
  let k ← writeText options data i k
  k.block.store k.offset 0

/-! ## The dump -/

/-- The loop over the rows: the strings that are logged. -/
def hexdumpRows (options : UInt32) (data : List UInt8) :
    (fuel : ℕ) → (i : ℕ) → Block → Option (List (List UInt8))
  | 0, _, _ => none
  | fuel + 1, i, line =>
      if i < data.length then do
        let col_end ← intAdd i 16
        let line ← writeRow options data i line
        let lines ← hexdumpRows options data fuel col_end line
        some (upToNul line :: lines)
      else some []

/-- `commons_log_hexdump2`, with what is in `line` before. -/
def commonsLogHexdump2 (level : LogLevel) (options : UInt32) (data : List UInt8) (line : Block) :
    Option (List (List UInt8)) :=
  if checkLevel level then hexdumpRows options data (data.length + 1) 0 line else some []

/-- `commons_log_hexdump`. -/
def commonsLogHexdump (level : LogLevel) : List UInt8 → Block → Option (List (List UInt8)) :=
  commonsLogHexdump2 level hexdumpAll

/-- A column of digits. -/
def hexText (data : List UInt8) (i col : ℕ) : List UInt8 :=
  (data[col]?.elim [32, 32] Hex.pair ++ [32]) ++ if col - i = 7 then [32] else []

/-- A row. -/
def rowText (options : UInt32) (data : List UInt8) (i : ℕ) : List UInt8 :=
  (if options &&& hexdumpIndex ≠ 0 then (indexText i).take 6 else []) ++
    ((List.range' i 16).flatMap (hexText data i) ++
      if options &&& hexdumpText ≠ 0 then
        [32, 124] ++ (((data.drop i).take 16).map printable ++ [124])
      else [])

/-- Where the digits of a byte of the row are. -/
def column (options : UInt32) (c : ℕ) : ℕ :=
  (if options &&& hexdumpIndex ≠ 0 then 6 else 0) + (3 * c + if 8 ≤ c then 1 else 0)

/-- The bytes that a row shows. -/
def readRow (options : UInt32) (line : List UInt8) : List UInt8 :=
  (List.range 16).filterMap fun c => Hex.read ((line.drop (column options c)).take 2)

/-! ## What is written -/

theorem writes_hex (n : ℕ) (data : List UInt8) (i col : ℕ) :
    Cursor.Writes n (writeHex data i · col) (hexText data i col) := by
  have hlast : Cursor.Writes n (fun k => k.put 32 >>= fun k => if col - i = 7 then k.put 32
      else some k) ([32] ++ if col - i = 7 then [32] else []) :=
    (Cursor.Writes.put 32).bind (.ite (.put 32) .skip)
  rw [hexText, List.append_assoc]
  cases hb : data[col]? with
  | none =>
      have hdigits : Cursor.Writes n (fun k => k.put 32 >>= Cursor.put 32) [32, 32] :=
        (Cursor.Writes.put 32).bind (.put 32)
      simpa only [writeHex, hb, Option.elim_none] using hdigits.bind hlast
  | some b =>
      have hdigits : Cursor.Writes n (fun k => k.put (Hex.digit (b.toNat / 16)) >>=
          Cursor.put (Hex.digit (b.toNat % 16))) (Hex.pair b) :=
        (Cursor.Writes.put _).bind (.put _)
      simpa only [writeHex, hb, Option.elim_some] using hdigits.bind hlast

theorem writes_text (n : ℕ) (options : UInt32) (data : List UInt8) (i : ℕ) :
    Cursor.Writes n (writeText options data i) (if options &&& hexdumpText ≠ 0 then
      [32, 124] ++ (((data.drop i).take 16).map printable ++ [124]) else []) := by
  have hchars : Cursor.Writes n (fun k => ((data.drop i).take 16).foldlM
      (fun k ch => k.put (printable ch)) k) (((data.drop i).take 16).map printable) := by
    rw [List.map_eq_flatMap]
    exact .foldlM (fun ch => .put (printable ch)) _
  exact .ite ((Cursor.Writes.put 32).bind ((Cursor.Writes.put 124).bind (hchars.bind (.put 124))))
    .skip

theorem length_indexText (i : ℕ) : 6 ≤ (indexText i).length := by
  rw [indexText, List.length_append, Hex.length_padded]
  exact Nat.add_le_add_right (le_max_left 4 _) 2

/-- The index is written, and six bytes of it are kept. -/
theorem writeIndex_holds (options : UInt32) (i : ℕ) {line : Block} (hline : line.length = 80) :
    ∃ k, writeIndex options i line = some k ∧ Cursor.Holds 80 k
      (if options &&& hexdumpIndex ≠ 0 then (indexText i).take 6 else []) := by
  rw [writeIndex]
  split
  · have hsix := length_indexText i
    have hstored : (storedIndex i).length ≤ 80 := by
      rw [storedIndex, List.length_append, List.length_take, List.length_singleton]
      omega
    have hcopy : line.memcpy 0 (storedIndex i) =
        some (storedIndex i ++ line.drop (storedIndex i).length) := by
      rw [Block.memcpy, if_pos (by rw [hline, Nat.zero_add]; exact hstored), List.take_zero,
        List.nil_append, Nat.zero_add]
    have hfront : (indexText i).take 6 =
        (storedIndex i ++ line.drop (storedIndex i).length).take 6 := by
      rw [storedIndex, List.append_assoc, List.take_append_of_le_length, List.take_take]
      · rfl
      · rw [List.length_take]
        omega
    rw [hcopy]
    refine ⟨_, rfl, ?_, ?_, (storedIndex i ++ line.drop (storedIndex i).length).drop 6, ?_⟩
    · rw [List.length_take, Nat.min_eq_left hsix]
    · change (storedIndex i ++ line.drop (storedIndex i).length).length = 80
      rw [List.length_append, List.length_drop, hline, Nat.add_sub_cancel' hstored]
    · rw [hfront, List.take_append_drop]
  · exact ⟨_, rfl, rfl, hline, line, rfl⟩

/-! ## The length of a row -/

theorem length_hexText (data : List UInt8) (i col : ℕ) :
    (hexText data i col).length = 3 + if col - i = 7 then 1 else 0 := by
  have hdigits : (data[col]?.elim [32, 32] Hex.pair).length = 2 := by
    cases data[col]? <;> rfl
  rw [hexText, List.length_append, List.length_append, hdigits]
  split <;> rfl

/-- Where a column is. -/
theorem length_columns (data : List UInt8) (i n : ℕ) :
    ((List.range' i n).flatMap (hexText data i)).length = 3 * n + if 8 ≤ n then 1 else 0 := by
  induction n with
  | zero => rfl
  | succ n ih =>
      rw [List.range'_1_concat, List.flatMap_append, List.length_append, ih, List.flatMap_singleton,
        length_hexText, Nat.add_sub_cancel_left]
      split <;> split <;> split <;> omega

theorem length_rowText_le (options : UInt32) (data : List UInt8) (i : ℕ) :
    (rowText options data i).length ≤ 74 := by
  have hindex : (if options &&& hexdumpIndex ≠ 0 then (indexText i).take 6 else []).length ≤ 6 := by
    split
    · exact List.length_take_le 6 _
    · exact Nat.zero_le 6
  have htext : (if options &&& hexdumpText ≠ 0 then
      [32, 124] ++ (((data.drop i).take 16).map printable ++ [124]) else []).length ≤ 19 := by
    have hchunk : ((data.drop i).take 16).length ≤ 16 := List.length_take_le 16 _
    split
    · rw [List.length_append, List.length_append, List.length_map]
      exact Nat.add_le_add_left (Nat.succ_le_succ hchunk) 2
    · exact Nat.zero_le 19
  rw [rowText, List.length_append, List.length_append, length_columns]
  change _ + (49 + _) ≤ 74
  omega

theorem printable_ne_zero (ch : UInt8) : printable ch ≠ 0 := by
  rw [printable]
  split
  · next h =>
      rintro rfl
      exact absurd h.1 (by decide)
  · decide

/-- A row has no NUL. -/
theorem rowText_ne_zero (options : UInt32) (data : List UInt8) (i : ℕ) :
    0 ∉ rowText options data i := by
  have hindex : 0 ∉ (indexText i).take 6 := fun h => by
    rcases List.mem_append.1 (List.mem_of_mem_take h) with h | h
    · exact Hex.padded_ne_zero 4 i h
    · simp at h
  have hcol : ∀ col, 0 ∉ hexText data i col := by
    intro col h
    rw [hexText] at h
    cases hb : data[col]? with
    | none =>
        rw [hb] at h
        split at h <;> simp at h
    | some b =>
        rw [hb] at h
        have hpair := Hex.pair_ne_zero b
        split at h <;> simp [hpair] at h
  have hchars : 0 ∉ ((data.drop i).take 16).map printable := fun h => by
    obtain ⟨ch, -, hch⟩ := List.mem_map.1 h
    exact printable_ne_zero ch hch
  rw [rowText, List.mem_append, List.mem_append]
  rintro (h | h | h)
  · split at h
    · exact hindex h
    · cases h
  · obtain ⟨col, -, h⟩ := List.mem_flatMap.1 h
    exact hcol col h
  · split at h
    · rcases List.mem_append.1 h with h | h
      · exact absurd h (by decide)
      · rcases List.mem_append.1 h with h | h
        · exact hchars h
        · exact absurd h (by decide)
    · cases h

/-- **A row is written** within `line[80]`. -/
theorem writeRow_spec (options : UInt32) (data : List UInt8) (i : ℕ) {line : Block}
    (hline : line.length = 80) : ∃ line', writeRow options data i line = some line' ∧
      line'.length = 80 ∧ upToNul line' = rowText options data i := by
  obtain ⟨k, hindex, hk⟩ := writeIndex_holds options i hline
  have hlength := length_rowText_le options data i
  have hcolumns := Cursor.Writes.foldlM (writes_hex 80 data i) (List.range' i 16)
  obtain ⟨k', hrun, hk'⟩ := hcolumns.bind (writes_text 80 options data i) k _ hk (by
    rw [← List.length_append]
    exact hlength.trans (by decide))
  obtain ⟨line', hstore, hline', htext⟩ := hk'.string (by
    exact hlength.trans_lt (by decide)) (rowText_ne_zero options data i)
  refine ⟨line', ?_, hline', htext⟩
  rw [writeRow, hindex]
  change ((List.range' i 16).foldlM (writeHex data i) k >>= fun k =>
    writeText options data i k >>= fun k => k.block.store k.offset 0) = some line'
  change ((List.range' i 16).foldlM (writeHex data i) k >>= writeText options data i) =
    some k' at hrun
  rw [← bind_assoc, hrun]
  exact hstore

/-! ## What is read back -/

theorem range_filterMap (data : List UInt8) (n : ℕ) :
    (List.range n).filterMap (data[·]?) = data.take n := by
  induction n with
  | zero => rfl
  | succ n ih =>
      rw [List.range_succ, List.filterMap_append, ih, List.take_add_one]
      cases h : data[n]? <;> simp [h]

/-- The digits of a byte are in its column. -/
theorem take_columns (data : List UInt8) (i : ℕ) {c n : ℕ} (hc : c < n) (rest : List UInt8) :
    (((List.range' i n).flatMap (hexText data i) ++ rest).drop
      (3 * c + if 8 ≤ c then 1 else 0)).take 2 = data[i + c]?.elim [32, 32] Hex.pair := by
  have hsplit : List.range' i n =
      List.range' i c ++ (i + c) :: List.range' (i + c + 1) (n - c - 1) := by
    rw [← List.range'_succ, show n - c - 1 + 1 = n - c by omega]
    rw [List.range'_append_1, Nat.add_sub_cancel' hc.le]
  have hdigits : (data[i + c]?.elim [32, 32] Hex.pair).length = 2 := by
    cases data[i + c]? <;> rfl
  rw [hsplit, List.flatMap_append, List.append_assoc, ← length_columns data i c,
    List.drop_left, List.flatMap_cons, hexText, List.append_assoc, List.append_assoc,
    List.append_assoc, List.take_left' hdigits]

theorem readRow_rowText (options : UInt32) (data : List UInt8) (i : ℕ) :
    readRow options (rowText options data i) = (data.drop i).take 16 := by
  have hindex : (if options &&& hexdumpIndex ≠ 0 then (indexText i).take 6 else []).length =
      if options &&& hexdumpIndex ≠ 0 then 6 else 0 := by
    split
    · exact List.length_take_of_le (length_indexText i)
    · rfl
  have hread : ∀ c ∈ List.range 16,
      Hex.read (((rowText options data i).drop (column options c)).take 2) = (data.drop i)[c]? := by
    intro c hc
    rw [column, ← hindex, rowText, ← List.drop_drop, List.drop_left,
      take_columns data i (List.mem_range.1 hc), List.getElem?_drop]
    cases data[i + c]? with
    | none => rfl
    | some b => exact Hex.read_pair b
  rw [readRow, List.filterMap_congr hread, range_filterMap]

/-- The index that is read in front of a row, with six digits at most. -/
theorem readNumber_rowText {options : UInt32} (hindex : options &&& hexdumpIndex ≠ 0)
    (data : List UInt8) (i : ℕ) :
    Hex.readNumber ((rowText options data i).take 6) = i ↔ i < 16 ^ 6 := by
  have hsix := length_indexText i
  have htake : (rowText options data i).take 6 = (indexText i).take 6 := by
    rw [rowText, if_pos hindex, List.take_left' (List.length_take_of_le hsix)]
  rw [htake]
  constructor
  · intro h
    rw [← h]
    exact (Hex.readNumber_lt _).trans_le (Nat.pow_le_pow_right (by decide)
      (List.length_take_le 6 _))
  · intro h
    have hdigits : (Nat.digits 16 i).length ≤ 6 := Nat.digits_length_le_iff (by decide) i |>.2 h
    have hpadded : (Hex.padded 4 i).length ≤ 6 := by
      rw [Hex.length_padded]
      exact max_le (by decide) hdigits
    rw [indexText, List.take_append, List.take_of_length_le hpadded]
    refine Hex.read_number 4 i fun b hb => ?_
    have hb := List.mem_of_mem_take (List.mem_of_mem_head? hb)
    rw [List.mem_pair, or_self] at hb
    rw [hb]
    rfl

/-! ## The whole dump -/

/-- The rows of the data. -/
def rowTexts (options : UInt32) (data : List UInt8) : List (List UInt8) :=
  (List.range ((data.length + 15) / 16)).map fun k => rowText options data (16 * k)

/-- The loop over the rows, from one of them on. -/
theorem hexdumpRows_eq (options : UInt32) {data : List UInt8} (hlength : data.length + 16 ≤ 2 ^ 31)
    {fuel k : ℕ} (hk : k ≤ (data.length + 15) / 16) (hfuel : (data.length + 15) / 16 < fuel + k)
    {line : Block} (hline : line.length = 80) :
    hexdumpRows options data fuel (16 * k) line = some
      ((List.range' k ((data.length + 15) / 16 - k)).map fun k =>
        rowText options data (16 * k)) := by
  induction fuel generalizing k line with
  | zero => omega
  | succ fuel ih =>
      rw [hexdumpRows]
      split
      · next hi =>
          have hadd : intAdd (16 * k) 16 = some (16 * (k + 1)) := by
            rw [intAdd, if_pos (by omega), Nat.mul_succ]
          obtain ⟨line', hrow, hline', htext⟩ := writeRow_spec options data (16 * k) hline
          rw [hadd, hrow]
          change (hexdumpRows options data fuel (16 * (k + 1)) line' >>= fun lines =>
            some (upToNul line' :: lines)) = _
          rw [ih (by omega) (by omega) hline', htext,
            show (data.length + 15) / 16 - k = (data.length + 15) / 16 - (k + 1) + 1 by omega,
            List.range'_succ]
          rfl
      · next hi =>
          rw [show (data.length + 15) / 16 - k = 0 by omega]
          rfl

/-- Behind the last row that an `int` can index there is none. -/
theorem hexdumpRows_overflow (options : UInt32) {data : List UInt8}
    (hlength : 2 ^ 31 < data.length + 16) (fuel : ℕ) {k : ℕ} (hk : 16 * k < data.length)
    (line : Block) : hexdumpRows options data fuel (16 * k) line = none := by
  induction fuel generalizing k line with
  | zero => rfl
  | succ fuel ih =>
      rw [hexdumpRows, if_pos hk, intAdd]
      split
      · next hadd =>
          rw [← Nat.mul_succ] at hadd ⊢
          change (writeRow options data (16 * k) line >>= fun line =>
            hexdumpRows options data fuel (16 * (k + 1)) line >>= fun lines =>
              some (upToNul line :: lines)) = none
          cases writeRow options data (16 * k) line with
          | none => rfl
          | some line' =>
              change (hexdumpRows options data fuel (16 * (k + 1)) line' >>= fun lines =>
                some (upToNul line' :: lines)) = none
              rw [ih (by omega) line']
              rfl
      · rfl

/-- **What the dump logs**: the rows of the data, unless an `int` cannot count them. -/
theorem commonsLogHexdump2_eq {level : LogLevel} (hlevel : checkLevel level = true)
    (options : UInt32) (data : List UInt8) {line : Block} (hline : line.length = 80) :
    commonsLogHexdump2 level options data line =
      if data.length + 16 ≤ 2 ^ 31 then some (rowTexts options data) else none := by
  rw [commonsLogHexdump2, if_pos hlevel]
  split
  · next hlength =>
      have hrows : hexdumpRows options data (data.length + 1) (16 * 0) line = _ :=
        hexdumpRows_eq options hlength (Nat.zero_le _) (by omega) hline
      rwa [Nat.sub_zero, ← List.range_eq_range'] at hrows
  · exact hexdumpRows_overflow options (by omega) (k := 0) _ (by omega) line

/-- What is read from the rows is the data. -/
theorem rowTexts_reads (options : UInt32) (data : List UInt8) :
    (rowTexts options data).flatMap (readRow options) = data := by
  have hfirst : ∀ n, (List.range n).flatMap
      (fun k => readRow options (rowText options data (16 * k))) = data.take (16 * n) := by
    intro n
    induction n with
    | zero => rfl
    | succ n ih =>
        rw [List.range_succ, List.flatMap_append, ih, List.flatMap_singleton, readRow_rowText,
          Nat.mul_succ, List.take_add]
  rw [rowTexts, List.flatMap_map, hfirst, List.take_of_length_le (by omega)]

/-- **A hex dump shows the data.**  It is defined for what an `int` can count; then every
row fits into `line`, together the digits are read as the data, and the index of a row
is read as its place up to 16 MiB. -/
theorem commonsLogHexdump2_reads {level : LogLevel} (hlevel : checkLevel level = true)
    (options : UInt32) (data : List UInt8) {line : Block} (hline : line.length = 80) :
    ((commonsLogHexdump2 level options data line).isSome ↔ data.length + 16 ≤ 2 ^ 31) ∧
    ∀ lines, commonsLogHexdump2 level options data line = some lines →
      lines.flatMap (readRow options) = data ∧ lines.length = (data.length + 15) / 16 ∧
      ∀ k (hk : k < lines.length), lines[k].length < line.length ∧
        lines[k] = rowText options data (16 * k) ∧
        (options &&& hexdumpIndex ≠ 0 →
          (Hex.readNumber (lines[k].take 6) = 16 * k ↔ 16 * k < 16 ^ 6)) := by
  rw [commonsLogHexdump2_eq hlevel options data hline]
  refine ⟨by split <;> simp_all, fun lines hlines => ?_⟩
  obtain rfl : rowTexts options data = lines := by
    split at hlines
    · exact Option.some.inj hlines
    · cases hlines
  refine ⟨rowTexts_reads options data, by rw [rowTexts, List.length_map, List.length_range],
    fun k hk => ?_⟩
  have hrow : (rowTexts options data)[k] = rowText options data (16 * k) := by
    simp only [rowTexts, List.getElem_map, List.getElem_range]
  rw [hrow]
  refine ⟨?_, rfl, fun hindex => readNumber_rowText hindex data (16 * k)⟩
  rw [hline]
  exact (length_rowText_le options data (16 * k)).trans_lt (by decide)

/-- 18 bytes. -/
def twoRows : List UInt8 := [0x41, 0, 0xFF] ++ List.replicate 15 0x20

/-- Two rows, whatever was on the stack. -/
theorem commonsLogHexdump2_reads_two :
    ∃ lines, commonsLogHexdump2 .debug hexdumpAll twoRows (List.replicate 80 0xAA) = some lines ∧
      lines.flatMap (readRow hexdumpAll) = twoRows ∧ lines.length = 2 ∧
      ∀ k (hk : k < lines.length), Hex.readNumber (lines[k].take 6) = 16 * k := by
  have hlevel : checkLevel .debug = true := by decide
  obtain ⟨hdefined, hreads⟩ := commonsLogHexdump2_reads hlevel hexdumpAll twoRows
    (List.length_replicate (n := 80) (a := 0xAA))
  obtain ⟨lines, hlines⟩ := Option.isSome_iff_exists.1 (hdefined.2 (by decide))
  obtain ⟨hdata, hlen, hrows⟩ := hreads lines hlines
  have htwo : lines.length = 2 := hlen
  refine ⟨lines, hlines, hdata, htwo, fun k hk => ?_⟩
  have hsmall : 16 * k < 16 ^ 6 := by omega
  exact ((hrows k hk).2.2 (by decide)).2 hsmall

end CommonsC.Logging
