import CommonsC.Base.Lines
import CommonsC.GcdbUpdater.Model

/-!
# CommonsC.GcdbUpdater.Filter

The file that a body gives.

`mappingOf` is what the filter is for: the text written for one line of the
database.  `writeLine_eq` shows that the in-place edit prints this text,
`lineLoop_eq` that the loop does so for every complete line, and
`bodyCb_eq` that `body_cb` reads its chunk as a line reader does
(`Lines.feed`).  That the chunks make no difference is then `Lines.foldl_feed`.
-/

namespace CommonsC.GcdbUpdater

open CString Lines

/-! ## One line -/

/-- What a line of the database gives: nothing, or the line without the first
match and with the platform at its end. -/
def mappingOf (updater : Updater) (line : List UInt8) : List UInt8 :=
  match (upToNul line).dropInfix? updater.platform_match_substr.bytes with
  | none => []
  | some (before, after) =>
      before ++ after ++ ascii "platform:" ++ updater.platform.bytes ++ ascii ",\n"

/-- The byte after `junk` ones, counted from the front instead. -/
theorem exists_cons_of_append (junk rest : Block) :
    ∃ (b : UInt8) (gap : Block),
      gap.length = junk.length ∧ junk ++ 0 :: rest = b :: (gap ++ rest) := by
  cases junk with
  | nil => exact ⟨0, [], rfl, rfl⟩
  | cons b junk => exact ⟨b, junk ++ [0], by simp, by simp⟩

/-- `cutMatch` closes the gap that the match leaves in its line. -/
theorem cutMatch_eq {pre : Block} {p : Nat} (h : pre.length = p) (needle after rest : Block) :
    ∃ gap : Block, gap.length = needle.length ∧
      cutMatch (pre ++ (needle ++ (after ++ 0 :: rest))) p (p + needle.length)
        (p + (needle ++ after).length) = some (pre ++ (after ++ 0 :: (gap ++ rest))) := by
  have hnext : p + (needle ++ after).length - (p + needle.length) = after.length := by
    rw [List.length_append]
    omega
  by_cases hafter : after = []
  · subst hafter
    obtain ⟨b, gap, hgap, hbytes⟩ := exists_cons_of_append needle rest
    refine ⟨gap, hgap, ?_⟩
    rw [cutMatch, if_neg (by simp), List.nil_append, hbytes, Block.store_append h, List.nil_append]
  · have hpos : 0 < after.length := List.length_pos_iff.2 hafter
    obtain ⟨junk, hjunk, hmove⟩ := Block.memmove_down h needle after (0 :: rest) rfl rfl
    obtain ⟨b, gap, hgap, hbytes⟩ := exists_cons_of_append junk rest
    refine ⟨gap, hgap.trans hjunk, ?_⟩
    have hlen : (pre ++ after).length = p + after.length := by rw [List.length_append, h]
    rw [cutMatch, if_pos (by rw [List.length_append]; omega), hnext, hmove, hbytes,
      ← List.append_assoc pre]
    simp only [Option.bind_eq_bind, Option.bind_some]
    rw [Block.store_append hlen, List.append_assoc]

/-- Taking the match out of a line takes it out of the line's string. -/
theorem cutMatch_found {pre : Block} {p : Nat} (h : pre.length = p) {needle line : List UInt8}
    {before after : List UInt8} (hfind : (upToNul line).dropInfix? needle = some (before, after))
    (rest : Block) :
    ∃ left gap : Block, upToNul left = before ++ after ∧ left.length + gap.length = line.length ∧
      cutMatch (pre ++ (line ++ 0 :: rest)) (p + before.length)
          (p + before.length + needle.length) (p + line.length) =
        some (pre ++ (left ++ 0 :: (gap ++ rest))) := by
  have hwhole : upToNul line = before ++ needle ++ after := eq_of_dropInfix hfind
  obtain ⟨more, hmore, hnul⟩ := upToNul_split line
  rw [hwhole] at hmore
  have hbefore : (pre ++ before).length = p + before.length := by rw [List.length_append, h]
  obtain ⟨gap, hgap, hcut⟩ := cutMatch_eq hbefore needle (after ++ more) rest
  have hbuf : pre ++ before ++ (needle ++ (after ++ more ++ 0 :: rest)) =
      pre ++ (line ++ 0 :: rest) := by
    rw [hmore]
    simp only [List.append_assoc]
  have hlen : p + before.length + (needle ++ (after ++ more)).length = p + line.length := by
    rw [hmore]
    simp only [List.length_append]
    omega
  refine ⟨before ++ (after ++ more), gap, ?_, ?_, ?_⟩
  · have hkeep : 0 ∉ before ++ after := fun hmem => by
      refine not_mem_upToNul line ?_
      rw [hwhole]
      simp only [List.mem_append] at hmem ⊢
      exact hmem.elim (fun h => .inl (.inl h)) .inr
    rw [← List.append_assoc, upToNul_append hkeep, hnul, List.append_nil]
  · rw [hmore, hgap]
    simp only [List.length_append]
    omega
  · rw [hbuf, hlen] at hcut
    rw [hcut]
    simp only [List.append_assoc]

/-- **One line**: what is printed is what the line gives, and the buffer after
the line is as it was. -/
theorem writeLine_eq (updater : Updater) {pre : Block} {p : Nat} (h : pre.length = p)
    (line rest : Block) :
    ∃ done : Block, done.length = p + line.length + 1 ∧
      writeLine updater (pre ++ (line ++ newline :: rest)) p (p + line.length) =
        some (done ++ rest, mappingOf updater line) := by
  have hlen : (pre ++ line).length = p + line.length := by rw [List.length_append, h]
  have hstore : Block.store (pre ++ (line ++ newline :: rest)) (p + line.length) 0 =
      some (pre ++ (line ++ 0 :: rest)) := by
    rw [← List.append_assoc, Block.store_append hlen, List.append_assoc]
  rw [writeLine, hstore]
  simp only [Option.bind_eq_bind, Option.bind_some, Block.strstr_append h]
  cases hfind : (upToNul line).dropInfix? updater.platform_match_substr.bytes with
  | none =>
      refine ⟨pre ++ (line ++ [0]), ?_, ?_⟩
      · simp only [List.length_append, List.length_singleton]
        omega
      · simp [mappingOf, hfind]
  | some parts =>
      obtain ⟨before, after⟩ := parts
      obtain ⟨left, gap, hleft, hlength, hcut⟩ := cutMatch_found h hfind rest
      have hneedle : updater.platform_match_substr.bytes.length =
          updater.platform_match_substr_len := updater.len_eq.symm
      rw [hneedle] at hcut
      refine ⟨pre ++ (left ++ 0 :: gap), ?_, ?_⟩
      · simp only [List.length_append, List.length_cons]
        omega
      · simp only [Option.map_some, hcut, Option.bind_some, Block.string_append h, hleft,
          mappingOf, hfind]
        simp

/-! ## The loop -/

/-- `write` takes a line out of the buffer and prints its text. -/
def Writes (write : Block → Nat → Nat → Option (Block × List UInt8))
    (text : List UInt8 → List UInt8) : Prop :=
  ∀ (pre line rest : Block), ∃ done : Block, done.length = pre.length + line.length + 1 ∧
    write (pre ++ (line ++ newline :: rest)) pre.length (pre.length + line.length) =
      some (done ++ rest, text line)

/-- **The loop** prints what the complete lines give, and moves the tail to the
beginning of the buffer. -/
theorem lineLoop_eq {write : Block → Nat → Nat → Option (Block × List UInt8)}
    {text : List UInt8 → List UInt8} (hwrites : Writes write text) (fuel : Nat)
    (ctx : TaskContext) (written : List UInt8) (hfp : ctx.fp = some written)
    {done todo rest : Block} (hbuf : ctx.buf = done ++ (todo ++ rest))
    (hsize : ctx.size = done.length + todo.length) (hfuel : todo.length < fuel) :
    ∃ ctx', lineLoop write fuel ctx done.length = some ctx' ∧ ctx'.updater = ctx.updater ∧
      ctx'.status = ctx.status ∧
      ctx'.fp = some (written ++ (complete newline todo).flatMap text) ∧
      ctx'.pending = tail newline todo ∧ ctx'.size ≤ ctx'.buf.length := by
  induction fuel generalizing ctx written done todo with
  | zero => exact absurd hfuel (Nat.not_lt_zero _)
  | succ fuel ih =>
      have hcount : ctx.size - done.length = todo.length := by omega
      rw [lineLoop, hcount, hbuf]
      rcases cases_line newline todo with htail | ⟨line, todo', hline, rfl⟩
      · -- No terminator is left.
        rw [Block.memchr_append_none rfl htail rest rfl]
        obtain ⟨junk, -, hmove⟩ := Block.memmove_down (List.length_nil (α := UInt8)) done todo rest
          (Nat.zero_add _).symm rfl
        rw [List.nil_append] at hmove
        simp only [Option.bind_eq_bind, Option.bind_some, hmove, Option.some.injEq,
          exists_eq_left', hfp, complete_of_not_mem htail, tail_of_not_mem htail,
          List.flatMap_nil, List.append_nil, true_and]
        refine ⟨?_, ?_⟩
        · simp [TaskContext.pending]
        · simp
      · -- A line more.
        obtain ⟨done', hdone, hwrite⟩ := hwrites done line (todo' ++ rest)
        have hbytes : line ++ newline :: todo' ++ rest = line ++ newline :: (todo' ++ rest) := by
          simp
        rw [hbytes, Block.memchr_append rfl hline todo' rest rfl]
        simp only [Option.bind_eq_bind, Option.bind_some, hwrite]
        rw [← hdone]
        obtain ⟨ctx', hrun, hupdater, hstatus, hfp', hpending, hle⟩ :=
          ih ({ ctx with buf := done' ++ (todo' ++ rest) }.fprintf (text line))
            (written ++ text line) (by simp [TaskContext.fprintf, hfp]) rfl
            (by
              simp only [TaskContext.fprintf, hsize, hdone, List.length_append, List.length_cons]
              omega)
            (by
              rw [List.length_append, List.length_cons] at hfuel
              omega)
        refine ⟨ctx', hrun, hupdater, hstatus, ?_, ?_, hle⟩
        · rw [hfp', complete_append_cons hline, List.flatMap_cons, List.append_assoc]
        · rw [hpending, tail_append_cons hline]

/-! ## The body -/

/-- The context is where a line reader is that has written `st.1` and has
`st.2` pending. -/
structure Reads (updater : Updater) (ctx : TaskContext) (st : List UInt8 × List UInt8) : Prop where
  updater_eq : ctx.updater = updater
  fp_eq : ctx.fp = some st.1
  pending_eq : ctx.pending = st.2
  size_le : ctx.size ≤ ctx.buf.length
  status_nonneg : 0 ≤ ctx.status

/-- The buffer that `body_cb` hands to `write_mapping_lines`. -/
theorem grow_eq (fresh : Nat → UInt8) (buf : Block) {size : Nat} (h : size ≤ buf.length)
    (chunk : List UInt8) :
    ((buf.realloc fresh (size + chunk.length + 1)).memcpy size chunk).bind
        (·.store (size + chunk.length) 0) =
      some (buf.take size ++ chunk ++ [0]) := by
  obtain ⟨room, hroom, hgrown⟩ : ∃ room : Block, room.length = chunk.length + 1 ∧
      buf.realloc fresh (size + chunk.length + 1) = buf.take size ++ room := by
    refine ⟨(buf.realloc fresh (size + chunk.length + 1)).drop size, ?_, ?_⟩
    · simp only [Block.realloc, List.length_drop, List.length_append, List.length_take,
        List.length_map, List.length_range']
      omega
    · have hkeep : (buf.realloc fresh (size + chunk.length + 1)).take size = buf.take size := by
        have hle : size ≤ (buf.take (size + chunk.length + 1)).length := by
          rw [List.length_take]
          omega
        rw [Block.realloc, List.take_append_of_le_length hle, List.take_take]
        congr 1
        omega
      rw [← hkeep, List.take_append_drop]
  have hsize : (buf.take size).length = size := List.length_take_of_le h
  have hlast : (buf.take size ++ chunk).length = size + chunk.length := by
    rw [List.length_append, hsize]
  obtain ⟨old, last, rfl, hold⟩ : ∃ (old : Block) (last : UInt8),
      room = old ++ [last] ∧ old.length = chunk.length := by
    refine ⟨room.dropLast, room.getLast (List.ne_nil_of_length_pos (by omega)),
      (List.dropLast_append_getLast _).symm, ?_⟩
    rw [List.length_dropLast]
    omega
  rw [hgrown, Block.memcpy_append hsize hold, Option.bind_some, ← List.append_assoc,
    Block.store_append hlast]

/-- The loop over a buffer that has grown by a chunk reads the chunk as a line
reader does. -/
theorem lineLoop_grown {write : Block → Nat → Nat → Option (Block × List UInt8)}
    {text : List UInt8 → List UInt8} (hwrites : Writes write text) (chunk : List UInt8)
    {updater : Updater} {ctx : TaskContext} {st : List UInt8 × List UInt8}
    (h : Reads updater ctx st) :
    ∃ ctx', lineLoop write (ctx.size + chunk.length + 1)
        { ctx with
          buf := ctx.buf.take ctx.size ++ chunk ++ [0]
          size := ctx.size + chunk.length } 0 = some ctx' ∧
      ctx'.status = ctx.status ∧ Reads updater ctx' (feed newline text st chunk) := by
  have hpending : ctx.buf.take ctx.size = st.2 := h.pending_eq
  have hlen : st.2.length = ctx.size := by rw [← hpending, List.length_take_of_le h.size_le]
  rw [hpending]
  obtain ⟨ctx', hrun, hupdater, hstatus, hfp, htail, hle⟩ :=
    lineLoop_eq hwrites (ctx.size + chunk.length + 1)
      { ctx with buf := st.2 ++ chunk ++ [0], size := ctx.size + chunk.length } st.1 h.fp_eq
      (List.nil_append (st.2 ++ chunk ++ [0])).symm
      (by simp only [List.length_append, List.length_nil, hlen]; omega)
      (by simp only [List.length_append, hlen]; omega)
  refine ⟨ctx', hrun, hstatus, hupdater.trans h.updater_eq, hfp, htail, hle, ?_⟩
  rw [hstatus]
  exact h.status_nonneg

/-- **`body_cb` reads a chunk as a line reader does**, and takes all of it. -/
theorem bodyCb_eq (fresh : Nat → UInt8) (chunk : List UInt8) {updater : Updater}
    {ctx : TaskContext} {st : List UInt8 × List UInt8} (h : Reads updater ctx st) :
    ∃ ctx', bodyCb fresh chunk ctx = some (chunk.length, ctx') ∧ ctx'.status = ctx.status ∧
      Reads updater ctx' (feed newline (mappingOf updater) st chunk) := by
  have hgrow := grow_eq fresh ctx.buf h.size_le chunk
  have hupdater := h.updater_eq
  subst hupdater
  obtain ⟨ctx', hrun, hstatus, hreads⟩ :=
    lineLoop_grown (fun pre line rest => writeLine_eq ctx.updater (rfl : pre.length = _) line rest)
      chunk h
  refine ⟨ctx', ?_, hstatus, hreads⟩
  rw [bodyCb, if_neg (by have := h.status_nonneg; omega)]
  simp only [Option.bind_eq_bind, ← Option.bind_assoc, hgrow, Option.bind_some]
  rw [writeMappingLines, if_neg (by simp [h.fp_eq]), hrun]
  rfl

/-- The calls for a body read it as a line reader does, and take all of it. -/
theorem transferCalls_body (fresh : Nat → UInt8) (chunks : List (List UInt8)) {updater : Updater}
    {ctx : TaskContext} {st : List UInt8 × List UInt8} (h : Reads updater ctx st) :
    ∃ ctx', transferCalls (bodyCb fresh) List.length chunks ctx = some (true, ctx') ∧
      ctx'.status = ctx.status ∧
      Reads updater ctx' (chunks.foldl (feed newline (mappingOf updater)) st) := by
  induction chunks generalizing ctx st with
  | nil => exact ⟨ctx, rfl, rfl, h⟩
  | cons chunk chunks ih =>
      obtain ⟨ctx', hrun, hstatus, hreads⟩ := bodyCb_eq fresh chunk h
      obtain ⟨ctx'', hruns, hstatus', hreads'⟩ := ih hreads
      refine ⟨ctx'', ?_, hstatus'.trans hstatus, hreads'⟩
      rw [transferCalls, hrun]
      simp only [Option.bind_eq_bind, Option.bind_some, if_true, hruns]

/-- **The filter does not depend on the chunks**: on any body, in any chunks,
it writes what the complete lines give, in order, and keeps the tail. -/
theorem bodyCbs_filter (fresh : Nat → UInt8) (platform : CString) (platform_use : Option CString)
    {body : List UInt8} {chunks : List (List UInt8)} (hbody : chunks.flatten = body)
    {ctx : TaskContext} (hupdater : ctx.updater = commonsGcdbUpdaterInit platform platform_use)
    {written : List UInt8} (hfp : ctx.fp = some written) (hstatus : ctx.status = 200)
    (hsize : ctx.size = 0) :
    ∃ ctx', bodyCbs fresh chunks ctx = some ctx' ∧
      ctx'.fp = some (written ++ (complete newline body).flatMap
        (mappingOf (commonsGcdbUpdaterInit platform platform_use))) ∧
      ctx'.pending = tail newline body := by
  have hempty : ctx.pending = [] := by rw [TaskContext.pending, hsize, List.take_zero]
  have hreads : Reads (commonsGcdbUpdaterInit platform platform_use) ctx (written, []) :=
    ⟨hupdater, hfp, hempty, by omega, by omega⟩
  obtain ⟨ctx', hrun, -, hreads'⟩ := transferCalls_body fresh chunks hreads
  rw [foldl_feed _ _ List.not_mem_nil, List.nil_append, hbody] at hreads'
  refine ⟨ctx', ?_, hreads'.fp_eq, hreads'.pending_eq⟩
  rw [bodyCbs, hrun, Option.map_some]

/-- A context at the end of its headers, for an application that calls itself
webOS and uses the mappings of Linux. -/
def webOSContext : TaskContext where
  updater := commonsGcdbUpdaterInit (.lit "webOS") (some (.lit "Linux"))
  buf := [0xaa]
  size := 0
  fp := some (ascii "# etag: 1\n")
  status := 200

theorem bodyCbs_filter_webOS :
    ∃ ctx', bodyCbs (fun _ => 0xaa)
        [ascii "g,platfo", ascii "rm:Linux,\nx\nh,", ascii "platform:Lin"] webOSContext =
          some ctx' ∧
      ctx'.fp = some (ascii "# etag: 1\ng,platform:webOS,\n") ∧
      ctx'.pending = ascii "h,platform:Lin" := by
  have hsize : webOSContext.size = 0 := rfl
  obtain ⟨ctx', hrun, hfp, hpending⟩ :=
    bodyCbs_filter (fun _ => 0xaa) (.lit "webOS") (some (.lit "Linux")) rfl rfl rfl rfl hsize
  refine ⟨ctx', hrun, hfp.trans ?_, hpending.trans ?_⟩
  · decide
  · decide

end CommonsC.GcdbUpdater
