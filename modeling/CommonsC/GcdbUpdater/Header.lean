import CommonsC.Base.Numeral
import CommonsC.Base.Strings
import CommonsC.GcdbUpdater.Filter

/-!
# CommonsC.GcdbUpdater.Header

The headers of a transfer.

`header_cb` opens the database file at the first response that is no redirect,
and `write_header_lines` notes the entity tag in it, as a comment.
`noteOf` is the text that is written for a line, and `headerCbs_response` shows
that the calls for a response write it for each, however the headers are cut.
-/

namespace CommonsC.GcdbUpdater

open CString Lines

/-! ## Writing -/

/-- End the line before its last byte, which is the carriage return. -/
def endLine (buf : Block) (curLine nextLine : Nat) : Option Block := do
  let buf ← buf.store nextLine 0
  if curLine < nextLine then buf.store (nextLine - 1) 0 else some buf

/-- The header line from `curLine` to `nextLine`: the buffer, and what is
printed. -/
def writeHeaderLine (buf : Block) (curLine nextLine : Nat) : Option (Block × List UInt8) := do
  let buf ← endLine buf curLine nextLine
  match ← buf.strstr curLine (.lit ": ") with
  | none => some (buf, [])
  | some headerValue =>
      let s ← buf.string curLine
      if strncasecmp s (ascii "etag") (headerValue - curLine) = 0 then
        let value ← buf.string (headerValue + 2)
        some (buf, ascii "# etag: " ++ value ++ ascii "\n")
      else some (buf, [])

/-- `write_header_lines`. -/
def writeHeaderLines (ctx : TaskContext) : Option TaskContext :=
  if ctx.fp = none then some ctx else lineLoop writeHeaderLine (ctx.size + 1) ctx 0

/-- A call of `header_cb`: the response code at that time, and the data. -/
structure HeaderCall where
  response_code : Int
  buffer : List UInt8

/-- How `fopen` for writing and `lockf` end. -/
structure FileAccess where
  opens : Bool
  locks : Bool

/-- The end of `header_cb`, from the assertion on. -/
def appendHeader (fresh : Nat → UInt8) (buffer : List UInt8) (ctx : TaskContext) :
    Option (Nat × TaskContext) :=
  if ctx.status ≠ 200 then none
  else do
    let realsize := buffer.length
    let buf := ctx.buf.realloc fresh (ctx.size + realsize + 1)
    let buf ← buf.memcpy ctx.size buffer
    let size := ctx.size + realsize
    let buf ← buf.store size 0
    let ctx ← writeHeaderLines { ctx with buf, size }
    some (realsize, ctx)

/-- `header_cb`: the number of bytes taken, and the context; `none` is also a
failed assertion. -/
def headerCb (fresh : Nat → UInt8) (file : FileAccess) (call : HeaderCall) (ctx : TaskContext) :
    Option (Nat × TaskContext) :=
  if ctx.status = 0 then
    let status := call.response_code
    if status = 301 ∨ status = 302 then some (call.buffer.length, ctx)
    else
      let ctx := { ctx with status := Numeral.toInt status }
      if status ≠ 200 then some (0, ctx)
      else if file.opens then
        let ctx := { ctx with fp := some [] }
        appendHeader fresh call.buffer (if file.locks then ctx else { ctx with status := -1 })
      else some (0, { ctx with status := -1 })
  else appendHeader fresh call.buffer ctx

/-- The calls for the headers. -/
def headerCbs (fresh : Nat → UInt8) (file : FileAccess) :
    List HeaderCall → TaskContext → Option (Bool × TaskContext) :=
  transferCalls (headerCb fresh file) (·.buffer.length)

/-! ## One line -/

/-- What is noted for a header line, which is without its newline: its value,
if what is before the first `: ` begins `etag`. -/
def noteOf (line : List UInt8) : List UInt8 :=
  match (upToNul line.dropLast).dropInfix? (ascii ": ") with
  | none => []
  | some (before, after) =>
      if strncasecmp (upToNul line.dropLast) (ascii "etag") before.length = 0 then
        ascii "# etag: " ++ after ++ ascii "\n"
      else []

/-- `endLine` keeps all of the line but its last byte. -/
theorem endLine_eq (pre line rest : Block) :
    ∃ gap : Block, line.dropLast.length + gap.length = line.length ∧
      endLine (pre ++ (line ++ newline :: rest)) pre.length (pre.length + line.length) =
        some (pre ++ (line.dropLast ++ 0 :: (gap ++ rest))) := by
  have hlen : (pre ++ line).length = pre.length + line.length := List.length_append
  rw [endLine, ← List.append_assoc, Block.store_append hlen, List.append_assoc]
  simp only [Option.bind_eq_bind, Option.bind_some]
  rcases List.eq_nil_or_concat' line with rfl | ⟨line, last, rfl⟩
  · exact ⟨[], rfl, if_neg (by simp)⟩
  · have hcut : (pre ++ line).length = pre.length + (line ++ [last]).length - 1 := by
      simp only [List.length_append, List.length_singleton]
      omega
    refine ⟨[0], by simp, ?_⟩
    rw [if_pos (by simp), List.append_assoc, List.singleton_append, ← List.append_assoc,
      Block.store_append hcut, List.dropLast_concat, List.append_assoc]
    rfl

/-- **One line**: what is printed is the note for the line. -/
theorem writeHeaderLine_eq : Writes writeHeaderLine noteOf := by
  intro pre line rest
  obtain ⟨gap, hgap, hend⟩ := endLine_eq pre line rest
  refine ⟨pre ++ (line.dropLast ++ 0 :: gap), ?_, ?_⟩
  · simp only [List.length_append, List.length_cons]
    omega
  rw [writeHeaderLine, hend]
  simp only [Option.bind_eq_bind, Option.bind_some, Block.strstr_append rfl]
  cases hfind : (upToNul line.dropLast).dropInfix? (lit ": ").bytes with
  | none => simp [noteOf, show (upToNul line.dropLast).dropInfix? (ascii ": ") = none from hfind]
  | some parts =>
      obtain ⟨before, after⟩ := parts
      have hwhole : upToNul line.dropLast = before ++ ascii ": " ++ after := eq_of_dropInfix hfind
      obtain ⟨more, hmore, hnul⟩ := upToNul_split line.dropLast
      have hvalue : Block.string (pre ++ (line.dropLast ++ 0 :: (gap ++ rest)))
          (pre.length + before.length + 2) = some after := by
        have hafter : 0 ∉ after := fun hmem =>
          not_mem_upToNul line.dropLast (by simp [hwhole, hmem])
        have hpre : (pre ++ (before ++ ascii ": ")).length = pre.length + before.length + 2 := by
          simp only [List.length_append]
          rfl
        have hbuf : pre ++ (line.dropLast ++ 0 :: (gap ++ rest)) =
            pre ++ (before ++ ascii ": ") ++ (after ++ more ++ 0 :: (gap ++ rest)) := by
          rw [hmore, hwhole]
          simp only [List.append_assoc]
        rw [hbuf, Block.string_append hpre, upToNul_append hafter, hnul, List.append_nil]
      have hcount : pre.length + before.length - pre.length = before.length := by omega
      simp only [Option.map_some, Option.bind_some, Block.string_append rfl, hcount, hvalue, noteOf,
        show (upToNul line.dropLast).dropInfix? (ascii ": ") = some (before, after) from hfind]
      split <;> simp

/-! ## The headers -/

/-- A call reads its chunk as a line reader does, once the file is open. -/
theorem appendHeader_eq (fresh : Nat → UInt8) (chunk : List UInt8) {updater : Updater}
    {ctx : TaskContext} {st : List UInt8 × List UInt8} (h : Reads updater ctx st)
    (hstatus : ctx.status = 200) :
    ∃ ctx', appendHeader fresh chunk ctx = some (chunk.length, ctx') ∧ ctx'.status = 200 ∧
      Reads updater ctx' (feed newline noteOf st chunk) := by
  have hgrow := grow_eq fresh ctx.buf h.size_le chunk
  obtain ⟨ctx', hrun, hstatus', hreads⟩ := lineLoop_grown writeHeaderLine_eq chunk h
  refine ⟨ctx', ?_, hstatus'.trans hstatus, hreads⟩
  rw [appendHeader, if_neg (not_not.2 hstatus)]
  simp only [Option.bind_eq_bind, ← Option.bind_assoc, hgrow, Option.bind_some]
  rw [writeHeaderLines, if_neg (by simp [h.fp_eq]), hrun]
  rfl

theorem headerCbs_eq (fresh : Nat → UInt8) (file : FileAccess) (calls : List HeaderCall)
    {updater : Updater} {ctx : TaskContext} {st : List UInt8 × List UInt8}
    (h : Reads updater ctx st) (hstatus : ctx.status = 200) :
    ∃ ctx', headerCbs fresh file calls ctx = some (true, ctx') ∧ ctx'.status = 200 ∧
      Reads updater ctx' ((calls.map (·.buffer)).foldl (feed newline noteOf) st) := by
  induction calls generalizing ctx st with
  | nil => exact ⟨ctx, rfl, hstatus, h⟩
  | cons call calls ih =>
      obtain ⟨ctx', hrun, hstatus', hreads⟩ := appendHeader_eq fresh call.buffer h hstatus
      obtain ⟨ctx'', hruns, hstatus'', hreads'⟩ := ih hreads hstatus'
      refine ⟨ctx'', ?_, hstatus'', hreads'⟩
      rw [headerCbs] at hruns ⊢
      rw [transferCalls, headerCb, if_neg (by omega), hrun]
      simp only [Option.bind_eq_bind, Option.bind_some, if_true, hruns]

/-- The context that `update_thread_start` allocates. -/
def TaskContext.new (fresh : Nat → UInt8) (updater : Updater) : TaskContext where
  updater
  buf := [fresh 0]
  size := 0
  fp := none
  status := 0

/-- **The headers of a response** that is not a redirect and not an error. -/
theorem headerCbs_response (fresh : Nat → UInt8) (updater : Updater) (call : HeaderCall)
    (calls : List HeaderCall) (hcode : call.response_code = 200) :
    ∃ ctx, headerCbs fresh ⟨true, true⟩ (call :: calls) (.new fresh updater) = some (true, ctx) ∧
      ctx.status = 200 ∧
      Reads updater ctx
        ((complete newline ((call :: calls).map (·.buffer)).flatten).flatMap noteOf,
          tail newline ((call :: calls).map (·.buffer)).flatten) := by
  have hreads : Reads updater { TaskContext.new fresh updater with status := 200, fp := some [] }
      ([], []) := ⟨rfl, rfl, rfl, Nat.zero_le _, Int.le_of_lt (by decide : (0 : Int) < 200)⟩
  obtain ⟨ctx, hrun, hstatus, hreads'⟩ :=
    headerCbs_eq fresh ⟨true, true⟩ (call :: calls) hreads rfl
  rw [foldl_feed _ _ List.not_mem_nil, List.nil_append, List.nil_append] at hreads'
  refine ⟨ctx, ?_, hstatus, hreads'⟩
  have hnarrow : Numeral.toInt 200 = 200 := Numeral.toInt_of_lt (n := 200) (by decide)
  -- The first call opens the file, and goes on as a call with the file open does.
  have hfirst : headerCb fresh ⟨true, true⟩ call (.new fresh updater) =
      headerCb fresh ⟨true, true⟩ call
        { TaskContext.new fresh updater with status := 200, fp := some [] } := by
    simp [headerCb, TaskContext.new, hcode, hnarrow]
  rw [headerCbs, transferCalls, hfirst]
  rwa [headerCbs, transferCalls] at hrun

end CommonsC.GcdbUpdater
