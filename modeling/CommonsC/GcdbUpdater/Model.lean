import CommonsC.Base.CString

/-!
# CommonsC.GcdbUpdater.Model

The body of a transfer in `device/gcdb-updater/gamecontrollerdb_updater.c`.

`body_cb` appends what arrives to a growing buffer, and `write_mapping_lines`
takes complete lines off it: a line for this platform loses its platform field
in place, and is written with the platform that the application asks for.
Pointers into the buffer are offsets, and an access outside of it is `none`.
-/

namespace CommonsC.GcdbUpdater

/-! ## The updater -/

/-- What `commons_gcdb_updater_t` tells the filter. -/
structure Updater where
  platform : CString
  platform_use : Option CString
  platform_match_substr : CString
  platform_match_substr_len : Nat
  /-- The length is that of the string. -/
  len_eq : platform_match_substr_len = platform_match_substr.strlen

/-- The `platform_match_substr` of a platform: `snprintf` of `platform:%s,`. -/
def matchSubstr (platform : CString) : CString :=
  CString.snprintf (platform.strlen + 10 + 1)
    (((CString.lit "platform:").append platform).append (CString.lit ","))

theorem bytes_matchSubstr (platform : CString) :
    (matchSubstr platform).bytes = ascii "platform:" ++ platform.bytes ++ ascii "," := by
  refine List.take_of_length_le ?_
  simp only [CString.append, CString.lit, CString.strlen, List.length_append]
  have hplatform : (ascii "platform:").length = 9 := by decide
  have hcomma : (ascii ",").length = 1 := by decide
  omega

/-- `commons_gcdb_updater_init`. -/
def commonsGcdbUpdaterInit (platform : CString) (platform_use : Option CString) : Updater :=
  let used := platform_use.getD platform
  { platform
    platform_use
    platform_match_substr := matchSubstr used
    platform_match_substr_len := used.strlen + 10
    len_eq := by
      have hplatform : (ascii "platform:").length = 9 := by decide
      have hcomma : (ascii ",").length = 1 := by decide
      rw [CString.strlen, CString.strlen, bytes_matchSubstr, List.length_append,
        List.length_append]
      omega }

/-! ## The transfer -/

/-- `task_context`.  Of the file, what was written to it; `none` is `NULL`. -/
structure TaskContext where
  updater : Updater
  buf : Block
  size : Nat
  fp : Option (List UInt8)
  status : Int

/-- `fprintf` to `fp`. -/
def TaskContext.fprintf (ctx : TaskContext) (bytes : List UInt8) : TaskContext :=
  { ctx with fp := ctx.fp.map (· ++ bytes) }

/-- What is waiting for the rest of its line. -/
def TaskContext.pending (ctx : TaskContext) : List UInt8 := ctx.buf.take ctx.size

/-- `'\n'`. -/
def newline : UInt8 := 10

/-- Take the match at `plat` out of the line. -/
def cutMatch (buf : Block) (plat platEnd nextLine : Nat) : Option Block :=
  if platEnd < nextLine then do
    let buf ← buf.memmove plat platEnd (nextLine - platEnd)
    buf.store (plat + (nextLine - platEnd)) 0
  else buf.store plat 0

/-- The line from `curLine` to `nextLine`: the buffer, and what is printed. -/
def writeLine (updater : Updater) (buf : Block) (curLine nextLine : Nat) :
    Option (Block × List UInt8) := do
  let buf ← buf.store nextLine 0
  match ← buf.strstr curLine updater.platform_match_substr with
  | none => some (buf, [])
  | some plat =>
      let buf ← cutMatch buf plat (plat + updater.platform_match_substr_len) nextLine
      let s ← buf.string curLine
      some (buf, s ++ ascii "platform:" ++ updater.platform.bytes ++ ascii ",\n")

/-- The loop over the complete lines of the buffer, from `curLine` on: what
`write` prints for each goes to the file, and the rest to the front. -/
def lineLoop (write : Block → Nat → Nat → Option (Block × List UInt8)) :
    (fuel : Nat) → TaskContext → (curLine : Nat) → Option TaskContext
  | 0, _, _ => none
  | fuel + 1, ctx, curLine => do
      match ← ctx.buf.memchr curLine newline (ctx.size - curLine) with
      | some nextLine =>
          let (buf, printed) ← write ctx.buf curLine nextLine
          lineLoop write fuel ({ ctx with buf }.fprintf printed) (nextLine + 1)
      | none =>
          let rem := ctx.size - curLine
          let buf ← ctx.buf.memmove 0 curLine rem
          some { ctx with size := rem, buf }

/-- `write_mapping_lines`. -/
def writeMappingLines (ctx : TaskContext) : Option TaskContext :=
  if ctx.fp = none then some ctx
  else lineLoop (writeLine ctx.updater) (ctx.size + 1) ctx 0

/-- `body_cb`: the number of bytes taken, and the context. -/
def bodyCb (fresh : Nat → UInt8) (buffer : List UInt8) (ctx : TaskContext) :
    Option (Nat × TaskContext) :=
  if ctx.status < 0 then some (0, ctx)
  else do
    let realsize := buffer.length
    let buf := ctx.buf.realloc fresh (ctx.size + realsize + 1)
    let buf ← buf.memcpy ctx.size buffer
    let size := ctx.size + realsize
    let buf ← buf.store size 0
    let ctx ← writeMappingLines { ctx with buf, size }
    some (realsize, ctx)

/-- The calls of a callback: whether all were made, and the context.  The
transfer stops when a call does not take what it is given. -/
def transferCalls {Call : Type} (callback : Call → TaskContext → Option (Nat × TaskContext))
    (size : Call → Nat) : List Call → TaskContext → Option (Bool × TaskContext)
  | [], ctx => some (true, ctx)
  | call :: calls, ctx => do
      let (taken, ctx) ← callback call ctx
      if taken = size call then transferCalls callback size calls ctx else some (false, ctx)

/-- A body that arrives in chunks.  The transfer stops when a chunk is not
taken whole. -/
def bodyCbs (fresh : Nat → UInt8) (chunks : List (List UInt8)) (ctx : TaskContext) :
    Option TaskContext :=
  (transferCalls (bodyCb fresh) List.length chunks ctx).map Prod.snd

end CommonsC.GcdbUpdater
