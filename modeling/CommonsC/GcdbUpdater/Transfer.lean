import CommonsC.GcdbUpdater.Etag

/-!
# CommonsC.GcdbUpdater.Transfer

An update of the database file.

`update_task` gives libcurl its callbacks and judges the transfer by the status
of the response.  What libcurl does is a parameter: for the headers of the
request, the calls that it makes, and the code that `curl_easy_perform` returns
if no callback stops it.  `updateTask_opened` is the file after a response that
opens it, and `updateTask_allOrNothing` tells for which transfers an update is
all or nothing.
-/

namespace CommonsC.GcdbUpdater

open CString Lines

/-! ## The task -/

/-- `commons_gcdb_status_t`. -/
inductive Status where
  | updated
  | noUpdate
  | httpError
  | curlError
  deriving DecidableEq

/-- `CURLE_OK`. -/
def curleOk : Nat := 0

/-- `CURLE_WRITE_ERROR`, for a callback that does not take its data. -/
def curleWriteError : Nat := 23

/-- The response code is 301 or 302. -/
def HeaderCall.isRedirect (call : HeaderCall) : Bool :=
  call.response_code = 301 || call.response_code = 302

/-- The calls for the response that is not a redirect. -/
def responseCalls (calls : List HeaderCall) : List HeaderCall :=
  calls.dropWhile (·.isRedirect)

/-- What libcurl makes of a request.  A response code has three digits, or is
zero, a call for headers brings data, and the headers come in whole lines before
the body. -/
structure Transfer where
  headers : List HeaderCall
  chunks : List (List UInt8)
  /-- The body that the server means to send. -/
  body : List UInt8
  /-- What `curl_easy_perform` returns if no callback stops it. -/
  code : Nat
  codes : ∀ call ∈ headers, 0 ≤ call.response_code ∧ call.response_code < 1000
  data : ∀ call ∈ headers, call.buffer ≠ []
  whole : chunks ≠ [] → tail newline ((responseCalls headers).map (·.buffer)).flatten = []
  arrives : chunks.flatten <+: body

/-- `curl_easy_perform`: its result, and the context. -/
def curlEasyPerform (fresh : Nat → UInt8) (access : FileAccess) (transfer : Transfer)
    (ctx : TaskContext) : Option (Nat × TaskContext) := do
  let (all, ctx) ← headerCbs fresh access transfer.headers ctx
  if all then
    let (all, ctx) ← transferCalls (bodyCb fresh) List.length transfer.chunks ctx
    some (if all then transfer.code else curleWriteError, ctx)
  else some (curleWriteError, ctx)

/-- The file after `fclose`. -/
def TaskContext.fileAfter (ctx : TaskContext) (file : Option (List UInt8)) : Option (List UInt8) :=
  ctx.fp.elim file some

/-- The verdict of `update_task`. -/
def verdict (status : Int) (code : Nat) : Status :=
  if status = 200 then .updated
  else if status = 304 then .noUpdate
  else if 400 ≤ status then .httpError
  else if code ≠ curleOk then .curlError
  else .noUpdate

/-- `update_task`, for a database file that need not exist: the result, and the
file after it. -/
def updateTask (fresh : Nat → UInt8) (access : FileAccess) (curl : List CString → Transfer)
    (updater : Updater) (file : Option (List UInt8)) :
    Option (Status × Option (List UInt8)) := do
  let headers ← setupHeaders file
  let (code, ctx) ← curlEasyPerform fresh access (curl headers) (.new fresh updater)
  some (verdict ctx.status code, ctx.fileAfter file)

/-! ## What is meant -/

/-- A header line without its carriage return. -/
def chomp (line : List UInt8) : List UInt8 :=
  if line.getLast? = some 13 then line.dropLast else line

namespace Transfer

variable (transfer : Transfer)

/-- The header lines of the response. -/
def headerLines : List (List UInt8) :=
  complete newline ((responseCalls transfer.headers).map (·.buffer)).flatten

/-- The file that the whole response gives: the line of its entity tag, and one
line for every matching line of its body. -/
def wanted (updater : Updater) : List UInt8 :=
  (transfer.headerLines.filterMap fun line => etagOf (chomp line)).flatMap etagLine ++
    (lines newline transfer.body).flatMap (mappingOf updater)

/-- The lines of the body that do not arrive with their newline. -/
def undelivered : List (List UInt8) :=
  (lines newline transfer.body).drop (complete newline transfer.chunks.flatten).length

/-- The response does not open the file. -/
def Untouched (access : FileAccess) : Prop :=
  ∀ call ∈ (responseCalls transfer.headers).head?, call.response_code = 200 →
    access.opens = false

end Transfer

/-- A header line that has its carriage return and no NUL, and is noted right. -/
def HeaderRight (line : List UInt8) : Prop :=
  line = [] ∨ ∃ text, line = text ++ [13] ∧ 0 ∉ text ∧ NotedRight text

/-- The line is one for the updater's platform. -/
def Matches (updater : Updater) (line : List UInt8) : Prop :=
  updater.platform_match_substr.bytes <:+: upToNul line

/-- An update that is reported has the file that is meant, after a transfer
without an error, and another one leaves the file as it was. -/
def AllOrNothing (fresh : Nat → UInt8) (access : FileAccess) (curl : List CString → Transfer)
    (updater : Updater) (file : Option (List UInt8)) : Prop :=
  ∃ headers code ctx result after, setupHeaders file = some headers ∧
    curlEasyPerform fresh access (curl headers) (.new fresh updater) = some (code, ctx) ∧
    updateTask fresh access curl updater file = some (result, after) ∧
    (result = .updated → code = curleOk ∧ after = some ((curl headers).wanted updater)) ∧
    (result ≠ .updated → after = file)

/-! ## The response that counts -/

section

variable (fresh : Nat → UInt8) (access : FileAccess)

/-- The calls for a redirect change nothing. -/
theorem headerCbs_redirects (calls : List HeaderCall) {ctx : TaskContext} (h : ctx.status = 0) :
    headerCbs fresh access calls ctx = headerCbs fresh access (responseCalls calls) ctx := by
  induction calls with
  | nil => rfl
  | cons call calls ih =>
      rw [responseCalls, List.dropWhile_cons]
      split
      · next hredirect =>
          have hcode : call.response_code = 301 ∨ call.response_code = 302 := by
            simpa [HeaderCall.isRedirect] using hredirect
          have hcall : headerCb fresh access call ctx = some (call.buffer.length, ctx) := by
            rw [headerCb, if_pos h, if_pos hcode]
          rw [headerCbs] at ih ⊢
          rw [transferCalls, hcall]
          simp only [Option.bind_eq_bind, Option.bind_some, if_true]
          exact ih
      · rfl

theorem not_redirect_of_responseCalls {calls rest : List HeaderCall} {call : HeaderCall}
    (h : responseCalls calls = call :: rest) :
    call ∈ calls ∧ ¬(call.response_code = 301 ∨ call.response_code = 302) := by
  have hmem : call ∈ responseCalls calls := h ▸ List.mem_cons_self
  refine ⟨(List.dropWhile_suffix _).mem hmem, ?_⟩
  have hhead := List.head?_dropWhile_not (·.isRedirect) calls
  rw [responseCalls] at h
  rw [h] at hhead
  simpa [HeaderCall.isRedirect] using hhead

/-- A body that comes while no file is open is only kept. -/
theorem bodyCb_closed (chunk : List UInt8) {ctx : TaskContext} (hfp : ctx.fp = none)
    (hstatus : 0 ≤ ctx.status) (hsize : ctx.size ≤ ctx.buf.length) :
    ∃ ctx', bodyCb fresh chunk ctx = some (chunk.length, ctx') ∧ ctx'.fp = none ∧
      ctx'.status = ctx.status ∧ ctx'.size ≤ ctx'.buf.length := by
  refine ⟨{ ctx with
    buf := ctx.buf.take ctx.size ++ chunk ++ [0]
    size := ctx.size + chunk.length }, ?_, hfp, rfl, ?_⟩
  · rw [bodyCb, if_neg (Int.not_lt.2 hstatus)]
    simp only [Option.bind_eq_bind, ← Option.bind_assoc, grow_eq fresh ctx.buf hsize chunk,
      Option.bind_some]
    rw [writeMappingLines, if_pos hfp, Option.bind_some]
  · simp only [List.length_append, List.length_take_of_le hsize]
    omega

theorem transferCalls_closed (chunks : List (List UInt8)) (ctx : TaskContext)
    (hfp : ctx.fp = none) (hstatus : 0 ≤ ctx.status) (hsize : ctx.size ≤ ctx.buf.length) :
    ∃ ctx', transferCalls (bodyCb fresh) List.length chunks ctx = some (true, ctx') ∧
      ctx'.fp = none ∧ ctx'.status = ctx.status := by
  induction chunks generalizing ctx with
  | nil => exact ⟨ctx, rfl, hfp, rfl⟩
  | cons chunk chunks ih =>
      obtain ⟨ctx', hrun, hfp', hstatus', hsize'⟩ := bodyCb_closed fresh chunk hfp hstatus hsize
      obtain ⟨ctx'', hruns, hfp'', hstatus''⟩ := ih ctx' hfp' (hstatus' ▸ hstatus) hsize'
      refine ⟨ctx'', ?_, hfp'', hstatus''.trans hstatus'⟩
      rw [transferCalls, hrun]
      simp only [Option.bind_eq_bind, Option.bind_some, if_true, hruns]

variable (transfer : Transfer) (updater : Updater)

/-- A response that does not open the file leaves it closed, and is not a
success. -/
theorem curlEasyPerform_untouched (h : transfer.Untouched access) :
    ∃ code ctx, curlEasyPerform fresh access transfer (.new fresh updater) = some (code, ctx) ∧
      ctx.fp = none ∧ ctx.status ≠ 200 := by
  rw [curlEasyPerform, headerCbs_redirects fresh access transfer.headers rfl]
  rw [Transfer.Untouched] at h
  cases hresponse : responseCalls transfer.headers with
  | nil =>
      obtain ⟨ctx, hrun, hfp, hstatus⟩ :=
        transferCalls_closed fresh transfer.chunks (.new fresh updater) rfl
          (Int.le_refl 0) (Nat.zero_le _)
      refine ⟨transfer.code, ctx, ?_, hfp, ?_⟩
      · rw [headerCbs, transferCalls]
        simp only [Option.bind_eq_bind, Option.bind_some, if_true, hrun]
      · rw [hstatus]
        exact (by decide : (0 : Int) ≠ 200)
  | cons call rest =>
      obtain ⟨hcall, hdirect⟩ := not_redirect_of_responseCalls hresponse
      rw [hresponse] at h
      -- The first call takes nothing, and the transfer stops.
      obtain ⟨status, hstatus, hfirst⟩ : ∃ status : Int, status ≠ 200 ∧
          headerCb fresh access call (.new fresh updater) =
            some (0, { TaskContext.new fresh updater with status }) := by
        by_cases hcode : call.response_code = 200
        · refine ⟨-1, by decide, ?_⟩
          simp [headerCb, TaskContext.new, hcode, h call rfl hcode]
        · obtain ⟨hlow, hhigh⟩ := transfer.codes call hcall
          have hnarrow : Numeral.toInt call.response_code = call.response_code := by
            have hlt : call.response_code.toNat < 2 ^ 31 := by omega
            rw [← Int.toNat_of_nonneg hlow, Numeral.toInt_of_lt hlt]
          refine ⟨call.response_code, hcode, ?_⟩
          simp [headerCb, TaskContext.new, hdirect, hcode, hnarrow]
      refine ⟨curleWriteError, { TaskContext.new fresh updater with status }, ?_, rfl, hstatus⟩
      have hdata : ¬0 = call.buffer.length := fun hlen =>
        transfer.data call hcall (List.length_eq_zero_iff.1 hlen.symm)
      rw [headerCbs, transferCalls, hfirst]
      simp only [Option.bind_eq_bind, Option.bind_some, if_neg hdata]
      rfl

/-- A file that cannot be locked trips the assertion of `header_cb`. -/
theorem curlEasyPerform_unlocked (hopens : access.opens = true) (hlocks : access.locks = false)
    {call : HeaderCall} {rest : List HeaderCall}
    (hresponse : responseCalls transfer.headers = call :: rest)
    (hcode : call.response_code = 200) :
    curlEasyPerform fresh access transfer (.new fresh updater) = none := by
  have hfirst : headerCb fresh access call (.new fresh updater) = none := by
    simp [headerCb, TaskContext.new, hcode, hopens, hlocks, appendHeader]
  rw [curlEasyPerform, headerCbs_redirects fresh access transfer.headers rfl, hresponse, headerCbs,
    transferCalls, hfirst]
  rfl

/-- **A response that opens the file** writes its notes and the mappings of what
arrives of its body, and is a success whatever the transfer ends with. -/
theorem curlEasyPerform_opened {call : HeaderCall} {rest : List HeaderCall}
    (hresponse : responseCalls transfer.headers = call :: rest)
    (hcode : call.response_code = 200) :
    ∃ ctx, curlEasyPerform fresh ⟨true, true⟩ transfer (.new fresh updater) =
        some (transfer.code, ctx) ∧
      ctx.status = 200 ∧
      ctx.fp = some (transfer.headerLines.flatMap noteOf ++
        (complete newline transfer.chunks.flatten).flatMap (mappingOf updater)) := by
  obtain ⟨ctx, hrun, hstatus, hreads⟩ := headerCbs_response fresh updater call rest hcode
  rw [← hresponse] at hrun hreads
  obtain ⟨ctx', hrun', hstatus', hreads'⟩ := transferCalls_body fresh transfer.chunks hreads
  refine ⟨ctx', ?_, hstatus'.trans hstatus, ?_⟩
  · rw [curlEasyPerform, headerCbs_redirects fresh _ transfer.headers rfl, hrun]
    simp only [Option.bind_eq_bind, Option.bind_some, if_true, hrun']
  · rw [hreads'.fp_eq]
    by_cases hchunks : transfer.chunks = []
    · rw [hchunks, List.foldl_nil, List.flatten_nil, complete_of_not_mem List.not_mem_nil,
        List.flatMap_nil, List.append_nil, Transfer.headerLines]
    · rw [transfer.whole hchunks, foldl_feed _ _ List.not_mem_nil, List.nil_append,
        Transfer.headerLines]

end

/-! ## All or nothing -/

section

variable {fresh : Nat → UInt8} {access : FileAccess} {curl : List CString → Transfer}
  {updater : Updater} {file : Option (List UInt8)}

theorem setupHeaders_isSome (file : Option (List UInt8)) :
    ∃ headers, setupHeaders file = some headers := by
  cases file with
  | none => exact ⟨[], rfl⟩
  | some fp =>
      obtain ⟨headers, h⟩ := headersLoop_total (Nat.lt_succ_self fp.length) []
      exact ⟨_, h⟩

/-- A header line that is right is noted for what it means. -/
theorem noteOf_of_headerRight {line : List UInt8} (h : HeaderRight line) :
    noteOf line = (etagOf (chomp line)).elim [] etagLine := by
  rcases h with rfl | ⟨text, rfl, hnul, hright⟩
  · rfl
  · rw [noteOf_eq hnul, notedRight_iff.1 hright, chomp, List.getLast?_concat, if_pos rfl,
      List.dropLast_concat]

theorem notes_of_headerRight {lines : List (List UInt8)} (h : ∀ line ∈ lines, HeaderRight line) :
    lines.flatMap noteOf =
      (lines.filterMap fun line => etagOf (chomp line)).flatMap etagLine := by
  induction lines with
  | nil => rfl
  | cons line lines ih =>
      rw [List.flatMap_cons, noteOf_of_headerRight (h line List.mem_cons_self),
        ih fun l hl => h l (List.mem_cons_of_mem _ hl), List.filterMap_cons]
      cases etagOf (chomp line) <;> rfl

theorem mappingOf_eq_nil {line : List UInt8} :
    mappingOf updater line = [] ↔ ¬Matches updater line := by
  rw [Matches, ← dropInfix_eq_none, mappingOf]
  cases (upToNul line).dropInfix? updater.platform_match_substr.bytes with
  | none => simp
  | some parts => simp [ascii]

/-- The lines of a body are those that arrive whole, and those that do not. -/
theorem Transfer.lines_body (transfer : Transfer) :
    lines newline transfer.body = complete newline transfer.chunks.flatten ++
      transfer.undelivered := by
  obtain ⟨rest, hrest⟩ := transfer.arrives
  rw [undelivered, ← hrest, lines_append, List.drop_left]

/-- The bodies give the same mappings if nothing that matters is missing. -/
theorem mappings_eq_iff (transfer : Transfer) :
    (complete newline transfer.chunks.flatten).flatMap (mappingOf updater) =
        (lines newline transfer.body).flatMap (mappingOf updater) ↔
      ∀ line ∈ transfer.undelivered, ¬Matches updater line := by
  rw [transfer.lines_body, List.flatMap_append, List.self_eq_append_right, List.flatMap_eq_nil_iff]
  simp only [mappingOf_eq_nil]

/-- `update_task` reports a success exactly after the status of one. -/
theorem verdict_eq_updated {status : Int} {code : Nat} :
    verdict status code = .updated ↔ status = 200 := by
  rw [verdict]
  split
  · next h => simp [h]
  · next h =>
      split
      · simp [h]
      · split
        · simp [h]
        · split <;> simp [h]

theorem allOrNothing_iff {headers : List CString} (hheaders : setupHeaders file = some headers) :
    AllOrNothing fresh access curl updater file ↔
      ∃ code ctx, curlEasyPerform fresh access (curl headers) (.new fresh updater) =
          some (code, ctx) ∧
        (ctx.status = 200 →
          code = curleOk ∧ ctx.fileAfter file = some ((curl headers).wanted updater)) ∧
        (ctx.status ≠ 200 → ctx.fileAfter file = file) := by
  constructor
  · rintro ⟨headers', code, ctx, result, after, hheaders', hrun, htask, hupdated, hother⟩
    rw [hheaders] at hheaders'
    cases hheaders'
    rw [updateTask, hheaders] at htask
    simp only [Option.bind_eq_bind, Option.bind_some, hrun, Option.some.injEq, Prod.mk.injEq]
      at htask
    obtain ⟨rfl, rfl⟩ := htask
    rw [verdict_eq_updated] at hupdated
    rw [ne_eq, verdict_eq_updated] at hother
    exact ⟨code, ctx, hrun, hupdated, hother⟩
  · rintro ⟨code, ctx, hrun, hupdated, hother⟩
    refine ⟨headers, code, ctx, verdict ctx.status code, ctx.fileAfter file, hheaders, hrun, ?_,
      ?_, ?_⟩
    · rw [updateTask, hheaders]
      simp only [Option.bind_eq_bind, Option.bind_some, hrun]
    · rwa [verdict_eq_updated]
    · rwa [ne_eq, verdict_eq_updated]

/-- After a response that opens the file, it is the verdict that counts. -/
theorem allOrNothing_opened {headers : List CString} (hheaders : setupHeaders file = some headers)
    (htouched : ¬(curl headers).Untouched access) :
    AllOrNothing fresh access curl updater file ↔
      access.locks = true ∧ (curl headers).code = curleOk ∧
        (curl headers).headerLines.flatMap noteOf ++
            (complete newline (curl headers).chunks.flatten).flatMap (mappingOf updater) =
          (curl headers).wanted updater := by
  obtain ⟨call, hhead, hcode, hopens⟩ : ∃ call ∈ (responseCalls (curl headers).headers).head?,
      call.response_code = 200 ∧ access.opens = true := by
    simpa [Transfer.Untouched] using htouched
  obtain ⟨rest, hresponse⟩ := List.head?_eq_some_iff.1 hhead
  rw [allOrNothing_iff hheaders]
  obtain ⟨opens, locks⟩ := access
  cases locks with
  | false =>
      rw [curlEasyPerform_unlocked fresh _ _ updater hopens rfl hresponse hcode]
      simp
  | true =>
      obtain ⟨ctx, hrun, hstatus, hfp⟩ :=
        curlEasyPerform_opened fresh (curl headers) updater hresponse hcode
      rw [show opens = true from hopens, hrun]
      simp [hstatus, TaskContext.fileAfter, hfp]

/-- A transfer that breaks off after the headers, with `CURLE_PARTIAL_FILE`. -/
def brokenTransfer : Transfer where
  headers :=
    [⟨200, ascii "HTTP/2 200 \r\n"⟩, ⟨200, ascii "ETag: \"1\"\r\n"⟩, ⟨200, ascii "\r\n"⟩]
  chunks := []
  body := ascii "g,platform:Linux,\n"
  code := 18
  codes := by decide
  data := by decide
  whole h := absurd rfl h
  arrives := List.nil_prefix

/-- It is reported as an update, and the mappings are gone. -/
theorem brokenTransfer_not_allOrNothing :
    updateTask (fun _ => 0xaa) ⟨true, true⟩ (fun _ => brokenTransfer)
        (commonsGcdbUpdaterInit (.lit "Linux") none) (some (ascii "f,platform:Linux,\n")) =
      some (.updated, some (ascii "# etag: \"1\"\n")) ∧
    ¬AllOrNothing (fun _ => 0xaa) ⟨true, true⟩ (fun _ => brokenTransfer)
        (commonsGcdbUpdaterInit (.lit "Linux") none) (some (ascii "f,platform:Linux,\n")) := by
  have hheaders : setupHeaders (some (ascii "f,platform:Linux,\n")) = some [] := rfl
  have htouched : ¬brokenTransfer.Untouched ⟨true, true⟩ := fun h =>
    Bool.noConfusion (h ⟨200, ascii "HTTP/2 200 \r\n"⟩ rfl rfl)
  obtain ⟨ctx, hrun, hstatus, hfp⟩ :=
    curlEasyPerform_opened (fun _ => 0xaa) brokenTransfer
      (commonsGcdbUpdaterInit (.lit "Linux") none) rfl rfl
  constructor
  · have hfile : brokenTransfer.headerLines.flatMap noteOf ++
        (complete newline brokenTransfer.chunks.flatten).flatMap
          (mappingOf (commonsGcdbUpdaterInit (.lit "Linux") none)) = ascii "# etag: \"1\"\n" := by
      decide +kernel
    rw [updateTask, hheaders]
    simp only [Option.bind_eq_bind, Option.bind_some, hrun, hstatus, TaskContext.fileAfter, hfp,
      hfile, Option.elim_some]
    rfl
  · rw [allOrNothing_opened hheaders htouched]
    exact fun h => absurd h.2.1 (by decide)

/-- **All or nothing**: an update is, if its response does not open the file, or
if the file is locked, the transfer ends without an error, the headers are noted
right and no line that matters is missing.  Only headers that are not noted
right could by chance make up for such a line. -/
theorem updateTask_allOrNothing (fresh : Nat → UInt8) (access : FileAccess)
    (curl : List CString → Transfer) (updater : Updater) (file : Option (List UInt8)) :
    ∃ headers, setupHeaders file = some headers ∧
      ((curl headers).Untouched access ∨
          (access.locks = true ∧ (curl headers).code = curleOk ∧
            (∀ line ∈ (curl headers).headerLines, HeaderRight line) ∧
            ∀ line ∈ (curl headers).undelivered, ¬Matches updater line) →
        AllOrNothing fresh access curl updater file) ∧
      (AllOrNothing fresh access curl updater file →
        (curl headers).Untouched access ∨
          (access.locks = true ∧ (curl headers).code = curleOk ∧
            ((∀ line ∈ (curl headers).headerLines, HeaderRight line) →
              ∀ line ∈ (curl headers).undelivered, ¬Matches updater line))) := by
  obtain ⟨headers, hheaders⟩ := setupHeaders_isSome file
  refine ⟨headers, hheaders, ?_⟩
  by_cases htouched : (curl headers).Untouched access
  · refine ⟨fun _ => ?_, fun _ => .inl htouched⟩
    obtain ⟨code, ctx, hrun, hfp, hstatus⟩ :=
      curlEasyPerform_untouched fresh access (curl headers) updater htouched
    refine (allOrNothing_iff hheaders).2 ⟨code, ctx, hrun, fun h => absurd h hstatus, fun _ => ?_⟩
    rw [TaskContext.fileAfter, hfp, Option.elim_none]
  · rw [allOrNothing_opened hheaders htouched, Transfer.wanted]
    constructor
    · rintro (h | ⟨hlocks, hcode, hright, hmissing⟩)
      · exact absurd h htouched
      · exact ⟨hlocks, hcode, by rw [notes_of_headerRight hright, (mappings_eq_iff _).2 hmissing]⟩
    · rintro ⟨hlocks, hcode, hfile⟩
      refine .inr ⟨hlocks, hcode, fun hright => ?_⟩
      rw [notes_of_headerRight hright] at hfile
      exact (mappings_eq_iff _).1 (List.append_cancel_left hfile)

end

end CommonsC.GcdbUpdater
