import CommonsC.Base.Revalidate
import CommonsC.GcdbUpdater.RoundTrip
import CommonsC.GcdbUpdater.Transfer

/-!
# CommonsC.GcdbUpdater.Freshness

The database file over many updates.

A server publishes versions of the database, and answers a request with an
`if-none-match` for the entity tag of its version by 304.  Then the database
file is a mirror (`Mirror`) of what it publishes: `update_refines` is the step of
`update_task`, `current_of_update` tells when the file is the version, and
`kept_until_published` that a part of a version, from a transfer that broke off,
is never completed before another version is published.
-/

namespace CommonsC.GcdbUpdater

open CString Lines

variable {updater : Updater}

/-! ## Versions and copies -/

/-- A version of the database: its entity tag, which fits `linebuf`, and its
text, of which no mapping looks like a comment. -/
structure Version (updater : Updater) where
  tag : List UInt8
  body : List UInt8
  clean : 0 ∉ tag ∧ newline ∉ tag
  fits : (etagLine tag).length ≤ 1023
  plain : ∀ line ∈ complete newline body, (mappingOf updater line).head? ≠ some 35

/-- What arrived of a version: whether its tag did, and a part of its text. -/
structure Copy (updater : Updater) where
  version : Version updater
  noted : Bool
  body : List UInt8
  arrives : body <+: version.body

namespace Copy

/-- The mappings of the lines that arrived. -/
def mappings (copy : Copy updater) : List UInt8 :=
  (complete newline copy.body).flatMap (mappingOf updater)

/-- The entity tags that arrived. -/
def tags (copy : Copy updater) : List (List UInt8) :=
  if copy.noted then [copy.version.tag] else []

/-- The database file for the copy. -/
def file (copy : Copy updater) : List UInt8 := copy.tags.flatMap etagLine ++ copy.mappings

/-- All of the version arrived. -/
def Whole (copy : Copy updater) : Prop := copy.noted = true ∧ copy.body = copy.version.body

end Copy

/-- The database file that a version gives. -/
def Version.file (version : Version updater) : List UInt8 :=
  etagLine version.tag ++ (complete newline version.body).flatMap (mappingOf updater)

theorem Copy.Whole.file_eq {copy : Copy updater} (h : copy.Whole) :
    copy.file = copy.version.file := by
  rw [file, tags, mappings, h.1, h.2, if_pos rfl, List.flatMap_singleton, Version.file]

/-- A copy is one of its version, and passes for those that have its tag. -/
def tagging (updater : Updater) : Tagging (Version updater) (Copy updater) where
  of copy version := copy.version = version
  passes copy version := version.tag ∈ copy.tags

/-! ## Reading the file back -/

/-- The loop ends at a line that is no comment. -/
theorem headersLoop_of_head {fp : List UInt8} (h : fp.head? ≠ some 35) (fuel : Nat)
    (headers : List CString) : headersLoop (fuel + 1) fp headers = some headers := by
  cases fp with
  | nil => rfl
  | cons b fp =>
      rw [headersLoop, fgets, if_neg (by simp), takeLine]
      by_cases hline : (b == newline) = true
      · rw [if_pos hline]
        exact if_pos h
      · rw [if_neg hline]
        exact if_pos h

theorem head_flatMap {f : List UInt8 → List UInt8} {lines : List (List UInt8)}
    (h : ∀ line ∈ lines, (f line).head? ≠ some 35) : (lines.flatMap f).head? ≠ some 35 := by
  induction lines with
  | nil => simp
  | cons line lines ih =>
      rw [List.flatMap_cons]
      cases hline : f line with
      | nil => exact ih fun l hl => h l (List.mem_cons_of_mem _ hl)
      | cons b rest =>
          have hhead := h line List.mem_cons_self
          rw [hline] at hhead
          exact hhead

theorem Copy.head_mappings (copy : Copy updater) : copy.mappings.head? ≠ some 35 := by
  refine head_flatMap fun line hline => copy.version.plain line ?_
  obtain ⟨rest, hrest⟩ := copy.arrives
  rw [← hrest, complete_append]
  exact List.mem_append_left _ hline

/-- Only the tag of the version arrives. -/
theorem Copy.tags_of_mem {copy : Copy updater} {tag : List UInt8} (h : tag ∈ copy.tags) :
    tag = copy.version.tag ∧ copy.tags = [copy.version.tag] := by
  rw [tags] at h ⊢
  cases hnoted : copy.noted with
  | false => simp [hnoted] at h
  | true =>
      rw [hnoted] at h
      exact ⟨List.mem_singleton.1 h, rfl⟩

/-- The next request asks for the tags that arrived. -/
theorem setupHeaders_file (copy : Copy updater) :
    setupHeaders (some copy.file) = some (copy.tags.map ifNoneMatch) := by
  have hlen := length_le_etagLines copy.tags
  obtain ⟨fuel, hfuel⟩ : ∃ fuel, copy.file.length + 1 = copy.tags.length + (fuel + 1) :=
    ⟨copy.file.length - copy.tags.length, by
      rw [Copy.file, List.length_append]
      omega⟩
  rw [setupHeaders, hfuel, Copy.file, headersLoop_etagLines, headersLoop_of_head copy.head_mappings,
    List.nil_append]
  · exact fun tag htag => (Copy.tags_of_mem htag).1 ▸ copy.version.clean
  · exact fun tag htag => (Copy.tags_of_mem htag).1 ▸ copy.version.fits

/-- The request has an `if-none-match` for the tag of the version. -/
def Asks (request : List CString) (version : Version updater) : Prop :=
  ascii "if-none-match: " ++ version.tag ∈ request.map (·.bytes)

theorem asks_iff_passes {copy : Copy updater} {version : Version updater} :
    Asks (copy.tags.map ifNoneMatch) version ↔ version.tag ∈ copy.tags := by
  have hbytes : (copy.tags.map ifNoneMatch).map (·.bytes) =
      copy.tags.map (ascii "if-none-match: " ++ ·) := by
    rw [List.map_map]
    refine List.map_congr_left fun tag htag => ?_
    rw [(Copy.tags_of_mem htag).1]
    exact bytes_ifNoneMatch copy.version.clean.1 copy.version.fits
  rw [Asks, hbytes, List.mem_map]
  constructor
  · rintro ⟨tag, htag, h⟩
    exact List.append_cancel_left h ▸ htag
  · exact fun h => ⟨_, h, rfl⟩

/-! ## An update -/

/-- How a server that has the version answers a request.  It sends the version
only if the request does not ask for its tag, in a response whose headers are
noted right; without an error of the transfer all of it arrives.  It answers 304
only if the request asks for the tag. -/
structure Answers (version : Version updater) (request : List CString) (transfer : Transfer) :
    Prop where
  success : ∀ call ∈ (responseCalls transfer.headers).head?, call.response_code = 200 →
    ¬Asks request version ∧ transfer.body = version.body ∧
      ∃ block : HeaderBlock, (∀ line ∈ block.headers, NotedRight line) ∧
        block.headers.filterMap etagOf = [version.tag] ∧
        ((responseCalls transfer.headers).map (·.buffer)).flatten <+: block.bytes ∧
        (transfer.code = curleOk →
          ((responseCalls transfer.headers).map (·.buffer)).flatten = block.bytes ∧
            transfer.chunks.flatten = transfer.body)
  notModified : ∀ call ∈ (responseCalls transfer.headers).head?, call.response_code = 304 →
    Asks request version
  /-- A transfer without an error has a response. -/
  response : transfer.code = curleOk → responseCalls transfer.headers ≠ []

/-- What is noted for the headers that arrive. -/
theorem exists_noted {block : HeaderBlock} (hright : ∀ line ∈ block.headers, NotedRight line)
    {tag : List UInt8} (htag : block.headers.filterMap etagOf = [tag]) {bytes : List UInt8}
    (hbytes : bytes <+: block.bytes) :
    ∃ noted : Bool, (complete newline bytes).flatMap noteOf =
        (if noted then [tag] else []).flatMap etagLine ∧ (bytes = block.bytes → noted = true) := by
  have hnoted : block.headers.filterMap notedOf = [tag] := by
    rw [← htag]
    exact List.filterMap_congr fun line hline => notedRight_iff.1 (hright line hline)
  by_cases hwhole : bytes = block.bytes
  · refine ⟨true, ?_, fun _ => rfl⟩
    rw [hwhole, block.notes_eq, HeaderBlock.notes, hnoted]
    rfl
  -- The lines that arrive are those of a shorter block.
  obtain ⟨rest, hrest⟩ := hbytes
  have hlines : complete newline bytes <+: (block.statusLine :: block.headers).map (· ++ [13]) := by
    refine ⟨complete newline (tail newline bytes ++ rest), ?_⟩
    rw [← complete_append, hrest, ← block.flatMap_bytes, complete_flatMap block.newline_not_mem]
  obtain ⟨k, hk⟩ : ∃ k, complete newline bytes = ((block.statusLine :: block.headers).take k).map
      (· ++ [13]) := ⟨_, (List.prefix_iff_eq_take.1 hlines).trans List.map_take.symm⟩
  cases k with
  | zero => exact ⟨false, by rw [hk]; rfl, fun h => absurd h hwhole⟩
  | succ k =>
      have hshort : complete newline bytes = complete newline (block.take k).bytes := by
        rw [hk, ← (block.take k).flatMap_bytes, complete_flatMap (block.take k).newline_not_mem]
        rfl
      rw [hshort, (block.take k).notes_eq, HeaderBlock.notes, HeaderBlock.headers_take]
      have hprefix := (List.take_prefix k block.headers).filterMap notedOf
      rw [hnoted] at hprefix
      obtain h | h : (block.headers.take k).filterMap notedOf = [] ∨
          (block.headers.take k).filterMap notedOf = [tag] := by
        cases hpart : (block.headers.take k).filterMap notedOf with
        | nil => exact .inl rfl
        | cons value values =>
            rw [hpart] at hprefix
            obtain ⟨more, hmore⟩ := hprefix
            rw [List.cons_append, List.cons.injEq, List.append_eq_nil_iff] at hmore
            exact .inr (by rw [hmore.1, hmore.2.1])
      · exact ⟨false, by rw [h]; rfl, fun h => absurd h hwhole⟩
      · exact ⟨true, by rw [h]; rfl, fun h => absurd h hwhole⟩

section

variable (fresh : Nat → UInt8) {access : FileAccess} {version : Version updater}
  {request : List CString} {transfer : Transfer} {file : Option (List UInt8)}

/-- **A response that opens the file** leaves a copy of the version. -/
theorem updateTask_success (hrequest : setupHeaders file = some request)
    (hlocks : access.locks = true) (hanswers : Answers version request transfer)
    (htouched : ¬transfer.Untouched access) :
    ¬Asks request version ∧ ∃ copy : Copy updater, copy.version = version ∧
      (transfer.code = curleOk → copy.Whole) ∧
      copy.file = transfer.headerLines.flatMap noteOf ++
        (complete newline transfer.chunks.flatten).flatMap (mappingOf updater) ∧
      updateTask fresh access (fun _ => transfer) updater file =
        some (.updated, some copy.file) := by
  obtain ⟨call, hhead, hcode, hopens⟩ : ∃ call ∈ (responseCalls transfer.headers).head?,
      call.response_code = 200 ∧ access.opens = true := by
    simpa [Transfer.Untouched] using htouched
  obtain ⟨rest, hresponse⟩ := List.head?_eq_some_iff.1 hhead
  obtain ⟨hasks, hbody, block, hright, htag, hprefix, hwhole⟩ := hanswers.success call hhead hcode
  obtain ⟨noted, hnotes, hall⟩ := exists_noted hright htag hprefix
  obtain ⟨ctx, hrun, hstatus, hfp⟩ :=
    curlEasyPerform_opened fresh transfer updater hresponse hcode
  have haccess : access = ⟨true, true⟩ := by
    obtain ⟨opens, locks⟩ := access
    cases hopens
    cases hlocks
    rfl
  have hfile : Copy.file ⟨version, noted, transfer.chunks.flatten, hbody ▸ transfer.arrives⟩ =
      transfer.headerLines.flatMap noteOf ++
        (complete newline transfer.chunks.flatten).flatMap (mappingOf updater) := by
    rw [Transfer.headerLines, hnotes]
    rfl
  refine ⟨hasks, _, rfl, fun hok => ⟨hall (hwhole hok).1, (hwhole hok).2.trans hbody⟩, hfile, ?_⟩
  rw [updateTask, hrequest, haccess, hfile]
  simp only [Option.bind_eq_bind, Option.bind_some, hrun, hstatus, TaskContext.fileAfter, hfp]
  rfl

/-- No update is reported for a response of 304, or where no response is. -/
theorem notModified_of_verdict (htouched : transfer.Untouched access)
    (hresponse : transfer.code = curleOk → responseCalls transfer.headers ≠ []) {code : Nat}
    {ctx : TaskContext}
    (hrun : curlEasyPerform fresh access transfer (.new fresh updater) = some (code, ctx))
    (hverdict : verdict ctx.status code = .noUpdate) :
    ∃ call ∈ (responseCalls transfer.headers).head?, call.response_code = 304 := by
  rw [curlEasyPerform, headerCbs_redirects fresh access transfer.headers rfl] at hrun
  cases hcalls : responseCalls transfer.headers with
  | nil =>
      obtain ⟨ctx', hchunks, -, hstatus⟩ :=
        transferCalls_closed fresh transfer.chunks (.new fresh updater) rfl
          (Int.le_refl 0) (Nat.zero_le _)
      rw [hcalls, headerCbs, transferCalls] at hrun
      simp only [Option.bind_eq_bind, Option.bind_some, if_true, hchunks, Option.some.injEq,
        Prod.mk.injEq] at hrun
      obtain ⟨rfl, rfl⟩ := hrun
      have herror : transfer.code ≠ curleOk := fun hok => hresponse hok hcalls
      have hzero : ctx'.status = 0 := hstatus
      rw [hzero, verdict, if_neg (by decide), if_neg (by decide), if_neg (by decide),
        if_pos herror] at hverdict
      cases hverdict
  | cons call rest =>
      refine ⟨call, rfl, ?_⟩
      obtain ⟨hcall, hdirect⟩ := not_redirect_of_responseCalls hcalls
      have hdata : ¬0 = call.buffer.length := fun hlen =>
        transfer.data call hcall (List.length_eq_zero_iff.1 hlen.symm)
      -- The first call takes nothing, and leaves a status that is 304 or an error.
      obtain ⟨status, hfirst, hstatus⟩ : ∃ status : Int,
          headerCb fresh access call (.new fresh updater) =
            some (0, { TaskContext.new fresh updater with status }) ∧
          (verdict status curleWriteError = .noUpdate → call.response_code = 304) := by
        by_cases hcode : call.response_code = 200
        · have hopens := htouched call (by rw [hcalls]; rfl) hcode
          exact ⟨-1, by simp [headerCb, TaskContext.new, hcode, hopens], fun h => by cases h⟩
        · obtain ⟨hlow, hhigh⟩ := transfer.codes call hcall
          have hnarrow : Numeral.toInt call.response_code = call.response_code := by
            have hlt : call.response_code.toNat < 2 ^ 31 := by omega
            rw [← Int.toNat_of_nonneg hlow, Numeral.toInt_of_lt hlt]
          refine ⟨call.response_code, by simp [headerCb, TaskContext.new, hdirect, hcode, hnarrow],
            fun h => ?_⟩
          rw [verdict, if_neg hcode] at h
          by_contra hother
          rw [if_neg hother, if_pos (show curleWriteError ≠ curleOk by decide)] at h
          split at h <;> cases h
      rw [hcalls, headerCbs, transferCalls, hfirst] at hrun
      simp only [Option.bind_eq_bind, Option.bind_some, if_neg hdata] at hrun
      cases hrun
      exact hstatus hverdict

/-- **A response that does not open the file** leaves it, and is reported as no
update exactly if it is 304. -/
theorem updateTask_untouched (hrequest : setupHeaders file = some request)
    (hanswers : Answers version request transfer) (htouched : transfer.Untouched access) :
    ∃ result, updateTask fresh access (fun _ => transfer) updater file = some (result, file) ∧
      result ≠ .updated ∧ (result = .noUpdate → Asks request version) := by
  obtain ⟨code, ctx, hrun, hfp, hstatus⟩ :=
    curlEasyPerform_untouched fresh access transfer updater htouched
  refine ⟨verdict ctx.status code, ?_, fun h => hstatus (verdict_eq_updated.1 h), fun h => ?_⟩
  · rw [updateTask, hrequest]
    simp only [Option.bind_eq_bind, Option.bind_some, hrun, TaskContext.fileAfter, hfp,
      Option.elim_none]
  · obtain ⟨call, hcall, hcode⟩ := notModified_of_verdict fresh htouched hanswers.response hrun h
    exact hanswers.notModified call hcall hcode

end

/-! ## Many updates -/

open TransitionSystem

/-- The version that the server has, and the database file. -/
structure Site (updater : Updater) where
  version : Version updater
  file : Option (List UInt8)

/-- What happens: the server publishes a version, or an update is reported, with
the code that its transfer ended with. -/
inductive SiteEvent where
  | publish
  | update (result : Status) (code : Nat)

variable (fresh : Nat → UInt8) (published : Set (Version updater)) (shipped : Option (List UInt8))

/-- One event.  The file is locked while an update writes it. -/
inductive SiteStep : Site updater → SiteEvent → Site updater → Prop
  | publish {s : Site updater} {version : Version updater} (h : version ∈ published) :
      SiteStep s .publish { s with version }
  | update {s : Site updater} {access : FileAccess} {request : List CString}
      {transfer : Transfer} {result : Status} {after : Option (List UInt8)}
      (hlocks : access.locks = true) (hrequest : setupHeaders s.file = some request)
      (hanswers : Answers s.version request transfer)
      (hupdate : updateTask fresh access (fun _ => transfer) updater s.file =
        some (result, after)) :
      SiteStep s (.update result transfer.code) { s with file := after }

/-- The updates of the file that the application is shipped with. -/
def site : TransitionSystem (Site updater) SiteEvent where
  init s := s.version ∈ published ∧ s.file = shipped
  step := SiteStep fresh published

/-- The transfer of a database does not break off. -/
def Unbroken (_ : Site updater) (e : SiteEvent) : Prop :=
  ∀ code, e = .update .updated code → code = curleOk

/-- The file is that of the copy, or the one that was shipped. -/
structure Site.Refines (shipped : Option (List UInt8)) (s : Site updater)
    (m : Mirror (Version updater) (Copy updater)) : Prop where
  version : m.version = s.version
  file : s.file = m.copy.elim shipped fun copy => some copy.file

variable {fresh published shipped}

/-- The request asks for what the mirror holds. -/
theorem Site.Refines.request {s : Site updater} {m : Mirror (Version updater) (Copy updater)}
    (h : s.Refines shipped m) (hshipped : setupHeaders shipped = some []) :
    ∃ request, setupHeaders s.file = some request ∧ ∀ version : Version updater,
      Asks request version ↔ ∃ copy ∈ m.copy, (tagging updater).passes copy version := by
  cases hcopy : m.copy with
  | none =>
      refine ⟨[], by rw [h.file, hcopy]; exact hshipped, fun version => ?_⟩
      simp [Asks]
  | some copy =>
      refine ⟨copy.tags.map ifNoneMatch, by rw [h.file, hcopy]; exact setupHeaders_file copy,
        fun version => asks_iff_passes.trans ?_⟩
      simp [tagging]

/-- What an event of the site is for the mirror. -/
def SiteEvent.Means : SiteEvent → Mirror.Event (Copy updater) → Prop
  | .publish, e => e = .publish
  | .update .updated code, e => ∃ copy, e = .refresh copy ∧ (code = curleOk → copy.Whole)
  | .update .noUpdate _, e => e = .confirm
  | .update _ _, e => e = .fail

/-- **An event of the site is one of a mirror.** -/
theorem update_refines (hshipped : setupHeaders shipped = some []) {s s' : Site updater}
    {m : Mirror (Version updater) (Copy updater)} (h : s.Refines shipped m) {e : SiteEvent}
    (hstep : SiteStep fresh published s e s') :
    ∃ e' m', Mirror.Step (tagging updater) published m e' m' ∧ s'.Refines shipped m' ∧
      e.Means e' := by
  cases hstep with
  | @publish version hpublished =>
      exact ⟨_, _, .publish hpublished, ⟨rfl, h.file⟩, rfl⟩
  | @update access request transfer result after hlocks hrequest hanswers hupdate =>
      obtain ⟨request', hrequest', hasks⟩ := h.request hshipped
      obtain rfl : request = request' := Option.some.inj (hrequest.symm.trans hrequest')
      rw [← h.version] at hanswers
      by_cases htouched : transfer.Untouched access
      · obtain ⟨result', hresult, hnot, hconfirm⟩ :=
          updateTask_untouched fresh hrequest hanswers htouched
        rw [hupdate] at hresult
        cases hresult
        cases result with
        | updated => exact absurd rfl hnot
        | noUpdate =>
            obtain ⟨copy, hcopy, hpasses⟩ := (hasks _).1 (hconfirm rfl)
            exact ⟨_, _, .confirm hcopy hpasses, h, rfl⟩
        | httpError | curlError => exact ⟨_, _, .fail, h, rfl⟩
      · obtain ⟨hnot, copy, hversion, hwhole, -, hresult⟩ :=
          updateTask_success fresh hrequest hlocks hanswers htouched
        rw [hupdate] at hresult
        cases hresult
        exact ⟨_, _, .refresh hversion fun q hq hpasses => hnot ((hasks _).2 ⟨q, hq, hpasses⟩),
          ⟨h.version, rfl⟩, copy, rfl, hwhole⟩

theorem exists_init {s : Site updater} (h : s.version ∈ published ∧ s.file = shipped) :
    ∃ m, (Mirror.system (tagging updater) published).init m ∧ s.Refines shipped m :=
  ⟨⟨s.version, none⟩, ⟨h.1, rfl⟩, rfl, h.2⟩

theorem site_refines (hshipped : setupHeaders shipped = some []) :
    Simulation (site fresh published shipped) (Mirror.system (tagging updater) published)
      (Site.Refines shipped) where
  init _ := exists_init
  step _ _ _ _ _ h hstep := by
    obtain ⟨e, m', hstep', h', -⟩ := update_refines hshipped h hstep
    exact ⟨[e], m', .cons hstep' (.nil m'), h'⟩

/-- A copy from a transfer that does not break off is whole. -/
theorem SiteEvent.Means.whole {s : Site updater} {m : Mirror (Version updater) (Copy updater)}
    {e : SiteEvent} {e' : Mirror.Event (Copy updater)} (h : e.Means e') (hunbroken : Unbroken s e) :
    Mirror.Takes Copy.Whole m e' := by
  rintro copy rfl
  cases e with
  | publish => cases h
  | update result code =>
      cases result with
      | updated =>
          obtain ⟨copy', heq, hwhole⟩ := h
          cases heq
          exact hwhole (hunbroken code rfl)
      | _ => cases h

/-- Where no transfer of a database breaks off, the mirror holds whole versions. -/
theorem site_refines_whole (hshipped : setupHeaders shipped = some []) :
    Simulation ((site fresh published shipped).restrict Unbroken)
      ((Mirror.system (tagging updater) published).restrict (Mirror.Takes Copy.Whole))
      (Site.Refines shipped) where
  init _ := exists_init
  step _ _ _ _ _ h hstep := by
    obtain ⟨hunbroken, hstep⟩ := hstep
    obtain ⟨e, m', hstep', h', hmeans⟩ := update_refines hshipped h hstep
    exact ⟨[e], m', .cons ⟨hmeans.whole hunbroken, hstep'⟩ (.nil m'), h'⟩

/-- A tag tells which of the published versions it is of. -/
theorem of_passes (htags : Set.InjOn Version.tag published) (copy : Copy updater)
    (version : Version updater) (hversion : version ∈ published) (other : Version updater)
    (hother : other ∈ published) (hof : (tagging updater).of copy version)
    (hpasses : (tagging updater).passes copy other) : (tagging updater).of copy other := by
  obtain rfl : copy.version = version := hof
  exact htags hversion hother (Copy.tags_of_mem hpasses).1.symm

/-- **The file is current** after an update that reports one, or that there is
none, while no transfer breaks off; another update leaves the file. -/
theorem current_of_update (htags : Set.InjOn Version.tag published)
    (hshipped : setupHeaders shipped = some []) {s : Site updater}
    (hs : ((site fresh published shipped).restrict Unbroken).Reachable s) :
    (∀ (access : FileAccess) (request : List CString) (transfer : Transfer),
      access.locks = true → setupHeaders s.file = some request →
      Answers s.version request transfer →
        ∃ result s', (site fresh published shipped).step s (.update result transfer.code) s') ∧
    ∀ result code s',
      ((site fresh published shipped).restrict Unbroken).step s (.update result code) s' →
        (result = .updated ∨ result = .noUpdate → s'.file = some s'.version.file) ∧
          (result ≠ .updated → s'.file = s.file) := by
  constructor
  · intro access request transfer hlocks hrequest hanswers
    by_cases htouched : transfer.Untouched access
    · obtain ⟨result, hresult, -⟩ :=
        updateTask_untouched fresh hrequest hanswers htouched
      exact ⟨result, _, .update hlocks hrequest hanswers hresult⟩
    · obtain ⟨-, copy, -, -, -, hresult⟩ :=
        updateTask_success fresh hrequest hlocks hanswers htouched
      exact ⟨.updated, _, .update hlocks hrequest hanswers hresult⟩
  · rintro result code s' ⟨hunbroken, hstep⟩
    obtain ⟨m, hm, h⟩ := (site_refines_whole hshipped).reachable hs
    obtain ⟨e, m', hstep', h', hmeans⟩ := update_refines hshipped h hstep
    have hwhole := Mirror.takes_of_reachable (hm.step ⟨hmeans.whole hunbroken, hstep'⟩)
    constructor
    · intro hresult
      obtain ⟨copy, hcopy, hof⟩ := Mirror.of_step (of_passes htags) hm.of_restrict hstep' (by
        rcases hresult with rfl | rfl
        · obtain ⟨copy, he, -⟩ := hmeans
          exact .inr ⟨copy, he⟩
        · exact .inl hmeans)
      rw [h'.file, ← h'.version, hcopy, Option.elim_some, (hwhole copy hcopy).file_eq]
      exact congrArg (fun version : Version updater => some version.file) hof
    · intro hresult
      have hsame : m' = m := by
        cases result with
        | updated => exact absurd rfl hresult
        | _ =>
            obtain rfl : e = _ := hmeans
            cases hstep'
            rfl
      rw [h'.file, h.file, hsame]

/-- What happens to the site, one event after the other, happens to the mirror. -/
theorem path_refines (hshipped : setupHeaders shipped = some []) {s s' : Site updater}
    {es : List SiteEvent} (h : (site fresh published shipped).Path s es s')
    {m : Mirror (Version updater) (Copy updater)} (hm : s.Refines shipped m) :
    ∃ es' m', (Mirror.system (tagging updater) published).Path m es' m' ∧ s'.Refines shipped m' ∧
      List.Forall₂ SiteEvent.Means es es' := by
  induction h generalizing m with
  | nil => exact ⟨[], m, .nil m, hm, .nil⟩
  | cons hstep _ ih =>
      obtain ⟨e, m', hstep', hm', hmeans⟩ := update_refines hshipped hm hstep
      obtain ⟨es, m'', hpath, hm'', hall⟩ := ih hm'
      exact ⟨e :: es, m'', .cons hstep' hpath, hm'', .cons hmeans hall⟩

theorem exists_means {es : List SiteEvent} {es' : List (Mirror.Event (Copy updater))}
    (h : List.Forall₂ SiteEvent.Means es es') :
    (.publish ∈ es' → .publish ∈ es) ∧
      ∀ code, .update .updated code ∈ es → ∃ copy, .refresh copy ∈ es' := by
  induction h with
  | nil => exact ⟨nofun, nofun⟩
  | @cons e e' es es' hmeans _ ih =>
      constructor
      · intro hmem
        rcases List.mem_cons.1 hmem with rfl | hmem
        · obtain _ | ⟨_ | _ | _ | _, code⟩ := e
          case publish => exact List.mem_cons_self
          case update.updated =>
            obtain ⟨copy, heq, -⟩ := hmeans
            cases heq
          all_goals cases hmeans
        · exact List.mem_cons_of_mem _ (ih.1 hmem)
      · intro code hmem
        rcases List.mem_cons.1 hmem with rfl | hmem
        · obtain ⟨copy, rfl, -⟩ := hmeans
          exact ⟨copy, List.mem_cons_self⟩
        · obtain ⟨copy, hcopy⟩ := ih.2 code hmem
          exact ⟨copy, List.mem_cons_of_mem _ hcopy⟩

/-- **What has its tag stays until another version is published**, whether all of
the version arrived or a part of it: no update writes the file. -/
theorem kept_until_published (htags : Set.InjOn Version.tag published)
    (hshipped : setupHeaders shipped = some []) {s : Site updater}
    (hs : (site fresh published shipped).Reachable s) {request : List CString}
    (hrequest : setupHeaders s.file = some request) (hasks : Asks request s.version) :
    (∃ body, body <+: s.version.body ∧ s.file = some (etagLine s.version.tag ++
      (complete newline body).flatMap (mappingOf updater))) ∧
    ∀ es s', (site fresh published shipped).Path s es s' → .publish ∉ es →
      s'.file = s.file ∧ ∀ code, .update .updated code ∉ es := by
  obtain ⟨m, hm, h⟩ := (site_refines hshipped).reachable hs
  obtain ⟨request', hrequest', hpasses⟩ := h.request hshipped
  obtain rfl : request = request' := Option.some.inj (hrequest.symm.trans hrequest')
  obtain ⟨copy, hcopy, hpass⟩ := (hpasses s.version).1 hasks
  rw [← h.version] at hpass
  constructor
  · obtain ⟨version, hversion, hof⟩ := Mirror.exists_of_reachable hm copy hcopy
    have hcurrent : copy.version = s.version := h.version ▸ of_passes htags copy version hversion
      m.version (Mirror.published_of_reachable hm) hof hpass
    refine ⟨copy.body, hcurrent ▸ copy.arrives, ?_⟩
    rw [h.file, hcopy, Option.elim_some, Copy.file, (Copy.tags_of_mem hpass).2, hcurrent,
      List.flatMap_singleton, Copy.mappings]
  · intro es s' hpath hes
    obtain ⟨es', m', hpath', h', hall⟩ := path_refines hshipped hpath h
    obtain ⟨hpublish, hrefresh⟩ := exists_means hall
    obtain ⟨rfl, hnone⟩ := Mirror.path_passes hcopy hpass hpath' (mt hpublish hes)
    refine ⟨by rw [h'.file, h.file], fun code hcode => ?_⟩
    obtain ⟨copy', hcopy'⟩ := hrefresh code hcode
    exact hnone copy' hcopy'

/-! ## A site with one version -/

/-- The updater of these versions. -/
def androidUpdater : Updater := commonsGcdbUpdaterInit (.lit "Android") none

/-- A version of one mapping. -/
def oneVersion : Version androidUpdater where
  tag := ascii "\"1\""
  body := ascii "g,platform:Android,\n"
  clean := by decide
  fits := by decide
  plain := by decide +kernel

/-- The headers of its response. -/
def oneBlock : HeaderBlock where
  statusLine := ascii "HTTP/2 200"
  headers := [ascii "ETag: \"1\"", []]
  http := by decide
  clean := by decide +kernel
  fits line hline _ _ hfield _ :=
    length_etagLine_of_fieldOf ((by decide : ∀ l ∈ [ascii "ETag: \"1\"", []],
      l.length ≤ 1000) line hline) hfield

/-- A transfer of the version, with the mapping or without it. -/
def oneTransfer (arrives : Bool) : Transfer where
  headers := [⟨200, oneBlock.bytes⟩]
  chunks := if arrives then [oneVersion.body] else []
  body := oneVersion.body
  code := if arrives then curleOk else 18
  codes := by decide
  data := by decide
  whole _ := by decide +kernel
  arrives := by cases arrives <;> simp

theorem responseCalls_oneTransfer (arrives : Bool) :
    responseCalls (oneTransfer arrives).headers = [⟨200, oneBlock.bytes⟩] := rfl

theorem answers_oneTransfer (arrives : Bool) : Answers oneVersion [] (oneTransfer arrives) where
  success call _ _ := by
    refine ⟨List.not_mem_nil, rfl, oneBlock, by decide +kernel, by decide +kernel, ?_⟩
    rw [responseCalls_oneTransfer, List.map_singleton, List.flatten_singleton]
    refine ⟨List.prefix_refl _, fun hcode => ?_⟩
    cases arrives with
    | true => exact ⟨rfl, rfl⟩
    | false => cases hcode
  notModified call hcall hcode := by
    rw [responseCalls_oneTransfer] at hcall
    cases hcall
    exact absurd hcode (by decide)
  response _ := by
    rw [responseCalls_oneTransfer]
    exact List.cons_ne_nil _ _

/-- The first update. -/
theorem first_update (arrives : Bool) : SiteStep (fun _ => 0xaa) {oneVersion} ⟨oneVersion, none⟩
    (.update .updated (oneTransfer arrives).code) ⟨oneVersion,
      some (ascii "# etag: \"1\"\n" ++ if arrives then ascii "g,platform:Android,\n" else [])⟩ := by
  have htouched : ¬(oneTransfer arrives).Untouched ⟨true, true⟩ := fun h =>
    Bool.noConfusion (h ⟨200, oneBlock.bytes⟩ rfl rfl)
  have hrequest : setupHeaders none = some [] := rfl
  have hlocks : (FileAccess.mk true true).locks = true := rfl
  obtain ⟨-, copy, -, -, hfile, hresult⟩ :=
    updateTask_success (fun _ => 0xaa) hrequest hlocks (answers_oneTransfer arrives) htouched
  have hbytes : (oneTransfer arrives).headerLines.flatMap noteOf ++
      (complete newline (oneTransfer arrives).chunks.flatten).flatMap
        (mappingOf androidUpdater) =
      ascii "# etag: \"1\"\n" ++ if arrives then ascii "g,platform:Android,\n" else [] := by
    cases arrives <;> decide +kernel
  rw [hfile, hbytes] at hresult
  exact .update rfl rfl (answers_oneTransfer arrives) hresult

/-- The mapping arrives, and the file is current. -/
theorem current_of_update_one : ∃ s',
    ((site (fun _ => 0xaa) {oneVersion} none).restrict Unbroken).step ⟨oneVersion, none⟩
        (.update .updated curleOk) s' ∧ s'.file = some oneVersion.file := by
  have hstep : ((site (fun _ => 0xaa) {oneVersion} none).restrict Unbroken).step
      ⟨oneVersion, none⟩ (.update .updated curleOk) _ :=
    ⟨fun code he => by cases he; rfl, first_update true⟩
  exact ⟨_, hstep, ((current_of_update (Set.injOn_singleton _ _) rfl
    (.init ⟨Set.mem_singleton oneVersion, rfl⟩)).2 _ _ _ hstep).1 (.inl rfl)⟩

/-- The transfer breaks off before the mapping, and no update brings it. -/
theorem kept_until_published_one :
    ∃ s, (site (fun _ => 0xaa) {oneVersion} none).Reachable s ∧
      s.file = some (ascii "# etag: \"1\"\n") ∧
      ∀ es s', (site (fun _ => 0xaa) {oneVersion} none).Path s es s' → .publish ∉ es →
        s'.file = s.file := by
  have hs := Reachable.step (T := site (fun _ => 0xaa) {oneVersion} none)
    (.init ⟨Set.mem_singleton oneVersion, rfl⟩) (first_update false)
  let copy : Copy androidUpdater :=
    ⟨oneVersion, true, [], List.nil_prefix⟩
  have hrequest := setupHeaders_file copy
  have hasks : Asks (copy.tags.map ifNoneMatch) oneVersion := asks_iff_passes.2 List.mem_cons_self
  refine ⟨_, hs, rfl, fun es s' hpath hes => ?_⟩
  exact ((kept_until_published (Set.injOn_singleton _ _) rfl hs hrequest hasks).2 es s' hpath hes).1

end CommonsC.GcdbUpdater
