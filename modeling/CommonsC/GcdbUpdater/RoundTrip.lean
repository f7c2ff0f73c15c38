import CommonsC.GcdbUpdater.Etag

/-!
# CommonsC.GcdbUpdater.RoundTrip

The round trip of the entity tags of a header block.

`HeaderBlock.headerCbs_eq_notes` is the file that `header_cb` leaves for a
block, `headersLoop_notes` reads it back, and `roundTrips_iff_notedRight` tells
for which blocks the next request asks for the tags of this response.
-/

namespace CommonsC.GcdbUpdater

open CString Lines

/-! ## Header blocks -/

/-- The header block of a response: its lines, without what ends them. -/
structure HeaderBlock where
  statusLine : List UInt8
  headers : List (List UInt8)
  http : ascii "HTTP/" <+: statusLine
  clean : ∀ line ∈ statusLine :: headers, 0 ∉ line ∧ newline ∉ line
  /-- The line that is stored for an entity tag fits `linebuf`. -/
  fits : ∀ line ∈ headers, ∀ name value, fieldOf line = some (name, 32 :: value) →
    name.map tolower = ascii "etag" → (etagLine value).length ≤ 1023

namespace HeaderBlock

/-- The block as it is sent. -/
def bytes (block : HeaderBlock) : List UInt8 :=
  (block.statusLine :: block.headers).flatMap (· ++ ascii "\r\n")

/-- The block of the first headers. -/
def take (block : HeaderBlock) (n : Nat) : HeaderBlock where
  statusLine := block.statusLine
  headers := block.headers.take n
  http := block.http
  clean line hline := block.clean line <| (List.mem_cons.1 hline).elim
    (fun h => h ▸ List.mem_cons_self) fun h => List.mem_cons_of_mem _ (List.mem_of_mem_take h)
  fits line hline := block.fits line (List.mem_of_mem_take hline)

@[simp] theorem headers_take (block : HeaderBlock) (n : Nat) :
    (block.take n).headers = block.headers.take n := rfl

/-- What is noted for the block. -/
def notes (block : HeaderBlock) : List UInt8 :=
  (block.headers.filterMap notedOf).flatMap etagLine

theorem flatMap_bytes (block : HeaderBlock) :
    ((block.statusLine :: block.headers).map (· ++ [13])).flatMap (· ++ [newline]) =
      block.bytes := by
  rw [bytes, List.flatMap_map]
  exact congrArg (List.flatMap · _) (funext fun line => List.append_assoc line [13] [newline])

theorem newline_not_mem (block : HeaderBlock) :
    ∀ line ∈ (block.statusLine :: block.headers).map (· ++ [13]), newline ∉ line := by
  intro line hline
  obtain ⟨line, hmem, rfl⟩ := List.mem_map.1 hline
  rw [List.mem_append, not_or]
  exact ⟨(block.clean line hmem).2, by decide⟩

/-- The status line is no field that is noted. -/
theorem notedOf_statusLine (block : HeaderBlock) : notedOf block.statusLine = none := by
  obtain ⟨rest, hrest⟩ := block.http
  rw [Option.eq_none_iff_forall_ne_some]
  intro value hvalue
  obtain ⟨name, hfield, hname⟩ := fieldOf_of_notedOf hvalue
  rw [fieldOf, ← hrest, strchr_append_of_not_mem (by decide)] at hfield
  obtain ⟨⟨before, after⟩, -, hparts⟩ := Option.map_eq_some_iff.1 hfield
  cases hparts
  simp [ascii, tolower] at hname

/-- **The notes** are what is written for the lines of the block. -/
theorem notes_eq (block : HeaderBlock) :
    (complete newline block.bytes).flatMap noteOf = block.notes := by
  have hnotes : ∀ lines : List (List UInt8), (∀ line ∈ lines, 0 ∉ line) →
      (lines.map (· ++ [13])).flatMap noteOf = (lines.filterMap notedOf).flatMap etagLine := by
    intro lines hlines
    induction lines with
    | nil => rfl
    | cons line lines ih =>
        rw [List.map_cons, List.flatMap_cons, noteOf_eq (hlines line List.mem_cons_self) 13,
          ih fun l hl => hlines l (List.mem_cons_of_mem _ hl), List.filterMap_cons]
        cases notedOf line <;> rfl
  rw [← flatMap_bytes, complete_flatMap block.newline_not_mem,
    hnotes _ fun line hline => (block.clean line hline).1, List.filterMap_cons,
    notedOf_statusLine, notes]

/-- **The file** after the headers, however they were cut. -/
theorem headerCbs_eq_notes (block : HeaderBlock) (fresh : Nat → UInt8) (updater : Updater)
    {calls : List HeaderCall} (hcodes : ∀ call ∈ calls, call.response_code = 200)
    (hcalls : (calls.map (·.buffer)).flatten = block.bytes) :
    ∃ ctx, headerCbs fresh ⟨true, true⟩ calls (.new fresh updater) = some (true, ctx) ∧
      Reads updater ctx (block.notes, []) := by
  cases calls with
  | nil =>
      obtain ⟨rest, hrest⟩ := block.http
      have hbytes := hcalls.symm
      rw [bytes, List.flatMap_cons, ← hrest] at hbytes
      cases hbytes
  | cons call calls =>
      obtain ⟨ctx, hrun, -, hreads⟩ :=
        headerCbs_response fresh updater call calls (hcodes call List.mem_cons_self)
      rw [hcalls, notes_eq, ← flatMap_bytes, tail_flatMap] at hreads
      exact ⟨ctx, hrun, hreads⟩

end HeaderBlock

/-! ## The round trip -/

/-- A header of another name that is noted all the same. -/
def Spurious (line : List UInt8) : Prop :=
  ∃ name text, fieldOf line = some (name, 32 :: text) ∧ name.map tolower <+: ascii "etag" ∧
    name.map tolower ≠ ascii "etag"

/-- After the headers, in any chunks, the next request asks for the tags of the
block, in order, and for nothing else. -/
def RoundTrips (fresh : Nat → UInt8) (updater : Updater) (block : HeaderBlock) : Prop :=
  ∀ calls : List HeaderCall, (∀ call ∈ calls, call.response_code = 200) →
    (calls.map (·.buffer)).flatten = block.bytes →
    ∃ ctx file headers,
      headerCbs fresh ⟨true, true⟩ calls (.new fresh updater) = some (true, ctx) ∧
      ctx.fp = some file ∧ setupHeaders (some file) = some headers ∧
      headers.map (·.bytes) =
        (block.headers.filterMap etagOf).map (ascii "if-none-match: " ++ ·)

section

variable {fresh : Nat → UInt8} {updater : Updater} {block : HeaderBlock}

/-- What is left of a round trip is to read the notes. -/
theorem roundTrips_iff_notes :
    RoundTrips fresh updater block ↔ ∃ headers, setupHeaders (some block.notes) = some headers ∧
      headers.map (·.bytes) =
        (block.headers.filterMap etagOf).map (ascii "if-none-match: " ++ ·) := by
  constructor
  · intro h
    have hcodes : ∀ call ∈ [HeaderCall.mk 200 block.bytes], call.response_code = 200 := by simp
    have hcalls : ([HeaderCall.mk 200 block.bytes].map (·.buffer)).flatten = block.bytes := by simp
    obtain ⟨ctx, hrun, hreads⟩ := block.headerCbs_eq_notes fresh updater hcodes hcalls
    obtain ⟨ctx', file, headers, hrun', hfile, hread, hbytes⟩ := h _ hcodes hcalls
    rw [hrun] at hrun'
    cases hrun'
    rw [hreads.fp_eq] at hfile
    cases hfile
    exact ⟨headers, hread, hbytes⟩
  · rintro ⟨headers, hread, hbytes⟩ calls hcodes hcalls
    obtain ⟨ctx, hrun, hreads⟩ := block.headerCbs_eq_notes fresh updater hcodes hcalls
    exact ⟨ctx, _, headers, hrun, hreads.fp_eq, hread, hbytes⟩

/-- A value that is noted is a part of its line. -/
theorem clean_of_notedOf {line value : List UInt8} (hline : line ∈ block.headers)
    (h : notedOf line = some value) : 0 ∉ value ∧ newline ∉ value := by
  obtain ⟨name, hfield, -⟩ := fieldOf_of_notedOf h
  obtain ⟨rfl, -⟩ := eq_of_strchr hfield
  have hclean := block.clean _ (List.mem_cons_of_mem _ hline)
  refine ⟨fun hmem => hclean.1 ?_, fun hmem => hclean.2 ?_⟩ <;> simp [hmem]

/-- A value that is noted for an entity tag fits. -/
theorem fits_of_notedOf {line value : List UInt8} (hline : line ∈ block.headers)
    (hspurious : ¬Spurious line) (h : notedOf line = some value) :
    (etagLine value).length ≤ 1023 := by
  obtain ⟨name, hfield, hname⟩ := fieldOf_of_notedOf h
  refine block.fits line hline name value hfield ?_
  by_contra hne
  exact hspurious ⟨name, value, hfield, hname, hne⟩

theorem not_spurious_of_notedRight {line : List UInt8} (h : NotedRight line) : ¬Spurious line := by
  rintro ⟨name, text, hfield, hname, hne⟩
  have hright := h name _ hfield
  rw [if_neg hne] at hright
  exact hright ⟨hname, rfl⟩

theorem bytes_ifNoneMatch {value : List UInt8} (hnul : 0 ∉ value)
    (hfits : (etagLine value).length ≤ 1023) :
    (ifNoneMatch value).bytes = ascii "if-none-match: " ++ value := by
  have hwhole := upToNul_of_not_mem hnul
  have hmark : (ascii "# etag: ").length = 8 := rfl
  have hname : (ascii "if-none-match: ").length = 15 := rfl
  rw [etagLine, List.length_append, List.length_append, hmark] at hfits
  rw [ifNoneMatch, snprintf_of_lt]
  · exact congrArg (ascii "if-none-match: " ++ ·) hwhole
  · simp only [strlen, append, lit, List.length_append, hwhole, hname]
    omega

/-- The values that are noted, one after the other, are read back. -/
theorem headersLoop_notes {lines : List (List UInt8)} (hlines : lines ⊆ block.headers)
    (hspurious : ∀ line ∈ lines, ¬Spurious line) (fuel : Nat) (rest : List UInt8) :
    headersLoop ((lines.filterMap notedOf).length + fuel)
        ((lines.filterMap notedOf).flatMap etagLine ++ rest) [] =
      headersLoop fuel rest ((lines.filterMap notedOf).map ifNoneMatch) := by
  rw [headersLoop_etagLines, List.nil_append]
  · intro value hvalue
    obtain ⟨line, hline, hnoted⟩ := List.mem_filterMap.1 hvalue
    exact clean_of_notedOf (hlines hline) hnoted
  · intro value hvalue
    obtain ⟨line, hline, hnoted⟩ := List.mem_filterMap.1 hvalue
    exact fits_of_notedOf (hlines hline) (hspurious line hline) hnoted

theorem map_bytes_notes {lines : List (List UInt8)} (hlines : lines ⊆ block.headers)
    (hspurious : ∀ line ∈ lines, ¬Spurious line) :
    ((lines.filterMap notedOf).map ifNoneMatch).map (·.bytes) =
      (lines.filterMap notedOf).map (ascii "if-none-match: " ++ ·) := by
  rw [List.map_map]
  refine List.map_congr_left fun value hvalue => ?_
  obtain ⟨line, hline, hnoted⟩ := List.mem_filterMap.1 hvalue
  exact bytes_ifNoneMatch (clean_of_notedOf (hlines hline) hnoted).1
    (fits_of_notedOf (hlines hline) (hspurious line hline) hnoted)

theorem length_le_etagLines (values : List (List UInt8)) :
    values.length ≤ (values.flatMap etagLine).length := by
  induction values with
  | nil => exact Nat.le_refl _
  | cons value values ih =>
      rw [List.flatMap_cons, List.length_append, List.length_cons, etagLine, List.length_append,
        List.length_append]
      have hnl : (ascii "\n").length = 1 := rfl
      omega

theorem setupHeaders_notes (hspurious : ∀ line ∈ block.headers, ¬Spurious line) :
    setupHeaders (some block.notes) =
      some ((block.headers.filterMap notedOf).map ifNoneMatch) := by
  have hlen := length_le_etagLines (block.headers.filterMap notedOf)
  obtain ⟨fuel, hfuel⟩ : ∃ fuel, block.notes.length + 1 =
      (block.headers.filterMap notedOf).length + (fuel + 1) :=
    ⟨block.notes.length - (block.headers.filterMap notedOf).length, by
      rw [HeaderBlock.notes]
      omega⟩
  have hread := headersLoop_notes (List.Subset.refl _) hspurious (fuel + 1) []
  rw [List.append_nil] at hread
  rw [setupHeaders, hfuel, HeaderBlock.notes, hread]
  rfl

/-- Without a spurious note, what counts is that the values are the same. -/
theorem roundTrips_iff_values (hspurious : ∀ line ∈ block.headers, ¬Spurious line) :
    RoundTrips fresh updater block ↔
      block.headers.filterMap notedOf = block.headers.filterMap etagOf := by
  have hinj : Function.Injective (ascii "if-none-match: " ++ · : List UInt8 → List UInt8) :=
    fun _ _ h => List.append_cancel_left h
  rw [roundTrips_iff_notes, setupHeaders_notes hspurious]
  simp only [Option.some.injEq, exists_eq_left']
  rw [map_bytes_notes (List.Subset.refl _) hspurious, (List.map_injective_iff.2 hinj).eq_iff]

theorem isSome_etagOf {line value : List UInt8} (hspurious : ¬Spurious line)
    (h : notedOf line = some value) : etagOf line ≠ none := by
  obtain ⟨name, hfield, hname⟩ := fieldOf_of_notedOf h
  have hetag : name.map tolower = ascii "etag" := by
    by_contra hne
    exact hspurious ⟨name, value, hfield, hname, hne⟩
  rw [etagOf, hfield]
  simp [hetag]

/-- What picks from fewer picks fewer values. -/
theorem length_filterMap_le {α β : Type*} {f g : α → Option β} {l : List α}
    (hsub : ∀ x ∈ l, g x = none → f x = none) :
    (l.filterMap f).length ≤ (l.filterMap g).length := by
  induction l with
  | nil => exact Nat.le_refl _
  | cons x l ih =>
      have ih := ih fun y hy => hsub y (List.mem_cons_of_mem _ hy)
      have hx := hsub x List.mem_cons_self
      rw [List.filterMap_cons, List.filterMap_cons]
      cases hg : g x with
      | none => rwa [hx hg]
      | some b =>
          cases f x with
          | none => exact Nat.le_succ_of_le ih
          | some a => exact Nat.succ_le_succ ih

/-- Two ways to pick values pick the same if one picks from fewer, and they
agree on the whole. -/
theorem eq_of_filterMap_eq {α β : Type*} {f g : α → Option β} {l : List α}
    (hsub : ∀ x ∈ l, g x = none → f x = none) (h : l.filterMap f = l.filterMap g) :
    ∀ x ∈ l, f x = g x := by
  induction l with
  | nil => exact fun x hx => absurd hx List.not_mem_nil
  | cons x l ih =>
      have hrest := fun y hy => hsub y (List.mem_cons_of_mem _ hy)
      have hx := hsub x List.mem_cons_self
      rw [List.filterMap_cons, List.filterMap_cons] at h
      have hhead : f x = g x ∧ l.filterMap f = l.filterMap g := by
        cases hg : g x with
        | none => exact ⟨hx hg, by rwa [hg, hx hg] at h⟩
        | some b =>
            cases hf : f x with
            | none =>
                rw [hf, hg] at h
                have hmore : (l.filterMap f).length = (l.filterMap g).length + 1 :=
                  congrArg List.length h
                have hless := length_filterMap_le hrest
                omega
            | some a =>
                rw [hf, hg, List.cons.injEq] at h
                exact ⟨congrArg some h.1, h.2⟩
      intro y hy
      rcases List.mem_cons.1 hy with rfl | hy
      · exact hhead.1
      · exact ih hrest hhead.2 y hy

/-- Without a spurious note, a block makes the round trip exactly if every
header is noted right. -/
theorem roundTrips_iff_of_not_spurious (hspurious : ∀ line ∈ block.headers, ¬Spurious line) :
    RoundTrips fresh updater block ↔ ∀ line ∈ block.headers, NotedRight line := by
  rw [roundTrips_iff_values hspurious]
  constructor
  · intro h line hline
    refine notedRight_iff.2 (eq_of_filterMap_eq (fun l hl hnone => ?_) h line hline)
    rw [Option.eq_none_iff_forall_ne_some]
    exact fun value hnoted => isSome_etagOf (hspurious l hl) hnoted hnone
  · exact fun h => List.filterMap_congr fun line hline => notedRight_iff.1 (h line hline)

/-- One more note than those that are read back gives an entry, in any case. -/
theorem setupHeaders_more {lines : List (List UInt8)} {line value : List UInt8}
    (hheaders : block.headers = lines ++ [line]) (hspurious : ∀ l ∈ lines, ¬Spurious l)
    (hnoted : notedOf line = some value) :
    ∃ e more, setupHeaders (some block.notes) =
      some ((lines.filterMap notedOf).map ifNoneMatch ++ [e] ++ more) := by
  have hsubset : lines ⊆ block.headers := by
    rw [hheaders]
    exact List.subset_append_left _ _
  have hnotes : block.notes = (lines.filterMap notedOf).flatMap etagLine ++ etagLine value := by
    rw [HeaderBlock.notes, hheaders, List.filterMap_append, List.flatMap_append]
    simp [hnoted]
  have hlen := length_le_etagLines (lines.filterMap notedOf)
  have hsize : block.notes.length =
      ((lines.filterMap notedOf).flatMap etagLine).length + (etagLine value).length := by
    rw [hnotes, List.length_append]
  obtain ⟨fuel, hfuel, hroom⟩ : ∃ fuel, block.notes.length + 1 =
      (lines.filterMap notedOf).length + (fuel + 1) ∧ (etagLine value).length ≤ fuel :=
    ⟨block.notes.length - (lines.filterMap notedOf).length, by omega, by omega⟩
  obtain ⟨e, rest, hrest, hlong⟩ :=
    headersLoop_long (clean_of_notedOf (hheaders ▸ List.mem_concat_self) hnoted).1 fuel []
      ((lines.filterMap notedOf).map ifNoneMatch)
  rw [List.append_nil] at hrest hlong
  obtain ⟨more, hmore⟩ := headersLoop_total (hrest.trans_le hroom)
    ((lines.filterMap notedOf).map ifNoneMatch ++ [e])
  refine ⟨e, more, ?_⟩
  rw [setupHeaders, hfuel, hnotes, headersLoop_notes hsubset hspurious, hlong, hmore]

/-- After headers that are noted right, a spurious note asks for too much. -/
theorem not_roundTrips_of_spurious {lines : List (List UInt8)} {line : List UInt8}
    (hheaders : block.headers = lines ++ [line]) (hright : ∀ l ∈ lines, NotedRight l)
    (hline : Spurious line) : ¬RoundTrips fresh updater block := by
  obtain ⟨name, value, hfield, hname, hne⟩ := hline
  have hnoted : notedOf line = some value := by
    rw [notedOf, hfield]
    simp [hname]
  have hetag : etagOf line = none := by
    rw [etagOf, hfield]
    simp [hne]
  obtain ⟨e, more, hread⟩ :=
    setupHeaders_more hheaders (fun l hl => not_spurious_of_notedRight (hright l hl)) hnoted
  rw [roundTrips_iff_notes, hread]
  rintro ⟨headers, heq, hbytes⟩
  cases heq
  have hsame : lines.filterMap notedOf = lines.filterMap etagOf :=
    List.filterMap_congr fun l hl => notedRight_iff.1 (hright l hl)
  have hcount := congrArg List.length hbytes
  rw [hheaders, List.filterMap_append, ← hsame] at hcount
  simp [hetag] at hcount

instance (line : List UInt8) : Decidable (NotedRight line) := decidable_of_iff' _ notedRight_iff

theorem length_etagLine_of_fieldOf {line name value : List UInt8} (hline : line.length ≤ 1000)
    (h : fieldOf line = some (name, 32 :: value)) : (etagLine value).length ≤ 1023 := by
  have hlen := congrArg List.length (eq_of_strchr h).1
  have hmark : (ascii "# etag: ").length = 8 := rfl
  have hnl : (ascii "\n").length = 1 := rfl
  simp only [List.length_append, List.length_cons, etagLine, hmark, hnl] at hlen ⊢
  omega

/-- A response as the database's server sends it. -/
def githubBlock : HeaderBlock where
  statusLine := ascii "HTTP/2 200 "
  headers := [ascii "Content-Length: 1", ascii "ETag: \"1\"", []]
  http := by decide
  clean := by decide +kernel
  fits line hline _ _ hfield _ :=
    length_etagLine_of_fieldOf ((by decide : ∀ l ∈ [ascii "Content-Length: 1",
      ascii "ETag: \"1\"", []], l.length ≤ 1000) line hline) hfield

/-- A response with no space after the colon. -/
def tightBlock : HeaderBlock where
  statusLine := ascii "HTTP/1.1 200 OK"
  headers := [ascii "ETag:\"1\""]
  http := by decide
  clean := by decide +kernel
  fits line hline _ _ hfield _ :=
    length_etagLine_of_fieldOf
      ((by decide : ∀ l ∈ [ascii "ETag:\"1\""], l.length ≤ 1000) line hline) hfield

/-- Without the space the entity tag is not noted, and not asked for. -/
theorem tightBlock_not_roundTrips :
    ¬RoundTrips (fun _ => 0xaa) (commonsGcdbUpdaterInit (.lit "Linux") none) tightBlock := by
  rw [roundTrips_iff_notes]
  rintro ⟨headers, hread, hbytes⟩
  have hnone : setupHeaders (some tightBlock.notes) = some [] := by
    rw [(by decide +kernel : tightBlock.notes = [])]
    rfl
  have hsome : tightBlock.headers.filterMap etagOf = [ascii "\"1\""] := by decide +kernel
  rw [hnone] at hread
  cases hread
  rw [hsome] at hbytes
  cases hbytes

/-- **The round trip of the entity tags**: a block without a spurious note makes
it exactly if each header is noted right, and each initial part of a block makes
it exactly if each header of the block is noted right. -/
theorem roundTrips_iff_notedRight (fresh : Nat → UInt8) (updater : Updater)
    (block : HeaderBlock) :
    ((∀ line ∈ block.headers, ¬Spurious line) →
        (RoundTrips fresh updater block ↔ ∀ line ∈ block.headers, NotedRight line)) ∧
      ((∀ n, RoundTrips fresh updater (block.take n)) ↔
        ∀ line ∈ block.headers, NotedRight line) := by
  refine ⟨roundTrips_iff_of_not_spurious, fun h => ?_, fun h n => ?_⟩
  · by_contra hwrong
    -- The block up to the first header that is noted wrong.
    obtain ⟨line, hfind⟩ : ∃ line, block.headers.find? (¬NotedRight ·) = some line := by
      rw [← Option.isSome_iff_exists, List.find?_isSome]
      simpa using hwrong
    obtain ⟨hline, lines, after, hheaders, hbefore⟩ := List.find?_eq_some_iff_append.1 hfind
    have hright : ∀ l ∈ lines, NotedRight l := fun l hl => by simpa using hbefore l hl
    have hpart : (block.take (lines.length + 1)).headers = lines ++ [line] := by
      rw [HeaderBlock.headers_take, hheaders, List.append_cons, List.take_left' (by simp)]
    by_cases hspurious : Spurious line
    · exact not_roundTrips_of_spurious hpart hright hspurious (h _)
    · have hnone : ∀ l ∈ (block.take (lines.length + 1)).headers, ¬Spurious l := by
        intro l hl
        rw [hpart] at hl
        rcases List.mem_append.1 hl with hl | hl
        · exact not_spurious_of_notedRight (hright l hl)
        · rwa [List.mem_singleton.1 hl]
      have hall := (roundTrips_iff_of_not_spurious hnone).1 (h _) line
        (hpart ▸ List.mem_concat_self)
      simp [hall] at hline
  · have hpart : ∀ line ∈ (block.take n).headers, NotedRight line := fun line hline =>
      h line (List.mem_of_mem_take hline)
    exact (roundTrips_iff_of_not_spurious fun line hline =>
      not_spurious_of_notedRight (hpart line hline)).2 hpart

end

theorem roundTrips_githubBlock :
    (∀ line ∈ githubBlock.headers, NotedRight line) ∧
      RoundTrips (fun _ => 0xaa) (commonsGcdbUpdaterInit (.lit "Linux") none)
        (githubBlock.take 3) := by
  have hright : ∀ line ∈ githubBlock.headers, NotedRight line := by decide +kernel
  exact ⟨hright, (roundTrips_iff_notedRight _ _ githubBlock).2.2 hright 3⟩

end CommonsC.GcdbUpdater
