import CommonsC.GcdbUpdater.Header
import Mathlib.Data.List.DropRight

/-!
# CommonsC.GcdbUpdater.Etag

The entity tag, from one response to the next request.

`header_cb` notes the tag in the database file and `setup_headers` reads it
back.  `notedOf` is the value that is noted for a header line, `etagOf` the one
that the header means, and `notedRight_iff` tells for which lines they agree.
-/

namespace CommonsC.GcdbUpdater

open CString Lines

/-! ## Reading back -/

/-- An entry of the request's header list. -/
def ifNoneMatch (value : List UInt8) : CString :=
  CString.snprintf 2047
    ((CString.lit "if-none-match: ").append ⟨upToNul value, not_mem_upToNul value⟩)

/-- The loop of `setup_headers`. -/
def headersLoop : (fuel : Nat) → (fp : List UInt8) → List CString → Option (List CString)
  | 0, _, _ => none
  | fuel + 1, fp, headers =>
      match fgets newline 1024 fp with
      | none => some headers
      | some (linebuf, fp) =>
          if linebuf.head? ≠ some 35 then some headers
          else
            let line := (upToNul linebuf).dropLast
            if strncmp line (ascii "# etag: ") 8 = 0 then
              headersLoop fuel fp (headers ++ [ifNoneMatch (line.drop 8)])
            else headersLoop fuel fp headers

/-- `setup_headers`: the header list for a database file, which need not exist. -/
def setupHeaders : (file : Option (List UInt8)) → Option (List CString)
  | none => some []
  | some fp => headersLoop (fp.length + 1) fp []

/-- The loop ends, and adds to the list. -/
theorem headersLoop_total {fuel : Nat} {fp : List UInt8} (hfuel : fp.length < fuel)
    (headers : List CString) : ∃ more, headersLoop fuel fp headers = some (headers ++ more) := by
  induction fuel generalizing fp headers with
  | zero => exact absurd hfuel (Nat.not_lt_zero _)
  | succ fuel ih =>
      rw [headersLoop]
      cases hread : fgets newline 1024 fp with
      | none => exact ⟨[], by rw [List.append_nil]⟩
      | some p =>
          obtain ⟨linebuf, rest⟩ := p
          have hless := length_lt_of_fgets (by decide) hread
          simp only
          split
          · exact ⟨[], by rw [List.append_nil]⟩
          · split
            · obtain ⟨more, hmore⟩ := ih (by omega : rest.length < fuel)
                (headers ++ [ifNoneMatch ((upToNul linebuf).dropLast.drop 8)])
              exact ⟨_, hmore.trans (by rw [List.append_assoc])⟩
            · exact ih (by omega) headers

/-- The line that is noted for a value. -/
def etagLine (value : List UInt8) : List UInt8 := ascii "# etag: " ++ value ++ ascii "\n"

/-- A step of the loop, at a comment with a tag. -/
theorem headersLoop_step {fp more rest value : List UInt8}
    (hread : fgets newline 1024 fp = some (ascii "# etag: " ++ more, rest))
    (hline : (upToNul (ascii "# etag: " ++ more)).dropLast = ascii "# etag: " ++ value)
    (fuel : Nat) (headers : List CString) :
    headersLoop (fuel + 1) fp headers =
      headersLoop fuel rest (headers ++ [ifNoneMatch value]) := by
  have hhash : ¬(ascii "# etag: " ++ more).head? ≠ some 35 := not_not.2 rfl
  have hmark : strncmp (ascii "# etag: " ++ value) (ascii "# etag: ") 8 = 0 := strcmp_self _
  rw [headersLoop, hread]
  simp only
  rw [if_neg hhash, hline, if_pos hmark]
  rfl

/-- A noted line that fits `linebuf` is read back. -/
theorem headersLoop_etagLine {value : List UInt8} (hnul : 0 ∉ value) (hline : newline ∉ value)
    (hfits : (etagLine value).length ≤ 1023) (fuel : Nat) (rest : List UInt8)
    (headers : List CString) :
    headersLoop (fuel + 1) (etagLine value ++ rest) headers =
      headersLoop fuel rest (headers ++ [ifNoneMatch value]) := by
  have hbytes : etagLine value ++ rest = (ascii "# etag: " ++ value) ++ newline :: rest := by
    rw [etagLine, List.append_assoc]
    rfl
  have hnoline : newline ∉ ascii "# etag: " ++ value := by
    rw [List.mem_append, not_or]
    exact ⟨by decide, hline⟩
  have hnonul : 0 ∉ ascii "# etag: " ++ value ++ [newline] := by
    rw [List.mem_append, List.mem_append, not_or, not_or]
    exact ⟨⟨by decide, hnul⟩, by decide⟩
  have hread : fgets newline 1024 (etagLine value ++ rest) =
      some (ascii "# etag: " ++ (value ++ [newline]), rest) := by
    rw [hbytes, ← List.append_assoc]
    refine fgets_append hnoline ?_ rest
    rw [etagLine, List.length_append] at hfits
    exact Nat.lt_succ_of_le hfits
  refine headersLoop_step hread ?_ fuel headers
  rw [← List.append_assoc, upToNul_of_not_mem hnonul, List.dropLast_concat]

/-- A longer one gives an entry too. -/
theorem headersLoop_long {value : List UInt8} (hnul : 0 ∉ value) (fuel : Nat)
    (rest : List UInt8) (headers : List CString) :
    ∃ (e : CString) (rest' : List UInt8), rest'.length < (etagLine value ++ rest).length ∧
      headersLoop (fuel + 1) (etagLine value ++ rest) headers =
        headersLoop fuel rest' (headers ++ [e]) := by
  obtain ⟨b, stream, hb, hbytes⟩ : ∃ (b : UInt8) (stream : List UInt8), b ≠ 0 ∧
      etagLine value ++ rest = ascii "# etag: " ++ b :: stream := by
    cases value with
    | nil => exact ⟨newline, rest, by decide, rfl⟩
    | cons b value =>
        refine ⟨b, value ++ newline :: rest, fun h => hnul (h ▸ List.mem_cons_self), ?_⟩
        simp [etagLine, ascii, newline]
  obtain ⟨more, rest', hmore⟩ : ∃ more rest', takeLine newline 1015 (b :: stream) =
      (b :: more, rest') := by
    rw [takeLine]
    split
    · exact ⟨[], stream, rfl⟩
    · exact ⟨_, _, rfl⟩
  have hread : fgets newline 1024 (etagLine value ++ rest) =
      some (ascii "# etag: " ++ b :: more, rest') := by
    have htake := takeLine_append_of_not_mem (by decide : newline ∉ ascii "# etag: ") 1015
      (b :: stream)
    rw [hmore] at htake
    rw [hbytes, fgets, if_neg (by simp [ascii])]
    exact congrArg some htake
  refine ⟨ifNoneMatch (upToNul (b :: more)).dropLast, rest', length_lt_of_fgets (by decide) hread,
    headersLoop_step hread ?_ fuel headers⟩
  rw [upToNul_append (by decide), List.dropLast_append_of_ne_nil]
  rw [upToNul, List.takeWhile_cons_of_pos (by simpa using hb)]
  exact List.cons_ne_nil _ _

/-- **Reading back** what is noted, up to `rest`. -/
theorem headersLoop_etagLines (values : List (List UInt8))
    (hclean : ∀ value ∈ values, 0 ∉ value ∧ newline ∉ value)
    (hfits : ∀ value ∈ values, (etagLine value).length ≤ 1023) (fuel : Nat) (rest : List UInt8)
    (headers : List CString) :
    headersLoop (values.length + fuel) (values.flatMap etagLine ++ rest) headers =
      headersLoop fuel rest (headers ++ values.map ifNoneMatch) := by
  induction values generalizing headers with
  | nil => simp
  | cons value values ih =>
      have hvalue := hclean value List.mem_cons_self
      rw [List.flatMap_cons, List.append_assoc, List.length_cons, Nat.add_right_comm,
        headersLoop_etagLine hvalue.1 hvalue.2 (hfits value List.mem_cons_self),
        ih (fun v hv => hclean v (List.mem_cons_of_mem _ hv))
          (fun v hv => hfits v (List.mem_cons_of_mem _ hv)),
        List.map_cons, List.append_assoc, List.singleton_append]

/-! ## Header lines -/

/-- The name of a header line, and what follows the colon. -/
def fieldOf (line : List UInt8) : Option (List UInt8 × List UInt8) := strchr 58 line

/-- A space or a tab. -/
def isBlank (b : UInt8) : Bool := b == 32 || b == 9

/-- A text without the blanks around it. -/
def trim (text : List UInt8) : List UInt8 := (text.dropWhile isBlank).rdropWhile isBlank

/-- The entity tag of a header line. -/
def etagOf (line : List UInt8) : Option (List UInt8) := do
  let (name, text) ← fieldOf line
  if name.map tolower = ascii "etag" then some (trim text) else none

/-- The value that is noted for a header line. -/
def notedOf (line : List UInt8) : Option (List UInt8) := do
  let (name, text) ← fieldOf line
  if name.map tolower <+: ascii "etag" ∧ text.head? = some 32 then some text.tail else none

/-- A header line that is noted as it is meant: the value of an `etag` has one
space before it and no other blanks around, and the name of another header does
not begin `etag`, or there is no space after its colon. -/
def NotedRight (line : List UInt8) : Prop :=
  ∀ name text, fieldOf line = some (name, text) →
    if name.map tolower = ascii "etag" then text = 32 :: trim text
    else ¬(name.map tolower <+: ascii "etag" ∧ text.head? = some 32)

theorem notedRight_iff {line : List UInt8} : NotedRight line ↔ notedOf line = etagOf line := by
  rw [NotedRight, notedOf, etagOf]
  cases fieldOf line with
  | none => simp
  | some field =>
      obtain ⟨name, text⟩ := field
      simp only [Option.some.injEq, Prod.mk.injEq, and_imp, forall_eq', forall_apply_eq_imp_iff,
        Option.bind_eq_bind, Option.bind_some]
      by_cases hname : name.map tolower = ascii "etag"
      · rw [if_pos hname, if_pos hname, hname]
        cases text with
        | nil => simp
        | cons b text => simp
      · rw [if_neg hname, if_neg hname]
        simp

/-- The first `: ` after a name is at its end. -/
theorem dropInfix_field {name : List UInt8} (h : 58 ∉ name) (value : List UInt8) :
    (name ++ 58 :: 32 :: value).dropInfix? (ascii ": ") = some (name, value) := by
  cases hfind : (name ++ 58 :: 32 :: value).dropInfix? (ascii ": ") with
  | none => exact absurd ⟨name, value, by simp [ascii]⟩ (dropInfix_eq_none.1 hfind)
  | some parts =>
      obtain ⟨before, after⟩ := parts
      have hwhole : name ++ 58 :: 32 :: value = before ++ 58 :: 32 :: after := by
        rw [eq_of_dropInfix hfind]
        simp [ascii]
      have hle : before.length ≤ name.length :=
        (List.dropInfix?_eq_some_iff.1 hfind).2 name (ascii ": ") value (by simp [ascii])
          (beq_self_eq_true _)
      have hbefore : before <+: name ++ 58 :: 32 :: value := by
        rw [hwhole]
        exact List.prefix_append _ _
      have hstart : before <+: name :=
        List.prefix_of_prefix_length_le hbefore (List.prefix_append _ _) hle
      have hname := strchr_append h (32 :: value)
      rw [hwhole, strchr_append (fun hmem => h (hstart.mem hmem))] at hname
      cases hname
      rfl

/-- `write_header_lines` compares a name with as much of `etag`. -/
theorem strncasecmp_etag {before : List UInt8} {line : List UInt8} (hline : 0 ∉ line)
    (h : before <+: line) :
    strncasecmp line (ascii "etag") before.length = 0 ↔ before.map tolower <+: ascii "etag" := by
  have hlower : (ascii "etag").map tolower = ascii "etag" := by decide +kernel
  rw [strncasecmp_eq_zero hline (by decide), ← List.prefix_iff_eq_take.1 h, List.map_take, hlower,
    List.prefix_iff_eq_take, List.length_map]

/-- **What is noted for a header line.** -/
theorem noteOf_eq {line : List UInt8} (hline : 0 ∉ line) (last : UInt8) :
    noteOf (line ++ [last]) = (notedOf line).elim [] etagLine := by
  rw [noteOf, List.dropLast_concat, upToNul_of_not_mem hline, notedOf]
  cases hfield : fieldOf line with
  | none =>
      have hcolon : 58 ∉ line := strchr_eq_none.1 hfield
      have hfind : line.dropInfix? (ascii ": ") = none :=
        dropInfix_eq_none.2 fun h => hcolon (h.mem (by decide))
      rw [hfind]
      rfl
  | some field =>
      obtain ⟨name, text⟩ := field
      obtain ⟨rfl, hname⟩ := eq_of_strchr hfield
      simp only [Option.bind_eq_bind, Option.bind_some]
      by_cases htext : text.head? = some 32
      · -- The name ends at the first `: `.
        obtain ⟨value, rfl⟩ := List.head?_eq_some_iff.1 htext
        rw [dropInfix_field hname]
        simp only [strncasecmp_etag hline (List.prefix_append _ _), htext, and_true, List.tail_cons]
        split <;> rfl
      · -- The first `: ` is further on, and what is before it has a colon.
        rw [if_neg fun h => htext h.2]
        cases hfind : (name ++ 58 :: text).dropInfix? (ascii ": ") with
        | none => rfl
        | some parts =>
            obtain ⟨before, after⟩ := parts
            have hsplit : name ++ 58 :: text = before ++ 58 :: 32 :: after := by
              rw [eq_of_dropInfix hfind]
              simp [ascii]
            have hbefore : 58 ∈ before := by
              by_contra hnot
              have hunique := strchr_append hname text
              rw [hsplit, strchr_append hnot] at hunique
              cases hunique
              exact htext rfl
            have hmem : 58 ∈ before.map tolower := List.mem_map.2 ⟨58, hbefore, by decide⟩
            simp only
            rw [if_neg]
            · rfl
            · rw [strncasecmp_etag hline (hsplit ▸ List.prefix_append _ _)]
              exact fun h => absurd (h.mem hmem) (by decide)

theorem fieldOf_of_notedOf {line value : List UInt8} (h : notedOf line = some value) :
    ∃ name, fieldOf line = some (name, 32 :: value) ∧ name.map tolower <+: ascii "etag" := by
  rw [notedOf] at h
  cases hfield : fieldOf line with
  | none =>
      rw [hfield] at h
      cases h
  | some field =>
      obtain ⟨name, text⟩ := field
      rw [hfield] at h
      simp only [Option.bind_eq_bind, Option.bind_some, Option.ite_none_right_eq_some,
        Option.some.injEq] at h
      obtain ⟨⟨hname, htext⟩, rfl⟩ := h
      obtain ⟨value, rfl⟩ := List.head?_eq_some_iff.1 htext
      exact ⟨name, rfl, hname⟩

end CommonsC.GcdbUpdater
