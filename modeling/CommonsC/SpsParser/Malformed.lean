import CommonsC.SpsParser.Order

/-!
# CommonsC.SpsParser.Malformed

What the parsers do on streams that are not sequence parameter sets.

* `spsParseDimension_malformed`: when a malformed code makes a parser fail, and
  nothing depends on a variable that was not assigned;
* `spsParseDimension_indices`: when the local arrays are indexed in range.
-/

namespace CommonsC.SpsParser

open Traced
open Parser (Ensures)

/-! ## The whole parsers -/

/-- The `chroma_format_idc` of an H.264 stream has been checked. -/
theorem readChromaFormat_lt (u : Indeterminate) : Ensures (· < 4) (readChromaFormat u) := by
  refine .after fun idc => ?_
  split
  · exact .fail
  · next hle =>
      refine .after fun _ => .after fun _ => .after fun _ => .after fun _ => ?_
      exact .after fun _ => .after fun _ => .pure (by omega)

theorem h264ChromaFormat_lt (u : Indeterminate) (profile_idc : Nat) :
    Ensures (· < 4) (h264ChromaFormat u profile_idc) := by
  rw [h264ChromaFormat]
  split
  · exact readChromaFormat_lt u
  · exact .pure (by decide)

theorem h264Picture_lt (u : Indeterminate) :
    Ensures (fun pic => pic.chroma_format_idc < 4) (h264Picture u) := by
  refine .after fun _ => .after fun profile_idc => .after fun _ => .after fun _ => ?_
  refine .after fun _ => .after fun _ => ?_
  refine (h264ChromaFormat_lt u profile_idc).bind fun idc hlt => ?_
  refine .after fun _ => .after fun _ => .after fun _ => .after fun _ => .after fun _ => ?_
  refine .after fun _ => .after fun _ => .after fun _ => .after fun _ => .after fun _ => ?_
  exact .after fun _ => .pure hlt

namespace Trace

variable {u u' : Indeterminate}

/-- Looking up the units and returning. -/
theorem indexUnits_spec {α : Type} {allowed : Event → Prop} {present : Bool} {subwc subhc : Table}
    {idc : Nat} (hallowed : present = true →
      allowed (.index subwc idc) ∧ allowed (.index subhc idc)) (a a' : α) (ha : a' = a) :
    Spec allowed Event.Lost Event.Bad (Apart u u') (pure a : Parser Bitstream α)
      (indexUnits present subwc subhc idc >>= fun _ => pure a)
      (indexUnits present subwc subhc idc >>= fun _ => pure a') := by
  subst ha
  refine Spec.bind (p := (pure () : Parser Bitstream Unit)) (f := fun _ => pure a') ?_ fun _ =>
    Spec.pure a'
  cases present with
  | false => exact Spec.pure ()
  | true =>
      obtain ⟨hsubwc, hsubhc⟩ := hallowed rfl
      have hlast : Spec allowed Event.Lost Event.Bad (Apart u u') (pure () : Parser Bitstream Unit)
          (emit (.index subhc idc)) (emit (.index subhc idc)) :=
        Spec.emit_bind hsubhc (fun h => h) (fun h => h) (Spec.pure ())
      exact Spec.emit_bind hsubwc (fun h => h) (fun h => h) hlast

theorem spsParseDimensionH264_spec (h : SameButUnassigned u u') :
    Traces u u' (SpsParser.spsParseDimensionH264 u) (spsParseDimensionH264 u)
      (spsParseDimensionH264 u') :=
  Spec.bind_of (·.chroma_format_idc < 4) (h264Picture_spec h)
    (h264Picture_lt _) fun pic hlt => flag_spec.bind fun present =>
      (Spec.optionally present fun _ => skipVuiParameters_spec h).bind fun _ =>
        indexUnits_spec (fun _ => ⟨⟨hlt, trivial⟩, hlt, trivial⟩) pic.dimension _ rfl

/-- For HEVC the last two indices may be out of range. -/
theorem spsParseDimensionHevc_spec (h : SameButUnassigned u u') :
    Spec Event.Sound Event.Lost Event.Bad (Apart u u') (SpsParser.spsParseDimensionHevc u)
      (spsParseDimensionHevc u) (spsParseDimensionHevc u') := by
  have hsound : ∀ e : Event, e.Allowed → e.Sound := fun _ he => he.2
  rw [SpsParser.spsParseDimensionHevc, hevcDimension_eq]
  refine (hevcProfileTierLevel_spec.mono hsound).bind fun _ =>
    ((hevcPicture_spec h).mono hsound).bind fun pic =>
      indexUnits_spec (fun _ => ⟨trivial, trivial⟩) _ _ ?_
  rw [HevcPicture.dimension, HevcPicture.dimension, h.past_subwc, h.past_subhc]

end Trace

/-! ## Malformed codes -/

/-- What the caller of a parser sees: the `bool`, and `*dimension` afterwards,
which is written right before `return true` only. -/
def returned (dimension : SpsDimension) (r : Option SpsDimension) : Bool × SpsDimension :=
  (r.isSome, r.getD dimension)

/-- What a malformed code is to do to a run of a parser: if a read reports
failure, the parser returns false and leaves `*dimension` unchanged; and the run
is the same whatever the variables held that a failed read leaves unassigned. -/
def MalformedFails (parser : Indeterminate → Traced Event Bitstream SpsDimension)
    (u : Indeterminate) (fuel : Nat) (data : Nat → UInt8) : Prop :=
  (∀ log r buf, parser u fuel (bitstreamInit data) = (log, some (r, buf)) →
    (∃ e ∈ log, e.failed = true) → ∀ dimension, returned dimension r = (false, dimension)) ∧
  ∀ u', SameButUnassigned u u' →
    parser u' fuel (bitstreamInit data) = parser u fuel (bitstreamInit data)

/-- Of the codes that a parser reads, none is malformed where decisions are
taken on a variable without an initial value; and either none is malformed where
the read is not checked, or the stream is refused for another reason. -/
def Harmless (log : List Event) : Prop :=
  (∀ element buf value, .code element buf value ∈ log → element.decides = true →
    ¬Malformed buf) ∧
  ((∀ element buf value, .code element buf value ∈ log → Malformed buf →
      element.checked = true) ∨
    (∃ element buf value, .code element buf value ∈ log ∧ element.checked = true ∧
      Malformed buf) ∨
    ∃ element value, .refuse element value ∈ log)

/-- The parsers return false exactly if a checked code is malformed, or a value
is refused. -/
theorem exists_bad_iff {log : List Event} (hsound : ∀ e ∈ log, e.Sound) :
    (∃ e ∈ log, e.Bad) ↔ (∃ element buf value, .code element buf value ∈ log ∧
        element.checked = true ∧ Malformed buf) ∨
      ∃ element value, .refuse element value ∈ log := by
  constructor
  · rintro ⟨e, he, hbad⟩
    cases e with
    | code element buf value =>
        exact .inl ⟨element, buf, value, he, hbad.1, (hsound _ he).1 hbad.2⟩
    | refuse element value => exact .inr ⟨element, value, he⟩
    | decide element value => exact hbad.elim
    | index table i => exact hbad.elim
  · rintro (⟨element, buf, value, he, hcheck, hmalformed⟩ | ⟨element, value, he⟩)
    · exact ⟨_, he, hcheck, (hsound _ he).2 hmalformed⟩
    · exact ⟨_, he, trivial⟩

/-- Nothing is lost exactly if no code that decides is malformed. -/
theorem not_lost_iff {log : List Event} (hsound : ∀ e ∈ log, e.Sound) :
    (∀ e ∈ log, ¬e.Lost) ↔ ∀ element buf value, .code element buf value ∈ log →
      element.decides = true → ¬Malformed buf := by
  constructor
  · intro hnone element buf value he hdec hmalformed
    exact hnone _ he ⟨hdec, (hsound _ he).2 hmalformed⟩
  · intro hcodes e he hlost
    cases e with
    | code element buf value => exact hcodes element buf value he hlost.1 ((hsound _ he).1 hlost.2)
    | refuse element value => exact hlost
    | decide element value => exact hlost
    | index table i => exact hlost

/-- Other values for the variables that may be left unassigned. -/
def Indeterminate.changed (u : Indeterminate) : Indeterminate :=
  { u with
    pic_order_cnt_type := u.pic_order_cnt_type + 1
    num_ref_frames_in_pic_order_cnt_cycle := u.num_ref_frames_in_pic_order_cnt_cycle + 1
    nal_cpb_cnt_minus1 := u.nal_cpb_cnt_minus1 + 1
    vcl_cpb_cnt_minus1 := u.vcl_cpb_cnt_minus1 + 1 }

theorem Indeterminate.changed_same (u : Indeterminate) : SameButUnassigned u u.changed :=
  ⟨rfl, rfl, rfl⟩

theorem Indeterminate.changed_apart (u : Indeterminate) : Apart u u.changed :=
  ⟨(Nat.succ_ne_self _).symm, (Nat.succ_ne_self _).symm, (Nat.succ_ne_self _).symm,
    (Nat.succ_ne_self _).symm⟩

/-- A read reported failure exactly if it was one of a malformed code. -/
theorem exists_failed_iff {log : List Event} (hsound : ∀ e ∈ log, e.Sound) :
    (∃ e ∈ log, e.failed = true) ↔
      ∃ element buf value, .code element buf value ∈ log ∧ Malformed buf := by
  constructor
  · rintro ⟨e, he, hfail⟩
    match e, hfail with
    | .code element buf none, _ => exact ⟨element, buf, none, he, (hsound _ he).1 rfl⟩
  · rintro ⟨element, buf, value, he, hmalformed⟩
    have hnone := (hsound _ he).2 hmalformed
    subst hnone
    exact ⟨_, he, rfl⟩

section Runs

variable {parser : Indeterminate → Traced Event Bitstream SpsDimension} {u : Indeterminate}
  {fuel : Nat} {data : Nat → UInt8} {log : List Event} {r : Option SpsDimension} {buf : Bitstream}

/-- A run does not depend on what was left unassigned exactly if nothing is
lost. -/
theorem independent_iff {p : Indeterminate → Parser Bitstream SpsDimension}
    (hspec : ∀ u u', SameButUnassigned u u' →
      Spec Event.Sound Event.Lost Event.Bad (Apart u u') (p u) (parser u) (parser u'))
    (hrun : parser u fuel (bitstreamInit data) = (log, some (r, buf))) :
    (∀ u', SameButUnassigned u u' →
      parser u' fuel (bitstreamInit data) = parser u fuel (bitstreamInit data)) ↔
        ∀ e ∈ log, ¬e.Lost := by
  constructor
  · intro hsame e he hlost
    rcases (hspec u _ u.changed_same).coupled fuel (bitstreamInit data) with
      ⟨-, hnone⟩ | ⟨-, hdiverge⟩
    · rw [hrun] at hnone
      exact hnone e he hlost
    · exact (hdiverge u.changed_apart).ne (congrArg Prod.fst (hsame _ u.changed_same).symm)
  · intro hnone u' hsame
    rcases (hspec u u' hsame).coupled fuel (bitstreamInit data) with
      ⟨heq, -⟩ | ⟨⟨e, he, hlost⟩, -⟩
    · exact heq.symm
    · rw [hrun] at he
      exact absurd hlost (hnone e he)

/-- What the caller sees after a failed read, in the one run there is. -/
theorem returnsFalse_iff (hrun : parser u fuel (bitstreamInit data) = (log, some (r, buf))) :
    (∀ log r buf, parser u fuel (bitstreamInit data) = (log, some (r, buf)) →
      (∃ e ∈ log, e.failed = true) → ∀ dimension, returned dimension r = (false, dimension)) ↔
        ((∃ e ∈ log, e.failed = true) → r = none) := by
  constructor
  · intro h hfailed
    have hfalse := congrArg Prod.fst (h log r buf hrun hfailed ⟨0, 0⟩)
    cases r with
    | none => rfl
    | some dim => cases hfalse
  · intro h log' r' buf' hrun' hfailed dimension
    rw [hrun] at hrun'
    cases hrun'
    rw [h hfailed]
    rfl

/-- For any traced parser: malformed codes make a run fail precisely if they are
harmless. -/
theorem malformedFails_iff {p : Indeterminate → Parser Bitstream SpsDimension}
    (hspec : ∀ u u', SameButUnassigned u u' →
      Spec Event.Sound Event.Lost Event.Bad (Apart u u') (p u) (parser u) (parser u'))
    (hrun : parser u fuel (bitstreamInit data) = (log, some (r, buf))) :
    MalformedFails parser u fuel data ↔ Harmless log := by
  have hself := hspec u u ⟨rfl, rfl, rfl⟩
  have hsound : ∀ e ∈ log, e.Sound := by
    have := hself.logs fuel (bitstreamInit data)
    rwa [hrun] at this
  have hfails : r = none ↔ ∃ e ∈ log, e.Bad := by
    have := hself.fails fuel (bitstreamInit data) r buf (congrArg Prod.snd hrun)
    rwa [hrun] at this
  rw [exists_bad_iff hsound] at hfails
  rw [MalformedFails, independent_iff hspec hrun, returnsFalse_iff hrun, not_lost_iff hsound,
    Harmless, hfails, exists_failed_iff hsound]
  constructor
  · rintro ⟨hreturn, hdecides⟩
    refine ⟨hdecides, ?_⟩
    by_cases hunchecked : ∀ element buf value, .code element buf value ∈ log → Malformed buf →
        element.checked = true
    · exact .inl hunchecked
    · push Not at hunchecked
      obtain ⟨element, buf, value, he, hmalformed, -⟩ := hunchecked
      exact .inr (hreturn ⟨element, buf, value, he, hmalformed⟩)
  · rintro ⟨hdecides, hchecked | hrefused⟩
    · refine ⟨fun ⟨element, buf, value, he, hmalformed⟩ => .inl ?_, hdecides⟩
      exact ⟨element, buf, value, he, hchecked element buf value he hmalformed, hmalformed⟩
    · exact ⟨fun _ => hrefused, hdecides⟩

/-! ### The first malformed code -/

/-- Without its result a run has the same log. -/
theorem run_discard {q : Traced Event Bitstream SpsDimension}
    (hrun : q fuel (bitstreamInit data) = (log, some (r, buf))) :
    (q >>= fun _ => pure ()) fuel (bitstreamInit data) = (log, some (r.map fun _ => (), buf)) := by
  cases r with
  | none =>
      rw [Traced.bind_run_fail (congrArg Prod.snd hrun), hrun]
      rfl
  | some dim =>
      rw [Traced.bind_run (congrArg Prod.snd hrun), hrun, Traced.pure_run, List.append_nil]
      rfl

/-- A read that did not fail was not one of a malformed code. -/
theorem Event.Sound.not_malformed {element : Element} {buf : Bitstream} {value : Option Nat}
    (hsound : (Event.code element buf value).Sound)
    (hclean : (Event.code element buf value).failed = false) : ¬Malformed buf := by
  intro hmalformed
  have hnone := hsound.2 hmalformed
  subst hnone
  cases hclean

theorem Element.not_decides_of_checked {element : Element} (h : element.checked = true) :
    element.decides = false := by
  revert h
  cases element <;> decide

/-- A first malformed code is among those that are read. -/
theorem code_of_firstMalformed {order : Layout Element Unit}
    (halong : (Order.reader u).Along (parser u >>= fun _ => pure ()) order)
    (hrun : parser u fuel (bitstreamInit data) = (log, some (r, buf))) {element : Element}
    (hfirst : firstMalformed u fuel order data = some element) :
    ∃ place, .code element place none ∈ log := by
  obtain ⟨o, ho, htells⟩ := halong _ _ _ _ _ (run_discard hrun)
  generalize r.map (fun _ => ()) = r' at htells
  cases ho.symm.trans (firstMalformed_eq_some.1 hfirst)
  cases htells with
  | malformed _ hfail _ =>
      obtain ⟨place, rfl⟩ := hfail
      exact ⟨place, List.mem_append_right _ List.mem_cons_self⟩

/-- If the first malformed code is that of a checked element, it does no harm. -/
theorem harmless_of_firstMalformed {order : Layout Element Unit}
    (halong : (Order.reader u).Along (parser u >>= fun _ => pure ()) order)
    (hrun : parser u fuel (bitstreamInit data) = (log, some (r, buf)))
    (hsound : ∀ e ∈ log, e.Sound)
    (hfirst : ∀ element, firstMalformed u fuel order data = some element →
      element.checked = true) : Harmless log := by
  obtain ⟨o, ho, htells⟩ := halong _ _ _ _ _ (run_discard hrun)
  generalize r.map (fun _ => ()) = r' at htells
  have hclean : (∀ e ∈ log, e.failed = false) → Harmless log := by
    intro hclean
    have hnone : ∀ element place value, .code element place value ∈ log → ¬Malformed place :=
      fun _ _ _ he => (hsound _ he).not_malformed (hclean _ he)
    exact ⟨fun element place value he _ => hnone element place value he,
      .inl fun element place value he hbad => absurd hbad (hnone element place value he)⟩
  cases htells with
  | ended hlog => exact hclean hlog
  | refused hlog => exact hclean hlog
  | @malformed i before after e _ _ hbefore hfail hchecked =>
      have hcheck : i.checked = true := hfirst i (firstMalformed_eq_some.2 ho)
      obtain ⟨rfl, -⟩ := hchecked hcheck
      obtain ⟨place, rfl⟩ := hfail
      refine ⟨fun element place' value he hdec => ?_, .inr (.inl ?_)⟩
      · rcases List.mem_append.1 he with he | he
        · exact (hsound _ (List.mem_append_left _ he)).not_malformed (hbefore _ he)
        · cases List.mem_singleton.1 he
          rw [Element.not_decides_of_checked hcheck] at hdec
          cases hdec
      · have he : .code i place none ∈ before ++ [.code i place none] :=
          List.mem_append_right _ (List.mem_singleton_self _)
        exact ⟨i, place, none, he, hcheck, (hsound _ he).1 rfl⟩

end Runs

/-- **Malformed codes** make the parsers fail, in a run that ends, if the first
one in the order of the elements is that of a checked element; with HEVC only
then.  With H.264 they do not if the first one is that of an element on which
decisions are taken. -/
theorem spsParseDimension_malformed (u : Indeterminate) (fuel : Nat) (data : Nat → UInt8)
    (log : List Event) (r : Option SpsDimension) (buf : Bitstream) :
    (Trace.spsParseDimensionH264 u fuel (bitstreamInit data) = (log, some (r, buf)) →
      ((∀ element, firstMalformed u fuel Order.h264 data = some element →
          element.checked = true) → MalformedFails Trace.spsParseDimensionH264 u fuel data) ∧
      ∀ element, firstMalformed u fuel Order.h264 data = some element →
        element.decides = true → ¬MalformedFails Trace.spsParseDimensionH264 u fuel data) ∧
    (Trace.spsParseDimensionHevc u fuel (bitstreamInit data) = (log, some (r, buf)) →
      (MalformedFails Trace.spsParseDimensionHevc u fuel data ↔
        ∀ element, firstMalformed u fuel Order.hevc data = some element →
          element.checked = true)) := by
  have hallowed : ∀ e : Event, e.Allowed → e.Sound := fun _ he => he.2
  constructor
  · intro hrun
    have hspec := fun u u' (h : SameButUnassigned u u') =>
      (Trace.spsParseDimensionH264_spec h).mono hallowed
    have hsound : ∀ e ∈ log, e.Sound := by
      have := (hspec u u ⟨rfl, rfl, rfl⟩).logs fuel (bitstreamInit data)
      rwa [hrun] at this
    rw [malformedFails_iff hspec hrun]
    refine ⟨harmless_of_firstMalformed Order.spsParseDimensionH264_along hrun hsound, ?_⟩
    rintro element hfirst hdec ⟨hharmless, -⟩
    obtain ⟨place, he⟩ := code_of_firstMalformed Order.spsParseDimensionH264_along hrun hfirst
    exact hharmless element place none he hdec ((hsound _ he).1 rfl)
  · intro hrun
    have hspec := fun u u' (h : SameButUnassigned u u') => Trace.spsParseDimensionHevc_spec h
    have hsound : ∀ e ∈ log, e.Sound := by
      have := (hspec u u ⟨rfl, rfl, rfl⟩).logs fuel (bitstreamInit data)
      rwa [hrun] at this
    constructor
    · rintro ⟨hreturn, -⟩ element hfirst
      obtain ⟨place, he⟩ := code_of_firstMalformed Order.spsParseDimensionHevc_along hrun hfirst
      -- The parser returns false, which it does only where its reads are checked.
      have hnone := (returnsFalse_iff hrun).1 hreturn ⟨_, he, rfl⟩
      subst hnone
      exact Order.checked_of_hevc_fails (run_discard hrun) (firstMalformed_eq_some.1 hfirst)
    · exact fun hfirst => (malformedFails_iff hspec hrun).2
        (harmless_of_firstMalformed Order.spsParseDimensionHevc_along hrun hsound hfirst)


/-- An H.264 stream of one macroblock, where 33 zeros and a one stand for the
id. -/
def h264MalformedId : Nat → UInt8 :=
  dataOf [0x67, 0x42, 0x00, 0x1f, 0x00, 0x00, 0x00, 0x00, 0x6d, 0x3c]

/-- A run of a traced parser, from its log and its result. -/
theorem exists_of_traced {x : List Event × Option (Option SpsDimension × Bitstream)}
    {r : Option SpsDimension} (h : x.2.map (·.1) = some r) :
    ∃ log buf, x = (log, some (r, buf)) := by
  obtain ⟨buf, hx⟩ := exists_of_map_fst h
  exact ⟨x.1, buf, Prod.ext rfl hx⟩

/-- The read of the id fails, and the parser returns true. -/
theorem spsParseDimensionH264_malformedId :
    ¬MalformedFails Trace.spsParseDimensionH264 .zeros 64 h264MalformedId := by
  have hrun : (Trace.spsParseDimensionH264 .zeros 64 (bitstreamInit h264MalformedId)).2.map (·.1) =
      some (some ⟨16, 16⟩) := by decide +kernel
  have hfailed : (Trace.spsParseDimensionH264 .zeros 64
      (bitstreamInit h264MalformedId)).1.any Event.failed = true := by decide +kernel
  obtain ⟨log, buf, hlog⟩ := exists_of_traced hrun
  rw [hlog] at hfailed
  rintro ⟨hreturn, -⟩
  have := hreturn log _ buf hlog (List.any_eq_true.1 hfailed) ⟨0, 0⟩
  cases congrArg Prod.fst this

/-- 33 zeros and a one for the chroma_format_idc of H.264. -/
def h264MalformedChroma : Nat → UInt8 :=
  dataOf [0x67, 0x64, 0x00, 0x1f, 0x80, 0x00, 0x00, 0x00, 0x20]

/-- 33 zeros and a one for the pic_order_cnt_type of H.264. -/
def h264MalformedPicOrderCnt : Nat → UInt8 :=
  dataOf [0x67, 0x42, 0x00, 0x1f, 0xc0, 0x00, 0x00, 0x00, 0x1d, 0xc0]

/-- 33 zeros and a one for the id of HEVC. -/
def hevcMalformedId : Nat → UInt8 := dataOf [0x01, 0xff, 0xff, 0xff, 0xff, 0xff, 0xff, 0xff, 0xff,
  0xff, 0xff, 0xff, 0x5d, 0x00, 0x00, 0x00, 0x00, 0x40]

/-- Where a checked read fails the parsers return false, and the variable that
holds pic_order_cnt_type is used in spite of the failed read. -/
theorem spsParseDimension_malformed_first :
    ((Trace.spsParseDimensionH264 .zeros 64 (bitstreamInit h264MalformedChroma)).2.map (·.1) =
        some none ∧ MalformedFails Trace.spsParseDimensionH264 .zeros 64 h264MalformedChroma) ∧
      ¬MalformedFails Trace.spsParseDimensionH264 .zeros 64 h264MalformedPicOrderCnt ∧
      (Trace.spsParseDimensionHevc .zeros 64 (bitstreamInit hevcMalformedId)).2.map (·.1) =
        some none ∧ MalformedFails Trace.spsParseDimensionHevc .zeros 64 hevcMalformedId := by
  have hchroma : (Trace.spsParseDimensionH264 .zeros 64 (bitstreamInit h264MalformedChroma)).2.map
      (·.1) = some none := by decide +kernel
  have horder : (Trace.spsParseDimensionH264 .zeros 64
      (bitstreamInit h264MalformedPicOrderCnt)).2.map (·.1) = some (some ⟨16, 16⟩) := by
    decide +kernel
  have hid : (Trace.spsParseDimensionHevc .zeros 64 (bitstreamInit hevcMalformedId)).2.map (·.1) =
      some none := by decide +kernel
  have hfirstChroma : firstMalformed .zeros 64 Order.h264 h264MalformedChroma =
      some .chroma_format_idc := by decide +kernel
  have hfirstOrder : firstMalformed .zeros 64 Order.h264 h264MalformedPicOrderCnt =
      some .pic_order_cnt_type := by decide +kernel
  have hfirstId : firstMalformed .zeros 64 Order.hevc hevcMalformedId = some .hevc_id := by
    decide +kernel
  obtain ⟨log, buf, hlog⟩ := exists_of_traced hchroma
  obtain ⟨log', buf', hlog'⟩ := exists_of_traced horder
  obtain ⟨log'', buf'', hlog''⟩ := exists_of_traced hid
  refine ⟨⟨hchroma, ?_⟩, ?_, hid, ?_⟩
  · refine ((spsParseDimension_malformed .zeros 64 _ log _ buf).1 hlog).1 fun element h => ?_
    cases hfirstChroma.symm.trans h
    rfl
  · exact ((spsParseDimension_malformed .zeros 64 _ log' _ buf').1 hlog').2 _ hfirstOrder rfl
  · refine ((spsParseDimension_malformed .zeros 64 _ log'' _ buf'').2 hlog'').2 fun element h => ?_
    cases hfirstId.symm.trans h
    rfl

/-! ## Indices -/

/-- Looking up the units is in range exactly if the index is. -/
theorem indexUnits_inRange_iff {present : Bool} {idc fuel : Nat} {buf : Bitstream} :
    (∀ e ∈ (Trace.indexUnits present .hevc_subwc .hevc_subhc idc fuel buf).1, e.InRange) ↔
      (present = true → idc ≤ 4) := by
  cases present with
  | false => exact ⟨fun _ h => absurd h (by decide), fun _ _ he => nomatch he⟩
  | true =>
      have hlog : (Trace.indexUnits true .hevc_subwc .hevc_subhc idc fuel buf).1 =
          [.index .hevc_subwc idc, .index .hevc_subhc idc] := rfl
      rw [hlog]
      constructor
      · intro h _
        exact Nat.le_of_lt_succ (h _ List.mem_cons_self)
      · intro hle e he
        have hlt : idc < 5 := Nat.lt_succ_of_le (hle rfl)
        rcases List.mem_cons.1 he with rfl | he
        · exact hlt
        · rw [List.mem_singleton.1 he]
          exact hlt

/-- **Local tables** are indexed in range by `sps_parse_dimension_h264`, and by
`sps_parse_dimension_hevc` precisely if there is no conformance window, or
`chroma_format_idc` is at most 4.  This is about all runs, whether they end or
not. -/
theorem spsParseDimension_indices (u : Indeterminate) (fuel : Nat) (data : Nat → UInt8) :
    (∀ e ∈ (Trace.spsParseDimensionH264 u fuel (bitstreamInit data)).1, e.InRange) ∧
    ((∀ e ∈ (Trace.spsParseDimensionHevc u fuel (bitstreamInit data)).1, e.InRange) ↔
      ∀ pic, DecodedHevc u fuel data pic → pic.conformance_window_flag = true →
        pic.chroma_format_idc ≤ 4) := by
  have hsame : SameButUnassigned u u := ⟨rfl, rfl, rfl⟩
  refine ⟨fun e he => ((Trace.spsParseDimensionH264_spec hsame).logs fuel _ e he).1, ?_⟩
  -- The picture, with everything that is read before it.
  have hpic : Traces u u (hevcProfileTierLevel >>= fun _ => hevcPicture u)
      (Trace.hevcProfileTierLevel >>= fun _ => Trace.hevcPicture u)
      (Trace.hevcProfileTierLevel >>= fun _ => Trace.hevcPicture u) :=
    Trace.hevcProfileTierLevel_spec.bind fun _ => Trace.hevcPicture_spec hsame
  have hmem : ∀ e, e ∈ (Trace.spsParseDimensionHevc u fuel (bitstreamInit data)).1 ↔
      e ∈ ((Trace.hevcProfileTierLevel >>= fun _ => Trace.hevcPicture u) fuel
          (bitstreamInit data)).1 ∨
        ∃ pic buf, (hevcProfileTierLevel >>= fun _ => hevcPicture u) fuel (bitstreamInit data) =
            some (some pic, buf) ∧
          e ∈ (Trace.indexUnits pic.conformance_window_flag .hevc_subwc .hevc_subhc
            pic.chroma_format_idc fuel buf).1 := by
    intro e
    rw [Trace.spsParseDimensionHevc, ← Traced.bind_assoc, mem_bind, hpic.erases]
    simp only [mem_bind, Traced.pure_run, List.not_mem_nil, and_false, exists_false, or_false]
  constructor
  · rintro hall pic ⟨buf, hbuf⟩
    exact indexUnits_inRange_iff.1 fun e he => hall e ((hmem e).2 (.inr ⟨pic, buf, hbuf, he⟩))
  · intro hpics e he
    rcases (hmem e).1 he with he | ⟨pic, buf, hbuf, he⟩
    · exact (hpic.logs fuel _ e he).1
    · exact indexUnits_inRange_iff.2 (hpics pic ⟨buf, hbuf⟩) e he

/-- An HEVC stream of 16x16 samples with chroma_format_idc 5 and a conformance
window. -/
def hevcChromaFormat5 : Nat → UInt8 := dataOf [0x01, 0x01, 0xff, 0xff, 0xff, 0xff, 0xff, 0xff, 0xff,
  0xff, 0xff, 0xff, 0x5d, 0x98, 0x22, 0x11, 0xf8]

/-- There the arrays of five entries are indexed with 5. -/
theorem spsParseDimensionHevc_indexFive :
    ∃ e ∈ (Trace.spsParseDimensionHevc .zeros 32 (bitstreamInit hevcChromaFormat5)).1,
      ¬e.InRange := by decide +kernel

end CommonsC.SpsParser
