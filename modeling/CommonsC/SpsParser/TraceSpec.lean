import CommonsC.SpsParser.Trace

/-!
# CommonsC.SpsParser.TraceSpec

One lemma for each traced function: it follows the function of
`CommonsC.SpsParser.Parser`, and fails exactly for the events that make it fail
(`Traces`).  The proofs are the lists of the functions' parts.
-/

namespace CommonsC.SpsParser

open Bits Traced
open Parser (Unfailing)

/-! ## The parts that log nothing -/

theorem unfailing_skipBits (size : Nat) : Unfailing (bitstreamSkipBits size) := by
  intro fuel buf buf' h
  by_cases hsize : size ≤ longestSkip
  · rw [skipBits_eq hsize] at h
    cases h
  · rw [skipBits_overflow (Nat.lt_of_not_le hsize)] at h
    cases h

theorem unfailing_readBits {size : Nat} (hsize : size ≤ 32) :
    Unfailing (bitstreamReadBits size) := by
  intro fuel buf buf' h
  rw [readBits_eq hsize] at h
  cases h

theorem unfailing_profileInfo : Unfailing parseProfileInfo := by
  have hskip : ∀ n, Unfailing (Parser.void (bitstreamSkipBits n)) := fun n => Unfailing.void _
  refine (hskip 2).bind fun _ => ?_
  refine (hskip 1).bind fun _ => ?_
  refine (hskip 5).bind fun _ => ?_
  refine (Unfailing.times 32 (hskip 1)).bind fun _ => ?_
  refine (hskip 1).bind fun _ => ?_
  refine (hskip 1).bind fun _ => ?_
  refine (hskip 1).bind fun _ => ?_
  refine (hskip 1).bind fun _ => ?_
  exact hskip 44

theorem unfailing_vuiVideo : Unfailing skipVuiVideo := by
  have hskip : ∀ n, Unfailing (Parser.void (bitstreamSkipBits n)) := fun n => Unfailing.void _
  have hflag : Unfailing (bitstreamRead1.unchecked false) := Unfailing.unchecked _ _
  refine hflag.bind fun _ => ?_
  refine (Unfailing.optionally _ ?aspect).bind fun _ => ?_
  case aspect =>
    refine (Unfailing.unchecked _ _).bind fun _ => ?_
    exact Unfailing.optionally _ ((hskip 16).bind fun _ => hskip 16)
  refine hflag.bind fun _ => ?_
  refine (Unfailing.optionally _ (hskip 1)).bind fun _ => ?_
  refine hflag.bind fun _ => ?_
  refine (Unfailing.optionally _ ?signal).bind fun _ => ?_
  case signal =>
    refine (hskip 3).bind fun _ => ?_
    refine (hskip 1).bind fun _ => ?_
    refine hflag.bind fun _ => ?_
    exact Unfailing.optionally _ ((hskip 8).bind fun _ => (hskip 8).bind fun _ => hskip 8)
  refine hflag.bind fun _ => ?_
  refine (Unfailing.optionally _ ((hskip 5).bind fun _ => hskip 5)).bind fun _ => ?_
  refine hflag.bind fun _ => ?_
  exact Unfailing.optionally _ ((hskip 32).bind fun _ => (hskip 32).bind fun _ => hskip 1)

/-! ## Reading codes -/

/-- The specification of a traced function, for two ways to fill what C leaves
open. -/
abbrev Traces {α : Type} (u u' : Indeterminate) (p : Parser Bitstream α)
    (q q' : Traced Event Bitstream α) : Prop :=
  Spec Event.Allowed Event.Lost Event.Bad (Apart u u') p q q'

/-- The specification of a traced function whose failure is ignored. -/
abbrev Ignored {α : Type} (u u' : Indeterminate) (p : Parser Bitstream α)
    (q q' : Traced Event Bitstream α) : Prop :=
  Follows (fun e => e.Allowed ∧ ¬e.Bad) Event.Lost (Apart u u') p q q'

namespace Trace

variable {u u' : Indeterminate}

theorem silent_spec {α : Type} {p : Parser Bitstream α} (h : Unfailing p) :
    Traces u u' p (silent p) (silent p) := Spec.silent h

theorem skip_spec (n : Nat) : Traces u u' (Parser.void (bitstreamSkipBits n))
    (silent (Parser.void (bitstreamSkipBits n))) (silent (Parser.void (bitstreamSkipBits n))) :=
  silent_spec (Unfailing.void _)

theorem flag_spec : Traces u u' (bitstreamRead1.unchecked false)
    (silent (bitstreamRead1.unchecked false)) (silent (bitstreamRead1.unchecked false)) :=
  silent_spec (Unfailing.unchecked _ _)

/-- The log of one read. -/
theorem code_allowed {element : Element} {fuel : Nat} {buf buf' : Bitstream} {r : Option Nat}
    (h : bitstreamReadUeg u fuel buf = some (r, buf')) : (Event.code element buf r).Allowed :=
  ⟨trivial, readUeg_fails_iff h⟩

theorem code_not_bad {element : Element} (hcheck : element.checked = false) (buf : Bitstream)
    (r : Option Nat) : ¬(Event.code element buf r).Bad :=
  fun hbad => Bool.false_ne_true (hcheck.symm.trans hbad.1)

theorem code_not_lost {element : Element} (hdec : element.decides = false) (buf : Bitstream)
    (r : Option Nat) : ¬(Event.code element buf r).Lost :=
  fun hlost => Bool.false_ne_true (hdec.symm.trans hlost.1)

/-- A read that is checked. -/
theorem readUeg_spec (h : SameButUnassigned u u') {element : Element}
    (hcheck : element.checked = true) (hdec : element.decides = false) :
    Traces u u' (bitstreamReadUeg u) (readUeg u element) (readUeg u' element) := by
  rw [readUeg, readUeg, readUeg_congr h]
  refine Spec.observe (fun fuel buf r buf' hrun e he => ?_) fun fuel buf r buf' hrun => ?_
  · rw [List.mem_singleton.1 he]
    exact ⟨code_allowed hrun, code_not_lost hdec buf r⟩
  · constructor
    · rintro rfl
      exact ⟨_, List.mem_singleton_self _, hcheck, rfl⟩
    · rintro ⟨e, he, hbad⟩
      rw [List.mem_singleton.1 he] at hbad
      exact hbad.2

/-- A read that is not checked. -/
theorem readUeg_ignored (h : SameButUnassigned u u') {element : Element}
    (hcheck : element.checked = false) (hdec : element.decides = false) :
    Ignored u u' (bitstreamReadUeg u) (readUeg u element) (readUeg u' element) := by
  rw [readUeg, readUeg, readUeg_congr h]
  refine Follows.observe fun fuel buf r buf' hrun e he => ?_
  rw [List.mem_singleton.1 he]
  exact ⟨⟨code_allowed hrun, code_not_bad hcheck buf r⟩, code_not_lost hdec buf r⟩

theorem readEg_ignored (h : SameButUnassigned u u') {element : Element}
    (hcheck : element.checked = false) (hdec : element.decides = false) :
    Ignored u u' (bitstreamReadEg u) (readEg u element) (readEg u' element) := by
  refine (readUeg_ignored h hcheck hdec).bind fun tmp => ?_
  split <;> exact Follows.pure _

theorem readDeciding_run_none {element : Element} {old fuel : Nat} {buf : Bitstream}
    (hrun : bitstreamReadUeg u fuel buf = none) :
    readDeciding u element old fuel buf = ([], none) := by
  have hq : unchecked old (readUeg u element) fuel buf = ([], none) := by
    rw [unchecked, readUeg, observe_run_none hrun, Option.map_none]
  rw [readDeciding, bind_run_none (congrArg Prod.snd hq), hq]

theorem readDeciding_run {element : Element} {old fuel : Nat} {buf buf' : Bitstream}
    {r : Option Nat} (hrun : bitstreamReadUeg u fuel buf = some (r, buf')) :
    readDeciding u element old fuel buf =
      ([.code element buf r, .decide element (r.getD old)], some (some (r.getD old), buf')) := by
  have hq : unchecked old (readUeg u element) fuel buf =
      ([.code element buf r], some (some (r.getD old), buf')) := by
    rw [unchecked, readUeg, observe_run hrun, Option.map_some]
  rw [readDeciding, bind_run (congrArg Prod.snd hq), hq]
  rfl

/-- The decision is what tells two runs apart when the read fails. -/
theorem readDeciding_coupled (h : SameButUnassigned u u') {element : Element}
    (hdec : element.decides = true) {old old' : Nat} (hold : Apart u u' → old ≠ old')
    (fuel : Nat) (buf : Bitstream) :
    Coupled Event.Lost (Apart u u') (readDeciding u element old fuel buf)
      (readDeciding u' element old' fuel buf) := by
  cases hrun : bitstreamReadUeg u fuel buf with
  | none =>
      have hrun' := hrun
      rw [← readUeg_congr h] at hrun'
      rw [readDeciding_run_none hrun, readDeciding_run_none hrun']
      refine .inl ⟨rfl, fun _ he => ?_⟩
      cases he
  | some out =>
      have hrun' := hrun
      rw [← readUeg_congr h] at hrun'
      obtain ⟨r, buf'⟩ := out
      rw [readDeciding_run hrun, readDeciding_run hrun']
      cases r with
      | none =>
          refine .inr ⟨⟨_, List.mem_cons_self, hdec, rfl⟩, fun hapart => ?_⟩
          refine ⟨1, _, _, rfl, rfl, fun heq => hold hapart ?_⟩
          cases heq
          rfl
      | some value =>
          refine .inl ⟨rfl, fun e he hlost => ?_⟩
          rcases List.mem_cons.1 he with rfl | he
          · exact absurd hlost.2 (Option.some_ne_none _)
          · rw [List.mem_singleton.1 he] at hlost
            exact hlost

/-- What such a read logs. -/
theorem readDeciding_logs {element : Element} (hcheck : element.checked = false) {old fuel : Nat}
    {buf : Bitstream} {e : Event} (he : e ∈ (readDeciding u element old fuel buf).1) :
    e.Allowed ∧ ¬e.Bad := by
  cases hrun : bitstreamReadUeg u fuel buf with
  | none =>
      rw [readDeciding_run_none hrun] at he
      cases he
  | some out =>
      rw [readDeciding_run hrun] at he
      rcases List.mem_cons.1 he with rfl | he
      · exact ⟨code_allowed hrun, code_not_bad hcheck buf _⟩
      · rw [List.mem_singleton.1 he]
        exact ⟨⟨trivial, trivial⟩, fun hbad => hbad⟩

/-- A read into a variable that decisions are taken on: if it fails, the old
value is decided on. -/
theorem readDeciding_spec (h : SameButUnassigned u u') {element : Element}
    (hcheck : element.checked = false) (hdec : element.decides = true) {old old' : Nat}
    (hold : Apart u u' → old ≠ old') :
    Traces u u' ((bitstreamReadUeg u).unchecked old) (readDeciding u element old)
      (readDeciding u' element old') where
  erases fuel buf := by
    cases hrun : bitstreamReadUeg u fuel buf with
    | none => rw [readDeciding_run_none hrun, Parser.unchecked, hrun, Option.map_none]
    | some out => rw [readDeciding_run hrun, Parser.unchecked, hrun, Option.map_some]
  logs fuel buf e he := (readDeciding_logs hcheck he).1
  coupled := readDeciding_coupled h hdec hold
  fails fuel buf r buf' hr := by
    constructor
    · rintro rfl
      cases hrun : bitstreamReadUeg u fuel buf with
      | none =>
          rw [readDeciding_run_none hrun] at hr
          cases hr
      | some out =>
          rw [readDeciding_run hrun] at hr
          cases hr
    · rintro ⟨e, he, hbad⟩
      exact absurd hbad (readDeciding_logs hcheck he).2

/-! ## The functions -/

theorem readNextScale_ignored (h : SameButUnassigned u u') (lastScale nextScale : Nat) :
    Ignored u u' (SpsParser.readNextScale u lastScale nextScale)
      (readNextScale u lastScale nextScale) (readNextScale u' lastScale nextScale) := by
  unfold SpsParser.readNextScale readNextScale
  split
  · exact (readEg_ignored h rfl rfl).bind fun _ => Follows.pure _
  · exact Follows.pure _

theorem scalingLoop_ignored (h : SameButUnassigned u u') (n lastScale nextScale : Nat) :
    Ignored u u' (SpsParser.scalingLoop u n lastScale nextScale)
      (scalingLoop u n lastScale nextScale) (scalingLoop u' n lastScale nextScale) := by
  induction n generalizing lastScale nextScale with
  | zero => exact Follows.pure ()
  | succ n ih => exact (readNextScale_ignored h lastScale nextScale).bind fun _ => ih _ _

theorem skipElements_spec (h : SameButUnassigned u u') {elements : List Element}
    (hignored : ∀ element ∈ elements, element.checked = false ∧ element.decides = false) :
    Traces u u' (Parser.times elements.length (Parser.void (bitstreamReadUeg u)))
      (skipElements u elements) (skipElements u' elements) := by
  induction elements with
  | nil => exact Spec.pure ()
  | cons element elements ih =>
      obtain ⟨hcheck, hdec⟩ := hignored element List.mem_cons_self
      exact (Spec.void (readUeg_ignored h hcheck hdec)).bind fun _ =>
        ih fun element he => hignored element (List.mem_cons_of_mem _ he)

theorem skipSchedSel_spec (h : SameButUnassigned u u') :
    Traces u u' (SpsParser.skipSchedSel u) (skipSchedSel u) (skipSchedSel u') :=
  (Spec.void (readUeg_ignored h rfl rfl)).bind fun _ =>
    (Spec.void (readUeg_ignored h rfl rfl)).bind fun _ => skip_spec 1

theorem refuse_spec {α : Type} (element : Element) (value : Nat) :
    Traces u u' (Parser.fail : Parser Bitstream α) (reject (.refuse element value))
      (reject (.refuse element value)) :=
  Spec.reject ⟨trivial, trivial⟩ (fun h => h) trivial

theorem skipHrdParameters_spec (h : SameButUnassigned u u') {element : Element}
    (hcheck : element.checked = false) (hdec : element.decides = true) {old old' : Nat}
    (hold : Apart u u' → old ≠ old') :
    Traces u u' (SpsParser.skipHrdParameters u old) (skipHrdParameters u element old)
      (skipHrdParameters u' element old') := by
  refine (readDeciding_spec h hcheck hdec hold).bind fun cpb_cnt_minus1 => ?_
  split
  · exact refuse_spec element cpb_cnt_minus1
  · refine (skip_spec 4).bind fun _ => ?_
    refine (skip_spec 4).bind fun _ => ?_
    refine (Spec.times _ (skipSchedSel_spec h)).bind fun _ => ?_
    refine (skip_spec 5).bind fun _ => ?_
    refine (skip_spec 5).bind fun _ => ?_
    refine (skip_spec 5).bind fun _ => ?_
    exact skip_spec 5

theorem restriction_ignored : ∀ element ∈ restrictionElements,
    element.checked = false ∧ element.decides = false := by decide

theorem skipVuiParameters_spec (h : SameButUnassigned u u') :
    Traces u u' (SpsParser.skipVuiParameters u) (skipVuiParameters u) (skipVuiParameters u') := by
  refine (silent_spec unfailing_vuiVideo).bind fun _ => ?_
  refine flag_spec.bind fun nal => ?_
  refine (Spec.optionally nal fun _ => skipHrdParameters_spec h rfl rfl fun hapart =>
    hapart.nal_cpb_cnt_minus1).bind fun _ => ?_
  refine flag_spec.bind fun vcl => ?_
  refine (Spec.optionally vcl fun _ => skipHrdParameters_spec h rfl rfl fun hapart =>
    hapart.vcl_cpb_cnt_minus1).bind fun _ => ?_
  refine (Spec.optionally _ fun _ => skip_spec 1).bind fun _ => ?_
  refine (skip_spec 1).bind fun _ => ?_
  refine flag_spec.bind fun restriction => ?_
  refine Spec.optionally restriction fun _ => ?_
  exact (skip_spec 1).bind fun _ => skipElements_spec h restriction_ignored

theorem scalingMatrixLoop_spec (h : SameButUnassigned u u') (n i : Nat) :
    Traces u u' (SpsParser.scalingMatrixLoop u n i) (scalingMatrixLoop u n i)
      (scalingMatrixLoop u' n i) := by
  induction n generalizing i with
  | zero => exact Spec.pure ()
  | succ n ih =>
      exact flag_spec.bind fun present => (Spec.optionally present fun _ =>
        Spec.void (scalingLoop_ignored h _ 8 8)).bind fun _ => ih (i + 1)

theorem readChromaFormat_spec (h : SameButUnassigned u u') :
    Traces u u' (SpsParser.readChromaFormat u) (readChromaFormat u) (readChromaFormat u') := by
  refine (readUeg_spec h rfl rfl).bind fun idc => ?_
  split
  · exact refuse_spec _ idc
  · refine (Spec.optionally _ fun _ => skip_spec 1).bind fun _ => ?_
    refine (Spec.void (readUeg_ignored h rfl rfl)).bind fun _ => ?_
    refine (Spec.void (readUeg_ignored h rfl rfl)).bind fun _ => ?_
    refine (skip_spec 1).bind fun _ => ?_
    refine flag_spec.bind fun present => ?_
    refine (Spec.optionally present fun _ => scalingMatrixLoop_spec h _ 0).bind fun _ => ?_
    exact Spec.pure idc

theorem h264ChromaFormat_spec (h : SameButUnassigned u u') (profile_idc : Nat) :
    Traces u u' (SpsParser.h264ChromaFormat u profile_idc) (h264ChromaFormat u profile_idc)
      (h264ChromaFormat u' profile_idc) := by
  unfold SpsParser.h264ChromaFormat h264ChromaFormat
  split
  · exact readChromaFormat_spec h
  · exact Spec.pure 1

theorem h264PicOrderCnt_spec (h : SameButUnassigned u u') :
    Traces u u' (SpsParser.h264PicOrderCnt u) (h264PicOrderCnt u) (h264PicOrderCnt u') := by
  refine (readDeciding_spec h rfl rfl fun hapart => hapart.pic_order_cnt_type).bind
    fun pic_order_cnt_type => ?_
  split
  · exact Spec.void (readUeg_ignored h rfl rfl)
  · refine Spec.optionally _ fun _ => ?_
    refine (skip_spec 1).bind fun _ => ?_
    refine (Spec.void (readEg_ignored h rfl rfl)).bind fun _ => ?_
    refine (Spec.void (readEg_ignored h rfl rfl)).bind fun _ => ?_
    refine (readDeciding_spec h rfl rfl fun hapart =>
      hapart.num_ref_frames_in_pic_order_cnt_cycle).bind fun n => ?_
    exact Spec.times n (Spec.void (readEg_ignored h rfl rfl))

/-- None of the offsets is checked or decided on. -/
def CropElements.Ignored (elements : CropElements) : Prop :=
  ∀ element ∈ [elements.left, elements.right, elements.top, elements.bottom],
    element.checked = false ∧ element.decides = false

theorem frameCrop_ignored : frameCrop.Ignored := by unfold CropElements.Ignored; decide

theorem confWin_ignored : confWin.Ignored := by unfold CropElements.Ignored; decide

theorem readCropOffsets_spec (h : SameButUnassigned u u') {elements : CropElements}
    (hignored : elements.Ignored) (present : Bool) :
    Traces u u' (SpsParser.readCropOffsets u present) (readCropOffsets u elements present)
      (readCropOffsets u' elements present) := by
  have hread : ∀ element ∈ [elements.left, elements.right, elements.top, elements.bottom],
      Traces u u' ((bitstreamReadUeg u).unchecked 0) (unchecked 0 (readUeg u element))
        (unchecked 0 (readUeg u' element)) := fun element he =>
    Spec.unchecked 0 (readUeg_ignored h (hignored element he).1 (hignored element he).2)
  unfold SpsParser.readCropOffsets readCropOffsets
  split
  · refine (hread _ (by simp)).bind fun _ => ?_
    refine (hread _ (by simp)).bind fun _ => ?_
    refine (hread _ (by simp)).bind fun _ => ?_
    refine (hread _ (by simp)).bind fun _ => ?_
    exact Spec.pure _
  · exact Spec.pure _

theorem h264Picture_spec (h : SameButUnassigned u u') :
    Traces u u' (SpsParser.h264Picture u) (h264Picture u) (h264Picture u') := by
  have hignored : ∀ {element : Element}, element.checked = false → element.decides = false →
      Traces u u' (Parser.void (bitstreamReadUeg u)) (void (readUeg u element))
        (void (readUeg u' element)) := fun hcheck hdec => Spec.void (readUeg_ignored h hcheck hdec)
  refine (skip_spec 8).bind fun _ => ?_
  refine (silent_spec (Unfailing.unchecked _ _)).bind fun profile_idc => ?_
  refine (skip_spec 6).bind fun _ => ?_
  refine (silent_spec (unfailing_skipBits 2)).bind fun _ => ?_
  refine (skip_spec 8).bind fun _ => ?_
  refine (hignored rfl rfl).bind fun _ => ?_
  refine (h264ChromaFormat_spec h profile_idc).bind fun _ => ?_
  refine (hignored rfl rfl).bind fun _ => ?_
  refine (h264PicOrderCnt_spec h).bind fun _ => ?_
  refine (hignored rfl rfl).bind fun _ => ?_
  refine (skip_spec 1).bind fun _ => ?_
  refine (readUeg_spec h rfl rfl).bind fun _ => ?_
  refine (readUeg_spec h rfl rfl).bind fun _ => ?_
  refine flag_spec.bind fun frame_mbs_only_flag => ?_
  refine (Spec.optionally _ fun _ => skip_spec 1).bind fun _ => ?_
  refine (skip_spec 1).bind fun _ => ?_
  refine flag_spec.bind fun present => ?_
  refine (readCropOffsets_spec h frameCrop_ignored present).bind fun _ => ?_
  exact Spec.pure _

/-- An index in range. -/
theorem index_spec {α : Type} {table : Table} {i : Nat} (hi : i < table.length)
    {p : Parser Bitstream α} {q q' : Traced Event Bitstream α} (h : Traces u u' p q q') :
    Traces u u' p (emit (.index table i) >>= fun _ => q) (emit (.index table i) >>= fun _ => q') :=
  Spec.emit_bind ⟨hi, trivial⟩ (fun h => h) (fun h => h) h

/-- The presence flags of at most 8 sub-layers. -/
theorem readSubLayerFlags_spec {n i : Nat} (hn : i + n ≤ 8) :
    Traces u u' (SpsParser.readSubLayerFlags n) (readSubLayerFlags n i)
      (readSubLayerFlags n i) := by
  induction n generalizing i with
  | zero => exact Spec.pure []
  | succ n ih =>
      have hi : i < 8 := by omega
      have hbit : Traces u u' (bitstreamReadBits 1) (silent (bitstreamReadBits 1))
          (silent (bitstreamReadBits 1)) := silent_spec (unfailing_readBits (by decide))
      exact hbit.bind fun _ => index_spec hi (hbit.bind fun _ => index_spec hi
        ((ih (by omega)).bind fun _ => Spec.pure _))

theorem skipSubLayers_spec {i : Nat} {flags : List (Bool × Bool)} (hn : i + flags.length ≤ 8) :
    Traces u u' (SpsParser.skipSubLayers flags) (skipSubLayers i flags)
      (skipSubLayers i flags) := by
  induction flags generalizing i with
  | nil => exact Spec.pure ()
  | cons flag flags ih =>
      have hlen : i + 1 + flags.length ≤ 8 := by
        rw [List.length_cons] at hn
        omega
      have hi : i < 8 := by omega
      exact index_spec hi ((silent_spec (Unfailing.optionally _ unfailing_profileInfo)).bind
        fun _ => index_spec hi ((silent_spec (Unfailing.optionally _ (Unfailing.void _))).bind
          fun _ => ih hlen))

theorem length_readSubLayerFlags {n fuel : Nat} {buf buf' : Bitstream} {flags : List (Bool × Bool)}
    (h : SpsParser.readSubLayerFlags n fuel buf = some (some flags, buf')) : flags.length = n := by
  induction n generalizing buf buf' flags with
  | zero =>
      rw [← Parser.eq_of_pure_run h]
      rfl
  | succ n ih =>
      rw [SpsParser.readSubLayerFlags] at h
      obtain ⟨_, _, _, h⟩ := Parser.bind_eq_some h
      obtain ⟨_, _, _, h⟩ := Parser.bind_eq_some h
      obtain ⟨rest, _, hrest, h⟩ := Parser.bind_eq_some h
      rw [← Parser.eq_of_pure_run h, List.length_cons, ih hrest]

/-- Three bits hold a number below 8. -/
theorem readThreeBits_lt {fuel v : Nat} {buf buf' : Bitstream}
    (h : (bitstreamReadBits 3).unchecked 0 fuel buf = some (some v, buf')) : v < 8 := by
  rw [Parser.unchecked, readBits_eq (by decide), Option.map_some] at h
  cases h
  exact toNat_lt _

theorem hevcProfileTierLevel_spec :
    Traces u u' SpsParser.hevcProfileTierLevel hevcProfileTierLevel hevcProfileTierLevel := by
  refine (skip_spec 4).bind fun _ => ?_
  refine Spec.bind_of (· < 8) (silent_spec (Unfailing.unchecked _ _))
    (fun _ _ _ _ => readThreeBits_lt) fun n hn => ?_
  refine (skip_spec 1).bind fun _ => ?_
  refine (silent_spec unfailing_profileInfo).bind fun _ => ?_
  refine (skip_spec 8).bind fun _ => ?_
  refine Spec.bind_of (·.length = n) (readSubLayerFlags_spec (by omega))
    (fun _ _ _ _ => length_readSubLayerFlags) fun flags hflags => ?_
  exact (silent_spec (Unfailing.optionally _ (Unfailing.times _ (Unfailing.void _)))).bind
    fun _ => skipSubLayers_spec (by omega)

theorem hevcPicture_spec (h : SameButUnassigned u u') :
    Traces u u' (SpsParser.hevcPicture u) (hevcPicture u) (hevcPicture u') := by
  refine (readUeg_spec h rfl rfl).bind fun _ => ?_
  refine (readUeg_spec h rfl rfl).bind fun idc => ?_
  refine (Spec.optionally _ fun _ => skip_spec 1).bind fun _ => ?_
  refine (readUeg_spec h rfl rfl).bind fun w => ?_
  refine (readUeg_spec h rfl rfl).bind fun l => ?_
  by_cases hw : w = 0
  · rw [if_pos (Or.inl hw), if_pos hw, if_pos hw]
    exact refuse_spec _ 0
  · by_cases hl : l = 0
    · rw [if_pos (Or.inr hl), if_neg hw, if_pos hl, if_neg hw, if_pos hl]
      exact refuse_spec _ 0
    · rw [if_neg (not_or.2 ⟨hw, hl⟩), if_neg hw, if_neg hl, if_neg hw, if_neg hl]
      exact flag_spec.bind fun present =>
        (readCropOffsets_spec h confWin_ignored present).bind fun _ => Spec.pure _

end Trace

end CommonsC.SpsParser
