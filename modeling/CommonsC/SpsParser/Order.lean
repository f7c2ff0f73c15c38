import CommonsC.Base.Layout
import CommonsC.SpsParser.TraceSpec

/-!
# CommonsC.SpsParser.Order

The order of the elements in a sequence parameter set, as far as the two parsers
go, and the first malformed code that a stream has in this order
(`firstMalformed`).  Each traced function goes along the layout of its elements
(`Order.…_along`).
-/

namespace CommonsC.SpsParser

open Bits Traced
open Parser (peek advance Yields)

/-! ## Codes in a stream -/

/-- How many zeros there are before a one; it must come within `fuel` bits. -/
def leadingZeros : (fuel : Nat) → Bitstream → Option Nat
  | 0, _ => none
  | fuel + 1, buf =>
      if (nextBit buf).1 then some 0 else (leadingZeros fuel (nextBit buf).2).map (· + 1)

/-- The code that starts with `k` zeros: its value and what comes after it, if
it is not malformed. -/
def codeAfter (u : Indeterminate) (buf : Bitstream) (k : Nat) : Option (Nat × Bitstream) :=
  if 32 < k % 2 ^ 32 then none
  else some ((u.shl (k % 2 ^ 32) + (2 ^ 32 - 1) +
      toNat (peek nextBit (k % 2 ^ 32) (advance nextBit (k + 1) buf))) % 2 ^ 32,
    advance nextBit (k + 1 + k % 2 ^ 32) buf)

/-- The code that comes next. -/
def codeAt (u : Indeterminate) (fuel : Nat) (buf : Bitstream) :
    Option (Option (Nat × Bitstream)) :=
  (leadingZeros fuel buf).map (codeAfter u buf)

theorem leadingZeros_eq {k fuel : Nat} (hk : k < fuel) {buf : Bitstream}
    (hbuf : Yields nextBit buf (zerosOne k)) : leadingZeros fuel buf = some k := by
  induction k generalizing fuel buf with
  | zero =>
      obtain ⟨fuel, rfl⟩ := Nat.exists_eq_add_of_lt hk
      rw [leadingZeros, if_pos ((Parser.yields_cons nextBit buf true _).1 hbuf).1]
  | succ k ih =>
      cases fuel with
      | zero => exact absurd hk (Nat.not_lt_zero _)
      | succ fuel =>
          obtain ⟨hzero, hrest⟩ := (Parser.yields_cons nextBit buf false _).1 hbuf
          rw [leadingZeros, if_neg (hzero ▸ Bool.false_ne_true),
            ih (Nat.lt_of_succ_lt_succ hk) hrest, Option.map_some]

/-- A read of a code that ends returns what the code is. -/
theorem codeAt_of_readUeg {u : Indeterminate} {fuel : Nat} {buf buf' : Bitstream}
    {r : Option Nat} (h : bitstreamReadUeg u fuel buf = some (r, buf')) :
    codeAt u fuel buf = some (r.map (·, buf')) := by
  obtain ⟨k, hk, hbuf⟩ := zerosOne_of_readUeg (h ▸ Option.some_ne_none _)
  rw [← readUegTraced_snd] at h
  rw [codeAt, leadingZeros_eq hk hbuf, Option.map_some, codeAfter]
  by_cases hlt : 32 < k % 2 ^ 32
  · rw [readUegTraced_zeros_fail u hk hbuf hlt] at h
    cases h
    rw [if_pos hlt, Option.map_none]
  · rw [readUegTraced_zeros u hk hbuf (Nat.le_of_not_lt hlt)] at h
    cases h
    rw [if_neg hlt, Option.map_some]

/-! ## The order of the elements -/

namespace Order

/-- Bits that are not looked at. -/
def skip (n : Nat) : Layout Element Unit := .bits n fun _ => .done ()

def flag : Layout Element Bool := .bits 1 fun v => .done (v != 0)

/-- An element with a code `ue(v)`. -/
def ue (element : Element) : Layout Element Nat := .code element .done

/-- An element with a code `se(v)`. -/
def se (element : Element) : Layout Element Int := .code element fun v => .done (egValue v)

/-- An element that is not looked at. -/
def ignored (element : Element) : Layout Element Unit := .code element fun _ => .done ()

/-- The next entry of a scaling list. -/
def nextScale (lastScale nextScale : Nat) : Layout Element Nat :=
  if nextScale ≠ 0 then do
    let deltaScale ← se .deltaScale
    pure ((lastScale + (deltaScale % 2 ^ 32).toNat + 256) % 2 ^ 32 % 256)
  else pure nextScale

/-- What is left of a scaling list. -/
def scalingList : (n lastScale nextScale : Nat) → Layout Element Unit
  | 0, _, _ => pure ()
  | n + 1, lastScale, nextScale => do
      let nextScale ← Order.nextScale lastScale nextScale
      scalingList n (if nextScale = 0 then lastScale else nextScale) nextScale

/-- The scaling lists from `i` on. -/
def scalingMatrix : (n i : Nat) → Layout Element Unit
  | 0, _ => pure ()
  | n + 1, i => do
      let scaling_list_present_flag ← flag
      Layout.optionally scaling_list_present_flag (scalingList (if i < 6 then 16 else 64) 8 8)
      scalingMatrix n (i + 1)

/-- The HRD parameters, of which `element` is the number of entries less one. -/
def hrdParameters (element : Element) : Layout Element Unit := do
  let cpb_cnt_minus1 ← ue element
  if 31 < cpb_cnt_minus1 then .refused
  else do
    skip 4
    skip 4
    Layout.times (cpb_cnt_minus1 + 1) do
      ignored .bit_rate_value_minus1
      ignored .cpb_size_value_minus1
      skip 1
    skip 5
    skip 5
    skip 5
    skip 5

/-- The VUI parameters before the HRD parameters; they have no codes. -/
def vuiVideo : Layout Element Unit := do
  let aspect_ratio_info_present_flag ← flag
  Layout.optionally aspect_ratio_info_present_flag do
    let aspect_ratio_idc ← .bits 8 .done
    Layout.optionally (aspect_ratio_idc == EXTENDED_SAR) do
      skip 16
      skip 16
  let overscan_info_present_flag ← flag
  Layout.optionally overscan_info_present_flag (skip 1)
  let video_signal_type_present_flag ← flag
  Layout.optionally video_signal_type_present_flag do
    skip 3
    skip 1
    let colour_description_present_flag ← flag
    Layout.optionally colour_description_present_flag do
      skip 8
      skip 8
      skip 8
  let chroma_loc_info_present_flag ← flag
  Layout.optionally chroma_loc_info_present_flag do
    skip 5
    skip 5
  let timing_info_present_flag ← flag
  Layout.optionally timing_info_present_flag do
    skip 32
    skip 32
    skip 1

/-- Elements that are not looked at. -/
def ignoredElements : List Element → Layout Element Unit
  | [] => pure ()
  | element :: elements => do
      ignored element
      ignoredElements elements

def vuiParameters : Layout Element Unit := do
  vuiVideo
  let nal_hrd_parameters_present_flag ← flag
  Layout.optionally nal_hrd_parameters_present_flag (hrdParameters .nal_cpb_cnt_minus1)
  let vcl_hrd_parameters_present_flag ← flag
  Layout.optionally vcl_hrd_parameters_present_flag (hrdParameters .vcl_cpb_cnt_minus1)
  Layout.optionally (nal_hrd_parameters_present_flag || vcl_hrd_parameters_present_flag) (skip 1)
  skip 1
  let bitstream_restriction_flag ← flag
  Layout.optionally bitstream_restriction_flag do
    skip 1
    ignoredElements Trace.restrictionElements

def chromaFormat : Layout Element Nat := do
  let chroma_format_idc ← ue .chroma_format_idc
  if 3 < chroma_format_idc then .refused
  else do
    Layout.optionally (chroma_format_idc == 3) (skip 1)
    ignored .bit_depth_luma_minus8
    ignored .bit_depth_chroma_minus8
    skip 1
    let scaling_matrix_present_flag ← flag
    Layout.optionally scaling_matrix_present_flag
      (scalingMatrix (if chroma_format_idc ≠ 3 then 8 else 12) 0)
    pure chroma_format_idc

def h264ChromaFormat (profile_idc : Nat) : Layout Element Nat :=
  if hasChromaFormat profile_idc then chromaFormat else pure 1

def picOrderCnt : Layout Element Unit := do
  let pic_order_cnt_type ← ue .pic_order_cnt_type
  if pic_order_cnt_type = 0 then ignored .log2_max_pic_order_cnt_lsb_minus4
  else Layout.optionally (pic_order_cnt_type == 1) do
    skip 1
    ignored .offset_for_non_ref_pic
    ignored .offset_for_top_to_bottom_field
    let num_ref_frames_in_pic_order_cnt_cycle ← ue .num_ref_frames_in_pic_order_cnt_cycle
    Layout.times num_ref_frames_in_pic_order_cnt_cycle (ignored .offset_for_ref_frame)

def cropOffsets (elements : Trace.CropElements) (present : Bool) : Layout Element CropOffsets :=
  if present then do
    let left ← ue elements.left
    let right ← ue elements.right
    let top ← ue elements.top
    let bottom ← ue elements.bottom
    pure ⟨left, right, top, bottom⟩
  else pure ⟨0, 0, 0, 0⟩

def h264Picture : Layout Element H264Picture := do
  skip 8
  let profile_idc ← .bits 8 .done
  skip 6
  skip 2
  skip 8
  ignored .id
  let chroma_format_idc ← h264ChromaFormat profile_idc
  ignored .log2_max_frame_num_minus4
  picOrderCnt
  ignored .num_ref_frames
  skip 1
  let pic_width_in_mbs_minus1 ← ue .pic_width_in_mbs_minus1
  let pic_height_in_map_units_minus1 ← ue .pic_height_in_map_units_minus1
  let frame_mbs_only_flag ← flag
  Layout.optionally (!frame_mbs_only_flag) (skip 1)
  skip 1
  let frame_cropping_flag ← flag
  let crop ← cropOffsets Trace.frameCrop frame_cropping_flag
  pure { chroma_format_idc, pic_width_in_mbs_minus1, pic_height_in_map_units_minus1,
         frame_mbs_only_flag, frame_cropping_flag, crop }

/-- The sequence parameter set of H.264. -/
def h264 : Layout Element Unit := do
  let _ ← h264Picture
  let vui_parameters_present_flag ← flag
  Layout.optionally vui_parameters_present_flag vuiParameters

def subLayerFlags : (n : Nat) → Layout Element (List (Bool × Bool))
  | 0 => pure []
  | n + 1 => do
      let sub_layer_profile_present_flag ← flag
      let sub_layer_level_present_flag ← flag
      let flags ← subLayerFlags n
      pure ((sub_layer_profile_present_flag, sub_layer_level_present_flag) :: flags)

def subLayers : List (Bool × Bool) → Layout Element Unit
  | [] => pure ()
  | (sub_layer_profile_present_flag, sub_layer_level_present_flag) :: flags => do
      skip (if sub_layer_profile_present_flag then 88 else 0)
      skip (if sub_layer_level_present_flag then 8 else 0)
      subLayers flags

def hevcProfileTierLevel : Layout Element Unit := do
  skip 4
  let max_sub_layers_minus1 ← .bits 3 .done
  skip 1
  skip 88
  skip 8
  let flags ← subLayerFlags max_sub_layers_minus1
  skip (if 0 < max_sub_layers_minus1 then (8 - max_sub_layers_minus1) * 2 else 0)
  subLayers flags

/-- `chroma_format_idc`, `pic_width_in_luma_samples` and
`pic_height_in_luma_samples`. -/
def hevcSize : Layout Element (Nat × Nat × Nat) := do
  let _ ← ue .hevc_id
  let chroma_format_idc ← ue .hevc_chroma_format_idc
  Layout.optionally (chroma_format_idc == 3) (skip 1)
  let pic_width_in_luma_samples ← ue .pic_width_in_luma_samples
  let pic_height_in_luma_samples ← ue .pic_height_in_luma_samples
  if pic_width_in_luma_samples = 0 then .refused
  else if pic_height_in_luma_samples = 0 then .refused
  else pure (chroma_format_idc, pic_width_in_luma_samples, pic_height_in_luma_samples)

def hevcWindow : Layout Element Unit := do
  let conformance_window_flag ← flag
  let _ ← cropOffsets Trace.confWin conformance_window_flag
  pure ()

/-- The part of `hevc` up to the size. -/
def hevcHead : Layout Element (Nat × Nat × Nat) := do
  hevcProfileTierLevel
  hevcSize

/-- The sequence parameter set of HEVC. -/
def hevc : Layout Element Unit := do
  let _ ← hevcHead
  hevcWindow

/-! ## The parsers go along -/

/-- The parsers as readers of the elements. -/
def reader (u : Indeterminate) : Reader Element Event Bitstream where
  next := nextBit
  decode := codeAt u
  clean e := e.failed = false
  failure element e := ∃ buf, e = .code element buf none
  checked element := element.checked = true

variable (u : Indeterminate)

theorem readUeg_along (element : Element) :
    (reader u).Along (Trace.readUeg u element) (ue element) := by
  refine Reader.Along.observe fun fuel buf r buf' hrun => ⟨_, rfl, ?_⟩
  have hcode := codeAt_of_readUeg hrun
  cases r with
  | some v => exact .inl ⟨v, rfl, hcode, rfl⟩
  | none => exact .inr ⟨rfl, hcode, buf, rfl⟩

variable {u}

theorem only_code {α : Type} {element : Element} (h : element.checked = false) (f : Nat → α) :
    (Layout.code element fun v => .done (f v)).Only fun i => ¬(reader u).checked i :=
  ⟨fun hcheck => Bool.false_ne_true (h.symm.trans hcheck), fun _ => trivial⟩

theorem ignored_along {element : Element} (h : element.checked = false) :
    (reader u).Along (void (Trace.readUeg u element)) (ignored element) :=
  Reader.Along.void (only_code h id) (fun _ => trivial) (readUeg_along u element)

theorem unchecked_along {element : Element} (h : element.checked = false) (old : Nat) :
    (reader u).Along (unchecked old (Trace.readUeg u element)) (ue element) :=
  Reader.Along.unchecked old (only_code h id) (fun _ => trivial) (readUeg_along u element)

theorem readDeciding_along {element : Element} (h : element.checked = false) (old : Nat) :
    (reader u).Along (Trace.readDeciding u element old) (ue element) :=
  (unchecked_along h old).bind fun v => Reader.Along.emit_bind rfl (Reader.Along.pure v)

theorem readEg_along (element : Element) :
    (reader u).Along (Trace.readEg u element) (se element) := by
  have hvalue : Trace.readEg u element =
      Trace.readUeg u element >>= fun tmp => pure (egValue tmp) := by
    refine congrArg (Trace.readUeg u element >>= ·) (funext fun tmp => ?_)
    unfold egValue
    split <;> rfl
  rw [hvalue]
  exact (readUeg_along u element).bind fun tmp => Reader.Along.pure (egValue tmp)

theorem ignoredEg_along {element : Element} (h : element.checked = false) :
    (reader u).Along (void (Trace.readEg u element)) (ignored element) :=
  Reader.Along.void (only_code h egValue) (fun _ => trivial) (readEg_along element)

theorem skips_along {p : Parser Bitstream Unit} {n : Nat} (h : Skips p n) :
    (reader u).Along (silent p) (skip n) := Reader.Along.field h

theorem skip_along (n : Nat) (h : n ≤ longestSkip) :
    (reader u).Along (silent (Parser.void (bitstreamSkipBits n))) (skip n) :=
  skips_along (skips_skip n h)

theorem bits_along {n : Nat} (h : n ≤ 32) :
    (reader u).Along (silent (bitstreamReadBits n)) (.bits n .done) :=
  Reader.Along.field (f := id) (readBits_eq h)

theorem uncheckedBits_along {n : Nat} (h : n ≤ 32) (old : Nat) :
    (reader u).Along (silent ((bitstreamReadBits n).unchecked old)) (.bits n .done) := by
  refine Reader.Along.field (f := id) fun fuel buf => ?_
  rw [Parser.unchecked, readBits_eq h]
  rfl

theorem flag_along : (reader u).Along (silent (bitstreamRead1.unchecked false)) flag := by
  refine Reader.Along.field fun fuel buf => ?_
  rw [Parser.unchecked, bitstreamRead1, Parser.bind_run (readBits_eq (by decide) fuel buf)]
  rfl

theorem scalingLoop_along (n lastScale nextScale : Nat) :
    (reader u).Along (Trace.scalingLoop u n lastScale nextScale)
      (scalingList n lastScale nextScale) := by
  induction n generalizing lastScale nextScale with
  | zero => exact Reader.Along.pure ()
  | succ n ih =>
      refine Reader.Along.bind ?_ fun nextScale => ih _ nextScale
      unfold Trace.readNextScale Order.nextScale
      split
      · exact (readEg_along .deltaScale).bind fun _ => Reader.Along.pure _
      · exact Reader.Along.pure _

theorem only_scalingList (n lastScale nextScale : Nat) :
    (scalingList n lastScale nextScale).Only fun i => ¬(reader u).checked i := by
  induction n generalizing lastScale nextScale with
  | zero => trivial
  | succ n ih =>
      refine Layout.Only.bind ?_ fun nextScale => ih _ nextScale
      unfold Order.nextScale
      split
      · exact Layout.Only.bind (only_code rfl egValue) fun _ => trivial
      · trivial

theorem total_scalingList (n lastScale nextScale : Nat) :
    (scalingList n lastScale nextScale).Total := by
  induction n generalizing lastScale nextScale with
  | zero => trivial
  | succ n ih =>
      refine Layout.Total.bind ?_ fun nextScale => ih _ nextScale
      unfold Order.nextScale
      split
      · exact fun _ => trivial
      · trivial

theorem scalingMatrixLoop_along (n i : Nat) :
    (reader u).Along (Trace.scalingMatrixLoop u n i) (scalingMatrix n i) := by
  induction n generalizing i with
  | zero => exact Reader.Along.pure ()
  | succ n ih =>
      refine flag_along.bind fun present => (Reader.Along.optionally present ?_).bind fun _ =>
        ih (i + 1)
      have hlist := Reader.Along.void (only_scalingList _ 8 8) (total_scalingList _ 8 8)
        (scalingLoop_along (u := u) (if i < 6 then 16 else 64) 8 8)
      rwa [Layout.bind_done] at hlist

theorem skipHrdParameters_along {element : Element} (h : element.checked = false) (old : Nat) :
    (reader u).Along (Trace.skipHrdParameters u element old) (hrdParameters element) := by
  have hsel : (reader u).Along (Trace.skipSchedSel u) (do
      ignored .bit_rate_value_minus1
      ignored .cpb_size_value_minus1
      skip 1) :=
    (ignored_along rfl).bind fun _ => (ignored_along rfl).bind fun _ => skip_along 1 (by decide)
  refine (readDeciding_along h old).bind fun cpb_cnt_minus1 => ?_
  split
  · exact Reader.Along.reject rfl
  · refine (skip_along 4 (by decide)).bind fun _ => ?_
    refine (skip_along 4 (by decide)).bind fun _ => ?_
    refine (Reader.Along.times _ hsel).bind fun _ => ?_
    refine (skip_along 5 (by decide)).bind fun _ => ?_
    refine (skip_along 5 (by decide)).bind fun _ => ?_
    refine (skip_along 5 (by decide)).bind fun _ => ?_
    exact skip_along 5 (by decide)

theorem skipVuiVideo_along : (reader u).Along (silent skipVuiVideo) vuiVideo := by
  have hflag : (reader u).Along (silent (bitstreamRead1.unchecked false)) flag := flag_along
  refine hflag.silent_bind fun aspect => ?_
  refine (Reader.Along.silent_optionally aspect ?aspect).silent_bind fun _ => ?_
  case aspect =>
    refine (uncheckedBits_along (by decide) 0).silent_bind fun idc => ?_
    exact Reader.Along.silent_optionally (idc == EXTENDED_SAR)
      ((skip_along 16 (by decide)).silent_bind fun _ => skip_along 16 (by decide))
  refine hflag.silent_bind fun overscan => ?_
  refine (Reader.Along.silent_optionally overscan
    (skip_along 1 (by decide))).silent_bind fun _ => ?_
  refine hflag.silent_bind fun signal => ?_
  refine (Reader.Along.silent_optionally signal ?signal).silent_bind fun _ => ?_
  case signal =>
    refine (skip_along 3 (by decide)).silent_bind fun _ => ?_
    refine (skip_along 1 (by decide)).silent_bind fun _ => ?_
    refine hflag.silent_bind fun colour => ?_
    refine Reader.Along.silent_optionally colour ?_
    refine (skip_along 8 (by decide)).silent_bind fun _ => ?_
    exact (skip_along 8 (by decide)).silent_bind fun _ => skip_along 8 (by decide)
  refine hflag.silent_bind fun chroma => ?_
  refine (Reader.Along.silent_optionally chroma ?chroma).silent_bind fun _ => ?_
  case chroma => exact (skip_along 5 (by decide)).silent_bind fun _ => skip_along 5 (by decide)
  refine hflag.silent_bind fun timing => ?_
  refine Reader.Along.silent_optionally timing ?_
  refine (skip_along 32 (by decide)).silent_bind fun _ => ?_
  exact (skip_along 32 (by decide)).silent_bind fun _ => skip_along 1 (by decide)

theorem skipElements_along {elements : List Element}
    (h : ∀ element ∈ elements, element.checked = false) :
    (reader u).Along (Trace.skipElements u elements) (ignoredElements elements) := by
  induction elements with
  | nil => exact Reader.Along.pure ()
  | cons element elements ih =>
      exact (ignored_along (h element List.mem_cons_self)).bind fun _ =>
        ih fun element he => h element (List.mem_cons_of_mem _ he)

theorem skipVuiParameters_along :
    (reader u).Along (Trace.skipVuiParameters u) vuiParameters := by
  refine skipVuiVideo_along.bind fun _ => ?_
  refine flag_along.bind fun nal => ?_
  refine (Reader.Along.optionally nal (skipHrdParameters_along rfl _)).bind fun _ => ?_
  refine flag_along.bind fun vcl => ?_
  refine (Reader.Along.optionally vcl (skipHrdParameters_along rfl _)).bind fun _ => ?_
  refine (Reader.Along.optionally _ (skip_along 1 (by decide))).bind fun _ => ?_
  refine (skip_along 1 (by decide)).bind fun _ => ?_
  refine flag_along.bind fun restriction => ?_
  refine Reader.Along.optionally restriction ((skip_along 1 (by decide)).bind fun _ => ?_)
  exact skipElements_along fun element he => (Trace.restriction_ignored element he).1

theorem readChromaFormat_along :
    (reader u).Along (Trace.readChromaFormat u) chromaFormat := by
  refine (readUeg_along u .chroma_format_idc).bind fun idc => ?_
  split
  · exact Reader.Along.reject rfl
  · refine (Reader.Along.optionally _ (skip_along 1 (by decide))).bind fun _ => ?_
    refine (ignored_along rfl).bind fun _ => ?_
    refine (ignored_along rfl).bind fun _ => ?_
    refine (skip_along 1 (by decide)).bind fun _ => ?_
    refine flag_along.bind fun present => ?_
    refine (Reader.Along.optionally present (scalingMatrixLoop_along _ 0)).bind fun _ => ?_
    exact Reader.Along.pure idc

theorem h264PicOrderCnt_along :
    (reader u).Along (Trace.h264PicOrderCnt u) picOrderCnt := by
  refine (readDeciding_along rfl _).bind fun pic_order_cnt_type => ?_
  split
  · exact ignored_along rfl
  · refine Reader.Along.optionally _ ?_
    refine (skip_along 1 (by decide)).bind fun _ => ?_
    refine (ignoredEg_along rfl).bind fun _ => ?_
    refine (ignoredEg_along rfl).bind fun _ => ?_
    refine (readDeciding_along rfl _).bind fun n => ?_
    exact Reader.Along.times n (ignoredEg_along rfl)

theorem readCropOffsets_along {elements : Trace.CropElements} (h : elements.Ignored)
    (present : Bool) :
    (reader u).Along (Trace.readCropOffsets u elements present) (cropOffsets elements present) := by
  have hread : ∀ element ∈ [elements.left, elements.right, elements.top, elements.bottom],
      (reader u).Along (unchecked 0 (Trace.readUeg u element)) (ue element) :=
    fun element he => unchecked_along (h element he).1 0
  unfold Trace.readCropOffsets cropOffsets
  split
  · refine (hread _ (by simp)).bind fun _ => ?_
    refine (hread _ (by simp)).bind fun _ => ?_
    refine (hread _ (by simp)).bind fun _ => ?_
    refine (hread _ (by simp)).bind fun _ => ?_
    exact Reader.Along.pure _
  · exact Reader.Along.pure _

theorem h264ChromaFormat_along (profile_idc : Nat) :
    (reader u).Along (Trace.h264ChromaFormat u profile_idc) (h264ChromaFormat profile_idc) := by
  unfold Trace.h264ChromaFormat h264ChromaFormat
  split
  · exact readChromaFormat_along
  · exact Reader.Along.pure 1

theorem h264Picture_along : (reader u).Along (Trace.h264Picture u) h264Picture := by
  refine (skip_along 8 (by decide)).bind fun _ => ?_
  refine (uncheckedBits_along (by decide) 0).bind fun profile_idc => ?_
  refine (skip_along 6 (by decide)).bind fun _ => ?_
  refine Reader.Along.bind (skips_along (skipBits_eq (by decide))) fun _ => ?_
  refine (skip_along 8 (by decide)).bind fun _ => ?_
  refine (ignored_along rfl).bind fun _ => ?_
  refine (h264ChromaFormat_along profile_idc).bind fun _ => ?_
  refine (ignored_along rfl).bind fun _ => ?_
  refine h264PicOrderCnt_along.bind fun _ => ?_
  refine (ignored_along rfl).bind fun _ => ?_
  refine (skip_along 1 (by decide)).bind fun _ => ?_
  refine (readUeg_along u _).bind fun _ => ?_
  refine (readUeg_along u _).bind fun _ => ?_
  refine flag_along.bind fun frame_mbs_only_flag => ?_
  refine (Reader.Along.optionally _ (skip_along 1 (by decide))).bind fun _ => ?_
  refine (skip_along 1 (by decide)).bind fun _ => ?_
  refine flag_along.bind fun present => ?_
  refine (readCropOffsets_along Trace.frameCrop_ignored present).bind fun _ => ?_
  exact Reader.Along.pure _

/-- Looking up the units tells nothing. -/
theorem indexUnits_along (present : Bool) (subwc subhc : Table) (idc : Nat) :
    (reader u).Along (Trace.indexUnits present subwc subhc idc) (pure ()) := by
  cases present with
  | false => exact Reader.Along.pure ()
  | true => exact Reader.Along.emit_bind rfl (Reader.Along.emit rfl)

theorem spsParseDimensionH264_along :
    (reader u).Along (Trace.spsParseDimensionH264 u >>= fun _ => pure ()) h264 := by
  have hlast : ∀ (pic : H264Picture) (present : Bool), (reader u).Along
      (optionally present (Trace.skipVuiParameters u) >>= fun _ =>
        Trace.indexUnits pic.frame_cropping_flag .h264_subwc .h264_subhc pic.chroma_format_idc
          >>= fun _ => pure pic.dimension >>= fun _ => pure ())
      (Layout.optionally present vuiParameters) := by
    intro pic present
    have h := (Reader.Along.optionally present (skipVuiParameters_along (u := u))).bind fun _ =>
      (indexUnits_along pic.frame_cropping_flag .h264_subwc .h264_subhc
        pic.chroma_format_idc).bind fun _ => Reader.Along.pure ()
    exact Layout.bind_done (Layout.optionally present vuiParameters) ▸ h
  simp only [Trace.spsParseDimensionH264, Traced.bind_assoc]
  exact h264Picture_along.bind fun pic => flag_along.bind fun present => hlast pic present

theorem readSubLayerFlags_along (n i : Nat) :
    (reader u).Along (Trace.readSubLayerFlags n i) (subLayerFlags n) := by
  induction n generalizing i with
  | zero => exact Reader.Along.pure []
  | succ n ih =>
      have hbit : (reader u).Along (silent (bitstreamReadBits 1)) (.bits 1 .done) :=
        bits_along (by decide)
      refine hbit.bind fun _ => ?_
      refine Reader.Along.emit_bind rfl ?_
      refine hbit.bind fun _ => ?_
      refine Reader.Along.emit_bind rfl ?_
      refine (ih (i + 1)).bind fun _ => ?_
      exact Reader.Along.pure _

theorem skipSubLayers_along (i : Nat) (flags : List (Bool × Bool)) :
    (reader u).Along (Trace.skipSubLayers i flags) (subLayers flags) := by
  induction flags generalizing i with
  | nil => exact Reader.Along.pure ()
  | cons flag flags ih =>
      refine Reader.Along.emit_bind rfl ?_
      refine (skips_along (skips_profileInfo.optionally flag.1)).bind fun _ => ?_
      refine Reader.Along.emit_bind rfl ?_
      refine (skips_along ((skips_skip 8 (by decide)).optionally flag.2)).bind fun _ => ?_
      exact ih (i + 1)

theorem hevcProfileTierLevel_along :
    (reader u).Along Trace.hevcProfileTierLevel hevcProfileTierLevel := by
  refine (skip_along 4 (by decide)).bind fun _ => ?_
  refine (uncheckedBits_along (by decide) 0).bind fun n => ?_
  refine (skip_along 1 (by decide)).bind fun _ => ?_
  refine (skips_along skips_profileInfo).bind fun _ => ?_
  refine (skip_along 8 (by decide)).bind fun _ => ?_
  refine (readSubLayerFlags_along n 0).bind fun flags => ?_
  refine Reader.Along.bind ?_ fun _ => skipSubLayers_along 0 flags
  have h := ((skips_skip 2 (by decide)).times (8 - n)).optionally (0 < n)
  simp only [decide_eq_true_eq] at h
  exact skips_along h

end Order

namespace Trace

/-- The part of `hevcPicture` up to the size, which is read with checks. -/
def hevcSize (u : Indeterminate) : Traced Event Bitstream (Nat × Nat × Nat) := do
  let _ ← readUeg u .hevc_id
  let chroma_format_idc ← readUeg u .hevc_chroma_format_idc
  optionally (chroma_format_idc == 3) (silent (Parser.void (bitstreamSkipBits 1)))
  let pic_width_in_luma_samples ← readUeg u .pic_width_in_luma_samples
  let pic_height_in_luma_samples ← readUeg u .pic_height_in_luma_samples
  if pic_width_in_luma_samples = 0 then reject (.refuse .pic_width_in_luma_samples 0)
  else if pic_height_in_luma_samples = 0 then reject (.refuse .pic_height_in_luma_samples 0)
  else pure (chroma_format_idc, pic_width_in_luma_samples, pic_height_in_luma_samples)

/-- The part of `spsParseDimensionHevc` after the size, without its result. -/
def hevcWindow (u : Indeterminate) (chroma_format_idc : Nat) : Traced Event Bitstream Unit := do
  let conformance_window_flag ← silent (bitstreamRead1.unchecked false)
  let _ ← readCropOffsets u confWin conformance_window_flag
  indexUnits conformance_window_flag .hevc_subwc .hevc_subhc chroma_format_idc
  pure ()

theorem spsParseDimensionHevc_eq (u : Indeterminate) :
    (spsParseDimensionHevc u >>= fun _ => pure ()) =
      (hevcProfileTierLevel >>= fun _ => hevcSize u) >>= fun size => hevcWindow u size.1 := by
  simp only [spsParseDimensionHevc, hevcPicture, hevcSize, hevcWindow, Traced.bind_assoc]
  refine congrArg (hevcProfileTierLevel >>= ·) (funext fun _ =>
    congrArg (readUeg u _ >>= ·) (funext fun _ => congrArg (readUeg u _ >>= ·) (funext fun idc =>
      congrArg (optionally (idc == 3) _ >>= ·) (funext fun _ =>
        congrArg (readUeg u _ >>= ·) (funext fun w => congrArg (readUeg u _ >>= ·)
          (funext fun l => ?_))))))
  by_cases hw : w = 0
  · rw [if_pos hw, if_pos hw, reject_bind, reject_bind]
  · rw [if_neg hw, if_neg hw]
    by_cases hl : l = 0
    · rw [if_pos hl, if_pos hl, reject_bind, reject_bind]
    · rw [if_neg hl, if_neg hl]
      simp only [Traced.bind_assoc, Traced.pure_bind]

theorem hevcWindow_neverFails (u : Indeterminate) (idc : Nat) : (hevcWindow u idc).NeverFails := by
  have hread : ∀ element, (unchecked 0 (readUeg u element)).NeverFails :=
    fun element => NeverFails.unchecked 0 _
  refine (NeverFails.silent (Parser.Unfailing.unchecked _ _)).bind fun present => ?_
  refine NeverFails.bind ?_ fun _ => ?_
  swap
  · exact (NeverFails.optionally present
      ((NeverFails.emit _).bind fun _ => NeverFails.emit _)).bind fun _ => NeverFails.pure ()
  unfold readCropOffsets
  split
  · refine (hread _).bind fun _ => ?_
    refine (hread _).bind fun _ => ?_
    refine (hread _).bind fun _ => ?_
    refine (hread _).bind fun _ => ?_
    exact NeverFails.pure _
  · exact NeverFails.pure _

end Trace

namespace Order

variable {u : Indeterminate}

theorem hevcSize_along : (reader u).Along (Trace.hevcSize u) hevcSize := by
  refine (readUeg_along u _).bind fun _ => ?_
  refine (readUeg_along u _).bind fun idc => ?_
  refine (Reader.Along.optionally _ (skip_along 1 (by decide))).bind fun _ => ?_
  refine (readUeg_along u _).bind fun w => ?_
  refine (readUeg_along u _).bind fun l => ?_
  split
  · exact Reader.Along.reject rfl
  · split
    · exact Reader.Along.reject rfl
    · exact Reader.Along.pure _

theorem hevcHead_along :
    (reader u).Along (Trace.hevcProfileTierLevel >>= fun _ => Trace.hevcSize u) hevcHead :=
  hevcProfileTierLevel_along.bind fun _ => hevcSize_along

theorem hevcWindow_along (idc : Nat) : (reader u).Along (Trace.hevcWindow u idc) hevcWindow :=
  flag_along.bind fun present =>
    (readCropOffsets_along Trace.confWin_ignored present).bind fun _ =>
      (indexUnits_along present .hevc_subwc .hevc_subhc idc).bind fun _ => Reader.Along.pure ()

theorem spsParseDimensionHevc_along :
    (reader u).Along (Trace.spsParseDimensionHevc u >>= fun _ => pure ()) hevc := by
  rw [Trace.spsParseDimensionHevc_eq]
  exact hevcHead_along.bind fun size => hevcWindow_along size.1

/-- Up to the size every read is checked. -/
theorem only_hevcHead : hevcHead.Only fun element => element.checked = true := by
  have hskip : ∀ n, (skip n).Only fun element => element.checked = true := fun _ _ => trivial
  have hflag : flag.Only fun element => element.checked = true := fun _ => trivial
  have hflags : ∀ n, (subLayerFlags n).Only fun element => element.checked = true := by
    intro n
    induction n with
    | zero => trivial
    | succ n ih => exact hflag.bind fun _ => hflag.bind fun _ => ih.bind fun _ => trivial
  have hlayers : ∀ flags, (subLayers flags).Only fun element => element.checked = true := by
    intro flags
    induction flags with
    | nil => trivial
    | cons flag flags ih => exact (hskip _).bind fun _ => (hskip _).bind fun _ => ih
  have hue : ∀ {element : Element}, element.checked = true →
      (ue element).Only fun element => element.checked = true := fun h => ⟨h, fun _ => trivial⟩
  have hsize : hevcSize.Only fun element => element.checked = true := by
    refine (hue rfl).bind fun _ => ?_
    refine (hue rfl).bind fun idc => ?_
    refine Layout.Only.bind ?planes fun _ => ?_
    case planes =>
      unfold Layout.optionally
      split
      · exact hskip 1
      · trivial
    refine (hue rfl).bind fun w => ?_
    refine (hue rfl).bind fun l => ?_
    split
    · trivial
    · split <;> trivial
  have hnumber : Layout.Only (fun element => element.checked = true)
      (.bits 3 .done : Layout Element Nat) := fun _ => trivial
  refine Layout.Only.bind ?_ fun _ => hsize
  refine (hskip 4).bind fun _ => ?_
  refine hnumber.bind fun n => ?_
  refine (hskip 1).bind fun _ => ?_
  refine (hskip 88).bind fun _ => ?_
  refine (hskip 8).bind fun _ => ?_
  refine (hflags n).bind fun flags => ?_
  exact (hskip _).bind fun _ => hlayers flags

/-- If the HEVC parser fails, then where its reads are checked. -/
theorem checked_of_hevc_fails {fuel : Nat} {buf buf' : Bitstream} {log : List Event}
    (hrun : (Trace.spsParseDimensionHevc u >>= fun _ => pure ()) fuel buf =
      (log, some (none, buf'))) {element : Element}
    (hfirst : hevc.walk nextBit (codeAt u fuel) buf = some (.malformed element)) :
    element.checked = true := by
  rw [Trace.spsParseDimensionHevc_eq] at hrun
  exact hevcHead_along.of_bind_fails (fun size => Trace.hevcWindow_neverFails u size.1) hrun
    only_hevcHead hfirst

end Order

/-- The first malformed code in the order of the elements. -/
def firstMalformed (u : Indeterminate) (fuel : Nat) (order : Layout Element Unit)
    (data : Nat → UInt8) : Option Element :=
  (order.walk nextBit (codeAt u fuel) (bitstreamInit data)).bind Layout.Outcome.malformed?

theorem firstMalformed_eq_some {u : Indeterminate} {fuel : Nat} {order : Layout Element Unit}
    {data : Nat → UInt8} {element : Element} : firstMalformed u fuel order data = some element ↔
      order.walk nextBit (codeAt u fuel) (bitstreamInit data) = some (.malformed element) := by
  rw [firstMalformed, Option.bind_eq_some_iff]
  constructor
  · rintro ⟨o, ho, helement⟩
    cases o with
    | ended _ _ => cases helement
    | refused => cases helement
    | malformed i =>
        cases helement
        exact ho
  · exact fun h => ⟨_, h, rfl⟩

end CommonsC.SpsParser
