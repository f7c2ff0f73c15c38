import CommonsC.Base.Traced
import CommonsC.SpsParser.Codes
import CommonsC.SpsParser.Sizes

/-!
# CommonsC.SpsParser.Trace

The two parsers once more, with a log of what they do: every Exp-Golomb code
they read, every decision they take on a variable without an initial value,
every value they refuse, and every index into a local array.

The traced functions are those of `CommonsC.SpsParser.Parser`, line by line;
what neither reads a code nor indexes an array is `silent`.  One lemma for each
(`Trace.…_spec`) says that without the log it is the same function, that it
fails exactly if its log has an event that makes it fail, and how it depends on
the variables that a failed read leaves unassigned.
-/

namespace CommonsC.SpsParser

open Bits Traced
open Parser (Unfailing)

/-! ## Events -/

/-- The elements that are read with an Exp-Golomb code. -/
inductive Element
  -- `sps_parse_dimension_h264`
  | id
  | chroma_format_idc
  | bit_depth_luma_minus8
  | bit_depth_chroma_minus8
  | deltaScale
  | log2_max_frame_num_minus4
  | pic_order_cnt_type
  | log2_max_pic_order_cnt_lsb_minus4
  | offset_for_non_ref_pic
  | offset_for_top_to_bottom_field
  | num_ref_frames_in_pic_order_cnt_cycle
  | offset_for_ref_frame
  | num_ref_frames
  | pic_width_in_mbs_minus1
  | pic_height_in_map_units_minus1
  | frame_crop_left_offset
  | frame_crop_right_offset
  | frame_crop_top_offset
  | frame_crop_bottom_offset
  -- `skip_hrd_parameters` for the NAL and for the VCL parameters, `skip_vui_parameters`
  | nal_cpb_cnt_minus1
  | vcl_cpb_cnt_minus1
  | bit_rate_value_minus1
  | cpb_size_value_minus1
  | max_bytes_per_pic_denom
  | max_bits_per_mb_denom
  | log2_max_mv_length_horizontal
  | log2_max_mv_length_vertical
  | num_reorder_frames
  | max_dec_frame_buffering
  -- `sps_parse_dimension_hevc`
  | hevc_id
  | hevc_chroma_format_idc
  | pic_width_in_luma_samples
  | pic_height_in_luma_samples
  | conf_win_left_offset
  | conf_win_right_offset
  | conf_win_top_offset
  | conf_win_bottom_offset
  deriving DecidableEq

/-- The parser returns false if the read of this element fails. -/
def Element.checked : Element → Bool
  | chroma_format_idc | pic_width_in_mbs_minus1 | pic_height_in_map_units_minus1
  | hevc_id | hevc_chroma_format_idc | pic_width_in_luma_samples | pic_height_in_luma_samples =>
      true
  | _ => false

/-- The element is read into a variable without an initial value, and the parser
takes decisions on it whether the read failed or not. -/
def Element.decides : Element → Bool
  | pic_order_cnt_type | num_ref_frames_in_pic_order_cnt_cycle | nal_cpb_cnt_minus1
  | vcl_cpb_cnt_minus1 => true
  | _ => false

/-- The local arrays. -/
inductive Table
  | h264_subwc
  | h264_subhc
  | hevc_subwc
  | hevc_subhc
  | sub_layer_profile_present_flag
  | sub_layer_level_present_flag
  deriving DecidableEq

/-- The length of a local array. -/
def Table.length : Table → Nat
  | h264_subwc => h264Subwc.length
  | h264_subhc => h264Subhc.length
  | hevc_subwc => hevcSubwc.length
  | hevc_subhc => hevcSubhc.length
  | sub_layer_profile_present_flag => 8
  | sub_layer_level_present_flag => 8

/-- What a parser does. -/
inductive Event
  /-- A code is read at `buf`; without a value, the read reported failure. -/
  | code (element : Element) (buf : Bitstream) (value : Option Nat)
  /-- A decision is taken on the variable of the element. -/
  | decide (element : Element) (value : Nat)
  /-- The value of the element makes the parser return false. -/
  | refuse (element : Element) (value : Nat)
  /-- An array is indexed. -/
  | index (table : Table) (i : Nat)

/-- A read that reported failure. -/
def Event.failed : Event → Bool
  | code _ _ none => true
  | _ => false

/-- The parser returns false for this event. -/
def Event.Bad : Event → Prop
  | code element _ value => element.checked = true ∧ value = none
  | refuse _ _ => True
  | _ => False

/-- A variable that decisions are taken on is left unassigned. -/
def Event.Lost : Event → Prop
  | code element _ value => element.decides = true ∧ value = none
  | _ => False

/-- An index is in range. -/
def Event.InRange : Event → Prop
  | index table i => i < table.length
  | _ => True

instance : DecidablePred Event.InRange
  | .index table i => inferInstanceAs (Decidable (i < table.length))
  | .code _ _ _ => .isTrue trivial
  | .decide _ _ => .isTrue trivial
  | .refuse _ _ => .isTrue trivial

/-- The reads that fail are those of malformed codes. -/
def Event.Sound : Event → Prop
  | code _ buf value => value = none ↔ Malformed buf
  | _ => True

/-- What every event is like that is not an index into `subwc` or `subhc`. -/
def Event.Allowed (e : Event) : Prop := e.InRange ∧ e.Sound

/-- Two ways to fill what C leaves open, which differ at most in the variables
that a failed read leaves unassigned. -/
structure SameButUnassigned (u u' : Indeterminate) : Prop where
  one_shl_32 : u'.one_shl_32 = u.one_shl_32
  past_subwc : u'.past_subwc = u.past_subwc
  past_subhc : u'.past_subhc = u.past_subhc

/-- They differ in each of these variables. -/
structure Apart (u u' : Indeterminate) : Prop where
  pic_order_cnt_type : u.pic_order_cnt_type ≠ u'.pic_order_cnt_type
  num_ref_frames_in_pic_order_cnt_cycle :
    u.num_ref_frames_in_pic_order_cnt_cycle ≠ u'.num_ref_frames_in_pic_order_cnt_cycle
  nal_cpb_cnt_minus1 : u.nal_cpb_cnt_minus1 ≠ u'.nal_cpb_cnt_minus1
  vcl_cpb_cnt_minus1 : u.vcl_cpb_cnt_minus1 ≠ u'.vcl_cpb_cnt_minus1

theorem readUeg_congr {u u' : Indeterminate} (h : SameButUnassigned u u') :
    bitstreamReadUeg u' = bitstreamReadUeg u := by
  have hshl : u'.shl = u.shl := by
    funext bitcount
    rw [Indeterminate.shl, Indeterminate.shl, h.one_shl_32]
  rw [bitstreamReadUeg, bitstreamReadUeg, hshl]

namespace Trace

/-! ## The traced functions -/

/-- `bitstream_read_ueg` for an element. -/
def readUeg (u : Indeterminate) (element : Element) : Traced Event Bitstream Nat :=
  observe (bitstreamReadUeg u) fun buf value => [.code element buf value]

/-- `bitstream_read_eg` for an element. -/
def readEg (u : Indeterminate) (element : Element) : Traced Event Bitstream Int := do
  let tmp ← readUeg u element
  if tmp &&& 0x01 ≠ 0 then pure ((toInt32 (tmp + 1)).tdiv 2) else pure (toInt32 (-(tmp / 2 : Nat)))

/-- An element whose read is not checked, and on whose variable decisions are
taken. -/
def readDeciding (u : Indeterminate) (element : Element) (old : Nat) :
    Traced Event Bitstream Nat := do
  let value ← unchecked old (readUeg u element)
  emit (.decide element value)
  pure value

/-- The `if` of `bitstream_skip_scaling_list`. -/
def readNextScale (u : Indeterminate) (lastScale nextScale : Nat) :
    Traced Event Bitstream Nat :=
  if nextScale ≠ 0 then do
    let deltaScale ← readEg u .deltaScale
    pure ((lastScale + (deltaScale % 2 ^ 32).toNat + 256) % 2 ^ 32 % 256)
  else pure nextScale

/-- The loop of `bitstream_skip_scaling_list`. -/
def scalingLoop (u : Indeterminate) : (n lastScale nextScale : Nat) → Traced Event Bitstream Unit
  | 0, _, _ => pure ()
  | n + 1, lastScale, nextScale => do
      let nextScale ← readNextScale u lastScale nextScale
      scalingLoop u n (if nextScale = 0 then lastScale else nextScale) nextScale

/-- `bitstream_skip_scaling_list`. -/
def skipScalingList (u : Indeterminate) (count : Nat) : Traced Event Bitstream Unit :=
  scalingLoop u count 8 8

/-- Elements that are read one after the other and not used. -/
def skipElements (u : Indeterminate) : List Element → Traced Event Bitstream Unit
  | [] => pure ()
  | element :: elements => do
      void (readUeg u element)
      skipElements u elements

/-- One round of the loop of `skip_hrd_parameters`. -/
def skipSchedSel (u : Indeterminate) : Traced Event Bitstream Unit := do
  void (readUeg u .bit_rate_value_minus1)
  void (readUeg u .cpb_size_value_minus1)
  silent (Parser.void (bitstreamSkipBits 1))

/-- `skip_hrd_parameters`. -/
def skipHrdParameters (u : Indeterminate) (element : Element) (cpb_cnt_minus1 : Nat) :
    Traced Event Bitstream Unit := do
  let cpb_cnt_minus1 ← readDeciding u element cpb_cnt_minus1
  if 31 < cpb_cnt_minus1 then reject (.refuse element cpb_cnt_minus1)
  else do
    silent (Parser.void (bitstreamSkipBits 4))
    silent (Parser.void (bitstreamSkipBits 4))
    times (cpb_cnt_minus1 + 1) (skipSchedSel u)
    silent (Parser.void (bitstreamSkipBits 5))
    silent (Parser.void (bitstreamSkipBits 5))
    silent (Parser.void (bitstreamSkipBits 5))
    silent (Parser.void (bitstreamSkipBits 5))

/-- The elements at the end of `skip_vui_parameters`. -/
def restrictionElements : List Element :=
  [.max_bytes_per_pic_denom, .max_bits_per_mb_denom, .log2_max_mv_length_horizontal,
    .log2_max_mv_length_vertical, .num_reorder_frames, .max_dec_frame_buffering]

/-- `skip_vui_parameters`. -/
def skipVuiParameters (u : Indeterminate) : Traced Event Bitstream Unit := do
  silent skipVuiVideo
  let nal_hrd_parameters_present_flag ← silent (bitstreamRead1.unchecked false)
  optionally nal_hrd_parameters_present_flag
    (skipHrdParameters u .nal_cpb_cnt_minus1 u.nal_cpb_cnt_minus1)
  let vcl_hrd_parameters_present_flag ← silent (bitstreamRead1.unchecked false)
  optionally vcl_hrd_parameters_present_flag
    (skipHrdParameters u .vcl_cpb_cnt_minus1 u.vcl_cpb_cnt_minus1)
  optionally (nal_hrd_parameters_present_flag || vcl_hrd_parameters_present_flag)
    (silent (Parser.void (bitstreamSkipBits 1)))
  silent (Parser.void (bitstreamSkipBits 1))
  let bitstream_restriction_flag ← silent (bitstreamRead1.unchecked false)
  optionally bitstream_restriction_flag do
    silent (Parser.void (bitstreamSkipBits 1))
    skipElements u restrictionElements

/-- The loop over the scaling lists. -/
def scalingMatrixLoop (u : Indeterminate) : (n i : Nat) → Traced Event Bitstream Unit
  | 0, _ => pure ()
  | n + 1, i => do
      let scaling_list_present_flag ← silent (bitstreamRead1.unchecked false)
      optionally scaling_list_present_flag
        (void (skipScalingList u (if i < 6 then 16 else 64)))
      scalingMatrixLoop u n (i + 1)

/-- The elements of the profiles with a chroma format. -/
def readChromaFormat (u : Indeterminate) : Traced Event Bitstream Nat := do
  let chroma_format_idc ← readUeg u .chroma_format_idc
  if 3 < chroma_format_idc then reject (.refuse .chroma_format_idc chroma_format_idc)
  else do
    optionally (chroma_format_idc == 3) (silent (Parser.void (bitstreamSkipBits 1)))
    void (readUeg u .bit_depth_luma_minus8)
    void (readUeg u .bit_depth_chroma_minus8)
    silent (Parser.void (bitstreamSkipBits 1))
    let scaling_matrix_present_flag ← silent (bitstreamRead1.unchecked false)
    optionally scaling_matrix_present_flag
      (scalingMatrixLoop u (if chroma_format_idc ≠ 3 then 8 else 12) 0)
    pure chroma_format_idc

/-- The `if` on the profile. -/
def h264ChromaFormat (u : Indeterminate) (profile_idc : Nat) : Traced Event Bitstream Nat :=
  if hasChromaFormat profile_idc then readChromaFormat u else pure 1

/-- The elements of the picture order count. -/
def h264PicOrderCnt (u : Indeterminate) : Traced Event Bitstream Unit := do
  let pic_order_cnt_type ← readDeciding u .pic_order_cnt_type u.pic_order_cnt_type
  if pic_order_cnt_type = 0 then void (readUeg u .log2_max_pic_order_cnt_lsb_minus4)
  else optionally (pic_order_cnt_type == 1) do
    silent (Parser.void (bitstreamSkipBits 1))
    void (readEg u .offset_for_non_ref_pic)
    void (readEg u .offset_for_top_to_bottom_field)
    let num_ref_frames_in_pic_order_cnt_cycle ←
      readDeciding u .num_ref_frames_in_pic_order_cnt_cycle
        u.num_ref_frames_in_pic_order_cnt_cycle
    times num_ref_frames_in_pic_order_cnt_cycle (void (readEg u .offset_for_ref_frame))

/-- The elements of a cropping rectangle. -/
structure CropElements where
  left : Element
  right : Element
  top : Element
  bottom : Element

def frameCrop : CropElements :=
  ⟨.frame_crop_left_offset, .frame_crop_right_offset, .frame_crop_top_offset,
    .frame_crop_bottom_offset⟩

def confWin : CropElements :=
  ⟨.conf_win_left_offset, .conf_win_right_offset, .conf_win_top_offset, .conf_win_bottom_offset⟩

/-- The offsets, if there are any. -/
def readCropOffsets (u : Indeterminate) (elements : CropElements) (present : Bool) :
    Traced Event Bitstream CropOffsets :=
  if present then do
    let left ← unchecked 0 (readUeg u elements.left)
    let right ← unchecked 0 (readUeg u elements.right)
    let top ← unchecked 0 (readUeg u elements.top)
    let bottom ← unchecked 0 (readUeg u elements.bottom)
    pure ⟨left, right, top, bottom⟩
  else pure ⟨0, 0, 0, 0⟩

/-- The part of `sps_parse_dimension_h264` before the VUI. -/
def h264Picture (u : Indeterminate) : Traced Event Bitstream H264Picture := do
  silent (Parser.void (bitstreamSkipBits 8))
  let profile_idc ← silent (bitstreamRead8.unchecked 0)
  silent (Parser.void (bitstreamSkipBits 6))
  silent (bitstreamSkipBits 2)
  silent (Parser.void (bitstreamSkipBits 8))
  void (readUeg u .id)
  let chroma_format_idc ← h264ChromaFormat u profile_idc
  void (readUeg u .log2_max_frame_num_minus4)
  h264PicOrderCnt u
  void (readUeg u .num_ref_frames)
  silent (Parser.void (bitstreamSkipBits 1))
  let pic_width_in_mbs_minus1 ← readUeg u .pic_width_in_mbs_minus1
  let pic_height_in_map_units_minus1 ← readUeg u .pic_height_in_map_units_minus1
  let frame_mbs_only_flag ← silent (bitstreamRead1.unchecked false)
  optionally (!frame_mbs_only_flag) (silent (Parser.void (bitstreamSkipBits 1)))
  silent (Parser.void (bitstreamSkipBits 1))
  let frame_cropping_flag ← silent (bitstreamRead1.unchecked false)
  let crop ← readCropOffsets u frameCrop frame_cropping_flag
  pure { chroma_format_idc, pic_width_in_mbs_minus1, pic_height_in_map_units_minus1,
         frame_mbs_only_flag, frame_cropping_flag, crop }

/-- Look up the units of the cropping. -/
def indexUnits (present : Bool) (subwc subhc : Table) (chroma_format_idc : Nat) :
    Traced Event Bitstream Unit :=
  optionally present do
    emit (.index subwc chroma_format_idc)
    emit (.index subhc chroma_format_idc)

/-- `sps_parse_dimension_h264`. -/
def spsParseDimensionH264 (u : Indeterminate) : Traced Event Bitstream SpsDimension := do
  let pic ← h264Picture u
  let vui_parameters_present_flag ← silent (bitstreamRead1.unchecked false)
  optionally vui_parameters_present_flag (skipVuiParameters u)
  indexUnits pic.frame_cropping_flag .h264_subwc .h264_subhc pic.chroma_format_idc
  pure pic.dimension

/-- The loop that reads the presence flags, from sub-layer `i` on. -/
def readSubLayerFlags : (n i : Nat) → Traced Event Bitstream (List (Bool × Bool))
  | 0, _ => pure []
  | n + 1, i => do
      let sub_layer_profile_present_flag ← silent (bitstreamReadBits 1)
      emit (.index .sub_layer_profile_present_flag i)
      let sub_layer_level_present_flag ← silent (bitstreamReadBits 1)
      emit (.index .sub_layer_level_present_flag i)
      let flags ← readSubLayerFlags n (i + 1)
      pure ((sub_layer_profile_present_flag != 0, sub_layer_level_present_flag != 0) :: flags)

/-- The loop that skips the sub-layers, from sub-layer `i` on. -/
def skipSubLayers : (i : Nat) → List (Bool × Bool) → Traced Event Bitstream Unit
  | _, [] => pure ()
  | i, (sub_layer_profile_present_flag, sub_layer_level_present_flag) :: flags => do
      emit (.index .sub_layer_profile_present_flag i)
      silent (Parser.optionally sub_layer_profile_present_flag parseProfileInfo)
      emit (.index .sub_layer_level_present_flag i)
      silent (Parser.optionally sub_layer_level_present_flag (Parser.void (bitstreamSkipBits 8)))
      skipSubLayers (i + 1) flags

/-- The part of `sps_parse_dimension_hevc` up to the end of the profile, tier
and level. -/
def hevcProfileTierLevel : Traced Event Bitstream Unit := do
  silent (Parser.void (bitstreamSkipBits 4))
  let max_sub_layers_minus1 ← silent ((bitstreamReadBits 3).unchecked 0)
  silent (Parser.void (bitstreamSkipBits 1))
  silent parseProfileInfo
  silent (Parser.void (bitstreamSkipBits 8))
  let flags ← readSubLayerFlags max_sub_layers_minus1 0
  silent (Parser.optionally (0 < max_sub_layers_minus1)
    (Parser.times (8 - max_sub_layers_minus1) (Parser.void (bitstreamSkipBits 2))))
  skipSubLayers 0 flags

/-- The elements that `sps_parse_dimension_hevc` reads after the profile, tier
and level. -/
def hevcPicture (u : Indeterminate) : Traced Event Bitstream HevcPicture := do
  let _ ← readUeg u .hevc_id
  let chroma_format_idc ← readUeg u .hevc_chroma_format_idc
  optionally (chroma_format_idc == 3) (silent (Parser.void (bitstreamSkipBits 1)))
  let pic_width_in_luma_samples ← readUeg u .pic_width_in_luma_samples
  let pic_height_in_luma_samples ← readUeg u .pic_height_in_luma_samples
  if pic_width_in_luma_samples = 0 then reject (.refuse .pic_width_in_luma_samples 0)
  else if pic_height_in_luma_samples = 0 then reject (.refuse .pic_height_in_luma_samples 0)
  else do
    let conformance_window_flag ← silent (bitstreamRead1.unchecked false)
    let crop ← readCropOffsets u confWin conformance_window_flag
    pure { chroma_format_idc, pic_width_in_luma_samples, pic_height_in_luma_samples,
           conformance_window_flag, crop }

/-- `sps_parse_dimension_hevc`. -/
def spsParseDimensionHevc (u : Indeterminate) : Traced Event Bitstream SpsDimension := do
  hevcProfileTierLevel
  let pic ← hevcPicture u
  indexUnits pic.conformance_window_flag .hevc_subwc .hevc_subhc pic.chroma_format_idc
  pure (pic.dimension u)

end Trace

end CommonsC.SpsParser
