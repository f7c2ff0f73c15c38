import CommonsC.SpsParser.ExpGolomb

/-!
# CommonsC.SpsParser.Parser

`sps_parse_dimension_h264` and `sps_parse_dimension_hevc`, with the functions
they use to skip what they do not need.

A call whose `bool` the source ignores is wrapped in `void`, or in `unchecked`
where it fills a variable; the first argument of `unchecked` is the value the
variable had before.  All unsigned arithmetic is modulo 2^32, and the dimensions
are cut to 16 bits when they are stored.
-/

namespace CommonsC.SpsParser

open Parser

/-- `sps_dimension_t`. -/
structure SpsDimension where
  width : Nat
  height : Nat
  deriving DecidableEq, Repr

/-- `EXTENDED_SAR`. -/
def EXTENDED_SAR : Nat := 255

/-! ## Skipping -/

/-- The `if` of `bitstream_skip_scaling_list`: the new `nextScale`. -/
def readNextScale (u : Indeterminate) (lastScale nextScale : Nat) : Parser Bitstream Nat :=
  if nextScale ≠ 0 then do
    let deltaScale ← bitstreamReadEg u
    pure ((lastScale + (deltaScale % 2 ^ 32).toNat + 256) % 2 ^ 32 % 256)
  else pure nextScale

/-- The loop of `bitstream_skip_scaling_list`, with `n` entries to go. -/
def scalingLoop (u : Indeterminate) : (n lastScale nextScale : Nat) → Parser Bitstream Unit
  | 0, _, _ => pure ()
  | n + 1, lastScale, nextScale => do
      let nextScale ← readNextScale u lastScale nextScale
      scalingLoop u n (if nextScale = 0 then lastScale else nextScale) nextScale

/-- `bitstream_skip_scaling_list`. -/
def bitstreamSkipScalingList (u : Indeterminate) (count : Nat) : Parser Bitstream Unit :=
  scalingLoop u count 8 8

/-- `parse_profile_info`. -/
def parseProfileInfo : Parser Bitstream Unit := do
  -- profile_space, tier_flag, profile_idc
  void (bitstreamSkipBits 2)
  void (bitstreamSkipBits 1)
  void (bitstreamSkipBits 5)
  -- profile_compatibility_flag[i]
  times 32 (void (bitstreamSkipBits 1))
  -- progressive_source_flag, interlaced_source_flag, non_packed_constraint_flag,
  -- frame_only_constraint_flag
  void (bitstreamSkipBits 1)
  void (bitstreamSkipBits 1)
  void (bitstreamSkipBits 1)
  void (bitstreamSkipBits 1)
  void (bitstreamSkipBits 44)

/-- One round of the loop of `skip_hrd_parameters`. -/
def skipSchedSel (u : Indeterminate) : Parser Bitstream Unit := do
  -- bit_rate_value_minus1, cpb_size_value_minus1, cbr_flag
  void (bitstreamReadUeg u)
  void (bitstreamReadUeg u)
  void (bitstreamSkipBits 1)

/-- `skip_hrd_parameters`; `cpb_cnt_minus1` is not initialized. -/
def skipHrdParameters (u : Indeterminate) (cpb_cnt_minus1 : Nat) : Parser Bitstream Unit := do
  let cpb_cnt_minus1 ← unchecked cpb_cnt_minus1 (bitstreamReadUeg u)
  if 31 < cpb_cnt_minus1 then fail
  else do
    -- bit_rate_scale, cpb_size_scale
    void (bitstreamSkipBits 4)
    void (bitstreamSkipBits 4)
    times (cpb_cnt_minus1 + 1) (skipSchedSel u)
    -- initial_cpb_removal_delay_length_minus1, cpb_removal_delay_length_minus1,
    -- dpb_output_delay_length_minus1, time_offset_length
    void (bitstreamSkipBits 5)
    void (bitstreamSkipBits 5)
    void (bitstreamSkipBits 5)
    void (bitstreamSkipBits 5)

/-- `skip_vui_parameters`, up to `timing_info_present_flag`. -/
def skipVuiVideo : Parser Bitstream Unit := do
  let aspect_ratio_info_present_flag ← unchecked false bitstreamRead1
  optionally aspect_ratio_info_present_flag do
    let aspect_ratio_idc ← unchecked 0 bitstreamRead8
    optionally (aspect_ratio_idc == EXTENDED_SAR) do
      -- sar_width, sar_height
      void (bitstreamSkipBits 16)
      void (bitstreamSkipBits 16)
  let overscan_info_present_flag ← unchecked false bitstreamRead1
  optionally overscan_info_present_flag (void (bitstreamSkipBits 1))
  let video_signal_type_present_flag ← unchecked false bitstreamRead1
  optionally video_signal_type_present_flag do
    -- video_format, video_full_range_flag
    void (bitstreamSkipBits 3)
    void (bitstreamSkipBits 1)
    let colour_description_present_flag ← unchecked false bitstreamRead1
    optionally colour_description_present_flag do
      void (bitstreamSkipBits 8)
      void (bitstreamSkipBits 8)
      void (bitstreamSkipBits 8)
  let chroma_loc_info_present_flag ← unchecked false bitstreamRead1
  optionally chroma_loc_info_present_flag do
    void (bitstreamSkipBits 5)
    void (bitstreamSkipBits 5)
  let timing_info_present_flag ← unchecked false bitstreamRead1
  optionally timing_info_present_flag do
    -- num_units_in_tick, time_scale, fixed_frame_rate_flag
    void (bitstreamSkipBits 32)
    void (bitstreamSkipBits 32)
    void (bitstreamSkipBits 1)

/-- `skip_vui_parameters`. -/
def skipVuiParameters (u : Indeterminate) : Parser Bitstream Unit := do
  skipVuiVideo
  let nal_hrd_parameters_present_flag ← unchecked false bitstreamRead1
  optionally nal_hrd_parameters_present_flag (skipHrdParameters u u.nal_cpb_cnt_minus1)
  let vcl_hrd_parameters_present_flag ← unchecked false bitstreamRead1
  optionally vcl_hrd_parameters_present_flag (skipHrdParameters u u.vcl_cpb_cnt_minus1)
  -- low_delay_hrd_flag
  optionally (nal_hrd_parameters_present_flag || vcl_hrd_parameters_present_flag)
    (void (bitstreamSkipBits 1))
  -- pic_struct_present_flag
  void (bitstreamSkipBits 1)
  let bitstream_restriction_flag ← unchecked false bitstreamRead1
  optionally bitstream_restriction_flag do
    -- motion_vectors_over_pic_boundaries_flag
    void (bitstreamSkipBits 1)
    -- max_bytes_per_pic_denom, max_bits_per_mb_denom, log2_max_mv_length_horizontal,
    -- log2_max_mv_length_vertical, num_reorder_frames, max_dec_frame_buffering
    times 6 (void (bitstreamReadUeg u))

/-! ## H.264 -/

/-- The profiles with a chroma format. -/
def hasChromaFormat (profile_idc : Nat) : Bool :=
  profile_idc == 100 || profile_idc == 110 || profile_idc == 122 || profile_idc == 244 ||
    profile_idc == 44 || profile_idc == 83 || profile_idc == 86 || profile_idc == 118 ||
    profile_idc == 128 || profile_idc == 138 || profile_idc == 139 || profile_idc == 134 ||
    profile_idc == 135

/-- The loop over the scaling lists, with `n` of them to go from `i` on. -/
def scalingMatrixLoop (u : Indeterminate) : (n i : Nat) → Parser Bitstream Unit
  | 0, _ => pure ()
  | n + 1, i => do
      let scaling_list_present_flag ← unchecked false bitstreamRead1
      optionally scaling_list_present_flag
        (void (bitstreamSkipScalingList u (if i < 6 then 16 else 64)))
      scalingMatrixLoop u n (i + 1)

/-- The elements of the profiles with a chroma format; returns `chroma_format_idc`. -/
def readChromaFormat (u : Indeterminate) : Parser Bitstream Nat := do
  let chroma_format_idc ← bitstreamReadUeg u
  if 3 < chroma_format_idc then fail
  else do
    -- separate_colour_plane_flag
    optionally (chroma_format_idc == 3) (void (bitstreamSkipBits 1))
    -- bit_depth_luma_minus8, bit_depth_chroma_minus8
    void (bitstreamReadUeg u)
    void (bitstreamReadUeg u)
    -- qpprime_y_zero_transform_bypass_flag
    void (bitstreamSkipBits 1)
    let scaling_matrix_present_flag ← unchecked false bitstreamRead1
    optionally scaling_matrix_present_flag
      (scalingMatrixLoop u (if chroma_format_idc ≠ 3 then 8 else 12) 0)
    pure chroma_format_idc

/-- The `if` on the profile; without it, `chroma_format_idc` keeps its initial 1. -/
def h264ChromaFormat (u : Indeterminate) (profile_idc : Nat) : Parser Bitstream Nat :=
  if hasChromaFormat profile_idc then readChromaFormat u else pure 1

/-- The elements of the picture order count. -/
def h264PicOrderCnt (u : Indeterminate) : Parser Bitstream Unit := do
  let pic_order_cnt_type ← unchecked u.pic_order_cnt_type (bitstreamReadUeg u)
  if pic_order_cnt_type = 0 then
    -- log2_max_pic_order_cnt_lsb_minus4
    void (bitstreamReadUeg u)
  else optionally (pic_order_cnt_type == 1) do
    -- delta_pic_order_always_zero_flag
    void (bitstreamSkipBits 1)
    -- offset_for_non_ref_pic, offset_for_top_to_bottom_field
    void (bitstreamReadEg u)
    void (bitstreamReadEg u)
    let num_ref_frames_in_pic_order_cnt_cycle ←
      unchecked u.num_ref_frames_in_pic_order_cnt_cycle (bitstreamReadUeg u)
    -- offset_for_ref_frame[i]
    times num_ref_frames_in_pic_order_cnt_cycle (void (bitstreamReadEg u))

/-- The four offsets of a cropping rectangle, in the order of the stream. -/
structure CropOffsets where
  left : Nat
  right : Nat
  top : Nat
  bottom : Nat

/-- The offsets, if there are any. -/
def readCropOffsets (u : Indeterminate) (present : Bool) : Parser Bitstream CropOffsets :=
  if present then do
    let left ← unchecked 0 (bitstreamReadUeg u)
    let right ← unchecked 0 (bitstreamReadUeg u)
    let top ← unchecked 0 (bitstreamReadUeg u)
    let bottom ← unchecked 0 (bitstreamReadUeg u)
    pure ⟨left, right, top, bottom⟩
  else pure ⟨0, 0, 0, 0⟩

/-- `a - b` of two `uint32_t`. -/
def sub32 (a b : Nat) : Nat := (a + (2 ^ 32 - b % 2 ^ 32)) % 2 ^ 32

/-- Coded size less cropping, as the two `uint32_t` of the source, stored in the
`uint16_t` of the result. -/
def cropped (width height : Nat) (crop : CropOffsets) (crop_unit_x crop_unit_y : Nat) :
    SpsDimension where
  width := sub32 width ((crop.left + crop.right) * crop_unit_x) % 2 ^ 16
  height := sub32 height ((crop.top + crop.bottom) * crop_unit_y) % 2 ^ 16

/-- What `sps_parse_dimension_h264` knows of the picture before the VUI. -/
structure H264Picture where
  chroma_format_idc : Nat
  pic_width_in_mbs_minus1 : Nat
  pic_height_in_map_units_minus1 : Nat
  frame_mbs_only_flag : Bool
  frame_cropping_flag : Bool
  crop : CropOffsets

/-- The part of `sps_parse_dimension_h264` before the VUI. -/
def h264Picture (u : Indeterminate) : Parser Bitstream H264Picture := do
  void (bitstreamSkipBits 8)
  let profile_idc ← unchecked 0 bitstreamRead8
  -- constraint_set[0-5]_flag
  void (bitstreamSkipBits 6)
  -- reserved_zero_2bits
  bitstreamSkipBits 2
  -- level_idc
  void (bitstreamSkipBits 8)
  -- id
  void (bitstreamReadUeg u)
  let chroma_format_idc ← h264ChromaFormat u profile_idc
  -- log2_max_frame_num_minus4
  void (bitstreamReadUeg u)
  h264PicOrderCnt u
  -- num_ref_frames
  void (bitstreamReadUeg u)
  -- gaps_in_frame_num_value_allowed_flag
  void (bitstreamSkipBits 1)
  let pic_width_in_mbs_minus1 ← bitstreamReadUeg u
  let pic_height_in_map_units_minus1 ← bitstreamReadUeg u
  let frame_mbs_only_flag ← unchecked false bitstreamRead1
  -- mb_adaptive_frame_field_flag
  optionally (!frame_mbs_only_flag) (void (bitstreamSkipBits 1))
  -- direct_8x8_inference_flag
  void (bitstreamSkipBits 1)
  let frame_cropping_flag ← unchecked false bitstreamRead1
  let crop ← readCropOffsets u frame_cropping_flag
  pure { chroma_format_idc, pic_width_in_mbs_minus1, pic_height_in_map_units_minus1,
         frame_mbs_only_flag, frame_cropping_flag, crop }

/-- `subwc` and `subhc` of `sps_parse_dimension_h264`. -/
def h264Subwc : List Nat := [1, 2, 2, 1]
def h264Subhc : List Nat := [1, 2, 1, 1]

/-- The end of `sps_parse_dimension_h264`: calculate width and height.  Its test
for negative sizes never holds for unsigned ones. -/
def H264Picture.dimension (pic : H264Picture) : SpsDimension :=
  let frame_mbs_only_flag := pic.frame_mbs_only_flag.toNat
  let width := (pic.pic_width_in_mbs_minus1 + 1) * 16 % 2 ^ 32
  let height := (pic.pic_height_in_map_units_minus1 + 1) * (16 * (2 - frame_mbs_only_flag)) % 2 ^ 32
  if pic.frame_cropping_flag then
    cropped width height pic.crop (h264Subwc.getD pic.chroma_format_idc 0)
      (h264Subhc.getD pic.chroma_format_idc 0 * (2 - frame_mbs_only_flag))
  else ⟨width % 2 ^ 16, height % 2 ^ 16⟩

/-- `sps_parse_dimension_h264`. -/
def spsParseDimensionH264 (u : Indeterminate) : Parser Bitstream SpsDimension := do
  let pic ← h264Picture u
  let vui_parameters_present_flag ← unchecked false bitstreamRead1
  optionally vui_parameters_present_flag (skipVuiParameters u)
  pure pic.dimension

/-! ## HEVC -/

/-- The loop that reads the presence flags, with `n` sub-layers to go. -/
def readSubLayerFlags : (n : Nat) → Parser Bitstream (List (Bool × Bool))
  | 0 => pure []
  | n + 1 => do
      let sub_layer_profile_present_flag ← bitstreamReadBits 1
      let sub_layer_level_present_flag ← bitstreamReadBits 1
      let flags ← readSubLayerFlags n
      pure ((sub_layer_profile_present_flag != 0, sub_layer_level_present_flag != 0) :: flags)

/-- The loop that skips the sub-layers. -/
def skipSubLayers : List (Bool × Bool) → Parser Bitstream Unit
  | [] => pure ()
  | (sub_layer_profile_present_flag, sub_layer_level_present_flag) :: flags => do
      optionally sub_layer_profile_present_flag parseProfileInfo
      -- sub_layer_level_idc[i]
      optionally sub_layer_level_present_flag (void (bitstreamSkipBits 8))
      skipSubLayers flags

/-- The part of `sps_parse_dimension_hevc` up to the end of the profile, tier
and level. -/
def hevcProfileTierLevel : Parser Bitstream Unit := do
  -- vps_id
  void (bitstreamSkipBits 4)
  let max_sub_layers_minus1 ← unchecked 0 (bitstreamReadBits 3)
  -- temporal_id_nesting_flag
  void (bitstreamSkipBits 1)
  parseProfileInfo
  -- level_idc
  void (bitstreamSkipBits 8)
  let flags ← readSubLayerFlags max_sub_layers_minus1
  optionally (0 < max_sub_layers_minus1)
    (times (8 - max_sub_layers_minus1) (void (bitstreamSkipBits 2)))
  skipSubLayers flags

/-- `subwc` and `subhc` of `sps_parse_dimension_hevc`. -/
def hevcSubwc : List Nat := [1, 2, 2, 1, 1]
def hevcSubhc : List Nat := [1, 2, 1, 1, 1]

/-- The part of `sps_parse_dimension_hevc` after the profile, tier and level. -/
def hevcDimension (u : Indeterminate) : Parser Bitstream SpsDimension := do
  -- id
  let _ ← bitstreamReadUeg u
  let chroma_format_idc ← bitstreamReadUeg u
  -- separate_colour_plane_flag
  optionally (chroma_format_idc == 3) (void (bitstreamSkipBits 1))
  let pic_width_in_luma_samples ← bitstreamReadUeg u
  let pic_height_in_luma_samples ← bitstreamReadUeg u
  if pic_width_in_luma_samples = 0 ∨ pic_height_in_luma_samples = 0 then fail
  else do
    let conformance_window_flag ← unchecked false bitstreamRead1
    let crop ← readCropOffsets u conformance_window_flag
    if conformance_window_flag then
      -- `chroma_format_idc` is not checked here.
      pure (cropped pic_width_in_luma_samples pic_height_in_luma_samples crop
        (hevcSubwc.getD chroma_format_idc (u.past_subwc chroma_format_idc))
        (hevcSubhc.getD chroma_format_idc (u.past_subhc chroma_format_idc)))
    else pure ⟨pic_width_in_luma_samples % 2 ^ 16, pic_height_in_luma_samples % 2 ^ 16⟩

/-- `sps_parse_dimension_hevc`. -/
def spsParseDimensionHevc (u : Indeterminate) : Parser Bitstream SpsDimension := do
  hevcProfileTierLevel
  hevcDimension u

/-! ## What is passed over -/

/-- The parser passes over `n` bits, whatever they are. -/
def Skips (p : Parser Bitstream Unit) (n : Nat) : Prop :=
  ∀ fuel s, p fuel s = some (some (), advance nextBit n s)

theorem skips_skip (n : Nat) (h : n ≤ longestSkip) :
    Skips (void (bitstreamSkipBits n)) n := fun fuel s => by
  rw [void, skipBits_eq h]
  rfl

namespace Skips

protected theorem pure : Skips (pure ()) 0 := fun _ _ => rfl

protected theorem bind {p : Parser Bitstream Unit} {q : Unit → Parser Bitstream Unit} {m n : Nat}
    (hp : Skips p m) (hq : Skips (q ()) n) : Skips (p >>= q) (m + n) := fun fuel s => by
  rw [bind_run (hp fuel s), hq, advance_add]

protected theorem times {p : Parser Bitstream Unit} {n : Nat} (hp : Skips p n) (k : Nat) :
    Skips (times k p) (k * n) := by
  induction k with
  | zero =>
      rw [Nat.zero_mul]
      exact Skips.pure
  | succ k ih =>
      rw [Nat.succ_mul, Nat.add_comm (k * n) n]
      exact hp.bind (q := fun _ => times k p) ih

protected theorem optionally {p : Parser Bitstream Unit} {n : Nat} (hp : Skips p n) (c : Bool) :
    Skips (optionally c p) (if c then n else 0) := by
  cases c with
  | false => exact Skips.pure
  | true => exact hp

/-- What is passed over is read. -/
theorem reads {p : Parser Bitstream Unit} {n : Nat} (hp : Skips p n) {bits : List Bool}
    (h : bits.length = n) : Reads p bits () := by
  intro fuel s _
  rw [hp fuel s, h]
  exact .inl rfl

end Skips

/-- `parse_profile_info` passes over the 88 bits of a profile and tier. -/
theorem skips_profileInfo : Skips parseProfileInfo 88 := by
  have hsum : 88 = 2 + (1 + (5 + (32 * 1 + (1 + (1 + (1 + (1 + 44))))))) := rfl
  rw [hsum]
  unfold parseProfileInfo
  refine (skips_skip 2 (by decide)).bind ?_
  refine (skips_skip 1 (by decide)).bind ?_
  refine (skips_skip 5 (by decide)).bind ?_
  refine ((skips_skip 1 (by decide)).times 32).bind ?_
  refine (skips_skip 1 (by decide)).bind ?_
  refine (skips_skip 1 (by decide)).bind ?_
  refine (skips_skip 1 (by decide)).bind ?_
  exact (skips_skip 1 (by decide)).bind (skips_skip 44 (by decide))

end CommonsC.SpsParser
