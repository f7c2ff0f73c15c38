import CommonsC.Base.Bits
import CommonsC.Base.Emulation
import Mathlib.Data.Vector.Basic

/-!
# CommonsC.SpsParser.Syntax

The sequence parameter sets of H.264 and H.265 as syntax trees, with their
encodings.  This is the specification side: it follows the syntax tables of the
two standards (H.264 clauses 7.3.2.1.1 and E.1, H.265 clause 7.3.2.2) and not
the parser.

A tree holds the values of the coded elements; where the presence of an element
depends on an earlier one, the tree says which case it is.  The widths of the
fixed-width fields and the ranges of the Exp-Golomb codes are part of the types,
so that every tree can be encoded.
-/

namespace CommonsC.SpsParser

open Bits Emulation

/-! ## Elements -/

/-- A value that `ue(v)` codes in 32 bits. -/
abbrev Ue : Type := { v : Nat // v < 2 ^ 32 - 1 }

/-- The shortest code. -/
def Ue.zero : Ue := ⟨0, by decide⟩

/-- A value that `se(v)` codes in 32 bits. -/
abbrev Se : Type := { s : Int // -2 ^ 31 < s ∧ s < 2 ^ 31 }

/-- The code `ue(v)`. -/
def Ue.bits (v : Ue) : List Bool := ue v.val

/-- The code `se(v)`. -/
def Se.bits (s : Se) : List Bool := se s.val

/-- The field `u(n)`. -/
def fieldBits {n : Nat} (v : BitVec n) : List Bool := Bits.ofNat n v.toNat

/-- A presence flag and what it announces. -/
def optionBits {α : Type} (enc : α → List Bool) : Option α → List Bool
  | none => [false]
  | some a => true :: enc a

/-- `rbsp_trailing_bits()` after `n` bits. -/
def trailingBits (n : Nat) : List Bool := true :: List.replicate ((8 - (n + 1) % 8) % 8) false

/-- The bytes of a raw byte sequence payload. -/
def rbspBytes (bits : List Bool) : List UInt8 := pack (bits ++ trailingBits bits.length)

/-- The bytes are whole: reading them back gives the payload. -/
theorem ofBytes_rbspBytes (bits : List Bool) :
    ofBytes (rbspBytes bits) = bits ++ trailingBits bits.length := by
  refine ofBytes_pack ?_
  rw [List.length_append, trailingBits, List.length_cons, List.length_replicate]
  omega

/-- A cropping rectangle. -/
structure CropWindow where
  left : Ue
  right : Ue
  top : Ue
  bottom : Ue

def CropWindow.bits (crop : CropWindow) : List Bool :=
  crop.left.bits ++ (crop.right.bits ++ (crop.top.bits ++ crop.bottom.bits))

/-- The `chroma_format_idc` of 4:2:0 sampling. -/
def chroma420 : Fin 4 := 1

/-- `SubWidthC` and `SubHeightC`, by `chroma_format_idc`; without chroma, or
with separate colour planes, the units of a crop are single samples. -/
def subWidthC : Nat → Nat
  | 1 | 2 => 2
  | _ => 1

def subHeightC : Nat → Nat
  | 1 => 2
  | _ => 1

/-! ## H.264: video usability information -/

/-- One entry of `hrd_parameters()`. -/
structure SchedSel where
  bit_rate_value_minus1 : Ue
  cpb_size_value_minus1 : Ue
  cbr_flag : Bool

/-- `hrd_parameters()`. -/
structure Hrd where
  /-- The entries 0 to `cpb_cnt_minus1`. -/
  schedSels : List SchedSel
  cpb_cnt : 0 < schedSels.length ∧ schedSels.length ≤ 32
  bit_rate_scale : BitVec 4
  cpb_size_scale : BitVec 4
  initial_cpb_removal_delay_length_minus1 : BitVec 5
  cpb_removal_delay_length_minus1 : BitVec 5
  dpb_output_delay_length_minus1 : BitVec 5
  time_offset_length : BitVec 5

def SchedSel.bits (sel : SchedSel) : List Bool :=
  sel.bit_rate_value_minus1.bits ++ (sel.cpb_size_value_minus1.bits ++ [sel.cbr_flag])

def Hrd.bits (hrd : Hrd) : List Bool :=
  ue (hrd.schedSels.length - 1) ++ fieldBits hrd.bit_rate_scale ++ fieldBits hrd.cpb_size_scale ++
    hrd.schedSels.flatMap SchedSel.bits ++
    fieldBits hrd.initial_cpb_removal_delay_length_minus1 ++
    fieldBits hrd.cpb_removal_delay_length_minus1 ++
    fieldBits hrd.dpb_output_delay_length_minus1 ++ fieldBits hrd.time_offset_length

/-- The sample aspect ratio; 255 announces an explicit one. -/
inductive AspectRatio
  | table (aspect_ratio_idc : BitVec 8) (h : aspect_ratio_idc ≠ 255)
  | extended (sar_width sar_height : BitVec 16)

def AspectRatio.bits : AspectRatio → List Bool
  | .table idc _ => fieldBits idc
  | .extended sar_width sar_height =>
      fieldBits (255 : BitVec 8) ++ fieldBits sar_width ++ fieldBits sar_height

/-- The colour description of a video signal type. -/
structure ColourDescription where
  colour_primaries : BitVec 8
  transfer_characteristics : BitVec 8
  matrix_coefficients : BitVec 8

structure VideoSignalType where
  video_format : BitVec 3
  video_full_range_flag : Bool
  colour_description : Option ColourDescription

structure TimingInfo where
  num_units_in_tick : BitVec 32
  time_scale : BitVec 32
  fixed_frame_rate_flag : Bool

structure BitstreamRestriction where
  motion_vectors_over_pic_boundaries_flag : Bool
  max_bytes_per_pic_denom : Ue
  max_bits_per_mb_denom : Ue
  log2_max_mv_length_horizontal : Ue
  log2_max_mv_length_vertical : Ue
  max_num_reorder_frames : Ue
  max_dec_frame_buffering : Ue

/-- `vui_parameters()`. -/
structure Vui where
  aspect_ratio : Option AspectRatio
  /-- `overscan_appropriate_flag`. -/
  overscan : Option Bool
  video_signal_type : Option VideoSignalType
  /-- The sample locations of the top and the bottom field. -/
  chroma_loc : Option (Ue × Ue)
  timing : Option TimingInfo
  nal_hrd : Option Hrd
  vcl_hrd : Option Hrd
  /-- Coded if there are HRD parameters. -/
  low_delay_hrd_flag : Bool
  pic_struct_present_flag : Bool
  bitstream_restriction : Option BitstreamRestriction

def ColourDescription.bits (c : ColourDescription) : List Bool :=
  fieldBits c.colour_primaries ++ fieldBits c.transfer_characteristics ++
    fieldBits c.matrix_coefficients

def VideoSignalType.bits (v : VideoSignalType) : List Bool :=
  fieldBits v.video_format ++ [v.video_full_range_flag] ++
    optionBits ColourDescription.bits v.colour_description

def TimingInfo.bits (t : TimingInfo) : List Bool :=
  fieldBits t.num_units_in_tick ++ fieldBits t.time_scale ++ [t.fixed_frame_rate_flag]

def BitstreamRestriction.bits (r : BitstreamRestriction) : List Bool :=
  [r.motion_vectors_over_pic_boundaries_flag] ++ r.max_bytes_per_pic_denom.bits ++
    r.max_bits_per_mb_denom.bits ++ r.log2_max_mv_length_horizontal.bits ++
    r.log2_max_mv_length_vertical.bits ++ r.max_num_reorder_frames.bits ++
    r.max_dec_frame_buffering.bits

def Vui.bits (vui : Vui) : List Bool :=
  optionBits AspectRatio.bits vui.aspect_ratio ++ optionBits (fun b => [b]) vui.overscan ++
    optionBits VideoSignalType.bits vui.video_signal_type ++
    optionBits (fun loc => loc.1.bits ++ loc.2.bits) vui.chroma_loc ++
    optionBits TimingInfo.bits vui.timing ++ optionBits Hrd.bits vui.nal_hrd ++
    optionBits Hrd.bits vui.vcl_hrd ++
    (if vui.nal_hrd.isSome || vui.vcl_hrd.isSome then [vui.low_delay_hrd_flag] else []) ++
    [vui.pic_struct_present_flag] ++
    optionBits BitstreamRestriction.bits vui.bitstream_restriction

/-! ## H.264: sequence parameter set -/

/-- `scaling_list()`, given the `delta_scale` of each entry: an entry is only
coded while `nextScale` is not 0. -/
def scalingListBits : (lastScale nextScale : Nat) → List Se → List Bool
  | _, _, [] => []
  | lastScale, nextScale, delta_scale :: deltas =>
      if nextScale ≠ 0 then
        let nextScale := ((lastScale + delta_scale.val + 256) % 256).toNat
        delta_scale.bits ++
          scalingListBits (if nextScale = 0 then lastScale else nextScale) nextScale deltas
      else scalingListBits lastScale nextScale deltas

/-- The scaling lists: six of 16 entries, and two or six of 64. -/
structure ScalingMatrix (chroma_format_idc : Nat) where
  lists4x4 : List.Vector (Option (List.Vector Se 16)) 6
  lists8x8 : List.Vector (Option (List.Vector Se 64)) (if chroma_format_idc = 3 then 6 else 2)

def scalingLists {n : Nat} (lists : List (Option (List.Vector Se n))) : List Bool :=
  lists.flatMap (optionBits fun l => scalingListBits 8 8 l.toList)

def ScalingMatrix.bits {chroma_format_idc : Nat} (m : ScalingMatrix chroma_format_idc) :
    List Bool :=
  scalingLists m.lists4x4.toList ++ scalingLists m.lists8x8.toList

/-- What the profiles with a chroma format code. -/
structure ChromaFormat where
  chroma_format_idc : Fin 4
  /-- Coded if `chroma_format_idc` is 3. -/
  separate_colour_plane_flag : Bool
  bit_depth_luma_minus8 : Ue
  bit_depth_chroma_minus8 : Ue
  qpprime_y_zero_transform_bypass_flag : Bool
  scaling_matrix : Option (ScalingMatrix chroma_format_idc)

def ChromaFormat.bits (c : ChromaFormat) : List Bool :=
  ue c.chroma_format_idc ++
    ((if c.chroma_format_idc.val == 3 then [c.separate_colour_plane_flag] else []) ++
    (c.bit_depth_luma_minus8.bits ++ (c.bit_depth_chroma_minus8.bits ++
    ([c.qpprime_y_zero_transform_bypass_flag] ++
    optionBits ScalingMatrix.bits c.scaling_matrix))))

/-- The profiles with a chroma format. -/
def chromaProfiles : List Nat :=
  [100, 110, 122, 244, 44, 83, 86, 118, 128, 138, 139, 134, 135]

/-- The picture order count, by `pic_order_cnt_type`. -/
inductive PicOrderCnt
  | type0 (log2_max_pic_order_cnt_lsb_minus4 : Ue)
  | type1 (delta_pic_order_always_zero_flag : Bool) (offset_for_non_ref_pic : Se)
      (offset_for_top_to_bottom_field : Se) (offset_for_ref_frame : List Se)
      (h : offset_for_ref_frame.length ≤ 255)
  | type2

def PicOrderCnt.bits : PicOrderCnt → List Bool
  | .type0 log2_max => ue 0 ++ log2_max.bits
  | .type1 always_zero non_ref top_to_bottom ref_frame _ =>
      ue 1 ++ ([always_zero] ++ (non_ref.bits ++ (top_to_bottom.bits ++
        (ue ref_frame.length ++ ref_frame.flatMap Se.bits))))
  | .type2 => ue 2

/-- `seq_parameter_set_data()`, with the `nal_ref_idc` of its NAL unit. -/
structure H264Sps where
  nal_ref_idc : BitVec 2
  profile_idc : BitVec 8
  constraint_set_flags : BitVec 6
  level_idc : BitVec 8
  seq_parameter_set_id : Ue
  /-- Coded in the profiles with a chroma format; 4:2:0 is inferred in others. -/
  chroma : ChromaFormat
  log2_max_frame_num_minus4 : Ue
  pic_order_cnt : PicOrderCnt
  max_num_ref_frames : Ue
  gaps_in_frame_num_value_allowed_flag : Bool
  pic_width_in_mbs_minus1 : Ue
  pic_height_in_map_units_minus1 : Ue
  frame_mbs_only_flag : Bool
  /-- Coded if `frame_mbs_only_flag` is 0. -/
  mb_adaptive_frame_field_flag : Bool
  direct_8x8_inference_flag : Bool
  frame_cropping : Option CropWindow
  vui : Option Vui

/-- The profile is one with a chroma format. -/
def H264Sps.hasChroma (sps : H264Sps) : Bool := chromaProfiles.contains sps.profile_idc.toNat

/-- `seq_parameter_set_data()` up to the VUI. -/
def H264Sps.pictureBits (sps : H264Sps) : List Bool :=
  fieldBits sps.profile_idc ++ (fieldBits sps.constraint_set_flags ++ ([false, false] ++
  (fieldBits sps.level_idc ++ (sps.seq_parameter_set_id.bits ++
  ((if sps.hasChroma then sps.chroma.bits else []) ++
  (sps.log2_max_frame_num_minus4.bits ++ (sps.pic_order_cnt.bits ++
  (sps.max_num_ref_frames.bits ++ ([sps.gaps_in_frame_num_value_allowed_flag] ++
  (sps.pic_width_in_mbs_minus1.bits ++ (sps.pic_height_in_map_units_minus1.bits ++
  ([sps.frame_mbs_only_flag] ++
  ((if !sps.frame_mbs_only_flag then [sps.mb_adaptive_frame_field_flag] else []) ++
  ([sps.direct_8x8_inference_flag] ++
  optionBits CropWindow.bits sps.frame_cropping))))))))))))))

def H264Sps.bits (sps : H264Sps) : List Bool :=
  sps.pictureBits ++ optionBits Vui.bits sps.vui

/-- The header of the NAL unit: `forbidden_zero_bit`, `nal_ref_idc`,
`nal_unit_type`. -/
def H264Sps.headerBits (sps : H264Sps) : List Bool :=
  [false] ++ fieldBits sps.nal_ref_idc ++ Bits.ofNat 5 7

/-- The NAL unit. -/
def H264Sps.nal (sps : H264Sps) : List UInt8 :=
  pack sps.headerBits ++ escape 0 (rbspBytes sps.bits)

/-- `chroma_format_idc`, coded or inferred. -/
def H264Sps.chromaFormatIdc (sps : H264Sps) : Nat :=
  if sps.hasChroma then sps.chroma.chroma_format_idc else 1

/-- `ChromaArrayType`. -/
def H264Sps.chromaArrayType (sps : H264Sps) : Nat :=
  if sps.hasChroma && sps.chromaFormatIdc == 3 && sps.chroma.separate_colour_plane_flag then 0
  else sps.chromaFormatIdc

def H264Sps.cropUnitX (sps : H264Sps) : Nat := subWidthC sps.chromaArrayType

def H264Sps.cropUnitY (sps : H264Sps) : Nat :=
  subHeightC sps.chromaArrayType * (2 - sps.frame_mbs_only_flag.toNat)

/-- The width of the cropped picture. -/
def H264Sps.width (sps : H264Sps) : Int :=
  16 * (sps.pic_width_in_mbs_minus1.val + 1) -
    (sps.frame_cropping.elim 0 fun c => sps.cropUnitX * (c.left.val + c.right.val) : Nat)

/-- The height of the cropped picture. -/
def H264Sps.height (sps : H264Sps) : Int :=
  16 * (2 - sps.frame_mbs_only_flag.toNat : Nat) * (sps.pic_height_in_map_units_minus1.val + 1) -
    (sps.frame_cropping.elim 0 fun c => sps.cropUnitY * (c.top.val + c.bottom.val) : Nat)

/-! ## HEVC: sequence parameter set -/

/-- The profile and tier of the whole stream or of a sub-layer. -/
structure ProfileTier where
  profile_space : BitVec 2
  tier_flag : Bool
  profile_idc : BitVec 5
  profile_compatibility_flags : BitVec 32
  progressive_source_flag : Bool
  interlaced_source_flag : Bool
  non_packed_constraint_flag : Bool
  frame_only_constraint_flag : Bool
  /-- The 43 reserved or constraint bits, and the bit after them. -/
  reserved_44bits : BitVec 44

/-- The first half of a profile and tier. -/
def ProfileTier.namedBits (p : ProfileTier) : List Bool :=
  fieldBits p.profile_space ++ [p.tier_flag] ++ fieldBits p.profile_idc ++
    fieldBits p.profile_compatibility_flags ++
    [p.progressive_source_flag, p.interlaced_source_flag, p.non_packed_constraint_flag,
      p.frame_only_constraint_flag]

def ProfileTier.bits (p : ProfileTier) : List Bool := p.namedBits ++ fieldBits p.reserved_44bits

theorem ProfileTier.length_bits (p : ProfileTier) : p.bits.length = 88 := by
  simp [bits, namedBits, fieldBits]

/-- The profile and the level of a sub-layer, where they are present. -/
structure SubLayer where
  profile : Option ProfileTier
  level_idc : Option (BitVec 8)

/-- `seq_parameter_set_rbsp()` of H.265. -/
structure HevcSps where
  sps_video_parameter_set_id : BitVec 4
  /-- The sub-layers 0 to `sps_max_sub_layers_minus1 - 1`. -/
  sub_layers : List SubLayer
  max_sub_layers : sub_layers.length ≤ 7
  sps_temporal_id_nesting_flag : Bool
  general_profile : ProfileTier
  general_level_idc : BitVec 8
  sps_seq_parameter_set_id : Ue
  chroma_format_idc : Fin 4
  /-- Coded if `chroma_format_idc` is 3. -/
  separate_colour_plane_flag : Bool
  pic_width_in_luma_samples : Ue
  pic_height_in_luma_samples : Ue
  conformance_window : Option CropWindow
  /-- The elements after the conformance window. -/
  rest : List Bool

def SubLayer.flags (l : SubLayer) : List Bool := [l.profile.isSome, l.level_idc.isSome]

def SubLayer.bits (l : SubLayer) : List Bool :=
  l.profile.elim [] ProfileTier.bits ++ l.level_idc.elim [] fieldBits

/-- `sps_max_sub_layers_minus1`. -/
def HevcSps.maxSubLayersMinus1 (sps : HevcSps) : Nat := sps.sub_layers.length

/-- The first byte of the payload, before the profile. -/
def HevcSps.idBits (sps : HevcSps) : List Bool :=
  fieldBits sps.sps_video_parameter_set_id ++ (Bits.ofNat 3 sps.maxSubLayersMinus1 ++
    [sps.sps_temporal_id_nesting_flag])

/-- The part of `profile_tier_level()` for the sub-layers. -/
def HevcSps.subLayerBits (sps : HevcSps) : List Bool :=
  sps.sub_layers.flatMap SubLayer.flags ++
    ((if 0 < sps.maxSubLayersMinus1 then
      List.replicate (2 * (8 - sps.maxSubLayersMinus1)) false else []) ++
    sps.sub_layers.flatMap SubLayer.bits)

/-- The payload up to the end of `profile_tier_level()`. -/
def HevcSps.profileTierLevelBits (sps : HevcSps) : List Bool :=
  sps.idBits ++ (sps.general_profile.bits ++ (fieldBits sps.general_level_idc ++ sps.subLayerBits))

/-- The elements that decide the dimensions. -/
def HevcSps.dimensionBits (sps : HevcSps) : List Bool :=
  sps.sps_seq_parameter_set_id.bits ++ (ue sps.chroma_format_idc ++
    ((if sps.chroma_format_idc.val == 3 then [sps.separate_colour_plane_flag] else []) ++
    (sps.pic_width_in_luma_samples.bits ++ (sps.pic_height_in_luma_samples.bits ++
    optionBits CropWindow.bits sps.conformance_window))))

def HevcSps.bits (sps : HevcSps) : List Bool :=
  sps.profileTierLevelBits ++ (sps.dimensionBits ++ sps.rest)

/-- The payload with emulation prevention, as it follows the NAL unit header. -/
def HevcSps.payload (sps : HevcSps) : List UInt8 := escape 0 (rbspBytes sps.bits)

/-- The NAL unit, with the header of a sequence parameter set in the base layer. -/
def HevcSps.nal (sps : HevcSps) : List UInt8 := [0x42, 0x01] ++ sps.payload

/-- The width of the cropped picture. -/
def HevcSps.width (sps : HevcSps) : Int :=
  sps.pic_width_in_luma_samples.val -
    (sps.conformance_window.elim 0 fun c =>
      subWidthC sps.chroma_format_idc * (c.left.val + c.right.val) : Nat)

/-- The height of the cropped picture. -/
def HevcSps.height (sps : HevcSps) : Int :=
  sps.pic_height_in_luma_samples.val -
    (sps.conformance_window.elim 0 fun c =>
      subHeightC sps.chroma_format_idc * (c.top.val + c.bottom.val) : Nat)

end CommonsC.SpsParser
