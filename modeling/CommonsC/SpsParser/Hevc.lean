import CommonsC.SpsParser.H264

/-!
# CommonsC.SpsParser.Hevc

`sps_parse_dimension_hevc` on the encoding of a sequence parameter set.  Given
the payload, it is right for every parameter set
(`spsParseDimensionHevc_payload`).  Given the NAL unit with its two-byte header,
it takes the header for the beginning of the payload, and is only back in step
with the real elements when there are no sub-layers and two reserved bits of the
profile are zero (`spsParseDimensionHevc_nal`).
-/

namespace CommonsC.SpsParser

open Bits Parser Emulation

/-! ## The profile, tier and level -/

/-- The presence flags of a sub-layer. -/
def SubLayer.present (l : SubLayer) : Bool × Bool := (l.profile.isSome, l.level_idc.isSome)

theorem reads_subLayerFlags (layers : List SubLayer) :
    Reads (readSubLayerFlags layers.length) (layers.flatMap SubLayer.flags)
      (layers.map SubLayer.present) := by
  induction layers with
  | nil => exact Parses.pure []
  | cons l layers ih =>
      have hflags : SubLayer.flags l ++ layers.flatMap SubLayer.flags =
          [l.profile.isSome] ++ ([l.level_idc.isSome] ++ layers.flatMap SubLayer.flags) := rfl
      rw [List.flatMap_cons, hflags]
      refine (reads_bit _).bind ((reads_bit _).bind (ih.bind_pure ?_))
      rw [List.map_cons, SubLayer.present]
      cases l.profile.isSome <;> cases l.level_idc.isSome <;> rfl

theorem reads_subLayers (layers : List SubLayer) :
    Reads (skipSubLayers (layers.map SubLayer.present)) (layers.flatMap SubLayer.bits) () := by
  induction layers with
  | nil => exact Parses.pure ()
  | cons l layers ih =>
      have hprofile : Reads (optionally l.profile.isSome parseProfileInfo)
          (l.profile.elim [] ProfileTier.bits) () := by
        cases l.profile with
        | none => exact Parses.pure ()
        | some p => exact skips_profileInfo.reads p.length_bits
      have hlevel : Reads (optionally l.level_idc.isSome (void (bitstreamSkipBits 8)))
          (l.level_idc.elim [] fieldBits) () := by
        cases l.level_idc with
        | none => exact Parses.pure ()
        | some v => exact (reads_skipField v (by decide)).void
      rw [List.flatMap_cons, SubLayer.bits, List.append_assoc]
      exact hprofile.bind (hlevel.bind ih)

/-- The parser reads `profile_tier_level()` of every parameter set. -/
theorem reads_profileTierLevel (sps : HevcSps) :
    Reads hevcProfileTierLevel sps.profileTierLevelBits () := by
  have hmax : sps.maxSubLayersMinus1 < 2 ^ 3 := Nat.lt_succ_of_le sps.max_sub_layers
  have hreserved : Reads (optionally (0 < sps.maxSubLayersMinus1)
        (times (8 - sps.maxSubLayersMinus1) (void (bitstreamSkipBits 2))))
      (if 0 < sps.maxSubLayersMinus1 then
        List.replicate (2 * (8 - sps.maxSubLayersMinus1)) false else []) () := by
    refine (((skips_skip 2 (by decide)).times _).optionally _).reads ?_
    by_cases hpos : 0 < sps.maxSubLayersMinus1 <;> simp [hpos, Nat.mul_comm]
  unfold hevcProfileTierLevel HevcSps.profileTierLevelBits HevcSps.idBits HevcSps.subLayerBits
  simp only [List.append_assoc]
  refine (reads_skipField sps.sps_video_parameter_set_id (by decide)).void.bind ?_
  refine ((reads_ofNat (by decide) hmax).unchecked 0).bind ?_
  refine (reads_skipFlag sps.sps_temporal_id_nesting_flag).void.bind ?_
  refine (skips_profileInfo.reads sps.general_profile.length_bits).bind ?_
  refine (reads_skipField sps.general_level_idc (by decide)).void.bind ?_
  refine (reads_subLayerFlags sps.sub_layers).bind ?_
  exact hreserved.bind (reads_subLayers sps.sub_layers)

/-! ## The dimensions -/

/-- What the parser computes from the elements after the profile. -/
def HevcSps.dimension (sps : HevcSps) : SpsDimension :=
  match sps.conformance_window with
  | none =>
      ⟨sps.pic_width_in_luma_samples.val % 2 ^ 16, sps.pic_height_in_luma_samples.val % 2 ^ 16⟩
  | some c =>
      cropped sps.pic_width_in_luma_samples.val sps.pic_height_in_luma_samples.val
        (cropOffsets (some c)) (subWidthC sps.chroma_format_idc) (subHeightC sps.chroma_format_idc)

theorem hevcSubwc_eq (idc : Fin 4) (past : Nat) : hevcSubwc.getD idc past = subWidthC idc := by
  match idc with
  | 0 | 1 | 2 | 3 => rfl

theorem hevcSubhc_eq (idc : Fin 4) (past : Nat) : hevcSubhc.getD idc past = subHeightC idc := by
  match idc with
  | 0 | 1 | 2 | 3 => rfl

theorem reads_dimension (u : Indeterminate) {sps : HevcSps}
    (hpos : 0 < sps.pic_width_in_luma_samples.val ∧ 0 < sps.pic_height_in_luma_samples.val) :
    Reads (hevcDimension u) sps.dimensionBits sps.dimension := by
  have hidc := sps.chroma_format_idc.isLt
  unfold hevcDimension HevcSps.dimensionBits
  refine (reads_ueBits u sps.sps_seq_parameter_set_id).bind ?_
  refine (reads_ue u (by omega)).bind ?_
  refine (Parses.optionally _ fun _ => (reads_skipFlag _).void).bind ?_
  refine (reads_ueBits u sps.pic_width_in_luma_samples).bind ?_
  refine (reads_ueBits u sps.pic_height_in_luma_samples).bind ?_
  rw [if_neg (by omega)]
  refine reads_frameCropping u sps.conformance_window ?_
  rw [hevcSubwc_eq, hevcSubhc_eq, HevcSps.dimension]
  cases sps.conformance_window <;> rfl

/-- The arithmetic at the end of the parser. -/
theorem HevcSps.dimension_eq {sps : HevcSps} (hw : 1 ≤ sps.width ∧ sps.width ≤ 65535)
    (hh : 1 ≤ sps.height ∧ sps.height ≤ 65535) :
    (sps.dimension.width : Int) = sps.width ∧ (sps.dimension.height : Int) = sps.height := by
  have hlt : ∀ v : Ue, v.val % 2 ^ 32 = v.val := fun v =>
    Nat.mod_eq_of_lt (Nat.lt_of_lt_of_le v.property (by decide))
  have hfits : ∀ v : Nat, (v : Int) ≤ 65535 → ((v % 2 ^ 16 : Nat) : Int) = v := fun v h => by omega
  cases hwindow : sps.conformance_window with
  | none =>
      have hdim : sps.dimension = ⟨sps.pic_width_in_luma_samples.val % 2 ^ 16,
          sps.pic_height_in_luma_samples.val % 2 ^ 16⟩ := by rw [dimension, hwindow]
      have hwidth : sps.width = sps.pic_width_in_luma_samples.val := by simp [width, hwindow]
      have hheight : sps.height = sps.pic_height_in_luma_samples.val := by simp [height, hwindow]
      rw [hwidth] at hw
      rw [hheight] at hh
      rw [hdim, hwidth, hheight]
      exact ⟨hfits _ hw.2, hfits _ hh.2⟩
  | some c =>
      have hwidth : sps.width = sps.pic_width_in_luma_samples.val -
          ((c.left.val + c.right.val) * subWidthC sps.chroma_format_idc : Nat) := by
        rw [width, hwindow, Nat.mul_comm]
        rfl
      have hheight : sps.height = sps.pic_height_in_luma_samples.val -
          ((c.top.val + c.bottom.val) * subHeightC sps.chroma_format_idc : Nat) := by
        rw [height, hwindow, Nat.mul_comm]
        rfl
      have hx := sub32_eq hwidth hw
      have hy := sub32_eq hheight hh
      rw [hlt] at hx hy
      rw [dimension, hwindow]
      exact ⟨hx, hy⟩

/-! ## The payload -/

theorem SubLayer.length_bits_le (l : SubLayer) : l.bits.length ≤ 96 := by
  have hprofile : (l.profile.elim [] ProfileTier.bits).length ≤ 88 := by
    cases l.profile with
    | none => exact Nat.zero_le _
    | some p => exact Nat.le_of_eq p.length_bits
  have hlevel : (l.level_idc.elim [] fieldBits).length ≤ 8 := by
    cases l.level_idc with
    | none => exact Nat.zero_le _
    | some v => exact Nat.le_of_eq (length_fieldBits v)
  exact length_append_le hprofile hlevel

theorem HevcSps.length_profileTierLevelBits_le (sps : HevcSps) :
    sps.profileTierLevelBits.length ≤ 2 ^ 10 := by
  have hmax := sps.max_sub_layers
  have hflags : (sps.sub_layers.flatMap SubLayer.flags).length ≤ 2 * 7 :=
    Nat.le_trans (length_flatMap_le fun l _ => Nat.le_refl 2) (Nat.mul_le_mul_left 2 hmax)
  have hlayers : (sps.sub_layers.flatMap SubLayer.bits).length ≤ 96 * 7 :=
    Nat.le_trans (length_flatMap_le fun l _ => l.length_bits_le) (Nat.mul_le_mul_left 96 hmax)
  have hreserved : (if 0 < sps.maxSubLayersMinus1 then
      List.replicate (2 * (8 - sps.maxSubLayersMinus1)) false else []).length ≤ 16 := by
    split
    · rw [List.length_replicate]
      omega
    · exact Nat.zero_le _
  have hid : sps.idBits.length ≤ 8 := by simp [idBits]
  refine Nat.le_trans (length_append_le hid <|
    length_append_le (Nat.le_of_eq sps.general_profile.length_bits) <|
    length_append_le (Nat.le_of_eq (length_fieldBits _)) <|
    length_append_le hflags (length_append_le hreserved hlayers)) ?_
  decide

theorem HevcSps.length_dimensionBits_le (sps : HevcSps) :
    sps.dimensionBits.length ≤ 2 ^ 10 := by
  have hidc : (ue sps.chroma_format_idc).length ≤ 63 :=
    length_ue_le (Nat.lt_of_lt_of_le sps.chroma_format_idc.isLt (by decide))
  have hplane : (if sps.chroma_format_idc.val == 3 then [sps.separate_colour_plane_flag]
      else []).length ≤ 1 := by
    split <;> simp
  have hwindow : (optionBits CropWindow.bits sps.conformance_window).length ≤ 252 + 1 :=
    length_optionBits_le fun c _ => c.length_bits_le
  refine Nat.le_trans (length_append_le sps.sps_seq_parameter_set_id.length_bits_le <|
    length_append_le hidc <| length_append_le hplane <|
    length_append_le sps.pic_width_in_luma_samples.length_bits_le <|
    length_append_le sps.pic_height_in_luma_samples.length_bits_le hwindow) ?_
  decide

/-- **HEVC payloads are parsed**: on the payload of every sequence parameter set,
followed by anything, `sps_parse_dimension_hevc` returns true with the
dimensions of the cropped picture. -/
theorem spsParseDimensionHevc_payload (u : Indeterminate) {fuel : Nat} (hfuel : 32 ≤ fuel)
    {sps : HevcSps}
    (hpos : 0 < sps.pic_width_in_luma_samples.val ∧ 0 < sps.pic_height_in_luma_samples.val)
    (hw : 1 ≤ sps.width ∧ sps.width ≤ 65535) (hh : 1 ≤ sps.height ∧ sps.height ≤ 65535)
    {data : Nat → UInt8} (hdata : rawBytes data 0 sps.payload.length = sps.payload) :
    ∃ dim buf, spsParseDimensionHevc u fuel (bitstreamInit data) = some (some dim, buf) ∧
      (dim.width : Int) = sps.width ∧ (dim.height : Int) = sps.height := by
  have hbytes : ofBytes (rbspBytes sps.bits) =
      (sps.profileTierLevelBits ++ sps.dimensionBits) ++
        (sps.rest ++ trailingBits sps.bits.length) := by
    rw [ofBytes_rbspBytes]
    simp only [HevcSps.bits, List.append_assoc]
  have hlen : (sps.profileTierLevelBits ++ sps.dimensionBits).length ≤ 2 ^ 28 :=
    Nat.le_trans (length_append_le sps.length_profileTierLevelBits_le sps.length_dimensionBits_le)
      (by decide)
  have hyields := yields_escape hdata hbytes hlen
  have hreads : Reads (spsParseDimensionHevc u) (sps.profileTierLevelBits ++ sps.dimensionBits)
      sps.dimension := (reads_profileTierLevel sps).bind (reads_dimension u hpos)
  exact ⟨_, _, hreads.eq_some hyields hfuel, HevcSps.dimension_eq hw hh⟩

/-- Elements to follow a conformance window: 8-bit samples, the buffering of each
layer, block sizes, and every optional tool off. -/
def plainElements (layers : Nat) : List Bool :=
  ue 0 ++ ue 0 ++ ue 4 ++ [true] ++ (List.replicate layers (ue 1 ++ ue 0 ++ ue 0)).flatten ++
    ue 0 ++ ue 3 ++ ue 0 ++ ue 3 ++ ue 0 ++ ue 0 ++ [false, false, false, false] ++ ue 0 ++
    [false, false, false, false, false]

/-- A 1280x720 picture with the given sub-layers. -/
def hevcSps720p (sub_layers : List SubLayer) (h : sub_layers.length ≤ 7) : HevcSps where
  sps_video_parameter_set_id := 0
  sub_layers
  max_sub_layers := h
  sps_temporal_id_nesting_flag := true
  general_profile := ⟨0, false, 1, 0x60000000, true, false, true, true, 0⟩
  general_level_idc := 93
  sps_seq_parameter_set_id := .zero
  chroma_format_idc := chroma420
  separate_colour_plane_flag := false
  pic_width_in_luma_samples := ⟨1280, by decide⟩
  pic_height_in_luma_samples := ⟨736, by decide⟩
  conformance_window := some ⟨.zero, .zero, .zero, ⟨8, by decide⟩⟩
  rest := plainElements (sub_layers.length + 1)

/-- With one sub-layer, without a profile or level of its own. -/
def hevcSpsTwoLayers : HevcSps := hevcSps720p [⟨none, none⟩] (by decide)

/-- Without sub-layers. -/
def hevcSpsOneLayer : HevcSps := hevcSps720p [] (by decide)

/-- The payload of a stream with two layers is parsed. -/
theorem spsParseDimensionHevc_payload_720p : ∃ dim buf,
    spsParseDimensionHevc .zeros 32 (bitstreamInit (dataOf hevcSpsTwoLayers.payload)) =
        some (some dim, buf) ∧
      (dim.width : Int) = 1280 ∧ (dim.height : Int) = 720 := by
  have hw : 1 ≤ hevcSpsTwoLayers.width ∧ hevcSpsTwoLayers.width ≤ 65535 := by decide
  have hh : 1 ≤ hevcSpsTwoLayers.height ∧ hevcSpsTwoLayers.height ≤ 65535 := by decide
  exact spsParseDimensionHevc_payload .zeros (Nat.le_refl 32) (by decide) hw hh
    (rawBytes_dataOf hevcSpsTwoLayers.payload)

/-! ## The NAL unit with its header -/

/-- The two bits that the parser, when it starts at the header, takes for the
presence flags of a sub-layer: bits 36 and 37 of the last 44 bits of the general
profile. -/
def HevcSps.mistakenFlags (sps : HevcSps) : Bool × Bool :=
  (sps.general_profile.reserved_44bits.toNat.testBit 7,
    sps.general_profile.reserved_44bits.toNat.testBit 6)

/-- There are no sub-layers, and the two bits are zero. -/
def HevcSps.HeaderHarmless (sps : HevcSps) : Prop :=
  sps.maxSubLayersMinus1 = 0 ∧ sps.mistakenFlags = (false, false)

/-- Starting at the header, the parser is at `sps_seq_parameter_set_id` when it
takes itself to be there. -/
def HevcSps.InStep (sps : HevcSps) (data : Nat → UInt8) (fuel : Nat) : Prop :=
  hevcProfileTierLevel fuel (bitstreamInit data) =
    some (some (), advance nextBit (16 + sps.profileTierLevelBits.length) (bitstreamInit data))

/-- Passing over one sub-layer. -/
theorem skips_subLayer (profile level : Bool) :
    Skips (skipSubLayers [(profile, level)])
      ((if profile then 88 else 0) + ((if level then 8 else 0) + 0)) := by
  rw [skipSubLayers, skipSubLayers]
  exact (skips_profileInfo.optionally profile).bind
    (((skips_skip 8 (by decide)).optionally level).bind Skips.pure)

/-- The parser on the byte 0x42: it reads one sub-layer, 96 bits of profile and
level, two flags, and passes over what these announce. -/
theorem reads_header {bits more : List Bool} {b₀ b₁ : Bool} (hbits : bits.length = 96)
    (hmore : more.length = 14 + ((if b₀ then 88 else 0) + ((if b₁ then 8 else 0) + 0))) :
    Reads hevcProfileTierLevel (ofByte 0x42 ++ (bits ++ ([b₀] ++ ([b₁] ++ more)))) () := by
  have hbyte : ofByte 0x42 = [false, true, false, false] ++ (Bits.ofNat 3 1 ++ [false]) := by
    decide
  have hflags : [b₀] ++ ([b₁] ++ more) = [(b₀, b₁)].flatMap (fun f => [f.1, f.2]) ++ more := rfl
  have hread : Reads (readSubLayerFlags 1) ([(b₀, b₁)].flatMap fun f => [f.1, f.2])
      [(b₀, b₁)] :=
    (reads_bit b₀).bind ((reads_bit b₁).bind_pure (by cases b₀ <;> cases b₁ <;> rfl))
  have hskip : Reads (do
      optionally (decide (0 < 1)) (times (8 - 1) (void (bitstreamSkipBits 2)))
      skipSubLayers [(b₀, b₁)]) more () := by
    have hreserved :
        Skips (optionally (decide (0 < 1)) (times (8 - 1) (void (bitstreamSkipBits 2)))) 14 :=
      (skips_skip 2 (by decide)).times 7
    exact (hreserved.bind (skips_subLayer b₀ b₁)).reads hmore
  have hid : Reads (bitstreamSkipBits 4) [false, true, false, false] () :=
    reads_skip rfl (by decide)
  have hsplit : bits = bits.take 88 ++ bits.drop 88 := (List.take_append_drop 88 bits).symm
  have h88 : (bits.take 88).length = 88 := by rw [List.length_take, hbits]; rfl
  have h8 : (bits.drop 88).length = 8 := by rw [List.length_drop, hbits]
  rw [hbyte, hflags, hsplit]
  unfold hevcProfileTierLevel
  simp only [List.append_assoc]
  refine hid.void.bind ?_
  refine ((reads_ofNat (by decide) (by decide)).unchecked 0).bind ?_
  refine (reads_skipFlag false).void.bind ?_
  refine (skips_profileInfo.reads h88).bind ?_
  refine (reads_skip h8 (by decide)).void.bind ?_
  exact hread.bind hskip

/-- Where the two bits stand in the general profile. -/
theorem HevcSps.general_profile_bits (sps : HevcSps) : ∃ front back : List Bool,
    front.length = 80 ∧ back.length = 6 ∧ sps.general_profile.bits =
      front ++ ([sps.mistakenFlags.1] ++ ([sps.mistakenFlags.2] ++ back)) := by
  have hlow : fieldBits sps.general_profile.reserved_44bits =
      Bits.ofNat 36 (sps.general_profile.reserved_44bits.toNat / 2 ^ 8) ++
        ([sps.mistakenFlags.1] ++ ([sps.mistakenFlags.2] ++
          Bits.ofNat 6 sps.general_profile.reserved_44bits.toNat)) :=
    Bits.ofNat_add 36 8 _
  refine ⟨sps.general_profile.namedBits ++
    Bits.ofNat 36 (sps.general_profile.reserved_44bits.toNat / 2 ^ 8),
    Bits.ofNat 6 sps.general_profile.reserved_44bits.toNat, ?_, length_ofNat 6 _, ?_⟩
  · simp [ProfileTier.namedBits]
  · rw [ProfileTier.bits, hlow, List.append_assoc]

/-- The sub-layers take whole profiles and levels. -/
theorem length_subLayers (layers : List SubLayer) : ∃ profiles levels, levels ≤ layers.length ∧
    (layers.flatMap SubLayer.bits).length = 88 * profiles + 8 * levels := by
  induction layers with
  | nil => exact ⟨0, 0, Nat.le_refl 0, rfl⟩
  | cons l layers ih =>
      obtain ⟨profiles, levels, hle, hlen⟩ := ih
      have hprofile : (l.profile.elim [] ProfileTier.bits).length =
          88 * l.profile.isSome.toNat := by
        cases l.profile with
        | none => rfl
        | some p => exact p.length_bits
      have hlevel : (l.level_idc.elim [] fieldBits).length = 8 * l.level_idc.isSome.toNat := by
        cases l.level_idc with
        | none => rfl
        | some v => exact length_fieldBits v
      have hone : l.level_idc.isSome.toNat ≤ 1 := Bool.toNat_le _
      refine ⟨l.profile.isSome.toNat + profiles, l.level_idc.isSome.toNat + levels, ?_, ?_⟩
      · rw [List.length_cons]
        omega
      · rw [List.flatMap_cons, List.length_append, SubLayer.bits, List.length_append, hprofile,
          hlevel, hlen]
        omega

/-- How long the part for the sub-layers is. -/
theorem HevcSps.length_subLayerBits (sps : HevcSps) : ∃ profiles levels, levels ≤ 7 ∧
    sps.subLayerBits.length =
      if sps.maxSubLayersMinus1 = 0 then 0 else 16 + (88 * profiles + 8 * levels) := by
  have hmax := sps.max_sub_layers
  obtain ⟨profiles, levels, hle, hlen⟩ := length_subLayers sps.sub_layers
  have hflags : ∀ layers : List SubLayer,
      (layers.flatMap SubLayer.flags).length = 2 * layers.length := by
    intro layers
    induction layers with
    | nil => rfl
    | cons l layers ih =>
        rw [List.flatMap_cons, List.length_append, ih, List.length_cons, SubLayer.flags]
        simp only [List.length_cons, List.length_nil]
        omega
  refine ⟨profiles, levels, by omega, ?_⟩
  by_cases hzero : sps.maxSubLayersMinus1 = 0
  · have hnil : sps.sub_layers = [] := List.length_eq_zero_iff.mp hzero
    simp [subLayerBits, maxSubLayersMinus1, hnil]
  · have hpos : 0 < sps.maxSubLayersMinus1 := Nat.pos_of_ne_zero hzero
    rw [if_neg hzero, subLayerBits, if_pos hpos, List.length_append, List.length_append, hflags,
      List.length_replicate, hlen]
    unfold maxSubLayersMinus1 at *
    omega

/-- The part up to the end of `profile_tier_level()`, by length. -/
theorem HevcSps.length_profileTierLevelBits (sps : HevcSps) :
    sps.profileTierLevelBits.length = 104 + sps.subLayerBits.length := by
  have hid : sps.idBits.length = 8 := by simp [idBits]
  rw [profileTierLevelBits, List.length_append, List.length_append, List.length_append, hid,
    ProfileTier.length_bits, length_fieldBits]
  omega

/-- The NAL unit is the escaped form of the header and the payload together. -/
theorem HevcSps.nal_eq (sps : HevcSps) :
    sps.nal = escape 0 (0x42 :: 0x01 :: rbspBytes sps.bits) := by
  rw [escape_cons (by decide), escape_cons (by decide)]
  rfl

/-- The bits of the NAL unit around the two that are mistaken for flags. -/
theorem HevcSps.nal_bits (sps : HevcSps) : ∃ before back : List Bool,
    before.length = 96 ∧ back.length = 6 ∧
      ofByte 0x42 ++ (ofByte 0x01 ++ sps.profileTierLevelBits) =
        ofByte 0x42 ++ (before ++ ([sps.mistakenFlags.1] ++ ([sps.mistakenFlags.2] ++
          (back ++ (fieldBits sps.general_level_idc ++ sps.subLayerBits))))) := by
  obtain ⟨front, back, hfront, hback, hprofile⟩ := sps.general_profile_bits
  have hid : sps.idBits.length = 8 := by simp [idBits]
  refine ⟨ofByte 0x01 ++ (sps.idBits ++ front), back, ?_, hback, ?_⟩
  · rw [List.length_append, List.length_append, length_ofByte, hid, hfront]
  · rw [profileTierLevelBits, hprofile]
    simp only [List.append_assoc]

/-- The reader yields the header and everything that decides the dimensions. -/
theorem HevcSps.yields_nal {sps : HevcSps} {data : Nat → UInt8}
    (hdata : rawBytes data 0 sps.nal.length = sps.nal) :
    Yields nextBit (bitstreamInit data)
      (ofByte 0x42 ++ (ofByte 0x01 ++ sps.profileTierLevelBits) ++ sps.dimensionBits) := by
  have hbytes : ofBytes (0x42 :: 0x01 :: rbspBytes sps.bits) =
      (ofByte 0x42 ++ (ofByte 0x01 ++ sps.profileTierLevelBits) ++ sps.dimensionBits) ++
        (sps.rest ++ trailingBits sps.bits.length) := by
    rw [ofBytes_cons, ofBytes_cons, ofBytes_rbspBytes]
    simp only [HevcSps.bits, List.append_assoc]
  have hlen : (ofByte 0x42 ++ (ofByte 0x01 ++ sps.profileTierLevelBits) ++
      sps.dimensionBits).length ≤ 2 ^ 28 :=
    Nat.le_trans (length_append_le (length_append_le (Nat.le_refl 8)
      (length_append_le (Nat.le_refl 8) sps.length_profileTierLevelBits_le))
      sps.length_dimensionBits_le) (by decide)
  rw [sps.nal_eq] at hdata
  exact yields_escape hdata hbytes hlen

/-- How far the parser goes for the profile, tier and level when it starts at
the header. -/
theorem HevcSps.profileTierLevel_nal {sps : HevcSps} {data : Nat → UInt8}
    (hdata : rawBytes data 0 sps.nal.length = sps.nal) {fuel : Nat} (hfuel : 32 ≤ fuel) :
    hevcProfileTierLevel fuel (bitstreamInit data) = some (some (),
      advance nextBit (120 + ((if sps.mistakenFlags.1 then 88 else 0) +
        (if sps.mistakenFlags.2 then 8 else 0))) (bitstreamInit data)) := by
  obtain ⟨before, back, hbefore, -, hbits⟩ := sps.nal_bits
  have hyields := ((yields_append ..).1 (sps.yields_nal hdata)).1
  generalize sps.mistakenFlags.1 = b₀ at *
  generalize sps.mistakenFlags.2 = b₁ at *
  -- What comes after the two bits is passed over, whatever it is.
  let start := ofByte 0x42 ++ (before ++ ([b₀] ++ [b₁]))
  let n := 14 + ((if b₀ then 88 else 0) + ((if b₁ then 8 else 0) + 0))
  let more := peek nextBit n (advance nextBit start.length (bitstreamInit data))
  have hstart : Yields nextBit (bitstreamInit data) start := by
    rw [hbits] at hyields
    have hsplit : ofByte 0x42 ++ (before ++ ([b₀] ++ ([b₁] ++
        (back ++ (fieldBits sps.general_level_idc ++ sps.subLayerBits))))) =
        start ++ (back ++ (fieldBits sps.general_level_idc ++ sps.subLayerBits)) := by
      simp only [start, List.append_assoc]
    rw [hsplit, yields_append] at hyields
    exact hyields.1
  have hmore : more.length = n := length_peek nextBit n _
  have hall : Yields nextBit (bitstreamInit data)
      (ofByte 0x42 ++ (before ++ ([b₀] ++ ([b₁] ++ more)))) := by
    have := (yields_append ..).2 ⟨hstart, yields_peek nextBit n _⟩
    simpa only [start, List.append_assoc] using this
  have hlen : (ofByte 0x42 ++ (before ++ ([b₀] ++ ([b₁] ++ more)))).length =
      120 + ((if b₀ then 88 else 0) + (if b₁ then 8 else 0)) := by
    simp only [List.length_append, length_ofByte, hbefore, hmore, List.length_singleton, n]
    omega
  rw [(reads_header hbefore hmore).eq_some hall hfuel, hlen]

/-- **When the parser is in step**: starting at the header, it comes to the
elements after `profile_tier_level()` at the right place if and only if there
are no sub-layers and the two bits are zero. -/
theorem HevcSps.inStep_iff {sps : HevcSps} {data : Nat → UInt8}
    (hdata : rawBytes data 0 sps.nal.length = sps.nal) {fuel : Nat} (hfuel : 32 ≤ fuel) :
    sps.InStep data fuel ↔ sps.HeaderHarmless := by
  obtain ⟨profiles, levels, hlevels, hsub⟩ := sps.length_subLayerBits
  have hlen := sps.length_profileTierLevelBits
  have hbound := sps.length_profileTierLevelBits_le
  rw [InStep, profileTierLevel_nal hdata hfuel, HeaderHarmless, Prod.ext_iff]
  generalize sps.mistakenFlags.1 = b₀
  generalize sps.mistakenFlags.2 = b₁
  constructor
  · intro h
    obtain ⟨-, hbuf⟩ := Prod.mk.inj (Option.some.inj h)
    have hsame := advance_inj (by cases b₀ <;> cases b₁ <;> decide) (by omega) hbuf
    cases b₀ <;> cases b₁ <;> split at hsub <;> simp_all <;> omega
  · rintro ⟨hzero, rfl, rfl⟩
    rw [hlen, hsub, if_pos hzero]
    rfl

/-- **HEVC NAL units are parsed when the header does no harm**: given a NAL unit
with its header, `sps_parse_dimension_hevc` is in step with the elements if and
only if there are no sub-layers and the two bits are zero, and then it returns
true with the dimensions of the cropped picture. -/
theorem spsParseDimensionHevc_nal (u : Indeterminate) {fuel : Nat} (hfuel : 32 ≤ fuel)
    {sps : HevcSps}
    (hpos : 0 < sps.pic_width_in_luma_samples.val ∧ 0 < sps.pic_height_in_luma_samples.val)
    (hw : 1 ≤ sps.width ∧ sps.width ≤ 65535) (hh : 1 ≤ sps.height ∧ sps.height ≤ 65535)
    {data : Nat → UInt8} (hdata : rawBytes data 0 sps.nal.length = sps.nal) :
    (sps.InStep data fuel ↔ sps.HeaderHarmless) ∧
      (sps.HeaderHarmless →
        ∃ dim buf, spsParseDimensionHevc u fuel (bitstreamInit data) = some (some dim, buf) ∧
          (dim.width : Int) = sps.width ∧ (dim.height : Int) = sps.height) := by
  have hstep := HevcSps.inStep_iff hdata hfuel
  refine ⟨hstep, fun hharmless => ?_⟩
  have hin : sps.InStep data fuel := hstep.2 hharmless
  have hyields := ((yields_append ..).1 (sps.yields_nal hdata)).2
  have hlen : (ofByte 0x42 ++ (ofByte 0x01 ++ sps.profileTierLevelBits)).length =
      16 + sps.profileTierLevelBits.length := by
    rw [List.length_append, List.length_append, length_ofByte, length_ofByte]
    omega
  rw [hlen] at hyields
  have hdim := (reads_dimension u hpos).eq_some hyields hfuel
  have hrun : spsParseDimensionHevc u fuel (bitstreamInit data) =
      some (some sps.dimension, advance nextBit sps.dimensionBits.length
        (advance nextBit (16 + sps.profileTierLevelBits.length) (bitstreamInit data))) := by
    rw [spsParseDimensionHevc, bind_run hin, hdim]
  exact ⟨_, _, hrun, HevcSps.dimension_eq hw hh⟩

/-- The stream of the HEVC test, which has one layer. -/
example : (spsParseDimensionHevc .zeros 32 (bitstreamInit (dataOf
    [0x42, 0x01, 0x01, 0x21, 0x40, 0x00, 0x00, 0x03, 0x00, 0x00, 0x03, 0x00, 0x00, 0x03, 0x00,
      0x00, 0x03, 0x00, 0x7b, 0xa0, 0x03, 0xc0, 0x80, 0x11, 0x07, 0xcb, 0x96, 0xb4, 0xa4, 0x21,
      0x19, 0x2e, 0x30, 0x16, 0xa0, 0xc0, 0xc0, 0xd4, 0x82]))).map
    (·.1) = some (some ⟨1920, 1080⟩) := by decide +kernel

/-- The NAL unit of a stream with one layer is parsed. -/
theorem spsParseDimensionHevc_nal_720p : ∃ dim buf,
    spsParseDimensionHevc .zeros 32 (bitstreamInit (dataOf hevcSpsOneLayer.nal)) =
        some (some dim, buf) ∧
      (dim.width : Int) = 1280 ∧ (dim.height : Int) = 720 := by
  have hw : 1 ≤ hevcSpsOneLayer.width ∧ hevcSpsOneLayer.width ≤ 65535 := by decide
  have hh : 1 ≤ hevcSpsOneLayer.height ∧ hevcSpsOneLayer.height ≤ 65535 := by decide
  have hharmless : hevcSpsOneLayer.HeaderHarmless := ⟨rfl, rfl⟩
  exact (spsParseDimensionHevc_nal .zeros (Nat.le_refl 32) (by decide) hw hh
    (rawBytes_dataOf hevcSpsOneLayer.nal)).2 hharmless

/-- The NAL unit of a stream with two layers is not: the parser returns false. -/
theorem spsParseDimensionHevc_nal_twoLayers :
    (1 ≤ hevcSpsTwoLayers.width ∧ hevcSpsTwoLayers.width ≤ 65535) ∧
      (1 ≤ hevcSpsTwoLayers.height ∧ hevcSpsTwoLayers.height ≤ 65535) ∧
      (spsParseDimensionHevc .zeros 32 (bitstreamInit (dataOf hevcSpsTwoLayers.nal))).map
        (·.1) = some none := by
  refine ⟨by decide, by decide, ?_⟩
  decide +kernel

end CommonsC.SpsParser
