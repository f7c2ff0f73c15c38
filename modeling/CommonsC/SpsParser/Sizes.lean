import CommonsC.SpsParser.Parser

/-!
# CommonsC.SpsParser.Sizes

When the dimensions that the parsers report are the exact ones.

Both parsers compute with `uint32_t` and store `uint16_t`.  A `PictureSize`
holds the same elements as exact numbers: the coded size and what is cropped
from it.  The stored length is always right modulo 2^16, so it is the exact one
precisely if that lies in 1, …, 65535 (`lengthExact_iff`).
-/

namespace CommonsC.SpsParser

open Parser

/-! ## What the parsers know of the picture -/

/-- What `sps_parse_dimension_hevc` knows of the picture. -/
structure HevcPicture where
  chroma_format_idc : Nat
  pic_width_in_luma_samples : Nat
  pic_height_in_luma_samples : Nat
  conformance_window_flag : Bool
  crop : CropOffsets

/-- The elements that `sps_parse_dimension_hevc` reads after the profile, tier
and level. -/
def hevcPicture (u : Indeterminate) : Parser Bitstream HevcPicture := do
  -- id
  let _ ← bitstreamReadUeg u
  let chroma_format_idc ← bitstreamReadUeg u
  -- separate_colour_plane_flag
  optionally (chroma_format_idc == 3) (void (bitstreamSkipBits 1))
  let pic_width_in_luma_samples ← bitstreamReadUeg u
  let pic_height_in_luma_samples ← bitstreamReadUeg u
  if pic_width_in_luma_samples = 0 ∨ pic_height_in_luma_samples = 0 then fail
  else do
    let conformance_window_flag ← unchecked false bitstreamRead1
    let crop ← readCropOffsets u conformance_window_flag
    pure { chroma_format_idc, pic_width_in_luma_samples, pic_height_in_luma_samples,
           conformance_window_flag, crop }

/-- The end of `sps_parse_dimension_hevc`; `chroma_format_idc` is not checked. -/
def HevcPicture.dimension (u : Indeterminate) (pic : HevcPicture) : SpsDimension :=
  if pic.conformance_window_flag then
    cropped pic.pic_width_in_luma_samples pic.pic_height_in_luma_samples pic.crop
      (hevcSubwc.getD pic.chroma_format_idc (u.past_subwc pic.chroma_format_idc))
      (hevcSubhc.getD pic.chroma_format_idc (u.past_subhc pic.chroma_format_idc))
  else ⟨pic.pic_width_in_luma_samples % 2 ^ 16, pic.pic_height_in_luma_samples % 2 ^ 16⟩

/-- Reading the elements and computing the dimension can be told apart. -/
theorem hevcDimension_eq (u : Indeterminate) :
    hevcDimension u = (hevcPicture u >>= fun pic => pure (pic.dimension u)) := by
  unfold hevcDimension hevcPicture
  simp only [bind_assoc]
  refine congrArg _ (funext fun _ => congrArg _ (funext fun idc => congrArg _ (funext fun _ =>
    congrArg _ (funext fun w => congrArg _ (funext fun h => ?_)))))
  split
  · rfl
  · simp only [bind_assoc, pure_bind]
    refine congrArg _ (funext fun flag => congrArg _ (funext fun crop => ?_))
    cases flag <;> rfl

/-- The elements of an H.264 stream for which `sps_parse_dimension_h264` has
come as far as to the VUI. -/
def DecodedH264 (u : Indeterminate) (fuel : Nat) (data : Nat → UInt8) (pic : H264Picture) : Prop :=
  ∃ buf, h264Picture u fuel (bitstreamInit data) = some (some pic, buf)

/-- The elements of an HEVC stream for which `sps_parse_dimension_hevc` has come
as far as to the conformance window. -/
def DecodedHevc (u : Indeterminate) (fuel : Nat) (data : Nat → UInt8) (pic : HevcPicture) : Prop :=
  ∃ buf, (hevcProfileTierLevel >>= fun _ => hevcPicture u) fuel (bitstreamInit data) =
    some (some pic, buf)

/-- The result for H.264 comes from the elements. -/
theorem decodedH264_of_eq {u : Indeterminate} {fuel : Nat} {data : Nat → UInt8}
    {dim : SpsDimension} {buf : Bitstream}
    (h : spsParseDimensionH264 u fuel (bitstreamInit data) = some (some dim, buf)) :
    ∃ pic, DecodedH264 u fuel data pic ∧ dim = pic.dimension := by
  rw [spsParseDimensionH264] at h
  obtain ⟨pic, s, hpic, hrest⟩ := bind_eq_some h
  obtain ⟨_, _, _, hvui⟩ := bind_eq_some hrest
  obtain ⟨_, _, _, hpure⟩ := bind_eq_some hvui
  exact ⟨pic, ⟨s, hpic⟩, (eq_of_pure_run hpure).symm⟩

/-- The result for HEVC comes from the elements. -/
theorem decodedHevc_of_eq {u : Indeterminate} {fuel : Nat} {data : Nat → UInt8}
    {dim : SpsDimension} {buf : Bitstream}
    (h : spsParseDimensionHevc u fuel (bitstreamInit data) = some (some dim, buf)) :
    ∃ pic, DecodedHevc u fuel data pic ∧ dim = pic.dimension u := by
  rw [spsParseDimensionHevc, hevcDimension_eq, ← bind_assoc] at h
  obtain ⟨pic, s, hpic, hpure⟩ := bind_eq_some h
  exact ⟨pic, ⟨s, hpic⟩, (eq_of_pure_run hpure).symm⟩

/-! ## Exact lengths -/

/-- The stored length is the coded one less the cropped samples, without any
modular reduction; it is at least 1 and at most the coded one. -/
def LengthExact (stored coded cropping : Nat) : Prop :=
  (stored : Int) = (coded : Int) - cropping ∧ 1 ≤ stored ∧ stored ≤ coded

/-- Something is left after the cropping, and it fits 16 bits. -/
def LengthFits (coded cropping : Nat) : Prop := cropping < coded ∧ coded - cropping ≤ 65535

/-- A stored length that is right modulo 2^16. -/
theorem lengthExact_iff {stored coded cropping : Nat} (hlt : stored < 2 ^ 16)
    (hmod : (stored : Int) = ((coded : Int) - cropping) % 2 ^ 16) :
    LengthExact stored coded cropping ↔ LengthFits coded cropping := by
  unfold LengthExact LengthFits
  omega

theorem sub32_mod (coded cropping : Nat) :
    ((sub32 (coded % 2 ^ 32) cropping % 2 ^ 16 : Nat) : Int) =
      ((coded : Int) - cropping) % 2 ^ 16 := by
  unfold sub32
  omega

/-- The exact size of a picture; `cropping` is what is cropped from the width
and the height, and `none` if the parser's tables have no unit for it. -/
structure PictureSize where
  width : Nat
  height : Nat
  cropping : Option (Nat × Nat)
  deriving DecidableEq

/-- The stored dimensions are the exact ones. -/
def PictureSize.Exact (size : PictureSize) (dim : SpsDimension) : Prop :=
  ∃ x y, size.cropping = some (x, y) ∧ LengthExact dim.width size.width x ∧
    LengthExact dim.height size.height y

/-- There is a unit to crop by, the cropping leaves at least one sample each
way, and what it leaves fits 16 bits. -/
def PictureSize.Fits (size : PictureSize) : Prop :=
  ∃ x y, size.cropping = some (x, y) ∧ LengthFits size.width x ∧ LengthFits size.height y

/-- The dimension is right modulo 2^16, where there is a unit to crop by. -/
def PictureSize.Congruent (size : PictureSize) (dim : SpsDimension) : Prop :=
  dim.width < 2 ^ 16 ∧ dim.height < 2 ^ 16 ∧ ∀ x y, size.cropping = some (x, y) →
    (dim.width : Int) = ((size.width : Int) - x) % 2 ^ 16 ∧
      (dim.height : Int) = ((size.height : Int) - y) % 2 ^ 16

theorem PictureSize.exact_iff {size : PictureSize} {dim : SpsDimension} (h : size.Congruent dim) :
    size.Exact dim ↔ size.Fits := by
  obtain ⟨hw, hh, hmod⟩ := h
  constructor
  · rintro ⟨x, y, hcrop, hx, hy⟩
    obtain ⟨hwidth, hheight⟩ := hmod x y hcrop
    exact ⟨x, y, hcrop, (lengthExact_iff hw hwidth).1 hx, (lengthExact_iff hh hheight).1 hy⟩
  · rintro ⟨x, y, hcrop, hx, hy⟩
    obtain ⟨hwidth, hheight⟩ := hmod x y hcrop
    exact ⟨x, y, hcrop, (lengthExact_iff hw hwidth).2 hx, (lengthExact_iff hh hheight).2 hy⟩

/-! ## The two parsers -/

/-- The exact size of an H.264 picture. -/
def H264Picture.size (pic : H264Picture) : PictureSize where
  width := (pic.pic_width_in_mbs_minus1 + 1) * 16
  height := (pic.pic_height_in_map_units_minus1 + 1) * (16 * (2 - pic.frame_mbs_only_flag.toNat))
  cropping :=
    if pic.frame_cropping_flag then do
      let crop_unit_x ← h264Subwc[pic.chroma_format_idc]?
      let subhc ← h264Subhc[pic.chroma_format_idc]?
      some ((pic.crop.left + pic.crop.right) * crop_unit_x,
        (pic.crop.top + pic.crop.bottom) * (subhc * (2 - pic.frame_mbs_only_flag.toNat)))
    else some (0, 0)

/-- The exact size of an HEVC picture. -/
def HevcPicture.size (pic : HevcPicture) : PictureSize where
  width := pic.pic_width_in_luma_samples
  height := pic.pic_height_in_luma_samples
  cropping :=
    if pic.conformance_window_flag then do
      let crop_unit_x ← hevcSubwc[pic.chroma_format_idc]?
      let crop_unit_y ← hevcSubhc[pic.chroma_format_idc]?
      some ((pic.crop.left + pic.crop.right) * crop_unit_x,
        (pic.crop.top + pic.crop.bottom) * crop_unit_y)
    else some (0, 0)

theorem H264Picture.dimension_congruent (pic : H264Picture) :
    pic.size.Congruent pic.dimension := by
  have hlt : pic.dimension.width < 2 ^ 16 ∧ pic.dimension.height < 2 ^ 16 := by
    unfold H264Picture.dimension cropped
    dsimp only
    split <;> exact ⟨Nat.mod_lt _ (by decide), Nat.mod_lt _ (by decide)⟩
  refine ⟨hlt.1, hlt.2, fun x y hcrop => ?_⟩
  unfold H264Picture.size at hcrop ⊢
  unfold H264Picture.dimension
  dsimp only at hcrop ⊢
  cases hflag : pic.frame_cropping_flag with
  | false =>
      rw [hflag] at hcrop
      cases hcrop
      simp only [Bool.false_eq_true, if_false]
      omega
  | true =>
      rw [hflag] at hcrop
      obtain ⟨subwc, hsubwc, hcrop⟩ := Option.bind_eq_some_iff.1 hcrop
      obtain ⟨subhc, hsubhc, hcrop⟩ := Option.bind_eq_some_iff.1 hcrop
      cases hcrop
      rw [if_pos rfl, cropped, List.getD_eq_getElem?_getD, hsubwc, List.getD_eq_getElem?_getD,
        hsubhc, Option.getD_some, Option.getD_some]
      exact ⟨sub32_mod _ _, sub32_mod _ _⟩

theorem HevcPicture.dimension_congruent (u : Indeterminate) (pic : HevcPicture)
    (hw : pic.pic_width_in_luma_samples < 2 ^ 32) (hh : pic.pic_height_in_luma_samples < 2 ^ 32) :
    pic.size.Congruent (pic.dimension u) := by
  have hlt : (pic.dimension u).width < 2 ^ 16 ∧ (pic.dimension u).height < 2 ^ 16 := by
    unfold HevcPicture.dimension cropped
    split <;> exact ⟨Nat.mod_lt _ (by decide), Nat.mod_lt _ (by decide)⟩
  refine ⟨hlt.1, hlt.2, fun x y hcrop => ?_⟩
  unfold HevcPicture.size at hcrop ⊢
  unfold HevcPicture.dimension
  dsimp only at hcrop ⊢
  cases hflag : pic.conformance_window_flag with
  | false =>
      rw [hflag] at hcrop
      cases hcrop
      simp only [Bool.false_eq_true, if_false]
      omega
  | true =>
      rw [hflag] at hcrop
      obtain ⟨subwc, hsubwc, hcrop⟩ := Option.bind_eq_some_iff.1 hcrop
      obtain ⟨subhc, hsubhc, hcrop⟩ := Option.bind_eq_some_iff.1 hcrop
      cases hcrop
      rw [if_pos rfl, cropped, List.getD_eq_getElem?_getD, hsubwc, List.getD_eq_getElem?_getD,
        hsubhc, Option.getD_some, Option.getD_some]
      have hwidth := sub32_mod pic.pic_width_in_luma_samples
        ((pic.crop.left + pic.crop.right) * subwc)
      have hheight := sub32_mod pic.pic_height_in_luma_samples
        ((pic.crop.top + pic.crop.bottom) * subhc)
      rw [Nat.mod_eq_of_lt hw] at hwidth
      rw [Nat.mod_eq_of_lt hh] at hheight
      exact ⟨hwidth, hheight⟩

/-- A value that `bitstream_read_ueg` returns is a `uint32_t`. -/
theorem readUeg_lt (u : Indeterminate) : Ensures (· < 2 ^ 32) (bitstreamReadUeg u) := by
  refine .after fun bitcount => ?_
  split
  · exact .after fun tmp => .pure (Nat.mod_lt _ (by decide))
  · exact .pure (by decide)

theorem hevcPicture_lt (u : Indeterminate) : Ensures (fun pic =>
    pic.pic_width_in_luma_samples < 2 ^ 32 ∧ pic.pic_height_in_luma_samples < 2 ^ 32)
    (hevcPicture u) := by
  refine .after fun _ => .after fun _ => .after fun _ => ?_
  refine (readUeg_lt u).bind fun w hw => (readUeg_lt u).bind fun l hl => ?_
  split
  · exact .fail
  · exact .after fun _ => .after fun _ => .pure ⟨hw, hl⟩

theorem DecodedHevc.lt {u : Indeterminate} {fuel : Nat} {data : Nat → UInt8} {pic : HevcPicture}
    (h : DecodedHevc u fuel data pic) :
    pic.pic_width_in_luma_samples < 2 ^ 32 ∧ pic.pic_height_in_luma_samples < 2 ^ 32 := by
  obtain ⟨_, h⟩ := h
  exact Ensures.after (fun _ => hevcPicture_lt u) _ _ _ _ h

/-- **Reported dimensions**: whenever a parser returns true, the dimensions are
the exact ones precisely if these fit. -/
theorem spsParseDimension_exact (u : Indeterminate) (fuel : Nat) (data : Nat → UInt8)
    (dim : SpsDimension) (buf : Bitstream) :
    (spsParseDimensionH264 u fuel (bitstreamInit data) = some (some dim, buf) →
      ∃ pic, DecodedH264 u fuel data pic ∧ (pic.size.Exact dim ↔ pic.size.Fits)) ∧
    (spsParseDimensionHevc u fuel (bitstreamInit data) = some (some dim, buf) →
      ∃ pic, DecodedHevc u fuel data pic ∧ (pic.size.Exact dim ↔ pic.size.Fits)) := by
  constructor
  · intro h
    obtain ⟨pic, hpic, rfl⟩ := decodedH264_of_eq h
    exact ⟨pic, hpic, PictureSize.exact_iff pic.dimension_congruent⟩
  · intro h
    obtain ⟨pic, hpic, rfl⟩ := decodedHevc_of_eq h
    exact ⟨pic, hpic, PictureSize.exact_iff (pic.dimension_congruent u hpic.lt.1 hpic.lt.2)⟩

/-- An H.264 stream of 4096 by 1 macroblocks. -/
def h264Wide : Nat → UInt8 := dataOf [0x67, 0x42, 0x00, 0x1f, 0xda, 0x00, 0x04, 0x00, 0x38]

/-- An H.264 stream of one macroblock, and an HEVC stream of 16x16 samples. -/
def h264Small : Nat → UInt8 := dataOf [0x67, 0x42, 0x00, 0x1f, 0xda, 0x78]

def hevcSmall : Nat → UInt8 := dataOf [0x01, 0x01, 0xff, 0xff, 0xff, 0xff, 0xff, 0xff, 0xff, 0xff,
  0xff, 0xff, 0x5d, 0xa0, 0x88, 0x44]

/-- A run of which only the result matters. -/
theorem exists_of_map_fst {α : Type} {x : Option (Option α × Bitstream)} {r : Option α}
    (h : x.map (·.1) = some r) : ∃ buf, x = some (r, buf) := by
  obtain ⟨⟨_, buf⟩, hx, rfl⟩ := Option.map_eq_some_iff.1 h
  exact ⟨buf, hx⟩

/-- The width of 65536 samples is reported as 0. -/
theorem spsParseDimensionH264_wraps : ∃ buf pic,
    spsParseDimensionH264 .zeros 32 (bitstreamInit h264Wide) = some (some ⟨0, 16⟩, buf) ∧
      DecodedH264 .zeros 32 h264Wide pic ∧ ¬pic.size.Exact ⟨0, 16⟩ := by
  have hrun : (spsParseDimensionH264 .zeros 32 (bitstreamInit h264Wide)).map (·.1) =
      some (some ⟨0, 16⟩) := by decide +kernel
  obtain ⟨buf, hbuf⟩ := exists_of_map_fst hrun
  obtain ⟨pic, hpic, -⟩ := decodedH264_of_eq hbuf
  refine ⟨buf, pic, hbuf, hpic, ?_⟩
  rintro ⟨x, y, -, ⟨-, hpos, -⟩, -⟩
  exact absurd hpos (by decide)

/-- The sizes in the small streams are exact. -/
theorem spsParseDimension_exact_small :
    (∃ pic, DecodedH264 .zeros 32 h264Small pic ∧ pic.size.Exact ⟨16, 16⟩) ∧
      ∃ pic, DecodedHevc .zeros 32 hevcSmall pic ∧ pic.size.Exact ⟨16, 16⟩ := by
  have hrun : (spsParseDimensionH264 .zeros 32 (bitstreamInit h264Small)).map (·.1) =
      some (some ⟨16, 16⟩) := by decide +kernel
  have hrun' : (spsParseDimensionHevc .zeros 32 (bitstreamInit hevcSmall)).map (·.1) =
      some (some ⟨16, 16⟩) := by decide +kernel
  have hpicture : (h264Picture .zeros 32 (bitstreamInit h264Small)).map (·.1.map (·.size)) =
      some (some ⟨16, 16, some (0, 0)⟩) := by decide +kernel
  have hpicture' : ((hevcProfileTierLevel >>= fun _ => hevcPicture .zeros) 32
      (bitstreamInit hevcSmall)).map (·.1.map (·.size)) = some (some ⟨16, 16, some (0, 0)⟩) := by
    decide +kernel
  have hfits : (⟨16, 16, some (0, 0)⟩ : PictureSize).Fits :=
    ⟨0, 0, rfl, ⟨by decide, by decide⟩, by decide, by decide⟩
  obtain ⟨buf, hbuf⟩ := exists_of_map_fst hrun
  obtain ⟨buf', hbuf'⟩ := exists_of_map_fst hrun'
  obtain ⟨pic, ⟨rest, hpic⟩, hiff⟩ := (spsParseDimension_exact .zeros 32 h264Small _ buf).1 hbuf
  obtain ⟨pic', ⟨rest', hpic'⟩, hiff'⟩ :=
    (spsParseDimension_exact .zeros 32 hevcSmall _ buf').2 hbuf'
  rw [hpic] at hpicture
  rw [hpic'] at hpicture'
  have hsize : pic.size = ⟨16, 16, some (0, 0)⟩ := Option.some.inj (Option.some.inj hpicture)
  have hsize' : pic'.size = ⟨16, 16, some (0, 0)⟩ := Option.some.inj (Option.some.inj hpicture')
  exact ⟨⟨pic, ⟨rest, hpic⟩, hiff.2 (hsize ▸ hfits)⟩,
    pic', ⟨rest', hpic'⟩, hiff'.2 (hsize' ▸ hfits)⟩

end CommonsC.SpsParser
