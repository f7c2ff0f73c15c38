import CommonsC.SpsParser.Parser
import CommonsC.SpsParser.Syntax

/-!
# CommonsC.SpsParser.H264

`sps_parse_dimension_h264` on the encoding of a sequence parameter set: one
lemma for each part of the syntax says that the parser's part reads it, and the
dimensions follow by arithmetic modulo 2^32.  What the parser makes of the VUI
only decides whether it returns true.
-/

namespace CommonsC.SpsParser

open Bits Parser Emulation

/-! ## Elements -/

theorem reads_ueBits (u : Indeterminate) (v : Ue) : Reads (bitstreamReadUeg u) v.bits v.val :=
  reads_ue u v.property

theorem reads_seBits (u : Indeterminate) (s : Se) :
    Reads (bitstreamReadEg u) s.bits (egValue (seCodeNum s.val)) :=
  reads_se u s.property

theorem reads_field {n : Nat} (h : n ≤ 32) (v : BitVec n) :
    Reads (bitstreamReadBits n) (fieldBits v) v.toNat :=
  reads_ofNat h v.isLt

theorem reads_skipField {n : Nat} (v : BitVec n) (h : n ≤ longestSkip) :
    Reads (bitstreamSkipBits n) (fieldBits v) () := reads_skip (length_ofNat n v.toNat) h

theorem reads_skipFlag (b : Bool) : Reads (bitstreamSkipBits 1) [b] () := reads_skip rfl (by decide)

/-- A presence flag, the part it announces, and what follows. -/
theorem reads_option {α β : Type} {enc : α → List Bool} {p : Parser Bitstream Unit}
    {q : Bool → Parser Bitstream β} {bits : List Bool} {b : β} (o : Option α)
    (h : ∀ a, o = some a → Reads p (enc a) ()) (hq : Reads (q o.isSome) bits b) :
    Reads (do
        let present ← unchecked false bitstreamRead1
        optionally present p
        q present)
      (optionBits enc o ++ bits) b := by
  cases o with
  | none => exact ((reads_flag false).unchecked false).bind ((Parses.pure ()).bind hq)
  | some a =>
      rw [optionBits, ← List.singleton_append, List.append_assoc]
      exact ((reads_flag true).unchecked false).bind ((h a rfl).bind hq)

/-- The offsets of a cropping rectangle, and 0 where there is none. -/
def cropOffsets (o : Option CropWindow) : CropOffsets :=
  o.elim ⟨0, 0, 0, 0⟩ fun c => ⟨c.left.val, c.right.val, c.top.val, c.bottom.val⟩

theorem reads_cropOffsets (u : Indeterminate) (crop : CropWindow) :
    Reads (readCropOffsets u true) crop.bits (cropOffsets (some crop)) :=
  ((reads_ueBits u crop.left).unchecked 0).bind <|
    ((reads_ueBits u crop.right).unchecked 0).bind <|
      ((reads_ueBits u crop.top).unchecked 0).bind <|
        ((reads_ueBits u crop.bottom).unchecked 0).bind_pure rfl

/-! ## Scaling lists -/

/-- The step of a scaling list: the error of `egValue` is a multiple of 256. -/
theorem nextScale_eq (lastScale : Nat) (d : Se) :
    (lastScale + (egValue (seCodeNum d.val) % 2 ^ 32).toNat + 256) % 2 ^ 32 % 256 =
      ((lastScale + d.val + 256) % 256).toNat := by
  have := egValue_seCodeNum d.property
  omega

theorem reads_scalingLoop (u : Indeterminate) (deltas : List Se) (lastScale nextScale : Nat) :
    Reads (scalingLoop u deltas.length lastScale nextScale)
      (scalingListBits lastScale nextScale deltas) () := by
  induction deltas generalizing lastScale nextScale with
  | nil => exact Parses.pure ()
  | cons d deltas ih =>
      rw [List.length_cons, scalingLoop, scalingListBits]
      by_cases hnext : nextScale ≠ 0
      · have hread : Reads (readNextScale u lastScale nextScale) d.bits
            ((lastScale + d.val + 256) % 256).toNat := by
          rw [readNextScale, if_pos hnext, ← nextScale_eq]
          exact (reads_seBits u d).bind_pure rfl
        rw [if_pos hnext]
        exact hread.bind (ih _ _)
      · have hread : Reads (readNextScale u lastScale nextScale) [] nextScale := by
          rw [readNextScale, if_neg hnext]
          exact Parses.pure nextScale
        have hlast : (if nextScale = 0 then lastScale else nextScale) = lastScale :=
          if_pos (not_not.1 hnext)
        rw [if_neg hnext]
        refine hread.bind ?_
        rw [hlast]
        exact ih lastScale nextScale

theorem reads_scalingList (u : Indeterminate) {n : Nat} (l : List.Vector Se n) :
    Reads (bitstreamSkipScalingList u n) (scalingListBits 8 8 l.toList) () := by
  have := reads_scalingLoop u l.toList 8 8
  rwa [List.Vector.toList_length] at this

/-- Lists of one length, followed by others. -/
theorem reads_scalingLists (u : Indeterminate) {size n i : Nat}
    (lists : List (Option (List.Vector Se size)))
    (hsize : ∀ j, i ≤ j → j < i + lists.length → (if j < 6 then 16 else 64) = size)
    {bits : List Bool} (hrest : Reads (scalingMatrixLoop u n (i + lists.length)) bits ()) :
    Reads (scalingMatrixLoop u (lists.length + n) i) (scalingLists lists ++ bits) () := by
  induction lists generalizing i with
  | nil =>
      rw [List.length_nil, Nat.zero_add]
      exact hrest
  | cons l lists ih =>
      rw [List.length_cons] at hsize hrest
      have hlists : Reads (scalingMatrixLoop u (lists.length + n) (i + 1))
          (scalingLists lists ++ bits) () := by
        refine ih (fun j hj hlt => hsize j (by omega) (by omega)) ?_
        rwa [Nat.add_assoc, Nat.add_comm 1 lists.length]
      have hsplit : scalingLists (l :: lists) ++ bits =
          optionBits (fun l => scalingListBits 8 8 l.toList) l ++ (scalingLists lists ++ bits) := by
        simp [scalingLists]
      rw [hsplit, List.length_cons, Nat.add_right_comm, scalingMatrixLoop,
        hsize i (Nat.le_refl i) (by omega)]
      exact reads_option l (fun a _ => (reads_scalingList u a).void) hlists

theorem reads_scalingMatrix (u : Indeterminate) {idc : Nat} (m : ScalingMatrix idc) :
    Reads (scalingMatrixLoop u (if idc ≠ 3 then 8 else 12) 0) m.bits () := by
  have h4x4 : m.lists4x4.toList.length = 6 := m.lists4x4.toList_length
  have h8x8 : m.lists8x8.toList.length = if idc = 3 then 6 else 2 := m.lists8x8.toList_length
  have hcount : (if idc ≠ 3 then 8 else 12) =
      m.lists4x4.toList.length + (m.lists8x8.toList.length + 0) := by
    rw [h4x4, h8x8]
    by_cases hidc : idc = 3 <;> simp [hidc]
  have hempty : Reads (scalingMatrixLoop u 0 (0 + 6 + m.lists8x8.toList.length)) [] () :=
    Parses.pure ()
  rw [hcount, ScalingMatrix.bits, ← List.append_nil (scalingLists m.lists8x8.toList)]
  refine reads_scalingLists u _ (fun j _ hj => if_pos (by omega)) ?_
  rw [h4x4]
  exact reads_scalingLists u _ (fun j hj _ => if_neg (by omega)) hempty

/-! ## The parts of the parameter set -/

theorem reads_chromaFormat (u : Indeterminate) (c : ChromaFormat) :
    Reads (readChromaFormat u) c.bits c.chroma_format_idc.val := by
  have hidc := c.chroma_format_idc.isLt
  refine (reads_ue u (by omega)).bind ?_
  rw [if_neg (by omega)]
  refine (Parses.optionally _ fun _ => (reads_skipFlag _).void).bind ?_
  refine (reads_ueBits u _).void.bind ?_
  refine (reads_ueBits u _).void.bind ?_
  refine (reads_skipFlag _).void.bind ?_
  have hmatrix := reads_option (q := fun _ => pure c.chroma_format_idc.val) c.scaling_matrix
    (fun m _ => reads_scalingMatrix u m) (Parses.pure c.chroma_format_idc.val)
  rwa [List.append_nil] at hmatrix

theorem reads_picOrderCnt (u : Indeterminate) (p : PicOrderCnt) :
    Reads (h264PicOrderCnt u) p.bits () := by
  cases p with
  | type0 log2_max =>
      exact ((reads_ue u (by decide)).unchecked _).bind (reads_ueBits u log2_max).void
  | type1 always_zero non_ref top_to_bottom ref_frame h =>
      refine ((reads_ue u (by decide)).unchecked _).bind ?_
      refine (reads_skipFlag always_zero).void.bind ?_
      refine (reads_seBits u non_ref).void.bind ?_
      refine (reads_seBits u top_to_bottom).void.bind ?_
      refine ((reads_ue u (by omega)).unchecked _).bind ?_
      exact Parses.times ref_frame fun s _ => (reads_seBits u s).void
  | type2 => exact ((reads_ue u (by decide)).unchecked _).bind_pure rfl

theorem hasChromaFormat_eq (sps : H264Sps) :
    hasChromaFormat sps.profile_idc.toNat = sps.hasChroma := by
  simp only [hasChromaFormat, H264Sps.hasChroma, chromaProfiles, List.contains_cons,
    List.contains_nil, Bool.or_false, Bool.or_assoc]

/-- The optional elements of the profiles with a chroma format. -/
theorem reads_chroma (u : Indeterminate) (sps : H264Sps) :
    Reads (h264ChromaFormat u sps.profile_idc.toNat)
      (if sps.hasChroma then sps.chroma.bits else []) sps.chromaFormatIdc := by
  rw [h264ChromaFormat, hasChromaFormat_eq, H264Sps.chromaFormatIdc]
  cases sps.hasChroma with
  | false => exact Parses.pure 1
  | true => exact reads_chromaFormat u sps.chroma

/-- The cropping flag, the offsets and the flag once more, for the result. -/
theorem reads_frameCropping {β : Type} (u : Indeterminate) (o : Option CropWindow)
    {f : Bool → CropOffsets → Parser Bitstream β} {b : β}
    (hf : f o.isSome (cropOffsets o) = pure b) :
    Reads (do
        let present ← unchecked false bitstreamRead1
        let crop ← readCropOffsets u present
        f present crop)
      (optionBits CropWindow.bits o) b := by
  cases o with
  | none => exact ((reads_flag false).unchecked false).bind_pure hf
  | some crop =>
      rw [optionBits, ← List.singleton_append]
      exact ((reads_flag true).unchecked false).bind ((reads_cropOffsets u crop).bind_pure hf)

theorem length_headerBits (sps : H264Sps) : sps.headerBits.length = 8 := by
  simp [H264Sps.headerBits, fieldBits]

/-- What the parser knows after the part before the VUI. -/
def H264Sps.picture (sps : H264Sps) : H264Picture where
  chroma_format_idc := sps.chromaFormatIdc
  pic_width_in_mbs_minus1 := sps.pic_width_in_mbs_minus1.val
  pic_height_in_map_units_minus1 := sps.pic_height_in_map_units_minus1.val
  frame_mbs_only_flag := sps.frame_mbs_only_flag
  frame_cropping_flag := sps.frame_cropping.isSome
  crop := cropOffsets sps.frame_cropping

/-- The parser reads everything up to the VUI. -/
theorem reads_picture (u : Indeterminate) (sps : H264Sps) :
    Reads (h264Picture u) (sps.headerBits ++ sps.pictureBits) sps.picture := by
  have hprofile : Reads bitstreamRead8 (fieldBits sps.profile_idc) sps.profile_idc.toNat :=
    reads_field (by decide) sps.profile_idc
  have hreserved : Reads (bitstreamSkipBits 2) [false, false] () := reads_skip rfl (by decide)
  unfold h264Picture H264Sps.pictureBits
  refine (reads_skip (length_headerBits sps) (by decide)).void.bind ?_
  refine (hprofile.unchecked 0).bind ?_
  refine (reads_skipField sps.constraint_set_flags (by decide)).void.bind ?_
  refine hreserved.bind ?_
  refine (reads_skipField sps.level_idc (by decide)).void.bind ?_
  refine (reads_ueBits u sps.seq_parameter_set_id).void.bind ?_
  refine (reads_chroma u sps).bind ?_
  refine (reads_ueBits u sps.log2_max_frame_num_minus4).void.bind ?_
  refine (reads_picOrderCnt u sps.pic_order_cnt).bind ?_
  refine (reads_ueBits u sps.max_num_ref_frames).void.bind ?_
  refine (reads_skipFlag _).void.bind ?_
  refine (reads_ueBits u sps.pic_width_in_mbs_minus1).bind ?_
  refine (reads_ueBits u sps.pic_height_in_map_units_minus1).bind ?_
  refine ((reads_flag sps.frame_mbs_only_flag).unchecked false).bind ?_
  refine (Parses.optionally _ fun _ => (reads_skipFlag _).void).bind ?_
  refine (reads_skipFlag _).void.bind ?_
  exact reads_frameCropping u sps.frame_cropping rfl

/-! ## Lengths -/

theorem Ue.length_bits_le (v : Ue) : v.bits.length ≤ 63 := length_ue_le v.property

theorem Se.length_bits_le (s : Se) : s.bits.length ≤ 63 := by
  refine length_ue_le ?_
  obtain ⟨hlow, hhigh⟩ := s.property
  unfold seCodeNum
  split <;> omega

@[simp] theorem length_fieldBits {n : Nat} (v : BitVec n) : (fieldBits v).length = n :=
  length_ofNat n v.toNat

theorem length_flatMap_le {α : Type} {enc : α → List Bool} {k : Nat} {xs : List α}
    (h : ∀ x ∈ xs, (enc x).length ≤ k) : (xs.flatMap enc).length ≤ k * xs.length := by
  induction xs with
  | nil => exact Nat.zero_le _
  | cons x xs ih =>
      have hx := h x (by simp)
      have hxs := ih fun y hy => h y (List.mem_cons_of_mem x hy)
      rw [List.flatMap_cons, List.length_append, List.length_cons, Nat.mul_succ]
      omega

theorem length_optionBits_le {α : Type} {enc : α → List Bool} {k : Nat} {o : Option α}
    (h : ∀ a, o = some a → (enc a).length ≤ k) : (optionBits enc o).length ≤ k + 1 := by
  cases o with
  | none => simp [optionBits]
  | some a => simpa [optionBits] using h a rfl

theorem length_scalingListBits_le (deltas : List Se) (lastScale nextScale : Nat) :
    (scalingListBits lastScale nextScale deltas).length ≤ 63 * deltas.length := by
  induction deltas generalizing lastScale nextScale with
  | nil => simp [scalingListBits]
  | cons d deltas ih =>
      have hd := d.length_bits_le
      rw [scalingListBits, List.length_cons]
      split
      · have := ih (if ((lastScale + d.val + 256) % 256).toNat = 0 then lastScale
          else ((lastScale + d.val + 256) % 256).toNat) ((lastScale + d.val + 256) % 256).toNat
        rw [List.length_append]
        omega
      · have := ih lastScale nextScale
        omega

theorem length_scalingLists_le {n : Nat} (lists : List (Option (List.Vector Se n))) :
    (scalingLists lists).length ≤ (63 * n + 1) * lists.length := by
  refine length_flatMap_le fun l _ => length_optionBits_le fun v _ => ?_
  have := length_scalingListBits_le v.toList 8 8
  rwa [List.Vector.toList_length] at this

theorem ChromaFormat.length_bits_le (c : ChromaFormat) : c.bits.length ≤ 2 ^ 16 := by
  have hidc : (ue c.chroma_format_idc.val).length ≤ 63 := length_ue_le (by omega)
  have hmatrix : (optionBits ScalingMatrix.bits c.scaling_matrix).length ≤ 30264 + 1 := by
    refine length_optionBits_le fun m _ => ?_
    have h4x4 := length_scalingLists_le m.lists4x4.toList
    have h8x8 := length_scalingLists_le m.lists8x8.toList
    rw [List.Vector.toList_length] at h4x4 h8x8
    rw [ScalingMatrix.bits, List.length_append]
    split at h8x8 <;> omega
  have hluma := c.bit_depth_luma_minus8.length_bits_le
  have hchroma := c.bit_depth_chroma_minus8.length_bits_le
  unfold bits
  simp only [List.length_append, List.length_singleton]
  split <;> simp only [List.length_singleton, List.length_nil] <;> omega

theorem PicOrderCnt.length_bits_le (p : PicOrderCnt) : p.bits.length ≤ 2 ^ 16 := by
  cases p with
  | type0 log2_max =>
      have htype : (ue 0).length ≤ 63 := length_ue_le (by decide)
      have := log2_max.length_bits_le
      rw [bits, List.length_append]
      omega
  | type1 always_zero non_ref top_to_bottom ref_frame h =>
      have htype : (ue 1).length ≤ 63 := length_ue_le (by decide)
      have hnon := non_ref.length_bits_le
      have htop := top_to_bottom.length_bits_le
      have hnum : (ue ref_frame.length).length ≤ 63 := length_ue_le (by omega)
      have href := length_flatMap_le fun s (_ : s ∈ ref_frame) => s.length_bits_le
      simp only [bits, List.length_append, List.length_singleton]
      omega
  | type2 => exact Nat.le_trans (length_ue_le (by decide)) (by decide)

theorem length_append_le {as bs : List Bool} {m n : Nat} (ha : as.length ≤ m)
    (hb : bs.length ≤ n) : (as ++ bs).length ≤ m + n := by
  rw [List.length_append]
  exact Nat.add_le_add ha hb

theorem CropWindow.length_bits_le (crop : CropWindow) : crop.bits.length ≤ 252 :=
  length_append_le crop.left.length_bits_le <| length_append_le crop.right.length_bits_le <|
    length_append_le crop.top.length_bits_le crop.bottom.length_bits_le

/-- Everything the parser reads for the dimensions is within its reach. -/
theorem H264Sps.length_pictureBits_le (sps : H264Sps) : sps.pictureBits.length ≤ 2 ^ 18 := by
  have hchroma : (if sps.hasChroma then sps.chroma.bits else []).length ≤ 2 ^ 16 := by
    split
    · exact sps.chroma.length_bits_le
    · exact Nat.zero_le _
  have hfield : (if !sps.frame_mbs_only_flag then [sps.mb_adaptive_frame_field_flag]
      else []).length ≤ 1 := by
    split <;> simp
  have hcrop : (optionBits CropWindow.bits sps.frame_cropping).length ≤ 252 + 1 :=
    length_optionBits_le fun c _ => c.length_bits_le
  have hfields {n : Nat} (v : BitVec n) : (fieldBits v).length ≤ n :=
    Nat.le_of_eq (length_fieldBits v)
  have hflag (b : Bool) : [b].length ≤ 1 := Nat.le_refl 1
  have hreserved : [false, false].length ≤ 2 := Nat.le_refl 2
  refine Nat.le_trans (length_append_le (hfields _) <| length_append_le (hfields _) <|
    length_append_le hreserved <| length_append_le (hfields _) <|
    length_append_le sps.seq_parameter_set_id.length_bits_le <| length_append_le hchroma <|
    length_append_le sps.log2_max_frame_num_minus4.length_bits_le <|
    length_append_le sps.pic_order_cnt.length_bits_le <|
    length_append_le sps.max_num_ref_frames.length_bits_le <| length_append_le (hflag _) <|
    length_append_le sps.pic_width_in_mbs_minus1.length_bits_le <|
    length_append_le sps.pic_height_in_map_units_minus1.length_bits_le <|
    length_append_le (hflag _) <| length_append_le hfield <| length_append_le (hflag _) hcrop) ?_
  decide

/-! ## Dimensions -/

/-- A difference of sizes modulo 2^32 that fits 16 bits is exact. -/
theorem sub32_eq {a b : Nat} {x : Int} (hx : x = a - b) (h : 1 ≤ x ∧ x ≤ 65535) :
    (sub32 (a % 2 ^ 32) b % 2 ^ 16 : Nat) = x := by
  unfold sub32
  omega

/-- The parser's tables are those of the standard. -/
theorem h264Subwc_eq {idc : Nat} (h : idc < 4) : h264Subwc.getD idc 0 = subWidthC idc := by
  revert idc
  decide

theorem h264Subhc_eq {idc : Nat} (h : idc < 4) : h264Subhc.getD idc 0 = subHeightC idc := by
  revert idc
  decide

theorem H264Sps.chromaFormatIdc_lt (sps : H264Sps) : sps.chromaFormatIdc < 4 := by
  unfold chromaFormatIdc
  split
  · exact sps.chroma.chroma_format_idc.isLt
  · decide

/-- Separate colour planes do not change the units: they are those of 4:4:4. -/
theorem H264Sps.cropUnits_eq (sps : H264Sps) :
    subWidthC sps.chromaArrayType = subWidthC sps.chromaFormatIdc ∧
      subHeightC sps.chromaArrayType = subHeightC sps.chromaFormatIdc := by
  unfold chromaArrayType
  split
  · next h =>
      have hidc : sps.chromaFormatIdc = 3 := by
        simp only [Bool.and_eq_true, beq_iff_eq] at h
        exact h.1.2
      rw [hidc]
      exact ⟨rfl, rfl⟩
  · exact ⟨rfl, rfl⟩

/-- A size that is not cropped and fits 16 bits is exact. -/
theorem mod_eq {a : Nat} (h : (a : Int) ≤ 65535) : ((a % 2 ^ 32 % 2 ^ 16 : Nat) : Int) = a := by
  omega

/-- The coded size, as the parser computes it before it is cut to 32 bits. -/
def H264Sps.codedWidth (sps : H264Sps) : Nat := (sps.pic_width_in_mbs_minus1.val + 1) * 16

def H264Sps.codedHeight (sps : H264Sps) : Nat :=
  (sps.pic_height_in_map_units_minus1.val + 1) * (16 * (2 - sps.frame_mbs_only_flag.toNat))

theorem H264Sps.width_eq (sps : H264Sps) :
    sps.width = sps.codedWidth -
      (sps.frame_cropping.elim 0 fun c => sps.cropUnitX * (c.left.val + c.right.val) : Nat) := by
  rw [width, codedWidth]
  push_cast
  ring

theorem H264Sps.height_eq (sps : H264Sps) :
    sps.height = sps.codedHeight -
      (sps.frame_cropping.elim 0 fun c => sps.cropUnitY * (c.top.val + c.bottom.val) : Nat) := by
  rw [height, codedHeight]
  push_cast
  ring

/-- The arithmetic at the end of the parser. -/
theorem H264Sps.picture_dimension (sps : H264Sps) (hw : 1 ≤ sps.width ∧ sps.width ≤ 65535)
    (hh : 1 ≤ sps.height ∧ sps.height ≤ 65535) :
    (sps.picture.dimension.width : Int) = sps.width ∧
      (sps.picture.dimension.height : Int) = sps.height := by
  obtain ⟨hunitx, hunity⟩ := sps.cropUnits_eq
  have hwidth := sps.width_eq
  have hheight := sps.height_eq
  cases hcrop : sps.frame_cropping with
  | none =>
      rw [hcrop] at hwidth hheight
      have hdim : sps.picture.dimension =
          ⟨sps.codedWidth % 2 ^ 32 % 2 ^ 16, sps.codedHeight % 2 ^ 32 % 2 ^ 16⟩ := by
        unfold H264Picture.dimension picture
        rw [hcrop]
        rfl
      simp only [Option.elim_none, Nat.cast_zero, Int.sub_zero] at hwidth hheight
      rw [hwidth] at hw
      rw [hheight] at hh
      rw [hdim, hwidth, hheight]
      exact ⟨mod_eq hw.2, mod_eq hh.2⟩
  | some c =>
      rw [hcrop] at hwidth hheight
      have hdim : sps.picture.dimension =
          ⟨sub32 (sps.codedWidth % 2 ^ 32) (sps.cropUnitX * (c.left.val + c.right.val)) % 2 ^ 16,
            sub32 (sps.codedHeight % 2 ^ 32)
              (sps.cropUnitY * (c.top.val + c.bottom.val)) % 2 ^ 16⟩ := by
        unfold H264Picture.dimension picture cropUnitX cropUnitY
        rw [hcrop, hunitx, hunity, h264Subwc_eq sps.chromaFormatIdc_lt,
          h264Subhc_eq sps.chromaFormatIdc_lt, Nat.mul_comm (subWidthC _),
          Nat.mul_comm (subHeightC _ * _)]
        rfl
      rw [hdim]
      exact ⟨sub32_eq hwidth hw, sub32_eq hheight hh⟩

/-! ## The NAL unit -/

/-- The header is one byte, and not zero. -/
theorem H264Sps.pack_headerBits (sps : H264Sps) : ∃ b, b ≠ 0 ∧ pack sps.headerBits = [b] := by
  have hone : ∀ r : BitVec 2, ∃ b : UInt8, b ≠ 0 ∧
      pack ([false] ++ fieldBits r ++ Bits.ofNat 5 7) = [b] := by
    intro r
    refine ⟨UInt8.ofNat (32 * r.toNat + 7), ?_, ?_⟩ <;> revert r <;> decide
  exact hone sps.nal_ref_idc

/-- The NAL unit is the escaped form of the header and the payload together. -/
theorem H264Sps.nal_eq (sps : H264Sps) :
    sps.nal = escape 0 (pack sps.headerBits ++ rbspBytes sps.bits) := by
  obtain ⟨b, hb, hpack⟩ := sps.pack_headerBits
  rw [nal, hpack, List.singleton_append, List.singleton_append, escape_cons hb]

/-- The reader yields everything up to the VUI, and some of what follows. -/
theorem H264Sps.yields {sps : H264Sps} {data : Nat → UInt8}
    (hdata : rawBytes data 0 sps.nal.length = sps.nal) {bits rest : List Bool}
    (hrest : optionBits Vui.bits sps.vui ++ trailingBits sps.bits.length = bits ++ rest)
    (hlen : bits.length ≤ 2 ^ 18) :
    Yields nextBit (bitstreamInit data) (sps.headerBits ++ sps.pictureBits ++ bits) := by
  have hbytes : ofBytes (pack sps.headerBits ++ rbspBytes sps.bits) =
      sps.headerBits ++ sps.pictureBits ++ bits ++ rest := by
    have hheader : 8 ∣ sps.headerBits.length := by rw [length_headerBits]
    have hbits : sps.bits ++ trailingBits sps.bits.length = sps.pictureBits ++ (bits ++ rest) := by
      rw [← hrest, ← List.append_assoc]
      rfl
    rw [ofBytes_append, ofBytes_pack hheader, ofBytes_rbspBytes, hbits]
    simp only [List.append_assoc]
  have hreach : (sps.headerBits ++ sps.pictureBits ++ bits).length ≤ 8 + 2 ^ 18 + 2 ^ 18 :=
    length_append_le (length_append_le (Nat.le_of_eq (length_headerBits sps))
      sps.length_pictureBits_le) hlen
  rw [sps.nal_eq] at hdata
  exact yields_escape hdata hbytes (Nat.le_trans hreach (by decide))

/-- **Soundness for H.264**: on every NAL unit of a sequence parameter set,
followed by anything, whenever `sps_parse_dimension_h264` returns true the
dimensions are those of the cropped picture. -/
theorem spsParseDimensionH264_sound (u : Indeterminate) {fuel : Nat} {sps : H264Sps}
    (hw : 1 ≤ sps.width ∧ sps.width ≤ 65535) (hh : 1 ≤ sps.height ∧ sps.height ≤ 65535)
    {data : Nat → UInt8} (hdata : rawBytes data 0 sps.nal.length = sps.nal) {dim : SpsDimension}
    {buf : Bitstream}
    (hret : spsParseDimensionH264 u fuel (bitstreamInit data) = some (some dim, buf)) :
    (dim.width : Int) = sps.width ∧ (dim.height : Int) = sps.height := by
  have hnil : optionBits Vui.bits sps.vui ++ trailingBits sps.bits.length =
      [] ++ (optionBits Vui.bits sps.vui ++ trailingBits sps.bits.length) := rfl
  have hyields := sps.yields hdata hnil (Nat.zero_le _)
  rw [List.append_nil] at hyields
  rw [spsParseDimensionH264] at hret
  have hpic := (reads_picture u sps).of_bind hyields hret
  -- Whatever happens to the VUI, a result is the dimension of that picture.
  obtain ⟨_, _, _, hvui⟩ := bind_eq_some hpic
  obtain ⟨_, _, _, hpure⟩ := bind_eq_some hvui
  have hdim : sps.picture.dimension = dim := by
    have hpair := Option.some.inj ((pure_run _ _ _).symm.trans hpure)
    exact Option.some.inj (congrArg Prod.fst hpair)
  rw [← hdim]
  exact sps.picture_dimension hw hh

/-- The stream of the H.264 test: 120 by 68 macroblocks, cropped to 1920x1080. -/
example : (spsParseDimensionH264 .zeros 32 (bitstreamInit (dataOf
    [0x67, 0x64, 0x00, 0x2a, 0xac, 0x2b, 0x40, 0x3c, 0x01, 0x13, 0xf2, 0xe0, 0x2d, 0x41, 0x81,
      0x81, 0xa9, 0x40, 0x00, 0x00, 0xfa, 0x00, 0x00, 0x75, 0x30, 0x23, 0xc7, 0x0a, 0xa8]))).map
    (·.1) = some (some ⟨1920, 1080⟩) := by decide +kernel

/-- Without a VUI the parser does return true. -/
theorem spsParseDimensionH264_of_no_vui (u : Indeterminate) {fuel : Nat} (hfuel : 32 ≤ fuel)
    {sps : H264Sps} (hvui : sps.vui = none) {data : Nat → UInt8}
    (hdata : rawBytes data 0 sps.nal.length = sps.nal) :
    ∃ buf, spsParseDimensionH264 u fuel (bitstreamInit data) =
      some (some sps.picture.dimension, buf) := by
  have hrest : optionBits Vui.bits sps.vui ++ trailingBits sps.bits.length =
      [false] ++ trailingBits sps.bits.length := by rw [hvui, optionBits]
  have hyields := sps.yields hdata hrest (by decide)
  have hreads : Reads (spsParseDimensionH264 u)
      (sps.headerBits ++ sps.pictureBits ++ [false]) sps.picture.dimension :=
    (reads_picture u sps).bind (((reads_flag false).unchecked false).bind_pure rfl)
  exact ⟨_, hreads.eq_some hyields hfuel⟩

/-- A 1280x720 picture without chroma format, cropping or VUI. -/
def sps720p : H264Sps where
  nal_ref_idc := 3
  profile_idc := 66
  constraint_set_flags := 0
  level_idc := 31
  seq_parameter_set_id := .zero
  chroma := ⟨chroma420, false, .zero, .zero, false, none⟩
  log2_max_frame_num_minus4 := .zero
  pic_order_cnt := .type2
  max_num_ref_frames := ⟨1, by decide⟩
  gaps_in_frame_num_value_allowed_flag := false
  pic_width_in_mbs_minus1 := ⟨79, by decide⟩
  pic_height_in_map_units_minus1 := ⟨44, by decide⟩
  frame_mbs_only_flag := true
  mb_adaptive_frame_field_flag := false
  direct_8x8_inference_flag := true
  frame_cropping := none
  vui := none

/-- Its NAL unit is parsed, and the dimensions are right. -/
theorem spsParseDimensionH264_720p : ∃ dim buf,
    spsParseDimensionH264 .zeros 32 (bitstreamInit (dataOf sps720p.nal)) =
        some (some dim, buf) ∧
      (dim.width : Int) = 1280 ∧ (dim.height : Int) = 720 := by
  have hdata := rawBytes_dataOf sps720p.nal
  obtain ⟨buf, hret⟩ := spsParseDimensionH264_of_no_vui .zeros (Nat.le_refl 32) rfl hdata
  have hw : 1 ≤ sps720p.width ∧ sps720p.width ≤ 65535 := by decide
  have hh : 1 ≤ sps720p.height ∧ sps720p.height ≤ 65535 := by decide
  exact ⟨_, buf, hret, spsParseDimensionH264_sound .zeros hw hh hdata hret⟩

end CommonsC.SpsParser
