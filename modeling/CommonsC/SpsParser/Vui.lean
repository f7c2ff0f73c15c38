import CommonsC.SpsParser.H264

/-!
# CommonsC.SpsParser.Vui

`skip_vui_parameters` on the encoding of a `vui_parameters()` structure.

Every group is skipped with the coding that the syntax table gives it, except
the sample locations of the chroma: these are two codes `ue(v)`, and the parser
skips two times five bits.  So the parser reads a format of its own, in which
there are any ten bits in their place (`reads_skipVui`).
-/

namespace CommonsC.SpsParser

open Bits Parser Emulation

/-! ## The format of the parser -/

/-- The groups in front of the sample locations. -/
def Vui.headBits (vui : Vui) : List Bool :=
  optionBits AspectRatio.bits vui.aspect_ratio ++ (optionBits (fun b => [b]) vui.overscan ++
    optionBits VideoSignalType.bits vui.video_signal_type)

/-- The groups behind the timing. -/
def Vui.tailBits (vui : Vui) : List Bool :=
  optionBits Hrd.bits vui.nal_hrd ++ (optionBits Hrd.bits vui.vcl_hrd ++
    ((if vui.nal_hrd.isSome || vui.vcl_hrd.isSome then [vui.low_delay_hrd_flag] else []) ++
    ([vui.pic_struct_present_flag] ++
      optionBits BitstreamRestriction.bits vui.bitstream_restriction)))

/-- The two codes of the sample locations. -/
def locBits (loc : Ue × Ue) : List Bool := loc.1.bits ++ loc.2.bits

/-- The structure with other bits for the sample locations. -/
def Vui.bitsWith (vui : Vui) (loc : Option (List Bool)) : List Bool :=
  vui.headBits ++ (optionBits id loc ++ (optionBits TimingInfo.bits vui.timing ++ vui.tailBits))

theorem Vui.bits_eq (vui : Vui) : vui.bits = vui.bitsWith (vui.chroma_loc.map locBits) := by
  have hloc : optionBits id (vui.chroma_loc.map locBits) =
      optionBits (fun loc => loc.1.bits ++ loc.2.bits) vui.chroma_loc := by
    cases vui.chroma_loc <;> rfl
  rw [bitsWith, hloc]
  simp only [bits, headBits, tailBits, List.append_assoc]

/-! ## What the parser skips -/

/-- A presence flag and the part it announces, at the end of a parser. -/
theorem reads_lastOption {α : Type} {enc : α → List Bool} {p : Parser Bitstream Unit}
    (o : Option α) (h : ∀ a, o = some a → Reads p (enc a) ()) :
    Reads (do
        let present ← unchecked false bitstreamRead1
        optionally present p)
      (optionBits enc o) () := by
  cases o with
  | none => exact ((reads_flag false).unchecked false).bind (Parses.pure ())
  | some a =>
      rw [optionBits, ← List.singleton_append]
      exact ((reads_flag true).unchecked false).bind (h a rfl)

theorem reads_schedSel (u : Indeterminate) (sel : SchedSel) :
    Reads (skipSchedSel u) sel.bits () :=
  (reads_ueBits u _).void.bind <| (reads_ueBits u _).void.bind (reads_skipFlag _).void

theorem reads_hrd (u : Indeterminate) (old : Nat) (hrd : Hrd) :
    Reads (skipHrdParameters u old) hrd.bits () := by
  obtain ⟨hpos, hle⟩ := hrd.cpb_cnt
  have hcount : hrd.schedSels.length - 1 + 1 = hrd.schedSels.length := Nat.sub_add_cancel hpos
  simp only [Hrd.bits, List.append_assoc]
  refine ((reads_ue u (by omega)).unchecked old).bind ?_
  rw [if_neg (by omega), hcount]
  refine (reads_skipField hrd.bit_rate_scale (by decide)).void.bind ?_
  refine (reads_skipField hrd.cpb_size_scale (by decide)).void.bind ?_
  refine (Parses.times hrd.schedSels fun sel _ => reads_schedSel u sel).bind ?_
  refine (reads_skipField hrd.initial_cpb_removal_delay_length_minus1 (by decide)).void.bind ?_
  refine (reads_skipField hrd.cpb_removal_delay_length_minus1 (by decide)).void.bind ?_
  refine (reads_skipField hrd.dpb_output_delay_length_minus1 (by decide)).void.bind ?_
  exact (reads_skipField hrd.time_offset_length (by decide)).void

/-- 255 announces the width and the height. -/
theorem reads_aspectRatio (a : AspectRatio) :
    Reads (do
        let aspect_ratio_idc ← unchecked 0 bitstreamRead8
        optionally (aspect_ratio_idc == EXTENDED_SAR) do
          void (bitstreamSkipBits 16)
          void (bitstreamSkipBits 16))
      a.bits () := by
  have hidc (idc : BitVec 8) : Reads bitstreamRead8 (fieldBits idc) idc.toNat :=
    reads_field (by decide) idc
  cases a with
  | table idc h =>
      have hne : (idc.toNat == EXTENDED_SAR) = false := by
        rw [beq_eq_false_iff_ne]
        exact fun heq => h (BitVec.eq_of_toNat_eq heq)
      refine ((hidc idc).unchecked 0).bind_pure ?_
      rw [hne]
      rfl
  | extended sar_width sar_height =>
      rw [AspectRatio.bits, List.append_assoc]
      refine ((hidc 255).unchecked 0).bind ?_
      exact (reads_skipField sar_width (by decide)).void.bind
        (reads_skipField sar_height (by decide)).void

theorem reads_videoSignalType (v : VideoSignalType) :
    Reads (do
        void (bitstreamSkipBits 3)
        void (bitstreamSkipBits 1)
        let colour_description_present_flag ← unchecked false bitstreamRead1
        optionally colour_description_present_flag do
          void (bitstreamSkipBits 8)
          void (bitstreamSkipBits 8)
          void (bitstreamSkipBits 8))
      v.bits () := by
  rw [VideoSignalType.bits, List.append_assoc]
  refine (reads_skipField v.video_format (by decide)).void.bind ?_
  refine (reads_skipFlag v.video_full_range_flag).void.bind ?_
  refine reads_lastOption v.colour_description fun c _ => ?_
  rw [ColourDescription.bits, List.append_assoc]
  exact (reads_skipField c.colour_primaries (by decide)).void.bind
    ((reads_skipField c.transfer_characteristics (by decide)).void.bind
      (reads_skipField c.matrix_coefficients (by decide)).void)

/-- Any ten bits stand for the sample locations. -/
theorem reads_tenBits {loc : List Bool} (h : loc.length = 10) :
    Reads (do
        void (bitstreamSkipBits 5)
        void (bitstreamSkipBits 5))
      loc () := by
  rw [← List.take_append_drop 5 loc]
  exact (reads_skip (List.length_take_of_le (by omega)) (by decide)).void.bind
    (reads_skip (by rw [List.length_drop, h]) (by decide)).void

theorem reads_timingInfo (t : TimingInfo) :
    Reads (do
        void (bitstreamSkipBits 32)
        void (bitstreamSkipBits 32)
        void (bitstreamSkipBits 1))
      t.bits () := by
  rw [TimingInfo.bits, List.append_assoc]
  refine (reads_skipField t.num_units_in_tick (by decide)).void.bind ?_
  exact (reads_skipField t.time_scale (by decide)).void.bind
    (reads_skipFlag t.fixed_frame_rate_flag).void

theorem reads_bitstreamRestriction (u : Indeterminate) (r : BitstreamRestriction) :
    Reads (do
        void (bitstreamSkipBits 1)
        times 6 (void (bitstreamReadUeg u)))
      r.bits () := by
  have hcodes := @Parses.times _ _ _ _ _ Ue.bits [r.max_bytes_per_pic_denom,
    r.max_bits_per_mb_denom, r.log2_max_mv_length_horizontal, r.log2_max_mv_length_vertical,
    r.max_num_reorder_frames, r.max_dec_frame_buffering] fun v _ => (reads_ueBits u v).void
  have hbits : r.bits = [r.motion_vectors_over_pic_boundaries_flag] ++
      [r.max_bytes_per_pic_denom, r.max_bits_per_mb_denom, r.log2_max_mv_length_horizontal,
        r.log2_max_mv_length_vertical, r.max_num_reorder_frames,
        r.max_dec_frame_buffering].flatMap Ue.bits := by
    simp [BitstreamRestriction.bits]
  rw [hbits]
  exact (reads_skipFlag _).void.bind hcodes

theorem reads_vuiVideo (vui : Vui) {loc : Option (List Bool)}
    (hloc : ∀ bits, loc = some bits → bits.length = 10) :
    Reads skipVuiVideo
      (vui.headBits ++ (optionBits id loc ++ optionBits TimingInfo.bits vui.timing)) () := by
  rw [Vui.headBits, List.append_assoc, List.append_assoc]
  refine reads_option vui.aspect_ratio (fun a _ => reads_aspectRatio a) ?_
  refine reads_option vui.overscan (fun b _ => (reads_skipFlag b).void) ?_
  refine reads_option vui.video_signal_type (fun v _ => reads_videoSignalType v) ?_
  refine reads_option loc (fun bits h => reads_tenBits (hloc bits h)) ?_
  exact reads_lastOption vui.timing fun t _ => reads_timingInfo t

/-- The format that the parser skips: ten bits for the sample locations. -/
theorem reads_skipVui (u : Indeterminate) (vui : Vui) {loc : Option (List Bool)}
    (hloc : ∀ bits, loc = some bits → bits.length = 10) :
    Reads (skipVuiParameters u) (vui.bitsWith loc) () := by
  have hsplit : vui.bitsWith loc =
      (vui.headBits ++ (optionBits id loc ++ optionBits TimingInfo.bits vui.timing)) ++
        vui.tailBits := by
    simp only [Vui.bitsWith, List.append_assoc]
  rw [hsplit, Vui.tailBits]
  refine (reads_vuiVideo vui hloc).bind ?_
  refine reads_option vui.nal_hrd (fun hrd _ => reads_hrd u _ hrd) ?_
  refine reads_option vui.vcl_hrd (fun hrd _ => reads_hrd u _ hrd) ?_
  refine (Parses.optionally _ fun _ => (reads_skipFlag _).void).bind ?_
  refine (reads_skipFlag vui.pic_struct_present_flag).void.bind ?_
  exact reads_lastOption vui.bitstream_restriction fun r _ => reads_bitstreamRestriction u r

/-! ## What is skipped exactly -/

/-- Wherever the structure is in a stream, and whatever follows it, the parser
returns true and consumes exactly its bits. -/
def SkipsExactly (u : Indeterminate) (vui : Vui) : Prop :=
  ∀ fuel s, 32 ≤ fuel → Yields nextBit s vui.bits →
    skipVuiParameters u fuel s = some (some (), advance nextBit vui.bits.length s)

/-- The sample locations that the standard has. -/
def Vui.LocsInRange (vui : Vui) : Prop :=
  ∀ top bottom, vui.chroma_loc = some (top, bottom) → top.val ≤ 5 ∧ bottom.val ≤ 5

/-- The sample locations, if there are any, have codes of five bits. -/
def Vui.LocsOfFiveBits (vui : Vui) : Prop :=
  ∀ top bottom, vui.chroma_loc = some (top, bottom) → 3 ≤ top.val ∧ 3 ≤ bottom.val

/-- The structures have the same groups up to the sample locations. -/
structure Vui.SameHead (vui vui' : Vui) : Prop where
  aspect_ratio : vui.aspect_ratio = vui'.aspect_ratio
  overscan : vui.overscan = vui'.overscan
  video_signal_type : vui.video_signal_type = vui'.video_signal_type
  chroma_loc : vui.chroma_loc = vui'.chroma_loc

/-- How long the code of a sample location is. -/
theorem length_loc {v : Ue} (h : v.val ≤ 5) :
    v.bits.length ≤ 5 ∧ (v.bits.length = 5 ↔ 3 ≤ v.val) := by
  rw [Ue.bits, length_ue]
  have hlog : ∀ n ≤ 5, Nat.log 2 (n + 1) ≤ 2 ∧ (Nat.log 2 (n + 1) = 2 ↔ 3 ≤ n) := by decide
  obtain ⟨hle, hiff⟩ := hlog v.val h
  omega

/-- Structures with codes of five bits are skipped exactly. -/
theorem skipsExactly_of_fiveBits (u : Indeterminate) {vui : Vui} (hrange : vui.LocsInRange)
    (hfive : vui.LocsOfFiveBits) : SkipsExactly u vui := by
  have hloc : ∀ bits, vui.chroma_loc.map locBits = some bits → bits.length = 10 := by
    intro bits h
    obtain ⟨⟨top, bottom⟩, hsome, rfl⟩ := Option.map_eq_some_iff.1 h
    obtain ⟨htop, hbottom⟩ := hrange top bottom hsome
    obtain ⟨htop', hbottom'⟩ := hfive top bottom hsome
    rw [locBits, List.length_append, (length_loc htop).2.2 htop', (length_loc hbottom).2.2 hbottom']
  intro fuel s hfuel hs
  rw [vui.bits_eq] at hs ⊢
  exact (reads_skipVui u vui hloc).eq_some hs hfuel

/-! ## What is not -/

/-- The structure without the groups behind the sample locations. -/
def Vui.bare (vui : Vui) : Vui :=
  { vui with
    timing := none
    nal_hrd := none
    vcl_hrd := none
    pic_struct_present_flag := false
    bitstream_restriction := none }

theorem Vui.length_headBits_le (vui : Vui) : vui.headBits.length ≤ 80 := by
  have haspect : (optionBits AspectRatio.bits vui.aspect_ratio).length ≤ 40 + 1 := by
    refine length_optionBits_le fun a _ => ?_
    cases a <;> simp [AspectRatio.bits]
  have hoverscan : (optionBits (fun b => [b]) vui.overscan).length ≤ 1 + 1 :=
    length_optionBits_le fun b _ => Nat.le_refl 1
  have hvideo : (optionBits VideoSignalType.bits vui.video_signal_type).length ≤ 29 + 1 := by
    refine length_optionBits_le fun v _ => ?_
    have hcolour : (optionBits ColourDescription.bits v.colour_description).length ≤ 24 + 1 :=
      length_optionBits_le fun c _ => by simp [ColourDescription.bits]
    simp only [VideoSignalType.bits, List.length_append, length_fieldBits, List.length_singleton]
    omega
  simp only [headBits, List.length_append]
  omega

/-- Where the codes are shorter, the parser skips into what follows them. -/
theorem not_skipsExactly_bare (u : Indeterminate) {vui : Vui} {loc : Ue × Ue}
    (hloc : vui.chroma_loc = some loc) (hshort : (locBits loc).length < 10) :
    ¬SkipsExactly u vui.bare := by
  intro hexact
  -- The code is followed by zeros, which the parser takes for the rest of it.
  have hten : ∀ bits, some (locBits loc ++ List.replicate (10 - (locBits loc).length) false) =
      some bits → bits.length = 10 := by
    rintro bits ⟨⟩
    rw [List.length_append, List.length_replicate]
    omega
  have hreads := reads_skipVui u vui.bare hten
  have hlonger : vui.bare.bitsWith
      (some (locBits loc ++ List.replicate (10 - (locBits loc).length) false)) =
        vui.bare.bits ++ List.replicate (10 - (locBits loc).length) false := by
    have htail : optionBits TimingInfo.bits vui.bare.timing ++ vui.bare.tailBits =
        List.replicate 5 false := rfl
    have hbare : vui.bare.chroma_loc = some loc := hloc
    rw [Vui.bits_eq, hbare, Option.map_some, Vui.bitsWith, Vui.bitsWith, htail]
    simp only [optionBits, id_eq, List.append_assoc, List.cons_append,
      List.replicate_append_replicate, Nat.add_comm]
  rw [hlonger] at hreads
  have hlen : (vui.bare.bits ++ List.replicate (10 - (locBits loc).length) false).length ≤
      2 ^ 28 := by
    have hhead := vui.bare.length_headBits_le
    rw [← hlonger, Vui.bitsWith]
    simp only [optionBits, id_eq, List.length_append, List.length_cons, List.length_replicate]
    have htail : (optionBits TimingInfo.bits vui.bare.timing).length + vui.bare.tailBits.length =
        5 := rfl
    simp only [optionBits] at htail
    omega
  have hyields := yields_escape (rawBytes_dataOf _) (ofBytes_rbspBytes _) hlen
  have hparse := hreads.eq_some hyields (Nat.le_refl 32)
  rw [hexact 32 _ (Nat.le_refl 32) ((yields_append _ _ _ _).1 hyields).1, Option.some.injEq,
    Prod.mk.injEq] at hparse
  rw [List.length_append] at hlen
  have hsame := advance_inj (by omega) (by rw [List.length_append]; exact hlen) hparse.2
  rw [List.length_append, List.length_replicate] at hsame
  omega

/-- **The VUI is skipped exactly** in all structures that begin in the same way
precisely if the sample locations have codes of five bits, or there are none. -/
theorem skipVuiParameters_exact (u : Indeterminate) (vui : Vui) (hrange : vui.LocsInRange) :
    (∀ vui' : Vui, vui'.SameHead vui → SkipsExactly u vui') ↔ vui.LocsOfFiveBits := by
  constructor
  · intro hexact top bottom hloc
    obtain ⟨htop, hbottom⟩ := hrange top bottom hloc
    have hbare := hexact vui.bare ⟨rfl, rfl, rfl, rfl⟩
    have hlen : 10 ≤ (locBits (top, bottom)).length := by
      by_contra hshort
      exact not_skipsExactly_bare u hloc (Nat.lt_of_not_le hshort) hbare
    have htop' := length_loc htop
    have hbottom' := length_loc hbottom
    rw [locBits, List.length_append] at hlen
    simp only at hlen
    omega
  · intro hfive vui' hsame
    refine skipsExactly_of_fiveBits u ?_ ?_
    · rw [Vui.LocsInRange, hsame.chroma_loc]
      exact hrange
    · rw [Vui.LocsOfFiveBits, hsame.chroma_loc]
      exact hfive

/-- The sample location 0 for both fields, and no other group. -/
def vuiTopLeft : Vui where
  aspect_ratio := none
  overscan := none
  video_signal_type := none
  chroma_loc := some (.zero, .zero)
  timing := none
  nal_hrd := none
  vcl_hrd := none
  low_delay_hrd_flag := false
  pic_struct_present_flag := false
  bitstream_restriction := none

/-- It is not skipped exactly. -/
theorem skipVuiParameters_topLeft :
    vuiTopLeft.LocsInRange ∧ ¬SkipsExactly Indeterminate.zeros vuiTopLeft := by
  refine ⟨?_, @not_skipsExactly_bare .zeros vuiTopLeft _ rfl (by decide)⟩
  rintro top bottom ⟨⟩
  exact ⟨Nat.zero_le 5, Nat.zero_le 5⟩

/-- The sample locations 4 and 5. -/
def vuiBottom : Vui := { vuiTopLeft with chroma_loc := some (⟨4, by decide⟩, ⟨5, by decide⟩) }

/-- The same locations before a group with the timing. -/
def vuiBottomTimed : Vui :=
  { vuiBottom with timing := some ⟨1, 50, true⟩, pic_struct_present_flag := true }

theorem skipVuiParameters_exact_bottom :
    SkipsExactly Indeterminate.zeros vuiBottom ∧
      SkipsExactly Indeterminate.zeros vuiBottomTimed := by
  have hrange : vuiBottom.LocsInRange := by
    rintro top bottom ⟨⟩
    exact ⟨by decide, by decide⟩
  have hfive : vuiBottom.LocsOfFiveBits := by
    rintro top bottom ⟨⟩
    exact ⟨by decide, by decide⟩
  have hexact := (skipVuiParameters_exact .zeros vuiBottom hrange).2 hfive
  exact ⟨hexact _ ⟨rfl, rfl, rfl, rfl⟩, hexact _ ⟨rfl, rfl, rfl, rfl⟩⟩

end CommonsC.SpsParser
