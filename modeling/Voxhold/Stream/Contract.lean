/-
# Voxhold.Stream.Contract — the format of a stream, checked twice

A stream in server mode is checked by `Hub.StartStreamWithRenditions`, which announces it, and then
again by `stream.Manager.StartWithRenditions`. Both share the rendition policy of `streamcontract`;
around it each side has checks of its own.
-/

import Mathlib.Data.List.Basic
import Voxhold.Hub.StreamState

namespace Voxhold.Stream

open List

open Voxhold.Hub (StreamMode StreamCodec StreamDynamicRange StreamRendition)

/-! ## `streamcontract` -/

namespace Contract

structure Rendition where
  id : String
  codec : String
  profile : String
  dynamicRange : String
  bitDepth : Int
  colorPrimaries : String
  transfer : String
  matrix : String
  deriving DecidableEq, Repr

def validID (id : String) : Bool :=
  id.utf8ByteSize ≠ 0 && id.utf8ByteSize ≤ 32 && id.toList.all fun c =>
    ('a' ≤ c && c ≤ 'z') || ('0' ≤ c && c ≤ '9') || c = '-' || c = '_'

def validSDRProfile (codec profile : String) : Bool :=
  (codec = "vp8" && profile = "") || (codec = "vp9" && profile = "0") ||
    (codec = "h264" && profile = "baseline") || (codec = "av1" && profile = "main")

def validHDRProfile (codec profile : String) : Bool :=
  (codec = "vp9" && profile = "2") || (codec = "av1" && profile = "main10")

def validSDR (value : Rendition) : Bool :=
  value.bitDepth = 8 && value.colorPrimaries = "bt709" && value.transfer = "bt709" &&
    value.matrix = "bt709" && validSDRProfile value.codec value.profile

/-- The cases `hdr10` and `hlg` of the switch, which differ in the transfer function. -/
def validHDR (transfer : String) (value : Rendition) : Bool :=
  value.bitDepth = 10 && value.colorPrimaries = "bt2020" && value.transfer = transfer &&
    value.matrix = "bt2020-ncl" && validHDRProfile value.codec value.profile

/-- The loop of `ValidRenditions`, with its two sets and its flag. -/
def validRenditionsLoop : List Rendition → (ids ranges : List String) → (hasSDR : Bool) → Bool
  | [], _, _, hasSDR => hasSDR
  | value :: rest, ids, ranges, hasSDR =>
    if !validID value.id || value.bitDepth = 0 then false
    else if value.id ∈ ids then false
    else if value.dynamicRange ∈ ranges then false
    else
      let ids := value.id :: ids
      let ranges := value.dynamicRange :: ranges
      if value.dynamicRange = "sdr" then
        if validSDR value then validRenditionsLoop rest ids ranges true else false
      else if value.dynamicRange = "hdr10" then
        if validHDR "pq" value then validRenditionsLoop rest ids ranges hasSDR else false
      else if value.dynamicRange = "hlg" then
        if validHDR "hlg" value then validRenditionsLoop rest ids ranges hasSDR else false
      else false

def validRenditions (renditions : List Rendition) : Bool :=
  if renditions.length = 0 || 2 < renditions.length then false
  else validRenditionsLoop renditions [] [] false

end Contract

/-! ## The signalling side -/

structure StreamRenditionData where
  id : String
  codec : String
  profile : String
  dynamicRange : String
  bitDepth : Int
  colorPrimaries : String
  transfer : String
  matrix : String
  deriving DecidableEq, Repr

def maxStreamRenditions : Nat := 2

def validStreamCodec (codec : String) : Bool :=
  codec = "vp8" || codec = "vp9" || codec = "h264" || codec = "av1"

def legacySDRStreamRendition (codec : String) : StreamRenditionData where
  id := "sdr"
  codec := codec
  profile :=
    if codec = "vp9" then "0" else if codec = "h264" then "baseline"
    else if codec = "av1" then "main" else ""
  dynamicRange := "sdr"
  bitDepth := 8
  colorPrimaries := "bt709"
  transfer := "bt709"
  matrix := "bt709"

/-- The conversion in `normalizeStreamRenditions`. -/
def StreamRenditionData.toContract (v : StreamRenditionData) : Contract.Rendition :=
  ⟨v.id, v.codec, v.profile, v.dynamicRange, v.bitDepth, v.colorPrimaries, v.transfer, v.matrix⟩

def normalizeStreamRenditions (legacyCodec : String) (values : List StreamRenditionData) :
    Option (List StreamRenditionData) :=
  if values.length = 0 then some [legacySDRStreamRendition legacyCodec]
  else if maxStreamRenditions < values.length then none
  else if Contract.validRenditions (values.map (·.toContract)) then some values
  else none

def onlySDRStreamRenditions (values : List StreamRenditionData) : Bool :=
  match values with
  | [value] => value.dynamicRange = "sdr"
  | _ => false

/-- The format checks of `StartStreamWithRenditions`: the renditions of the `StreamData` it returns,
or `none` if it refuses the codec or the renditions. -/
def startStreamRenditions (mode : StreamMode) (codec : String) (values : List StreamRenditionData) :
    Option (List StreamRenditionData) :=
  if !validStreamCodec codec then none
  else match normalizeStreamRenditions codec values with
    | none => none
    | some normalized =>
      if mode = .p2p && !onlySDRStreamRenditions normalized then none else some normalized

/-! ## The media side -/

structure Rendition where
  id : String
  codec : String
  profile : String
  dynamicRange : String
  bitDepth : Int
  colorPrimaries : String
  transfer : String
  matrix : String
  deriving DecidableEq, Repr

def mediaStreamRenditions (values : List StreamRenditionData) : List Rendition :=
  values.map fun v =>
    ⟨v.id, v.codec, v.profile, v.dynamicRange, v.bitDepth, v.colorPrimaries, v.transfer, v.matrix⟩

/-- The conversion in `validMediaRenditions`. -/
def Rendition.toContract (v : Rendition) : Contract.Rendition :=
  ⟨v.id, v.codec, v.profile, v.dynamicRange, v.bitDepth, v.colorPrimaries, v.transfer, v.matrix⟩

def validCodec (codec : String) : Bool :=
  codec = "vp8" || codec = "vp9" || codec = "h264" || codec = "av1"

def validMediaRenditions (values : List Rendition) : Bool :=
  Contract.validRenditions (values.map (·.toContract))

/-- The codec of the first SDR rendition; the empty string if there is none. -/
def sdrCodec : List Rendition → String
  | [] => ""
  | rendition :: rest => if rendition.dynamicRange = "sdr" then rendition.codec else sdrCodec rest

/-- `webrtc.RTPCodecParameters`, the fields that tell one payload type from another. -/
structure RTPCodecParameters where
  mimeType : String
  sdpFmtpLine : String
  payloadType : Nat
  deriving DecidableEq, Repr

structure VideoCodecDescriptor where
  primary : RTPCodecParameters
  rtxPT : Nat
  deriving DecidableEq, Repr

/-- `streamVideoCodecDescriptors`, which `registerStreamCodecs` registers one by one. -/
def streamVideoCodecDescriptors : List VideoCodecDescriptor :=
  [⟨⟨"video/VP8", "", 96⟩, 97⟩,
    ⟨⟨"video/VP9", "profile-id=0", 98⟩, 99⟩,
    ⟨⟨"video/VP9", "profile-id=2", 100⟩, 101⟩,
    ⟨⟨"video/H264", "level-asymmetry-allowed=1;packetization-mode=1;profile-level-id=42e01f", 102⟩,
      103⟩,
    ⟨⟨"video/H264", "level-asymmetry-allowed=1;packetization-mode=1;profile-level-id=42001f", 104⟩,
      105⟩,
    ⟨⟨"video/AV1", "", 45⟩, 46⟩]

/-- `strings.ToLower` on ASCII text, as characters. -/
def toLower (s : String) : List Char := s.toList.map Char.toLower

/-- `strings.EqualFold` on ASCII text. -/
def equalFold (s t : String) : Bool := toLower s = toLower t

def codecForMimeType (mimeType : String) : String :=
  if toLower mimeType = toLower "video/VP8" then "vp8"
  else if toLower mimeType = toLower "video/VP9" then "vp9"
  else if toLower mimeType = toLower "video/H264" then "h264"
  else if toLower mimeType = toLower "video/AV1" then "av1"
  else ""

def rtxForDescriptor (descriptor : VideoCodecDescriptor) : Option RTPCodecParameters :=
  if descriptor.rtxPT = 0 then none
  else some ⟨"video/rtx", "apt=" ++ toString descriptor.primary.payloadType, descriptor.rtxPT⟩

/-- The profiles that `codecParametersForRendition` knows for a codec. -/
def validProfile (rendition : Rendition) : Bool :=
  if rendition.codec = "vp8" then rendition.profile = ""
  else if rendition.codec = "vp9" then rendition.profile = "0" || rendition.profile = "2"
  else if rendition.codec = "h264" then rendition.profile = "baseline"
  else if rendition.codec = "av1" then rendition.profile = "main" || rendition.profile = "main10"
  else rendition.profile = ""

/-- The descriptor serves the rendition: its codec, and for VP9 also its profile. -/
def servesRendition (rendition : Rendition) (descriptor : VideoCodecDescriptor) : Bool :=
  codecForMimeType descriptor.primary.mimeType = rendition.codec &&
    (rendition.codec ≠ "vp9" ||
      equalFold descriptor.primary.sdpFmtpLine ("profile-id=" ++ rendition.profile))

def codecParametersForRendition (descriptors : List VideoCodecDescriptor) (rendition : Rendition) :
    List RTPCodecParameters :=
  if rendition.id = "" || !validCodec rendition.codec then []
  else if !validProfile rendition then []
  else (descriptors.filter (servesRendition rendition)).flatMap fun descriptor =>
    descriptor.primary :: (rtxForDescriptor descriptor).toList

/-- The format checks of `StartWithRenditions`. -/
def mediaAccepts (descriptors : List VideoCodecDescriptor) (codec : String)
    (renditions : List Rendition) : Bool :=
  validCodec codec && validMediaRenditions renditions && sdrCodec renditions = codec &&
    renditions.all fun rendition => (codecParametersForRendition descriptors rendition).length ≠ 0

/-! ## What the shared policy establishes -/

namespace Contract

/-- What the policy says of one rendition. -/
structure Sound (value : Rendition) : Prop where
  id : validID value.id = true
  profile : (value.dynamicRange = "sdr" ∧ validSDRProfile value.codec value.profile = true) ∨
    ((value.dynamicRange = "hdr10" ∨ value.dynamicRange = "hlg") ∧
      validHDRProfile value.codec value.profile = true)

theorem validRenditionsLoop_cons {value : Rendition} {rest : List Rendition}
    {ids ranges : List String} {hasSDR : Bool}
    (h : validRenditionsLoop (value :: rest) ids ranges hasSDR = true) :
    Sound value ∧ value.dynamicRange ∉ ranges ∧ ∃ hasSDR' : Bool,
      (hasSDR' = true → hasSDR = true ∨ value.dynamicRange = "sdr") ∧
      validRenditionsLoop rest (value.id :: ids) (value.dynamicRange :: ranges) hasSDR' = true := by
  unfold validRenditionsLoop at h
  split at h
  · cases h
  · next hguard =>
    have hid : validID value.id = true := by
      by_contra hbad
      exact hguard (by simp [hbad])
    split at h
    · cases h
    · split at h
      · cases h
      · next hrange =>
        simp only at h
        split at h
        · next hsdr =>
          rw [Bool.if_false_right, Bool.and_eq_true, decide_eq_true_eq] at h
          obtain ⟨hvalid, hrest⟩ := h
          simp only [validSDR, Bool.and_eq_true, decide_eq_true_eq] at hvalid
          exact ⟨⟨hid, .inl ⟨hsdr, hvalid.2⟩⟩, hrange, true, fun _ => .inr hsdr, hrest⟩
        · split at h
          · next hhdr =>
            rw [Bool.if_false_right, Bool.and_eq_true, decide_eq_true_eq] at h
            obtain ⟨hvalid, hrest⟩ := h
            simp only [validHDR, Bool.and_eq_true, decide_eq_true_eq] at hvalid
            exact ⟨⟨hid, .inr ⟨.inl hhdr, hvalid.2⟩⟩, hrange, hasSDR, .inl, hrest⟩
          · split at h
            · next hhlg =>
              rw [Bool.if_false_right, Bool.and_eq_true, decide_eq_true_eq] at h
              obtain ⟨hvalid, hrest⟩ := h
              simp only [validHDR, Bool.and_eq_true, decide_eq_true_eq] at hvalid
              exact ⟨⟨hid, .inr ⟨.inr hhlg, hvalid.2⟩⟩, hrange, hasSDR, .inl, hrest⟩
            · cases h

theorem validRenditionsLoop_sound {values : List Rendition} {ids ranges : List String}
    {hasSDR : Bool} (h : validRenditionsLoop values ids ranges hasSDR = true) :
    (∀ value ∈ values, Sound value ∧ value.dynamicRange ∉ ranges) ∧
      (values.map (·.dynamicRange)).Nodup ∧
      (hasSDR = true ∨ ∃ value ∈ values, value.dynamicRange = "sdr") := by
  induction values generalizing ids ranges hasSDR with
  | nil => exact ⟨by simp, by simp, .inl h⟩
  | cons value rest ih =>
    obtain ⟨hsound, hrange, hasSDR', hflag, hrest⟩ := validRenditionsLoop_cons h
    obtain ⟨hall, hnodup, hsdr⟩ := ih hrest
    refine ⟨?_, ?_, ?_⟩
    · intro v hv
      rcases mem_cons.mp hv with rfl | hv
      · exact ⟨hsound, hrange⟩
      · exact ⟨(hall v hv).1, fun hmem => (hall v hv).2 (mem_cons_of_mem _ hmem)⟩
    · rw [map_cons, nodup_cons]
      refine ⟨fun hmem => ?_, hnodup⟩
      obtain ⟨v, hv, heq⟩ := mem_map.mp hmem
      exact (hall v hv).2 (heq ▸ mem_cons_self)
    · rcases hsdr with hset | ⟨v, hv, hsdr⟩
      · exact (hflag hset).imp_right fun hsdr => ⟨value, mem_cons_self, hsdr⟩
      · exact .inr ⟨v, mem_cons_of_mem _ hv, hsdr⟩

theorem validRenditions_sound {values : List Rendition} (h : validRenditions values = true) :
    (∀ value ∈ values, Sound value) ∧ (values.map (·.dynamicRange)).Nodup ∧
      ∃ value ∈ values, value.dynamicRange = "sdr" := by
  unfold validRenditions at h
  split at h
  · cases h
  · obtain ⟨hall, hnodup, hsdr⟩ := validRenditionsLoop_sound h
    exact ⟨fun value hvalue => (hall value hvalue).1, hnodup, hsdr.resolve_left Bool.false_ne_true⟩

theorem ne_empty_of_validID {id : String} (h : validID id = true) : id ≠ "" := by
  rintro rfl
  simp [validID] at h

theorem Sound.codec_profile {value : Rendition} (h : Sound value) :
    (value.codec, value.profile) ∈ [("vp8", ""), ("vp9", "0"), ("h264", "baseline"),
    ("av1", "main"),
      ("vp9", "2"), ("av1", "main10")] := by
  rcases h.profile with ⟨-, hsdr⟩ | ⟨-, hhdr⟩
  · simp only [validSDRProfile, Bool.or_eq_true, Bool.and_eq_true, decide_eq_true_eq] at hsdr
    rcases hsdr with ((⟨hc, hp⟩ | ⟨hc, hp⟩) | ⟨hc, hp⟩) | ⟨hc, hp⟩ <;> simp [hc, hp]
  · simp only [validHDRProfile, Bool.or_eq_true, Bool.and_eq_true, decide_eq_true_eq] at hhdr
    rcases hhdr with ⟨hc, hp⟩ | ⟨hc, hp⟩ <;> simp [hc, hp]

end Contract

/-! ## What the media layer adds -/

theorem codecParametersForRendition_length_ne_zero {descriptors : List VideoCodecDescriptor}
    {descriptor : VideoCodecDescriptor} (hid : r.id ≠ "")
    (hcodec : validCodec r.codec = true) (hprofile : validProfile r = true)
    (hmem : descriptor ∈ descriptors) (hserves : servesRendition r descriptor = true) :
    (codecParametersForRendition descriptors r).length ≠ 0 := by
  have hprimary : descriptor.primary ∈ codecParametersForRendition descriptors r := by
    simp only [codecParametersForRendition, hid, hcodec, hprofile, decide_false, Bool.not_true,
      Bool.or_self, Bool.false_eq_true, if_false]
    exact mem_flatMap.mpr
      ⟨descriptor, mem_filter.mpr ⟨hmem, hserves⟩, mem_cons_self⟩
  exact length_pos_of_mem hprimary |>.ne'

theorem codecParameters_of_sound (h : Contract.Sound r.toContract) :
    (codecParametersForRendition streamVideoCodecDescriptors r).length ≠ 0 := by
  have hid : r.id ≠ "" := Contract.ne_empty_of_validID h.id
  have hpair : (r.codec, r.profile) ∈ _ := h.codec_profile
  simp only [mem_cons, not_mem_nil, or_false, Prod.mk.injEq] at hpair
  -- the descriptor is the one whose codec and format line belong to the pair
  have serve : ∀ descriptor ∈ streamVideoCodecDescriptors, validCodec r.codec = true →
      validProfile r = true → servesRendition r descriptor = true →
      (codecParametersForRendition streamVideoCodecDescriptors r).length ≠ 0 :=
    fun _ hmem hcodec hprofile hserves =>
      codecParametersForRendition_length_ne_zero hid hcodec hprofile hmem hserves
  rcases hpair with ⟨hc, hp⟩ | ⟨hc, hp⟩ | ⟨hc, hp⟩ | ⟨hc, hp⟩ | ⟨hc, hp⟩ | ⟨hc, hp⟩
  · refine serve ⟨⟨"video/VP8", "", 96⟩, 97⟩ (by decide) ?_ ?_ ?_ <;>
      simp only [validProfile, servesRendition, hc, hp] <;> decide
  · refine serve ⟨⟨"video/VP9", "profile-id=0", 98⟩, 99⟩ (by decide) ?_ ?_ ?_ <;>
      simp only [validProfile, servesRendition, hc, hp] <;> decide
  · refine serve ⟨⟨"video/H264",
      "level-asymmetry-allowed=1;packetization-mode=1;profile-level-id=42e01f", 102⟩, 103⟩
      (by decide) ?_ ?_ ?_ <;> simp only [validProfile, servesRendition, hc, hp] <;> decide
  · refine serve ⟨⟨"video/AV1", "", 45⟩, 46⟩ (by decide) ?_ ?_ ?_ <;>
      simp only [validProfile, servesRendition, hc, hp] <;> decide
  · refine serve ⟨⟨"video/VP9", "profile-id=2", 100⟩, 101⟩ (by decide) ?_ ?_ ?_ <;>
      simp only [validProfile, servesRendition, hc, hp] <;> decide
  · refine serve ⟨⟨"video/AV1", "", 45⟩, 46⟩ (by decide) ?_ ?_ ?_ <;>
      simp only [validProfile, servesRendition, hc, hp] <;> decide

theorem sdrCodec_of_mem {renditions : List Rendition}
    (hnodup : (renditions.map (·.dynamicRange)).Nodup) (hr : r ∈ renditions)
    (hsdr : r.dynamicRange = "sdr") : sdrCodec renditions = r.codec := by
  induction renditions with
  | nil => cases hr
  | cons value rest ih =>
    rw [map_cons, nodup_cons] at hnodup
    unfold sdrCodec
    rcases mem_cons.mp hr with rfl | hr
    · rw [if_pos hsdr]
    · have hne : value.dynamicRange ≠ "sdr" := by
        intro heq
        exact hnodup.1 (mem_map.mpr ⟨r, hr, by rw [hsdr, heq]⟩)
      rw [if_neg hne]
      exact ih hnodup.2 hr

/-! ## Signalling against media -/

theorem startStreamRenditions_eq_some {mode : StreamMode}
    (h : startStreamRenditions mode codec values = some normalized) :
    validStreamCodec codec = true ∧
      Contract.validRenditions (normalized.map (·.toContract)) = true ∧
      ((values = [] ∧ normalized = [legacySDRStreamRendition codec]) ∨ (values ≠ [] ∧
        normalized = values)) := by
  unfold startStreamRenditions at h
  split at h
  · cases h
  · next hcodec =>
    have hcodec : validStreamCodec codec = true := by simpa using hcodec
    split at h
    · cases h
    · next normalized' hnormalize =>
      have hsame : normalized' = normalized := by
        split at h
        · cases h
        · exact Option.some.inj h
      subst hsame
      refine ⟨hcodec, ?_⟩
      unfold normalizeStreamRenditions at hnormalize
      split at hnormalize
      · next hempty =>
        cases hnormalize
        refine ⟨?_, .inl ⟨eq_nil_of_length_eq_zero hempty, rfl⟩⟩
        simp only [validStreamCodec, Bool.or_eq_true, decide_eq_true_eq] at hcodec
        rcases hcodec with ((rfl | rfl) | rfl) | rfl <;> decide
      · next hnonempty =>
        split at hnormalize
        · cases hnormalize
        · split at hnormalize
          · next hvalid =>
            cases hnormalize
            refine ⟨hvalid, .inr ⟨?_, rfl⟩⟩
            rintro rfl
            exact hnonempty rfl
          · cases hnormalize

/-! ### The two answers -/

/-- **What the signalling accepts, the media layer accepts if and only if the codec of the request
is the codec of its SDR rendition** (or the request lists no renditions). -/
theorem media_accepts_iff {codec : String} {values normalized : List StreamRenditionData}
    (h : startStreamRenditions .server codec values = some normalized) :
    mediaAccepts streamVideoCodecDescriptors codec (mediaStreamRenditions normalized) = true ↔
      values = [] ∨ ∃ value ∈ values, value.dynamicRange = "sdr" ∧ value.codec = codec := by
  obtain ⟨hcodec, hvalid, hshape⟩ := startStreamRenditions_eq_some h
  have hmedia : validMediaRenditions (mediaStreamRenditions normalized) = true := by
    rw [validMediaRenditions, mediaStreamRenditions, map_map]
    exact hvalid
  obtain ⟨hsound, hnodup, sdr, hsdrmem, hsdr⟩ := Contract.validRenditions_sound hmedia
  obtain ⟨r, hr, rfl⟩ := mem_map.mp hsdrmem
  have hparameters : (mediaStreamRenditions normalized).all (fun rendition =>
      (codecParametersForRendition streamVideoCodecDescriptors rendition).length ≠ 0) = true := by
    refine all_eq_true.mpr fun rendition hmem => decide_eq_true ?_
    exact codecParameters_of_sound (hsound _ (mem_map_of_mem hmem))
  have hnodup' : ((mediaStreamRenditions normalized).map (·.dynamicRange)).Nodup := by
    rw [map_map] at hnodup
    exact hnodup
  have hcheck : mediaAccepts streamVideoCodecDescriptors codec (mediaStreamRenditions normalized) =
      decide (r.codec = codec) := by
    rw [mediaAccepts, show validCodec codec = true from hcodec, hmedia, hparameters,
      sdrCodec_of_mem hnodup' hr hsdr, Bool.true_and, Bool.true_and, Bool.and_true]
  rw [hcheck, decide_eq_true_eq]
  obtain ⟨value, hvalue, rfl⟩ := mem_map.mp hr
  rcases hshape with ⟨rfl, rfl⟩ | ⟨hne, rfl⟩
  · obtain rfl := mem_singleton.mp hvalue
    exact iff_of_true rfl (.inl rfl)
  · constructor
    · exact fun heq => .inr ⟨value, hvalue, hsdr, heq⟩
    · rintro (hnil | ⟨other, hother, hsdr', heq⟩)
      · exact absurd hnil hne
      · -- the SDR rendition is unique
        have hmem : _ ∈ mediaStreamRenditions normalized := mem_map_of_mem hother
        rw [← sdrCodec_of_mem hnodup' hr hsdr, sdrCodec_of_mem hnodup' hmem hsdr']
        exact heq

def hdrRendition : StreamRenditionData :=
    ⟨"hdr", "vp9", "2", "hdr10", 10, "bt2020", "pq", "bt2020-ncl"⟩

/-- A request with an SDR and an HDR rendition: the media layer accepts both. -/
theorem media_accepts_iff_ranges : mediaAccepts streamVideoCodecDescriptors "vp9"
        (mediaStreamRenditions [legacySDRStreamRendition "vp9", hdrRendition]) = true ↔
      [legacySDRStreamRendition "vp9", hdrRendition] = [] ∨
        ∃ value ∈ [legacySDRStreamRendition "vp9", hdrRendition],
          value.dynamicRange = "sdr" ∧ value.codec = "vp9" :=
  media_accepts_iff (by decide)

/-- A VP8 request whose SDR rendition is VP9: announced by the hub, refused by the media layer. -/
theorem media_rejects_announced :
    ¬ ∀ (codec : String) (values normalized : List StreamRenditionData),
      startStreamRenditions .server codec values = some normalized →
      mediaAccepts streamVideoCodecDescriptors codec (mediaStreamRenditions normalized) = true := by
  intro h
  have haccepts := h "vp8" [legacySDRStreamRendition "vp9"] [legacySDRStreamRendition "vp9"]
    (by decide)
  revert haccepts
  decide

end Voxhold.Stream
