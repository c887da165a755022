import Libx.DataChannel.Manager

/-!
# Libx.DataChannel.Open — what is read of a DATA_CHANNEL_OPEN
-/

namespace Libx.DataChannel

open Libx.Agent (Bytes cstr cstr_bytes)
open Libx.Ice (readBE writeU16 writeU32 readBE_writeU16 readBE_writeU32 length_writeU16 length_writeU32)
open Libx.Turn (Text textOfBytes)
open List

/-- The lengths and the reliability parameter that a message announces. -/
def announcedLabelLen (data : Bytes) : ℕ := readBE ((data.drop 8).take 2)
def announcedProtoLen (data : Bytes) : ℕ := readBE ((data.drop 10).take 2)
def announcedReliability (data : Bytes) : ℕ := readBE ((data.drop 4).take 4)

/-- The bytes of the label and of the protocol that a message announces. -/
def announcedLabel (data : Bytes) : Bytes := (data.drop 12).take (announcedLabelLen data)
def announcedProtocol (data : Bytes) : Bytes :=
  (data.drop (12 + announcedLabelLen data)).take (announcedProtoLen data)

def baseType (data : Bytes) : UInt8 := data.getD 1 0 &&& 0x7F

/-- A configuration says what the message says. -/
structure Says (data : Bytes) (conf : ChannelConf) : Prop where
  label : conf.label.1.bytes = announcedLabel data
  protocol : conf.protocol.1.bytes = announcedProtocol data
  retransmits : baseType data = 0x01 → conf.maxRetransmits.toNat = announcedReliability data
  lifeTime : baseType data = 0x02 → conf.maxPacketLifeTime.toNat = announcedReliability data

/-- A configuration with at most one of the two limits comes back from its encoding. -/
def RoundTrips : Prop :=
  ∀ conf cap raw, conf.maxRetransmits = 0 ∨ conf.maxPacketLifeTime = 0 → dcepEncodeOpen conf cap = some raw →
    dcepDecodeOpen raw = some conf

/-- What `dcep_decode_open` returns says what the message says. -/
def Exact (data : Bytes) : Prop := ∀ conf, dcepDecodeOpen data = some conf → Says data conf

/-- A message that is accepted: long enough for what it announces. -/
def Accepted (data : Bytes) : Prop :=
  12 ≤ data.length ∧ data.headD 0 = dcepOpen ∧ 12 + announcedLabelLen data + announcedProtoLen data ≤ data.length

/-- **The condition**: the label and the protocol have no NUL and fit their arrays, and a reliability parameter that counts
fits 16 bits. -/
structure Fits (data : Bytes) : Prop where
  label : announcedLabelLen data < 256 ∧ 0 ∉ announcedLabel data
  protocol : announcedProtoLen data < 256 ∧ 0 ∉ announcedProtocol data
  reliability : baseType data = 0x01 ∨ baseType data = 0x02 → announcedReliability data < 65536

/-! ### What was encoded is read back -/

theorem textOfBytes_bytes (t : Text 255) : textOfBytes 255 t.1.bytes = t := by
  refine Subtype.ext ?_
  show cstr (t.1.bytes.take 255) = t.1
  rw [take_of_length_le t.2, cstr_bytes]

theorem decode_parts (type : UInt8) {r : ℕ} (hr : r < 4294967296) (label protocol : Text 255) :
    dcepDecodeOpen (dcepOpen :: type :: 0 :: 0 :: (writeU32 r ++ (writeU16 label.1.bytes.length ++
      (writeU16 protocol.1.bytes.length ++ (label.1.bytes ++ protocol.1.bytes))))) = some
        { label, protocol
          ordered := type &&& 0x80 = 0
          maxRetransmits := if type &&& 0x7F = 0x01 then UInt16.ofNat r else 0
          maxPacketLifeTime := if type &&& 0x7F = 0x02 then UInt16.ofNat r else 0 } := by
  generalize hdata : dcepOpen :: type :: 0 :: 0 :: (writeU32 r ++ (writeU16 label.1.bytes.length ++
    (writeU16 protocol.1.bytes.length ++ (label.1.bytes ++ protocol.1.bytes)))) = data
  have hlen : data.length = 12 + label.1.bytes.length + protocol.1.bytes.length := by
    rw [← hdata]
    simp only [length_cons, length_append, length_writeU32, length_writeU16]
    omega
  have hrel : readBE ((data.drop 4).take 4) = r := by
    rw [← hdata]
    show readBE (writeU32 r) = r
    rw [readBE_writeU32, Nat.mod_eq_of_lt hr]
  have hllen : readBE ((data.drop 8).take 2) = label.1.bytes.length := by
    rw [← hdata]
    show readBE (writeU16 label.1.bytes.length) = _
    rw [readBE_writeU16, Nat.mod_eq_of_lt (by omega)]
  have hplen : readBE ((data.drop 10).take 2) = protocol.1.bytes.length := by
    rw [← hdata]
    show readBE (writeU16 protocol.1.bytes.length) = _
    rw [readBE_writeU16, Nat.mod_eq_of_lt (by omega)]
  have hrest : data.drop 12 = label.1.bytes ++ protocol.1.bytes := by rw [← hdata]; rfl
  have hrest' : data.drop (12 + label.1.bytes.length) = protocol.1.bytes := by
    rw [← drop_drop, hrest, drop_left]
  unfold dcepDecodeOpen
  dsimp only
  rw [hrel, hllen, hplen, hrest, hrest', if_neg (by omega), if_neg (by rw [← hdata]; exact not_not.mpr rfl),
    if_neg (by omega), if_pos (by omega), if_pos (by omega), take_left, take_length, textOfBytes_bytes,
    textOfBytes_bytes, ← hdata]
  rfl

/-- **What was encoded is read back.** -/
theorem roundTrips : RoundTrips := by
  rintro ⟨label, protocol, ordered, rtx, life⟩ cap raw h he
  have hrtx := rtx.toNat_lt
  have hlife := life.toNat_lt
  unfold dcepEncodeOpen at he
  dsimp only at he h
  by_cases hcap : cap < 12 + label.1.bytes.length + protocol.1.bytes.length
  · rw [if_pos hcap] at he
    cases he
  rw [if_neg hcap] at he
  obtain rfl := Option.some.inj he
  rw [decode_parts _ (by split_ifs <;> omega)]
  by_cases hr : rtx = 0
  · by_cases hl : life = 0
    · subst hr hl
      have htype : channelType ⟨label, protocol, ordered, 0, 0⟩ = if ordered then 0x00 else 0x80 := rfl
      rw [htype]
      cases ordered <;> simp
    · subst hr
      have htype : channelType ⟨label, protocol, ordered, 0, life⟩ = if ordered then 0x02 else 0x82 := if_pos hl
      rw [htype, if_neg (not_not.mpr rfl), if_pos hl]
      cases ordered <;> simp
      all_goals exact ⟨by decide, fun h => absurd h (by decide), fun h => absurd (by decide) h⟩
  · obtain rfl : life = 0 := h.resolve_left hr
    have htype : channelType ⟨label, protocol, ordered, rtx, 0⟩ = if ordered then 0x01 else 0x81 := if_pos hr
    rw [htype, if_pos hr]
    cases ordered <;> simp
    all_goals exact ⟨by decide, fun h => absurd (by decide) h, fun h => absurd h (by decide)⟩

/-! ### What is read of any message -/

theorem textOfBytes_iff {n : ℕ} {b : Bytes} (hb : b.length = n) :
    (textOfBytes 255 (if n < 256 then b else [])).1.bytes = b ↔ n < 256 ∧ 0 ∉ b := by
  subst hb
  by_cases hlen : b.length < 256
  · rw [if_pos hlen]
    show (b.take 255).takeWhile (fun c => c ≠ 0) = b ↔ _
    rw [take_of_length_le (by omega), takeWhile_eq_self_iff]
    refine ⟨fun h => ⟨hlen, fun h0 => ?_⟩, fun h x hx => ?_⟩
    · simpa using h 0 h0
    · simpa using fun h0 : x = 0 => h.2 (h0 ▸ hx)
  · rw [if_neg hlen]
    refine iff_of_false (fun h => ?_) (fun h => hlen h.1)
    have hlen' : b.length = 0 := by rw [← h]; rfl
    omega

/-- What is returned for a message that is accepted. -/
def readConf (data : Bytes) : ChannelConf where
  label := textOfBytes 255 (if announcedLabelLen data < 256 then announcedLabel data else [])
  protocol := textOfBytes 255 (if announcedProtoLen data < 256 then announcedProtocol data else [])
  ordered := data.getD 1 0 &&& 0x80 = 0
  maxRetransmits := if baseType data = 0x01 then UInt16.ofNat (announcedReliability data) else 0
  maxPacketLifeTime := if baseType data = 0x02 then UInt16.ofNat (announcedReliability data) else 0

theorem dcepDecodeOpen_eq (data : Bytes) : (Accepted data ∧ dcepDecodeOpen data = some (readConf data)) ∨
    ¬ Accepted data ∧ dcepDecodeOpen data = none := by
  unfold dcepDecodeOpen
  by_cases h1 : data.length < 12
  · exact .inr ⟨fun h => absurd h.1 (by omega), if_pos h1⟩
  rw [if_neg h1]
  by_cases h2 : data.headD 0 ≠ dcepOpen
  · exact .inr ⟨fun h => h2 h.2.1, if_pos h2⟩
  rw [if_neg h2]
  by_cases h3 : data.length < 12 + announcedLabelLen data + announcedProtoLen data
  · exact .inr ⟨fun h => absurd h.2.2 (by omega), if_pos h3⟩
  · exact .inl ⟨⟨by omega, not_not.mp h2, by omega⟩, if_neg h3⟩

theorem ofNat16_iff {n : ℕ} : (UInt16.ofNat n).toNat = n ↔ n < 65536 := by
  rw [UInt16.toNat_ofNat']
  exact Nat.mod_eq_iff_lt (by decide)

theorem says_readConf_iff {data : Bytes} (h : Accepted data) : Says data (readConf data) ↔ Fits data := by
  have hlabel : (announcedLabel data).length = announcedLabelLen data := by
    have := h.2.2
    simp only [announcedLabel, length_take, length_drop]
    omega
  have hproto : (announcedProtocol data).length = announcedProtoLen data := by
    have := h.2.2
    simp only [announcedProtocol, length_take, length_drop]
    omega
  have hrtx (hb : baseType data = 0x01) : (readConf data).maxRetransmits = UInt16.ofNat (announcedReliability data) :=
    if_pos hb
  have hlife (hb : baseType data = 0x02) :
      (readConf data).maxPacketLifeTime = UInt16.ofNat (announcedReliability data) := if_pos hb
  constructor
  · rintro ⟨h1, h2, h3, h4⟩
    refine ⟨(textOfBytes_iff hlabel).mp h1, (textOfBytes_iff hproto).mp h2, ?_⟩
    rintro (hb | hb)
    · exact ofNat16_iff.mp (hrtx hb ▸ h3 hb)
    · exact ofNat16_iff.mp (hlife hb ▸ h4 hb)
  · rintro ⟨h1, h2, h3⟩
    refine ⟨(textOfBytes_iff hlabel).mpr h1, (textOfBytes_iff hproto).mpr h2, fun hb => ?_, fun hb => ?_⟩
    · rw [hrtx hb, ofNat16_iff]
      exact h3 (.inl hb)
    · rw [hlife hb, ofNat16_iff]
      exact h3 (.inr hb)

/-- **What was encoded is read back, and any message that is accepted is read exactly where it fits.** -/
theorem roundTrips_exact_iff (data : Bytes) : RoundTrips ∧ Exact data ↔ (Accepted data → Fits data) := by
  rw [and_iff_right roundTrips]
  rcases dcepDecodeOpen_eq data with ⟨ha, he⟩ | ⟨ha, he⟩
  · rw [← says_readConf_iff ha]
    refine ⟨fun h _ => h _ he, fun h conf hc => ?_⟩
    obtain rfl := Option.some.inj (he.symm.trans hc)
    exact h ha
  · refine iff_of_true (fun conf hc => ?_) (fun h => absurd h ha)
    rw [he] at hc
    cases hc

/-- An OPEN of a channel with 65537 retransmissions. -/
def manyRetransmits : Bytes := dcepOpen :: 0x01 :: 0 :: 0 :: (writeU32 65537 ++ (writeU16 1 ++ (writeU16 0 ++ [97])))

/-- The channel is said to have one. -/
theorem not_exact_manyRetransmits : ¬ (RoundTrips ∧ Exact manyRetransmits) := by
  rintro ⟨-, h⟩
  have hc : dcepDecodeOpen manyRetransmits = some (readConf manyRetransmits) := rfl
  exact absurd ((h _ hc).retransmits (by decide)) (by decide)

end Libx.DataChannel
