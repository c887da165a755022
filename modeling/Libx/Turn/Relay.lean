import Libx.Turn.Credentials

/-!
# Libx.Turn.Relay — what the TURN server relays

A datagram that the client hands to `send_fn` for a peer, read back by the server.
-/

namespace Libx.Turn

open Libx.Core (Run)
open Libx.Agent (Bytes)
open Libx.Ice List Option

/-- The event settles what the server makes of a channel number. -/
def Event.about (number : ℕ) : Event → Bool
  | .bound n _ => n = number
  | .unbound n => n = number
  | _ => false

/-- The server has confirmed the channel for the peer, and the binding has not failed or lapsed since. -/
def Confirmed (log : List Event) (number : ℕ) (peer : Addr) : Prop :=
  log.find? (Event.about number) = some (.bound number peer)

namespace Client

/-- The datagram, read as ChannelData or as a Send indication, is for the peer and holds the payload; and
ChannelData is on a channel of the client's for the peer that the server has confirmed. -/
def Relayed (c : Client) (peer : Addr) (data d : Bytes) : Prop :=
  (∃ ch, channelDataDecode d = some (ch, data) ∧ (∃ b ∈ c.channels, b.number = ch ∧ b.peer = peer) ∧
    (∀ b ∈ c.channels, b.number = ch → b.peer = peer) ∧ Confirmed c.log ch peer) ∨
  ∃ msg a b, decode d = some msg ∧ msg.type = MsgType.sendIndication.toNat ∧
    msg.last attrXorPeerAddress = some a ∧ decodeXorAddress msg.txnId a = some peer ∧
    msg.last attrData = some b ∧ b.value = data

/-- The payload fits: on a channel its length fits the 16 bits of the header (one that is too long for the
buffer is refused), and the channel is confirmed; in an indication the peer is an address and the attributes
fit the buffer. -/
def Relayable (c : Client) (peer : SockAddr) (data : Bytes) : Prop :=
  match c.findChannelForPeer peer.1 with
  | some ch => 4 + align4 (data.length % 65536) ≤ 1280 → data.length < 65536 ∧ Confirmed c.log ch peer.1
  | none => peer.1 ≠ .unspec ∧ headerSize + (4 + align4 peer.1.size) + (4 + align4 data.length) ≤ 1280

/-! ### Channels -/

/-- The channels are bound, their numbers are ChannelData numbers, and no two are the same. -/
structure Numbered (c : Client) : Prop where
  bound : ∀ b ∈ c.channels, b.bound = true
  range : ∀ b ∈ c.channels, channelMin ≤ b.number ∧ b.number < c.nextChannel
  next : channelMin ≤ c.nextChannel ∧ c.nextChannel ≤ channelMax + 1
  distinct : (c.channels.map Channel.number).Nodup

variable {c t : Client} {e : Env}

def SameChannels (c t : Client) : Prop := t.channels = c.channels ∧ t.nextChannel = c.nextChannel

theorem Numbered.same (h : Numbered c) (hs : SameChannels c t) : Numbered t := by
  obtain ⟨h1, h2⟩ := hs
  constructor
  · rw [h1]
    exact h.bound
  · rw [h1, h2]
    exact h.range
  · rw [h2]
    exact h.next
  · rw [h1]
    exact h.distinct

theorem SameChannels.trans {u : Client} (h : SameChannels c t) (h' : SameChannels t u) : SameChannels c u :=
  ⟨h'.1.trans h.1, h'.2.trans h.2⟩

theorem sendRequest_channels (e : Env) (auth : Bool) (kind : Kind) (c : Client) :
    SameChannels c (c.sendRequest e auth kind) := by
  unfold sendRequest
  split_ifs
  all_goals exact ⟨rfl, rfl⟩

theorem complete_channels (e : Env) (ctx : Ctx) (msg : Option StunMsg) (c : Client) :
    SameChannels c (c.complete e ctx msg) := by
  unfold complete
  cases ctx with
  | permission peer => exact ⟨rfl, rfl⟩
  | channelBind number peer =>
    dsimp only
    unfold onChannelBindResponse
    split
    · exact ⟨rfl, rfl⟩
    · split_ifs
      · exact ⟨rfl, rfl⟩
      · exact ⟨rfl, rfl⟩
  | refresh =>
    dsimp only
    unfold onRefreshResponse
    split
    · exact ⟨rfl, rfl⟩
    · split_ifs
      · exact ⟨rfl, rfl⟩
      · exact ⟨rfl, rfl⟩
  | allocate =>
    dsimp only
    unfold onAllocateResponse
    split
    · exact ⟨rfl, rfl⟩
    · dsimp only
      split_ifs
      · obtain ⟨h1, h2⟩ := sendRequest_channels e true .allocate _
        exact ⟨h1, h2⟩
      all_goals exact ⟨rfl, rfl⟩

theorem cancelAll_channels (e : Env) (n : ℕ) (c : Client) : SameChannels c (c.cancelAll e n) := by
  induction n generalizing c with
  | zero => exact ⟨rfl, rfl⟩
  | succ n ih =>
    unfold cancelAll
    cases c.txnMgr with
    | nil => exact ⟨rfl, rfl⟩
    | cons u rest =>
      refine SameChannels.trans ?_ (ih _)
      split_ifs
      · exact ⟨rfl, rfl⟩
      · exact complete_channels e u.ctx none c

theorem numbered_channelBind (h : Numbered c) (peer : SockAddr) : Numbered (c.channelBind e peer) := by
  unfold channelBind
  split_ifs with h1 h2 h3
  · exact h
  · exact h
  · exact h
  · refine Numbered.same ?_ (sendRequest_channels e c.hasCredentials (.channelBind c.nextChannel peer) _)
    have hmin := h.next
    constructor
    · intro b hb
      rcases mem_append.mp hb with hb | hb
      · exact h.bound b hb
      · obtain rfl := mem_singleton.mp hb
        rfl
    · intro b hb
      show channelMin ≤ b.number ∧ b.number < c.nextChannel + 1
      rcases mem_append.mp hb with hb | hb
      · have hb := h.range b hb
        omega
      · obtain rfl := mem_singleton.mp hb
        dsimp only
        omega
    · show channelMin ≤ c.nextChannel + 1 ∧ c.nextChannel + 1 ≤ channelMax + 1
      omega
    · show ((c.channels ++ [Channel.mk c.nextChannel peer.1 true]).map Channel.number).Nodup
      rw [map_append, nodup_append]
      refine ⟨h.distinct, nodup_singleton _, ?_⟩
      intro m hm n hn
      obtain ⟨b, hb, rfl⟩ := mem_map.mp hm
      obtain rfl := mem_singleton.mp hn
      have hlt : b.number < c.nextChannel := (h.range b hb).2
      dsimp only
      omega

theorem Numbered.sendRequest {auth : Bool} {kind : Kind} (h : Numbered c) : Numbered (c.sendRequest e auth kind) :=
  h.same (sendRequest_channels e auth kind c)

theorem Numbered.complete {ctx : Ctx} {msg : Option StunMsg} (h : Numbered c) : Numbered (c.complete e ctx msg) :=
  h.same (complete_channels e ctx msg c)

theorem Numbered.step {i : Env × Input} (h : Numbered c) (hs : c.step i = some t) : Numbered t := by
  obtain ⟨e, i⟩ := i
  cases i with
  | allocate =>
    obtain rfl := some.inj hs
    unfold Client.allocate
    split_ifs
    · exact h
    · exact Numbered.sendRequest (h.same ⟨rfl, rfl⟩)
  | createPermission peer =>
    obtain rfl := some.inj hs
    unfold Client.createPermission
    split_ifs
    · exact h
    · exact h
    all_goals exact Numbered.sendRequest (h.same ⟨rfl, rfl⟩)
  | channelBind peer =>
    obtain rfl := some.inj hs
    exact numbered_channelBind h peer
  | sendData peer data =>
    obtain rfl := some.inj hs
    split
    · exact h
    · exact h.same ⟨rfl, rfl⟩
  | message m =>
    obtain rfl := some.inj hs
    unfold Client.onMessage
    split_ifs
    · unfold Client.onResponse
      split
      · exact h
      · exact Numbered.complete (h.same ⟨rfl, rfl⟩)
    · split
      · exact h.same ⟨rfl, rfl⟩
      · exact h
    · exact h
  | channelData buf =>
    obtain rfl := some.inj hs
    unfold Client.onChannelData
    split
    · exact h
    · split
      · exact h
      · exact h.same ⟨rfl, rfl⟩
  | retransmit j =>
    unfold Client.step at hs
    dsimp only at hs
    unfold Client.onRetransmit at hs
    split at hs
    · cases hs
    · obtain rfl := some.inj hs
      exact Numbered.complete (h.same ⟨rfl, rfl⟩)
    · obtain rfl := some.inj hs
      exact h.same ⟨rfl, rfl⟩
  | refresh =>
    unfold Client.step at hs
    split_ifs at hs
    obtain rfl := some.inj hs
    unfold Client.refreshTimerCb
    dsimp only
    split_ifs
    · exact h.same ⟨rfl, rfl⟩
    · exact Numbered.sendRequest (h.same ⟨rfl, rfl⟩)
  | destroy =>
    obtain rfl := some.inj hs
    obtain ⟨h1, h2⟩ := cancelAll_channels e c.txnMgr.length { c with refreshTimer := false }
    exact h.same ⟨h1, h2⟩
  | lapse number =>
    obtain rfl := some.inj hs
    exact h.same ⟨rfl, rfl⟩

theorem numbered_of_run {config : Config} (h : Run step (fun _ _ => True) (init config) c) : Numbered c := by
  refine h.preserves (fun _ _ _ hn _ hs => hn.step hs) ?_
  refine ⟨fun b hb => absurd hb not_mem_nil, fun b hb => absurd hb not_mem_nil, ?_, nodup_nil⟩
  show channelMin ≤ 0x4000 ∧ 0x4000 ≤ channelMax + 1
  decide

/-! ### Data on a channel -/

theorem channelDataDecode_encode {ch : ℕ} {data d : Bytes} {cap : ℕ}
    (h : channelDataEncode ch data data.length cap = some d) (hmin : channelMin ≤ ch) (hmax : ch ≤ channelMax) :
    channelDataDecode d = some (ch, cut data) := by
  unfold channelDataEncode at h
  dsimp only at h
  split_ifs at h
  obtain rfl := some.inj h
  have hlen := length_cut data
  rw [cut] at hlen
  have hch : readBE (writeU16 ch) = ch := by
    rw [readBE_writeU16, Nat.mod_eq_of_lt]
    exact Nat.lt_of_le_of_lt hmax (by decide)
  have hn : readBE (writeU16 (data.length % 65536)) = data.length % 65536 := by
    rw [readBE_writeU16, Nat.mod_mod]
  have htotal : 4 + data.length % 65536 ≤ (writeU16 ch ++ (writeU16 (data.length % 65536) ++
      (data.take (data.length % 65536) ++ List.replicate (align4 (data.length % 65536) - data.length % 65536) 0))).length := by
    simp only [length_append, length_writeU16, hlen]
    omega
  rw [channelDataDecode, if_neg (by omega)]
  rw [show List.take 2 (writeU16 ch ++ _) = writeU16 ch from rfl, hch, if_neg (by omega),
    show List.take 2 (List.drop 2 (writeU16 ch ++ (writeU16 (data.length % 65536) ++ _))) =
      writeU16 (data.length % 65536) from rfl, hn, if_neg (by omega)]
  show some (ch, List.take (data.length % 65536) (data.take (data.length % 65536) ++ _)) = _
  rw [take_left' hlen, cut]

theorem decode_channelData {ch : ℕ} {data d : Bytes} {cap : ℕ} (h : channelDataEncode ch data data.length cap = some d)
    (hmin : channelMin ≤ ch) (hmax : ch ≤ channelMax) : decode d = none := by
  unfold channelDataEncode at h
  dsimp only at h
  split_ifs at h
  obtain rfl := some.inj h
  have htop : UInt8.ofNat (ch / 256) &&& 0xC0 ≠ 0 := by
    intro h0
    have hnat := congrArg UInt8.toNat h0
    rw [UInt8.toNat_and, UInt8.toNat_ofNat'] at hnat
    have hbit := congrArg (fun n => n.testBit 6) hnat
    simp only [Nat.testBit_and] at hbit
    have h6 : (ch / 256 % 2 ^ 8).testBit 6 = true := by
      rw [Nat.testBit_eq_decide_div_mod_eq]
      simp only [channelMin, channelMax] at hmin hmax
      simp only [decide_eq_true_eq]
      omega
    rw [h6] at hbit
    exact absurd hbit (by decide)
  unfold decode
  split_ifs with h1 h2
  · rfl
  · rfl
  · exact absurd htop h2
  · exact absurd htop h2

/-! ### Data in an indication -/

theorem sendIndication_cut {e : Env} {peer : SockAddr} {data : Bytes} :
    sendIndication e peer data = sendIndication e peer (cut data) := by
  have hwrite (w : Writer) : w.write e.hmac e.crc (.data data) = w.write e.hmac e.crc (.data (cut data)) := by
    show attrWriteRaw w attrData data data.length = attrWriteRaw w attrData (cut data) (cut data).length
    unfold attrWriteRaw
    dsimp only
    rw [length_cut, Nat.mod_mod, cut, take_take, Nat.min_self]
  unfold sendIndication buildMessage
  simp only [foldl_cons, foldl_nil, tryWrite, hwrite]

theorem size_indication {peer : SockAddr} {data : Bytes} (h : data.length < 65536) :
    ∀ c ∈ [Write.xorPeerAddress peer, .data data], c.size < 65536 := by
  intro c hc
  rcases mem_cons.mp hc with rfl | hc
  · show peer.1.size < 65536
    cases peer.1 <;> simp only [Addr.size] <;> decide
  · obtain rfl := mem_singleton.mp hc
    exact h

theorem mem_of_last {msg : StunMsg} {type : ℕ} {a : Attr} (h : msg.last type = some a) :
    a ∈ msg.attrs ∧ a.type = type := by
  have hmem := mem_of_getLast? h
  rw [mem_filter, decide_eq_true_eq] at hmem
  exact hmem

theorem fits_of_indication {e : Env} {peer : SockAddr} {data : Bytes} {msg : StunMsg} {a b : Attr}
    (hdec : decode (sendIndication e peer data) = some msg) (ha : msg.last attrXorPeerAddress = some a)
    (hb : msg.last attrData = some b) (hval : b.value = data) :
    peer.1 ≠ .unspec ∧ headerSize + (4 + align4 peer.1.size) + (4 + align4 data.length) ≤ 1280 := by
  rw [sendIndication_cut] at hdec
  have hshort : (cut data).length < 65536 := by
    rw [length_cut]
    exact Nat.mod_lt _ (by decide)
  obtain ⟨ws, w, msg', hsub, hall, hdec', -, -, hmap, -⟩ :=
    decode_buildMessage (e := e) .sendIndication zeroTxnId (show 1280 < 65536 by decide)
      (@size_indication peer _ hshort)
  obtain rfl : msg = msg' := some.inj (hdec.symm.trans hdec')
  have hmem {t : ℕ} {x : Attr} (hx : msg.last t = some x) :
      ∃ c ∈ ws, ∃ w', t = c.attrType ∧ x.value = c.value e.hmac e.crc w' := by
    obtain ⟨hin, rfl⟩ := mem_of_last hx
    have hin' : (x.type, x.value) ∈ msg.attrs.map (fun a => (a.type, a.value)) := mem_map_of_mem hin
    rw [hmap] at hin'
    obtain ⟨c, hc, w', hp⟩ := mem_asked hin'
    exact ⟨c, hc, w', (Prod.mk.inj hp).1, (Prod.mk.inj hp).2⟩
  obtain ⟨c, hc, -, htc, -⟩ := hmem ha
  obtain ⟨d, hd, w', htd, hvd⟩ := hmem hb
  -- both writes succeeded
  obtain rfl : ws = [.xorPeerAddress peer, .data (cut data)] := by
    cases hsub with
    | cons _ h =>
      rcases mem_singleton.mp (h.subset hc) with rfl
      exact absurd htc (by show attrXorPeerAddress ≠ attrData; decide)
    | cons_cons _ h =>
      cases h with
      | cons _ h =>
        obtain rfl := sublist_nil.mp h
        rcases mem_singleton.mp hd with rfl
        exact absurd htd (by show attrData ≠ attrXorPeerAddress; decide)
      | cons_cons _ h =>
        obtain rfl := sublist_nil.mp h
        rfl
  have hcut : cut data = data := by
    rcases mem_cons.mp hd with rfl | hd
    · exact absurd htd (by show attrData ≠ attrXorPeerAddress; decide)
    · obtain rfl := mem_singleton.mp hd
      exact hvd.symm.trans hval
  rw [hcut] at hall hshort
  have hlen : w.buf.length ≤ 1280 - headerSize := by
    rw [← foldl_of_writeAll hall]
    exact foldl_cap (Nat.zero_le _)
  have hroom := length_writeAll hall (size_indication hshort)
  simp only [Writer.init, length_nil, Nat.zero_add, room, map_cons, map_nil, sum_cons,
    sum_nil, Write.size] at hroom
  refine ⟨?_, ?_⟩
  · intro hun
    obtain ⟨w₁, hw, -⟩ := writeAll_cons hall
    have hw : encodeAddress (Writer.init .sendIndication zeroTxnId (1280 - headerSize)) attrXorPeerAddress peer.1 true
        zeroTxnId.1 = some w₁ := hw
    rw [hun] at hw
    cases hw
  · omega

theorem attrWriteRaw_of_fits {w : Writer} {type : ℕ} {v : Bytes} (hv : v.length < 65536)
    (h : w.buf.length + (4 + align4 v.length) ≤ w.cap) :
    attrWriteRaw w type v v.length = some { w with buf := w.buf ++ tlv type v } := by
  unfold attrWriteRaw
  rw [Nat.mod_eq_of_lt hv, if_neg (by omega), take_length]

theorem indication_of_fits {e : Env} {peer : SockAddr} {data : Bytes} (hpeer : peer.1 ≠ .unspec)
    (hfit : headerSize + (4 + align4 peer.1.size) + (4 + align4 data.length) ≤ 1280) :
    ∃ msg a b, decode (sendIndication e peer data) = some msg ∧ msg.type = MsgType.sendIndication.toNat ∧
      msg.last attrXorPeerAddress = some a ∧ decodeXorAddress msg.txnId a = some peer.1 ∧
      msg.last attrData = some b ∧ b.value = data := by
  have hle := le_align4 data.length
  have hshort : data.length < 65536 := by omega
  obtain ⟨v, hv⟩ : ∃ v, addressValue true zeroTxnId.1 peer.1 = some v := by
    cases hp : peer.1 with
    | v4 ip port | v6 ip port => exact ⟨_, rfl⟩
    | unspec => exact absurd hp hpeer
  have hsize : v.length = peer.1.size := length_addressValue zeroTxnId.2 hv
  have halign : align4 v.length = align4 peer.1.size := by rw [hsize]
  have hsize' : peer.1.size < 65536 := by
    cases peer.1 <;> simp only [Addr.size] <;> decide
  have hw₁ : (Writer.init .sendIndication zeroTxnId (1280 - headerSize)).write e.hmac e.crc (.xorPeerAddress peer) =
      some ⟨.sendIndication, zeroTxnId, tlv attrXorPeerAddress v, 1280 - headerSize⟩ := by
    show encodeAddress _ attrXorPeerAddress peer.1 true zeroTxnId.1 = _
    unfold encodeAddress
    rw [hv]
    refine (attrWriteRaw_of_fits (by omega) ?_).trans rfl
    show 0 + (4 + align4 v.length) ≤ 1280 - headerSize
    omega
  have hw₂ : (⟨.sendIndication, zeroTxnId, tlv attrXorPeerAddress v, 1280 - headerSize⟩ : Writer).write e.hmac e.crc
      (.data data) = some ⟨.sendIndication, zeroTxnId, tlv attrXorPeerAddress v ++ tlv attrData data,
        1280 - headerSize⟩ := by
    refine attrWriteRaw_of_fits hshort ?_
    show (tlv attrXorPeerAddress v).length + (4 + align4 data.length) ≤ 1280 - headerSize
    rw [length_tlv]
    omega
  have hall : (Writer.init .sendIndication zeroTxnId (1280 - headerSize)).writeAll e.hmac e.crc
      [.xorPeerAddress peer, .data data] = some ⟨.sendIndication, zeroTxnId,
        tlv attrXorPeerAddress v ++ tlv attrData data, 1280 - headerSize⟩ := by
    rw [Writer.writeAll, hw₁, bind_some, Writer.writeAll, hw₂]
    rfl
  obtain ⟨msg, hdec, htype, hid, hmap, hreads⟩ := decode_writeAll hall (by decide) (size_indication hshort)
  have hraw : sendIndication e peer data = header .sendIndication zeroTxnId
      (tlv attrXorPeerAddress v ++ tlv attrData data).length ++ (tlv attrXorPeerAddress v ++ tlv attrData data) := by
    unfold sendIndication buildMessage
    rw [show (⟨.sendIndication, zeroTxnId, [], 1280 - headerSize⟩ : Writer) =
      Writer.init .sendIndication zeroTxnId (1280 - headerSize) from rfl, foldl_of_writeAll hall]
  rw [asked_cons hw₁, asked_cons hw₂] at hmap
  obtain ⟨a, as, hattrs, ha, has⟩ := map_eq_cons_iff.mp hmap
  obtain ⟨b, bs, rfl, hb, hbs⟩ := map_eq_cons_iff.mp has
  obtain rfl := map_eq_nil_iff.mp hbs
  obtain ⟨hta, -⟩ := Prod.mk.inj ha
  obtain ⟨htb, hvb⟩ := Prod.mk.inj hb
  have hta : a.type = attrXorPeerAddress := hta
  have htb : b.type = attrData := htb
  rw [hattrs] at hreads
  have hread : decodeXorAddress zeroTxnId.1 a = some peer.1 := (forall₂_cons.mp hreads).1
  refine ⟨msg, a, b, ?_, htype, ?_, ?_, ?_, hvb⟩
  · rw [hraw]
    exact hdec
  · simp [StunMsg.last, hattrs, hta, htb, attrXorPeerAddress, attrData]
  · rw [hid]
    exact hread
  · simp [StunMsg.last, hattrs, hta, htb, attrXorPeerAddress, attrData]

/-! ### Data to a peer -/

theorem channel_of_find {c : Client} {peer : Addr} {ch : ℕ} (h : c.findChannelForPeer peer = some ch) :
    ∃ b ∈ c.channels, b.number = ch ∧ b.peer = peer := by
  obtain ⟨b, hb, rfl⟩ := map_eq_some_iff.mp h
  have hp := List.find?_some hb
  rw [Bool.and_eq_true] at hp
  exact ⟨b, mem_of_find?_eq_some hb, rfl, (sockaddrEqual_iff.mp hp.2).1⟩

/-- **When a datagram is relayed**: in every state that the client can reach, what `xTurnClientSendData` hands
to `send_fn` when it returns `xErrno_Ok` is read back as that payload for that peer, over a confirmed channel if
over one, exactly when the payload fits and the channel is confirmed. -/
theorem relayed_iff_of_run {config : Config} {c : Client} (h : Run step (fun _ _ => True) (init config) c) (e : Env)
    (peer : SockAddr) (data : Bytes) :
    (e.sendOk = true → ∀ d, c.sendData e peer data = some d → c.Relayed peer.1 data d) ↔
      (e.sendOk = true → c.state = .allocated → c.Relayable peer data) := by
  have hn := numbered_of_run h
  refine imp_congr_right fun _ => ?_
  unfold sendData Relayable
  by_cases hst : c.state = .allocated
  · rw [if_neg (not_not_intro hst)]
    cases hf : c.findChannelForPeer peer.1 with
    | some ch =>
      obtain ⟨b, hb, rfl, hpeer⟩ := channel_of_find hf
      obtain ⟨hmin, hlt⟩ := hn.range b hb
      have hmax : b.number ≤ channelMax := by
        have hnext := hn.next
        omega
      have huniq : ∀ b' ∈ c.channels, b'.number = b.number → b'.peer = peer.1 := by
        intro b' hb' heq
        rw [inj_on_of_nodup_map hn.distinct hb' hb heq]
        exact hpeer
      constructor
      · intro hrel _ hfit
        obtain ⟨d, hd⟩ : ∃ d, channelDataEncode b.number data data.length 1280 = some d := by
          unfold channelDataEncode
          rw [if_neg (by omega)]
          exact ⟨_, rfl⟩
        have hdec := channelDataDecode_encode hd hmin hmax
        rcases hrel d hd with ⟨ch, hdec', -, -, hconf⟩ | ⟨msg, -, -, hdec', -⟩
        · rw [hdec] at hdec'
          obtain ⟨rfl, hcut⟩ := Prod.mk.inj (some.inj hdec')
          refine ⟨?_, hconf⟩
          rw [← hcut, length_cut]
          exact Nat.mod_lt _ (by decide)
        · rw [decode_channelData hd hmin hmax] at hdec'
          cases hdec'
      · intro hrel d hd
        have hfit : 4 + align4 (data.length % 65536) ≤ 1280 := by
          unfold channelDataEncode at hd
          dsimp only at hd
          split_ifs at hd with hcap
          omega
        obtain ⟨hshort, hconf⟩ := hrel hst hfit
        refine .inl ⟨b.number, ?_, ⟨b, hb, rfl, hpeer⟩, huniq, hconf⟩
        rw [channelDataDecode_encode hd hmin hmax, cut_of_short hshort]
    | none =>
      constructor
      · intro hrel _
        rcases hrel _ rfl with ⟨ch, hdec, -⟩ | ⟨msg, a, b, hdec, -, ha, -, hb, hval⟩
        · cases hdec
        · exact fits_of_indication hdec ha hb hval
      · intro hrel d hd
        obtain rfl := some.inj hd
        obtain ⟨hpeer, hfit⟩ := hrel hst
        exact .inr (indication_of_fits hpeer hfit)
  · rw [if_pos hst]
    constructor
    · intro _ hst'
      exact absurd hst' hst
    · intro _ d hd
      cases hd

section Examples

def somePeer : SockAddr := ⟨.v4 167772161 5000, by decide⟩

/-- The answer to an Allocate request: the relayed address is 10.0.0.2 with port 6000. -/
def allocateAnswer : StunMsg :=
  ⟨0x0103, someId.1, [⟨attrXorRelayedAddress, (addressValue true someId.1 (.v4 167772162 6000)).getD [], 0⟩]⟩

/-- The client has an allocation, and has asked for a channel for the peer. -/
def boundClient : Client :=
  (((init someConfig).allocate someEnv).onMessage someEnv allocateAnswer).channelBind someEnv somePeer

theorem run_boundClient : Run step (fun _ _ => True) (init someConfig) boundClient :=
  .tail (.tail (.single (m := (someEnv, .allocate)) trivial rfl)
    (m := (someEnv, .message allocateAnswer)) trivial rfl) (m := (someEnv, .channelBind somePeer)) trivial rfl

/-- The server confirms the channel, and the client sends a byte to the peer. -/
theorem relayed_iff_of_run_confirmed : ∃ c, Run step (fun _ _ => True) (init someConfig) c ∧
    (∀ d, c.sendData someEnv somePeer [1] = some d → c.Relayed somePeer.1 [1] d) := by
  have hrun : Run step (fun _ _ => True) (init someConfig) (boundClient.onMessage someEnv ⟨0x0109, someId.1, []⟩) :=
    run_boundClient.tail (m := (someEnv, .message ⟨0x0109, someId.1, []⟩)) trivial rfl
  refine ⟨_, hrun, (relayed_iff_of_run hrun someEnv somePeer [1]).mpr ?_ rfl⟩
  intro _ _
  show 4 + align4 (1 % 65536) ≤ 1280 → 1 < 65536 ∧ Confirmed _ 0x4000 somePeer.1
  exact fun _ => ⟨by decide, rfl⟩

/-- The byte goes over the channel before the server has confirmed it. -/
theorem not_relayed_unconfirmed : ∃ c d, Run step (fun _ _ => True) (init someConfig) c ∧ someEnv.sendOk = true ∧
    c.sendData someEnv somePeer [1] = some d ∧ ¬ c.Relayed somePeer.1 [1] d := by
  refine ⟨boundClient, [0x40, 0, 0, 1, 1, 0, 0, 0], run_boundClient, rfl, rfl, ?_⟩
  rintro (⟨ch, hdec, -, -, hconf⟩ | ⟨msg, -, -, hdec, -⟩)
  · cases hconf
  · cases hdec

end Examples

end Client

end Libx.Turn
