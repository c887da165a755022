import Libx.Ice.Codec
import Libx.Turn.Client

/-!
# Libx.Turn.Credentials — what a TURN server reads in an authenticated request

The client writes USERNAME with the writer of the connectivity checks, which joins two fragments by a colon.
-/

namespace Libx.Turn

open Libx.Agent (Bytes cstr)
open Libx.Ice List

/-! ### Messages built without looking at the results -/

variable {e : Env} {w w' : Writer} {ws : List Write}

theorem tryWrite_cap (c : Write) (h : w.buf.length ≤ w.cap) :
    (tryWrite e w c).cap = w.cap ∧ (tryWrite e w c).buf.length ≤ w.cap := by
  unfold tryWrite
  cases hw : w.write e.hmac e.crc c with
  | none => exact ⟨rfl, h⟩
  | some w' =>
    obtain ⟨⟨heq, hle⟩, -⟩ := write_eq_some hw
    exact ⟨by rw [heq]; rfl, hle⟩

theorem foldl_cap (h : w.buf.length ≤ w.cap) : (ws.foldl (tryWrite e) w).buf.length ≤ w.cap := by
  induction ws generalizing w with
  | nil => exact h
  | cons c ws ih =>
    obtain ⟨hcap, hle⟩ := tryWrite_cap (e := e) c h
    rw [foldl_cons, ← hcap]
    exact ih (by rw [hcap]; exact hle)

theorem exists_writeAll (e : Env) (w : Writer) (ws : List Write) :
    ∃ ws', ws'.Sublist ws ∧ w.writeAll e.hmac e.crc ws' = some (ws.foldl (tryWrite e) w) := by
  induction ws generalizing w with
  | nil => exact ⟨[], .slnil, rfl⟩
  | cons c ws ih =>
    obtain ⟨ws', hsub, hall⟩ := ih (tryWrite e w c)
    cases hw : w.write e.hmac e.crc c with
    | none =>
      refine ⟨ws', hsub.cons c, ?_⟩
      rw [tryWrite, hw] at hall
      rw [foldl_cons, tryWrite, hw]
      exact hall
    | some w' =>
      refine ⟨c :: ws', hsub.cons_cons c, ?_⟩
      rw [tryWrite, hw] at hall
      rw [foldl_cons, tryWrite, hw, Writer.writeAll, hw]
      exact hall

theorem foldl_of_writeAll (h : w.writeAll e.hmac e.crc ws = some w') : ws.foldl (tryWrite e) w = w' := by
  induction ws generalizing w with
  | nil => exact Option.some.inj h
  | cons c ws ih =>
    obtain ⟨w₁, hw, hcs⟩ := writeAll_cons h
    rw [foldl_cons, tryWrite, hw]
    exact ih hcs

theorem decode_writeAll {type : MsgType} {txnId : TxnId} {cap : ℕ}
    (h : (Writer.init type txnId cap).writeAll e.hmac e.crc ws = some w') (hcap : cap < 65536)
    (hs : ∀ c ∈ ws, c.size < 65536) :
    ∃ msg, decode (header type txnId w'.buf.length ++ w'.buf) = some msg ∧
      msg.type = type.toNat ∧ msg.txnId = txnId.1 ∧
      msg.attrs.map (fun a => (a.type, a.value)) = (Writer.init type txnId cap).asked e.hmac e.crc ws ∧
      List.Forall₂ (Reads e.hmac e.crc (header type txnId w'.buf.length ++ w'.buf) txnId.1) msg.attrs ws := by
  have hlen : w'.buf.length ≤ cap := by
    rw [← foldl_of_writeAll h]
    exact foldl_cap (Nat.zero_le _)
  have hroom := length_writeAll h hs
  have hle := length_le_room ws
  obtain ⟨hdec, -⟩ := decode_header type txnId (show w'.buf.length < 65536 by omega)
  obtain ⟨hmap, hreads⟩ := iterAttrs_writeAll h hs (n := w'.buf.length) (by omega) rfl
  exact ⟨_, hdec, rfl, rfl, hmap, hreads⟩

theorem decode_buildMessage (type : MsgType) (txnId : TxnId) {cap : ℕ} (hcap : cap < 65536)
    (hs : ∀ c ∈ ws, c.size < 65536) :
    ∃ ws' w' msg, ws'.Sublist ws ∧
      (Writer.init type txnId (cap - headerSize)).writeAll e.hmac e.crc ws' = some w' ∧
      decode (buildMessage e type txnId cap ws) = some msg ∧ msg.type = type.toNat ∧ msg.txnId = txnId.1 ∧
      msg.attrs.map (fun a => (a.type, a.value)) =
        (Writer.init type txnId (cap - headerSize)).asked e.hmac e.crc ws' ∧
      List.Forall₂ (Reads e.hmac e.crc (buildMessage e type txnId cap ws) txnId.1) msg.attrs ws' := by
  obtain ⟨ws', hsub, hall⟩ := exists_writeAll e (Writer.init type txnId (cap - headerSize)) ws
  obtain ⟨msg, hdec, ht, hid, hmap, hreads⟩ :=
    decode_writeAll hall (by omega) (fun c hc => hs c (hsub.subset hc))
  exact ⟨ws', _, msg, hsub, hall, hdec, ht, hid, hmap, hreads⟩

theorem mem_asked {hmac : Bytes → Bytes → Digest} {crc : Bytes → UInt32} {p : ℕ × Bytes}
    (h : p ∈ w.asked hmac crc ws) : ∃ c ∈ ws, ∃ w', p = (c.attrType, c.value hmac crc w') := by
  induction ws generalizing w with
  | nil => exact absurd h not_mem_nil
  | cons c ws ih =>
    rcases mem_cons.mp h with rfl | h
    · exact ⟨c, mem_cons_self, w, rfl⟩
    · cases hw : w.write hmac crc c with
      | none =>
        rw [hw] at h
        exact absurd h not_mem_nil
      | some w' =>
        rw [hw] at h
        obtain ⟨d, hd, hp⟩ := ih h
        exact ⟨d, mem_cons_of_mem _ hd, hp⟩

/-! ### Authenticated requests -/

/-- A server that gave out `realm` and `nonce` accepts the datagram: it holds the configured username, the
realm and the nonce, and a MESSAGE-INTEGRITY under the key computed from the username and the realm in it. -/
def Verifies (hmac : Bytes → Bytes → Digest) (md5 : Bytes → Bytes) (config : Config) (realm nonce raw : Bytes) : Prop :=
  ∃ msg u r n a, decode raw = some msg ∧
    msg.first attrUsername = some u ∧ u.value = config.username.1.bytes ∧
    msg.first attrRealm = some r ∧ r.value = realm ∧
    msg.first attrNonce = some n ∧ n.value = nonce ∧
    msg.first attrMessageIntegrity = some a ∧
    verifyMessageIntegrity (fun k m => (hmac k m).1) raw a
      (md5 (u.value ++ 58 :: (r.value ++ 58 :: config.password.1.bytes))) = true

theorem size_requestOf {c : Client} {auth : Bool} {kind : Kind} : ∀ d ∈ c.requestOf e auth kind, d.size < 65536 := by
  have haddr (a : Addr) : a.size < 65536 := by
    cases a <;> simp only [Addr.size] <;> decide
  have hu := c.config.username.2
  have hr := c.realm.2
  have hn := c.nonce.2
  intro d hd
  rcases mem_append.mp hd with hd | hd
  · cases kind with
    | allocate | refresh =>
      obtain rfl := mem_singleton.mp hd
      show 4 < 65536
      decide
    | createPermission peer =>
      obtain rfl := mem_singleton.mp hd
      exact haddr peer.1
    | channelBind number peer =>
      rcases mem_cons.mp hd with rfl | hd
      · show 4 < 65536
        decide
      · obtain rfl := mem_singleton.mp hd
        exact haddr peer.1
  · split_ifs at hd
    · simp only [credentials, mem_cons, not_mem_nil, or_false] at hd
      rcases hd with rfl | rfl | rfl | rfl
      · show c.config.username.1.bytes.length + 1 + 0 < 65536
        omega
      · show c.realm.1.bytes.length < 65536
        omega
      · show c.nonce.1.bytes.length < 65536
        omega
      · show 20 < 65536
        decide
    · exact absurd hd not_mem_nil

theorem username_requestOf {c : Client} {auth : Bool} {kind : Kind} {d : Write} (hd : d ∈ c.requestOf e auth kind)
    (ht : d.attrType = attrUsername) : d = .username c.config.username.1 (cstr []) := by
  rcases mem_append.mp hd with hd | hd
  · cases kind with
    | allocate =>
      obtain rfl := mem_singleton.mp hd
      exact absurd ht (by decide)
    | refresh =>
      obtain rfl := mem_singleton.mp hd
      exact absurd ht (by show attrLifetime ≠ attrUsername; decide)
    | createPermission peer =>
      obtain rfl := mem_singleton.mp hd
      exact absurd ht (by show attrXorPeerAddress ≠ attrUsername; decide)
    | channelBind number peer =>
      rcases mem_cons.mp hd with rfl | hd
      · exact absurd ht (by show attrChannelNumber ≠ attrUsername; decide)
      · obtain rfl := mem_singleton.mp hd
        exact absurd ht (by show attrXorPeerAddress ≠ attrUsername; decide)
  · split_ifs at hd
    · simp only [credentials, mem_cons, not_mem_nil, or_false] at hd
      rcases hd with rfl | rfl | rfl | rfl
      · rfl
      · exact absurd ht (by show attrRealm ≠ attrUsername; decide)
      · exact absurd ht (by show attrNonce ≠ attrUsername; decide)
      · exact absurd ht (by show attrMessageIntegrity ≠ attrUsername; decide)
    · exact absurd hd not_mem_nil

theorem username_buildRequest {e : Env} {c : Client} {auth : Bool} {kind : Kind} {msg : StunMsg} {u : Attr}
    (hdec : decode (c.buildRequest e auth kind) = some msg) (hu : msg.first attrUsername = some u) :
    u.value = c.config.username.1.bytes ++ [58] := by
  obtain ⟨ws', w', msg', hsub, -, hdec', -, -, hmap, -⟩ := decode_buildMessage (e := e) kind.type e.txnId
    (show 512 < 65536 by decide) (@size_requestOf e c auth kind)
  obtain rfl : msg = msg' := Option.some.inj (hdec.symm.trans hdec')
  have hmem : (u.type, u.value) ∈ msg.attrs.map (fun a => (a.type, a.value)) :=
    mem_map_of_mem (mem_of_find?_eq_some hu)
  rw [hmap] at hmem
  obtain ⟨d, hd, w₁, hp⟩ := mem_asked hmem
  obtain ⟨ht, hv⟩ := Prod.mk.inj hp
  have hfound := List.find?_some hu
  have htype : u.type = attrUsername := by simpa using hfound
  obtain rfl := username_requestOf (hsub.subset hd) (ht.symm.trans htype)
  exact hv

/-- **No authenticated request verifies**, whatever the texts, the kind of request and what the server
gave out: the USERNAME in it has a colon more than the configured one. -/
theorem not_verifies (e : Env) (c : Client) (kind : Kind) (realm nonce : Bytes) :
    ¬ Verifies e.hmac e.md5 c.config realm nonce (c.buildRequest e true kind) := by
  rintro ⟨msg, u, r, n, a, hdec, hu, hval, -⟩
  have hlen := congrArg List.length (username_buildRequest hdec hu)
  rw [hval, length_append, length_singleton] at hlen
  omega

section Examples

/-- A configuration for the examples: user `u` with password `p`. -/
def someConfig : Config :=
  ⟨⟨.v4 3232235777 3478, by decide⟩, textOfBytes 127 [117], textOfBytes 127 [112]⟩

/-- An environment for the examples; the hash functions keep the first bytes. -/
def someEnv : Env := ⟨someHmac, fun b => b.take 16, someCrc, someId, true, .unspec⟩

/-- A client that knows the realm `r` and the nonce `n`. -/
def someClient : Client :=
  { Client.init someConfig with
    realm := textOfBytes 127 [114], nonce := textOfBytes 255 [110], hasCredentials := true, state := .allocating }

/-- The Allocate request of user `u` names the user `u:`. -/
theorem not_verifies_colon :
    ¬ Verifies someHmac (fun b => b.take 16) someConfig [114] [110] (someClient.buildRequest someEnv true .allocate) := by
  rintro ⟨msg, u, r, n, a, hdec, hu, hval, -⟩
  have h : someConfig.username.1.bytes = someConfig.username.1.bytes ++ [58] :=
    hval.symm.trans (username_buildRequest hdec hu)
  have hlen := congrArg List.length h
  rw [length_append, length_singleton] at hlen
  omega

end Examples

end Libx.Turn
