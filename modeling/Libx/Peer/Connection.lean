import Libx.Turn.Client

/-!
# Libx.Peer.Connection — the peer connection and its DTLS transport

peer_connection.c with dtls_transport.c: negotiation, the DTLS handshake, SCTP on top of it, and what the
application sends and receives.  The DTLS backend, SCTP and ICE are seen by what they report.
-/

namespace Libx.Peer

open Libx.Agent (Bytes hexDigitVal)
open Libx.Turn (Text textOfBytes)

/-! ### DTLS -/

/-- A SHA-256 fingerprint: `XDTLS_FINGERPRINT_SIZE` bytes. -/
abbrev Fingerprint := {b : Bytes // b.length = 32}

/-- The loop of `xDtlsFingerprintFromStr`; `n` bytes are missing. -/
def fingerprintLoop : ℕ → Bytes → Option Bytes
  | 0, _ => some []
  | _ + 1, [] => none
  | n + 1, c :: rest =>
    if c = 58 then fingerprintLoop (n + 1) rest
    else
      match hexDigitVal c, rest with
      | none, _ => none
      | some _, [] => none
      | some hi, d :: rest =>
        match hexDigitVal d with
        | none => none
        | some lo => (fingerprintLoop n rest).map (UInt8.ofNat (16 * hi + lo) :: ·)

/-- `xDtlsFingerprintFromStr`. -/
def fingerprintFromStr (str : Bytes) : Option Bytes := fingerprintLoop 32 str

/-- `xDtlsRole`. -/
inductive DtlsRole
  | active | passive | actpass
  deriving DecidableEq, Repr

/-- `xDtlsState`. -/
inductive DtlsState
  | new | connecting | connected | failed | closed
  deriving DecidableEq, Repr

/-- `xDtlsTransportConf`. -/
structure DtlsConf where
  role : DtlsRole
  verifyFingerprint : Bool := false
  remoteFingerprint : Bytes := List.replicate 32 0

/-- `xDtlsTransport_`; `presented` is what the backend reported of the remote certificate when its handshake
was done. -/
structure DtlsTransport where
  conf : DtlsConf
  state : DtlsState := .new
  effectiveRole : DtlsRole
  localFingerprint : Fingerprint
  presented : Option (Option Fingerprint) := none

/-- What `backend->handshake` returns, with the digest of the remote certificate, if there is one, or with
whether input arrived meanwhile. -/
inductive Handshake
  | ok (remote : Option Fingerprint)
  | again (fed : Bool)
  | error

/-- `xDtlsRole_Actpass` resolved. -/
def DtlsRole.effective : DtlsRole → DtlsRole
  | .actpass => .passive
  | role => role

namespace DtlsTransport

/-- `xDtlsTransportCreate`, with the fingerprint of the generated certificate. -/
def create (conf : DtlsConf) (fp : Fingerprint) : DtlsTransport :=
  { conf, effectiveRole := conf.role.effective, localFingerprint := fp }

/-- The end of a handshake that the backend has completed. -/
def complete (remote : Option Fingerprint) (t : DtlsTransport) : DtlsTransport :=
  let t := { t with presented := some remote }
  if t.conf.verifyFingerprint = true ∧ remote.map Subtype.val ≠ some t.conf.remoteFingerprint then
    { t with state := .failed }
  else { t with state := .connected }

/-- The loop of `drive_handshake` over the results of the backend. -/
def driveLoop : List Handshake → DtlsTransport → DtlsTransport
  | [], t => t
  | .ok remote :: _, t => t.complete remote
  | .again fed :: hs, t => if fed then driveLoop hs t else t
  | .error :: _, t => { t with state := .failed }

/-- `drive_handshake`. -/
def driveHandshake (hs : List Handshake) (t : DtlsTransport) : DtlsTransport :=
  if t.state ≠ .connecting then t else t.driveLoop hs

/-- `xDtlsTransportStart`. -/
def start (hs : List Handshake) (t : DtlsTransport) : DtlsTransport :=
  if t.state ≠ .new then t else driveHandshake hs { t with state := .connecting }

/-- `handshake_timeout_cb`. -/
def handshakeTimeout (t : DtlsTransport) : DtlsTransport :=
  if t.state = .connecting then { t with state := .failed } else t

/-- `xDtlsTransportSetRole`, with whether the backend can. -/
def setRole (role : DtlsRole) (ok : Bool) (t : DtlsTransport) : DtlsTransport :=
  if t.state ≠ .new then t
  else if role.effective = t.effectiveRole then t
  else if ok then { t with effectiveRole := role.effective } else t

end DtlsTransport

/-! ### The connection -/

/-- `xPeerConnectionState`. -/
inductive ConnectionState
  | new | connecting | connected | disconnected | failed | closed
  deriving DecidableEq, Repr

/-- `xIceState`, as far as it is reported to the connection. -/
inductive IceState
  | checking | connected | completed | failed | closed
  deriving DecidableEq, Repr

/-- `xIceSdpSetup`. -/
inductive Setup
  | active | passive | actpass
  deriving DecidableEq, Repr

/-- The WebRTC fields of `xIceSdp`. -/
structure RemoteSdp where
  isWebrtc : Bool
  fingerprint : Text 127
  setup : Setup
  sctpPort : ℕ

/-- What the application sees and does. -/
inductive Event
  /-- A message of the application goes to the DTLS transport. -/
  | sent (data : Bytes)
  /-- `on_dc_message`. -/
  | delivered (data : Bytes)

/-- `xPeerConnection_`, with its history, newest first. -/
structure PeerConnection where
  state : ConnectionState := .new
  dtls : Option DtlsTransport := none
  sctp : Bool := false
  dcMgr : Bool := false
  isOfferer : Bool := false
  gatheringStarted : Bool := false
  remoteSet : Bool := false
  remoteFingerprint : Text 127 := textOfBytes 127 []
  remoteSetup : Setup := .active
  remoteSctpPort : ℕ := 0
  dtlsRole : DtlsRole := .active
  pendingChannelCount : ℕ := 0
  log : List Event := []

/-- `XDC_MAX_CHANNELS`. -/
def maxChannels : ℕ := 64

namespace PeerConnection

/-- `pc_dtls_state_changed`; `sctpOk` tells whether `xSctpTransportCreate` succeeds. -/
def dtlsStateChanged (state : DtlsState) (sctpOk : Bool) (pc : PeerConnection) : PeerConnection :=
  match state with
  | .connected => if sctpOk then { pc with sctp := true } else { pc with sctp := false, state := .failed }
  | .failed => { pc with state := .failed }
  | _ => pc

/-- The transport changes, and `pc_dtls_state_changed` is called if its state does. -/
def setDtls (t t' : DtlsTransport) (sctpOk : Bool) (pc : PeerConnection) : PeerConnection :=
  let pc := { pc with dtls := some t' }
  if t'.state = t.state then pc else pc.dtlsStateChanged t'.state sctpOk

/-- `on_ice_state_change`. -/
def onIceStateChange (s : IceState) (hs : List Handshake) (sctpOk : Bool) (pc : PeerConnection) : PeerConnection :=
  match s with
  | .checking => { pc with state := .connecting }
  | .connected | .completed =>
    match pc.dtls with
    | none => { pc with state := .failed }
    | some t => pc.setDtls t (t.start hs) sctpOk
  | .failed => { pc with state := .failed }
  | .closed => { pc with state := .closed }

/-- `pc_ice_dtls_input` before the handshake is done. -/
def onDtlsInput (hs : List Handshake) (sctpOk : Bool) (pc : PeerConnection) : PeerConnection :=
  match pc.dtls with
  | none => pc
  | some t => pc.setDtls t (t.driveHandshake hs) sctpOk

/-- `pc_sctp_state_changed`: the pending channels are opened. -/
def onSctpConnected (pc : PeerConnection) : PeerConnection :=
  { pc with dcMgr := true, pendingChannelCount := 0, state := .connected }

/-- A message of a data channel out of a decrypted record. -/
def onMessage (data : Bytes) (pc : PeerConnection) : PeerConnection :=
  if pc.dcMgr then { pc with log := .delivered data :: pc.log } else pc

/-- The early DTLS transport of `xPeerConnectionCreateOffer` and `xPeerConnectionCreateAnswer`; `cert` is the
fingerprint of the certificate that the backend generates, if it can. -/
def createDtls (role : DtlsRole) (cert : Option Fingerprint) (pc : PeerConnection) : PeerConnection :=
  match pc.dtls with
  | some _ => pc
  | none => { pc with dtls := cert.map (DtlsTransport.create { role }) }

/-- `xPeerConnectionCreateOffer`. -/
def createOffer (cert : Option Fingerprint) (pc : PeerConnection) : PeerConnection :=
  { pc with isOfferer := true, dtlsRole := .actpass, gatheringStarted := true }.createDtls .passive cert

def answerRole : Setup → DtlsRole
  | .actpass => .passive
  | .active => .passive
  | .passive => .active

/-- `xPeerConnectionCreateAnswer`. -/
def createAnswer (cert : Option Fingerprint) (pc : PeerConnection) : PeerConnection :=
  let role := answerRole pc.remoteSetup
  { pc with isOfferer := false, dtlsRole := role, gatheringStarted := true }.createDtls role cert

/-- `xPeerConnectionSetRemoteDescription` of a text that `xIceSdpDecode` accepts; `roleOk` tells whether the
backend can change its role. -/
def setRemoteDescription (sdp : RemoteSdp) (roleOk : Bool) (pc : PeerConnection) : PeerConnection :=
  let pc :=
    if sdp.isWebrtc then
      let role :=
        if pc.isOfferer then if sdp.setup = .active then DtlsRole.passive else .active
        else answerRole sdp.setup
      { pc with
        remoteFingerprint := if sdp.fingerprint.1.bytes ≠ [] then sdp.fingerprint else pc.remoteFingerprint
        remoteSetup := sdp.setup
        remoteSctpPort := sdp.sctpPort
        dtlsRole := role
        dtls := if pc.isOfferer then pc.dtls.map (DtlsTransport.setRole role roleOk) else pc.dtls }
    else pc
  { pc with remoteSet := true }

/-- `xPeerConnectionCreateDataChannel` before SCTP is connected. -/
def createDataChannel (pc : PeerConnection) : PeerConnection :=
  if pc.dcMgr = true ∨ maxChannels ≤ pc.pendingChannelCount then pc
  else { pc with pendingChannelCount := pc.pendingChannelCount + 1 }

/-- `xDtlsTransportSend` of a message that SCTP has taken. -/
def send (data : Bytes) (pc : PeerConnection) : PeerConnection :=
  match pc.dtls with
  | none => pc
  | some t => if t.state ≠ .connected then pc else { pc with log := .sent data :: pc.log }

/-- The calls of the application, and what ICE, the DTLS backend and SCTP report. -/
inductive Input
  | createOffer (cert : Option Fingerprint)
  | createAnswer (cert : Option Fingerprint)
  | setLocalDescription
  | setRemoteDescription (sdp : Option RemoteSdp) (roleOk : Bool)
  | createDataChannel
  | send (data : Bytes)
  | ice (s : IceState) (hs : List Handshake) (sctpOk : Bool)
  | dtls (hs : List Handshake) (sctpOk : Bool)
  | handshakeTimeout
  | sctpConnected
  | message (data : Bytes)

/-- One step.  SCTP reports when it is there, and the application sends over a data channel. -/
def step (pc : PeerConnection) : Input → Option PeerConnection
  | .createOffer cert => some (pc.createOffer cert)
  | .createAnswer cert => some (pc.createAnswer cert)
  | .setLocalDescription => some { pc with gatheringStarted := true }
  | .setRemoteDescription none _ => some pc
  | .setRemoteDescription (some sdp) roleOk => some (pc.setRemoteDescription sdp roleOk)
  | .createDataChannel => some pc.createDataChannel
  | .send data => if pc.dcMgr then some (pc.send data) else none
  | .ice s hs sctpOk => some (pc.onIceStateChange s hs sctpOk)
  | .dtls hs sctpOk => some (pc.onDtlsInput hs sctpOk)
  | .handshakeTimeout =>
    match pc.dtls with
    | none => none
    | some t => some (pc.setDtls t t.handshakeTimeout false)
  | .sctpConnected => if pc.sctp then some pc.onSctpConnected else none
  | .message data => if pc.sctp then some (pc.onMessage data) else none

end PeerConnection

end Libx.Peer
