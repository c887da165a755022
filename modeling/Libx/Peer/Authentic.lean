import Libx.Peer.Connection

/-!
# Libx.Peer.Authentic — whom the data channel is opened to

The fingerprint of the remote description against the certificate that the DTLS remote presents.
-/

namespace Libx.Peer

open Libx.Core (Run)
open Libx.Agent (Bytes)
open Libx.Turn (textOfBytes)
open Option

/-! ### The rule -/

/-- The 32 bytes written in an `a=fingerprint` value. -/
def writtenIn (f : Bytes) : Option Bytes :=
  if f.take 8 = [115, 104, 97, 45, 50, 53, 54, 32] then fingerprintFromStr (f.drop 8) else none

namespace PeerConnection

/-- What the DTLS remote presented when the handshake was done. -/
def presented (pc : PeerConnection) : Option (Option Fingerprint) := pc.dtls.bind DtlsTransport.presented

/-- The certificate is the one that the description announced, if it announced one. -/
def Matches (f : Bytes) (remote : Option (Option Fingerprint)) : Prop :=
  f ≠ [] → ∃ d : Fingerprint, remote = some (some d) ∧ writtenIn f = some d.1

def Genuine (pc : PeerConnection) : Prop := Matches pc.remoteFingerprint.1.bytes pc.presented

def Secured (pc : PeerConnection) : Prop := ∃ t, pc.dtls = some t ∧ t.state = .connected

/-- Connected, with SCTP on top and data of the application, to the negotiated peer only; and the connection
fails when another one has completed the handshake. -/
structure Authentic (pc : PeerConnection) : Prop where
  transport : pc.Secured → pc.Genuine
  sctp : pc.sctp = true → pc.Genuine
  application : pc.log ≠ [] → pc.Genuine
  refused : pc.presented.isSome → ¬ pc.Genuine → pc.state = .failed

/-- The handshake that the results complete, with what the remote presents in it. -/
def completed : List Handshake → Option (Option Fingerprint)
  | [] => none
  | .ok remote :: _ => some remote
  | .again fed :: hs => if fed then completed hs else none
  | .error :: _ => none

/-- The steps that break the rule: the remote completes the handshake with another certificate, or a
description that announces another certificate follows. -/
def Breaks (pc : PeerConnection) : Input → Prop
  | .ice .connected hs _ => ∃ t r, pc.dtls = some t ∧ t.state = .new ∧ completed hs = some r ∧
      ¬ Matches pc.remoteFingerprint.1.bytes (some r)
  | .ice .completed hs _ => ∃ t r, pc.dtls = some t ∧ t.state = .new ∧ completed hs = some r ∧
      ¬ Matches pc.remoteFingerprint.1.bytes (some r)
  | .dtls hs _ => ∃ t r, pc.dtls = some t ∧ t.state = .connecting ∧ completed hs = some r ∧
      ¬ Matches pc.remoteFingerprint.1.bytes (some r)
  | .setRemoteDescription (some sdp) _ => sdp.isWebrtc = true ∧ pc.Secured ∧ ¬ Matches sdp.fingerprint.1.bytes pc.presented
  | _ => False

/-- What is always so: no fingerprint is asked for, the handshake is done when the transport is connected, and
everything else comes after it. -/
structure Sound (pc : PeerConnection) : Prop where
  lax : ∀ t, pc.dtls = some t → t.conf.verifyFingerprint = false
  done : ∀ t, pc.dtls = some t → (t.state = .connected ↔ t.presented.isSome)
  sctp : pc.sctp = true → pc.Secured
  dcMgr : pc.dcMgr = true → pc.sctp = true
  log : pc.log ≠ [] → pc.Secured

variable {pc t : PeerConnection}

theorem authentic_iff (h : Sound pc) : Authentic pc ↔ (pc.Secured → pc.Genuine) := by
  constructor
  · exact fun ha => ha.transport
  · intro hg
    refine ⟨hg, fun hs => hg (h.sctp hs), fun hl => hg (h.log hl), ?_⟩
    intro hp hn
    unfold presented at hp
    cases hd : pc.dtls with
    | none =>
      rw [hd] at hp
      cases hp
    | some d =>
      rw [hd] at hp
      exact absurd (hg ⟨d, hd, (h.done d hd).mpr hp⟩) hn

/-! ### The handshake -/

theorem driveLoop_spec {d : DtlsTransport} (hs : List Handshake) (hv : d.conf.verifyFingerprint = false)
    (hst : d.state = .connecting) (hp : d.presented = none) :
    (d.driveLoop hs).conf = d.conf ∧
      ((d.driveLoop hs).state = .connected ↔ (completed hs).isSome) ∧ (d.driveLoop hs).presented = completed hs := by
  induction hs with
  | nil =>
    refine ⟨rfl, ?_, hp⟩
    show d.state = .connected ↔ _
    rw [hst]
    simp [completed]
  | cons r hs ih =>
    cases r with
    | ok remote =>
      unfold DtlsTransport.driveLoop DtlsTransport.complete
      rw [if_neg (fun h => by rw [hv] at h; exact Bool.false_ne_true h.1)]
      exact ⟨rfl, by simp [completed], rfl⟩
    | error => exact ⟨rfl, by simp [DtlsTransport.driveLoop, completed], hp⟩
    | again fed =>
      unfold DtlsTransport.driveLoop completed
      cases fed with
      | true => exact ih
      | false =>
        refine ⟨rfl, ?_, hp⟩
        show d.state = .connected ↔ _
        rw [hst]
        simp

/-- The transport after a step of the handshake, in which what `r` tells was completed. -/
structure Driven (d d' : DtlsTransport) (r : Option (Option Fingerprint)) : Prop where
  conf : d'.conf = d.conf
  state : d'.state = .connected ↔ d.state = .connected ∨ r.isSome
  presented : d'.presented = r.or d.presented

variable {d d' : DtlsTransport} {r : Option (Option Fingerprint)} {sctpOk : Bool}

theorem Driven.refl (d : DtlsTransport) : Driven d d none :=
  ⟨rfl, by simp, rfl⟩

theorem driven_driveHandshake (hs : List Handshake) (hv : d.conf.verifyFingerprint = false)
    (hp : d.state = .connected ↔ d.presented.isSome) :
    Driven d (d.driveHandshake hs) (if d.state = .connecting then completed hs else none) := by
  unfold DtlsTransport.driveHandshake
  by_cases hst : d.state = .connecting
  · have hnone : d.presented = none := by
      rw [hst] at hp
      simpa using hp
    rw [if_neg (not_not_intro hst), if_pos hst]
    obtain ⟨hconf, hstate, hpres⟩ := driveLoop_spec hs hv hst hnone
    refine ⟨hconf, ?_, ?_⟩
    · rw [hstate, hst]
      simp
    · rw [hpres, hnone, or_none]
  · rw [if_pos hst, if_neg hst]
    exact Driven.refl d

theorem driven_start (hs : List Handshake) (hv : d.conf.verifyFingerprint = false)
    (hp : d.state = .connected ↔ d.presented.isSome) :
    Driven d (d.start hs) (if d.state = .new then completed hs else none) := by
  unfold DtlsTransport.start
  by_cases hst : d.state = .new
  · have hnone : d.presented = none := by
      rw [hst] at hp
      simpa using hp
    rw [if_neg (not_not_intro hst), if_pos hst]
    obtain ⟨hconf, hstate, hpres⟩ :=
      driven_driveHandshake (d := { d with state := .connecting }) hs hv (by simp [hnone])
    refine ⟨hconf, ?_, hpres⟩
    rw [hstate, hst]
    simp
  · rw [if_pos hst, if_neg hst]
    exact Driven.refl d

theorem driven_handshakeTimeout : Driven d d.handshakeTimeout none := by
  unfold DtlsTransport.handshakeTimeout
  split_ifs with hst
  · refine ⟨rfl, ?_, rfl⟩
    rw [hst]
    simp
  · exact Driven.refl d

theorem setDtls_fields (pc : PeerConnection) (d d' : DtlsTransport) (sctpOk : Bool) :
    (pc.setDtls d d' sctpOk).dtls = some d' ∧ (pc.setDtls d d' sctpOk).remoteFingerprint = pc.remoteFingerprint ∧
      (pc.setDtls d d' sctpOk).log = pc.log ∧ (pc.setDtls d d' sctpOk).dcMgr = pc.dcMgr ∧
      ((pc.setDtls d d' sctpOk).sctp = pc.sctp ∨ d'.state = .connected ∧ d.state ≠ .connected) := by
  unfold setDtls dtlsStateChanged
  by_cases hst : d'.state = d.state
  · rw [if_pos hst]
    exact ⟨rfl, rfl, rfl, rfl, .inl rfl⟩
  · rw [if_neg hst]
    cases hs : d'.state with
    | connected =>
      rw [hs] at hst
      split_ifs
      all_goals exact ⟨rfl, rfl, rfl, rfl, .inr ⟨rfl, fun h => hst h.symm⟩⟩
    | _ => exact ⟨rfl, rfl, rfl, rfl, .inl rfl⟩

theorem secured_iff (hd : pc.dtls = some d) : pc.Secured ↔ d.state = .connected := by
  constructor
  · rintro ⟨d', hd', hst⟩
    rw [hd] at hd'
    obtain rfl := some.inj hd'
    exact hst
  · exact fun hst => ⟨d, hd, hst⟩

theorem sound_setDtls (h : Sound pc) (hd : pc.dtls = some d) (hdr : Driven d d' r)
    (hfresh : r.isSome → d.state ≠ .connected) : Sound (pc.setDtls d d' sctpOk) := by
  obtain ⟨hd', -, hlog, hmgr, hsctp⟩ := setDtls_fields pc d d' sctpOk
  have hkeep : pc.Secured → (pc.setDtls d d' sctpOk).Secured := by
    intro hsec
    exact ⟨d', hd', hdr.state.mpr (.inl ((secured_iff hd).mp hsec))⟩
  constructor
  · intro x hx
    rw [hd'] at hx
    obtain rfl := some.inj hx
    rw [hdr.conf]
    exact h.lax d hd
  · intro x hx
    rw [hd'] at hx
    obtain rfl := some.inj hx
    rw [hdr.state, hdr.presented, h.done d hd]
    cases r <;> simp
  · intro hs
    rcases hsctp with heq | ⟨hc, -⟩
    · rw [heq] at hs
      exact hkeep (h.sctp hs)
    · exact ⟨d', hd', hc⟩
  · intro hm
    rw [hmgr] at hm
    have hs := h.dcMgr hm
    rcases hsctp with heq | ⟨-, hnc⟩
    · rw [heq]
      exact hs
    · exact absurd ((secured_iff hd).mp (h.sctp hs)) hnc
  · rw [hlog]
    exact fun hl => hkeep (h.log hl)

theorem genuine_setDtls_iff (hd : pc.dtls = some d) (hdr : Driven d d' r)
    (hg : pc.Secured → pc.Genuine) :
    ((pc.setDtls d d' sctpOk).Secured → (pc.setDtls d d' sctpOk).Genuine) ↔
      ∀ x, r = some x → Matches pc.remoteFingerprint.1.bytes (some x) := by
  obtain ⟨hd', hfp, -⟩ := setDtls_fields pc d d' sctpOk
  have hpres : (pc.setDtls d d' sctpOk).presented = r.or pc.presented := by
    unfold presented
    rw [hd', hd]
    exact hdr.presented
  rw [secured_iff hd', hdr.state, Genuine, hfp, hpres]
  cases r with
  | none =>
    rw [none_or]
    constructor
    · intro _ x hx
      cases hx
    · rintro - (hc | hc)
      · exact hg ((secured_iff hd).mpr hc)
      · cases hc
  | some x =>
    rw [some_or]
    constructor
    · rintro hm y hy
      obtain rfl := some.inj hy
      exact hm (.inr rfl)
    · exact fun hm _ => hm x rfl

/-! ### Steps -/

theorem Sound.same (h : Sound pc) (hd : t.dtls = pc.dtls) (hs : t.sctp = pc.sctp)
    (hm : t.dcMgr = true → pc.sctp = true) (hl : t.log ≠ [] → pc.Secured) : Sound t := by
  have hsec : pc.Secured → t.Secured := by
    rintro ⟨d, hd', hst⟩
    exact ⟨d, hd.trans hd', hst⟩
  constructor
  · rw [hd]
    exact h.lax
  · rw [hd]
    exact h.done
  · rw [hs]
    exact fun hs => hsec (h.sctp hs)
  · rw [hs]
    exact hm
  · exact fun hne => hsec (hl hne)

theorem genuine_same (hd : t.dtls = pc.dtls) (hf : t.remoteFingerprint = pc.remoteFingerprint)
    (hg : pc.Secured → pc.Genuine) : t.Secured → t.Genuine := by
  rintro ⟨d, hd', hst⟩
  unfold Genuine presented
  rw [hd, hf]
  exact hg ⟨d, hd.symm.trans hd', hst⟩

theorem sound_createDtls (role : DtlsRole) (cert : Option Fingerprint) (h : Sound pc) :
    Sound (pc.createDtls role cert) ∧ ((pc.Secured → pc.Genuine) →
      (pc.createDtls role cert).Secured → (pc.createDtls role cert).Genuine) := by
  unfold createDtls
  cases hd : pc.dtls with
  | some d => exact ⟨h, id⟩
  | none =>
    have hno : ¬ pc.Secured := by
      rintro ⟨d, hd', -⟩
      rw [hd] at hd'
      cases hd'
    have hnew : ∀ d, cert.map (DtlsTransport.create { role }) = some d →
        d.conf.verifyFingerprint = false ∧ d.state = .new ∧ d.presented = none := by
      intro d hcert
      obtain ⟨fp, -, rfl⟩ := map_eq_some_iff.mp hcert
      exact ⟨rfl, rfl, rfl⟩
    constructor
    · constructor
      · exact fun d hcert => (hnew d hcert).1
      · intro d hcert
        obtain ⟨-, hst, hp⟩ := hnew d hcert
        rw [hst, hp]
        simp
      · exact fun hs => absurd (h.sctp hs) hno
      · exact h.dcMgr
      · exact fun hl => absurd (h.log hl) hno
    · rintro - ⟨d, hcert, hst⟩
      obtain ⟨-, hnewst, -⟩ := hnew d hcert
      rw [hst] at hnewst
      cases hnewst

theorem setRole_fields (role : DtlsRole) (ok : Bool) (d : DtlsTransport) :
    (d.setRole role ok).conf = d.conf ∧ (d.setRole role ok).state = d.state ∧
      (d.setRole role ok).presented = d.presented := by
  unfold DtlsTransport.setRole
  split_ifs <;> exact ⟨rfl, rfl, rfl⟩

theorem setRemoteDescription_fields (sdp : RemoteSdp) (roleOk : Bool) (pc : PeerConnection) :
    (∀ x, (pc.setRemoteDescription sdp roleOk).dtls = some x → ∃ d, pc.dtls = some d ∧ x.conf = d.conf ∧
        x.state = d.state ∧ x.presented = d.presented) ∧
      (pc.setRemoteDescription sdp roleOk).presented = pc.presented ∧
      ((pc.setRemoteDescription sdp roleOk).Secured ↔ pc.Secured) ∧
      (pc.setRemoteDescription sdp roleOk).sctp = pc.sctp ∧ (pc.setRemoteDescription sdp roleOk).dcMgr = pc.dcMgr ∧
      (pc.setRemoteDescription sdp roleOk).log = pc.log ∧
      (pc.setRemoteDescription sdp roleOk).remoteFingerprint =
        if sdp.isWebrtc = true ∧ sdp.fingerprint.1.bytes ≠ [] then sdp.fingerprint else pc.remoteFingerprint := by
  unfold setRemoteDescription
  cases hw : sdp.isWebrtc with
  | false => exact ⟨fun x hx => ⟨x, hx, rfl, rfl, rfl⟩, rfl, Iff.rfl, rfl, rfl, rfl, rfl⟩
  | true =>
    cases ho : pc.isOfferer with
    | false => exact ⟨fun x hx => ⟨x, hx, rfl, rfl, rfl⟩, rfl, Iff.rfl, rfl, rfl, rfl, by simp⟩
    | true =>
      refine ⟨?_, ?_, ?_, rfl, rfl, rfl, by simp⟩
      · intro x hx
        have hx : pc.dtls.map (DtlsTransport.setRole (if sdp.setup = .active then .passive else .active) roleOk) =
          some x := hx
        obtain ⟨d, hd, rfl⟩ := map_eq_some_iff.mp hx
        exact ⟨d, hd, setRole_fields _ _ _⟩
      · unfold presented
        cases pc.dtls with
        | none => rfl
        | some d => exact (setRole_fields _ _ d).2.2
      · constructor
        · rintro ⟨x, hx, hst⟩
          have hx : pc.dtls.map (DtlsTransport.setRole (if sdp.setup = .active then .passive else .active) roleOk) =
            some x := hx
          obtain ⟨d, hd, rfl⟩ := map_eq_some_iff.mp hx
          exact ⟨d, hd, (setRole_fields _ _ d).2.1.symm.trans hst⟩
        · rintro ⟨d, hd, hst⟩
          exact ⟨_, map_eq_some_iff.mpr ⟨d, hd, rfl⟩, (setRole_fields _ _ d).2.1.trans hst⟩

theorem step_setRemoteDescription (h : Sound pc) (hg : pc.Secured → pc.Genuine) (sdp : RemoteSdp) (roleOk : Bool) :
    Sound (pc.setRemoteDescription sdp roleOk) ∧
      (((pc.setRemoteDescription sdp roleOk).Secured → (pc.setRemoteDescription sdp roleOk).Genuine) ↔
        ¬ pc.Breaks (.setRemoteDescription (some sdp) roleOk)) := by
  obtain ⟨hdtls, hpres, hsec, hsctp, hmgr, hlog, hfp⟩ := setRemoteDescription_fields sdp roleOk pc
  constructor
  · constructor
    · intro x hx
      obtain ⟨d, hd, hconf, -, -⟩ := hdtls x hx
      rw [hconf]
      exact h.lax d hd
    · intro x hx
      obtain ⟨d, hd, -, hst, hp⟩ := hdtls x hx
      rw [hst, hp]
      exact h.done d hd
    · rw [hsctp, hsec]
      exact h.sctp
    · rw [hsctp, hmgr]
      exact h.dcMgr
    · rw [hlog, hsec]
      exact h.log
  · show _ ↔ ¬ (sdp.isWebrtc = true ∧ pc.Secured ∧ ¬ Matches sdp.fingerprint.1.bytes pc.presented)
    rw [hsec, Genuine, hpres, hfp]
    by_cases hset : sdp.isWebrtc = true ∧ sdp.fingerprint.1.bytes ≠ []
    · rw [if_pos hset]
      constructor
      · rintro hm ⟨-, hs, hno⟩
        exact hno (hm hs)
      · intro hno hs
        by_contra hm
        exact hno ⟨hset.1, hs, hm⟩
    · rw [if_neg hset]
      refine iff_of_true hg ?_
      rintro ⟨hw, -, hno⟩
      refine hno fun hne => ?_
      exact absurd ⟨hw, hne⟩ hset

theorem genuine_step_iff {i : Input} (h : Sound pc) (hg : pc.Secured → pc.Genuine) (ht : pc.step i = some t) :
    Sound t ∧ ((t.Secured → t.Genuine) ↔ ¬ pc.Breaks i) := by
  have hstart (hs : List Handshake) (ok : Bool) (hno : ∀ d, pc.dtls = some d → t = pc.setDtls d (d.start hs) ok)
      (hnone : pc.dtls = none → t = { pc with state := .failed }) :
      Sound t ∧ ((t.Secured → t.Genuine) ↔ ¬ ∃ d r, pc.dtls = some d ∧ d.state = .new ∧ completed hs = some r ∧
        ¬ Matches pc.remoteFingerprint.1.bytes (some r)) := by
    cases hd : pc.dtls with
    | none =>
      rw [hnone hd]
      refine ⟨h.same rfl rfl h.dcMgr h.log, iff_of_true (genuine_same rfl rfl hg) ?_⟩
      rintro ⟨d, r, hd', -⟩
      cases hd'
    | some d =>
      rw [hno d hd]
      have hdr := driven_start hs (h.lax d hd) (h.done d hd)
      refine ⟨sound_setDtls h hd hdr ?_, (genuine_setDtls_iff hd hdr hg).trans ?_⟩
      · split_ifs with hst
        · intro _ hc
          rw [hst] at hc
          cases hc
        · intro hn
          cases hn
      · by_cases hst : d.state = .new
        · simp [hst]
        · simp [hst]
  cases i with
  | createOffer cert =>
    obtain rfl := some.inj ht
    have hsame : Sound { pc with isOfferer := true, dtlsRole := .actpass, gatheringStarted := true } :=
      h.same rfl rfl h.dcMgr h.log
    obtain ⟨hs, hgen⟩ := sound_createDtls .passive cert hsame
    exact ⟨hs, iff_of_true (hgen (genuine_same rfl rfl hg)) not_false⟩
  | createAnswer cert =>
    obtain rfl := some.inj ht
    have hsame : Sound { pc with isOfferer := false, dtlsRole := answerRole pc.remoteSetup, gatheringStarted := true } :=
      h.same rfl rfl h.dcMgr h.log
    obtain ⟨hs, hgen⟩ := sound_createDtls (answerRole pc.remoteSetup) cert hsame
    exact ⟨hs, iff_of_true (hgen (genuine_same rfl rfl hg)) not_false⟩
  | setLocalDescription =>
    obtain rfl := some.inj ht
    exact ⟨h.same rfl rfl h.dcMgr h.log, iff_of_true (genuine_same rfl rfl hg) not_false⟩
  | setRemoteDescription sdp roleOk =>
    cases sdp with
    | none =>
      obtain rfl := some.inj ht
      exact ⟨h, iff_of_true hg not_false⟩
    | some sdp =>
      obtain rfl := some.inj ht
      exact step_setRemoteDescription h hg sdp roleOk
  | createDataChannel =>
    obtain rfl := some.inj ht
    unfold createDataChannel
    split_ifs
    · exact ⟨h, iff_of_true hg not_false⟩
    · exact ⟨h.same rfl rfl h.dcMgr h.log, iff_of_true (genuine_same rfl rfl hg) not_false⟩
  | send data =>
    unfold step at ht
    dsimp only at ht
    split_ifs at ht
    obtain rfl := some.inj ht
    unfold send
    cases hd : pc.dtls with
    | none => exact ⟨h, iff_of_true hg not_false⟩
    | some d =>
      dsimp only
      split_ifs with hst
      · exact ⟨h, iff_of_true hg not_false⟩
      · have hsec : pc.Secured := ⟨d, hd, not_not.mp hst⟩
        exact ⟨h.same hd.symm rfl h.dcMgr (fun _ => hsec), iff_of_true (genuine_same hd.symm rfl hg) not_false⟩
  | ice s hs ok =>
    obtain rfl := some.inj ht
    cases s with
    | checking | failed | closed =>
      exact ⟨h.same rfl rfl h.dcMgr h.log, iff_of_true (genuine_same rfl rfl hg) not_false⟩
    | connected | completed =>
      refine hstart hs ok ?_ ?_
      · intro d hd
        unfold onIceStateChange
        rw [hd]
      · intro hd
        unfold onIceStateChange
        rw [hd]
  | dtls hs ok =>
    obtain rfl := some.inj ht
    show Sound (pc.onDtlsInput hs ok) ∧ (_ ↔ ¬ ∃ d r, pc.dtls = some d ∧ d.state = .connecting ∧ completed hs = some r ∧
      ¬ Matches pc.remoteFingerprint.1.bytes (some r))
    unfold onDtlsInput
    cases hd : pc.dtls with
    | none =>
      refine ⟨h, iff_of_true hg ?_⟩
      rintro ⟨d, r, hd', -⟩
      cases hd'
    | some d =>
      have hdr := driven_driveHandshake hs (h.lax d hd) (h.done d hd)
      refine ⟨sound_setDtls h hd hdr ?_, (genuine_setDtls_iff hd hdr hg).trans ?_⟩
      · split_ifs with hst
        · intro _ hc
          rw [hst] at hc
          cases hc
        · intro hn
          cases hn
      · by_cases hst : d.state = .connecting
        · simp [hst]
        · simp [hst]
  | handshakeTimeout =>
    unfold step at ht
    cases hd : pc.dtls with
    | none =>
      rw [hd] at ht
      cases ht
    | some d =>
      rw [hd] at ht
      obtain rfl := some.inj ht
      have hdr := driven_handshakeTimeout (d := d)
      refine ⟨sound_setDtls h hd hdr (fun hn => by cases hn), (genuine_setDtls_iff hd hdr hg).trans ?_⟩
      refine iff_of_true ?_ not_false
      intro x hx
      cases hx
  | sctpConnected =>
    unfold step at ht
    dsimp only at ht
    split_ifs at ht with hsctp
    obtain rfl := some.inj ht
    exact ⟨h.same rfl rfl (fun _ => hsctp) h.log, iff_of_true (genuine_same rfl rfl hg) not_false⟩
  | message data =>
    unfold step at ht
    dsimp only at ht
    split_ifs at ht with hsctp
    obtain rfl := some.inj ht
    unfold onMessage
    split_ifs
    · exact ⟨h.same rfl rfl h.dcMgr (fun _ => h.sctp hsctp), iff_of_true (genuine_same rfl rfl hg) not_false⟩
    · exact ⟨h, iff_of_true hg not_false⟩

theorem sound_init : Sound {} := by
  constructor
  · intro d hd
    cases hd
  · intro d hd
    cases hd
  · intro hs
    cases hs
  · intro hm
    cases hm
  · intro hl
    exact absurd rfl hl

/-- **Only to the negotiated peer**: in every run without a step that breaks the rule, it holds in every state,
and such a step always breaks it. -/
theorem authentic_iff_of_run {pc t : PeerConnection} {i : Input} (h : Run step (fun pc i => ¬ pc.Breaks i) {} pc)
    (ht : pc.step i = some t) : Authentic pc ∧ (Authentic t ↔ ¬ pc.Breaks i) := by
  have hinv : Sound pc ∧ (pc.Secured → pc.Genuine) := by
    refine h.preserves (I := fun pc => Sound pc ∧ (pc.Secured → pc.Genuine)) ?_ ⟨sound_init, ?_⟩
    · rintro pc i t ⟨hs, hg⟩ hno hstep
      obtain ⟨hs', hiff⟩ := genuine_step_iff hs hg hstep
      exact ⟨hs', hiff.mpr hno⟩
    · rintro ⟨d, hd, -⟩
      cases hd
  obtain ⟨hs, hiff⟩ := genuine_step_iff hinv.1 hinv.2 ht
  exact ⟨(authentic_iff hinv.1).mpr hinv.2, (authentic_iff hs).trans hiff⟩

section Examples

/-- A description that announces the fingerprint of 32 zeros. -/
def someSdp : RemoteSdp :=
  ⟨true, textOfBytes 127 ([115, 104, 97, 45, 50, 53, 54, 32] ++ (List.replicate 31 [48, 48, 58]).flatten ++ [48, 48]),
    .active, 5000⟩

/-- The certificate that it announces, and another one. -/
def someCertificate : Fingerprint := ⟨List.replicate 32 0, rfl⟩
def otherCertificate : Fingerprint := ⟨List.replicate 32 1, rfl⟩

/-- An offerer that has the answer, and whose ICE agent has connected. -/
def someOfferer : PeerConnection :=
  ((({} : PeerConnection).createOffer (some otherCertificate)).setRemoteDescription someSdp true).onIceStateChange
    .connected [] true

/-- The announced peer completes the handshake. -/
theorem authentic_iff_of_run_announced : ∃ pc t, Run step (fun pc i => ¬ pc.Breaks i) {} pc ∧
    pc.step (.dtls [.ok (some someCertificate)] true) = some t ∧ t.sctp = true ∧ Authentic pc ∧
    (Authentic t ↔ ¬ pc.Breaks (.dtls [.ok (some someCertificate)] true)) := by
  have h1 : Run step (fun pc i => ¬ pc.Breaks i) {} (({} : PeerConnection).createOffer (some otherCertificate)) :=
    .single (m := .createOffer (some otherCertificate)) not_false rfl
  have h2 := h1.tail (m := .setRemoteDescription (some someSdp) true)
    (by
      rintro ⟨-, ⟨d, hd, hst⟩, -⟩
      obtain rfl := some.inj hd
      cases hst)
    rfl
  have h3 : Run step (fun pc i => ¬ pc.Breaks i) {} someOfferer := h2.tail (m := .ice .connected [] true)
    (by
      rintro ⟨d, r, -, -, hr, -⟩
      cases hr)
    rfl
  exact ⟨_, _, h3, rfl, rfl, authentic_iff_of_run h3 rfl⟩

/-- Another peer completes the handshake, and the connection goes on. -/
theorem not_authentic_impostor : ∃ pc, Run step (fun _ _ => True) {} pc ∧ pc.sctp = true ∧ ¬ Authentic pc := by
  have h : Run step (fun _ _ => True) {} (someOfferer.onDtlsInput [.ok (some otherCertificate)] true) :=
    (((Run.single (m := Input.createOffer (some otherCertificate)) trivial rfl).tail
      (m := .setRemoteDescription (some someSdp) true) trivial rfl).tail
      (m := .ice .connected [] true) trivial rfl).tail (m := .dtls [.ok (some otherCertificate)] true) trivial rfl
  refine ⟨_, h, rfl, fun ha => ?_⟩
  obtain ⟨d, hd, hw⟩ := ha.sctp rfl (by decide +kernel)
  obtain rfl : otherCertificate = d := some.inj (some.inj hd)
  have hzero : writtenIn someSdp.fingerprint.1.bytes = some (List.replicate 32 0) := by decide +kernel
  have hw : writtenIn someSdp.fingerprint.1.bytes = some (List.replicate 32 1) := hw
  exact absurd (some.inj hw) (by decide)

end Examples

end PeerConnection

end Libx.Peer
