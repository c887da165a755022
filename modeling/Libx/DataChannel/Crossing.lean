import Libx.DataChannel.Manager

/-!
# Libx.DataChannel.Crossing — whether data channels cross

Two managers over a reliable ordered transport, and the messages of each channel.
-/

namespace Libx.DataChannel

open Libx.Core (Run)
open Libx.Agent (Bytes)
open Libx.Turn (textOfBytes)
open scoped List
open List Option

/-- The message of the application that is under way. -/
def msgOf : Wire → Option Msg
  | .message _ ppid data id => if ppid = ppidDcep then none else some ⟨id, typeOf ppid, data⟩
  | _ => none

def openOf : Wire → Option ℕ
  | .message _ ppid data id => if ppid = ppidDcep ∧ data.head? = some dcepOpen then some id else none
  | _ => none

namespace Manager

/-- At most one channel that is not closed owns a stream. -/
def Sole (m : Manager) : Prop :=
  ∀ (i j : ℕ) (c d : Channel), m.channels[i]? = some c → m.channels[j]? = some d → c.streamId = d.streamId →
    c.state ≠ .closed → d.state ≠ .closed → i = j

/-- A channel that is not closed owns the stream. -/
def Busy (sid : ℕ) (m : Manager) : Prop := ∃ c ∈ m.channels, c.streamId = sid ∧ c.state ≠ .closed

def OpenAt (sid : ℕ) (m : Manager) : Prop :=
  ∃ i c, m.findChannel sid = some i ∧ m.channels[i]? = some c ∧ c.state = .open

def Has (id sid : ℕ) (m : Manager) : Prop := ∃ c ∈ m.channels, c.id = id ∧ c.streamId = sid

def ids (m : Manager) : List ℕ := m.channels.map Channel.id

/-- Of two channels of a stream, the first is closed and the second is not. -/
def Ordered (m : Manager) : Prop :=
  ∀ (i j : ℕ) (c d : Channel), m.channels[i]? = some c → m.channels[j]? = some d → i < j →
    c.streamId = d.streamId → c.state = .closed ∧ d.state ≠ .closed

end Manager

namespace World

/-- What the claim is about: at either end at most one live channel owns a stream and the channels are from
different OPENs; and what was sent is what `on_message` was called with, on the channel of the same OPEN, and
then what is under way. -/
structure Faithful (w : World) : Prop where
  sole : w.a.mgr.Sole ∧ w.b.mgr.Sole
  ids : w.a.mgr.ids.Nodup ∧ w.b.mgr.ids.Nodup
  ab : w.a.sent = w.b.delivered ++ w.ab.filterMap msgOf
  ba : w.b.sent = w.a.delivered ++ w.ba.filterMap msgOf

/-- A step at the first end that breaks the rule: a channel is created for a stream that has a live channel; an
OPEN is accepted for such a stream; a message arrives where the first channel of its stream is not open. -/
def BreaksAt (w : World) : Act → Prop
  | .create conf ok => ok = true ∧ w.a.mgr.channels.length < maxChannels ∧ (dcepEncodeOpen conf 512).isSome ∧
      w.a.mgr.Busy w.a.mgr.nextStreamId
  | .receive _ =>
    match w.ba with
    | .message sid ppid data _ :: _ =>
      if ppid = ppidDcep then data.head? = some dcepOpen ∧ (dcepDecodeOpen data).isSome ∧
        w.a.mgr.channels.length < maxChannels ∧ w.a.mgr.Busy sid
      else ¬ w.a.mgr.OpenAt sid
    | _ => False
  | _ => False

def Breaks (w : World) : Bool × Act → Prop
  | (false, x) => w.BreaksAt x
  | (true, x) => w.swap.BreaksAt x

end World

/-! ### One table -/

namespace Manager

variable {m : Manager} {c : Channel} {i sid id : ℕ}

theorem findChannel_eq_some (h : m.findChannel sid = some i) :
    ∃ c, m.channels[i]? = some c ∧ c.streamId = sid ∧
      ∀ j d, j < i → m.channels[j]? = some d → d.streamId ≠ sid := by
  obtain ⟨hi, hc, hbefore⟩ := List.findIdx?_eq_some_iff_getElem.mp h
  refine ⟨_, List.getElem?_eq_getElem hi, by simpa using hc, ?_⟩
  intro j d hj hd
  obtain ⟨hlt, rfl⟩ := List.getElem?_eq_some_iff.mp hd
  simpa using hbefore j hj

theorem getElem?_setState (m : Manager) (i j : ℕ) (s : ChannelState) :
    (m.setState i s).channels[j]? =
      (m.channels[j]?).map (fun c => if i = j then { c with state := s } else c) := by
  show (m.channels.modify i _)[j]? = _
  rw [List.getElem?_modify]
  rfl

theorem of_setState {s : ChannelState} {j : ℕ} (h : (m.setState i s).channels[j]? = some c) :
    ∃ d, m.channels[j]? = some d ∧ c.id = d.id ∧ c.streamId = d.streamId ∧
      (i = j ∧ c.state = s ∨ i ≠ j ∧ c.state = d.state) := by
  rw [getElem?_setState] at h
  obtain ⟨d, hd, rfl⟩ := map_eq_some_iff.mp h
  refine ⟨d, hd, ?_⟩
  by_cases hij : i = j
  · rw [if_pos hij]
    exact ⟨rfl, rfl, .inl ⟨hij, rfl⟩⟩
  · rw [if_neg hij]
    exact ⟨rfl, rfl, .inr ⟨hij, rfl⟩⟩

theorem Has.setState (h : m.Has id sid) (i : ℕ) (s : ChannelState) : (m.setState i s).Has id sid := by
  obtain ⟨c, hc, hid, hsid⟩ := h
  obtain ⟨j, hj⟩ := mem_iff_getElem?.mp hc
  have hj' : (m.setState i s).channels[j]? = some (if i = j then { c with state := s } else c) := by
    rw [getElem?_setState, hj]
    rfl
  refine ⟨_, mem_of_getElem? hj', ?_⟩
  split_ifs
  · exact ⟨hid, hsid⟩
  · exact ⟨hid, hsid⟩

theorem ids_setState (m : Manager) (i : ℕ) (s : ChannelState) : (m.setState i s).ids = m.ids := by
  apply ext_getElem?
  intro j
  show ((m.setState i s).channels.map Channel.id)[j]? = (m.channels.map Channel.id)[j]?
  rw [List.getElem?_map, List.getElem?_map, getElem?_setState, Option.map_map]
  congr 1
  funext c
  show (if i = j then { c with state := s } else c).id = c.id
  split_ifs <;> rfl

theorem Ordered.setState {s : ChannelState} (h : m.Ordered) (hc : m.channels[i]? = some c) (hlive : c.state ≠ .closed)
    (hs : s ≠ .closed) : (m.setState i s).Ordered := by
  intro j k x y hx hy hjk hsid
  obtain ⟨x', hx', -, hxs, hxst⟩ := of_setState hx
  obtain ⟨y', hy', -, hys, hyst⟩ := of_setState hy
  obtain ⟨hxc, hyc⟩ := h j k x' y' hx' hy' hjk (by rw [← hxs, hsid, hys])
  rcases hxst with ⟨rfl, -⟩ | ⟨-, hxst⟩
  · rw [hc] at hx'
    obtain rfl := some.inj hx'
    exact absurd hxc hlive
  · refine ⟨by rw [hxst]; exact hxc, ?_⟩
    rcases hyst with ⟨-, hyst⟩ | ⟨-, hyst⟩
    · rw [hyst]
      exact hs
    · rw [hyst]
      exact hyc

theorem Ordered.onStreamClose (h : m.Ordered) (sid : ℕ) : (m.onStreamClose sid).Ordered := by
  unfold Manager.onStreamClose
  cases hf : m.findChannel sid with
  | none => exact h
  | some i =>
    obtain ⟨c, hc, hcs, hfirst⟩ := findChannel_eq_some hf
    intro j k x y hx hy hjk hsid
    obtain ⟨x', hx', -, hxs, hxst⟩ := of_setState hx
    obtain ⟨y', hy', -, hys, hyst⟩ := of_setState hy
    obtain ⟨hxc, hyc⟩ := h j k x' y' hx' hy' hjk (by rw [← hxs, hsid, hys])
    refine ⟨?_, ?_⟩
    · rcases hxst with ⟨-, hxst⟩ | ⟨-, hxst⟩
      · exact hxst
      · rw [hxst]
        exact hxc
    · rcases hyst with ⟨rfl, -⟩ | ⟨-, hyst⟩
      · -- the first channel of the stream has none of the stream before it
        rw [hc] at hy'
        obtain rfl := some.inj hy'
        exact absurd (by rw [← hxs, hsid, hys, hcs]) (hfirst j x' hjk hx')
      · rw [hyst]
        exact hyc

theorem Ordered.append (h : m.Ordered) (hc : c.state ≠ .closed) (hfree : ¬ m.Busy c.streamId) :
    Ordered { m with channels := m.channels ++ [c] } := by
  intro j k x y hx hy hjk hsid
  have hk : k < m.channels.length + 1 := by
    obtain ⟨hlt, -⟩ := List.getElem?_eq_some_iff.mp hy
    simpa using hlt
  rw [List.getElem?_append_left (by omega)] at hx
  by_cases hlast : k = m.channels.length
  · subst hlast
    rw [List.getElem?_concat_length] at hy
    obtain rfl := some.inj hy
    refine ⟨?_, hc⟩
    by_contra hno
    exact hfree ⟨x, mem_of_getElem? hx, hsid, hno⟩
  · rw [List.getElem?_append_left (by omega)] at hy
    exact h j k x y hx hy hjk hsid

theorem Ordered.eq_first (h : m.Ordered) (hf : m.findChannel sid = some i) (hc : m.channels[i]? = some c)
    (hlive : c.state ≠ .closed) (hhas : m.Has id sid) : c.id = id ∧ c.streamId = sid := by
  obtain ⟨c', hc', hsid, hfirst⟩ := findChannel_eq_some hf
  rw [hc] at hc'
  obtain rfl := some.inj hc'
  obtain ⟨d, hd, hid, hds⟩ := hhas
  obtain ⟨j, hj⟩ := mem_iff_getElem?.mp hd
  rcases Nat.lt_trichotomy i j with hlt | rfl | hgt
  · exact absurd (h i j c d hc hj hlt (hsid.trans hds.symm)).1 hlive
  · rw [hc] at hj
    obtain rfl := some.inj hj
    exact ⟨hid, hsid⟩
  · exact absurd hds (hfirst j d hgt hj)

theorem Ordered.sole (h : m.Ordered) : m.Sole := by
  intro i j c d hc hd hsid hcl hdl
  rcases Nat.lt_trichotomy i j with hlt | heq | hgt
  · exact absurd (h i j c d hc hd hlt hsid).1 hcl
  · exact heq
  · exact absurd (h j i d c hd hc hgt hsid.symm).1 hdl

theorem not_sole_append (hc : c.state ≠ .closed) (hbusy : m.Busy c.streamId) :
    ¬ Sole { m with channels := m.channels ++ [c] } := by
  intro hsole
  obtain ⟨d, hd, hds, hdl⟩ := hbusy
  obtain ⟨j, hj⟩ := mem_iff_getElem?.mp hd
  obtain ⟨hlt, -⟩ := List.getElem?_eq_some_iff.mp hj
  have hj' : (m.channels ++ [c])[j]? = some d := by
    rw [List.getElem?_append_left hlt]
    exact hj
  have hlast : (m.channels ++ [c])[m.channels.length]? = some c := List.getElem?_concat_length
  have heq := hsole j m.channels.length d c hj' hlast hds hdl hc
  omega

theorem addChannel_eq_some {m' : Manager} (h : m.addChannel c = some m') :
    m' = { m with channels := m.channels ++ [c] } ∧ m.channels.length < maxChannels := by
  unfold addChannel at h
  split_ifs at h with hroom
  exact ⟨(some.inj h).symm, by omega⟩

theorem modify_concat {α : Type} (f : α → α) (l : List α) (x : α) : (l ++ [x]).modify l.length f = l ++ [f x] := by
  induction l with
  | nil => rfl
  | cons y l ih => exact congrArg (y :: ·) ih

theorem setState_append (c : Channel) (s : ChannelState) :
    ({ m with channels := m.channels ++ [c] } : Manager).setState m.channels.length s =
      { m with channels := m.channels ++ [{ c with state := s }] } := by
  unfold setState
  rw [modify_concat]

end Manager

/-! ### What the ends say about each other -/

/-- The table of `a` and what is under way from it: an open channel, and an OPEN, an ACK or a message, is of a
channel that is there. -/
structure Linked (a b : Manager) (ab : List Wire) : Prop where
  ordered : a.Ordered
  opened : ∀ c ∈ a.channels, c.state = .open → b.Has c.id c.streamId
  control : ∀ sid data id, Wire.message sid ppidDcep data id ∈ ab →
    a.Has id sid ∧ (data.head? = some dcepAck → b.Has id sid)
  data : ∀ sid ppid data id, Wire.message sid ppid data id ∈ ab → ppid ≠ ppidDcep → b.Has id sid

def Within (m m' : Manager) : Prop := ∀ id sid, m.Has id sid → m'.Has id sid

variable {a a' b : Manager} {ab ab' ba : List Wire}

theorem Within.refl (m : Manager) : Within m m := fun _ _ h => h

theorem Linked.other (h : Linked b a ba) (hw : Within a a') {ba' : List Wire} (hsub : ba' ⊆ ba) : Linked b a' ba' := by
  refine ⟨h.ordered, ?_, ?_, ?_⟩
  · exact fun c hc hst => hw _ _ (h.opened c hc hst)
  · intro sid data id hx
    obtain ⟨hb, ha⟩ := h.control sid data id (hsub hx)
    exact ⟨hb, fun hack => hw _ _ (ha hack)⟩
  · exact fun sid ppid data id hx hp => hw _ _ (h.data sid ppid data id (hsub hx) hp)

theorem Linked.grow (h : Linked a b ab) (hord : a'.Ordered) (hw : Within a a')
    (hopen : ∀ c ∈ a'.channels, c.state = .open → b.Has c.id c.streamId) {out : List Wire}
    (hout : ∀ x ∈ out, (∃ sid, x = .reset sid) ∨ (∃ sid, x = .resetDone sid) ∨
      ∃ sid data id, x = .message sid ppidDcep data id ∧ a'.Has id sid ∧
        (data.head? = some dcepAck → b.Has id sid)) :
    Linked a' b (ab ++ out) := by
  refine ⟨hord, hopen, ?_, ?_⟩
  · intro sid data id hx
    rcases mem_append.mp hx with hx | hx
    · obtain ⟨ha, hb⟩ := h.control sid data id hx
      exact ⟨hw _ _ ha, hb⟩
    · rcases hout _ hx with ⟨_, heq⟩ | ⟨_, heq⟩ | ⟨_, _, _, heq, hhas⟩
      · cases heq
      · cases heq
      · cases heq
        exact hhas
  · intro sid ppid data id hx hp
    rcases mem_append.mp hx with hx | hx
    · exact h.data sid ppid data id hx hp
    · rcases hout _ hx with ⟨_, heq⟩ | ⟨_, heq⟩ | ⟨_, _, _, heq, -⟩
      · cases heq
      · cases heq
      · cases heq
        exact absurd rfl hp

theorem within_setState (m : Manager) (i : ℕ) (s : ChannelState) : Within m (m.setState i s) :=
  fun _ _ h => h.setState i s

theorem within_append {m m' : Manager} {c : Channel} (h : m'.channels = m.channels ++ [c]) : Within m m' := by
  rintro id sid ⟨d, hd, hds⟩
  refine ⟨d, ?_, hds⟩
  rw [h]
  exact mem_append_left _ hd

theorem opened_setState {m : Manager} {i : ℕ} {s : ChannelState} (hs : s ≠ .open)
    (h : ∀ c ∈ m.channels, c.state = .open → b.Has c.id c.streamId) :
    ∀ c ∈ (m.setState i s).channels, c.state = .open → b.Has c.id c.streamId := by
  intro c hc hst
  obtain ⟨j, hj⟩ := mem_iff_getElem?.mp hc
  obtain ⟨d, hd, hid, hsid, hcase⟩ := Manager.of_setState hj
  rcases hcase with ⟨-, hcs⟩ | ⟨-, hcs⟩
  · exact absurd (hcs.symm.trans hst) hs
  · rw [hid, hsid]
    exact h d (mem_of_getElem? hd) (hcs.symm.trans hst)

theorem Linked.onStreamClose (h : Linked a b ab) (sid : ℕ) {out : List Wire}
    (hout : ∀ x ∈ out, ∃ sid, x = .resetDone sid) : Linked (a.onStreamClose sid) b (ab ++ out) := by
  have hw : Within a (a.onStreamClose sid) := by
    unfold Manager.onStreamClose
    split
    · exact Within.refl a
    · exact within_setState _ _ _
  refine h.grow (h.ordered.onStreamClose sid) hw ?_ (fun x hx => .inr (.inl (hout x hx)))
  unfold Manager.onStreamClose
  split
  · exact h.opened
  · exact opened_setState (by simp) h.opened

theorem within_onStreamClose (m : Manager) (sid : ℕ) : Within m (m.onStreamClose sid) := by
  unfold Manager.onStreamClose
  split
  · exact Within.refl m
  · exact within_setState _ _ _

theorem ids_onStreamClose (m : Manager) (sid : ℕ) : (m.onStreamClose sid).ids = m.ids := by
  unfold Manager.onStreamClose
  split
  · rfl
  · exact Manager.ids_setState _ _ _

/-! ### What the functions do -/

theorem head_dcepEncodeOpen {conf : ChannelConf} {cap : ℕ} {buf : Bytes} (h : dcepEncodeOpen conf cap = some buf) :
    buf.head? = some dcepOpen := by
  unfold dcepEncodeOpen at h
  by_cases hcap : cap < 12 + conf.label.1.bytes.length + conf.protocol.1.bytes.length
  · rw [if_pos hcap] at h
    cases h
  · rw [if_neg hcap] at h
    obtain rfl := some.inj h
    rfl

theorem create_cases (id : ℕ) (conf : ChannelConf) (ok : Bool) (m : Manager) :
    (∃ buf, buf.head? = some dcepOpen ∧
        (ok = true ∧ m.channels.length < maxChannels ∧ (dcepEncodeOpen conf 512).isSome) ∧
        m.create id conf ok = ({ m with
          channels := m.channels ++ [{ id, streamId := m.nextStreamId, conf }]
          nextStreamId := (m.nextStreamId + 2) % 65536 }, [.message m.nextStreamId ppidDcep buf id])) ∨
      ¬ (ok = true ∧ m.channels.length < maxChannels ∧ (dcepEncodeOpen conf 512).isSome) ∧
        m.create id conf ok = ({ m with nextStreamId := (m.nextStreamId + 2) % 65536 }, []) := by
  unfold Manager.create Manager.addChannel
  dsimp only
  by_cases hroom : maxChannels ≤ m.channels.length
  · right
    rw [if_pos hroom]
    exact ⟨fun h => by omega, rfl⟩
  · rw [if_neg hroom]
    cases hbuf : dcepEncodeOpen conf 512 with
    | none => exact .inr ⟨fun h => Bool.false_ne_true h.2.2, rfl⟩
    | some buf =>
      cases ok with
      | true => exact .inl ⟨buf, head_dcepEncodeOpen hbuf, ⟨rfl, by omega, rfl⟩, rfl⟩
      | false => exact .inr ⟨fun h => Bool.false_ne_true h.1, rfl⟩

variable {data : Bytes}

theorem onData_open (sid id : ℕ) (ok : Bool) (m : Manager) (hdata : data.head? = some dcepOpen) :
    (∃ conf, ((dcepDecodeOpen data).isSome ∧ m.channels.length < maxChannels) ∧
        m.onData sid ppidDcep data id ok =
          ({ m with channels := m.channels ++ [{ id, streamId := sid, state := .open, conf }] },
            if ok then [.message sid ppidDcep [dcepAck] id] else [], [])) ∨
      ¬ ((dcepDecodeOpen data).isSome ∧ m.channels.length < maxChannels) ∧
        m.onData sid ppidDcep data id ok = (m, [], []) := by
  unfold Manager.onData
  rw [if_pos rfl, if_pos hdata]
  cases hconf : dcepDecodeOpen data with
  | none => exact .inr ⟨fun h => Bool.false_ne_true h.1, rfl⟩
  | some conf =>
    dsimp only
    cases hadd : m.addChannel { id, streamId := sid, conf } with
    | none =>
      refine .inr ⟨?_, rfl⟩
      rintro ⟨-, hroom⟩
      unfold Manager.addChannel at hadd
      rw [if_neg (by omega)] at hadd
      cases hadd
    | some m' =>
      obtain ⟨rfl, hroom⟩ := Manager.addChannel_eq_some hadd
      dsimp only
      rw [Manager.setState_append]
      exact .inl ⟨conf, ⟨rfl, hroom⟩, rfl⟩

theorem onData_control (sid id : ℕ) (ok : Bool) (m : Manager) (hdata : data.head? ≠ some dcepOpen) :
    m.onData sid ppidDcep data id ok = (m, [], []) ∨
      data.head? = some dcepAck ∧ ∃ i c, m.findChannel sid = some i ∧ m.channels[i]? = some c ∧
        c.state = .connecting ∧ m.onData sid ppidDcep data id ok = (m.setState i .open, [], []) := by
  unfold Manager.onData
  rw [if_pos rfl, if_neg hdata]
  by_cases hack : data.head? = some dcepAck
  · rw [if_pos hack]
    cases hf : m.findChannel sid with
    | none => exact .inl rfl
    | some i =>
      dsimp only
      split_ifs with hst
      · obtain ⟨c, hc, hcs⟩ := map_eq_some_iff.mp hst
        exact .inr ⟨hack, i, c, rfl, hc, hcs, rfl⟩
      · exact .inl rfl
  · rw [if_neg hack]
    exact .inl rfl

/-- A message of the application: it is handed over on the first channel of its stream, if that one is open. -/
theorem onData_data (sid id : ℕ) (data : Bytes) (ok : Bool) (m : Manager) {ppid : ℕ} (hp : ppid ≠ ppidDcep) :
    (∃ i c, m.findChannel sid = some i ∧ m.channels[i]? = some c ∧ c.state = .open ∧
        m.onData sid ppid data id ok = (m, [], [⟨c.id, typeOf ppid, data⟩])) ∨
      ¬ m.OpenAt sid ∧ m.onData sid ppid data id ok = (m, [], []) := by
  unfold Manager.onData
  rw [if_neg hp]
  cases hf : m.findChannel sid with
  | none =>
    refine .inr ⟨?_, rfl⟩
    rintro ⟨i, c, hi, -⟩
    rw [hf] at hi
    cases hi
  | some i =>
    obtain ⟨c, hc, -, -⟩ := Manager.findChannel_eq_some hf
    rw [bind_some, hc]
    dsimp only
    split_ifs with hst
    · exact .inl ⟨i, c, rfl, hc, hst, rfl⟩
    · refine .inr ⟨?_, rfl⟩
      rintro ⟨j, d, hj, hd, hds⟩
      obtain rfl : i = j := some.inj (hf.symm.trans hj)
      rw [hc] at hd
      obtain rfl := some.inj hd
      exact hst hds

/-! ### Steps -/

namespace World

/-- What every step that does not break the rule keeps. -/
structure Kept (w : World) : Prop where
  ab : Linked w.a.mgr w.b.mgr w.ab
  ba : Linked w.b.mgr w.a.mgr w.ba
  sentAb : w.a.sent = w.b.delivered ++ w.ab.filterMap msgOf
  sentBa : w.b.sent = w.a.delivered ++ w.ba.filterMap msgOf
  idsB : (w.b.mgr.ids ++ w.ab.filterMap openOf).Nodup
  idsA : (w.a.mgr.ids ++ w.ba.filterMap openOf).Nodup
  freshB : ∀ id ∈ w.b.mgr.ids ++ w.ab.filterMap openOf, id < w.opens
  freshA : ∀ id ∈ w.a.mgr.ids ++ w.ba.filterMap openOf, id < w.opens

variable {w t : World}

theorem Kept.swap (h : Kept w) : Kept w.swap :=
  ⟨h.ba, h.ab, h.sentBa, h.sentAb, h.idsA, h.idsB, h.freshA, h.freshB⟩

theorem Faithful.swap (h : Faithful w) : Faithful w.swap :=
  ⟨⟨h.sole.2, h.sole.1⟩, ⟨h.ids.2, h.ids.1⟩, h.ba, h.ab⟩

theorem Kept.faithful (h : Kept w) : Faithful w :=
  ⟨⟨h.ab.ordered.sole, h.ba.ordered.sole⟩, ⟨h.idsA.of_append_left, h.idsB.of_append_left⟩, h.sentAb, h.sentBa⟩

/-- Control messages that are no OPENs go out, and something that is neither an OPEN nor a message comes in. -/
theorem Kept.quiet {mgr : Manager} (h : Kept w) (out ba : List Wire) (hab : Linked mgr w.b.mgr (w.ab ++ out))
    (hba : Linked w.b.mgr mgr ba) (hids : mgr.ids = w.a.mgr.ids) (hmsg : out.filterMap msgOf = [])
    (hopen : out.filterMap openOf = []) (hmsg' : ba.filterMap msgOf = w.ba.filterMap msgOf)
    (hsub : (ba.filterMap openOf).Sublist (w.ba.filterMap openOf)) :
    Kept { w with a := { w.a with mgr }, ab := w.ab ++ out, ba } := by
  refine ⟨hab, hba, ?_, ?_, ?_, ?_, ?_, ?_⟩
  · show w.a.sent = w.b.delivered ++ (w.ab ++ out).filterMap msgOf
    rw [filterMap_append, hmsg, List.append_nil]
    exact h.sentAb
  · show w.b.sent = w.a.delivered ++ ba.filterMap msgOf
    rw [hmsg']
    exact h.sentBa
  · show (w.b.mgr.ids ++ (w.ab ++ out).filterMap openOf).Nodup
    rw [filterMap_append, hopen, List.append_nil]
    exact h.idsB
  · show (mgr.ids ++ ba.filterMap openOf).Nodup
    rw [hids]
    exact h.idsA.sublist (List.Sublist.append_left hsub _)
  · show ∀ id ∈ w.b.mgr.ids ++ (w.ab ++ out).filterMap openOf, id < w.opens
    rw [filterMap_append, hopen, List.append_nil]
    exact h.freshB
  · intro id hid
    rw [hids] at hid
    apply h.freshA id
    rcases mem_append.mp hid with hid | hid
    · exact mem_append_left _ hid
    · exact mem_append_right _ (hsub.subset hid)

theorem msgOf_control {sid id : ℕ} : msgOf (.message sid ppidDcep data id) = none := by
  unfold msgOf
  exact if_pos rfl

theorem kept_create (h : Kept w) (conf : ChannelConf) (ok : Bool) (ht : w.act (.create conf ok) = some t) :
    (¬ w.BreaksAt (.create conf ok) → Kept t) ∧ (w.BreaksAt (.create conf ok) → ¬ Faithful t) := by
  have hbreaks : w.BreaksAt (.create conf ok) ↔ (ok = true ∧ w.a.mgr.channels.length < maxChannels ∧
      (dcepEncodeOpen conf 512).isSome) ∧ w.a.mgr.Busy w.a.mgr.nextStreamId := by
    show ok = true ∧ _ ∧ _ ∧ _ ↔ _
    tauto
  rw [hbreaks]
  unfold act at ht
  dsimp only at ht
  rcases create_cases w.opens conf ok w.a.mgr with ⟨buf, hbuf, hok, hc⟩ | ⟨hno, hc⟩
  · rw [hc] at ht
    obtain rfl := some.inj ht
    have hfresh : ∀ l : List ℕ, (∀ id ∈ l, id < w.opens) → w.opens ∉ l :=
      fun l hl hmem => Nat.lt_irrefl _ (hl _ hmem)
    constructor
    · intro hnb
      have hfree : ¬ w.a.mgr.Busy w.a.mgr.nextStreamId := fun hb => hnb ⟨hok, hb⟩
      have hopenOf : openOf (.message w.a.mgr.nextStreamId ppidDcep buf w.opens) = some w.opens :=
        if_pos ⟨rfl, hbuf⟩
      have hidsA : w.a.mgr.ids ++ [w.opens] ++ w.ba.filterMap openOf ~ w.opens :: (w.a.mgr.ids ++ w.ba.filterMap openOf) := by
        rw [append_assoc]
        exact perm_middle
      refine ⟨?_, ?_, ?_, h.sentBa, ?_, ?_, ?_, ?_⟩
      · refine h.ab.grow ?_ (within_append rfl) ?_ ?_
        · exact h.ab.ordered.append (c := ⟨w.opens, _, .connecting, conf⟩) (by simp) hfree
        · intro c hc hst
          rcases mem_append.mp hc with hc | hc
          · exact h.ab.opened c hc hst
          · obtain rfl := mem_singleton.mp hc
            cases hst
        · intro x hx
          obtain rfl := mem_singleton.mp hx
          refine .inr (.inr ⟨_, _, _, rfl, ⟨_, mem_append_right _ mem_cons_self, rfl, rfl⟩, ?_⟩)
          rw [hbuf]
          intro hack
          cases hack
      · exact h.ba.other (within_append rfl) (List.Subset.refl _)
      · show w.a.sent = w.b.delivered ++ (w.ab ++ [_]).filterMap msgOf
        rw [filterMap_append, filterMap_cons_none msgOf_control, filterMap_nil, List.append_nil]
        exact h.sentAb
      · show (w.b.mgr.ids ++ (w.ab ++ [_]).filterMap openOf).Nodup
        rw [filterMap_append, filterMap_cons_some hopenOf, filterMap_nil, ← append_assoc,
          nodup_append_comm, singleton_append, nodup_cons]
        exact ⟨hfresh _ h.freshB, h.idsB⟩
      · show ((w.a.mgr.channels ++ [_]).map Channel.id ++ _).Nodup
        rw [map_append]
        exact hidsA.nodup_iff.mpr (nodup_cons.mpr ⟨hfresh _ h.freshA, h.idsA⟩)
      · intro id hid
        rw [filterMap_append, filterMap_cons_some hopenOf, filterMap_nil, ← append_assoc] at hid
        rcases mem_append.mp hid with hid | hid
        · exact Nat.lt_succ_of_lt (h.freshB id hid)
        · obtain rfl := mem_singleton.mp hid
          exact Nat.lt_succ_self _
      · intro id hid
        have hid : id ∈ (w.a.mgr.channels ++ [_]).map Channel.id ++ w.ba.filterMap openOf := hid
        rw [map_append] at hid
        rcases mem_cons.mp (hidsA.mem_iff.mp hid) with rfl | hid
        · exact Nat.lt_succ_self _
        · exact Nat.lt_succ_of_lt (h.freshA id hid)
    · rintro ⟨-, hbusy⟩ hf
      exact Manager.not_sole_append (c := ⟨w.opens, _, .connecting, conf⟩) (by simp) hbusy hf.sole.1
  · rw [hc] at ht
    obtain rfl := some.inj ht
    refine ⟨fun _ => ?_, fun hb => absurd hb.1 hno⟩
    rw [List.append_nil]
    have hw : Within w.a.mgr { w.a.mgr with nextStreamId := (w.a.mgr.nextStreamId + 2) % 65536 } :=
      fun _ _ hc => hc
    have hb := h.ba.other hw (List.Subset.refl _)
    have hlt : ∀ l : List ℕ, (∀ id ∈ l, id < w.opens) → ∀ id ∈ l, id < w.opens + 1 :=
      fun l hl id hid => Nat.lt_succ_of_lt (hl id hid)
    exact ⟨⟨h.ab.ordered, h.ab.opened, h.ab.control, h.ab.data⟩, hb, h.sentAb, h.sentBa, h.idsB, h.idsA,
      hlt _ h.freshB, hlt _ h.freshA⟩

theorem ppidOf_spec (type : MsgType) (data : Bytes) : ppidOf type data ≠ ppidDcep ∧ typeOf (ppidOf type data) = type := by
  unfold ppidOf
  cases type <;> dsimp only <;> split_ifs <;> exact ⟨by decide, rfl⟩

theorem kept_send (h : Kept w) (i : ℕ) (type : MsgType) (data : Bytes) (ok : Bool)
    (ht : w.act (.send i type data ok) = some t) : Kept t := by
  unfold act at ht
  dsimp only at ht
  have hnothing : Kept { w with a := { w.a with sent := w.a.sent ++ [] }, ab := w.ab ++ [] } := by
    rw [List.append_nil, List.append_nil]
    exact h
  unfold Manager.send at ht
  cases hc : w.a.mgr.channels[i]? with
  | none =>
    rw [hc] at ht
    obtain rfl := some.inj ht
    exact hnothing
  | some c =>
    rw [hc] at ht
    dsimp only at ht
    by_cases hst : c.state = .open
    · rw [if_neg (not_not_intro hst)] at ht
      cases ok with
      | false =>
        obtain rfl := some.inj ht
        exact hnothing
      | true =>
        obtain rfl := some.inj ht
        obtain ⟨hp, htype⟩ := ppidOf_spec type data
        generalize ppidOf type data = ppid at hp htype ⊢
        have hmsg : msgOf (.message c.streamId ppid data c.id) = some ⟨c.id, type, data⟩ := by
          unfold msgOf
          dsimp only
          rw [if_neg hp, htype]
        have hopen : openOf (.message c.streamId ppid data c.id) = none := by
          exact if_neg (fun h => hp h.1)
        refine ⟨⟨h.ab.ordered, h.ab.opened, ?_, ?_⟩, h.ba, ?_, h.sentBa, ?_, h.idsA, ?_, h.freshA⟩
        · intro sid data id hx
          rcases mem_append.mp hx with hx | hx
          · exact h.ab.control sid data id hx
          · cases mem_singleton.mp hx
            exact absurd rfl hp
        · intro sid ppid data id hx hne
          rcases mem_append.mp hx with hx | hx
          · exact h.ab.data sid ppid data id hx hne
          · cases mem_singleton.mp hx
            exact h.ab.opened c (mem_of_getElem? hc) hst
        · show w.a.sent ++ [_] = w.b.delivered ++ (w.ab ++ [_]).filterMap msgOf
          rw [filterMap_append, filterMap_cons_some hmsg, filterMap_nil, ← append_assoc, ← h.sentAb]
        · show (w.b.mgr.ids ++ (w.ab ++ [_]).filterMap openOf).Nodup
          rw [filterMap_append, filterMap_cons_none hopen, filterMap_nil, List.append_nil]
          exact h.idsB
        · show ∀ id ∈ w.b.mgr.ids ++ (w.ab ++ [Wire.message c.streamId ppid data c.id]).filterMap openOf, id < w.opens
          rw [filterMap_append, filterMap_cons_none hopen, filterMap_nil, List.append_nil]
          exact h.freshB
    · rw [if_pos hst] at ht
      obtain rfl := some.inj ht
      exact hnothing

theorem kept_close (h : Kept w) (i : ℕ) (ok : Bool) (ht : w.act (.close i ok) = some t) : Kept t := by
  unfold act at ht
  dsimp only at ht
  have hnothing : Kept { w with a := { w.a with mgr := w.a.mgr }, ab := w.ab ++ [] } := by
    rw [List.append_nil]
    exact h
  unfold Manager.close at ht
  cases hc : w.a.mgr.channels[i]? with
  | none =>
    rw [hc] at ht
    obtain rfl := some.inj ht
    exact hnothing
  | some c =>
    rw [hc] at ht
    dsimp only at ht
    by_cases hst : c.state = .closed
    · rw [if_pos hst] at ht
      obtain rfl := some.inj ht
      exact hnothing
    · rw [if_neg hst] at ht
      obtain rfl := some.inj ht
      refine h.quiet _ _ ?_ (h.ba.other (within_setState _ _ _) (List.Subset.refl _)) (Manager.ids_setState _ _ _) ?_ ?_ rfl
        (List.Sublist.refl _)
      · refine h.ab.grow (h.ab.ordered.setState hc hst (by simp)) (within_setState _ _ _)
          (opened_setState (by simp) h.ab.opened) ?_
        intro x hx
        split_ifs at hx
        · exact .inl ⟨_, mem_singleton.mp hx⟩
        · exact absurd hx not_mem_nil
      · split_ifs <;> rfl
      · split_ifs <;> rfl

variable {ba : List Wire}

theorem kept_streamClose (h : Kept w) (sid : ℕ) (out : List Wire) {x : Wire} (hba : w.ba = x :: ba)
    (hx : msgOf x = none ∧ openOf x = none) (hout : ∀ y ∈ out, ∃ sid, y = .resetDone sid) :
    Kept { w with a := { w.a with mgr := w.a.mgr.onStreamClose sid }, ab := w.ab ++ out, ba } := by
  have hnone : out.filterMap msgOf = [] ∧ out.filterMap openOf = [] := by
    rw [filterMap_eq_nil_iff, filterMap_eq_nil_iff]
    constructor
    · intro y hy
      obtain ⟨sid, rfl⟩ := hout y hy
      rfl
    · intro y hy
      obtain ⟨sid, rfl⟩ := hout y hy
      rfl
  refine h.quiet _ _ (h.ab.onStreamClose sid hout) (h.ba.other (within_onStreamClose _ _) ?_) (ids_onStreamClose _ _)
    hnone.1 hnone.2 ?_ ?_
  · rw [hba]
    exact subset_cons_self _ _
  · rw [hba, filterMap_cons_none hx.1]
  · rw [hba, filterMap_cons_none hx.2]

theorem kept_open {sid id : ℕ} (h : Kept w)
    (hba : w.ba = .message sid ppidDcep data id :: ba) (hdata : data.head? = some dcepOpen) (ok : Bool) :
    (¬ w.BreaksAt (.receive ok) → Kept ({ w with ba }.arrive (.message sid ppidDcep data id) ok)) ∧
      (w.BreaksAt (.receive ok) → ¬ Faithful ({ w with ba }.arrive (.message sid ppidDcep data id) ok)) := by
  have hbreaks : w.BreaksAt (.receive ok) ↔ ((dcepDecodeOpen data).isSome ∧
      w.a.mgr.channels.length < maxChannels) ∧ w.a.mgr.Busy sid := by
    unfold BreaksAt
    rw [hba]
    dsimp only
    rw [if_pos rfl]
    tauto
  have hopenOf : openOf (.message sid ppidDcep data id) = some id := if_pos ⟨rfl, hdata⟩
  have hsub : ba ⊆ w.ba := by
    rw [hba]
    exact subset_cons_self _ _
  have hmsgs : w.ba.filterMap msgOf = ba.filterMap msgOf := by
    rw [hba, filterMap_cons_none msgOf_control]
  have hopens : w.ba.filterMap openOf = id :: ba.filterMap openOf := by
    rw [hba, filterMap_cons_some hopenOf]
  rw [hbreaks]
  unfold arrive
  dsimp only
  rcases onData_open sid id ok w.a.mgr hdata with ⟨conf, hacc, hd⟩ | ⟨hno, hd⟩
  · rw [hd]
    constructor
    · intro hnb
      have hfree : ¬ w.a.mgr.Busy sid := fun hb => hnb ⟨hacc, hb⟩
      obtain ⟨hhas, -⟩ := h.ba.control sid data id (by rw [hba]; exact mem_cons_self)
      have hout : ∀ y ∈ (if ok = true then [Wire.message sid ppidDcep [dcepAck] id] else []),
          y = .message sid ppidDcep [dcepAck] id := by
        intro y hy
        split_ifs at hy
        · exact mem_singleton.mp hy
        · exact absurd hy not_mem_nil
      have hnone : (if ok = true then [Wire.message sid ppidDcep [dcepAck] id] else []).filterMap msgOf = [] ∧
          (if ok = true then [Wire.message sid ppidDcep [dcepAck] id] else []).filterMap openOf = [] := by
        cases ok <;> exact ⟨rfl, rfl⟩
      have hperm : (w.a.mgr.ids ++ [id]) ++ ba.filterMap openOf = w.a.mgr.ids ++ w.ba.filterMap openOf := by
        rw [hopens, append_assoc]
        rfl
      have hids : (w.a.mgr.channels ++ [(⟨id, sid, .open, conf⟩ : Channel)]).map Channel.id = w.a.mgr.ids ++ [id] :=
        map_append
      refine ⟨?_, ?_, ?_, ?_, ?_, ?_, ?_, ?_⟩
      · refine h.ab.grow (h.ab.ordered.append (c := ⟨id, sid, .open, conf⟩) (by simp) hfree) (within_append rfl) ?_ ?_
        · intro c hc hst
          rcases mem_append.mp hc with hc | hc
          · exact h.ab.opened c hc hst
          · obtain rfl := mem_singleton.mp hc
            exact hhas
        · intro y hy
          exact .inr (.inr ⟨sid, _, id, hout y hy, ⟨_, mem_append_right _ mem_cons_self, rfl, rfl⟩,
            fun _ => hhas⟩)
      · exact h.ba.other (within_append rfl) hsub
      · show w.a.sent = w.b.delivered ++ (w.ab ++ _).filterMap msgOf
        rw [filterMap_append, hnone.1, List.append_nil]
        exact h.sentAb
      · show w.b.sent = w.a.delivered ++ [] ++ ba.filterMap msgOf
        rw [List.append_nil, ← hmsgs]
        exact h.sentBa
      · show (w.b.mgr.ids ++ (w.ab ++ _).filterMap openOf).Nodup
        rw [filterMap_append, hnone.2, List.append_nil]
        exact h.idsB
      · show ((w.a.mgr.channels ++ [_]).map Channel.id ++ ba.filterMap openOf).Nodup
        rw [hids, hperm]
        exact h.idsA
      · show ∀ x ∈ w.b.mgr.ids ++ (w.ab ++ _).filterMap openOf, x < w.opens
        rw [filterMap_append, hnone.2, List.append_nil]
        exact h.freshB
      · show ∀ x ∈ (w.a.mgr.channels ++ [(⟨id, sid, .open, conf⟩ : Channel)]).map Channel.id ++
          ba.filterMap openOf, x < w.opens
        rw [hids, hperm]
        exact h.freshA
    · rintro ⟨-, hbusy⟩ hf
      exact Manager.not_sole_append (c := ⟨id, sid, .open, conf⟩) (by simp) hbusy hf.sole.1
  · rw [hd]
    refine ⟨fun _ => ?_, fun hb => absurd hb.1 hno⟩
    have hq := h.quiet [] ba (by rw [List.append_nil]; exact h.ab)
      (h.ba.other (Within.refl _) hsub) rfl rfl rfl hmsgs.symm
      (by rw [hopens]; exact sublist_cons_self _ _)
    rw [List.append_nil] at hq
    rw [List.append_nil, List.append_nil]
    exact hq

theorem kept_control {sid id : ℕ} (h : Kept w)
    (hba : w.ba = .message sid ppidDcep data id :: ba) (hdata : data.head? ≠ some dcepOpen) (ok : Bool) :
    Kept ({ w with ba }.arrive (.message sid ppidDcep data id) ok) := by
  have hopenOf : openOf (.message sid ppidDcep data id) = none := if_neg (fun h => hdata h.2)
  have hsub : ba ⊆ w.ba := by
    rw [hba]
    exact subset_cons_self _ _
  have hmsgs : ba.filterMap msgOf = w.ba.filterMap msgOf := by
    rw [hba, filterMap_cons_none msgOf_control]
  have hopens : ba.filterMap openOf = w.ba.filterMap openOf := by
    rw [hba, filterMap_cons_none hopenOf]
  have hkeep {mgr : Manager} (hab : Linked mgr w.b.mgr w.ab) (hw : Within w.a.mgr mgr) (hids : mgr.ids = w.a.mgr.ids) :
      Kept { w with a := { w.a with mgr, delivered := w.a.delivered ++ [] }, ab := w.ab ++ [], ba } := by
    rw [List.append_nil w.a.delivered]
    exact h.quiet [] _ (by rw [List.append_nil]; exact hab) (h.ba.other hw hsub) hids rfl rfl hmsgs
      (by rw [hopens])
  unfold arrive
  dsimp only
  rcases onData_control sid id ok w.a.mgr hdata with
    hd | ⟨hack, i, c, hf, hc, hst, hd⟩
  · rw [hd]
    exact hkeep h.ab (Within.refl _) rfl
  · rw [hd]
    have hlive : c.state ≠ .closed := by
      rw [hst]
      simp
    obtain ⟨hb, ha⟩ := h.ba.control sid data id (by rw [hba]; exact mem_cons_self)
    obtain ⟨hid, hsid⟩ := h.ab.ordered.eq_first hf hc hlive (ha hack)
    refine hkeep ⟨h.ab.ordered.setState hc hlive (by simp), ?_, ?_, h.ab.data⟩ (within_setState _ _ _)
      (Manager.ids_setState _ _ _)
    · intro d hd hds
      obtain ⟨j, hj⟩ := mem_iff_getElem?.mp hd
      obtain ⟨d', hd', hidd, hsd, hcase⟩ := Manager.of_setState hj
      rcases hcase with ⟨rfl, -⟩ | ⟨-, hds'⟩
      · rw [hc] at hd'
        obtain rfl := some.inj hd'
        rw [hidd, hsd, hid, hsid]
        exact hb
      · rw [hidd, hsd]
        exact h.ab.opened d' (mem_of_getElem? hd') (hds'.symm.trans hds)
    · intro sid data id hx
      obtain ⟨ha', hb'⟩ := h.ab.control sid data id hx
      exact ⟨ha'.setState _ _, hb'⟩

theorem kept_data {sid ppid id : ℕ} (h : Kept w)
    (hba : w.ba = .message sid ppid data id :: ba) (hp : ppid ≠ ppidDcep) (ok : Bool) :
    (¬ w.BreaksAt (.receive ok) → Kept ({ w with ba }.arrive (.message sid ppid data id) ok)) ∧
      (w.BreaksAt (.receive ok) → ¬ Faithful ({ w with ba }.arrive (.message sid ppid data id) ok)) := by
  have hbreaks : w.BreaksAt (.receive ok) ↔ ¬ w.a.mgr.OpenAt sid := by
    unfold BreaksAt
    rw [hba]
    dsimp only
    rw [if_neg hp]
  have hmsg : msgOf (.message sid ppid data id) = some ⟨id, typeOf ppid, data⟩ := if_neg hp
  have hopenOf : openOf (.message sid ppid data id) = none := if_neg (fun h => hp h.1)
  have hsub : ba ⊆ w.ba := by
    rw [hba]
    exact subset_cons_self _ _
  have hmsgs : w.ba.filterMap msgOf = ⟨id, typeOf ppid, data⟩ :: ba.filterMap msgOf := by
    rw [hba, filterMap_cons_some hmsg]
  have hopens : w.ba.filterMap openOf = ba.filterMap openOf := by
    rw [hba, filterMap_cons_none hopenOf]
  rw [hbreaks]
  unfold arrive
  dsimp only
  rcases onData_data sid id data ok w.a.mgr hp with
    ⟨i, c, hf, hc, hst, hd⟩ | ⟨hno, hd⟩
  · rw [hd]
    have hopen : w.a.mgr.OpenAt sid := ⟨i, c, hf, hc, hst⟩
    refine ⟨fun _ => ?_, fun hn => absurd hopen hn⟩
    have hhas := h.ba.data sid ppid data id (by rw [hba]; exact mem_cons_self) hp
    obtain ⟨hid, -⟩ := h.ab.ordered.eq_first hf hc (by rw [hst]; simp) hhas
    rw [hid]
    rw [List.append_nil]
    have hA := h.idsA
    have hfA := h.freshA
    rw [hopens] at hA hfA
    refine ⟨h.ab, h.ba.other (Within.refl _) hsub, h.sentAb, ?_, h.idsB, hA, h.freshB, hfA⟩
    show w.b.sent = w.a.delivered ++ [_] ++ ba.filterMap msgOf
    rw [h.sentBa, hmsgs, append_assoc]
    rfl
  · rw [hd]
    refine ⟨fun hn => absurd hno hn, fun _ hf => ?_⟩
    have hlost : w.b.sent = w.a.delivered ++ [] ++ ba.filterMap msgOf := hf.ba
    rw [h.sentBa, hmsgs, List.append_nil] at hlost
    have hlen := congrArg List.length hlost
    simp only [length_append, length_cons] at hlen
    omega

theorem kept_act {x : Act} (h : Kept w) (ht : w.act x = some t) :
    (¬ w.BreaksAt x → Kept t) ∧ (w.BreaksAt x → ¬ Faithful t) := by
  cases x with
  | create conf ok => exact kept_create h conf ok ht
  | send i type data ok => exact ⟨fun _ => kept_send h i type data ok ht, fun hb => absurd hb id⟩
  | close i ok => exact ⟨fun _ => kept_close h i ok ht, fun hb => absurd hb id⟩
  | receive ok =>
    unfold act at ht
    cases hba : w.ba with
    | nil =>
      rw [hba] at ht
      cases ht
    | cons x ba =>
      rw [hba] at ht
      obtain rfl := some.inj ht
      have hnot (hx : msgOf x = none ∧ ∀ sid ppid data id, x ≠ .message sid ppid data id) : ¬ w.BreaksAt (.receive ok) := by
        unfold BreaksAt
        rw [hba]
        dsimp only
        split
        · rename_i heq
          exact absurd (List.cons.inj heq).1 (hx.2 _ _ _ _)
        · exact id
      cases x with
      | reset sid =>
        refine ⟨fun _ => ?_, fun hb => absurd hb (hnot ⟨rfl, by simp⟩)⟩
        exact kept_streamClose h sid _ hba ⟨rfl, rfl⟩ (fun y hy => ⟨sid, mem_singleton.mp hy⟩)
      | resetDone sid =>
        refine ⟨fun _ => ?_, fun hb => absurd hb (hnot ⟨rfl, by simp⟩)⟩
        have hk := kept_streamClose h sid [] hba ⟨rfl, rfl⟩ (fun y hy => absurd hy not_mem_nil)
        rw [List.append_nil] at hk
        exact hk
      | message sid ppid data id =>
        by_cases hp : ppid = ppidDcep
        · subst hp
          by_cases hdata : data.head? = some dcepOpen
          · exact kept_open h hba hdata ok
          · refine ⟨fun _ => kept_control h hba hdata ok, fun hb => ?_⟩
            unfold BreaksAt at hb
            rw [hba] at hb
            dsimp only at hb
            exact absurd hb.1 hdata
        · exact kept_data h hba hp ok

/-- **Channels do not cross**: in every run without a step that breaks the rule, it holds in every state, and
such a step always breaks it. -/
theorem faithful_iff_of_run {w t : World} {i : Bool × Act} (h : Run step (fun w i => ¬ w.Breaks i) {} w)
    (ht : w.step i = some t) : Faithful w ∧ (Faithful t ↔ ¬ w.Breaks i) := by
  have hstep {w t : World} {i : Bool × Act} (hk : Kept w) (ht : w.step i = some t) :
      (¬ w.Breaks i → Kept t) ∧ (w.Breaks i → ¬ Faithful t) := by
    obtain ⟨side, x⟩ := i
    cases side with
    | false => exact kept_act hk ht
    | true =>
      obtain ⟨u, hu, rfl⟩ := map_eq_some_iff.mp ht
      obtain ⟨h1, h2⟩ := kept_act hk.swap hu
      exact ⟨fun hb => (h1 hb).swap, fun hb hf => h2 hb hf.swap⟩
  have hkept : Kept w := by
    refine h.preserves (I := Kept) (fun w i t hk hno hs => (hstep hk hs).1 hno) ?_
    refine ⟨⟨?_, ?_, ?_, ?_⟩, ⟨?_, ?_, ?_, ?_⟩, rfl, rfl, nodup_nil, nodup_nil, ?_, ?_⟩
    · rintro i j c d hc
      cases hc
    · exact fun c hc => absurd hc not_mem_nil
    · exact fun sid data id hx => absurd hx not_mem_nil
    · exact fun sid ppid data id hx => absurd hx not_mem_nil
    · rintro i j c d hc
      cases hc
    · exact fun c hc => absurd hc not_mem_nil
    · exact fun sid data id hx => absurd hx not_mem_nil
    · exact fun sid ppid data id hx => absurd hx not_mem_nil
    · exact fun id hid => absurd hid not_mem_nil
    · exact fun id hid => absurd hid not_mem_nil
  obtain ⟨h1, h2⟩ := hstep hkept ht
  refine ⟨hkept.faithful, fun hf hb => h2 hb hf, fun hno => (h1 hno).faithful⟩

section Examples

/-- An ordered, reliable channel without a label. -/
def someConf : ChannelConf := ⟨textOfBytes 255 [], textOfBytes 255 [], true, 0, 0⟩

/-- One end opens a channel and sends on it, and the message arrives at the other end. -/
theorem faithful_iff_of_run_opened : ∃ w t, Run step (fun w i => ¬ w.Breaks i) {} w ∧
    w.step (true, .receive true) = some t ∧ t.b.delivered = [⟨0, .binary, [7]⟩] ∧ Faithful w ∧
    (Faithful t ↔ ¬ w.Breaks (true, .receive true)) := by
  have h1 : Run step (fun w i => ¬ w.Breaks i) {} _ := .single (m := (false, .create someConf true))
    (by
      rintro ⟨-, -, -, c, hc, -⟩
      cases hc)
    rfl
  have h2 := h1.tail (m := (true, .receive true))
    (by
      rintro ⟨-, -, -, c, hc, -⟩
      cases hc)
    rfl
  have h3 := h2.tail (m := (false, .receive true))
    (by
      rintro ⟨hd, -⟩
      exact absurd hd (by decide))
    rfl
  have h4 := h3.tail (m := (false, .send 0 .binary [7] true))
    (by
      intro hb
      exact hb)
    rfl
  exact ⟨_, _, h4, rfl, rfl, faithful_iff_of_run h4 rfl⟩

/-- Both ends open their first channel before the OPEN of the other one arrives. -/
theorem not_faithful_glare : ∃ w, Run step (fun _ _ => True) {} w ∧ ¬ Faithful w := by
  have h : Run step (fun _ _ => True) {} _ :=
    ((Run.single (m := (false, Act.create someConf true)) trivial rfl).tail
      (m := (true, .create someConf true)) trivial rfl).tail (m := (true, .receive true)) trivial rfl
  refine ⟨_, h, fun hf => ?_⟩
  exact absurd (hf.sole.2 0 1 _ _ rfl rfl rfl (by decide) (by decide)) (by decide)

end Examples

end World

end Libx.DataChannel
