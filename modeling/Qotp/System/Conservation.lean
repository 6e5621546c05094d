import Qotp.Conn.PendingAcks
import Qotp.Conn.SendHeld
import Qotp.System.Channel

namespace Qotp

open Framework

variable {Prv Pub : Type}

namespace RcvBuffer

variable {S T : Bytes} {s s' : RcvBuffer}

theorem Tiled.mono (h : Tiled S s) (hST : S <+: T) : Tiled T s := by
  obtain ⟨R, rfl⟩ := hST
  exact ⟨h.nonempty, fun e he => (h.content e he).append, h.above, h.disjoint⟩

/-- The close mark plays no part. -/
theorem Tiled.close (h : Tiled S s) (o : Nat) : Tiled S (s.close o) := by
  rw [close_eq]
  exact ⟨h.nonempty, h.content, h.above, h.disjoint⟩

theorem covered_close (s : RcvBuffer) (o i : Nat) : (s.close o).Covered i ↔ s.Covered i := by
  rw [close_eq]
  exact Iff.rfl

/-- A read keeps the tiling and what is covered. -/
theorem Tiled.remove (h : Tiled S s) :
    Tiled S s.removeOldestInOrder.1 ∧ ∀ i, s.Covered i → s.removeOldestInOrder.1.Covered i := by
  obtain ⟨v, hm, hr⟩ | ⟨hr, _⟩ := s.removeOldestInOrder_cases
  · rw [hr]
    exact ⟨h.erase_first hm, fun i hi => covered_erase_first hm hi⟩
  · rw [hr]
    exact ⟨h, fun _ hi => hi⟩

end RcvBuffer

/-- Byte `i` of stream `k` is queued or in flight, with its content. -/
def SendBuffer.Holds (sb : SendBuffer) (k i : Nat) (x : UInt8) : Prop :=
  ((sb.stream k).bytesSentOffset ≤ i ∧ (sb.stream k).queuedData[i - (sb.stream k).bytesSentOffset]? = some x) ∨
  ∃ v ∈ (sb.stream k).dataInFlightMap.entries, StreamBuffer.entryStart v ≤ i ∧
    v.2.data[i - StreamBuffer.entryStart v]? = some x

/-- Nothing of stream `k` is queued and no data of it is in flight. -/
def SendBuffer.NoDataLeft (sb : SendBuffer) (k : Nat) : Prop :=
  (sb.stream k).queuedData = [] ∧ ∀ v ∈ (sb.stream k).dataInFlightMap.entries, v.2.data = []

/-- Byte `i` of stream `k` is stored, with its content. -/
def ReceiveBuffer.Holds (rb : ReceiveBuffer) (k i : Nat) (x : UInt8) : Prop :=
  ∃ v ∈ (rb.stream k).segments.entries, v.1 ≤ i ∧ v.2.data[i - v.1]? = some x

/-- The ack names a range that fits its fields and lies in `A`. -/
structure Ack.Vouched (a : Ack) (A : Nat → Nat → Prop) : Prop where
  stream : a.streamID < 2 ^ 32
  offset : a.offset < 2 ^ 48
  within : a.Within A

theorem Ack.Vouched.mono {a : Ack} {A B : Nat → Nat → Prop} (h : a.Vouched A) (hAB : ∀ k i, A k i → B k i) : a.Vouched B :=
  ⟨h.stream, h.offset, h.within.mono hAB⟩

/-- On the wire a length can only shrink. -/
theorem Ack.Vouched.wire {a : Ack} {A : Nat → Nat → Prop} (h : a.Vouched A) :
    (wireAck a).offset < 2 ^ 48 ∧ (wireAck a).len < 2 ^ 16 ∧ (wireAck a).Within A := by
  refine ⟨Nat.mod_lt _ (by decide), Nat.mod_lt _ (by decide), fun i h1 h2 => ?_⟩
  have hlen := Nat.mod_le a.len (2 ^ 16)
  dsimp only [wireAck] at h1 h2 ⊢
  rw [Nat.mod_eq_of_lt h.offset] at h1 h2
  rw [Nat.mod_eq_of_lt h.stream]
  exact h.within i h1 (by omega)

/-- The window is not part of the range. -/
theorem Ack.Vouched.of_queued {a a₀ : Ack} {A : Nat → Nat → Prop} (h : a₀.Vouched A) (hq : a.queued = a₀.queued) :
    a.Vouched A := by
  cases a
  cases a₀
  cases hq
  exact ⟨h.stream, h.offset, h.within⟩

/-- What a packet adds to the acks is its own range if it is stored, and an empty one otherwise. -/
theorem Conn.decode_acks {c c' : Conn Prv Pub} {p : PayloadHeader} {u : Option Bytes} {rawLen now : Nat}
    (hk : c.StreamsKeyed) (hd : c.decode p u rawLen now = some c') :
    ∀ a ∈ c'.rcv.ackList, a ∈ c.rcv.ackList ∨ (a.streamID = p.streamID ∧ a.offset = p.streamOffset ∧
      (a.len = 0 ∨ (c.rcv.Stores u ∧ a.len ≤ (u.getD []).length))) := by
  obtain ⟨rcv, hr, hrcv⟩ := (hk.decode_effect hd).rcv
  have hlist : c'.rcv.ackList = rcv.ackList := by
    rw [hrcv]
    split_ifs <;> rfl
  intro a ha
  rw [hlist] at ha
  obtain ⟨d, st, rfl, hne, hins⟩ | ⟨_, rfl⟩ | ⟨_, _, rfl⟩ := hr
  · obtain ⟨_, _, _, hsame, _⟩ | ⟨hroom, _, hadd, _⟩ := ReceiveBuffer.insert_cases hins
    · rw [hsame] at ha
      exact .inl ha
    · rw [hadd] at ha
      obtain ha | ha := List.mem_append.mp ha
      · exact .inl ha
      · rw [List.mem_singleton.mp ha]
        exact .inr ⟨rfl, rfl, .inr ⟨⟨hne, hroom⟩, Nat.mod_le _ _⟩⟩
  · obtain ha | ha := List.mem_append.mp ha
    · exact .inl ha
    · rw [List.mem_singleton.mp ha]
      exact .inr ⟨rfl, rfl, .inl rfl⟩
  · exact .inl ha

/-- What the wire leaves of the ids and of the ack of a datagram. -/
theorem Link.received_wire {s : Link Prv Pub} {i : Nat} {p : PayloadHeader} {u : Option Bytes}
    (hr : s.received i = some (p, u)) : p.streamID < 2 ^ 32 ∧
      ∀ a, p.ack = some a → ∃ o ∈ s.peer.sent, ∃ a₀, o.header.ack = some a₀ ∧ a = wireAck a₀ := by
  obtain ⟨o, ho, hr⟩ := Option.bind_eq_some_iff.mp hr
  obtain ⟨r, hp, hok⟩ := Option.bind_eq_some_iff.mp hr
  have hack : ∀ a, o.header.ack.map wireAck = some a → ∃ o ∈ s.peer.sent, ∃ a₀, o.header.ack = some a₀ ∧ a = wireAck a₀ := by
    intro a ha
    obtain ⟨a₀, ha₀, rfl⟩ := Option.map_eq_some_iff.mp ha
    exact ⟨o, List.mem_of_getElem? ho, a₀, ha₀, rfl⟩
  unfold Conn.Outgoing.payload at hp
  split_ifs at hp
  · cases hp
    cases hok
    exact ⟨by decide, nofun⟩
  · rw [decodePayload_encodePayload, wireImage] at hp
    split_ifs at hp
    · cases hp
      cases hok
      exact ⟨Nat.two_pow_pos 32, hack⟩
    · cases hp
      cases hok
      exact ⟨Nat.mod_lt _ (by decide), hack⟩

namespace Endpoint

variable {P : Primitives Prv Pub} {l : ListenerCfg Prv} {e e' : Endpoint Prv Pub} {op : ConnOp Prv Pub}

/-- The calls other than `decode` queue no ack; what they write carries one that was queued. -/
theorem step_acks (hmtu : 119 ≤ l.mtu ∧ l.mtu ≤ 65535) (hi : e.Inv) (hfit : e.OffsetsFit op)
    (hd : ∀ p u rawLen now, op ≠ .decode p u rawLen now) (hs : e.step P l op = some e') :
    (∀ a ∈ e'.conn.rcv.ackList, a ∈ e.conn.rcv.ackList) ∧
    ∀ o ∈ e'.sent, o ∈ e.sent ∨ ∀ a, o.header.ack = some a → ∃ a₀ ∈ e.conn.rcv.ackList, a.queued = a₀.queued := by
  have hrcv : ∀ k, (e.conn.stream k).1.rcv = e.conn.rcv := fun k => by rw [Conn.stream_frame]
  cases op with
  | decode p u rawLen now => exact absurd rfl (hd p u rawLen now)
  | write k d wake =>
    obtain ⟨⟨c', n, err⟩, hw, rfl⟩ := Option.map_eq_some_iff.mp hs
    refine ⟨fun a ha => ?_, fun o ho => .inl ho⟩
    obtain rfl | ⟨_, snd, m, st, _, rfl⟩ := Conn.write_cases hw
    · rwa [hrcv] at ha
    · dsimp only at ha
      rwa [hrcv] at ha
  | read k =>
    cases hs
    refine ⟨fun a ha => ?_, fun o ho => .inl ho⟩
    change a ∈ (e.readOf k).1.rcv.ackList at ha
    obtain ⟨hr, _⟩ | ⟨hr, _⟩ := (readOf_rcv hi.keyed k).1
    · rwa [hr] at ha
    · rw [hr] at ha
      unfold ReceiveBuffer.removeOldestInOrder at ha
      split at ha <;> exact ha
  | ping k | close k =>
    cases hs
    refine ⟨fun a ha => ?_, fun o ho => .inl ho⟩
    change a ∈ (e.conn.stream k).1.rcv.ackList at ha
    rwa [hrcv] at ha
  | flush k now w =>
    obtain ⟨⟨c', out, r⟩, hf, rfl⟩ := Option.map_eq_some_iff.mp hs
    have hacks := (flush_held hmtu hi.snd.conserves hfit hf).2
    dsimp only
    rw [(flush_frame hf).rcv]
    cases hl : e.conn.rcv.ackList with
    | nil =>
      rw [Conn.takeAck_nil hl] at hacks ⊢
      refine ⟨fun a ha => by rwa [hl] at ha, fun o ho => ?_⟩
      obtain ho | ho := List.mem_append.mp ho
      · exact .inl ho
      · refine .inr fun a ha => ?_
        rw [hacks o ho] at ha
        cases ha
    | cons a₀ rest =>
      obtain ⟨hrest, a', ha', hq⟩ := Conn.takeAck_cons hl
      rw [hrest]
      refine ⟨fun a ha => List.mem_cons_of_mem _ ha, fun o ho => ?_⟩
      obtain ho | ho := List.mem_append.mp ho
      · exact .inl ho
      · refine .inr fun a ha => ⟨a₀, List.mem_cons_self, ?_⟩
        rw [hacks o ho, ha'] at ha
        cases ha
        exact hq
  | cleanup k | handshake c =>
    cases hs
    exact ⟨fun a ha => ha, fun o ho => .inl ho⟩

/-- Of the calls other than `decode` only a read touches what is stored. -/
theorem step_stored (hk : e.conn.StreamsKeyed) (hd : ∀ p u rawLen now, op ≠ .decode p u rawLen now)
    (hs : e.step P l op = some e') (k : Nat) :
    e'.conn.rcv.stream k = e.conn.rcv.stream k ∨ e'.conn.rcv.stream k = (e.conn.rcv.stream k).removeOldestInOrder.1 := by
  by_cases hr : ∃ j, op = .read j
  · obtain ⟨j, rfl⟩ := hr
    cases hs
    change (e.readOf j).1.rcv.stream k = _ ∨ (e.readOf j).1.rcv.stream k = _
    obtain ⟨hread, _⟩ | ⟨hread, _⟩ := (readOf_rcv hk j).1
    · rw [hread]
      exact .inl rfl
    · rw [hread, ReceiveBuffer.removeOldestInOrder_stream]
      split_ifs with hkj
      · rw [hkj]
        exact .inr rfl
      · exact .inl rfl
  · exact .inl ((step_rcv hs (fun j hj => hr ⟨j, hj⟩) hd).1 k)

end Endpoint

namespace Channel

variable {P : Primitives Prv Pub} {cfg : Bool → ListenerCfg Prv} {s t : Channel Prv Pub} {b : Bool} {e : Endpoint Prv Pub}

/-- Byte `i` of stream `k` is stored on a side, or was read there. -/
def Arrived (s : Channel Prv Pub) (b : Bool) (k i : Nat) : Prop := ((s.side b).conn.rcv.stream k).Covered i

/-- What a side holds of the other's bytes are disjoint pieces; every ack, queued or written, is for
bytes that arrived; and a sender has every byte that did not. -/
structure Conserved (s : Channel Prv Pub) : Prop where
  base : Inv s
  tiled : ∀ b k, ((s.side b).conn.rcv.stream k).Tiled ((s.side !b).accepted k)
  pending : ∀ b, ∀ a ∈ (s.side b).conn.rcv.ackList, a.Vouched (s.Arrived b)
  written : ∀ b, ∀ o ∈ (s.side b).sent, ∀ a, o.header.ack = some a → a.Vouched (s.Arrived b)
  held : ∀ b, SndHeld (s.side b).accepted (s.Arrived !b) (s.side b).conn.snd

theorem conserved_fresh {c : Bool → Conn Prv Pub} (hc : ∀ b, (c b).Fresh) : Conserved ⟨fun b => { conn := c b }⟩ := by
  refine ⟨inv_fresh hc, fun b k => ?_, fun b a ha => ?_, nofun, fun b => ?_⟩
  · dsimp only
    rw [(hc b).rcv]
    exact RcvBuffer.tiled_new _
  · dsimp only at ha
    rw [(hc b).rcv] at ha
    cases ha
  · dsimp only
    rw [(hc b).snd]
    exact sndHeld_new _ _

/-- One side changes: it loses no arrived byte, and queues or writes acks for arrived bytes only. -/
theorem Conserved.set (h : Conserved s) (hbase : Inv (s.set b e))
    (haccepted : ∀ k, (s.side b).accepted k <+: e.accepted k)
    (htiled : ∀ k, (e.conn.rcv.stream k).Tiled ((s.side !b).accepted k))
    (harrived : ∀ k i, s.Arrived b k i → (e.conn.rcv.stream k).Covered i)
    (hpending : ∀ a ∈ e.conn.rcv.ackList, a.Vouched (s.Arrived b) ∨ a.Vouched fun k i => (e.conn.rcv.stream k).Covered i)
    (hwritten : ∀ o ∈ e.sent, ∀ a, o.header.ack = some a → a.Vouched (s.Arrived b))
    (hheld : SndHeld e.accepted (s.Arrived !b) e.conn.snd) : Conserved (s.set b e) := by
  have hself : (s.set b e).side b = e := by rw [side_set, if_pos rfl]
  have hpeer : (s.set b e).side (!b) = s.side (!b) := by rw [side_set, if_neg (by simp)]
  have harr : (s.set b e).Arrived b = fun k i => (e.conn.rcv.stream k).Covered i := by
    unfold Arrived
    rw [hself]
  have harr' : (s.set b e).Arrived (!b) = s.Arrived !b := by
    unfold Arrived
    rw [hpeer]
  have hmono : ∀ {a : Ack}, a.Vouched (s.Arrived b) → a.Vouched fun k i => (e.conn.rcv.stream k).Covered i :=
    fun ha => ha.mono harrived
  refine ⟨hbase, (Bool.forall_bool' b).mpr ⟨?_, ?_⟩, (Bool.forall_bool' b).mpr ⟨?_, ?_⟩, (Bool.forall_bool' b).mpr ⟨?_, ?_⟩,
    (Bool.forall_bool' b).mpr ⟨?_, ?_⟩⟩
  · rw [hself, hpeer]
    exact htiled
  · intro k
    rw [Bool.not_not, hself, hpeer]
    have ht := h.tiled (!b) k
    rw [Bool.not_not] at ht
    exact ht.mono (haccepted k)
  · rw [hself, harr]
    exact fun a ha => (hpending a ha).elim hmono id
  · rw [hpeer, harr']
    exact h.pending _
  · rw [hself, harr]
    exact fun o ho a ha => hmono (hwritten o ho a ha)
  · rw [hpeer, harr']
    exact h.written _
  · rw [hself, harr']
    exact hheld
  · rw [hpeer, Bool.not_not, harr]
    have hh := h.held !b
    rw [Bool.not_not] at hh
    exact hh.mono harrived

/-- A read takes the first segment, which still counts as arrived; the other calls leave what is stored. -/
theorem Conserved.rcv_call (h : Conserved s) {op : ConnOp Prv Pub} (hd : ∀ p u rawLen now, op ≠ .decode p u rawLen now)
    (he : (s.side b).step P (cfg b) op = some e) (k : Nat) :
    (e.conn.rcv.stream k).Tiled ((s.side !b).accepted k) ∧ ∀ i, s.Arrived b k i → (e.conn.rcv.stream k).Covered i := by
  obtain hr | hr := Endpoint.step_stored (h.base.link b).keyed hd he k
  · rw [hr]
    exact ⟨h.tiled b k, fun i hi => hi⟩
  · rw [hr]
    exact (h.tiled b k).remove

theorem Conserved.call (hmtu : ∀ b, 119 ≤ (cfg b).mtu ∧ (cfg b).mtu ≤ 65535) (h : Conserved s) {op : ConnOp Prv Pub}
    (hd : ∀ p u rawLen now, op ≠ .decode p u rawLen now) (hfit : s.Fits (.call b op))
    (he : (s.side b).step P (cfg b) op = some e) : Conserved (s.set b e) := by
  have hinv := h.base.side b
  have hoff := hfit.offsetsFit
  obtain ⟨hpend, hwrit⟩ := Endpoint.step_acks (hmtu b) hinv hoff hd he
  refine h.set (step_inv hmtu s _ _ h.base hfit (step_call_eq hd he)) (Endpoint.step_accepted he)
    (fun k => (h.rcv_call hd he k).1) (fun k => (h.rcv_call hd he k).2) (fun a ha => .inl (h.pending b a (hpend a ha)))
    (fun o ho a ha => ?_) ?_
  · obtain ho | hack := hwrit o ho
    · exact h.written b o ho a ha
    · obtain ⟨a₀, ha₀, hq⟩ := hack a ha
      exact (h.pending b a₀ ha₀).of_queued hq
  · exact Endpoint.step_held (hmtu b) hinv.keyed (h.held b) hoff (fun p u rawLen now hop => absurd hop (hd p u rawLen now)) he

/-- A packet that is stored arrives in full. -/
theorem Conserved.rcv_arrive (h : Conserved s) {i rawLen now : Nat} {p : PayloadHeader} {u : Option Bytes}
    {c : Conn Prv Pub} (hr : (s.link b).received i = some (p, u)) (hsafe : s.Safe (.arrive b i now))
    (hc : (s.side b).conn.decode p u rawLen now = some c) (k : Nat) :
    (c.rcv.stream k).Tiled ((s.side !b).accepted k) ∧ (∀ j, s.Arrived b k j → (c.rcv.stream k).Covered j) ∧
    (k = p.streamID → (s.side b).conn.rcv.Stores u → ∀ j, p.streamOffset ≤ j → j < p.streamOffset + (u.getD []).length →
      (c.rcv.stream k).Covered j) := by
  obtain ⟨hlen, hroom⟩ := hsafe _ hr
  obtain ⟨s₁, hstr, _, hs₁⟩ := Conn.decode_rcv (h.base.side b).keyed hc
  -- the stream of the packet before its close mark is set
  have hfirst : s₁.Tiled ((s.side !b).accepted p.streamID) ∧ (∀ j, s.Arrived b p.streamID j → s₁.Covered j) ∧
      ((s.side b).conn.rcv.Stores u → ∀ j, p.streamOffset ≤ j → j < p.streamOffset + (u.getD []).length → s₁.Covered j) := by
    obtain ⟨hno, rfl⟩ | ⟨hst, delta, st, hins⟩ := hs₁
    · exact ⟨h.tiled b _, fun j hj => hj, fun hst => absurd hst hno⟩
    · have hg := (h.base.link b).received_genuine hr
      have hput : ∃ s' delta st, ((s.side b).conn.rcv.stream p.streamID).insert p.streamOffset now (u.getD []) =
          some (s', delta, st) ∧ RcvBuffer.Inserted ((s.side !b).accepted p.streamID)
            ((s.side b).conn.rcv.stream p.streamID) p.streamOffset (u.getD []).length s' :=
        (h.tiled b p.streamID).insert hlen hst.1 (hg.data hst.1) (hroom hst)
      obtain ⟨s', delta', st', hins', hok⟩ := hput
      rw [hins'] at hins
      cases hins
      exact ⟨hok.tiled, fun j hj => hok.covered j (.inl hj), fun _ j h1 h2 => hok.covered j (.inr ⟨h1, h2⟩)⟩
  rw [hstr k]
  split_ifs with hk hcl
  · subst hk
    simp only [RcvBuffer.covered_close]
    exact ⟨hfirst.1.close _, hfirst.2.1, fun _ => hfirst.2.2⟩
  · subst hk
    exact ⟨hfirst.1, hfirst.2.1, fun _ => hfirst.2.2⟩
  · exact ⟨h.tiled b k, fun j hj => hj, fun hkp => absurd hkp hk⟩

theorem Conserved.arrive (P : Primitives Prv Pub) (hmtu : ∀ b, 119 ≤ (cfg b).mtu ∧ (cfg b).mtu ≤ 65535) (h : Conserved s) {i rawLen now : Nat}
    {p : PayloadHeader} {u : Option Bytes} {c : Conn Prv Pub} (hr : (s.link b).received i = some (p, u))
    (hsafe : s.Safe (.arrive b i now)) (hc : (s.side b).conn.decode p u rawLen now = some c)
    (hbase : Inv (s.set b { s.side b with conn := c })) : Conserved (s.set b { s.side b with conn := c }) := by
  obtain ⟨hid, hack⟩ := Link.received_wire hr
  have hg := (h.base.link b).received_genuine hr
  have hrcv := h.rcv_arrive hr hsafe hc
  refine h.set hbase (fun k => List.prefix_rfl) (fun k => (hrcv k).1) (fun k => (hrcv k).2.1) (fun a ha => ?_)
    (h.written b) ?_
  · obtain ha | ⟨hk, ho, hlen⟩ := Conn.decode_acks (h.base.side b).keyed hc a ha
    · exact .inl (h.pending b a ha)
    · refine .inr ⟨by rw [hk]; exact hid, by rw [ho]; exact hg.offset, fun j h1 h2 => ?_⟩
      rw [ho] at h1 h2
      obtain hz | ⟨hst, hle⟩ := hlen
      · omega
      · exact (hrcv a.streamID).2.2 hk hst j h1 (by omega)
  · have hstep : (s.side b).step P (cfg b) (.decode p u rawLen now) = some { s.side b with conn := c } := by
      simp only [Endpoint.step, hc, Option.map_some]
    have hfit : (s.side b).OffsetsFit (.decode p u rawLen now) := trivial
    refine Endpoint.step_held (hmtu b) (h.base.link b).keyed (h.held b) hfit (fun p' u' rawLen' now' hop a ha => ?_) hstep
    cases hop
    obtain ⟨o, ho, a₀, ha₀, rfl⟩ := hack a ha
    exact (h.written (!b) o ho a₀ ha₀).wire

/-- No step loses a byte. -/
theorem step_conserved (hmtu : ∀ b, 119 ≤ (cfg b).mtu ∧ (cfg b).mtu ≤ 65535) (s : Channel Prv Pub)
    (op : ChannelOp Prv Pub) (t : Channel Prv Pub) (h : Conserved s) (hok : s.Fits op ∧ s.Safe op)
    (hs : s.step P cfg op = some t) : Conserved t := by
  have hinv := step_inv hmtu s op t h.base hok.1 hs
  obtain ⟨b, op', e, rfl, hd, he, rfl⟩ | ⟨b, i, now, rfl, rfl | ⟨p, u, rawLen, c, hr, hc, rfl⟩⟩ := step_cases hs
  · exact h.call hmtu hd hok.1 he
  · exact h
  · exact h.arrive P hmtu hr hok.2 hc hinv

theorem run_conserved (hmtu : ∀ b, 119 ≤ (cfg b).mtu ∧ (cfg b).mtu ≤ 65535) {ops : List (ChannelOp Prv Pub)}
    (h : Conserved s) (hok : Along (step P cfg) (fun s op => s.Fits op ∧ s.Safe op) s ops)
    (hr : run (step P cfg) s ops = some t) : Conserved t :=
  run_inv_along (fun s op t h hok hs => step_conserved hmtu s op t h hok hs) h hok hr

/-- Every accepted byte is queued or in flight where it was written, or is stored or was read on
the other side. -/
theorem Conserved.located (h : Conserved s) {k i : Nat} {x : UInt8} (hx : ((s.side !b).accepted k)[i]? = some x) :
    (s.side !b).conn.snd.Holds k i x ∨ (s.side b).conn.rcv.Holds k i x ∨ ((s.side b).delivered k)[i]? = some x := by
  have hheld := h.held (!b) k
  rw [Bool.not_not] at hheld
  by_cases hsent : ((s.side !b).conn.snd.stream k).bytesSentOffset ≤ i
  · refine .inl (.inl ⟨hsent, ?_⟩)
    rw [hheld.queued, List.getElem?_drop, Nat.add_sub_cancel' hsent]
    exact hx
  · obtain ⟨v, hv, h1, h2⟩ | hread | ⟨v, hv, h1, h2⟩ := hheld.kept i (not_le.mp hsent)
    · refine .inl (.inr ⟨v, hv, h1, ?_⟩)
      rw [(hheld.content v hv).getElem?_sub h1 h2]
      exact hx
    · refine .inr (.inr ?_)
      have hlen : ((s.side b).delivered k).length = ((s.side b).conn.rcv.stream k).nextInOrderOffsetToWaitFor :=
        (h.base.link b).rcv.length k
      have hat : IsAt ((s.side !b).accepted k) 0 ((s.side b).delivered k) := (h.base.link b).rcv.isPrefix k
      have hget := hat.getElem?_sub (Nat.zero_le i) (by omega)
      rw [Nat.sub_zero] at hget
      rw [hget]
      exact hx
    · refine .inr (.inl ⟨v, hv, h1, ?_⟩)
      rw [((h.tiled b k).content v hv).getElem?_sub h1 h2]
      exact hx

/-- With nothing queued and no data in flight, reading until nil gives the whole stream. -/
theorem Conserved.drained (h : Conserved s) {k : Nat} (hs : (s.side !b).conn.snd.NoDataLeft k)
    (hr : ((s.side b).conn.rcv.removeOldestInOrder k).2.2.1 = none) : (s.side b).delivered k = (s.side !b).accepted k := by
  have hrcv : RcvFaithful (s.side !b).accepted (s.side b).conn.rcv (s.side b).delivered := (h.base.link b).rcv
  have hheld := h.held (!b) k
  rw [Bool.not_not] at hheld
  rw [ReceiveBuffer.removeOldestInOrder_packet] at hr
  obtain ⟨v, _, hread⟩ | ⟨_, hmin⟩ := ((s.side b).conn.rcv.stream k).removeOldestInOrder_cases
  · rw [hread] at hr
    cases hr
  · apply hrcv.eq_of_next
    apply le_antisymm (hrcv.next_le k)
    by_contra hlt
    -- the byte that the reader waits for was sent and is not in flight, so it arrived
    have hall : ((s.side !b).accepted k).length ≤ ((s.side !b).conn.snd.stream k).bytesSentOffset := by
      have hq := hheld.queued
      rw [hs.1] at hq
      exact List.drop_eq_nil_iff.mp hq.symm
    obtain ⟨v, hv, h1, h2⟩ | harr := hheld.kept _ ((not_le.mp hlt).trans_le hall)
    · unfold StreamBuffer.entryEnd at h2
      unfold StreamBuffer.entryStart at h1
      rw [hs.2 v hv, List.length_nil] at h2
      omega
    · exact (h.tiled b k).not_covered_next hmin harr

end Channel

end Qotp
