import Qotp.Buffer.ReceiveSize
import Qotp.Buffer.SendSize
import Qotp.Conn.EndpointFrame
import Qotp.Conn.InFlight
import Qotp.Conn.ListenerFlush

namespace Qotp

open Framework

variable {Prv Pub : Type}

namespace Conn

/-- The bytes that are buffered for the streams in the table. -/
def buffered (c : Conn Prv Pub) : Nat := (c.streams.keys.map fun k => (c.rcv.stream k).stored).sum

/-- The bytes that are queued or in flight on the streams in the table. -/
def waiting (c : Conn Prv Pub) : Nat := (c.streams.keys.map fun k => (c.snd.stream k).held).sum

/-- Both counters count the streams in the table and nothing else. -/
structure WindowExact (c : Conn Prv Pub) : Prop where
  rcv : c.rcv.size = c.buffered
  snd : c.snd.size = c.waiting

/-- Nothing is kept for stream `k`. -/
def Empty (c : Conn Prv Pub) (k : Nat) : Prop := (c.rcv.stream k).stored = 0 ∧ (c.snd.stream k).held = 0

instance (c : Conn Prv Pub) (k : Nat) : Decidable (c.Empty k) := inferInstanceAs (Decidable (_ ∧ _))

variable {c c' : Conn Prv Pub}

theorem buffered_le (c : Conn Prv Pub) : c.buffered ≤ c.rcv.stored ∧
    (c.buffered = c.rcv.stored ↔ ∀ k ∉ c.streams.keys, (c.rcv.stream k).stored = 0) := by
  have hget : ∀ k, ((c.rcv.streams.get? k).map RcvBuffer.stored).getD 0 = (c.rcv.stream k).stored := by
    intro k
    unfold ReceiveBuffer.stream
    cases c.rcv.streams.get? k <;> rfl
  have hle := InsertionMap.sum_keys_add_sumBy RcvBuffer.stored c.streams.nodup c.rcv.streams
  have hiff := InsertionMap.sum_keys_eq_iff RcvBuffer.stored c.streams.nodup c.rcv.streams
  simp only [hget] at hle hiff
  exact ⟨(Nat.le_add_right _ _).trans_eq hle, hiff⟩

theorem waiting_eq_iff (c : Conn Prv Pub) :
    c.waiting = c.snd.held ↔ ∀ k ∉ c.streams.keys, (c.snd.stream k).held = 0 := by
  have hget : ∀ k, ((c.snd.streams.get? k).map StreamBuffer.held).getD 0 = (c.snd.stream k).held := by
    intro k
    unfold SendBuffer.stream
    cases c.snd.streams.get? k <;> rfl
  have hiff := InsertionMap.sum_keys_eq_iff StreamBuffer.held c.streams.nodup c.snd.streams
  simp only [hget] at hiff
  exact hiff

/-- The counters are exact where they count what is there, and nothing is there for other streams. -/
theorem windowExact_iff (hsnd : c.snd.drift = 0) (hrcv : 0 ≤ c.rcv.drift) :
    c.WindowExact ↔ c.rcv.drift = 0 ∧ ∀ k ∉ c.streams.keys, c.Empty k := by
  obtain ⟨hle, hbuf⟩ := c.buffered_le
  have hwait := c.waiting_eq_iff
  unfold SendBuffer.drift at hsnd
  unfold ReceiveBuffer.drift at hrcv ⊢
  constructor
  · intro h
    have h1 := h.rcv
    have h2 := h.snd
    refine ⟨by omega, fun k hk => ⟨hbuf.mp (by omega) k hk, hwait.mp (by omega) k hk⟩⟩
  · rintro ⟨hzero, hempty⟩
    have h1 := hbuf.mpr fun k hk => (hempty k hk).1
    have h2 := hwait.mpr fun k hk => (hempty k hk).2
    exact ⟨by omega, by omega⟩

/-- A call that takes no stream out of the table and gives no bytes to a stream outside it. -/
structure Settles (c c' : Conn Prv Pub) : Prop where
  keys : ∀ k ∈ c.streams.keys, k ∈ c'.streams.keys
  absent : ∀ k ∉ c'.streams.keys, c.Empty k → c'.Empty k
  drift : c'.snd.drift = c.snd.drift

theorem mem_keys_stream (c : Conn Prv Pub) (k j : Nat) : j ∈ (c.stream k).1.streams.keys ↔ j = k ∨ j ∈ c.streams.keys := by
  unfold stream
  cases hg : c.streams.get? k with
  | some s =>
    refine ⟨.inr, fun h => ?_⟩
    obtain rfl | h := h
    · exact List.mem_map_of_mem (InsertionMap.get?_eq_some.mp hg)
    · exact h
  | none => exact InsertionMap.mem_keys_put

/-- A call on stream `k` of the table. -/
theorem settles_stream {k : Nat} (hkeys : ∀ j, j ∈ c'.streams.keys ↔ j = k ∨ j ∈ c.streams.keys)
    (hrcv : ∀ j, j ≠ k → c'.rcv.stream j = c.rcv.stream j)
    (hsnd : ∀ j, j ≠ k → (c.snd.stream j).held = 0 → (c'.snd.stream j).held = 0)
    (hdrift : c'.snd.drift = c.snd.drift) : Settles c c' := by
  refine ⟨fun j hj => (hkeys j).mpr (.inr hj), fun j hj hempty => ?_, hdrift⟩
  have hjk : j ≠ k := fun h => hj ((hkeys j).mpr (.inl h))
  exact ⟨(congrArg RcvBuffer.stored (hrcv j hjk)).trans hempty.1, hsnd j hjk hempty.2⟩

end Conn

namespace SendBuffer

/-- No stream holds more or less, and the counter is as exact as before. -/
structure HoldsSame (sb sb' : SendBuffer) : Prop where
  drift : sb'.drift = sb.drift
  held : ∀ j, (sb'.stream j).held = (sb.stream j).held

variable {W : Nat → Bytes} {sb sb' sb'' : SendBuffer} {k : Nat} {msgType : CryptoMsgType} {ack : Option Ack} {mtu : Int}
  {now rto : Nat}

theorem holdsSame_refl (sb : SendBuffer) : HoldsSame sb sb := ⟨rfl, fun _ => rfl⟩

theorem HoldsSame.trans (h : HoldsSame sb sb') (h' : HoldsSame sb' sb'') : HoldsSame sb sb'' :=
  ⟨h'.drift.trans h.drift, fun j => (h'.held j).trans (h.held j)⟩

theorem holdsSame_put {s' : StreamBuffer} (hdrift : sb'.drift = sb.drift)
    (hstr : ∀ j, sb'.stream j = if j = k then s' else sb.stream j) (hone : s'.held = (sb.stream k).held) :
    HoldsSame sb sb' := by
  refine ⟨hdrift, fun j => ?_⟩
  rw [hstr j]
  split_ifs with hj
  · rw [hj, hone]
  · rfl

theorem holdsSame_readyToSend (h : SndOk W sb) (hb : (sb.stream k).bytesSentOffset < 2 ^ 48)
    (hm : StreamBuffer.MtuFits msgType ack mtu (sb.stream k).bytesSentOffset) (now : Nat) :
    HoldsSame sb (sb.readyToSend k msgType ack mtu now).1 := by
  have hone := (h.conserves k).held_readyToSend hb hm now
  exact holdsSame_put (accounts_readyToSend hone).drift
    (fun j => (sb.readyToSend_stream k j msgType ack mtu now).1) hone

theorem holdsSame_readyToRetransmit (h : SndOk W sb) (hb : (sb.stream k).bytesSentOffset < 2 ^ 48)
    (hm : ∀ e, (sb.stream k).dataInFlightMap.first = some e →
      StreamBuffer.MtuFits msgType ack mtu (StreamBuffer.entryStart e))
    {r : Except String StreamBuffer.Packet} (hr : sb.readyToRetransmit k ack mtu rto msgType now = some (sb', r)) :
    HoldsSame sb sb' := by
  have hone : ∀ s', (sb.stream k).readyToRetransmit ack mtu rto msgType now = some (s', r) →
      s'.held = (sb.stream k).held := fun s' hs => (h.conserves k).held_readyToRetransmit hb hm hs
  obtain ⟨s', hs, hstr⟩ := readyToRetransmit_stream hr
  exact holdsSame_put (accounts_readyToRetransmit hr hone).drift hstr (hone s' hs)

theorem holdsSame_queuePing (sb : SendBuffer) (k : Nat) : HoldsSame sb (sb.queuePing k) :=
  holdsSame_put (accounts_queuePing sb k).drift (stream_put sb k · _) rfl

theorem holdsSame_close (sb : SendBuffer) (k : Nat) : HoldsSame sb (sb.close k) := by
  refine holdsSame_put (accounts_close sb k).drift (stream_put sb k · _) ?_
  dsimp only [StreamBuffer.close]
  cases (sb.stream k).closeAtOffset <;> rfl

/-- An ack takes bytes away, if anything. -/
theorem held_afterAck (sb : SendBuffer) (ack : Option Ack) :
    (sb.afterAck ack).drift = sb.drift ∧ ∀ j, ((sb.afterAck ack).stream j).held ≤ (sb.stream j).held := by
  cases ack with
  | none => exact ⟨rfl, fun j => le_rfl⟩
  | some a =>
    refine ⟨(accounts_acknowledgeRange sb a).drift, fun j => ?_⟩
    obtain ⟨st, hr, _⟩ | ⟨info, hmem, _, _, hstr⟩ := sb.acknowledgeRange_cases a
    · rw [afterAck, hr]
    · rw [afterAck, hstr j]
      split_ifs with hj
      · rw [hj]
        exact (Nat.le_add_right _ _).trans_eq (StreamBuffer.held_erase hmem)
      · exact le_rfl

end SendBuffer

namespace Conn

variable {P : Primitives Prv Pub} {l : ListenerCfg Prv} {W : Nat → Bytes} {c c' : Conn Prv Pub} {k now : Nat}
  {w : WriteResult} {out : List Outgoing} {r : FlushResult}

theorem flushSend_holdsSame (hmtu : 119 ≤ l.mtu ∧ l.mtu ≤ 65535) (h : SndOk W c.snd) {ack : Option Ack}
    (hb : (c.snd.stream k).bytesSentOffset < 2 ^ 48) (hf : c.flushSend P l k ack now w = some (c', out, r)) :
    c.snd.HoldsSame c'.snd := by
  obtain ⟨⟨i, s, e, n, rfl⟩, _⟩ | ⟨snd, pkt, hr, hcase⟩ := flushSend_cases P l hf
  · exact SendBuffer.holdsSame_refl _
  have hsame := SendBuffer.holdsSame_readyToSend h hb (StreamBuffer.mtuFits_of_range hmtu c.msgType ack _) now
  rw [hr] at hsame
  obtain ⟨_, ⟨i, s, e, n, rfl⟩, _⟩ | ⟨d, o, isClose, _, hsend⟩ := hcase
  · exact hsame
  obtain ⟨_, _, i, s, e, n, rfl⟩ | ⟨enc, _, i, s, e, n, rfl⟩ := hsend
  · exact hsame
  · exact hsame

theorem flush_holdsSame (hmtu : 119 ≤ l.mtu ∧ l.mtu ≤ 65535) (h : SndOk W c.snd)
    (hb : (c.snd.stream k).bytesSentOffset < 2 ^ 48) (hf : c.flush P l k now w = some (c', out, r)) :
    c.snd.HoldsSame c'.snd := by
  have hfits := StreamBuffer.mtuFits_of_range hmtu
  obtain ⟨⟨i, s, e, n, rfl⟩, _⟩ | ⟨_, snd, res, hr, hcase⟩ := flush_cases P l hf
  · exact SendBuffer.holdsSame_refl _
  have hsame := SendBuffer.holdsSame_readyToRetransmit h hb (fun _ _ => hfits _ _ _) hr
  obtain ⟨e, _, rfl, _⟩ | ⟨d, o, isClose, _, ⟨i, s, e, n, rfl⟩, _⟩ | ⟨o, isClose, _, hsend⟩ := hcase
  · exact hsame
  · exact hsame
  have hk := (h.readyToRetransmit hb (fun _ _ => hfits _ _ _) hr).1
  have hb₁ : (snd.stream k).bytesSentOffset < 2 ^ 48 := by
    obtain ⟨s', hs, hstr⟩ := SendBuffer.readyToRetransmit_stream hr
    rw [hstr k, if_pos rfl, StreamBuffer.readyToRetransmit_frame hs]
    exact hb
  exact hsame.trans (flushSend_holdsSame hmtu hk.ok hb₁ hsend)

theorem takeAck_rcv (c : Conn Prv Pub) : (∀ j, c.takeAck.1.rcv.stream j = c.rcv.stream j) ∧
    c.takeAck.1.rcv.drift = c.rcv.drift := by
  unfold takeAck ReceiveBuffer.getSndAck
  cases c.rcv.ackList <;> exact ⟨fun _ => rfl, rfl⟩

/-- What a received packet does to the counter of the receive buffer. -/
theorem decode_drift {p : PayloadHeader} {u : Option Bytes} {rawLen : Nat}
    (hk : c.StreamsKeyed) (hlen : p.streamOffset + (u.getD []).length < 2 ^ 64)
    (hd : c.decode p u rawLen now = some c') :
    c.rcv.drift ≤ c'.rcv.drift ∧ (c'.rcv.drift = c.rcv.drift ↔
      (c.rcv.Stores u → ¬ (c.rcv.stream p.streamID).Overwrites p.streamOffset (u.getD []).length)) := by
  obtain ⟨rcv, hrcv, hc'⟩ := (hk.decode_effect hd).rcv
  have hclose : c'.rcv.drift = rcv.drift := by
    rw [hc']
    split_ifs
    · exact rcv.close_drift _ _
    · rfl
  rw [hclose]
  obtain ⟨d, st, rfl, hne, hins⟩ | ⟨hu, rfl⟩ | ⟨rfl, _, rfl⟩ := hrcv
  · obtain ⟨hle, hiff⟩ := ReceiveBuffer.insert_drift hlen hne hins
    refine ⟨hle, hiff.trans ⟨fun h hst => h hst.2, fun h hroom => h ⟨hne, hroom⟩⟩⟩
  · refine ⟨le_rfl, iff_of_true rfl fun hst => absurd ?_ hst.1⟩
    obtain rfl | ⟨rfl, _⟩ := hu <;> rfl
  · exact ⟨le_rfl, iff_of_true rfl fun hst => absurd rfl hst.1⟩

end Conn

namespace Endpoint

variable {P : Primitives Prv Pub} {l : ListenerCfg Prv} {e e' : Endpoint Prv Pub} {k : Nat}

/-- Fewer than 2^48 bytes are sent on each stream, and no packet reaches behind 2^64. -/
def InRange (e : Endpoint Prv Pub) : ConnOp Prv Pub → Prop
  | .flush k _ _ => (e.conn.snd.stream k).bytesSentOffset < 2 ^ 48
  | .decode p u _ _ => p.streamOffset + (u.getD []).length < 2 ^ 64
  | _ => True

instance (e : Endpoint Prv Pub) : ∀ op, Decidable (e.InRange op)
  | .flush _ _ _ | .decode _ _ _ _ => inferInstanceAs (Decidable (_ < _))
  | .write _ _ _ | .read _ | .ping _ | .close _ | .cleanup _ | .handshake _ => inferInstanceAs (Decidable True)

/-- A stream leaves the table when nothing is kept for it, and no packet is stored over a segment. -/
def KeepsWindow (e : Endpoint Prv Pub) : ConnOp Prv Pub → Prop
  | .cleanup k => k ∈ e.conn.streams.keys → e.conn.Empty k
  | .decode p u _ _ => e.conn.rcv.Stores u →
      ¬ (e.conn.rcv.stream p.streamID).Overwrites p.streamOffset (u.getD []).length
  | _ => True

instance (e : Endpoint Prv Pub) : ∀ op, Decidable (e.KeepsWindow op)
  | .cleanup k => inferInstanceAs (Decidable (k ∈ e.conn.streams.keys → e.conn.Empty k))
  | .decode p u _ _ => inferInstanceAs (Decidable (e.conn.rcv.Stores u →
      ¬ (e.conn.rcv.stream p.streamID).Overwrites p.streamOffset (u.getD []).length))
  | .write _ _ _ | .read _ | .ping _ | .close _ | .flush _ _ _ | .handshake _ => inferInstanceAs (Decidable True)

/-- What holds in every run, whatever it keeps. -/
structure Tracked (e : Endpoint Prv Pub) : Prop where
  inv : Inv e
  snd : e.conn.snd.drift = 0
  rcv : 0 ≤ e.conn.rcv.drift

theorem tracked_fresh {c : Conn Prv Pub} (h : c.Fresh) : Tracked { conn := c } ∧ c.WindowExact := by
  have hsnd : c.snd.drift = 0 := by
    rw [h.snd]
    rfl
  have hrcv : c.rcv.drift = 0 := by
    rw [h.rcv]
    rfl
  refine ⟨⟨inv_fresh h, hsnd, hrcv.ge⟩, (Conn.windowExact_iff hsnd hrcv.ge).mpr ⟨hrcv, fun k _ => ?_⟩⟩
  unfold Conn.Empty
  rw [h.rcv, h.snd]
  exact ⟨rfl, rfl⟩

theorem Tracked.exact_iff (h : Tracked e) :
    e.conn.WindowExact ↔ e.conn.rcv.drift = 0 ∧ ∀ k ∉ e.conn.streams.keys, e.conn.Empty k :=
  Conn.windowExact_iff h.snd h.rcv

/-- A call that settles keeps the counters exact as long as the receive counter stays so. -/
theorem Tracked.settles (h : Tracked e) (hi : Inv e') (hs : e.conn.Settles e'.conn)
    (hle : e.conn.rcv.drift ≤ e'.conn.rcv.drift) :
    Tracked e' ∧ (e.conn.WindowExact → (e'.conn.WindowExact ↔ e'.conn.rcv.drift = e.conn.rcv.drift)) := by
  have ht : Tracked e' := ⟨hi, hs.drift.trans h.snd, h.rcv.trans hle⟩
  refine ⟨ht, fun hexact => ?_⟩
  obtain ⟨hzero, hempty⟩ := h.exact_iff.mp hexact
  rw [ht.exact_iff, hzero]
  refine and_iff_left fun k hk => hs.absent k hk (hempty k fun hmem => hk (hs.keys k hmem))

/-- The calls that leave the receive counter as exact as it was. -/
theorem Tracked.quiet (h : Tracked e) (hi : Inv e') (hs : e.conn.Settles e'.conn)
    (hdrift : e'.conn.rcv.drift = e.conn.rcv.drift) :
    Tracked e' ∧ (e.conn.WindowExact → (e'.conn.WindowExact ↔ True)) := by
  obtain ⟨ht, hiff⟩ := h.settles hi hs hdrift.ge
  exact ⟨ht, fun hexact => (hiff hexact).trans (iff_true_intro hdrift)⟩

/-- The stream is created, if need be, and the send buffer holds what it held. -/
theorem settles_create (c : Conn Prv Pub) (k : Nat) {snd : SendBuffer} (h : c.snd.HoldsSame snd) :
    c.Settles { (c.stream k).1 with snd := snd } := by
  refine Conn.settles_stream (Conn.mem_keys_stream c k) (fun j _ => ?_) (fun j _ hzero => ?_) h.drift
  · rw [Conn.stream_frame]
  · exact (h.held j).trans hzero

theorem settles_write (h : e.conn.StreamsKeyed) {d : Bytes} {wake : WriteResult}
    (hs : e.step P l (.write k d wake) = some e') :
    e.conn.Settles e'.conn ∧ e'.conn.rcv = e.conn.rcv := by
  obtain ⟨hid, _⟩ := Conn.stream_streamID h k
  have hsnd : (e.conn.stream k).1.snd = e.conn.snd := by rw [Conn.stream_frame]
  have hrcv : (e.conn.stream k).1.rcv = e.conn.rcv := by rw [Conn.stream_frame]
  obtain ⟨⟨c', n, err⟩, hw, rfl⟩ := Option.map_eq_some_iff.mp hs
  obtain rfl | ⟨_, snd, m, st, hq, rfl⟩ := Conn.write_cases hw
  · have hset := settles_create e.conn k (SendBuffer.holdsSame_refl e.conn.snd)
    rw [← hsnd] at hset
    exact ⟨hset, hrcv⟩
  · rw [hid, hsnd] at hq
    refine ⟨Conn.settles_stream (Conn.mem_keys_stream e.conn k) (fun j _ => ?_) (fun j hj => ?_) (SendBuffer.accounts_queueData hq).drift, hrcv⟩
    · dsimp only
      rw [hrcv]
    · dsimp only
      rw [SendBuffer.queueData_stream hq, if_neg hj]
      exact id

theorem settles_read (h : e.conn.StreamsKeyed) (hs : e.step P l (.read k) = some e') :
    e.conn.Settles e'.conn ∧ e'.conn.rcv.drift = e.conn.rcv.drift := by
  have hkeys := Conn.mem_keys_stream e.conn k
  have hrcv : (e.conn.stream k).1.rcv = e.conn.rcv := by rw [Conn.stream_frame]
  have hsnd : (e.readOf k).1.snd = e.conn.snd := by
    rw [readOf, (read_keyed (Conn.stream_streamID h k).2 k _).2, Conn.stream_frame]
  cases hs
  change e.conn.Settles (e.readOf k).1 ∧ (e.readOf k).1.rcv.drift = _
  have hset : ∀ rcv, (e.readOf k).1.rcv = rcv → (∀ j, j ≠ k → rcv.stream j = e.conn.rcv.stream j) →
      (∀ j, j ∈ (e.readOf k).1.streams.keys ↔ j = k ∨ j ∈ e.conn.streams.keys) → e.conn.Settles (e.readOf k).1 := by
    intro rcv hr hstr hk
    refine Conn.settles_stream hk (fun j hj => ?_) (fun j _ => ?_) ?_
    · rw [hr, hstr j hj]
    · rw [hsnd]
      exact id
    · rw [hsnd]
  obtain ⟨_, hr⟩ | ⟨_, hr, _, hcase⟩ := readOf_cases h k
  · rw [hr]
    rw [hr] at hset
    exact ⟨hset _ hrcv (fun j _ => rfl) hkeys, by rw [hrcv]⟩
  · refine ⟨hset _ hr (fun j hj => ?_) fun j => ?_, ?_⟩
    · rw [ReceiveBuffer.removeOldestInOrder_stream, if_neg hj]
    · obtain ⟨_, _, _, _, hs⟩ | ⟨_, _, hs⟩ := hcase
      · rw [hs, InsertionMap.mem_keys_put, hkeys, or_self_left]
      · rw [hs, hkeys]
    · rw [hr, ReceiveBuffer.removeOldestInOrder_drift]

theorem settles_decode {p : PayloadHeader} {u : Option Bytes} {rawLen now : Nat} {c c' : Conn Prv Pub}
    (hk : c.StreamsKeyed) (hd : c.decode p u rawLen now = some c') : c.Settles c' := by
  have heff := hk.decode_effect hd
  obtain ⟨hack, hheld⟩ := c.snd.held_afterAck p.ack
  have hsame : (c.snd.afterAck p.ack).HoldsSame c'.snd := by
    rw [heff.snd]
    split_ifs
    · exact SendBuffer.holdsSame_close _ _
    · exact SendBuffer.holdsSame_refl _
  refine Conn.settles_stream (k := p.streamID) (fun j => ?_) (fun j hj => ?_) (fun j _ hzero => ?_)
    (hsame.drift.trans hack)
  · have hs := heff.streams
    split_ifs at hs
    · rw [hs, InsertionMap.mem_keys_put, Conn.mem_keys_stream, or_self_left]
    · rw [hs, Conn.mem_keys_stream]
  · obtain ⟨s₁, hstr, _⟩ := Conn.decode_rcv hk hd
    rw [hstr j, if_neg hj]
  · have := hheld j
    rw [hsame.held j]
    omega

theorem settles_flush {c c' : Conn Prv Pub} {W : Nat → Bytes} {now : Nat} {w : WriteResult} {out : List Conn.Outgoing}
    {r : Conn.FlushResult} (hmtu : 119 ≤ l.mtu ∧ l.mtu ≤ 65535) (h : SndOk W c.snd)
    (hb : (c.snd.stream k).bytesSentOffset < 2 ^ 48) (hf : c.flush P l k now w = some (c', out, r)) :
    c.Settles c' ∧ c'.rcv.drift = c.rcv.drift := by
  have hframe := flush_frame hf
  have hsame := Conn.flush_holdsSame hmtu h hb hf
  obtain ⟨hstr, hdrift⟩ := c.takeAck_rcv
  refine ⟨⟨fun j hj => ?_, fun j _ hempty => ?_, hsame.drift⟩, ?_⟩
  · rw [hframe.streams]
    exact hj
  · unfold Conn.Empty
    rw [hframe.rcv, hstr, hsame.held]
    exact hempty
  · rw [hframe.rcv, hdrift]

/-- The counters stay exact behind a cleanup just when there was nothing left of the stream. -/
theorem Tracked.cleanup (h : Tracked e) (hi : Inv { e with conn := e.conn.cleanupStream k }) :
    Tracked { e with conn := e.conn.cleanupStream k } ∧ (e.conn.WindowExact →
      ((e.conn.cleanupStream k).WindowExact ↔ (k ∈ e.conn.streams.keys → e.conn.Empty k))) := by
  have ht : Tracked { e with conn := e.conn.cleanupStream k } := ⟨hi, h.snd, h.rcv⟩
  refine ⟨ht, fun hexact => ?_⟩
  obtain ⟨hzero, hempty⟩ := h.exact_iff.mp hexact
  have hkeys : ∀ j, j ∈ (e.conn.cleanupStream k).streams.keys ↔ j ≠ k ∧ j ∈ e.conn.streams.keys := by
    intro j
    rw [Conn.cleanupStream, InsertionMap.keys_erase, List.mem_filter, decide_eq_true_iff, and_comm]
  rw [ht.exact_iff]
  refine ⟨fun hall hk => hall.2 k fun hmem => ((hkeys k).mp hmem).1 rfl, fun hk => ⟨hzero, fun j hj => ?_⟩⟩
  by_cases hmem : j ∈ e.conn.streams.keys
  · have hjk : j = k := not_not.mp fun hne => hj ((hkeys j).mpr ⟨hne, hmem⟩)
    subst hjk
    exact hk hmem
  · exact hempty j hmem

theorem step_window (hmtu : 119 ≤ l.mtu ∧ l.mtu ≤ 65535) (e : Endpoint Prv Pub) (op : ConnOp Prv Pub)
    (e' : Endpoint Prv Pub) (h : Tracked e) (hop : e.InRange op) (hs : e.step P l op = some e') :
    Tracked e' ∧ (e.conn.WindowExact → (e'.conn.WindowExact ↔ e.KeepsWindow op)) := by
  have hfit : e.OffsetsFit op := by
    cases op with
    | flush k now w => exact hop
    | _ => trivial
  have hi := step_inv hmtu e op e' h.inv hfit hs
  have hsnd : ∀ k, (e.conn.stream k).1.snd = e.conn.snd := fun k => by rw [Conn.stream_frame]
  have hrcv : ∀ k, (e.conn.stream k).1.rcv = e.conn.rcv := fun k => by rw [Conn.stream_frame]
  cases op with
  | write k d wake =>
    obtain ⟨hset, hrcv⟩ := settles_write h.inv.keyed hs
    exact h.quiet hi hset (congrArg ReceiveBuffer.drift hrcv)
  | read k =>
    obtain ⟨hset, hdrift⟩ := settles_read h.inv.keyed hs
    exact h.quiet hi hset hdrift
  | ping k =>
    cases hs
    have hset := settles_create e.conn k (e.conn.snd.holdsSame_queuePing (e.conn.stream k).2.streamID)
    rw [← hsnd k] at hset
    exact h.quiet hi hset (congrArg ReceiveBuffer.drift (hrcv k))
  | close k =>
    cases hs
    have hset := settles_create e.conn k (e.conn.snd.holdsSame_close (e.conn.stream k).2.streamID)
    rw [← hsnd k] at hset
    exact h.quiet hi hset (congrArg ReceiveBuffer.drift (hrcv k))
  | flush k now w =>
    obtain ⟨⟨c', out, r⟩, hf, rfl⟩ := Option.map_eq_some_iff.mp hs
    obtain ⟨hset, hdrift⟩ := settles_flush hmtu h.inv.snd hop hf
    exact h.quiet hi hset hdrift
  | decode p u rawLen now =>
    obtain ⟨c', hd, rfl⟩ := Option.map_eq_some_iff.mp hs
    obtain ⟨hle, hkeeps⟩ := Conn.decode_drift h.inv.keyed hop hd
    obtain ⟨ht, hiff⟩ := h.settles hi (settles_decode h.inv.keyed hd) hle
    exact ⟨ht, fun hexact => (hiff hexact).trans hkeeps⟩
  | cleanup k =>
    cases hs
    exact h.cleanup hi
  | handshake c =>
    cases hs
    exact h.quiet hi ⟨fun j hj => hj, fun j _ hempty => hempty, rfl⟩ rfl

/-- What happens to a connection of a listener: it is called, or `Listener.Flush` writes an id through
`currentStreamID` into one of its streams. -/
inductive HostedOp (Prv Pub : Type) where
  | call (op : ConnOp Prv Pub)
  | storeStreamID (key id : Nat)

def hostedStep (P : Primitives Prv Pub) (l : ListenerCfg Prv) (e : Endpoint Prv Pub) :
    HostedOp Prv Pub → Option (Endpoint Prv Pub)
  | .call op => e.step P l op
  | .storeStreamID key id => some { e with
      conn := { e.conn with streams := e.conn.streams.modify key fun stream => { stream with streamID := id } } }

/-- The calls are in range, and no id is overwritten by another. -/
def Unrenamed (e : Endpoint Prv Pub) : HostedOp Prv Pub → Prop
  | .call op => e.InRange op
  | .storeStreamID key id => ∀ stream ∈ e.conn.streams.get? key, stream.streamID = id

instance (e : Endpoint Prv Pub) : ∀ op, Decidable (e.Unrenamed op)
  | .call op => inferInstanceAs (Decidable (e.InRange op))
  | .storeStreamID _ _ => inferInstanceAs (Decidable (∀ stream ∈ _, _))

/-- The calls keep the window. -/
def HostKeeps (e : Endpoint Prv Pub) : HostedOp Prv Pub → Prop
  | .call op => e.KeepsWindow op
  | .storeStreamID _ _ => True

instance (e : Endpoint Prv Pub) : ∀ op, Decidable (e.HostKeeps op)
  | .call op => inferInstanceAs (Decidable (e.KeepsWindow op))
  | .storeStreamID _ _ => isTrue trivial

theorem hostedStep_window (hmtu : 119 ≤ l.mtu ∧ l.mtu ≤ 65535) (e : Endpoint Prv Pub) (op : HostedOp Prv Pub)
    (e' : Endpoint Prv Pub) (h : Tracked e) (hop : e.Unrenamed op) (hs : e.hostedStep P l op = some e') :
    Tracked e' ∧ (e.conn.WindowExact → (e'.conn.WindowExact ↔ e.HostKeeps op)) := by
  cases op with
  | call op => exact step_window hmtu e op e' h hop hs
  | storeStreamID key id =>
    have hsame : e.conn.streams.modify key (fun stream => { stream with streamID := id }) = e.conn.streams :=
      InsertionMap.modify_of_fix fun stream hstream => by rw [← hop stream hstream]
    rw [hostedStep, hsame] at hs
    cases hs
    exact ⟨h, fun hexact => iff_of_true hexact trivial⟩

/-- From a fresh connection, for any calls and as long as no stream id is overwritten: in all states of the run the
counters are exact just when every stream was empty as it left the table and no packet was stored over a segment. -/
theorem window_exact_iff (hmtu : 119 ≤ l.mtu ∧ l.mtu ≤ 65535) (c : Conn Prv Pub) (hc : c.Fresh)
    (ops : List (HostedOp Prv Pub)) (e : Endpoint Prv Pub) (hrange : Along (hostedStep P l) Unrenamed { conn := c } ops)
    (hrun : run (hostedStep P l) { conn := c } ops = some e) :
    (∀ pre, pre <+: ops → ∀ t, run (hostedStep P l) { conn := c } pre = some t → t.conn.WindowExact) ↔
      Along (hostedStep P l) HostKeeps { conn := c } ops := by
  obtain ⟨ht, hexact⟩ := tracked_fresh hc
  have hstep : ∀ e (op : HostedOp Prv Pub) e', Tracked e → e.Unrenamed op → e.hostedStep P l op = some e' →
      Tracked e' ∧ ((fun e => e.conn.WindowExact) e → ((fun e => e.conn.WindowExact) e' ↔ e.HostKeeps op)) :=
    hostedStep_window hmtu
  exact run_all_iff hstep ht hexact hrange hrun

section Example

/-- A byte is written on stream 5, sent and acknowledged behind a byte of the peer, which is read; then the stream
goes, and stream 6 is written. -/
def ackedAway : List (HostedOp UInt8 UInt8) :=
  [.call (.write 5 [7] (.ok ())), .call (.flush 5 1 (.ok ())),
    .call (.decode ⟨false, some ⟨5, 0, 1, 512⟩, 5, 0⟩ (some [3]) 20 2), .call (.read 5), .storeStreamID 5 5,
    .call (.cleanup 5), .call (.write 6 [8, 9] (.ok ()))]

theorem ackedAway_exact :
    ∃ e, run (hostedStep plain (Ends.plainCfg true)) { conn := Ends.plainConn true } ackedAway = some e ∧
      e.conn.WindowExact ∧ e.conn.streams.keys = [6] ∧ e.conn.snd.size = 2 := by
  have hrange : Along (hostedStep plain (Ends.plainCfg true)) Unrenamed { conn := Ends.plainConn true } ackedAway := by
    decide +kernel
  have hkeeps : Along (hostedStep plain (Ends.plainCfg true)) HostKeeps { conn := Ends.plainConn true } ackedAway := by
    decide +kernel
  have hall := (window_exact_iff (by decide) _ (plainConn_fresh true) ackedAway _ hrange rfl).mpr hkeeps
  exact ⟨_, rfl, hall ackedAway List.prefix_rfl _ rfl, by decide +kernel, by decide +kernel⟩

/-- A byte is written on stream 5. The peer closes it with its first packet and sends another; the reader takes the
first one and is told that this was the end. -/
def closedEarly : List (ConnOp UInt8 UInt8) :=
  [.write 5 [7] (.ok ()), .decode ⟨true, none, 5, 0⟩ (some [1]) 20 10, .decode ⟨false, none, 5, 1⟩ (some [2]) 20 11,
    .read 5]

/-- `Listener.Flush` sends the byte and drops the stream. Both buffers still count a byte, and no stream is left. -/
theorem closedEarly_keeps_window :
    ∃ e, run (step plain (Ends.plainCfg true)) { conn := Ends.plainConn true } closedEarly = some e ∧
    ∃ f, RoundRobin.flush plain { prvKeyId := 1, mtu := 1400, connMap := InsertionMap.empty.put 0 e.conn } 12
      (fun _ => .ok ()) (fun _ => 0) = some f ∧
    ∃ c, f.listener.connMap.get? 0 = some c ∧ c.streams.keys = [] ∧ c.rcv.size = 1 ∧ c.snd.size = 1 ∧
      ¬ c.WindowExact := by
  refine ⟨_, rfl, _, rfl, _, rfl, rfl, rfl, rfl, fun h => ?_⟩
  exact absurd h.rcv (by decide)

end Example

end Endpoint

end Qotp
