import Qotp.Conn.EndpointFrame

namespace Qotp

open Framework

variable {Prv Pub : Type}

/-- Of the accepted bytes `W` of every stream the send buffer still holds all but those
in `A`. -/
def SndHeld (W : Nat → Bytes) (A : Nat → Nat → Prop) (sb : SendBuffer) : Prop :=
  ∀ k, (sb.stream k).Conserves (W k) (A k)

theorem sndHeld_new (A : Nat → Nat → Prop) (capacity : Int) : SndHeld (fun _ => []) A (.new capacity) :=
  fun _ => StreamBuffer.conserves_new

/-- Every byte in the range of the ack is in `A`. -/
def Ack.Within (a : Ack) (A : Nat → Nat → Prop) : Prop := ∀ i, a.offset ≤ i → i < a.offset + a.len → A a.streamID i

theorem Ack.Within.mono {a : Ack} {A B : Nat → Nat → Prop} (h : a.Within A) (hAB : ∀ k i, A k i → B k i) : a.Within B :=
  fun i h1 h2 => hAB _ i (h i h1 h2)

namespace SndHeld

variable {W : Nat → Bytes} {A B : Nat → Nat → Prop} {sb sb' : SendBuffer} {k now rto : Nat} {msgType : CryptoMsgType}
  {ack : Option Ack} {mtu : Int}

theorem mono (h : SndHeld W A sb) (hAB : ∀ k i, A k i → B k i) : SndHeld W B sb := fun k => (h k).mono (hAB k)

theorem put (h : SndHeld W A sb) {s' : StreamBuffer} (hstr : ∀ j, sb'.stream j = if j = k then s' else sb.stream j)
    (hs : s'.Conserves (W k) (A k)) : SndHeld W A sb' := by
  intro j
  rw [hstr j]
  split_ifs with hj
  · rw [hj]
    exact hs
  · exact h j

theorem queuePing (h : SndHeld W A sb) (k : Nat) : SndHeld W A (sb.queuePing k) :=
  h.put (SendBuffer.stream_put sb k · _) ((h k).congr rfl rfl rfl)

theorem close (h : SndHeld W A sb) (k : Nat) : SndHeld W A (sb.close k) :=
  h.put (SendBuffer.stream_put sb k · _) (h k).close

theorem queueData (h : SndHeld W A sb) {d : Bytes} {n : Nat} {st : InsertStatus}
    (hq : sb.queueData k d = some (sb', n, st)) : SndHeld (Function.update W k (W k ++ d.take n)) A sb' := by
  intro j
  rw [SendBuffer.queueData_stream hq j]
  by_cases hjk : j = k
  · subst hjk
    rw [if_pos rfl, Function.update_self]
    exact (h j).queue _
  · rw [if_neg hjk, Function.update_of_ne hjk]
    exact h j

theorem readyToSend (h : SndHeld W A sb) (hb : (sb.stream k).bytesSentOffset < 2 ^ 48)
    (hm : StreamBuffer.MtuFits msgType ack mtu (sb.stream k).bytesSentOffset) {p : StreamBuffer.Packet}
    (hr : sb.readyToSend k msgType ack mtu now = (sb', p)) : SndHeld W A sb' := by
  have hstr := fun j => sb.readyToSend_stream k j msgType ack mtu now
  rw [hr] at hstr
  exact h.put (fun j => (hstr j).1) ((h k).readyToSend hb hm).1

theorem readyToRetransmit (h : SndHeld W A sb) (hb : (sb.stream k).bytesSentOffset < 2 ^ 48)
    (hm : ∀ e, (sb.stream k).dataInFlightMap.first = some e →
      StreamBuffer.MtuFits msgType ack mtu (StreamBuffer.entryStart e)) {r : Except String StreamBuffer.Packet}
    (hr : sb.readyToRetransmit k ack mtu rto msgType now = some (sb', r)) : SndHeld W A sb' := by
  obtain ⟨s', hs, hstr⟩ := SendBuffer.readyToRetransmit_stream hr
  exact h.put hstr ((h k).readyToRetransmit hb hm hs).1

/-- What an ack removes was in its range. -/
theorem afterAck (h : SndHeld W A sb) (hack : ∀ a, ack = some a → a.offset < 2 ^ 48 ∧ a.len < 2 ^ 16 ∧ a.Within A) :
    SndHeld W A (sb.afterAck ack) := by
  cases ack with
  | none => exact h
  | some a =>
    obtain ⟨ho, hl, hin⟩ := hack a rfl
    obtain ⟨st, hr, _⟩ | ⟨info, _, _, _, hstr⟩ := sb.acknowledgeRange_cases a
    · rw [SendBuffer.afterAck, hr]
      exact h
    · refine h.put hstr ((h a.streamID).erase (fun _ hi => hi) fun v hv i h1 h2 => ?_)
      have hlen := (h a.streamID).keyed _ hv
      dsimp only at hlen
      rw [createPacketKey_length _ _ hl] at hlen
      rw [createPacketKey_offset _ _ hl, Nat.mod_eq_of_lt ho] at h1 h2
      exact hin i h1 (by omega)

end SndHeld

namespace Endpoint

variable {P : Primitives Prv Pub} {l : ListenerCfg Prv} {e e' : Endpoint Prv Pub} {A : Nat → Nat → Prop}

theorem flushSend_held {W : Nat → Bytes} {c c' : Conn Prv Pub} (hmtu : 119 ≤ l.mtu ∧ l.mtu ≤ 65535)
    (h : SndHeld W A c.snd) {k now : Nat} {ack : Option Ack} {w : WriteResult} {out : List Conn.Outgoing}
    {r : Conn.FlushResult} (hb : (c.snd.stream k).bytesSentOffset < 2 ^ 48)
    (hf : c.flushSend P l k ack now w = some (c', out, r)) :
    SndHeld W A c'.snd ∧ ∀ o ∈ out, o.header.ack = ack := by
  have hackOut : ∀ {c : Conn Prv Pub}, c.AckOut k ack out → ∀ o ∈ out, o.header.ack = ack := by
    intro c hout o ho
    obtain rfl | ⟨m, enc, rfl⟩ := hout
    · cases ho
    · rw [List.mem_singleton.mp ho]
  obtain ⟨⟨i, s, e, n, rfl⟩, hout⟩ | ⟨snd, pkt, hr, hcase⟩ := Conn.flushSend_cases P l hf
  · exact ⟨h, hackOut hout⟩
  have hk := h.readyToSend hb (StreamBuffer.mtuFits_of_range hmtu _ _ _) hr
  obtain ⟨_, ⟨i, s, e, n, rfl⟩, hout⟩ | ⟨d, o, isClose, rfl, hsend⟩ := hcase
  · exact ⟨hk, hackOut hout⟩
  obtain ⟨_, rfl, i, s, e, n, rfl⟩ | ⟨enc, rfl, i, s, e, n, rfl⟩ := hsend
  · exact ⟨hk, nofun⟩
  · exact ⟨hk, fun p hp => by rw [List.mem_singleton.mp hp]⟩

/-- `Flush` keeps what is held, and what it writes carries the ack it took or none. -/
theorem flush_held {W : Nat → Bytes} {c c' : Conn Prv Pub} (hmtu : 119 ≤ l.mtu ∧ l.mtu ≤ 65535)
    (h : SndHeld W A c.snd) {k now : Nat} {w : WriteResult} {out : List Conn.Outgoing} {r : Conn.FlushResult}
    (hb : (c.snd.stream k).bytesSentOffset < 2 ^ 48) (hf : c.flush P l k now w = some (c', out, r)) :
    SndHeld W A c'.snd ∧ ∀ o ∈ out, o.header.ack = c.takeAck.2 := by
  have hfits := StreamBuffer.mtuFits_of_range hmtu
  obtain ⟨⟨i, s, e, n, rfl⟩, hout⟩ | ⟨_, snd, res, hr, hcase⟩ := Conn.flush_cases P l hf
  · refine ⟨h, fun o ho => ?_⟩
    obtain rfl | ⟨m, enc, rfl⟩ := hout
    · cases ho
    · rw [List.mem_singleton.mp ho]
  have hk₁ := h.readyToRetransmit hb (fun _ _ => hfits _ _ _) hr
  obtain ⟨e, rfl, rfl, rfl⟩ | ⟨d, o, isClose, rfl, ⟨i, s, e, n, rfl⟩, hout⟩ | ⟨o, isClose, rfl, hsend⟩ := hcase
  · exact ⟨hk₁, nofun⟩
  · refine ⟨hk₁, fun p hp => ?_⟩
    obtain rfl | ⟨m, enc, rfl⟩ := hout
    · cases hp
    · rw [List.mem_singleton.mp hp]
  · have hb₁ : (snd.stream k).bytesSentOffset < 2 ^ 48 := by
      obtain ⟨s', hs, hstr⟩ := SendBuffer.readyToRetransmit_stream hr
      rw [hstr k, if_pos rfl, StreamBuffer.readyToRetransmit_frame hs]
      exact hb
    exact flushSend_held hmtu hk₁ hb₁ hsend

/-- Every call keeps the bytes that the buffer holds; only an ack lets some of them go. -/
theorem step_held (hmtu : 119 ≤ l.mtu ∧ l.mtu ≤ 65535) (hk : e.conn.StreamsKeyed) (h : SndHeld e.accepted A e.conn.snd)
    {op : ConnOp Prv Pub} (hfit : e.OffsetsFit op)
    (hack : ∀ p u rawLen now, op = .decode p u rawLen now → ∀ a, p.ack = some a →
      a.offset < 2 ^ 48 ∧ a.len < 2 ^ 16 ∧ a.Within A)
    (hs : e.step P l op = some e') : SndHeld e'.accepted A e'.conn.snd := by
  have hsnd : ∀ k, (e.conn.stream k).1.snd = e.conn.snd := fun k => by rw [Conn.stream_frame]
  cases op with
  | write k d wake =>
    obtain ⟨⟨c', n, err⟩, hw, rfl⟩ := Option.map_eq_some_iff.mp hs
    obtain rfl | ⟨_, snd, m, st, hq, rfl⟩ := Conn.write_cases hw
    · have hacc : Function.update e.accepted k (e.accepted k ++
          (e.conn.stream k).1.queuedBy (e.conn.stream k).1 k d) = e.accepted := by simp [Conn.queuedBy]
      dsimp only
      rw [hacc, hsnd]
      exact h
    · rw [(Conn.stream_streamID hk k).1, hsnd] at hq
      have hlen : (snd.stream k).queuedData.length = (e.conn.snd.stream k).queuedData.length + m := by
        rw [SendBuffer.queueData_stream hq k, if_pos rfl, StreamBuffer.queue, List.length_append,
          List.length_take_of_le (SendBuffer.queueData_cases hq).1]
      have hby : (e.conn.stream k).1.queuedBy { (e.conn.stream k).1 with snd := snd } k d = d.take m := by
        unfold Conn.queuedBy
        dsimp only
        rw [hsnd, hlen]
        simp
      dsimp only
      rw [hby]
      exact h.queueData hq
  | read k =>
    cases hs
    dsimp only
    rw [(read_keyed (Conn.stream_streamID hk k).2 k (e.conn.stream k).2).2, hsnd]
    exact h
  | ping k =>
    cases hs
    dsimp only [Conn.ping]
    rw [hsnd]
    exact h.queuePing _
  | close k =>
    cases hs
    dsimp only [Conn.closeStream]
    rw [hsnd]
    exact h.close _
  | flush k now w =>
    obtain ⟨⟨c', out, r⟩, hf, rfl⟩ := Option.map_eq_some_iff.mp hs
    exact (flush_held hmtu h hfit hf).1
  | decode p u rawLen now =>
    obtain ⟨c', hd, rfl⟩ := Option.map_eq_some_iff.mp hs
    dsimp only
    rw [(Conn.decode_effect hd).snd]
    have hafter := h.afterAck (hack p u rawLen now rfl)
    split_ifs
    · exact hafter.close _
    · exact hafter
  | cleanup k | handshake c =>
    cases hs
    exact h

end Endpoint

end Qotp
