import Qotp.Buffer.InFlight
import Qotp.Conn.Endpoint
import Qotp.Conn.NonceUse

namespace Qotp

open Framework

variable {Prv Pub : Type}

namespace Conn

variable (P : Primitives Prv Pub) (l : ListenerCfg Prv)

/-- The counter is the number of user bytes in flight. -/
def Counted (c : Conn Prv Pub) : Prop := c.dataInFlight = c.snd.inFlight

/-- Bytes that are due for the first time are encoded and written. -/
def FirstSendWritten (c : Conn Prv Pub) (k now : Nat) (w : WriteResult) : Prop :=
  ∀ d o isClose, (c.snd.readyToSend k c.msgType c.takeAck.2 l.mtu now).2 = (some d, o, isClose) → d ≠ [] →
    w = .ok () ∧ ¬ EncodeFails P l c ⟨isClose, c.takeAck.2, k, o⟩ (some d) c.msgType

instance (c : Conn Prv Pub) (k now : Nat) (w : WriteResult) : Decidable (c.FirstSendWritten P l k now w) :=
  match h : (c.snd.readyToSend k c.msgType c.takeAck.2 l.mtu now).2 with
  | (none, _, _) => isTrue fun d o isClose hp => by cases h.symm.trans hp
  | (some d, o, isClose) => decidable_of_iff
      (d ≠ [] → w = .ok () ∧ ¬ EncodeFails P l c ⟨isClose, c.takeAck.2, k, o⟩ (some d) c.msgType)
      ⟨fun hw d' o' isClose' hp => by cases h.symm.trans hp; exact hw, fun hw => hw d o isClose h⟩

/-- The datagram is as long as the user bytes whose entry its ack removes. -/
def RawLenMatches (c : Conn Prv Pub) (ack : Option Ack) (rawLen : Nat) : Prop :=
  ∀ a info, ack = some a → (createPacketKey a.offset a.len, info) ∈
    (c.snd.stream a.streamID).dataInFlightMap.entries → rawLen = info.data.length

instance (c : Conn Prv Pub) (ack : Option Ack) (rawLen : Nat) : Decidable (c.RawLenMatches ack rawLen) :=
  decidable_of_iff (∀ a ∈ ack, ∀ e ∈ (c.snd.stream a.streamID).dataInFlightMap.entries,
      e.1 = createPacketKey a.offset a.len → rawLen = e.2.data.length)
    ⟨fun h a _ ha he => h a ha _ he rfl, fun h a ha e he hkey => h a e.2 ha (hkey ▸ he)⟩

variable {P l} {W : Nat → Bytes} {c c' : Conn Prv Pub} {k now : Nat} {w : WriteResult}
  {out : List Outgoing} {r : FlushResult}

/-- A first send counts what goes in flight, unless it is lost on its way out. -/
theorem flushSend_counted (hmtu : 119 ≤ l.mtu ∧ l.mtu ≤ 65535) (h : SndOk W c.snd) {ack : Option Ack}
    (hb : (c.snd.stream k).bytesSentOffset < 2 ^ 48)
    (hw : ∀ d o isClose, (c.snd.readyToSend k c.msgType ack l.mtu now).2 = (some d, o, isClose) → d ≠ [] →
      w = .ok () ∧ ¬ EncodeFails P l c ⟨isClose, ack, k, o⟩ (some d) c.msgType)
    (hc : c.Counted) (hf : c.flushSend P l k ack now w = some (c', out, r)) : c'.Counted := by
  unfold Counted at hc ⊢
  obtain ⟨⟨i, s, e, n, rfl⟩, _⟩ | ⟨snd, pkt, hr, hcase⟩ := flushSend_cases P l hf
  · exact hc
  have hsum := h.inFlight_readyToSend hb (StreamBuffer.mtuFits_of_range hmtu _ _ _) hr
  obtain ⟨hnone, ⟨i, s, e, n, rfl⟩, _⟩ | ⟨d, o, isClose, rfl, hsend⟩ := hcase
  · rw [hnone] at hsum
    dsimp only
    rw [hc, hsum]
    rfl
  dsimp only [Option.getD] at hsum
  obtain ⟨hlost, _, i, s, e, n, rfl⟩ | ⟨enc, _, i, s, e, n, rfl⟩ := hsend
  · -- only an empty packet may be lost
    have hnil : d = [] := by
      by_contra hne
      obtain ⟨hok, henc⟩ := hw d o isClose (by rw [hr]) hne
      obtain hlost | hlost := hlost
      · exact hlost hok
      · exact henc ((encodeFails_buffers P l snd c.rcv).mp hlost)
    subst hnil
    dsimp only
    rw [hc, hsum]
    rfl
  · dsimp only
    rw [hc, hsum]
    push_cast
    rfl

theorem flush_counted (hmtu : 119 ≤ l.mtu ∧ l.mtu ≤ 65535) (h : SndOk W c.snd)
    (hb : (c.snd.stream k).bytesSentOffset < 2 ^ 48) (hw : c.FirstSendWritten P l k now w)
    (hc : c.Counted) (hf : c.flush P l k now w = some (c', out, r)) : c'.Counted := by
  have hfits := StreamBuffer.mtuFits_of_range hmtu
  obtain ⟨⟨i, s, e, n, rfl⟩, _⟩ | ⟨_, snd, res, hr, hcase⟩ := flush_cases P l hf
  · exact hc
  have hk := (h.readyToRetransmit hb (fun _ _ => hfits _ _ _) hr).1
  have hsum := h.inFlight_readyToRetransmit hb (fun _ _ => hfits _ _ _) hr
  have hc₁ : ({ c.takeAck.1 with snd := snd } : Conn Prv Pub).Counted := by
    unfold Counted
    dsimp only
    rw [hsum]
    exact hc
  obtain ⟨e, _, rfl, _⟩ | ⟨d, o, isClose, _, ⟨i, s, e, n, rfl⟩, _⟩ | ⟨o, isClose, _, hsend⟩ := hcase
  · exact hc₁
  · exact hc₁
  -- the retransmission check leaves the next first send as it was
  obtain ⟨s', hs, hstr⟩ := SendBuffer.readyToRetransmit_stream hr
  have hfr := StreamBuffer.readyToRetransmit_frame hs
  have hk' : snd.stream k = { c.snd.stream k with dataInFlightMap := s'.dataInFlightMap } := by
    rw [hstr k, if_pos rfl, ← hfr]
  refine flushSend_counted hmtu hk.ok ?_ (fun d o' isClose' hpkt hne => ?_) hc₁ hsend
  · dsimp only
    rw [hk']
    exact hb
  · dsimp only at hpkt
    rw [(snd.readyToSend_stream k k _ _ _ _).2, hk', StreamBuffer.readyToSend_packet,
      ← (c.snd.readyToSend_stream k k _ _ _ _).2] at hpkt
    obtain ⟨hok, henc⟩ := hw d o' isClose' hpkt hne
    exact ⟨hok, fun hlost => henc ((encodeFails_buffers P l snd c.takeAck.1.rcv).mp hlost)⟩

theorem decode_counted {p : PayloadHeader} {u : Option Bytes} {rawLen : Nat}
    (hraw : c.RawLenMatches p.ack rawLen) (hc : c.Counted) (hd : c.decode p u rawLen now = some c') :
    c'.Counted := by
  have heff := decode_effect hd
  have hsum : (c'.snd.inFlight : Int) = (c.snd.afterAck p.ack).inFlight := by
    rw [heff.snd]
    split_ifs
    · rw [SendBuffer.inFlight_close]
    · rfl
  unfold Counted at hc ⊢
  rw [hsum, heff.dataInFlight, hc]
  cases ha : p.ack with
  | none => simp [SendBuffer.ackHits, SendBuffer.afterAck]
  | some a =>
    obtain ⟨hmiss, hsame⟩ | ⟨info, hmem, hok, htot⟩ := c.snd.inFlight_acknowledgeRange a
    · simp [SendBuffer.ackHits, SendBuffer.afterAck, hmiss, hsame]
    · have hlen := hraw a info ha hmem
      simp only [SendBuffer.ackHits, SendBuffer.afterAck, hok, decide_true, if_true]
      omega

end Conn

namespace Endpoint

variable {P : Primitives Prv Pub} {l : ListenerCfg Prv}

/-- The calls that keep the count: a first send that is written, and a datagram as
long as what its ack removes. -/
def KeepsCount (P : Primitives Prv Pub) (l : ListenerCfg Prv) (e : Endpoint Prv Pub) :
    ConnOp Prv Pub → Prop
  | .flush k now w => (e.conn.snd.stream k).bytesSentOffset < 2 ^ 48 ∧ e.conn.FirstSendWritten P l k now w
  | .decode p _ rawLen _ => e.conn.RawLenMatches p.ack rawLen
  | _ => True

instance (e : Endpoint Prv Pub) : ∀ op, Decidable (KeepsCount P l e op)
  | .flush k now w => inferInstanceAs (Decidable (_ ∧ e.conn.FirstSendWritten P l k now w))
  | .decode p _ rawLen _ => inferInstanceAs (Decidable (e.conn.RawLenMatches p.ack rawLen))
  | .write _ _ _ | .read _ | .ping _ | .close _ | .cleanup _ | .handshake _ => isTrue trivial

theorem KeepsCount.offsetsFit {e : Endpoint Prv Pub} {op : ConnOp Prv Pub} (h : KeepsCount P l e op) :
    e.OffsetsFit op := by
  cases op with
  | flush k now w => exact h.1
  | _ => trivial

theorem step_counted (hmtu : 119 ≤ l.mtu ∧ l.mtu ≤ 65535) (e : Endpoint Prv Pub) (op : ConnOp Prv Pub)
    (e' : Endpoint Prv Pub) (h : Inv e ∧ e.conn.Counted) (hop : KeepsCount P l e op)
    (hs : e.step P l op = some e') : Inv e' ∧ e'.conn.Counted := by
  obtain ⟨hi, hc⟩ := h
  refine ⟨step_inv hmtu e op e' hi hop.offsetsFit hs, ?_⟩
  have hstr : ∀ k, (e.conn.stream k).1.Counted := fun k => by
    rw [Conn.stream_frame]
    exact hc
  cases op with
  | write k d wake =>
    obtain ⟨⟨c', n, err⟩, hw, rfl⟩ := Option.map_eq_some_iff.mp hs
    obtain rfl | ⟨_, snd, m, st, hq, rfl⟩ := Conn.write_cases hw
    · exact hstr k
    · have hk := hstr k
      unfold Conn.Counted at hk ⊢
      dsimp only
      rw [SendBuffer.inFlight_queueData hq]
      exact hk
  | read k =>
    cases hs
    have hk := hstr k
    unfold Conn.Counted Conn.read at *
    dsimp only
    split_ifs <;> exact hk
  | ping k =>
    cases hs
    have hk := hstr k
    unfold Conn.Counted Conn.ping SendBuffer.queuePing at *
    dsimp only
    rw [SendBuffer.inFlight_update (f := (·.queuePing)) _ _ rfl]
    exact hk
  | close k =>
    cases hs
    have hk := hstr k
    unfold Conn.Counted Conn.closeStream at *
    dsimp only
    rw [SendBuffer.inFlight_close]
    exact hk
  | flush k now w =>
    obtain ⟨⟨c', out, r⟩, hf, rfl⟩ := Option.map_eq_some_iff.mp hs
    exact Conn.flush_counted hmtu hi.snd hop.1 hop.2 hc hf
  | decode p u rawLen now =>
    obtain ⟨c', hd, rfl⟩ := Option.map_eq_some_iff.mp hs
    exact Conn.decode_counted hop hc hd
  | cleanup k | handshake c =>
    cases hs
    exact hc

/-- While every first send is written, and every datagram is as long as the entry its
ack removes, the counter is the number of user bytes in flight on all streams. -/
theorem dataInFlight_counts {Prv Pub : Type} (P : Primitives Prv Pub) (l : ListenerCfg Prv)
    (hmtu : 119 ≤ l.mtu ∧ l.mtu ≤ 65535) (c : Conn Prv Pub) (hc : c.Fresh) (ops : List (ConnOp Prv Pub))
    (e : Endpoint Prv Pub) (hops : Along (step P l) (KeepsCount P l) { conn := c } ops)
    (hrun : run (step P l) { conn := c } ops = some e) :
    e.conn.dataInFlight = e.conn.snd.inFlight ∧ 0 ≤ e.conn.dataInFlight ∧
      ((∀ k, (e.conn.snd.stream k).dataInFlightMap.entries = []) → e.conn.dataInFlight = 0) := by
  have h0 : c.Counted := by
    unfold Conn.Counted
    rw [hc.dataInFlight, hc.snd]
    rfl
  obtain ⟨_, hcount⟩ := run_inv_along (step_counted hmtu) ⟨inv_fresh hc, h0⟩ hops hrun
  unfold Conn.Counted at hcount
  refine ⟨hcount, by omega, fun hnone => ?_⟩
  rw [hcount, SendBuffer.inFlight_eq_zero hnone]
  rfl

theorem plainConn_fresh (isSender : Bool) : (Ends.plainConn isSender).Fresh := ⟨rfl, rfl, rfl, rfl⟩

/-- 42 bytes are sent on stream 0 and three on stream 1; the 42 are acknowledged by a datagram of that length. -/
def evenlyAcked : List (ConnOp UInt8 UInt8) :=
  [.write 0 (List.replicate 42 7) (.ok ()), .flush 0 1 (.ok ()), .write 1 [1, 2, 3] (.ok ()),
    .flush 1 1000000000 (.ok ()), .decode { ack := some ⟨0, 0, 42, 2 ^ 24⟩ } none 42 1000000001]

/-- A datagram with nothing but an ack has 42 bytes. -/
theorem evenlyAcked_counts :
    ((run (step plain (Ends.plainCfg false)) { conn := Ends.plainConn false }
        [.decode {} (some (List.replicate 42 7)) 81 2, .flush 0 3 (.ok ())]).map fun e =>
      e.sent.map fun o => (o.header.ack.map fun a => (a.streamID, a.offset, a.len), o.encData.length)) =
      some [(some (0, 0, 42), 42)] ∧
    ∃ e, run (step plain (Ends.plainCfg true)) { conn := Ends.plainConn true } evenlyAcked = some e ∧
      e.conn.dataInFlight = e.conn.snd.inFlight ∧ e.conn.dataInFlight = 3 := by
  have hops : Along (step plain (Ends.plainCfg true)) (KeepsCount plain (Ends.plainCfg true))
      { conn := Ends.plainConn true } evenlyAcked := by decide +kernel
  have h := dataInFlight_counts plain (Ends.plainCfg true) (by decide) _ (plainConn_fresh true) _ _ hops rfl
  exact ⟨by decide +kernel, _, rfl, h.1, by decide +kernel⟩

/-- Ten bytes are sent, and acknowledged by a datagram of 42 bytes. -/
def tenBytesAcked : List (ConnOp UInt8 UInt8) :=
  [.write 0 [0, 1, 2, 3, 4, 5, 6, 7, 8, 9] (.ok ()), .flush 0 1 (.ok ()),
    .decode { ack := some ⟨0, 0, 10, 2 ^ 24⟩ } none 42 2]

/-- The receiver of ten bytes acknowledges them in a datagram of 42 bytes; with that
length the sender's counter falls to -32 with nothing in flight. -/
theorem ackDatagram_undercounts :
    ((run (step plain (Ends.plainCfg false)) { conn := Ends.plainConn false }
        [.decode {} (some [0, 1, 2, 3, 4, 5, 6, 7, 8, 9]) 49 1, .flush 0 2 (.ok ())]).map fun e =>
      e.sent.map fun o => (o.header.ack.map fun a => (a.streamID, a.offset, a.len), o.encData.length)) =
      some [(some (0, 0, 10), 42)] ∧
    ((run (step plain (Ends.plainCfg true)) { conn := Ends.plainConn true } tenBytesAcked).map fun e =>
      (e.conn.dataInFlight, e.conn.snd.inFlight)) = some (-32, 0) := by
  decide +kernel

end Endpoint

end Qotp
