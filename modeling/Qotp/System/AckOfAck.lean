import Qotp.Conn.PendingAcks
import Qotp.System.Link

namespace Qotp

open Framework

variable {Prv Pub : Type}

namespace Endpoint

/-- The peer owes nothing for a packet, and marks no stream closed before the end of
what `e` has written on it. -/
def Unanswered (e : Endpoint Prv Pub) (peer peer' : Conn Prv Pub) : Prop :=
  peer'.rcv.ackList = peer.rcv.ackList ∧
  ∀ k closeAt, peer'.rcv.getOffsetClosedAt k = some closeAt →
    peer.rcv.getOffsetClosedAt k = some closeAt ∨ (e.accepted k).length ≤ closeAt

/-- The stream is open, or bytes below its end are not acknowledged yet. -/
def EndPending (e : Endpoint Prv Pub) (k : Nat) : Prop :=
  ∀ closeAt, e.conn.snd.getOffsetClosedAt k = some closeAt → e.conn.snd.getOffsetAcked k < closeAt

theorem fullyAcked_eq_false (e : Endpoint Prv Pub) (k : Nat) :
    e.conn.snd.fullyAcked k = false ↔ e.EndPending k := by
  unfold SendBuffer.fullyAcked EndPending
  cases e.conn.snd.getOffsetClosedAt k with
  | none => simp
  | some closeAt => simp

/-- A bare ack does not touch the receive buffer. -/
theorem decode_bareAck {peer peer' : Conn Prv Pub} {ack : Option Ack} {rawLen now : Nat}
    (h : peer.decode { ack := ack } none rawLen now = some peer') : peer'.rcv = peer.rcv := by
  obtain ⟨rcv, hrcv, heq⟩ := (Conn.decode_effect h).rcv
  obtain ⟨d, st, hd, _⟩ | ⟨hd, _⟩ | ⟨_, _, rfl⟩ := hrcv
  · cases hd
  · simp at hd
  · exact heq

/-- A packet with CLOSE is queued for an ack even when it carries no data. -/
theorem decode_emptyClose {peer peer' : Conn Prv Pub} {p : PayloadHeader} {rawLen now : Nat}
    (hc : p.isClose = true) (h : peer.decode p (some []) rawLen now = some peer') :
    peer'.rcv.ackList = peer.rcv.ackList ++ [⟨peer.storedID p.streamID, p.streamOffset, 0, 0⟩] := by
  obtain ⟨rcv, hrcv, heq⟩ := (Conn.decode_effect h).rcv
  rw [heq, if_pos hc]
  obtain ⟨d, st, hd, hne, _⟩ | ⟨_, rfl⟩ | ⟨hd, _⟩ := hrcv
  · cases hd
    exact absurd rfl hne
  · rfl
  · cases hd

/-- The peer reads an ack packet without acknowledging it exactly when the stream it
names is not fully acknowledged: else the packet carries CLOSE at offset 0. -/
theorem writeAck_unanswered_iff (P : Primitives Prv Pub) (l : ListenerCfg Prv) (e : Endpoint Prv Pub) (k : Nat)
    (ack : Ack) (now : Nat) (w : WriteResult) (c' : Conn Prv Pub) (o : Conn.Outgoing) (r : Conn.FlushResult)
    (h : e.conn.writeAck P l k (some ack) now w = some (c', [o], r)) (ht : o.msgType ≠ .initSnd) :
    ∃ p u, o.payload = some (.ok (p, u)) ∧ ∀ (peer peer' : Conn Prv Pub) (rawLen now' : Nat),
      peer.decode p u rawLen now' = some peer' → (e.Unanswered peer peer' ↔ e.EndPending k) := by
  obtain ⟨_, hout⟩ := Conn.writeAck_cases P l h
  obtain hnil | ⟨m, enc, ho⟩ := hout
  · cases hnil
  cases ho
  have hread := decodePayload_encodePayload ⟨e.conn.snd.fullyAcked k, some ack, k, 0⟩ none
  rw [← fullyAcked_eq_false, Conn.Outgoing.payload, if_neg ht, hread]
  cases hf : e.conn.snd.fullyAcked k with
  | false =>
    refine ⟨{ ack := some (wireAck ack) }, none, rfl, fun peer peer' rawLen now' hdec => iff_of_true ?_ rfl⟩
    rw [Unanswered, decode_bareAck hdec]
    exact ⟨rfl, fun j closeAt hj => .inl hj⟩
  | true =>
    refine ⟨⟨true, some (wireAck ack), k % 2 ^ 32, 0⟩, some [], rfl, fun peer peer' rawLen now' hdec => ?_⟩
    refine iff_of_false (fun hun => ?_) nofun
    have hlen := congrArg List.length ((decode_emptyClose rfl hdec).symm.trans hun.1)
    simp at hlen

/-- A connection past its handshake that writes five bytes, sees them acknowledged and
closes the stream; and a peer that received them. -/
def writer : Conn UInt8 UInt8 :=
  { connId := 1, remoteAddr := 0, prvKeyEpSnd := 3, pubKeyEpRcv := some 5, pubKeyIdRcv := none
    sharedSecret := some (List.replicate 32 15), isSenderOnInit := true, isWithCryptoOnInit := false
    isHandshakeDoneOnRcv := true, isInitSentOnSnd := true }

def writerOps : List (ConnOp UInt8 UInt8) :=
  [.write 0 [1, 2, 3, 4, 5] (.ok ()), .flush 0 1 (.ok ()), .decode { ack := some ⟨0, 0, 5, 4096⟩ } none 42 2,
    .close 0]

def readerOps : List (ConnOp UInt8 UInt8) := [.decode {} (some [1, 2, 3, 4, 5]) 44 2]

/-- The ack that is sent behind the close is itself queued for an ack, and ends the
stream at offset 0 although five bytes were written. -/
theorem closedStream_ack_is_acknowledged :
    writer.Fresh ∧ ∃ e peer c' o r p u peer',
      run (step plain Conn.ackCfg) { conn := writer } writerOps = some e ∧
      run (step plain Conn.ackCfg) { conn := writer } readerOps = some peer ∧
      e.conn.writeAck plain Conn.ackCfg 0 (some ⟨0, 0, 3, 4096⟩) 1000000000 (.ok ()) = some (c', [o], r) ∧
      o.msgType = .data ∧ o.payload = some (.ok (p, u)) ∧ peer.conn.decode p u 50 3 = some peer' ∧
      peer.conn.rcv.ackList = [⟨0, 0, 5, 0⟩] ∧ peer'.rcv.ackList = [⟨0, 0, 5, 0⟩, ⟨0, 0, 0, 0⟩] ∧
      peer'.rcv.getOffsetClosedAt 0 = some 0 ∧ (e.accepted 0).length = 5 := by
  refine ⟨⟨rfl, rfl, rfl, rfl⟩, _, _, _, _, _, _, _, _, rfl, rfl, rfl, rfl, rfl, rfl, rfl, rfl, rfl, rfl⟩

/-- The stream is closed with its five bytes still in flight: the ack goes unanswered, and the peer, which has them,
still owes only theirs. -/
theorem closingStream_ack_unanswered :
    ∃ e peer c' o r p u peer',
      run (step plain Conn.ackCfg) { conn := writer }
        [.write 0 [1, 2, 3, 4, 5] (.ok ()), .flush 0 1 (.ok ()), .close 0] = some e ∧
      e.conn.snd.getOffsetClosedAt 0 = some 5 ∧
      run (step plain Conn.ackCfg) { conn := writer } readerOps = some peer ∧
      e.conn.writeAck plain Conn.ackCfg 0 (some ⟨0, 0, 3, 4096⟩) 1000000000 (.ok ()) = some (c', [o], r) ∧
      o.payload = some (.ok (p, u)) ∧ peer.conn.decode p u 50 3 = some peer' ∧
      peer.conn.rcv.ackList = [⟨0, 0, 5, 0⟩] ∧ e.Unanswered peer.conn peer' := by
  obtain ⟨e, hrun, hclosed, hpending, c', o, r, hw, ht, p, u, hread, peer, hpeer, hacks, peer', hdec⟩ :
      ∃ e, run (step plain Conn.ackCfg) { conn := writer }
          [.write 0 [1, 2, 3, 4, 5] (.ok ()), .flush 0 1 (.ok ()), .close 0] = some e ∧
        e.conn.snd.getOffsetClosedAt 0 = some 5 ∧ e.conn.snd.getOffsetAcked 0 = 0 ∧ ∃ c' o r,
        e.conn.writeAck plain Conn.ackCfg 0 (some ⟨0, 0, 3, 4096⟩) 1000000000 (.ok ()) = some (c', [o], r) ∧
        o.msgType ≠ .initSnd ∧ ∃ p u, o.payload = some (.ok (p, u)) ∧
        ∃ peer, run (step plain Conn.ackCfg) { conn := writer } readerOps = some peer ∧
        peer.conn.rcv.ackList = [⟨0, 0, 5, 0⟩] ∧ ∃ peer', peer.conn.decode p u 50 3 = some peer' :=
    ⟨_, rfl, rfl, rfl, _, _, _, rfl, nofun, _, _, rfl, _, rfl, rfl, _, rfl⟩
  obtain ⟨p', u', hread', hiff⟩ := writeAck_unanswered_iff plain Conn.ackCfg e 0 _ _ _ c' o r hw ht
  cases hread.symm.trans hread'
  refine ⟨e, peer, c', o, r, p, u, peer', hrun, hclosed, hpeer, hw, hread, hdec, hacks, ?_⟩
  refine (hiff peer.conn peer' 50 3 hdec).mpr fun closeAt hc => ?_
  cases hclosed.symm.trans hc
  rw [hpending]
  decide

end Endpoint

end Qotp
