import Qotp.Buffer.Unsplit
import Qotp.Conn.EndpointFrame

namespace Qotp

open Framework

variable {Prv Pub : Type}

/-- `Flush` on stream `k` does not have to split a packet, behind the ack that is pending: where the pacer and the
window let it ask for a retransmission, what is due fits. -/
def Conn.FlushesWhole (c : Conn Prv Pub) (mtu : Int) (k now : Nat) : Prop :=
  c.nextWriteTime ≤ now ∧ c.dataInFlight + mtu ≤ c.rcvWndSize →
    (c.snd.stream k).ResendsWhole c.takeAck.2 mtu c.measurements.rtoNano c.msgType now

instance (c : Conn Prv Pub) (mtu : Int) (k now : Nat) : Decidable (c.FlushesWhole mtu k now) :=
  inferInstanceAs (Decidable (_ ∧ _ → StreamBuffer.ResendsWhole _ _ _ _ _ _))

/-- The datagram carries no data, or a cell. -/
def Conn.Outgoing.Celled (B : Nat → Set Nat) (o : Conn.Outgoing) : Prop :=
  o.userData.getD [] ≠ [] → IsCell (B o.header.streamID) o.header.streamOffset (o.userData.getD []).length

namespace Endpoint

variable {P : Primitives Prv Pub} {l : ListenerCfg Prv} {e e' : Endpoint Prv Pub} {B : Nat → Set Nat}

theorem celled_ackOut {c : Conn Prv Pub} {k : Nat} {ack : Option Ack} {out : List Conn.Outgoing} (h : c.AckOut k ack out) :
    ∀ o ∈ out, o.Celled B := by
  obtain rfl | ⟨m, enc, rfl⟩ := h
  · exact nofun
  · intro o ho
    rw [List.mem_singleton.mp ho]
    exact fun hne => absurd rfl hne

theorem flushSend_cut {c c' : Conn Prv Pub} (hmtu : 119 ≤ l.mtu ∧ l.mtu ≤ 65535) (h : SndCut B c.snd) {k now : Nat}
    {ack : Option Ack} {w : WriteResult} {out : List Conn.Outgoing} {r : Conn.FlushResult}
    (hb : (c.snd.stream k).bytesSentOffset < 2 ^ 48) (hf : c.flushSend P l k ack now w = some (c', out, r)) :
    SndCut (cutBy B c'.snd) c'.snd ∧ ∀ o ∈ out, o.Celled (cutBy B c'.snd) := by
  obtain ⟨⟨i, s, e, n, rfl⟩, hout⟩ | ⟨snd, pkt, hr, hcase⟩ := Conn.flushSend_cases P l hf
  · exact ⟨h.cutBy_eq.symm ▸ h, celled_ackOut hout⟩
  obtain ⟨hcut, hcell⟩ := h.readyToSend hb (StreamBuffer.mtuFits_of_range hmtu _ _ _) hr
  obtain ⟨_, ⟨i, s, e, n, rfl⟩, hout⟩ | ⟨d, o, isClose, rfl, hsend⟩ := hcase
  · exact ⟨hcut, celled_ackOut hout⟩
  obtain ⟨_, rfl, i, s, e, n, rfl⟩ | ⟨enc, rfl, i, s, e, n, rfl⟩ := hsend
  · exact ⟨hcut, nofun⟩
  · refine ⟨hcut, fun p hp => ?_⟩
    rw [List.mem_singleton.mp hp]
    exact hcell d o isClose rfl

/-- `Flush` cuts the stream where the first send ends, and writes cells only. -/
theorem flush_cut {c c' : Conn Prv Pub} (hmtu : 119 ≤ l.mtu ∧ l.mtu ≤ 65535) (h : SndCut B c.snd) {k now : Nat}
    {w : WriteResult} {out : List Conn.Outgoing} {r : Conn.FlushResult} (hw : c.FlushesWhole l.mtu k now)
    (hb : (c.snd.stream k).bytesSentOffset < 2 ^ 48) (hf : c.flush P l k now w = some (c', out, r)) :
    SndCut (cutBy B c'.snd) c'.snd ∧ ∀ o ∈ out, o.Celled (cutBy B c'.snd) := by
  obtain ⟨⟨i, s, e, n, rfl⟩, hout⟩ | ⟨hmay, snd, res, hr, hcase⟩ := Conn.flush_cases P l hf
  · exact ⟨h.cutBy_eq.symm ▸ h, celled_ackOut hout⟩
  obtain ⟨hcut, hcell⟩ := h.readyToRetransmit (hw hmay) (fun _ _ => StreamBuffer.mtuFits_of_range hmtu _ _ _) hr
  obtain ⟨e, rfl, rfl, rfl⟩ | ⟨d, o, isClose, rfl, ⟨i, s, e, n, rfl⟩, hout⟩ | ⟨o, isClose, rfl, hsend⟩ := hcase
  · exact ⟨hcut.cutBy_eq.symm ▸ hcut, nofun⟩
  · dsimp only
    rw [hcut.cutBy_eq]
    refine ⟨hcut, fun p hp => ?_⟩
    obtain rfl | ⟨m, enc, rfl⟩ := hout
    · cases hp
    · rw [List.mem_singleton.mp hp]
      exact hcell d o isClose rfl
  · have hb₁ : (snd.stream k).bytesSentOffset < 2 ^ 48 := by
      obtain ⟨s', hs, hstr⟩ := SendBuffer.readyToRetransmit_stream hr
      rw [hstr k, if_pos rfl, StreamBuffer.readyToRetransmit_frame hs]
      exact hb
    exact flushSend_cut hmtu hcut hb₁ hsend

/-- A call that flushes does not have to split a packet. -/
def Unsplit (e : Endpoint Prv Pub) (mtu : Int) : ConnOp Prv Pub → Prop
  | .flush k now _ => e.conn.FlushesWhole mtu k now
  | _ => True

/-- Every call leaves the old cells, and writes cells only. -/
theorem step_cut (hmtu : 119 ≤ l.mtu ∧ l.mtu ≤ 65535) (h : SndCut B e.conn.snd) {op : ConnOp Prv Pub}
    (hfit : e.OffsetsFit op) (hw : e.Unsplit l.mtu op) (hk : e.conn.StreamsKeyed) (hs : e.step P l op = some e') :
    SndCut (cutBy B e'.conn.snd) e'.conn.snd ∧ ∀ o ∈ e'.sent, o ∈ e.sent ∨ o.Celled (cutBy B e'.conn.snd) := by
  have hsnd : ∀ k, (e.conn.stream k).1.snd = e.conn.snd := fun k => by rw [Conn.stream_frame]
  have hkeep : ∀ {sb : SendBuffer}, SndCut B sb → SndCut (cutBy B sb) sb := fun h => h.cutBy_eq.symm ▸ h
  cases op with
  | write k d wake =>
    obtain ⟨⟨c', n, err⟩, hw, rfl⟩ := Option.map_eq_some_iff.mp hs
    refine ⟨?_, fun o ho => .inl ho⟩
    obtain rfl | ⟨_, snd, m, st, hq, rfl⟩ := Conn.write_cases hw
    · dsimp only
      rw [hsnd]
      exact hkeep h
    · rw [hsnd] at hq
      exact hkeep (h.queueData hq)
  | read k =>
    cases hs
    refine ⟨?_, fun o ho => .inl ho⟩
    dsimp only
    rw [(read_keyed (Conn.stream_streamID hk k).2 k (e.conn.stream k).2).2, hsnd]
    exact hkeep h
  | ping k =>
    cases hs
    refine ⟨?_, fun o ho => .inl ho⟩
    dsimp only [Conn.ping]
    rw [hsnd]
    exact hkeep (h.queuePing _)
  | close k =>
    cases hs
    refine ⟨?_, fun o ho => .inl ho⟩
    dsimp only [Conn.closeStream]
    rw [hsnd]
    exact hkeep (h.close _)
  | flush k now w =>
    obtain ⟨⟨c', out, r⟩, hf, rfl⟩ := Option.map_eq_some_iff.mp hs
    obtain ⟨hcut, hout⟩ := flush_cut hmtu h hw hfit hf
    exact ⟨hcut, fun o ho => (List.mem_append.mp ho).imp id (hout o)⟩
  | decode p u rawLen now =>
    obtain ⟨c', hd, rfl⟩ := Option.map_eq_some_iff.mp hs
    refine ⟨?_, fun o ho => .inl ho⟩
    dsimp only
    rw [(Conn.decode_effect hd).snd]
    split_ifs
    · exact hkeep ((h.afterAck p.ack).close _)
    · exact hkeep (h.afterAck p.ack)
  | cleanup k | handshake c =>
    cases hs
    exact ⟨hkeep h, fun o ho => .inl ho⟩

end Endpoint

end Qotp
