import Qotp.Conn.DatagramSize
import Qotp.Conn.EndpointFrame
import Qotp.Conn.FlushEncode

namespace Qotp

open Framework

variable {Prv Pub : Type} {P : Primitives Prv Pub}

/-- A packet without data takes no more than one with an empty slice. -/
theorem encodePayload_length_le (p : PayloadHeader) (u : Option Bytes) :
    (encodePayload p u).1.length ≤ payloadOverhead p.ack p.streamOffset + (u.getD []).length := by
  cases u with
  | some d => exact (encodePayload_length p d).le
  | none =>
    have honly : ackOnly p (some []) = false := by simp [ackOnly]
    have hdata : (dataPart p none).length ≤ (dataPart p (some [])).length := by
      rw [dataPart_length, dataPart_length, honly, if_neg Bool.false_ne_true]
      split_ifs
      · exact Nat.zero_le _
      · exact Nat.le_refl _
    rw [Option.getD_none, ← encodePayload_length, encodePayload_eq, encodePayload_eq]
    simp only [List.length_append]
    omega

namespace StreamBuffer

variable {s s' : StreamBuffer} {msgType : CryptoMsgType} {ack : Option Ack} {mtu : Int} {rto now o : Nat} {d : Bytes}
  {isClose : Bool}

/-- With an MTU in range there is always room for what is handed out. -/
theorem readyToSend_fits (hmtu : 119 ≤ mtu ∧ mtu ≤ 65535) (hm : msgType ≠ .initSnd) (hb : s.bytesSentOffset < 2 ^ 48)
    (h : (s.readyToSend msgType ack mtu now).2 = (some d, o, isClose)) : d.length ≤ maxDataFor msgType ack mtu o := by
  have hroom := mtuFits_of_range hmtu msgType ack
  have hw := (readyToSend_within hm (by omega) hb h).mpr fun hover => absurd hover.2.2 (not_lt.mpr (hroom _).1)
  by_cases hd : d = []
  · rw [hd]
    exact (hroom o).1
  · exact hw.1 hd

theorem readyToRetransmit_fits (hmtu : 119 ≤ mtu ∧ mtu ≤ 65535)
    (hkeyed : ∀ e ∈ s.dataInFlightMap.entries, PacketKey.length e.1 = e.2.data.length)
    (h : s.readyToRetransmit ack mtu rto msgType now = some (s', .ok (some d, o, isClose))) :
    d.length ≤ maxDataFor msgType ack mtu o := by
  have hroom := mtuFits_of_range hmtu msgType ack
  have hw := (readyToRetransmit_within h).mpr fun e he hover => by
    have hkey := hkeyed e (InsertionMap.first_mem he)
    have hlt := packetKey_length_lt e.1
    have hfit := hroom (PacketKey.offset e.1)
    obtain ⟨_, hlong, hcmp⟩ := hover
    unfold MtuFits at hfit
    unfold toUint16 at hcmp
    omega
  by_cases hd : d = []
  · rw [hd]
    exact (hroom o).1
  · exact hw.1 hd

end StreamBuffer

namespace Conn

variable {l : ListenerCfg Prv} {c c' : Conn Prv Pub} {k now : Nat} {w : WriteResult} {out : List Outgoing} {r : FlushResult}

/-- The data fits behind the overhead of its datagram. -/
def Outgoing.Fits (mtu : Int) (o : Outgoing) : Prop :=
  ((o.userData.getD []).length : Int) ≤ maxDataFor o.msgType o.header.ack mtu o.header.streamOffset

theorem flush_msgType (h : c.flush P l k now w = some (c', out, r)) : ∀ o ∈ out, o.msgType = c.msgType := by
  obtain ⟨rfl, _⟩ | ⟨c₁, p, u, c₂, res, _, _, _, rfl | ⟨enc, _, rfl⟩⟩ := flush_encodes h
  · exact nofun
  · exact nofun
  · intro o ho
    rw [List.mem_singleton.mp ho]

theorem fits_ackOut (hmtu : 119 ≤ l.mtu ∧ l.mtu ≤ 65535) {ack : Option Ack} (h : c.AckOut k ack out) :
    ∀ o ∈ out, o.Fits l.mtu := by
  obtain rfl | ⟨m, enc, rfl⟩ := h
  · exact nofun
  · intro o ho
    rw [List.mem_singleton.mp ho]
    exact (StreamBuffer.mtuFits_of_range hmtu _ _ _).1

/-- Whatever `Flush` writes has room for its data. -/
theorem flush_fits (hmtu : 119 ≤ l.mtu ∧ l.mtu ≤ 65535)
    (hkeyed : ∀ e ∈ (c.snd.stream k).dataInFlightMap.entries, PacketKey.length e.1 = e.2.data.length)
    (hb : (c.snd.stream k).bytesSentOffset < 2 ^ 48) (hm : c.msgType ≠ .initSnd)
    (h : c.flush P l k now w = some (c', out, r)) : ∀ o ∈ out, o.Fits l.mtu := by
  have htype := flush_msgType h
  obtain ⟨_, hout⟩ | ⟨_, snd, res, hr, hcase⟩ := flush_cases P l h
  · exact fits_ackOut hmtu hout
  obtain ⟨s', hs, hstr⟩ := SendBuffer.readyToRetransmit_stream hr
  obtain ⟨e, _, _, rfl⟩ | ⟨d, o, isClose, rfl, _, rfl | ⟨m, enc, rfl⟩⟩ | ⟨o, isClose, _, hsend⟩ := hcase
  · exact nofun
  · exact nofun
  · intro x hx
    have ht := htype x hx
    rw [List.mem_singleton.mp hx] at ht ⊢
    unfold Outgoing.Fits
    rw [ht]
    exact StreamBuffer.readyToRetransmit_fits hmtu hkeyed hs
  · have hb₁ : (snd.stream k).bytesSentOffset < 2 ^ 48 := by
      rw [hstr k, if_pos rfl, StreamBuffer.readyToRetransmit_frame hs]
      exact hb
    obtain ⟨_, hout⟩ | ⟨snd', pkt, hr', hcase⟩ := flushSend_cases P l hsend
    · exact fits_ackOut hmtu hout
    obtain ⟨_, _, hout⟩ | ⟨d, o, isClose, rfl, ⟨_, rfl, _⟩ | ⟨enc, rfl, _⟩⟩ := hcase
    · exact fits_ackOut hmtu hout
    · exact nofun
    · intro x hx
      have ht := htype x hx
      rw [List.mem_singleton.mp hx] at ht ⊢
      unfold Outgoing.Fits
      dsimp only at ht ⊢
      rw [ht]
      have hpkt := (SendBuffer.readyToSend_stream snd k k c.msgType c.takeAck.2 l.mtu now).2
      exact StreamBuffer.readyToSend_fits hmtu hm hb₁ (hpkt.symm.trans (congrArg Prod.snd hr'))

end Conn

/-- Of all calls only `Flush` writes, and it leaves room for the data. -/
theorem Endpoint.step_fits {l : ListenerCfg Prv} {e e' : Endpoint Prv Pub} {op : ConnOp Prv Pub}
    (hmtu : 119 ≤ l.mtu ∧ l.mtu ≤ 65535) (hi : e.Inv) (hfit : e.OffsetsFit op) (hs : e.step P l op = some e') :
    ∀ o ∈ e'.sent, o ∈ e.sent ∨ (o.msgType ≠ .initSnd → o.Fits l.mtu) := by
  intro o ho
  cases op with
  | flush k now w =>
    obtain ⟨⟨c', out, r⟩, hf, rfl⟩ := Option.map_eq_some_iff.mp hs
    obtain ho | ho := List.mem_append.mp ho
    · exact .inl ho
    · refine .inr fun hm => ?_
      rw [Conn.flush_msgType hf o ho] at hm
      exact Conn.flush_fits hmtu (hi.snd.conserves k).keyed hfit hm hf o ho
  | write k d wake | decode p u rawLen now =>
    obtain ⟨r, _, rfl⟩ := Option.map_eq_some_iff.mp hs
    exact .inl ho
  | read k | ping k | close k | cleanup k | handshake c =>
    cases hs
    exact .inl ho

end Qotp
