import Qotp.Buffer.ReceiveSpec
import Qotp.Buffer.SendRun

namespace Qotp

open Framework

/-- The ack that the arrival of a packet leaves: that of `EmptyInsert` if it has no data,
and that of `Insert` unless the buffer is full. -/
def ReceiveBuffer.issuedAck (rb : ReceiveBuffer) (streamID offset nowNano : Nat) (data : Bytes) : Option Ack :=
  if data = [] then (rb.emptyInsert streamID offset).1.ackList.getLast?
  else (rb.insert streamID offset nowNano data).bind fun r =>
    if r.2 = .bufferFull then none else r.1.ackList.getLast?

theorem ReceiveBuffer.issuedAck_eq {rb : ReceiveBuffer} {k o now : Nat} {d : Bytes} {a : Ack} (hd : d.length < 2 ^ 16)
    (h : rb.issuedAck k o now d = some a) : a = ⟨k, o, d.length, 0⟩ := by
  unfold issuedAck at h
  split_ifs at h with hnil
  · subst hnil
    simpa [emptyInsert] using h.symm
  · obtain ⟨⟨rb', st⟩, hr, h⟩ := Option.bind_eq_some_iff.mp h
    obtain ⟨_, rfl, _⟩ | ⟨_, hst, hacks, _⟩ := ReceiveBuffer.insert_cases hr
    · simp at h
    · rw [if_neg hst, hacks, Nat.mod_eq_of_lt hd] at h
      simpa using h.symm

/-- A packet that a call hands out, with the send buffer behind the call. -/
structure HandedOut where
  snd : SendBuffer
  streamID : Nat
  offset : Nat
  data : Bytes
  sentNano : Nat

namespace HandedOut

/-- The ack of the packet; the window in it is the receiver's. -/
def ack (h : HandedOut) (rcvWnd : Nat) : Ack := ⟨h.streamID, h.offset, h.data.length, rcvWnd⟩

/-- The receiver issues the ack of the packet and no other, and it finds the packet with
the time it was sent at. -/
structure Acknowledgeable (h : HandedOut) : Prop where
  issued : ∀ (rb : ReceiveBuffer) now a, rb.issuedAck h.streamID h.offset now h.data = some a → a = h.ack 0
  found : ∀ rcvWnd, (h.snd.acknowledgeRange (h.ack rcvWnd)).2 = (.ok, h.sentNano)

end HandedOut

namespace StreamBuffer

variable {W : Bytes} {A : Nat → Prop} {s s' : StreamBuffer} {msgType : CryptoMsgType} {ack : Option Ack} {mtu : Int}
  {now rto o : Nat} {d : Bytes} {isClose : Bool}

/-- The entry under the key is in flight since `sentNano`. -/
def SentAt (s : StreamBuffer) (key : PacketKey) (sentNano : Nat) : Prop :=
  ∃ info ∈ s.dataInFlightMap.get? key, info.sentTimeNano = sentNano

instance (s : StreamBuffer) (key : PacketKey) (sentNano : Nat) : Decidable (s.SentAt key sentNano) :=
  inferInstanceAs (Decidable (∃ info ∈ s.dataInFlightMap.get? key, _))

theorem sentAt_of_mem {key : PacketKey} {info : SendInfo} (h : (key, info) ∈ s.dataInFlightMap.entries)
    (ht : info.sentTimeNano = now) : s.SentAt key now := ⟨info, InsertionMap.get?_eq_some.mpr h, ht⟩

/-- The ping names offset 0, but its entry has the sent offset: it is lost unless these
agree, or the ack finds another entry of the same time at offset 0. -/
def PingLost (s : StreamBuffer) (now : Nat) : Prop :=
  s.pingRequest = true ∧ s.bytesSentOffset ≠ 0 ∧ ¬ s.SentAt (createPacketKey 0 0) now

instance (s : StreamBuffer) (now : Nat) : Decidable (s.PingLost now) := inferInstanceAs (Decidable (_ ∧ _ ∧ _))

theorem sentAt_afterEmpty (s : StreamBuffer) (now : Nat) (isPing : Bool) :
    (s.afterEmpty now isPing).SentAt (createPacketKey s.bytesSentOffset 0) now :=
  sentAt_of_mem (InsertionMap.mem_put.mpr (.inl rfl)) rfl

theorem sentAt_afterEmpty_of_ne {key : PacketKey} {t : Nat} (now : Nat) (isPing : Bool)
    (h : key ≠ createPacketKey s.bytesSentOffset 0) :
    (s.afterEmpty now isPing).SentAt key t ↔ s.SentAt key t := by
  unfold SentAt afterEmpty
  rw [InsertionMap.get?_put_ne _ _ h]

theorem readyToSend_sentAt (hb : s.bytesSentOffset < 2 ^ 48) (hm : MtuFits msgType ack mtu s.bytesSentOffset)
    (h : s.readyToSend msgType ack mtu now = (s', some d, o, isClose)) :
    d.length < 2 ^ 16 ∧ (s'.SentAt (createPacketKey o d.length) now ↔ ¬ s.PingLost now) := by
  have hoff : ∀ n, n < 2 ^ 16 → PacketKey.offset (createPacketKey s.bytesSentOffset n) = s.bytesSentOffset := by
    intro n hn
    rw [createPacketKey_offset _ _ hn, Nat.mod_eq_of_lt hb]
  obtain ⟨_, _, _, hr⟩ | ⟨hp, hr⟩ | ⟨hp, _, _, hr⟩ | ⟨hp, _, hr⟩ := s.readyToSend_cases msgType ack mtu now
  · cases hr.symm.trans h
  · cases hr.symm.trans h
    refine ⟨by decide, ?_⟩
    by_cases h0 : s.bytesSentOffset = 0
    · refine iff_of_true ?_ fun hl => hl.2.1 h0
      have hsent := s.sentAt_afterEmpty now true
      rwa [h0] at hsent
    · -- the key of the ping differs from the one the ack names
      have hne : createPacketKey 0 0 ≠ createPacketKey s.bytesSentOffset 0 := by
        intro heq
        have := congrArg PacketKey.offset heq
        rw [hoff 0 (by decide), createPacketKey_offset _ _ (by decide)] at this
        omega
      have hlost : s.PingLost now ↔ ¬ s.SentAt (createPacketKey 0 0) now := ⟨fun h => h.2.2, fun h => ⟨hp, h0, h⟩⟩
      rw [List.length_nil, sentAt_afterEmpty_of_ne now true hne, hlost, not_not]
  · cases hr.symm.trans h
    refine ⟨by decide, iff_of_true ?_ fun hl => Bool.false_ne_true (hp.symm.trans hl.1)⟩
    rw [hoff 0 (by decide)]
    exact s.sentAt_afterEmpty now false
  · obtain ⟨hn, hn16⟩ := sendLength_le hm
    have hlen : (s.queuedData.take (s.sendLength msgType ack mtu)).length = s.sendLength msgType ack mtu :=
      List.length_take_of_le hn
    cases hr.symm.trans h
    rw [hlen]
    refine ⟨hn16, iff_of_true ?_ fun hl => Bool.false_ne_true (hp.symm.trans hl.1)⟩
    have hsent : (s.afterData (s.sendLength msgType ack mtu) now).SentAt
        (createPacketKey s.bytesSentOffset (s.sendLength msgType ack mtu % 2 ^ 16)) now :=
      sentAt_of_mem (InsertionMap.mem_put.mpr (.inl rfl)) rfl
    rw [Nat.mod_eq_of_lt hn16] at hsent ⊢
    rwa [hoff _ hn16]

theorem Conserves.readyToRetransmit_sentAt (hc : Conserves W A s) (hb : s.bytesSentOffset < 2 ^ 48)
    (hm : ∀ e, s.dataInFlightMap.first = some e → MtuFits msgType ack mtu (entryStart e))
    (h : s.readyToRetransmit ack mtu rto msgType now = some (s', .ok (some d, o, isClose))) :
    d.length < 2 ^ 16 ∧ s'.SentAt (createPacketKey o d.length) now := by
  obtain ⟨_, hr | ⟨e, hr⟩⟩ | ⟨key, info, hf, hcase⟩ := readyToRetransmit_cases h
  · cases hr
  · cases hr
  have hmem := InsertionMap.first_mem hf
  have hlen : PacketKey.length key = info.data.length := hc.keyed (key, info) hmem
  have hlt := packetKey_length_lt key
  obtain ⟨_, _, hr⟩ | ⟨_, _, rfl, hr⟩ | ⟨m, _, hmax, hlt', hle, rfl, hr⟩ := hcase
  · cases hr
  · cases hr
    have hbelow : PacketKey.offset key + info.data.length ≤ s.bytesSentOffset := hc.below (key, info) hmem
    rw [← hlen, createPacketKey_self (by omega), hlen]
    exact ⟨hlen ▸ hlt, sentAt_of_mem (InsertionMap.mem_put.mpr (.inl rfl)) rfl⟩
  · cases hr
    have hsplit := hc.splitAt hb hmem hmax (hm (key, info) hf) hlt'
    rw [List.length_take_of_le hle]
    exact ⟨hsplit.m_lt.trans hsplit.len_lt, sentAt_of_mem ((hsplit.mem_afterSplit hc).mpr (.inr (.inl rfl))) rfl⟩

end StreamBuffer

namespace SendBuffer

/-- The packet that `ReadyToSend` or `ReadyToRetransmit` hands out. -/
def handOut (sb : SendBuffer) : SndOp → Option HandedOut
  | .readyToSend k msgType ack mtu now =>
    match sb.readyToSend k msgType ack mtu now with
    | (snd, some d, o, _) => some ⟨snd, k, o, d, now⟩
    | _ => none
  | .readyToRetransmit k ack mtu rto msgType now =>
    match sb.readyToRetransmit k ack mtu rto msgType now with
    | some (snd, .ok (some d, o, _)) => some ⟨snd, k, o, d, now⟩
    | _ => none
  | _ => none

/-- The call hands out a ping that cannot be acknowledged. -/
def PingLost (sb : SendBuffer) : SndOp → Prop
  | .readyToSend k _ _ _ now => (sb.stream k).PingLost now
  | _ => False

theorem acknowledgeRange_ok_iff (sb : SendBuffer) (a : Ack) (t : Nat) :
    (sb.acknowledgeRange a).2 = (.ok, t) ↔ (sb.stream a.streamID).SentAt (createPacketKey a.offset a.len) t := by
  unfold acknowledgeRange stream StreamBuffer.SentAt
  cases sb.streams.get? a.streamID with
  | none => simp [InsertionMap.get?, InsertionMap.empty, InsertionMap.lookupEntries]
  | some s =>
    dsimp only [Option.getD_some]
    cases s.dataInFlightMap.get? (createPacketKey a.offset a.len) with
    | none => simp
    | some info => simp

end SendBuffer

namespace SndRun

theorem acknowledgeable_iff {h : HandedOut} (hlen : h.data.length < 2 ^ 16) :
    h.Acknowledgeable ↔ (h.snd.stream h.streamID).SentAt (createPacketKey h.offset h.data.length) h.sentNano :=
  ⟨fun ha => (h.snd.acknowledgeRange_ok_iff (h.ack 0) h.sentNano).mp (ha.found 0), fun hs =>
    ⟨fun _ _ _ ha => ReceiveBuffer.issuedAck_eq hlen ha,
      fun w => (h.snd.acknowledgeRange_ok_iff (h.ack w) h.sentNano).mpr hs⟩⟩

/-- One byte is sent and acknowledged before a ping is asked for. -/
def pingBehindByte : List SndOp :=
  [.queueData 0 [7], .readyToSend 0 .data none 1400 10, .acknowledgeRange ⟨0, 0, 1, 0⟩, .queuePing 0]

/-- Ten bytes are in flight and due again, with room for four of them. -/
def tenInFlight : List SndOp :=
  [.queueData 0 [0, 1, 2, 3, 4, 5, 6, 7, 8, 9], .readyToSend 0 .data none 1400 0]

end SndRun

end Qotp
