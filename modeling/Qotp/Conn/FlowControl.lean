import Qotp.Conn.Endpoint
import Qotp.Conn.FlushEncode
import Qotp.Conn.PendingAcks
import Qotp.Crypto.OpenSealed
import Qotp.Framework.InsertionOrder

namespace Qotp

open Framework

/-- A stream with nothing to send, now or again: no data, no packet in flight, no ping and
no CLOSE. -/
structure StreamBuffer.Drained (s : StreamBuffer) : Prop where
  queued : s.queuedData = []
  inFlight : s.dataInFlightMap.entries = []
  noPing : s.pingRequest = false
  noClose : s.closesAt s.bytesSentOffset = false

namespace SendBuffer

variable {sb sb' : SendBuffer} {k : Nat}

/-- No packet of any stream is in flight. -/
def Landed (sb : SendBuffer) : Prop := ∀ e ∈ sb.streams.entries, e.2.dataInFlightMap.entries = []

instance (sb : SendBuffer) : Decidable sb.Landed := inferInstanceAs (Decidable (∀ e ∈ _, _))

theorem landed_iff : sb.Landed ↔ ∀ k, (sb.stream k).dataInFlightMap.entries = [] := by
  constructor
  · intro h k
    unfold stream
    cases hg : sb.streams.get? k with
    | none => rfl
    | some s => exact h _ (InsertionMap.get?_eq_some.mp hg)
  · intro h e he
    have hk := h e.1
    rwa [stream, InsertionMap.get?_eq_some.mpr he] at hk

theorem landed_congr (h : ∀ j, (sb'.stream j).dataInFlightMap = (sb.stream j).dataInFlightMap) :
    sb'.Landed ↔ sb.Landed := by
  simp only [landed_iff, h]

theorem landed_update (sb : SendBuffer) (k : Nat) {f : StreamBuffer → StreamBuffer}
    (hf : ∀ s, (f s).dataInFlightMap = s.dataInFlightMap) : (sb.update k f).Landed ↔ sb.Landed := by
  refine landed_congr fun j => ?_
  rw [update, stream_put]
  split_ifs with hj
  · rw [hf, hj]
  · rfl

theorem landed_queueData {d : Bytes} {n : Nat} {st : InsertStatus} (h : sb.queueData k d = some (sb', n, st)) :
    sb'.Landed ↔ sb.Landed := by
  obtain ⟨_, ⟨_, rfl⟩ | rfl⟩ := queueData_cases h
  · exact Iff.rfl
  · exact landed_update sb k (f := (·.queue (d.take n))) fun _ => rfl

theorem landed_close (sb : SendBuffer) (k : Nat) : (sb.close k).Landed ↔ sb.Landed := by
  refine landed_update sb k fun s => ?_
  unfold StreamBuffer.close
  cases s.closeAtOffset <;> rfl

theorem landed_queuePing (sb : SendBuffer) (k : Nat) : (sb.queuePing k).Landed ↔ sb.Landed :=
  landed_update sb k fun _ => rfl

/-- No packet but the acknowledged one is in flight. -/
def NoneBut (sb : SendBuffer) (a : Ack) : Prop :=
  ∀ e ∈ sb.streams.entries, ∀ f ∈ e.2.dataInFlightMap.entries,
    e.1 = a.streamID ∧ f.1 = createPacketKey a.offset a.len

instance (sb : SendBuffer) (a : Ack) : Decidable (sb.NoneBut a) := inferInstanceAs (Decidable (∀ e ∈ _, _))

/-- The acknowledged packet is in flight. -/
def Awaits (sb : SendBuffer) (a : Ack) : Bool :=
  ((sb.stream a.streamID).dataInFlightMap.get? (createPacketKey a.offset a.len)).isSome

theorem noneBut_of_landed {a : Ack} (h : (sb.afterAck (some a)).Landed) : sb.NoneBut a := by
  intro e he f hf
  have hs : sb.stream e.1 = e.2 := by
    rw [stream, InsertionMap.get?_eq_some.mpr he]
    rfl
  rw [landed_iff, afterAck] at h
  obtain ⟨st, hr, _⟩ | ⟨info, _, _, _, hstr⟩ := acknowledgeRange_cases sb a
  · have hnil := h e.1
    rw [hr, hs] at hnil
    rw [hnil] at hf
    cases hf
  · have hnil := h e.1
    rw [hstr] at hnil
    split_ifs at hnil with hid
    · refine ⟨hid, by_contra fun hne => ?_⟩
      have hmem : f ∈ ((sb.stream a.streamID).dataInFlightMap.erase (createPacketKey a.offset a.len)).entries :=
        InsertionMap.mem_erase.mpr ⟨hne, by rwa [← hid, hs]⟩
      dsimp only at hnil
      rw [hnil] at hmem
      cases hmem
    · rw [hs] at hnil
      rw [hnil] at hf
      cases hf

theorem ackHits_eq (sb : SendBuffer) (a : Ack) : sb.ackHits (some a) = sb.Awaits a := by
  cases hg : sb.streams.get? a.streamID with
  | none =>
    have hempty : ({} : StreamBuffer).dataInFlightMap.get? (createPacketKey a.offset a.len) = none := rfl
    simp [ackHits, Awaits, acknowledgeRange, stream, hg, hempty]
  | some s =>
    cases hi : s.dataInFlightMap.get? (createPacketKey a.offset a.len) with
    | none => simp [ackHits, Awaits, acknowledgeRange, stream, hg, hi]
    | some info => simp [ackHits, Awaits, acknowledgeRange, stream, hg, hi]

/-- A packet that is handed out for the first time is in flight. -/
theorem not_landed_readyToSend {m : CryptoMsgType} {ack : Option Ack} {mtu : Int} {now o : Nat} {d : Bytes}
    {isClose : Bool} (h : sb.readyToSend k m ack mtu now = (sb', some d, o, isClose)) : ¬ sb'.Landed := by
  intro hl
  have hk := landed_iff.mp hl k
  obtain ⟨hstr, hpkt⟩ := readyToSend_stream sb k k m ack mtu now
  rw [h, if_pos rfl] at hstr
  rw [h] at hpkt
  dsimp only at hstr hpkt
  have hput : ∀ (t : InsertionMap PacketKey SendInfo) (key : PacketKey) (info : SendInfo), (t.put key info).entries ≠ [] :=
    fun t key info hnil => List.not_mem_nil (hnil ▸ InsertionMap.mem_put.mpr (.inl rfl))
  rw [hstr] at hk
  obtain ⟨_, _, _, he⟩ | ⟨_, he⟩ | ⟨_, _, _, he⟩ | ⟨_, _, he⟩ := StreamBuffer.readyToSend_cases (sb.stream k) m ack mtu now
  · rw [he] at hpkt
    cases hpkt
  · rw [he] at hk
    exact hput _ _ _ hk
  · rw [he] at hk
    exact hput _ _ _ hk
  · rw [he] at hk
    exact hput _ _ _ hk

/-- With nothing in flight on the stream there is nothing to send again. -/
theorem readyToRetransmit_landed (hl : (sb.stream k).dataInFlightMap.entries = []) (ack : Option Ack) (mtu : Int)
    (rto now : Nat) (m : CryptoMsgType) :
    sb.readyToRetransmit k ack mtu rto m now = some (sb, .ok (none, 0, false)) := by
  unfold readyToRetransmit
  cases hg : sb.streams.get? k with
  | none => rfl
  | some s =>
    have hfirst : s.dataInFlightMap.first = none := by
      rw [stream, hg, Option.getD_some] at hl
      rw [InsertionMap.first, hl]
      rfl
    simp only [StreamBuffer.readyToRetransmit, hfirst, Option.map_some, InsertionMap.put_of_get? hg]

theorem readyToSend_drained (h : (sb.stream k).Drained) (m : CryptoMsgType) (ack : Option Ack) (mtu : Int) (now : Nat) :
    sb.readyToSend k m ack mtu now = (sb, none, 0, false) := by
  unfold readyToSend
  cases hg : sb.streams.get? k with
  | none => rfl
  | some s =>
    rw [stream, hg, Option.getD_some] at h
    have hs : s.readyToSend m ack mtu now = (s, none, 0, false) := by
      obtain ⟨_, _, _, he⟩ | ⟨hp, _⟩ | ⟨_, _, hc, _⟩ | ⟨_, hq, _⟩ := s.readyToSend_cases m ack mtu now
      · exact he
      · exact absurd (h.noPing.symm.trans hp) Bool.false_ne_true
      · exact absurd (h.noClose.symm.trans hc) Bool.false_ne_true
      · exact absurd h.queued hq
    simp only [hs, InsertionMap.put_of_get? hg]

theorem readyToSend_queued (hq : (sb.stream k).queuedData ≠ []) (m : CryptoMsgType) (ack : Option Ack) (mtu : Int)
    (now : Nat) : ∃ sb' d o isClose, sb.readyToSend k m ack mtu now = (sb', some d, o, isClose) := by
  obtain ⟨_, hpkt⟩ := readyToSend_stream sb k k m ack mtu now
  have hsome : ∃ d o isClose, ((sb.stream k).readyToSend m ack mtu now).2 = (some d, o, isClose) := by
    obtain ⟨_, hnil, _⟩ | ⟨_, he⟩ | ⟨_, hnil, _⟩ | ⟨_, _, he⟩ :=
      StreamBuffer.readyToSend_cases (sb.stream k) m ack mtu now
    · exact absurd hnil hq
    · rw [he]
      exact ⟨_, _, _, rfl⟩
    · exact absurd hnil hq
    · rw [he]
      exact ⟨_, _, _, rfl⟩
  obtain ⟨d, o, isClose, hd⟩ := hsome
  exact ⟨_, d, o, isClose, Prod.ext rfl (hpkt.trans hd)⟩

end SendBuffer

namespace Conn

variable {Prv Pub : Type} {P : Primitives Prv Pub} {l : ListenerCfg Prv} {c c' : Conn Prv Pub} {k now : Nat}
  {w : WriteResult} {out : List Outgoing} {r : FlushResult}

/-- `Flush` finds room for one more packet in the peer's window. -/
def WindowOpen (c : Conn Prv Pub) (mtu : Int) : Prop := c.dataInFlight + mtu ≤ c.rcvWndSize

instance (c : Conn Prv Pub) (mtu : Int) : Decidable (c.WindowOpen mtu) := inferInstanceAs (Decidable (_ ≤ _))

/-- The window is open whenever nothing is in flight. -/
def FlowOk (c : Conn Prv Pub) (mtu : Int) : Prop := c.snd.Landed → c.WindowOpen mtu

theorem flowOk_congr {mtu : Int} (hs : c'.snd.Landed ↔ c.snd.Landed) (hd : c'.dataInFlight = c.dataInFlight)
    (hw : c'.rcvWndSize = c.rcvWndSize) (h : c.FlowOk mtu) : c'.FlowOk mtu := by
  intro hl
  rw [WindowOpen, hd, hw]
  exact h (hs.mp hl)

/-- Behind a closed window `Flush` sends no data. -/
theorem flush_closed (hw : ¬ c.WindowOpen l.mtu) (h : c.flush P l k now w = some (c', out, r)) :
    EncodeFrame c.takeAck.1 c' ∧ (c.takeAck.2 = none → out = []) := by
  have hclosed : c.takeAck.1.dataInFlight + l.mtu > (c.takeAck.1.rcvWndSize : Int) := not_le.mp hw
  unfold flush at h
  dsimp only at h
  split_ifs at h with hp ha
  · cases h
    exact ⟨encodeFrame_refl _, fun _ => rfl⟩
  · refine ⟨(writeAck_cases P l h).1, fun hn => ?_⟩
    rw [hn] at ha
    cases ha
  · cases h
    exact ⟨encodeFrame_refl _, fun _ => rfl⟩

/-- What `Flush` counts as in flight is in flight. -/
theorem flush_counts (h : c.flush P l k now w = some (c', out, r)) :
    c'.dataInFlight = c.dataInFlight ∨ ¬ c'.snd.Landed := by
  obtain ⟨⟨i, s, e, n, rfl⟩, _⟩ | ⟨_, snd, res, _, hcase⟩ := flush_cases P l h
  · exact .inl rfl
  obtain ⟨e, _, rfl, _⟩ | ⟨d, o, isClose, _, ⟨i, s, e, n, rfl⟩, _⟩ | ⟨o, isClose, _, hsend⟩ := hcase
  · exact .inl rfl
  · exact .inl rfl
  obtain ⟨⟨i, s, e, n, rfl⟩, _⟩ | ⟨snd', pkt, hr, hcase⟩ := flushSend_cases P l hsend
  · exact .inl rfl
  obtain ⟨_, ⟨i, s, e, n, rfl⟩, _⟩ | ⟨d, o, isClose, rfl, hfirst⟩ := hcase
  · exact .inl rfl
  refine .inr ?_
  obtain ⟨_, _, i, s, e, n, rfl⟩ | ⟨enc, _, i, s, e, n, rfl⟩ := hfirst
  · exact SendBuffer.not_landed_readyToSend hr
  · exact SendBuffer.not_landed_readyToSend hr

theorem flush_flowOk (hc : c.FlowOk l.mtu) (h : c.flush P l k now w = some (c', out, r)) : c'.FlowOk l.mtu := by
  by_cases hw : c.WindowOpen l.mtu
  · intro hl
    have hwnd : c'.rcvWndSize = c.rcvWndSize := by
      obtain ⟨_, _, _, _, _, _, _, _, rfl⟩ := flush_fields P l h
      rfl
    obtain hd | hn := flush_counts h
    · rw [WindowOpen, hd, hwnd]
      exact hw
    · exact absurd hl hn
  · obtain ⟨⟨i, s, e, n, rfl⟩, _⟩ := flush_closed hw h
    exact flowOk_congr Iff.rfl rfl rfl hc

/-- An ack that leaves nothing in flight advertises room for what is still counted as in
flight and one more packet. `rawLen` is the length of the datagram that brings the ack. -/
def AckOpens (c : Conn Prv Pub) (mtu : Int) (ack : Option Ack) (rawLen : Nat) : Prop :=
  ∀ a ∈ ack, c.snd.NoneBut a →
    c.dataInFlight - (if c.snd.Awaits a then (rawLen : Int) else 0) + mtu ≤ (a.rcvWnd : Int)

instance (c : Conn Prv Pub) (mtu : Int) (ack : Option Ack) (rawLen : Nat) : Decidable (c.AckOpens mtu ack rawLen) :=
  inferInstanceAs (Decidable (∀ a ∈ ack, _))

theorem decode_flowOk {p : PayloadHeader} {u : Option Bytes} {rawLen : Nat} {mtu : Int}
    (hc : c.FlowOk mtu) (ha : c.AckOpens mtu p.ack rawLen) (h : c.decode p u rawLen now = some c') :
    c'.FlowOk mtu := by
  intro hl
  have heff := decode_effect h
  rw [WindowOpen, decode_window h, heff.dataInFlight]
  have hl' : (c.snd.afterAck p.ack).Landed := by
    rw [heff.snd] at hl
    split_ifs at hl
    · exact (SendBuffer.landed_close ..).mp hl
    · exact hl
  cases hack : p.ack with
  | none =>
    rw [hack] at hl'
    have hopen : c.WindowOpen mtu := hc hl'
    simpa [SendBuffer.ackHits, WindowOpen] using hopen
  | some a =>
    rw [hack] at hl'
    rw [SendBuffer.ackHits_eq]
    exact ha a hack (SendBuffer.noneBut_of_landed hl')

section NextWriteTime

theorem advanceSn_nextWriteTime (c : Conn Prv Pub) (enc : Bytes) :
    (c.advanceSn enc).1.nextWriteTime = c.nextWriteTime := by
  unfold advanceSn
  dsimp only
  split_ifs <;> rfl

theorem finishInit_nextWriteTime (c : Conn Prv Pub) (res : Except String Bytes) :
    (c.finishInit res).1.nextWriteTime = c.nextWriteTime := by
  cases res with
  | error e => rfl
  | ok enc => exact advanceSn_nextWriteTime _ enc

theorem encode_nextWriteTime {p : PayloadHeader} {u : Option Bytes} {m : CryptoMsgType} {res : Except String Bytes}
    (h : c.encode P l p u m = some (c', res)) : c'.nextWriteTime = c.nextWriteTime := by
  cases m with
  | initSnd | initRcv | initCryptoSnd | initCryptoRcv =>
    obtain ⟨x, _, hx⟩ := Option.map_eq_some_iff.mp h
    have hfst := congrArg (·.1.nextWriteTime) hx
    rw [finishInit_nextWriteTime] at hfst
    exact hfst.symm
  | data =>
    obtain ⟨x, _, hx⟩ := Option.map_eq_some_iff.mp h
    cases x with
    | error e =>
      cases hx
      rfl
    | ok enc =>
      have hfst := congrArg (·.1.nextWriteTime) hx
      exact hfst.symm.trans (advanceSn_nextWriteTime c enc)
  | unknown k =>
    cases h
    rfl

theorem sendPacket_nextWriteTime {ack : Option Ack} {d : Bytes} {o : Nat} {isClose track : Bool} {m : CryptoMsgType}
    (hc : c.nextWriteTime < 2 ^ 64) (h : c.sendPacket P l k ack d o isClose m now track w = some (c', out, r)) :
    c'.nextWriteTime < 2 ^ 64 := by
  obtain ⟨⟨c₁, res⟩, he, h⟩ := Option.bind_eq_some_iff.mp h
  rw [← encode_nextWriteTime he] at hc
  cases res with
  | error e =>
    cases h
    exact hc
  | ok enc =>
    cases w with
    | error e =>
      cases h
      exact hc
    | ok _ =>
      cases h
      exact add64_lt _ _

theorem writeAck_nextWriteTime {ack : Option Ack} (hc : c.nextWriteTime < 2 ^ 64)
    (h : c.writeAck P l k ack now w = some (c', out, r)) : c'.nextWriteTime < 2 ^ 64 := by
  obtain ⟨⟨c₁, res⟩, he, h⟩ := Option.bind_eq_some_iff.mp h
  rw [← encode_nextWriteTime he] at hc
  cases res with
  | error e =>
    cases h
    exact hc
  | ok enc =>
    cases w with
    | error e =>
      cases h
      exact hc
    | ok _ =>
      cases h
      exact add64_lt _ _

theorem flushSend_nextWriteTime {ack : Option Ack} (hc : c.nextWriteTime < 2 ^ 64)
    (h : c.flushSend P l k ack now w = some (c', out, r)) : c'.nextWriteTime < 2 ^ 64 := by
  unfold flushSend at h
  split_ifs at h with hs ha
  · rcases hr : c.snd.readyToSend k c.msgType ack l.mtu now with ⟨snd, data, o, isClose⟩
    have hsnd : ({ c with snd := snd } : Conn Prv Pub).nextWriteTime < 2 ^ 64 := hc
    simp only [hr] at h
    cases data with
    | some d => exact sendPacket_nextWriteTime hsnd h
    | none =>
      dsimp only at h
      split_ifs at h
      · exact writeAck_nextWriteTime hsnd h
      · cases h
        exact hc
  · exact writeAck_nextWriteTime hc h
  · cases h
    exact hc

/-- The pacing time is a machine word. -/
theorem flush_nextWriteTime (hc : c.nextWriteTime < 2 ^ 64) (h : c.flush P l k now w = some (c', out, r)) :
    c'.nextWriteTime < 2 ^ 64 := by
  have hack : c.takeAck.1.nextWriteTime < 2 ^ 64 := hc
  unfold flush at h
  dsimp only at h
  split_ifs at h with hp hw ha
  · cases h
    exact hack
  · exact writeAck_nextWriteTime hack h
  · cases h
    exact hack
  · obtain ⟨⟨snd, res⟩, _, h⟩ := Option.bind_eq_some_iff.mp h
    rcases res with e | ⟨_ | d, o, isClose⟩
    · cases h
      exact hack
    · exact flushSend_nextWriteTime (c := { c.takeAck.1 with snd := snd }) hack h
    · exact sendPacket_nextWriteTime
        (c := { c.takeAck.1 with snd := snd, measurements := c.measurements.onPacketLoss }) hack h

end NextWriteTime

section Progress

/-- A connection past its handshake whose counters have room for `room` more datagrams. -/
structure Ready (c : Conn Prv Pub) (room : Nat) : Prop where
  done : c.isHandshakeDoneOnRcv = true
  secret : ∃ key, c.sharedSecret = some key ∧ key.length = 32
  counters : CountersOk c
  room : c.position + room < 2 ^ 95

theorem Ready.sameCrypto {room : Nat} (h : c.Ready room) (hs : SameCrypto c c') : c'.Ready room := by
  have hcount := hs.counters
  obtain ⟨_, _, _, _, _, _, _, rfl⟩ := hs
  exact ⟨h.done, h.secret, hcount.countersOk h.counters, h.room⟩

theorem Ready.flush {room : Nat} (h : c.Ready (room + 1)) (hf : c.flush P l k now w = some (c', out, r)) :
    c'.Ready room := by
  have hsn : c.snCrypto + 1 < 2 ^ 64 := by
    have hr := h.room
    have he := h.counters.epoch_lt
    have hs := h.counters.sn_lt_of_epoch
    unfold position at hr
    omega
  obtain ⟨hok, hpos⟩ := flush_position h.counters hsn hf
  obtain ⟨_, _, _, _, _, _, _, _, rfl⟩ := flush_fields P l hf
  refine ⟨h.done, h.secret, hok, ?_⟩
  have hr := h.room
  omega

theorem advanceSn_live (hc : CountersOk c) (hroom : c.position + 1 < 2 ^ 95) (enc : Bytes) :
    (c.advanceSn enc).2 = .ok enc := by
  obtain ⟨he, _, hs⟩ := hc
  unfold position at hroom
  have ha : add64 c.snCrypto 1 = c.snCrypto + 1 := add64_of_lt (by omega)
  have hb : add64 c.epochCryptoSnd 1 = c.epochCryptoSnd + 1 := add64_of_lt (by omega)
  unfold advanceSn
  rw [ha, hb]
  dsimp only
  split_ifs
  · omega
  · rfl
  · rfl

theorem Ready.encode (hP : P.Correct) (h : c.Ready 1) (p : PayloadHeader) (u : Option Bytes) :
    ∃ c' enc, c.encode P l p u .data = some (c', .ok enc) := by
  obtain ⟨key, hkey, hlen⟩ := h.secret
  have hseal : chainedEncrypt P c.snCrypto c.epochCryptoSnd c.isSenderOnInit key (dataHeader c.connId)
      (encodePayload p u).1 = _ := chainedEncrypt_eq hP hlen (encodePayload_length_ge p u)
  have hadv := advanceSn_live h.counters h.room (dataHeader c.connId ++ sealedBody P c.snCrypto c.epochCryptoSnd
    c.isSenderOnInit key (dataHeader c.connId) (encodePayload p u).1)
  have henc : c.encode P l p u .data = some (c.advanceSn (dataHeader c.connId ++ sealedBody P c.snCrypto
      c.epochCryptoSnd c.isSenderOnInit key (dataHeader c.connId) (encodePayload p u).1)) := by
    simp only [Conn.encode, encryptData, hkey, Option.bind_eq_bind, Option.bind_some, hseal, Option.map_some]
  exact ⟨_, _, henc.trans (congrArg some (Prod.ext rfl hadv))⟩

theorem Ready.msgType {room : Nat} (h : c.Ready room) : c.msgType = .data := if_pos h.done

/-- An open window, nothing in flight and queued data: once the pacing time is over a
datagram goes out. -/
theorem flush_sends (hP : P.Correct) (h : c.Ready 1) (hack : c.rcv.ackList = []) (hl : c.snd.Landed)
    (hw : c.WindowOpen l.mtu) (hq : (c.snd.stream k).queuedData ≠ []) (hnow : c.nextWriteTime ≤ now) :
    ∃ c' o r, c.flush P l k now (.ok ()) = some (c', [o], r) := by
  obtain ⟨snd, d, o, isClose, hr⟩ := SendBuffer.readyToSend_queued hq .data none l.mtu now
  obtain ⟨c₁, enc, he⟩ := (h.sameCrypto ⟨c.streams, snd, c.rcv, c.dataInFlight, c.rcvWndSize, c.nextWriteTime,
    c.measurements, rfl⟩).encode (l := l) hP ⟨isClose, none, k, o⟩ (some d)
  have hsend : c.flushSend P l k none now (.ok ()) =
      ({ c with snd := snd } : Conn Prv Pub).sendPacket P l k none d o isClose .data now true (.ok ()) := by
    simp only [flushSend, h.done, Bool.true_or, if_true, h.msgType, hr]
  have hflush : c.flush P l k now (.ok ()) = c.flushSend P l k none now (.ok ()) := by
    unfold flush
    rw [takeAck_nil hack]
    dsimp only
    rw [if_neg (not_lt.mpr hnow), if_neg (not_lt.mpr hw), SendBuffer.readyToRetransmit_landed (SendBuffer.landed_iff.mp hl k)]
    rfl
  rw [hflush, hsend]
  simp only [sendPacket, he, Option.bind_eq_bind, Option.bind_some]
  exact ⟨_, _, _, rfl⟩

/-- `Flush` has nothing to write for the stream: no ack is pending, and the pacing or the
window hold back what there is, or there is nothing. -/
def Silent (c : Conn Prv Pub) (mtu : Int) (now k : Nat) : Prop :=
  c.rcv.ackList = [] ∧ (now < c.nextWriteTime ∨ ¬ c.WindowOpen mtu ∨
    (c.isInitSentOnSnd = true ∧ (c.snd.stream k).Drained))

theorem Silent.flush (h : c.Silent l.mtu now k) : ∃ pacing, c.flush P l k now w = some (c, [], .ok (0, pacing)) := by
  obtain ⟨hack, h⟩ := h
  unfold Conn.flush
  rw [takeAck_nil hack]
  dsimp only
  by_cases hp : c.nextWriteTime > now
  · rw [if_pos hp]
    exact ⟨_, rfl⟩
  rw [if_neg hp]
  by_cases hw : c.dataInFlight + l.mtu > (c.rcvWndSize : Int)
  · rw [if_pos hw]
    exact ⟨_, rfl⟩
  rw [if_neg hw]
  obtain h | h | ⟨hinit, hd⟩ := h
  · exact absurd h hp
  · exact absurd (not_lt.mp hw) h
  have hsend : c.flushSend P l k none now w = some (c, [], .ok (0, minDeadLine)) := by
    have hnothing : ¬ ((none : Option Ack).isSome || !c.isInitSentOnSnd) = true := by simp [hinit]
    simp only [flushSend, SendBuffer.readyToSend_drained hd, if_neg hnothing]
    split_ifs with _ hack
    · rfl
    · cases hack
    · rfl
  rw [SendBuffer.readyToRetransmit_landed hd.inFlight]
  exact ⟨_, hsend⟩

/-- A side with no ack to send and no data on the stream is silent. -/
theorem flush_idle (hi : c.isInitSentOnSnd = true) (hack : c.rcv.ackList = [])
    (hs : c.snd.streams.get? k = none) (hf : c.flush P l k now w = some (c', out, r)) : out = [] := by
  have hd : (c.snd.stream k).Drained := by
    rw [SendBuffer.stream, hs]
    exact ⟨rfl, rfl, rfl, rfl⟩
  obtain ⟨pacing, hsilent⟩ := Silent.flush (P := P) (w := w) ⟨hack, .inr (.inr ⟨hi, hd⟩)⟩
  cases hsilent.symm.trans hf
  rfl

end Progress

end Conn

end Qotp
