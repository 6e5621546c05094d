import Qotp.Conn.Conn
import Qotp.Buffer.SendSpec
import Qotp.Buffer.ReceiveSpec

namespace Qotp

open Framework

namespace Conn

variable {Prv Pub : Type} (P : Primitives Prv Pub) (l : ListenerCfg Prv) {c c' c'' : Conn Prv Pub}

theorem checkStreamFullyAcked_eq (c : Conn Prv Pub) (k : Nat) :
    c.checkStreamFullyAcked k = c.snd.fullyAcked k := by
  unfold checkStreamFullyAcked SendBuffer.fullyAcked
  cases c.snd.getOffsetClosedAt k <;> rfl

/-- Keys, handshake marks and counters of `c'` are those of `c`. -/
def SameCrypto (c c' : Conn Prv Pub) : Prop :=
  ∃ streams snd rcv inFlight wnd next m, c' = { c with
    streams := streams
    snd := snd
    rcv := rcv
    dataInFlight := inFlight
    rcvWndSize := wnd
    nextWriteTime := next
    measurements := m }

theorem SameCrypto.refl (c : Conn Prv Pub) : SameCrypto c c := ⟨_, _, _, _, _, _, _, rfl⟩

theorem SameCrypto.trans (h : SameCrypto c c') (h' : SameCrypto c' c'') : SameCrypto c c'' := by
  obtain ⟨_, _, _, _, _, _, _, rfl⟩ := h
  obtain ⟨s, snd, rcv, i, w, n, m, rfl⟩ := h'
  exact ⟨s, snd, rcv, i, w, n, m, rfl⟩

/-- `c'` is `c` but for the counters and the mark that encoding leaves, and the time
of the next write. -/
def EncodeFrame (c c' : Conn Prv Pub) : Prop :=
  ∃ (isInit : Bool) (sn epoch next : Nat), c' = { c with
    isInitSentOnSnd := isInit, snCrypto := sn, epochCryptoSnd := epoch, nextWriteTime := next }

theorem encodeFrame_refl (c : Conn Prv Pub) : EncodeFrame c c := ⟨_, _, _, _, rfl⟩

theorem EncodeFrame.trans {c₁ c₂ c₃ : Conn Prv Pub} (h : EncodeFrame c₁ c₂) (h' : EncodeFrame c₂ c₃) :
    EncodeFrame c₁ c₃ := by
  obtain ⟨_, _, _, _, rfl⟩ := h
  obtain ⟨i, s, e, n, rfl⟩ := h'
  exact ⟨i, s, e, n, rfl⟩

theorem advanceSn_frame {enc : Bytes} {r : Except String Bytes} (h : c.advanceSn enc = (c', r)) :
    EncodeFrame c c' := by
  unfold advanceSn at h
  dsimp only at h
  split_ifs at h <;> cases h <;> exact ⟨_, _, _, _, rfl⟩

theorem finishInit_frame {r r' : Except String Bytes} (h : c.finishInit r = (c', r')) :
    EncodeFrame c c' := by
  cases r with
  | error e =>
    cases h
    exact encodeFrame_refl c
  | ok enc =>
    have hset : EncodeFrame c { c with isInitSentOnSnd := true } := ⟨_, _, _, _, rfl⟩
    exact hset.trans (advanceSn_frame h)

theorem encode_frame {p : PayloadHeader} {u : Option Bytes} {m : CryptoMsgType} {r : Except String Bytes}
    (h : c.encode P l p u m = some (c', r)) : EncodeFrame c c' := by
  cases m with
  | initSnd | initRcv | initCryptoSnd | initCryptoRcv =>
    obtain ⟨x, _, hx⟩ := Option.map_eq_some_iff.mp h
    exact finishInit_frame hx
  | data =>
    obtain ⟨x, _, hx⟩ := Option.map_eq_some_iff.mp h
    cases x with
    | error e =>
      cases hx
      exact encodeFrame_refl c
    | ok enc => exact advanceSn_frame hx
  | unknown k =>
    cases h
    exact encodeFrame_refl c

/-- Encoding neither reads nor changes the two buffers. -/
theorem encode_buffers (c : Conn Prv Pub) (snd : SendBuffer) (rcv : ReceiveBuffer) (p : PayloadHeader)
    (u : Option Bytes) (m : CryptoMsgType) :
    ({ c with snd := snd, rcv := rcv } : Conn Prv Pub).encode P l p u m =
      (c.encode P l p u m).map fun r => ({ r.1 with snd := snd, rcv := rcv }, r.2) := by
  have hadv : ∀ (c : Conn Prv Pub) (enc : Bytes),
      ({ c with snd := snd, rcv := rcv } : Conn Prv Pub).advanceSn enc =
        ({ (c.advanceSn enc).1 with snd := snd, rcv := rcv }, (c.advanceSn enc).2) := by
    intro c enc
    unfold advanceSn
    dsimp only
    split_ifs <;> rfl
  have hfin : ∀ r : Except String Bytes, ({ c with snd := snd, rcv := rcv } : Conn Prv Pub).finishInit r =
      ({ (c.finishInit r).1 with snd := snd, rcv := rcv }, (c.finishInit r).2) := by
    intro r
    cases r with
    | error e => rfl
    | ok enc => exact hadv { c with isInitSentOnSnd := true } enc
  cases m with
  | initSnd | initRcv | initCryptoSnd | initCryptoRcv =>
    simp only [encode, Option.map_map]
    exact congrArg (Option.map · _) (funext fun r => hfin _)
  | data =>
    simp only [encode, Option.map_map]
    refine congrArg (Option.map · _) (funext fun r => ?_)
    cases r with
    | error e => rfl
    | ok enc => exact hadv c enc
  | unknown k => rfl

/-- The datagram is not encoded. -/
def EncodeFails (c : Conn Prv Pub) (p : PayloadHeader) (u : Option Bytes) (m : CryptoMsgType) : Prop :=
  ∃ c₁ e, c.encode P l p u m = some (c₁, .error e)

instance (c : Conn Prv Pub) (p : PayloadHeader) (u : Option Bytes) (m : CryptoMsgType) :
    Decidable (EncodeFails P l c p u m) :=
  match h : c.encode P l p u m with
  | some (c₁, .error e) => isTrue ⟨c₁, e, h⟩
  | some (c₁, .ok _) => isFalse fun ⟨_, _, h'⟩ => by cases h.symm.trans h'
  | none => isFalse fun ⟨_, _, h'⟩ => by cases h.symm.trans h'

theorem encodeFails_buffers (snd : SendBuffer) (rcv : ReceiveBuffer) {p : PayloadHeader}
    {u : Option Bytes} {m : CryptoMsgType} :
    EncodeFails P l { c with snd := snd, rcv := rcv } p u m ↔ EncodeFails P l c p u m := by
  unfold EncodeFails
  rw [encode_buffers]
  constructor
  · rintro ⟨c₁, e, h⟩
    obtain ⟨⟨c₂, r⟩, hr, he⟩ := Option.map_eq_some_iff.mp h
    cases he
    exact ⟨c₂, e, hr⟩
  · rintro ⟨c₁, e, h⟩
    rw [h]
    exact ⟨_, e, rfl⟩

/-- Behind a failed send the counter of bytes in flight is as before; behind a
written datagram it has grown by a first transmission. -/
theorem sendPacket_cases {k o now : Nat} {ack : Option Ack} {d : Bytes} {isClose track : Bool}
    {m : CryptoMsgType} {w : WriteResult} {out : List Outgoing} {r : FlushResult}
    (h : c.sendPacket P l k ack d o isClose m now track w = some (c', out, r)) :
    ((w ≠ .ok () ∨ EncodeFails P l c ⟨isClose, ack, k, o⟩ (some d) m) ∧ out = [] ∧ EncodeFrame c c') ∨
    (∃ enc, out = [⟨⟨isClose, ack, k, o⟩, some d, m, enc⟩] ∧
      EncodeFrame { c with dataInFlight := c.dataInFlight + if track then (d.length : Int) else 0 } c') := by
  obtain ⟨⟨c₁, enc⟩, he, h⟩ := Option.bind_eq_some_iff.mp h
  have hf := encode_frame P l he
  cases enc with
  | error e =>
    cases h
    exact .inl ⟨.inr ⟨_, e, he⟩, rfl, hf⟩
  | ok enc =>
    cases w with
    | error e =>
      cases h
      exact .inl ⟨.inl nofun, rfl, hf⟩
    | ok _ =>
      obtain ⟨i, s, e, n, rfl⟩ := hf
      cases h
      refine .inr ⟨enc, rfl, ?_⟩
      cases track with
      | true => exact ⟨i, s, e, _, rfl⟩
      | false => exact ⟨i, s, e, _, by simp only [Int.add_zero, Bool.false_eq_true, if_false]; rfl⟩

/-- Nothing goes out but perhaps an ack, with CLOSE on a stream that is fully acked. -/
def AckOut (c : Conn Prv Pub) (k : Nat) (ack : Option Ack) (out : List Outgoing) : Prop :=
  out = [] ∨ ∃ m enc, out = [⟨⟨c.snd.fullyAcked k, ack, k, 0⟩, none, m, enc⟩]

theorem writeAck_cases {k now : Nat} {ack : Option Ack} {w : WriteResult} {out : List Outgoing}
    {r : FlushResult} (h : c.writeAck P l k ack now w = some (c', out, r)) :
    EncodeFrame c c' ∧ AckOut c k ack out := by
  obtain ⟨⟨c₁, enc⟩, he, h⟩ := Option.bind_eq_some_iff.mp h
  have hf := encode_frame P l he
  cases enc with
  | error e =>
    cases h
    exact ⟨hf, .inl rfl⟩
  | ok enc =>
    cases w with
    | error e =>
      cases h
      exact ⟨hf, .inl rfl⟩
    | ok _ =>
      cases h
      rw [checkStreamFullyAcked_eq]
      refine ⟨hf.trans ?_, .inr ⟨_, enc, rfl⟩⟩
      exact ⟨_, _, _, _, rfl⟩

/-- A packet is handed out for the first time: it is lost on its way to the socket,
with its entry left in flight, or written and counted. -/
def FirstSend (c : Conn Prv Pub) (k : Nat) (ack : Option Ack) (w : WriteResult) (d : Bytes) (o : Nat)
    (isClose : Bool) (c' : Conn Prv Pub) (out : List Outgoing) : Prop :=
  ((w ≠ .ok () ∨ EncodeFails P l c ⟨isClose, ack, k, o⟩ (some d) c.msgType) ∧ out = [] ∧
    EncodeFrame c c') ∨
  ∃ enc, out = [⟨⟨isClose, ack, k, o⟩, some d, c.msgType, enc⟩] ∧
    EncodeFrame { c with dataInFlight := c.dataInFlight + d.length } c'

theorem flushSend_cases {k now : Nat} {ack : Option Ack} {w : WriteResult} {out : List Outgoing}
    {r : FlushResult} (h : c.flushSend P l k ack now w = some (c', out, r)) :
    (EncodeFrame c c' ∧ AckOut c k ack out) ∨
    ∃ snd pkt, c.snd.readyToSend k c.msgType ack l.mtu now = (snd, pkt) ∧
      ((pkt.1 = none ∧ EncodeFrame { c with snd := snd } c' ∧ AckOut { c with snd := snd } k ack out) ∨
      ∃ d o isClose, pkt = (some d, o, isClose) ∧
        FirstSend P l { c with snd := snd } k ack w d o isClose c' out) := by
  unfold flushSend at h
  split_ifs at h with hs ha
  · rcases hr : c.snd.readyToSend k c.msgType ack l.mtu now with ⟨snd, data, o, isClose⟩
    simp only [hr] at h
    refine .inr ⟨snd, _, rfl, ?_⟩
    cases data with
    | some d =>
      refine .inr ⟨d, o, isClose, rfl, ?_⟩
      exact sendPacket_cases P l h
    | none =>
      refine .inl ⟨rfl, ?_⟩
      dsimp only at h
      split_ifs at h
      · exact writeAck_cases P l h
      · cases h
        exact ⟨encodeFrame_refl _, .inl rfl⟩
  · exact .inl (writeAck_cases P l h)
  · cases h
    exact .inl ⟨encodeFrame_refl _, .inl rfl⟩

/-- What `Flush` can do; a retransmission is asked for where the pacer and the window allow it. -/
theorem flush_cases {k now : Nat} {w : WriteResult} {out : List Outgoing} {r : FlushResult}
    (h : c.flush P l k now w = some (c', out, r)) :
    (EncodeFrame c.takeAck.1 c' ∧ AckOut c k c.takeAck.2 out) ∨
    (c.nextWriteTime ≤ now ∧ c.dataInFlight + l.mtu ≤ c.rcvWndSize) ∧
    ∃ snd res, c.snd.readyToRetransmit k c.takeAck.2 l.mtu c.measurements.rtoNano c.msgType now =
        some (snd, res) ∧
      ((∃ e, res = .error e ∧ c' = { c.takeAck.1 with snd := snd } ∧ out = []) ∨
      (∃ d o isClose, res = .ok (some d, o, isClose) ∧
        EncodeFrame { c.takeAck.1 with snd := snd, measurements := c.measurements.onPacketLoss } c' ∧
        (out = [] ∨ ∃ m enc, out = [⟨⟨isClose, c.takeAck.2, k, o⟩, some d, m, enc⟩])) ∨
      ∃ o isClose, res = .ok (none, o, isClose) ∧
        ({ c.takeAck.1 with snd := snd } : Conn Prv Pub).flushSend P l k c.takeAck.2 now w =
          some (c', out, r)) := by
  unfold flush at h
  dsimp only at h
  split_ifs at h with hp hw ha
  · cases h
    exact .inl ⟨encodeFrame_refl _, .inl rfl⟩
  · exact .inl (writeAck_cases P l h)
  · cases h
    exact .inl ⟨encodeFrame_refl _, .inl rfl⟩
  · obtain ⟨⟨snd, res⟩, hr, h⟩ := Option.bind_eq_some_iff.mp h
    refine .inr ⟨⟨not_lt.mp hp, not_lt.mp hw⟩, snd, res, hr, ?_⟩
    rcases res with e | ⟨_ | d, o, isClose⟩
    · cases h
      exact .inl ⟨e, rfl, rfl, rfl⟩
    · exact .inr (.inr ⟨o, isClose, rfl, h⟩)
    · refine .inr (.inl ⟨d, o, isClose, rfl, ?_⟩)
      obtain ⟨_, rfl, hf⟩ | ⟨enc, rfl, hf⟩ := sendPacket_cases P l h
      · exact ⟨hf, .inl rfl⟩
      · simp only [Bool.false_eq_true, if_false, Int.add_zero] at hf
        exact ⟨hf, .inr ⟨_, enc, rfl⟩⟩

/-- `Flush` touches neither keys nor streams nor the marks of the receive side. -/
theorem flush_fields {k now : Nat} {w : WriteResult} {out : List Outgoing} {r : FlushResult}
    (h : c.flush P l k now w = some (c', out, r)) :
    ∃ snd rcv inFlight init sn epoch next m, c' = { c with
      snd := snd
      rcv := rcv
      dataInFlight := inFlight
      isInitSentOnSnd := init
      snCrypto := sn
      epochCryptoSnd := epoch
      nextWriteTime := next
      measurements := m } := by
  obtain ⟨⟨i, s, e, n, rfl⟩, _⟩ | ⟨_, snd, res, _, hcase⟩ := flush_cases P l h
  · exact ⟨_, _, _, _, _, _, _, _, rfl⟩
  obtain ⟨e, _, rfl, _⟩ | ⟨d, o, isClose, _, ⟨i, s, e, n, rfl⟩, _⟩ | ⟨o, isClose, _, hsend⟩ := hcase
  · exact ⟨_, _, _, _, _, _, _, _, rfl⟩
  · exact ⟨_, _, _, _, _, _, _, _, rfl⟩
  obtain ⟨⟨i, s, e, n, rfl⟩, _⟩ | ⟨snd', pkt, _, hcase⟩ := flushSend_cases P l hsend
  · exact ⟨_, _, _, _, _, _, _, _, rfl⟩
  obtain ⟨_, ⟨i, s, e, n, rfl⟩, _⟩ | ⟨d, o, isClose, _, ⟨_, _, ⟨i, s, e, n, rfl⟩⟩ | ⟨enc, _, ⟨i, s, e, n, rfl⟩⟩⟩ := hcase
  · exact ⟨_, _, _, _, _, _, _, _, rfl⟩
  · exact ⟨_, _, _, _, _, _, _, _, rfl⟩
  · exact ⟨_, _, _, _, _, _, _, _, rfl⟩

theorem stream_frame (c : Conn Prv Pub) (k : Nat) :
    (c.stream k).1 = { c with streams := (c.stream k).1.streams } := by
  unfold stream
  split <;> rfl

/-- The id of the stream that `Conn.Stream` returns for a key: the key itself, unless the id was overwritten. -/
def storedID (c : Conn Prv Pub) (key : Nat) : Nat := (c.stream key).2.streamID

/-- Behind the lookup the table holds the stream that was returned. -/
theorem stream_get? (c : Conn Prv Pub) (k : Nat) : (c.stream k).1.streams.get? k = some (c.stream k).2 := by
  unfold stream
  cases hg : c.streams.get? k with
  | some s => exact hg
  | none =>
    dsimp only
    rw [InsertionMap.get?_put, if_pos rfl]

theorem markClosed_stream (c : Conn Prv Pub) (k now : Nat) : markClosed (c.stream k).1.streams k now =
    (c.stream k).1.streams.put k ⟨c.storedID k, now⟩ := by
  unfold markClosed
  rw [stream_get?]
  rfl

theorem applyAck_frame (c : Conn Prv Pub) (key k : Nat) (a : Ack) (rawLen now : Nat) :
    ∃ m, c.applyAck key k a rawLen now = { c with
      snd := c.snd.afterAck (some a)
      dataInFlight := c.dataInFlight - if c.snd.ackHits (some a) then (rawLen : Int) else 0
      streams := if c.snd.ackCloses k (some a) then markClosed c.streams key now else c.streams
      rcvWndSize := a.rcvWnd
      measurements := m } := by
  unfold applyAck SendBuffer.ackCloses SendBuffer.ackHits SendBuffer.afterAck
  rcases hr : c.snd.acknowledgeRange a with ⟨snd, st, sent⟩
  refine ⟨if st = .dup then c.measurements.onDuplicateAck else c.measurements, ?_⟩
  cases st <;> cases hc : snd.fullyAcked k <;> simp [checkStreamFullyAcked_eq, hr, hc, setClosedAt]

theorem decodeAck_frame {key k rawLen now : Nat} {ack : Option Ack}
    (h : c.decodeAck key k ack rawLen now = some c') :
    ∃ m, c' = { c with
      snd := c.snd.afterAck ack
      dataInFlight := c.dataInFlight - if c.snd.ackHits ack then (rawLen : Int) else 0
      streams := if c.snd.ackCloses k ack then markClosed c.streams key now else c.streams
      rcvWndSize := ack.elim c.rcvWndSize Ack.rcvWnd
      measurements := m } := by
  cases ack with
  | none =>
    cases h
    refine ⟨c.measurements, ?_⟩
    simp [SendBuffer.afterAck, SendBuffer.ackHits, SendBuffer.ackCloses]
  | some a =>
    obtain ⟨m, hm⟩ := applyAck_frame c key k a rawLen now
    unfold decodeAck at h
    dsimp only at h
    rw [hm] at h
    by_cases hq : now > (c.snd.acknowledgeRange a).2.2 ∧ (c.snd.acknowledgeRange a).2.1 = .ok
    · rw [if_pos hq] at h
      obtain ⟨m', _, hc⟩ := Option.map_eq_some_iff.mp h
      exact ⟨m', hc.symm⟩
    · rw [if_neg hq] at h
      exact ⟨m, (Option.some.inj h).symm⟩

/-- The receive buffer behind the data of a packet for stream `k`. -/
def Received (rcv : ReceiveBuffer) (k : Nat) (p : PayloadHeader) (u : Option Bytes) (now : Nat)
    (rcv' : ReceiveBuffer) : Prop :=
  (∃ d st, u = some d ∧ d ≠ [] ∧ rcv.insert k p.streamOffset now d = some (rcv', st)) ∨
  ((u = some [] ∨ (u = none ∧ p.isClose = true)) ∧ rcv' = (rcv.emptyInsert k p.streamOffset).1) ∨
  (u = none ∧ p.isClose = false ∧ rcv' = rcv)

theorem decodeData_frame {k : Nat} {p : PayloadHeader} {u : Option Bytes} {now : Nat}
    (h : c.decodeData k p u now = some c') :
    ∃ rcv, Received c.rcv k p u now rcv ∧ c' = { c with rcv := rcv } := by
  rcases u with _ | _ | ⟨b, bs⟩
  · cases hc : p.isClose <;> simp only [decodeData, hc, Bool.false_eq_true, if_false, if_true,
      Option.some.injEq] at h
    · exact ⟨c.rcv, .inr (.inr ⟨rfl, hc, rfl⟩), h.symm⟩
    · exact ⟨_, .inr (.inl ⟨.inr ⟨rfl, hc⟩, rfl⟩), h.symm⟩
  · exact ⟨_, .inr (.inl ⟨.inl rfl, rfl⟩), (Option.some.inj h).symm⟩
  · obtain ⟨⟨rcv, st⟩, hr, hc⟩ := Option.map_eq_some_iff.mp h
    exact ⟨rcv, .inl ⟨b :: bs, st, rfl, nofun, hr⟩, hc.symm⟩

/-- What `decode` leaves of a packet in the buffers, the stream table and the counter
of bytes in flight; `k` is the id of the stream that the header's key names. -/
structure DecodeEffect (c : Conn Prv Pub) (k : Nat) (p : PayloadHeader) (u : Option Bytes) (rawLen now : Nat)
    (c' : Conn Prv Pub) : Prop where
  snd : c'.snd = if p.isClose then (c.snd.afterAck p.ack).close k else c.snd.afterAck p.ack
  dataInFlight : c'.dataInFlight = c.dataInFlight - if c.snd.ackHits p.ack then (rawLen : Int) else 0
  streams : c'.streams = if c.snd.ackCloses k p.ack
    then (c.stream p.streamID).1.streams.put p.streamID ⟨k, now⟩
    else (c.stream p.streamID).1.streams
  rcv : ∃ rcv, Received c.rcv k p u now rcv ∧
    c'.rcv = if p.isClose then rcv.close k p.streamOffset else rcv

/-- The three parts of `decode`, on the stream that the table holds under the header's key. -/
theorem decode_parts {p : PayloadHeader} {u : Option Bytes} {rawLen now : Nat}
    (h : c.decode p u rawLen now = some c') :
    ∃ m rcv, Received c.rcv (c.storedID p.streamID) p u now rcv ∧
      c' = decodeClose { c with
        snd := c.snd.afterAck p.ack
        dataInFlight := c.dataInFlight - if c.snd.ackHits p.ack then (rawLen : Int) else 0
        streams := if c.snd.ackCloses (c.storedID p.streamID) p.ack
          then (c.stream p.streamID).1.streams.put p.streamID ⟨c.storedID p.streamID, now⟩
          else (c.stream p.streamID).1.streams
        rcvWndSize := p.ack.elim c.rcvWndSize Ack.rcvWnd
        measurements := m
        rcv := rcv } (c.storedID p.streamID) p := by
  obtain ⟨c₁, h₁, h⟩ := Option.bind_eq_some_iff.mp h
  obtain ⟨c₂, h₂, rfl⟩ := Option.map_eq_some_iff.mp h
  have hack : (c.stream p.streamID).1.decodeAck p.streamID (c.storedID p.streamID) p.ack rawLen now =
      some c₁ := h₁
  obtain ⟨m, rfl⟩ := decodeAck_frame hack
  obtain ⟨rcv, hrcv, rfl⟩ := decodeData_frame h₂
  rw [markClosed_stream] at hrcv ⊢
  rw [stream_frame c p.streamID] at hrcv ⊢
  exact ⟨m, rcv, hrcv, rfl⟩

/-- `decode` touches neither keys nor handshake marks. -/
theorem decode_frame {p : PayloadHeader} {u : Option Bytes} {rawLen now : Nat}
    (h : c.decode p u rawLen now = some c') :
    ∃ streams snd rcv inFlight wnd m, c' = { c with
      streams := streams
      snd := snd
      rcv := rcv
      dataInFlight := inFlight
      rcvWndSize := wnd
      measurements := m } := by
  obtain ⟨m, rcv, _, rfl⟩ := decode_parts h
  by_cases hc : p.isClose = true
  · rw [decodeClose, if_pos hc]
    exact ⟨_, _, _, _, _, _, rfl⟩
  · rw [decodeClose, if_neg hc]
    exact ⟨_, _, _, _, _, _, rfl⟩

/-- The peer's window is the one of its last ack. -/
theorem decode_window {p : PayloadHeader} {u : Option Bytes} {rawLen now : Nat}
    (h : c.decode p u rawLen now = some c') : c'.rcvWndSize = p.ack.elim c.rcvWndSize Ack.rcvWnd := by
  obtain ⟨m, rcv, _, rfl⟩ := decode_parts h
  by_cases hc : p.isClose = true
  · rw [decodeClose, if_pos hc]
  · rw [decodeClose, if_neg hc]

theorem decode_effect {p : PayloadHeader} {u : Option Bytes} {rawLen now : Nat}
    (h : c.decode p u rawLen now = some c') :
    DecodeEffect c (c.storedID p.streamID) p u rawLen now c' := by
  obtain ⟨m, rcv, hrcv, rfl⟩ := decode_parts h
  cases hc : p.isClose
  · exact ⟨by simp [decodeClose, hc], by simp [decodeClose, hc], by simp [decodeClose, hc], rcv, hrcv,
      by simp [decodeClose, hc]⟩
  · exact ⟨by simp [decodeClose, hc], by simp [decodeClose, hc], by simp [decodeClose, hc], rcv, hrcv,
      by simp [decodeClose, hc]⟩

end Conn

end Qotp
