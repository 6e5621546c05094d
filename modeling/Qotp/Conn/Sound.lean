import Qotp.Conn.EndpointFrame
import Qotp.Crypto.OpenSealed

namespace Qotp

open Framework

variable {Prv Pub : Type}

namespace Measurements

variable {m : Measurements}

/-- The minimum is only ever replaced by a sample, and no sample is 0: `updateGain` divides. -/
theorem updateMeasurements_total (h : 0 < m.rttMinNano) (rtt bytes now : Nat) :
    ∃ m', m.updateMeasurements rtt bytes now = some m' ∧ 0 < m'.rttMinNano := by
  unfold updateMeasurements
  split_ifs with hskip
  · exact ⟨m, rfl, h⟩
  have hrtt : ((m.updateRtt rtt)).rttMinNano = m.rttMinNano := by
    unfold updateRtt
    dsimp only
    split_ifs <;> rfl
  have hmin : 0 < ((m.updateRtt rtt).updateRttMin rtt now).rttMinNano := by
    unfold updateRttMin
    split_ifs
    · exact Nat.pos_of_ne_zero fun h0 => hskip (.inl h0)
    · rw [hrtt]
      exact h
  generalize (m.updateRtt rtt).updateRttMin rtt now = m₁ at hmin
  have hprobe : ((m₁.updateBandwidth bytes).initProbeTime now).rttMinNano = m₁.rttMinNano := by
    unfold initProbeTime updateBandwidth
    dsimp only
    split_ifs <;> rfl
  rw [← hprobe] at hmin
  generalize (m₁.updateBandwidth bytes).initProbeTime now = m₂ at hmin
  unfold updateGain
  dsimp only
  split_ifs with h1 h2 h3
  · exact ⟨_, rfl, hmin⟩
  · exact ⟨_, rfl, hmin⟩
  · omega
  all_goals exact ⟨_, rfl, hmin⟩

end Measurements

namespace SendBuffer

variable {sb sb' : SendBuffer} {k now rto : Nat} {msgType : CryptoMsgType} {ack : Option Ack} {mtu : Int}

/-- The counter and the capacity stay. -/
def SameSize (sb sb' : SendBuffer) : Prop := sb'.size = sb.size ∧ sb'.capacity = sb.capacity

theorem sameSize_readyToSend {p : StreamBuffer.Packet} (h : sb.readyToSend k msgType ack mtu now = (sb', p)) :
    sb.SameSize sb' := by
  unfold readyToSend at h
  split at h <;> (cases h; exact ⟨rfl, rfl⟩)

theorem sameSize_readyToRetransmit {r : Except String StreamBuffer.Packet}
    (h : sb.readyToRetransmit k ack mtu rto msgType now = some (sb', r)) : sb.SameSize sb' := by
  unfold readyToRetransmit at h
  split at h
  · cases h
    exact ⟨rfl, rfl⟩
  · obtain ⟨x, _, hx⟩ := Option.map_eq_some_iff.mp h
    cases hx
    exact ⟨rfl, rfl⟩

theorem afterAck_size (sb : SendBuffer) (ack : Option Ack) :
    (sb.afterAck ack).size ≤ sb.size ∧ (sb.afterAck ack).capacity = sb.capacity := by
  cases ack with
  | none => exact ⟨le_rfl, rfl⟩
  | some a =>
    unfold afterAck acknowledgeRange
    dsimp only
    split
    · exact ⟨le_rfl, rfl⟩
    · split
      · exact ⟨le_rfl, rfl⟩
      · exact ⟨by dsimp only; omega, rfl⟩

/-- The oldest packet in flight is cut inside its range, if at all. -/
theorem readyToRetransmit_total {W : Bytes} {A : Nat → Prop} (h : (sb.stream k).Conserves W A)
    (hmtu : 119 ≤ mtu ∧ mtu ≤ 65535) (ack : Option Ack) (rto now : Nat) (msgType : CryptoMsgType) :
    ∃ r, sb.readyToRetransmit k ack mtu rto msgType now = some r := by
  unfold readyToRetransmit
  cases hg : sb.streams.get? k with
  | none => exact ⟨_, rfl⟩
  | some s =>
    rw [stream, hg, Option.getD_some] at h
    suffices hs : ∃ r, s.readyToRetransmit ack mtu rto msgType now = some r by
      obtain ⟨r, hr⟩ := hs
      dsimp only
      rw [hr]
      exact ⟨_, rfl⟩
    unfold StreamBuffer.readyToRetransmit
    cases hf : s.dataInFlightMap.first with
    | none => exact ⟨_, rfl⟩
    | some e =>
      obtain ⟨key, info⟩ := e
      have hlen : PacketKey.length key = info.data.length := h.keyed _ (InsertionMap.first_mem hf)
      have hlt := packetKey_length_lt key
      obtain ⟨h0, h1⟩ := StreamBuffer.mtuFits_of_range hmtu msgType ack (PacketKey.offset key)
      dsimp only
      cases backoff rto info.sentNr with
      | error e => exact ⟨_, rfl⟩
      | ok limit =>
        dsimp only
        split_ifs with hwait hping hfits hneg
        · exact ⟨_, rfl⟩
        · exact ⟨_, rfl⟩
        · exact ⟨_, rfl⟩
        · omega
        · have hcut : (maxDataFor msgType ack mtu (PacketKey.offset key)).toNat ≤ info.data.length := by
            obtain ⟨n, hn⟩ := Int.eq_ofNat_of_zero_le h0
            rw [hn] at hfits h1 ⊢
            have hn16 : toUint16 (n : Int) = n := by
              unfold toUint16
              omega
            rw [hn16] at hfits
            simp only [Int.toNat_natCast]
            omega
          rw [sliceTo?_of_le hcut, sliceFrom?_of_le hcut]
          exact ⟨_, rfl⟩

end SendBuffer

theorem chainedEncrypt_total {P : Primitives Prv Pub} (hP : P.Correct) {data : Bytes} (hd : 8 ≤ data.length) (sn e : Nat)
    (isSender : Bool) (key header : Bytes) : ∃ r, chainedEncrypt P sn e isSender key header data = some r := by
  by_cases hk : key.length = 32
  · exact ⟨_, chainedEncrypt_eq hP hk hd⟩
  · have hkey : checkKey key = .error "bad key length" := if_neg hk
    unfold chainedEncrypt
    rw [hkey]
    exact ⟨_, rfl⟩

namespace Conn

variable {P : Primitives Prv Pub} {l : ListenerCfg Prv} {c c' : Conn Prv Pub} {k now : Nat}

/-- What no call may find otherwise: a counter beyond the capacity ends `queueData`, a minimum of
0 ends `updateMeasurements`. -/
structure Sound (c : Conn Prv Pub) : Prop where
  room : c.snd.size ≤ c.snd.capacity
  rttMin : 0 < c.measurements.rttMinNano

theorem Sound.congr (h : c.Sound) (hs : c'.snd = c.snd) (hm : c'.measurements = c.measurements) : c'.Sound :=
  ⟨hs ▸ h.room, hm ▸ h.rttMin⟩

/-- A call works on the send buffer within its capacity, and on nothing that is measured. -/
theorem Sound.sameSize (h : c.Sound) (hs : c.snd.SameSize c'.snd) (hm : c'.measurements = c.measurements) : c'.Sound :=
  ⟨by rw [hs.1, hs.2]; exact h.room, hm ▸ h.rttMin⟩

section Write

theorem write_total (h : c.Sound) (s : Stream) (d : Bytes) (wake : WriteResult) :
    ∃ c' n err, c.write s d wake = some (c', n, err) ∧ c'.Sound := by
  unfold write
  split_ifs with hclosed hempty
  · exact ⟨c, 0, _, rfl, h⟩
  · exact ⟨c, 0, _, rfl, h⟩
  · obtain ⟨snd, st, hq, hcap, hsize, _⟩ := SendBuffer.queueData_eq h.room s.streamID d
    have hroom := h.room
    have hs : ({ c with snd := snd } : Conn Prv Pub).Sound := ⟨by dsimp only; omega, h.rttMin⟩
    rw [hq]
    dsimp only [Option.bind_eq_bind, Option.bind_some]
    split_ifs
    · exact ⟨_, _, _, rfl, hs⟩
    · cases wake with
      | error e => exact ⟨_, _, _, rfl, hs⟩
      | ok u => exact ⟨_, _, _, rfl, hs⟩

end Write

section Decode

theorem applyAck_sound (h : c.Sound) (key k : Nat) (a : Ack) (rawLen now : Nat) :
    (c.applyAck key k a rawLen now).Sound := by
  have hroom := h.room
  have hsize := c.snd.afterAck_size (some a)
  have hmin : 0 < (c.applyAck key k a rawLen now).measurements.rttMinNano := by
    unfold applyAck
    dsimp only
    generalize c.snd.acknowledgeRange a = r
    obtain ⟨snd, st, t⟩ := r
    dsimp only
    cases st <;> dsimp only <;> split_ifs <;> exact h.rttMin
  obtain ⟨m, hm⟩ := applyAck_frame c key k a rawLen now
  refine ⟨?_, hmin⟩
  rw [hm]
  dsimp only
  omega

theorem decodeAck_total (h : c.Sound) (key k : Nat) (ack : Option Ack) (rawLen now : Nat) :
    ∃ c', c.decodeAck key k ack rawLen now = some c' ∧ c'.Sound := by
  unfold decodeAck
  cases ack with
  | none => exact ⟨c, rfl, h⟩
  | some a =>
    dsimp only
    have ha := applyAck_sound h key k a rawLen now
    split_ifs
    · obtain ⟨m, hm, hpos⟩ := Measurements.updateMeasurements_total ha.rttMin
        (sub64 now (c.snd.acknowledgeRange a).2.2) a.len now
      rw [hm]
      exact ⟨_, rfl, ha.room, hpos⟩
    · exact ⟨_, rfl, ha⟩

/-- A packet is processed if its data can be stored. -/
theorem decode_total (h : c.Sound) (p : PayloadHeader) (u : Option Bytes) (rawLen now : Nat)
    (hins : c.rcv.Stores u →
      ∃ r, (c.rcv.stream (c.storedID p.streamID)).insert p.streamOffset now (u.getD []) = some r) :
    ∃ c', c.decode p u rawLen now = some c' ∧ c'.Sound := by
  have hstr : (c.stream p.streamID).1.Sound := by
    rw [stream_frame]
    exact h.congr rfl rfl
  obtain ⟨c₁, hc₁, hs₁⟩ := decodeAck_total hstr p.streamID (c.storedID p.streamID) p.ack rawLen now
  have hrcv : c₁.rcv = c.rcv := by
    obtain ⟨m, hm⟩ := decodeAck_frame hc₁
    rw [hm, stream_frame]
  have hclose : ∀ {c : Conn Prv Pub}, c.Sound → ∀ k, (c.decodeClose k p).Sound := by
    intro c hc k
    unfold decodeClose
    split_ifs
    · exact ⟨hc.room, hc.rttMin⟩
    · exact hc
  obtain ⟨c₂, hc₂, hs₂⟩ : ∃ c₂, c₁.decodeData (c.storedID p.streamID) p u now = some c₂ ∧ c₂.Sound := by
    unfold decodeData
    split
    · next b bs =>
      have hroom : ∃ r, c₁.rcv.insert (c.storedID p.streamID) p.streamOffset now (b :: bs) = some r := by
        refine ReceiveBuffer.insert_eq_some fun hcap => ?_
        rw [hrcv] at hcap ⊢
        exact hins ⟨List.cons_ne_nil b bs, hcap⟩
      obtain ⟨r, hr⟩ := hroom
      rw [hr]
      exact ⟨_, rfl, hs₁.congr rfl rfl⟩
    · exact ⟨_, rfl, hs₁.congr rfl rfl⟩
    · split_ifs
      · exact ⟨_, rfl, hs₁.congr rfl rfl⟩
      · exact ⟨_, rfl, hs₁⟩
  refine ⟨_, ?_, hclose hs₂ (c.storedID p.streamID)⟩
  change ((c.stream p.streamID).1.decodeAck p.streamID (c.storedID p.streamID) p.ack rawLen now).bind _ = _
  rw [hc₁, Option.bind_some]
  change (c₁.decodeData (c.storedID p.streamID) p u now).map _ = _
  rw [hc₂]
  rfl

end Decode

section Flush

/-- The keys that the next datagram is sealed with are there. -/
def HoldsKeys (c : Conn Prv Pub) : Prop :=
  match c.msgType with
  | .initCryptoSnd => c.pubKeyIdRcv ≠ none
  | .initRcv | .initCryptoRcv => c.pubKeyEpRcv ≠ none
  | .data => c.sharedSecret ≠ none
  | .initSnd | .unknown _ => True

theorem encode_total (hP : P.Correct) (hmtu : 33 ≤ l.mtu) (h : c.HoldsKeys) (p : PayloadHeader) (u : Option Bytes) :
    ∃ r, c.encode P l p u c.msgType = some r := by
  have hlen := encodePayload_length_ge p u
  have hsealed : ∀ sn e isSender key header, ∃ r,
      chainedEncrypt P sn e isSender key header (encodePayload p u).1 = some r := chainedEncrypt_total hP hlen
  unfold HoldsKeys at h
  unfold encode
  cases hm : c.msgType with
  | initSnd =>
    have hconn : ∃ n, uint64 ((([headerByte .initSnd] ++ P.bytes (P.publicKey c.prvKeyEpSnd) ++ P.bytes (P.publicKey l.prvKeyId) ++
        List.replicate l.mtu.toNat 0).take l.mtu.toNat).drop headerSize) = some n := by
      have hlong : 8 ≤ ((([headerByte .initSnd] ++ P.bytes (P.publicKey c.prvKeyEpSnd) ++
          P.bytes (P.publicKey l.prvKeyId) ++ List.replicate l.mtu.toNat 0).take l.mtu.toNat).drop headerSize).length := by
        simp [P.bytes_length, headerSize]
        omega
      exact ⟨_, if_pos hlong⟩
    obtain ⟨n, hn⟩ := hconn
    dsimp only [encryptInitSnd]
    rw [if_neg (by omega), hn]
    exact ⟨_, rfl⟩
  | initCryptoSnd =>
    rw [hm] at h
    obtain ⟨idKey, hid⟩ := Option.ne_none_iff_exists'.mp h
    dsimp only [encryptInitCryptoSnd]
    rw [hid]
    dsimp only [Option.bind_eq_bind, Option.bind_some]
    split_ifs
    · exact ⟨_, rfl⟩
    · cases P.ecdh c.prvKeyEpSnd idKey with
      | error e => exact ⟨_, rfl⟩
      | ok key =>
        dsimp only
        have hlong : 8 ≤ (paddedText l.mtu (encodePayload p u).1).length := by
          rw [paddedText]
          simp only [List.length_append]
          omega
        obtain ⟨r, hr⟩ := chainedEncrypt_total hP hlong c.snCrypto 0 true key
          (initCryptoSndHeader P (P.publicKey c.prvKeyEpSnd) (P.publicKey l.prvKeyId))
        rw [paddedText, initCryptoSndHeader] at hr
        have hconn : uint64 (([headerByte .initCryptoSnd] ++ P.bytes (P.publicKey c.prvKeyEpSnd) ++
            P.bytes (P.publicKey l.prvKeyId)).drop headerSize) = some (keyConnId P (P.publicKey c.prvKeyEpSnd)) :=
          uint64_bytes _ _
        rw [hr, hconn]
        exact ⟨_, rfl⟩
  | initRcv =>
    rw [hm] at h
    obtain ⟨ep, hep⟩ := Option.ne_none_iff_exists'.mp h
    dsimp only [encryptInitRcv]
    rw [hep]
    dsimp only [Option.bind_eq_bind, Option.bind_some]
    cases P.ecdh c.prvKeyEpSnd ep with
    | error e => exact ⟨_, rfl⟩
    | ok key =>
      obtain ⟨r, hr⟩ := hsealed c.snCrypto 0 false key
        ([headerByte .initRcv] ++ putUint64 c.connId ++ P.bytes (P.publicKey c.prvKeyEpSnd) ++ P.bytes (P.publicKey l.prvKeyId))
      dsimp only
      rw [hr]
      exact ⟨_, rfl⟩
  | initCryptoRcv =>
    rw [hm] at h
    obtain ⟨ep, hep⟩ := Option.ne_none_iff_exists'.mp h
    dsimp only [encryptInitCryptoRcv]
    rw [hep]
    dsimp only [Option.bind_eq_bind, Option.bind_some]
    cases P.ecdh c.prvKeyEpSnd ep with
    | error e => exact ⟨_, rfl⟩
    | ok key =>
      obtain ⟨r, hr⟩ := hsealed c.snCrypto 0 false key
        ([headerByte .initCryptoRcv] ++ putUint64 c.connId ++ P.bytes (P.publicKey c.prvKeyEpSnd))
      dsimp only
      rw [hr]
      exact ⟨_, rfl⟩
  | data =>
    rw [hm] at h
    obtain ⟨key, hkey⟩ := Option.ne_none_iff_exists'.mp h
    obtain ⟨r, hr⟩ := hsealed c.snCrypto c.epochCryptoSnd c.isSenderOnInit key (dataHeader c.connId)
    dsimp only [encryptData]
    rw [hkey]
    dsimp only [Option.bind_eq_bind, Option.bind_some]
    rw [hr]
    exact ⟨_, rfl⟩
  | unknown n => exact ⟨_, rfl⟩

variable (hP : P.Correct) (hmtu : 119 ≤ l.mtu ∧ l.mtu ≤ 65535)

include hP hmtu

theorem writeAck_total (h : c.HoldsKeys) (k : Nat) (ack : Option Ack) (now : Nat) (w : WriteResult) :
    ∃ r, c.writeAck P l k ack now w = some r := by
  obtain ⟨⟨c₁, res⟩, hr⟩ := encode_total hP (by omega : 33 ≤ l.mtu) h
    { isClose := c.checkStreamFullyAcked k, ack := ack, streamID := k } none
  unfold writeAck
  dsimp only
  rw [hr]
  dsimp only [Option.bind_eq_bind, Option.bind_some]
  cases res with
  | error e => exact ⟨_, rfl⟩
  | ok enc => cases w <;> exact ⟨_, rfl⟩

theorem sendPacket_total (h : c.HoldsKeys) (k : Nat) (ack : Option Ack) (d : Bytes) (o : Nat) (isClose : Bool) (now : Nat)
    (track : Bool) (w : WriteResult) : ∃ r, c.sendPacket P l k ack d o isClose c.msgType now track w = some r := by
  obtain ⟨⟨c₁, res⟩, hr⟩ := encode_total hP (by omega : 33 ≤ l.mtu) h ⟨isClose, ack, k, o⟩ (some d)
  unfold sendPacket
  dsimp only
  rw [hr]
  dsimp only [Option.bind_eq_bind, Option.bind_some]
  cases res with
  | error e => exact ⟨_, rfl⟩
  | ok enc => cases w <;> exact ⟨_, rfl⟩

theorem flushSend_total (h : c.HoldsKeys) (k : Nat) (ack : Option Ack) (now : Nat) (w : WriteResult) :
    ∃ r, c.flushSend P l k ack now w = some r := by
  unfold flushSend
  dsimp only
  by_cases hfirst : (c.isHandshakeDoneOnRcv || !c.isInitSentOnSnd) = true
  · rw [if_pos hfirst]
    generalize c.snd.readyToSend k c.msgType ack l.mtu now = r
    obtain ⟨snd, d, o, isClose⟩ := r
    have h' : ({ c with snd := snd } : Conn Prv Pub).HoldsKeys := h
    cases d with
    | some d => exact sendPacket_total hP hmtu h' k ack d o isClose now true w
    | none =>
      dsimp only
      split_ifs
      · exact writeAck_total hP hmtu h' k ack now w
      · exact ⟨_, rfl⟩
  · rw [if_neg hfirst]
    split_ifs
    · exact writeAck_total hP hmtu h k ack now w
    · exact ⟨_, rfl⟩

theorem flush_total {W : Bytes} {A : Nat → Prop} (h : c.HoldsKeys) (hc : (c.snd.stream k).Conserves W A) (now : Nat)
    (w : WriteResult) : ∃ r, c.flush P l k now w = some r := by
  have hack : c.takeAck.1.HoldsKeys := h
  unfold flush
  dsimp only
  split_ifs
  · exact ⟨_, rfl⟩
  · exact writeAck_total hP hmtu hack k _ now w
  · exact ⟨_, rfl⟩
  · obtain ⟨⟨snd, res⟩, hr⟩ := SendBuffer.readyToRetransmit_total hc hmtu c.takeAck.2 c.measurements.rtoNano now c.msgType
    change ∃ r, (c.snd.readyToRetransmit k c.takeAck.2 l.mtu c.measurements.rtoNano c.msgType now).bind _ = some r
    rw [hr]
    dsimp only [Option.bind_some]
    rcases res with e | ⟨d, o, isClose⟩
    · exact ⟨_, rfl⟩
    · cases d with
      | some d =>
        have h' : ({ c.takeAck.1 with snd := snd, measurements := c.measurements.onPacketLoss } : Conn Prv Pub).HoldsKeys := h
        exact sendPacket_total hP hmtu h' k _ d o isClose now false w
      | none =>
        have h' : ({ c.takeAck.1 with snd := snd } : Conn Prv Pub).HoldsKeys := h
        exact flushSend_total hP hmtu h' k _ now w

omit hP hmtu in
theorem flush_sound (h : c.Sound) {w : WriteResult} {out : List Outgoing} {r : FlushResult}
    (hf : c.flush P l k now w = some (c', out, r)) : c'.Sound := by
  obtain ⟨⟨i, s, e, n, rfl⟩, _⟩ | ⟨_, snd, res, hr, hcase⟩ := flush_cases P l hf
  · exact h.congr rfl rfl
  have hsize := SendBuffer.sameSize_readyToRetransmit hr
  obtain ⟨e, _, rfl, _⟩ | ⟨d, o, isClose, _, ⟨i, s, e, n, rfl⟩, _⟩ | ⟨o, isClose, _, hsend⟩ := hcase
  · exact h.sameSize hsize rfl
  · have hs : ({ c with snd := snd } : Conn Prv Pub).Sound := h.sameSize hsize rfl
    exact ⟨hs.room, h.rttMin⟩
  have hs : ({ c.takeAck.1 with snd := snd } : Conn Prv Pub).Sound := h.sameSize hsize rfl
  obtain ⟨⟨i, s, e, n, rfl⟩, _⟩ | ⟨snd', pkt, hr', hcase⟩ := flushSend_cases P l hsend
  · exact hs.congr rfl rfl
  have hs' : ({ c.takeAck.1 with snd := snd' } : Conn Prv Pub).Sound := hs.sameSize (SendBuffer.sameSize_readyToSend hr') rfl
  obtain ⟨_, ⟨i, s, e, n, rfl⟩, _⟩ | ⟨d, o, isClose, _, hfirst⟩ := hcase
  · exact hs'.congr rfl rfl
  obtain ⟨_, _, i, s, e, n, rfl⟩ | ⟨enc, _, i, s, e, n, rfl⟩ := hfirst
  · exact hs'.congr rfl rfl
  · exact hs'.congr rfl rfl

end Flush

end Conn

namespace Endpoint

variable {P : Primitives Prv Pub} {l : ListenerCfg Prv} {e : Endpoint Prv Pub}

/-- No call of an application panics. -/
theorem step_total (hP : P.Correct) (hmtu : 119 ≤ l.mtu ∧ l.mtu ≤ 65535) {W : Nat → Bytes} {A : Nat → Nat → Prop}
    (hc : ∀ k, (e.conn.snd.stream k).Conserves (W k) (A k)) (hkeys : e.conn.HoldsKeys) (h : e.conn.Sound)
    {op : ConnOp Prv Pub} (hop : op.isLocal = true) :
    ∃ e', e.step P l op = some e' ∧ e'.conn.Sound := by
  have hstr : ∀ k, (e.conn.stream k).1.Sound := fun k => by
    rw [Conn.stream_frame]
    exact h.congr rfl rfl
  cases op with
  | write k d wake =>
    obtain ⟨c', n, err, hw, hs⟩ := Conn.write_total (hstr k) (e.conn.stream k).2 d wake
    refine ⟨_, Option.map_eq_some_iff.mpr ⟨_, hw, rfl⟩, hs⟩
  | read k =>
    refine ⟨_, rfl, ?_⟩
    change ((e.conn.stream k).1.read k (e.conn.stream k).2).1.Sound
    unfold Conn.read
    dsimp only
    split_ifs <;> exact (hstr k).congr rfl rfl
  | ping k => exact ⟨_, rfl, ⟨(hstr k).room, (hstr k).rttMin⟩⟩
  | close k => exact ⟨_, rfl, ⟨(hstr k).room, (hstr k).rttMin⟩⟩
  | flush k now w =>
    obtain ⟨⟨c', out, r⟩, hf⟩ := Conn.flush_total hP hmtu hkeys (hc k) now w
    refine ⟨_, Option.map_eq_some_iff.mpr ⟨_, hf, rfl⟩, Conn.flush_sound h hf⟩
  | cleanup k => exact ⟨_, rfl, h.congr rfl rfl⟩
  | decode p u rawLen now => cases hop
  | handshake c => cases hop

end Endpoint

end Qotp
