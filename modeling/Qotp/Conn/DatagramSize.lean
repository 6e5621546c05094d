import Qotp.Conn.Datagrams
import Qotp.Buffer.SendClose
import Qotp.Buffer.SendRun

namespace Qotp

open Framework

variable {Prv Pub : Type} {P : Primitives Prv Pub}

/-- The overhead of the payload, as the sender predicts it. -/
def payloadOverhead (ack : Option Ack) (offset : Nat) : Nat :=
  calcProtoOverhead ack.isSome
    ((match ack with | some a => decide (a.offset > 0xFFFFFF) | none => false) || decide (offset > 0xFFFFFF)) false

/-- The prediction is what the encoder spends. -/
theorem encodePayload_length (p : PayloadHeader) (d : Bytes) :
    (encodePayload p (some d)).1.length = payloadOverhead p.ack p.streamOffset + d.length := by
  have honly : ackOnly p (some d) = false := by simp [ackOnly]
  have hext : needsExtend p = ((match p.ack with | some a => decide (a.offset > 0xFFFFFF) | none => false) ||
      decide (p.streamOffset > 0xFFFFFF)) := Bool.or_comm _ _
  rw [encodePayload_eq, List.length_append, List.length_append, ackPart_length, dataPart_length, honly, hext,
    List.length_singleton]
  unfold payloadOverhead calcProtoOverhead offsetSize
  split_ifs <;> simp_all <;> omega

namespace Conn

/-- The keys a message type is sealed with. -/
def HasKeys (P : Primitives Prv Pub) (c : Conn Prv Pub) : CryptoMsgType → Prop
  | .initRcv => ∃ ep key, c.pubKeyEpRcv = some ep ∧ P.ecdh c.prvKeyEpSnd ep = .ok key
  | .initCryptoRcv => ∃ ep key, c.pubKeyEpRcv = some ep ∧ P.ecdh c.prvKeyEpSnd ep = .ok key
  | .initCryptoSnd => ∃ id key, c.pubKeyIdRcv = some id ∧ P.ecdh c.prvKeyEpSnd id = .ok key
  | .data => ∃ key, c.sharedSecret = some key ∧ key.length = 32
  | _ => False

/-- The counters have not run out. -/
def SnLeft (c : Conn Prv Pub) : Prop := add64 c.snCrypto 1 ≤ 2 ^ 48 - 1 ∨ add64 c.epochCryptoSnd 1 ≤ 2 ^ 47 - 1

structure CanSeal (P : Primitives Prv Pub) (c : Conn Prv Pub) (msgType : CryptoMsgType) : Prop where
  keys : c.HasKeys P msgType
  sn : c.SnLeft

variable {l : ListenerCfg Prv} {c c' : Conn Prv Pub} {p : PayloadHeader} {d enc : Bytes} {msgType : CryptoMsgType}

theorem advanceSn_left (h : c.SnLeft) (x : Bytes) : ∃ c', c.advanceSn x = (c', .ok x) := by
  unfold SnLeft at h
  unfold advanceSn
  dsimp only
  split_ifs with h1 h2
  · omega
  · exact ⟨_, rfl⟩
  · exact ⟨_, rfl⟩

theorem finishInit_left (h : c.SnLeft) {r : Option (Except String Bytes)} {x : Bytes} (hr : r = some (.ok x)) :
    ∃ c', r.map c.finishInit = some (c', .ok x) := by
  obtain ⟨c', hc'⟩ := advanceSn_left (c := { c with isInitSentOnSnd := true }) h x
  rw [hr]
  exact ⟨c', congrArg some hc'⟩

theorem advanceSn_sealed (h : c.SnLeft) {r : Option (Except String Bytes)} {x : Bytes} (hr : r = some (.ok x)) :
    ∃ c', r.map (fun r => match r with
      | .error e => (c, .error e)
      | .ok encData => c.advanceSn encData) = some (c', .ok x) := by
  obtain ⟨c', hc'⟩ := advanceSn_left h x
  rw [hr]
  exact ⟨c', congrArg some hc'⟩

/-- A datagram is its data and the predicted overhead. -/
theorem encode_size (hP : P.Correct) (hc : c.CanSeal P msgType) (hm : msgType ≠ .initCryptoSnd) (p : PayloadHeader)
    (d : Bytes) : ∃ c' enc, c.encode P l p (some d) msgType = some (c', .ok enc) ∧
      (enc.length : Int) = calcCryptoOverheadWithData msgType p.ack p.streamOffset + d.length := by
  obtain ⟨hkeys, hsn⟩ := hc
  have hd := encodePayload_length_ge p (some d)
  have hlen := encodePayload_length p d
  cases msgType with
  | initSnd => exact absurd hkeys id
  | unknown n => exact absurd hkeys id
  | initCryptoSnd => exact absurd rfl hm
  | initRcv =>
    obtain ⟨ep, key, hep, hkey⟩ := hkeys
    obtain ⟨c', hc'⟩ := finishInit_left hsn (encryptInitRcv_eq hP hkey hd c.connId)
    rw [← hep] at hc'
    refine ⟨c', _, hc', ?_⟩
    rw [List.length_append, initRcvHeader_length, sealedBody_length hP (hP.ecdh_length _ _ _ hkey), hlen]
    show _ = (payloadOverhead p.ack p.streamOffset : Int) + 95 + d.length
    rw [footerDataSize, snSize, macSize]
    omega
  | initCryptoRcv =>
    obtain ⟨ep, key, hep, hkey⟩ := hkeys
    obtain ⟨c', hc'⟩ := finishInit_left hsn (encryptInitCryptoRcv_eq hP hkey hd c.connId)
    rw [← hep] at hc'
    refine ⟨c', _, hc', ?_⟩
    rw [List.length_append, initCryptoRcvHeader_length, sealedBody_length hP (hP.ecdh_length _ _ _ hkey), hlen]
    show _ = (payloadOverhead p.ack p.streamOffset : Int) + 63 + d.length
    rw [footerDataSize, snSize, macSize]
    omega
  | data =>
    obtain ⟨key, hkey, hk32⟩ := hkeys
    obtain ⟨c', hc'⟩ := advanceSn_sealed hsn (encryptData_eq hP hk32 hd c.connId c.epochCryptoSnd c.isSenderOnInit)
    rw [← hkey] at hc'
    refine ⟨c', _, hc', ?_⟩
    rw [List.length_append, dataHeader_length, sealedBody_length hP hk32, hlen]
    show _ = (payloadOverhead p.ack p.streamOffset : Int) + 31 + d.length
    rw [footerDataSize, snSize, macSize]
    omega

/-- An InitCryptoSnd message is filled up to the MTU. -/
theorem encode_filled (hP : P.Correct) (hc : c.CanSeal P .initCryptoSnd) (p : PayloadHeader) (d : Bytes)
    (hfit : d.length ≤ maxDataFor .initCryptoSnd p.ack l.mtu p.streamOffset) :
    ∃ c' enc, c.encode P l p (some d) .initCryptoSnd = some (c', .ok enc) ∧ (enc.length : Int) = l.mtu := by
  obtain ⟨⟨id, key, hid, hkey⟩, hsn⟩ := hc
  have hlen := encodePayload_length p d
  have hroom : maxDataFor .initCryptoSnd p.ack l.mtu p.streamOffset =
      l.mtu - ((payloadOverhead p.ack p.streamOffset : Int) + 89) := rfl
  have hpad : ((encodePayload p (some d)).1.length : Int) ≤ l.mtu - 89 := by omega
  have henc : encryptInitCryptoSnd P (some id) (P.publicKey l.prvKeyId) c.prvKeyEpSnd c.snCrypto l.mtu
      (encodePayload p (some d)).1 = _ := encryptInitCryptoSnd_eq hP hkey hpad (encodePayload_length_ge p (some d))
  obtain ⟨c', hc'⟩ := finishInit_left hsn (congrArg (Option.map (Except.map Prod.snd)) henc)
  rw [← hid, Option.map_map] at hc'
  refine ⟨c', _, hc', ?_⟩
  have hpadded := paddedText_length hpad
  dsimp only
  rw [List.length_append, initCryptoSndHeader_length, sealedBody_length hP (hP.ecdh_length _ _ _ hkey), footerDataSize,
    snSize, macSize]
  omega

theorem encode_tooLong (hc : c.CanSeal P .initCryptoSnd) (p : PayloadHeader) (d : Bytes)
    (hfit : maxDataFor .initCryptoSnd p.ack l.mtu p.streamOffset < d.length) :
    c.encode P l p (some d) .initCryptoSnd = some (c, .error "packet dataToSend cannot be larger than MTU") := by
  obtain ⟨⟨id, key, hid, hkey⟩, hsn⟩ := hc
  have hlen := encodePayload_length p d
  have hroom : maxDataFor .initCryptoSnd p.ack l.mtu p.streamOffset =
      l.mtu - ((payloadOverhead p.ack p.streamOffset : Int) + 89) := rfl
  have hfill : l.mtu - ((minInitCryptoSndSizeHdr + footerDataSize + msgInitFillLenSize +
      (encodePayload p (some d)).1.length : Nat) : Int) < 0 := by
    simp only [minInitCryptoSndSizeHdr, footerDataSize, msgInitFillLenSize, headerSize, pubKeySize, snSize, macSize]
    omega
  simp only [encode, encryptInitCryptoSnd, hid, Option.bind_eq_bind, Option.bind_some, if_pos hfill]
  rfl

/-- The data is sealed into a datagram within the MTU. -/
def Fits (P : Primitives Prv Pub) (l : ListenerCfg Prv) (c : Conn Prv Pub) (msgType : CryptoMsgType) (p : PayloadHeader)
    (d : Bytes) : Prop :=
  ∃ c' enc, c.encode P l p (some d) msgType = some (c', .ok enc) ∧ (enc.length : Int) ≤ l.mtu

theorem fits_iff (hP : P.Correct) (hc : c.CanSeal P msgType) (hm : msgType ≠ .initSnd) (p : PayloadHeader) (d : Bytes) :
    c.Fits P l msgType p d ↔ d.length ≤ maxDataFor msgType p.ack l.mtu p.streamOffset := by
  by_cases hsnd : msgType = .initCryptoSnd
  · subst hsnd
    constructor
    · rintro ⟨c', enc, henc, _⟩
      by_contra hlong
      rw [encode_tooLong hc p d (not_le.mp hlong)] at henc
      cases henc
    · intro hfit
      obtain ⟨c', enc, henc, hlen⟩ := encode_filled hP hc p d hfit
      exact ⟨c', enc, henc, hlen.le⟩
  · obtain ⟨c', enc, henc, hlen⟩ := encode_size hP hc hsnd p d (l := l)
    have hroom : maxDataFor msgType p.ack l.mtu p.streamOffset =
        l.mtu - calcCryptoOverheadWithData msgType p.ack p.streamOffset := if_pos hm
    constructor
    · rintro ⟨c'', enc', henc', hle⟩
      cases henc.symm.trans henc'
      omega
    · intro hfit
      exact ⟨c', enc, henc, by omega⟩

theorem snLeft_of_advanceSn {x : Bytes} (h : c.advanceSn x = (c', .ok enc)) : c.SnLeft := by
  unfold SnLeft
  unfold advanceSn at h
  dsimp only at h
  split_ifs at h with h1 h2
  · cases h
  · exact .inr (not_lt.mp h2)
  · exact .inl (not_lt.mp h1)

theorem snLeft_of_finishInit {r : Except String Bytes} (h : c.finishInit r = (c', .ok enc)) : c.SnLeft := by
  cases r with
  | error e => cases h
  | ok x => exact snLeft_of_advanceSn (c := { c with isInitSentOnSnd := true }) h

/-- No other connection gets a datagram. -/
theorem canSeal_of_encode {u : Option Bytes} (hm : msgType ≠ .initSnd)
    (h : c.encode P l p u msgType = some (c', .ok enc)) : c.CanSeal P msgType := by
  cases msgType with
  | initSnd => exact absurd rfl hm
  | unknown n => cases h
  | initRcv =>
    obtain ⟨r, hr, h⟩ := Option.map_eq_some_iff.mp h
    refine ⟨?_, snLeft_of_finishInit h⟩
    cases finishInit_enc h
    obtain ⟨ep, hep, hr⟩ := Option.bind_eq_some_iff.mp hr
    dsimp only at hr
    cases hk : P.ecdh c.prvKeyEpSnd ep with
    | error e => simp [hk] at hr
    | ok key => exact ⟨ep, key, hep, hk⟩
  | initCryptoRcv =>
    obtain ⟨r, hr, h⟩ := Option.map_eq_some_iff.mp h
    refine ⟨?_, snLeft_of_finishInit h⟩
    cases finishInit_enc h
    obtain ⟨ep, hep, hr⟩ := Option.bind_eq_some_iff.mp hr
    dsimp only at hr
    cases hk : P.ecdh c.prvKeyEpSnd ep with
    | error e => simp [hk] at hr
    | ok key => exact ⟨ep, key, hep, hk⟩
  | initCryptoSnd =>
    obtain ⟨r, hr, h⟩ := Option.map_eq_some_iff.mp h
    refine ⟨?_, snLeft_of_finishInit h⟩
    obtain ⟨id, hid, hr⟩ := Option.bind_eq_some_iff.mp hr
    dsimp only at hr
    split_ifs at hr with hfill
    · cases hr
      cases h
    cases hk : P.ecdh c.prvKeyEpSnd id with
    | error e =>
      simp only [hk] at hr
      cases hr
      cases h
    | ok key => exact ⟨id, key, hid, hk⟩
  | data =>
    obtain ⟨r, hr, h⟩ := Option.map_eq_some_iff.mp h
    cases r with
    | error e => cases h
    | ok x =>
      refine ⟨?_, snLeft_of_advanceSn h⟩
      obtain ⟨key, hkey, hr⟩ := Option.bind_eq_some_iff.mp hr
      unfold chainedEncrypt checkKey at hr
      by_cases hlen : key.length = 32
      · exact ⟨key, hkey, hlen⟩
      · simp [if_neg hlen] at hr

end Conn

namespace StreamBuffer

variable {s s' : StreamBuffer} {msgType : CryptoMsgType} {ack : Option Ack} {mtu : Int} {rto now : Nat}

/-- The room is negative: as a uint64 it is larger than any queue. -/
def SendsOversized (s : StreamBuffer) (msgType : CryptoMsgType) (ack : Option Ack) (mtu : Int) : Prop :=
  s.pingRequest = false ∧ s.queuedData ≠ [] ∧ maxDataFor msgType ack mtu s.bytesSentOffset < 0

/-- The entry does not fit, but the 16-bit comparison says it does. -/
def ResendsOversized (e : PacketKey × SendInfo) (msgType : CryptoMsgType) (ack : Option Ack) (mtu : Int) : Prop :=
  e.2.data ≠ [] ∧ maxDataFor msgType ack mtu (PacketKey.offset e.1) < e.2.data.length ∧
    e.2.data.length % 2 ^ 16 ≤ toUint16 (maxDataFor msgType ack mtu (PacketKey.offset e.1))

/-- No byte is handed out that does not fit behind the overhead. -/
def FitsBehind (msgType : CryptoMsgType) (ack : Option Ack) (mtu : Int) (d : Bytes) (o : Nat) : Prop :=
  (d ≠ [] → d.length ≤ maxDataFor msgType ack mtu o) ∧ (maxDataFor msgType ack mtu o ≤ 0 → d = [])

theorem fitsBehind_nil (o : Nat) : FitsBehind msgType ack mtu [] o := ⟨fun h => absurd rfl h, fun _ => rfl⟩

theorem fitsBehind_iff {d : Bytes} {o : Nat} (hd : d ≠ []) :
    FitsBehind msgType ack mtu d o ↔ d.length ≤ maxDataFor msgType ack mtu o := by
  have hpos := List.length_pos_of_ne_nil hd
  refine ⟨fun h => h.1 hd, fun h => ⟨fun _ => h, fun h0 => ?_⟩⟩
  omega

theorem maxDataFor_range (hm : msgType ≠ .initSnd) (ack : Option Ack) (hmtu : 0 ≤ mtu ∧ mtu < 2 ^ 63) (offset : Nat) :
    -119 ≤ maxDataFor msgType ack mtu offset ∧ maxDataFor msgType ack mtu offset < 2 ^ 63 := by
  have hover := calcCryptoOverhead_le ack offset hm
  unfold maxDataFor
  rw [if_pos hm]
  omega

theorem readyToSend_within (hm : msgType ≠ .initSnd) (hmtu : 0 ≤ mtu ∧ mtu < 2 ^ 63) (hb : s.bytesSentOffset < 2 ^ 48)
    {d : Bytes} {o : Nat} {isClose : Bool} (h : (s.readyToSend msgType ack mtu now).2 = (some d, o, isClose)) :
    FitsBehind msgType ack mtu d o ↔ ¬ s.SendsOversized msgType ack mtu := by
  obtain ⟨_, _, _, hr⟩ | ⟨hp, hr⟩ | ⟨_, hq, _, hr⟩ | ⟨hp, hq, hr⟩ := s.readyToSend_cases msgType ack mtu now
  · rw [hr] at h
    cases h
  · rw [hr] at h
    cases h
    refine iff_of_true (fitsBehind_nil 0) fun hover => ?_
    exact absurd (hp.symm.trans hover.1) (by decide)
  · rw [hr] at h
    cases h
    exact iff_of_true (fitsBehind_nil _) fun hover => hover.2.1 hq
  · rw [hr] at h
    cases h
    have hrange := maxDataFor_range hm ack hmtu s.bytesSentOffset
    have hqpos := List.length_pos_of_ne_nil hq
    have hlen : (s.queuedData.take (s.sendLength msgType ack mtu)).length =
        min (toUint64 (maxDataFor msgType ack mtu s.bytesSentOffset)) s.queuedData.length := by
      rw [List.length_take, sendLength, min_assoc, min_self]
    rw [createPacketKey_offset _ _ (Nat.mod_lt _ (by decide)), Nat.mod_eq_of_lt hb]
    unfold toUint64 at hlen
    by_cases hneg : maxDataFor msgType ack mtu s.bytesSentOffset < 0
    · -- 2^64 minus at most 119: the whole queue, or nearly 2^64 bytes of it
      refine iff_of_false (fun hw => ?_) (not_not.mpr ⟨hp, hq, hneg⟩)
      have hnil := congrArg List.length (hw.2 hneg.le)
      rw [hlen, List.length_nil] at hnil
      omega
    · refine iff_of_true ⟨fun _ => ?_, fun h0 => List.eq_nil_of_length_eq_zero ?_⟩ fun hover => hneg hover.2.2
      · omega
      · omega

theorem readyToRetransmit_within {d : Bytes} {o : Nat} {isClose : Bool}
    (h : s.readyToRetransmit ack mtu rto msgType now = some (s', .ok (some d, o, isClose))) :
    FitsBehind msgType ack mtu d o ↔ ∀ e, s.dataInFlightMap.first = some e → ¬ ResendsOversized e msgType ack mtu := by
  obtain ⟨_, hres⟩ | ⟨key, info, hf, hcase⟩ := readyToRetransmit_cases h
  · obtain hres | ⟨msg, hres⟩ := hres <;> cases hres
  rw [hf]
  simp only [Option.some.injEq, forall_eq']
  unfold ResendsOversized
  dsimp only
  obtain ⟨_, _, hres⟩ | ⟨_, hfit, _, hres⟩ | ⟨m, _, hmax, hlt, hle, _, hres⟩ := hcase
  · cases hres
  · cases hres
    by_cases hd : info.data = []
    · rw [hd]
      exact iff_of_true (fitsBehind_nil _) fun hover => hover.1 rfl
    · rw [fitsBehind_iff hd]
      constructor
      · intro hle hover
        exact absurd hover.2.1 (not_lt.mpr hle)
      · intro hno
        by_contra hlong
        exact hno ⟨hd, not_le.mp hlong, hfit⟩
  · cases hres
    have hlen : (info.data.take m).length = m := List.length_take_of_le hle
    refine iff_of_true ⟨fun _ => ?_, fun h0 => List.eq_nil_of_length_eq_zero ?_⟩ fun hover => ?_
    · rw [hlen, hmax]
    · omega
    · rw [hmax] at hover
      unfold toUint16 at hover
      omega

end StreamBuffer

namespace Conn

variable {l : ListenerCfg Prv} {c : Conn Prv Pub} {msgType : CryptoMsgType}

/-- For every state of the send buffer: what is handed out is sealed into a datagram within the MTU, and nothing is
handed out where no byte fits, except when the room is negative or, for an entry that is sent again, when the lengths
compare the other way in 16 bits. With one MTU from 119 to 65535 neither happens. -/
theorem handOut_fits_iff (hP : P.Correct) (hmtu : 0 ≤ l.mtu ∧ l.mtu < 2 ^ 63) (hm : msgType ≠ .initSnd)
    (hc : c.CanSeal P msgType) (snd : SendBuffer) (k : Nat) (ack : Option Ack) (rto now : Nat) :
    ((snd.stream k).bytesSentOffset < 2 ^ 48 → ∀ d o isClose,
      (snd.readyToSend k msgType ack l.mtu now).2 = (some d, o, isClose) →
      ((d ≠ [] → c.Fits P l msgType ⟨isClose, ack, k, o⟩ d) ∧ (maxDataFor msgType ack l.mtu o ≤ 0 → d = []) ↔
        ¬ (snd.stream k).SendsOversized msgType ack l.mtu)) ∧
    (∀ snd' d o isClose, snd.readyToRetransmit k ack l.mtu rto msgType now = some (snd', .ok (some d, o, isClose)) →
      ((d ≠ [] → c.Fits P l msgType ⟨isClose, ack, k, o⟩ d) ∧ (maxDataFor msgType ack l.mtu o ≤ 0 → d = []) ↔
        ∀ e, (snd.stream k).dataInFlightMap.first = some e → ¬ StreamBuffer.ResendsOversized e msgType ack l.mtu)) ∧
    (119 ≤ l.mtu → l.mtu ≤ 65535 → ∀ capacity ops s, Along SndRun.step SndRun.Admissible (SndRun.new capacity) ops →
      run SndRun.step (SndRun.new capacity) ops = some s → snd = s.snd →
      ¬ (snd.stream k).SendsOversized msgType ack l.mtu ∧
      ∀ e, (snd.stream k).dataInFlightMap.first = some e → ¬ StreamBuffer.ResendsOversized e msgType ack l.mtu) := by
  have hfits : ∀ d o isClose, (d ≠ [] → c.Fits P l msgType ⟨isClose, ack, k, o⟩ d) ∧
      (maxDataFor msgType ack l.mtu o ≤ 0 → d = []) ↔ StreamBuffer.FitsBehind msgType ack l.mtu d o := by
    intro d o isClose
    unfold StreamBuffer.FitsBehind
    rw [fits_iff hP hc hm]
  refine ⟨fun hb d o isClose h => ?_, fun snd' d o isClose h => ?_, fun hlow hhigh capacity ops s hadm hrun hs => ?_⟩
  · rw [(snd.readyToSend_stream k k msgType ack l.mtu now).2] at h
    rw [hfits]
    exact StreamBuffer.readyToSend_within hm hmtu hb h
  · obtain ⟨s', hs', _⟩ := SendBuffer.readyToRetransmit_stream h
    rw [hfits]
    exact StreamBuffer.readyToRetransmit_within hs'
  · subst hs
    have hconserves := (SndRun.run_keeps_inv (SndRun.inv_new capacity) hadm hrun).conserves k
    have hroom := StreamBuffer.mtuFits_of_range ⟨hlow, hhigh⟩ msgType ack
    refine ⟨fun hover => absurd hover.2.2 (not_lt.mpr (hroom _).1), fun e he hover => ?_⟩
    have hkeyed := hconserves.keyed e (InsertionMap.first_mem he)
    have hlt := packetKey_length_lt e.1
    have hfit := hroom (PacketKey.offset e.1)
    obtain ⟨_, hlong, hcmp⟩ := hover
    unfold StreamBuffer.MtuFits at hfit
    unfold toUint16 at hcmp
    omega

section Example

/-- A listener's connection before its InitRcv answer. -/
def answering : Conn {prv : UInt8 // prv ≠ 0} UInt8 :=
  { connId := 7, remoteAddr := 0, prvKeyEpSnd := ⟨17, by decide⟩, pubKeyEpRcv := some 5, pubKeyIdRcv := some 7,
    isSenderOnInit := false, isWithCryptoOnInit := false }

def answeringCfg (mtu : Int) : ListenerCfg {prv : UInt8 // prv ≠ 0} := ⟨⟨19, by decide⟩, mtu⟩

theorem answering_canSeal : answering.CanSeal plainHonest .initRcv :=
  ⟨⟨5, List.replicate 32 85, rfl, rfl⟩, .inl (by decide)⟩

/-- Ten bytes are in flight, twenty more are queued. -/
def tenSent : List SndOp :=
  [.queueData 0 (List.range 10 |>.map UInt8.ofNat), .readyToSend 0 .initRcv none 1400 0,
    .queueData 0 (List.replicate 20 7)]

/-- With an MTU of 119 there is room for six bytes behind an ack: so many are sent next, and so many of the ten are
sent again when they are due. Both fit. -/
theorem tenSent_fits :
    ∃ s, run SndRun.step (SndRun.new 100) tenSent = some s ∧
      (∃ d o isClose, (s.snd.readyToSend 0 .initRcv (some ⟨0, 0, 1, 0⟩) 119 1000).2 = (some d, o, isClose) ∧
        d.length = 6 ∧ o = 10 ∧
        answering.Fits plainHonest (answeringCfg 119) .initRcv ⟨isClose, some ⟨0, 0, 1, 0⟩, 0, o⟩ d) ∧
      ∃ snd' d o isClose, s.snd.readyToRetransmit 0 (some ⟨0, 0, 1, 0⟩) 119 100 .initRcv 1000 =
          some (snd', .ok (some d, o, isClose)) ∧ d.length = 6 ∧ o = 0 ∧
        answering.Fits plainHonest (answeringCfg 119) .initRcv ⟨isClose, some ⟨0, 0, 1, 0⟩, 0, o⟩ d := by
  have hadm : Along SndRun.step SndRun.Admissible (SndRun.new 100) tenSent := by decide +kernel
  obtain ⟨s, hrun, hb, d, o, isClose, hsend, hlen, ho, snd', d', o', isClose', hresend, hlen', ho'⟩ :
      ∃ s, run SndRun.step (SndRun.new 100) tenSent = some s ∧ (s.snd.stream 0).bytesSentOffset = 10 ∧
        ∃ d o isClose, (s.snd.readyToSend 0 .initRcv (some ⟨0, 0, 1, 0⟩) 119 1000).2 = (some d, o, isClose) ∧
          d.length = 6 ∧ o = 10 ∧
        ∃ snd' d o isClose, s.snd.readyToRetransmit 0 (some ⟨0, 0, 1, 0⟩) 119 100 .initRcv 1000 =
          some (snd', .ok (some d, o, isClose)) ∧ d.length = 6 ∧ o = 0 :=
    ⟨_, rfl, rfl, _, _, _, rfl, rfl, rfl, _, _, _, _, rfl, rfl, rfl⟩
  obtain ⟨hfirst, hagain, hnever⟩ := handOut_fits_iff (l := answeringCfg 119) plainHonest_correct (by decide) (by decide)
    answering_canSeal s.snd 0 (some ⟨0, 0, 1, 0⟩) 100 1000
  obtain ⟨hsnd, hrsnd⟩ := hnever (by decide) (by decide) 100 tenSent s hadm hrun rfl
  have hne : ∀ {x : Bytes}, x.length = 6 → x ≠ [] := fun h => List.ne_nil_of_length_pos (by omega)
  exact ⟨s, hrun, ⟨d, o, isClose, hsend, hlen, ho, ((hfirst (by omega) d o isClose hsend).mpr hsnd).1 (hne hlen)⟩,
    snd', d', o', isClose', hresend, hlen', ho', ((hagain snd' d' o' isClose' hresend).mpr hrsnd).1 (hne hlen')⟩

/-- One byte is queued. -/
def byteWaiting : SendBuffer := ((SendBuffer.new 100).queueData 0 [7]).elim (.new 100) Prod.fst

/-- With an MTU of 110 the overhead of 113 bytes leaves a room of -3, and the byte goes out in a datagram of 114 bytes. -/
theorem byteWaiting_oversized :
    ∃ o isClose c' enc, (byteWaiting.readyToSend 0 .initRcv (some ⟨0, 0, 1, 0⟩) 110 0).2 = (some [7], o, isClose) ∧
      maxDataFor .initRcv (some ⟨0, 0, 1, 0⟩) 110 o = -3 ∧
      answering.encode plainHonest (answeringCfg 110) ⟨isClose, some ⟨0, 0, 1, 0⟩, 0, o⟩ (some [7]) .initRcv =
        some (c', .ok enc) ∧ enc.length = 114 := by
  obtain ⟨c', enc, henc, hlen⟩ := encode_size (l := answeringCfg 110) plainHonest_correct answering_canSeal (by decide)
    ⟨false, some ⟨0, 0, 1, 0⟩, 0, 0⟩ [7]
  refine ⟨0, false, c', enc, rfl, rfl, henc, ?_⟩
  have hover : calcCryptoOverheadWithData .initRcv (some ⟨0, 0, 1, 0⟩) 0 = 113 := rfl
  rw [hover, List.length_singleton] at hlen
  omega

end Example

end Conn

end Qotp
