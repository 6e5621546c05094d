import Qotp.Conn.DatagramSize
import Qotp.Conn.SessionMsg

namespace Qotp

open Framework

variable {Prv Pub : Type} {P : Primitives Prv Pub}

/-- With nothing in flight there is nothing to send again. -/
theorem SendBuffer.readyToRetransmit_idle {sb : SendBuffer} {k : Nat} (h : (sb.stream k).dataInFlightMap.first = none)
    (ack : Option Ack) (mtu : Int) (rto : Nat) (msgType : CryptoMsgType) (now : Nat) :
    ∃ sb', sb.readyToRetransmit k ack mtu rto msgType now = some (sb', .ok (none, 0, false)) := by
  unfold readyToRetransmit
  cases hg : sb.streams.get? k with
  | none => exact ⟨_, rfl⟩
  | some s =>
    rw [stream, hg, Option.getD_some] at h
    dsimp only [StreamBuffer.readyToRetransmit]
    rw [h]
    exact ⟨_, rfl⟩

namespace Conn

variable {l : ListenerCfg Prv} {c : Conn Prv Pub} {k now : Nat}

/-- The next datagram is a reply, and it can be sealed. -/
structure Replies (P : Primitives Prv Pub) (c : Conn Prv Pub) : Prop where
  type : c.msgType = .initRcv ∨ c.msgType = .initCryptoRcv
  seals : c.CanSeal P c.msgType

section Replies

variable (hP : P.Correct)

include hP

theorem encode_replies (h : c.Replies P) (p : PayloadHeader) (u : Option Bytes) :
    ∃ c' enc, c.encode P l p u c.msgType = some (c', .ok enc) := by
  have hlen := encodePayload_length_ge p u
  obtain ⟨hm | hm, hkeys, hsn⟩ := h
  · rw [hm] at hkeys ⊢
    obtain ⟨ep, key, hep, hkey⟩ := hkeys
    obtain ⟨c', hc'⟩ := finishInit_left hsn (encryptInitRcv_eq hP hkey hlen c.connId)
    rw [← hep] at hc'
    exact ⟨c', _, hc'⟩
  · rw [hm] at hkeys ⊢
    obtain ⟨ep, key, hep, hkey⟩ := hkeys
    obtain ⟨c', hc'⟩ := finishInit_left hsn (encryptInitCryptoRcv_eq hP hkey hlen c.connId)
    rw [← hep] at hc'
    exact ⟨c', _, hc'⟩

theorem writeAck_replies (h : c.Replies P) (k : Nat) (ack : Option Ack) (now : Nat) :
    ∃ c' o r, c.writeAck P l k ack now (.ok ()) = some (c', [o], r) ∧ o.msgType = c.msgType ∧ o.header.streamID = k := by
  obtain ⟨c₁, enc, he⟩ := encode_replies (l := l) hP h
    { isClose := c.checkStreamFullyAcked k, ack := ack, streamID := k } none
  unfold writeAck
  dsimp only
  rw [he]
  exact ⟨_, _, _, rfl, rfl, rfl⟩

theorem sendPacket_replies (h : c.Replies P) (k : Nat) (ack : Option Ack) (d : Bytes) (o : Nat) (isClose : Bool) (now : Nat)
    (track : Bool) : ∃ c' out r, c.sendPacket P l k ack d o isClose c.msgType now track (.ok ()) = some (c', [out], r) ∧
      out.msgType = c.msgType ∧ out.header.streamID = k := by
  obtain ⟨c₁, enc, he⟩ := encode_replies (l := l) hP h ⟨isClose, ack, k, o⟩ (some d)
  unfold sendPacket
  dsimp only
  rw [he]
  exact ⟨_, _, _, rfl, rfl, rfl⟩

theorem flushSend_replies (h : c.Replies P) (k : Nat) {ack : Option Ack} (hack : ack.isSome = true) (now : Nat) :
    ∃ c' o r, c.flushSend P l k ack now (.ok ()) = some (c', [o], r) ∧ o.msgType = c.msgType ∧ o.header.streamID = k := by
  unfold flushSend
  dsimp only
  by_cases hfirst : (c.isHandshakeDoneOnRcv || !c.isInitSentOnSnd) = true
  · rw [if_pos hfirst]
    generalize c.snd.readyToSend k c.msgType ack l.mtu now = r
    obtain ⟨snd, d, o, isClose⟩ := r
    have h' : ({ c with snd := snd } : Conn Prv Pub).Replies P := ⟨h.type, h.seals.keys, h.seals.sn⟩
    cases d with
    | some d => exact sendPacket_replies hP h' k ack d o isClose now true
    | none =>
      dsimp only
      rw [if_pos (by rw [hack]; rfl)]
      exact writeAck_replies hP h' k ack now
  · rw [if_neg hfirst, if_pos hack]
    exact writeAck_replies hP h k ack now

/-- A pending ack is answered at once, unless the pacer holds it back: a closed window does not. -/
theorem flush_replies (h : c.Replies P) (hnow : c.nextWriteTime ≤ now) (hack : c.rcv.ackList ≠ [])
    (hidle : (c.snd.stream k).dataInFlightMap.first = none) :
    ∃ c' o r, c.flush P l k now (.ok ()) = some (c', [o], r) ∧ o.msgType = c.msgType ∧ o.header.streamID = k := by
  have hsome : c.takeAck.2.isSome = true := by
    unfold takeAck ReceiveBuffer.getSndAck
    cases hl : c.rcv.ackList with
    | nil => exact absurd hl hack
    | cons a as => rfl
  have h₁ : c.takeAck.1.Replies P := ⟨h.type, h.seals.keys, h.seals.sn⟩
  have hpaced : ¬ c.takeAck.1.nextWriteTime > now := not_lt.mpr hnow
  unfold flush
  dsimp only
  rw [if_neg hpaced]
  by_cases hwnd : c.takeAck.1.dataInFlight + l.mtu > (c.takeAck.1.rcvWndSize : Int)
  · rw [if_pos hwnd, if_pos hsome]
    exact writeAck_replies hP h₁ k _ now
  · rw [if_neg hwnd]
    obtain ⟨snd, hr⟩ := SendBuffer.readyToRetransmit_idle hidle c.takeAck.2 l.mtu c.measurements.rtoNano c.msgType now
    have h' : ({ c.takeAck.1 with snd := snd } : Conn Prv Pub).Replies P := ⟨h.type, h.seals.keys, h.seals.sn⟩
    change ∃ (c' : Conn Prv Pub) (o : Outgoing) (r : FlushResult), (c.snd.readyToRetransmit k c.takeAck.2 l.mtu c.measurements.rtoNano c.msgType now).bind _ =
      some (c', [o], r) ∧ o.msgType = c.msgType ∧ o.header.streamID = k
    rw [hr]
    exact flushSend_replies hP h' k hsome now

end Replies

/-- There is room for a packet of `mtu` bytes, counters are left, and nothing of stream `k` is in flight. -/
def CanAnswer (k : Nat) (mtu : Int) (c : Conn Prv Pub) : Prop :=
  c.SnLeft ∧ c.rcv.size + mtu ≤ c.rcv.capacity ∧ (c.snd.stream k).dataInFlightMap.first.isNone = true ∧
    (c.snd.stream k).bytesSentOffset < 2 ^ 48

instance (k : Nat) (mtu : Int) (c : Conn Prv Pub) : Decidable (c.CanAnswer k mtu) :=
  inferInstanceAs (Decidable ((_ ∨ _) ∧ _ ∧ _ ∧ _))

/-- A packet without an ack that fits is acknowledged, and moves nothing of what is being sent. -/
theorem decode_pending {c' : Conn Prv Pub} {p : PayloadHeader} {w : Bytes} {rawLen : Nat} (hack : p.ack = none)
    (hroom : c.rcv.size + w.length ≤ c.rcv.capacity) (hd : c.decode p (some w) rawLen now = some c') :
    c'.rcv.ackList ≠ [] ∧ ∀ k, (c'.snd.stream k).dataInFlightMap = (c.snd.stream k).dataInFlightMap ∧
      (c'.snd.stream k).bytesSentOffset = (c.snd.stream k).bytesSentOffset := by
  have heff := decode_effect hd
  constructor
  · obtain ⟨rcv, hrcv, hc'⟩ := heff.rcv
    have hq : rcv.ackList ≠ [] := by
      obtain ⟨d, st, hw, hne, hins⟩ | ⟨_, rfl⟩ | ⟨hw, _⟩ := hrcv
      · cases hw
        rw [ReceiveBuffer.insert, if_neg (not_lt.mpr hroom)] at hins
        obtain ⟨r, _, hins⟩ := Option.bind_eq_some_iff.mp hins
        cases hins
        exact List.append_ne_nil_of_right_ne_nil _ (List.cons_ne_nil _ _)
      · exact List.append_ne_nil_of_right_ne_nil _ (List.cons_ne_nil _ _)
      · cases hw
    rw [hc']
    split_ifs <;> exact hq
  · intro k
    have hsnd := heff.snd
    rw [hack] at hsnd
    split_ifs at hsnd
    · have hstr : (c.snd.close (c.storedID p.streamID)).stream k = if k = c.storedID p.streamID
          then (c.snd.stream (c.storedID p.streamID)).close else c.snd.stream k := SendBuffer.stream_put _ _ _ _
      rw [hsnd, SendBuffer.afterAck, hstr]
      split_ifs with hk
      · rw [hk, StreamBuffer.close]
        split <;> exact ⟨rfl, rfl⟩
      · exact ⟨rfl, rfl⟩
    · rw [hsnd]
      exact ⟨rfl, rfl⟩

end Conn

section Opens

variable {l : Listener Prv Pub} {id : Nat} {a idRcv : Prv} {mtu : Int} {o : Conn.Outgoing} {c : Conn Prv Pub}

theorem initSndText_length (ep idKey : Pub) (mtu : Int) : (initSndText P ep idKey mtu).length = mtu.toNat := by
  rw [initSndText, List.length_take, List.length_append, List.length_replicate, min_eq_left (Nat.le_add_left _ _)]

theorem initKeys_initSndText (hP : P.Correct) (ep idKey : Pub) {mtu : Int} (hmtu : 65 ≤ mtu) :
    initKeys P (initSndText P ep idKey mtu) = .ok (ep, idKey) := by
  have hlen : ([headerByte .initSnd] ++ P.bytes ep ++ P.bytes idKey).length = 65 := by
    simp [P.bytes_length]
  have htake : (initSndText P ep idKey mtu).take 65 = [headerByte .initSnd] ++ P.bytes ep ++ P.bytes idKey := by
    rw [initSndText, List.take_take, min_eq_left (by omega), List.take_left' hlen]
  have hep : field (initSndText P ep idKey mtu) 1 33 = P.bytes ep := by
    rw [field_of_take htake (by decide), field_append (by simp) (by rw [P.bytes_length])]
  have hid : field (initSndText P ep idKey mtu) 33 65 = P.bytes idKey := by
    rw [field_of_take htake le_rfl, ← List.append_nil ([headerByte .initSnd] ++ P.bytes ep ++ P.bytes idKey),
      field_append (by simp [P.bytes_length]) (by rw [P.bytes_length])]
  unfold initKeys
  rw [hep, hid, hP.newPublicKey_bytes, hP.newPublicKey_bytes]

/-- The reader's MTU is only a bound on the length. -/
theorem decryptInitCryptoSnd_mtu {d : Bytes} {b : Prv} {mtu' : Int} (h : mtu ≤ d.length) (h' : mtu' ≤ d.length)
    (h65 : 65 ≤ d.length) : decryptInitCryptoSnd P d b mtu = decryptInitCryptoSnd P d b mtu' := by
  rw [decryptInitCryptoSnd_eq P h h65, decryptInitCryptoSnd_eq P h' h65]

/-- A listener finds a connection for an honest request, or makes one. -/
theorem Listener.connForInit_ok (hP : P.Correct) (id rAddr : Nat) (z a y : Prv) (w : Bool) :
    ∃ l₁ c, l.connForInit P id rAddr (.ok z) (P.publicKey y) (P.publicKey a) w = some (l₁, .ok c) := by
  unfold connForInit
  cases hg : l.connMap.get? id with
  | some c => exact ⟨l, c, rfl⟩
  | none =>
    have hcontains : l.connMap.contains id = false := by
      rw [InsertionMap.contains, hg]
      rfl
    obtain ⟨k₁, hk₁, _⟩ := hP.ecdh_agree z a
    obtain ⟨k₂, hk₂, _⟩ := hP.ecdh_agree z y
    have hlog : logKeys P z (some (P.publicKey a)) (some (P.publicKey y)) = some (.ok ()) := by
      simp [logKeys, loggedSecrets, hk₁, hk₂, Except.map]
    dsimp only [newConn]
    rw [hcontains, hlog, ite_self]
    exact ⟨_, _, rfl⟩

section

variable (hP : P.Correct)

include hP

/-- An honest request is accepted by the listener it is for, if that has no larger MTU. -/
theorem SessionMsg.opens_request (hmtu : 119 ≤ mtu ∧ mtu ≤ 65507) (h : SessionMsg P id a idRcv mtu true o)
    (hm : o.msgType ≠ .data) (hl : l.mtu ≤ mtu) (hid : l.prvKeyId = idRcv) (rAddr : Nat) (z : Prv) :
    ∃ l₁ dec, l.decode P o.encData rAddr (.ok z) = some (l₁, .ok dec) := by
  have htype := h.msgType_eq
  cases h with
  | initSnd idSnd hm hmtu' he =>
    have hlen : (o.encData.length : Int) = mtu := by
      rw [he, initSndText_length]
      omega
    have hhead : o.encData[0]? = some (headerByte .initSnd) := by
      rw [he, initSndText, List.getElem?_take_of_lt (by omega)]
      rfl
    obtain ⟨l₁, c, hc⟩ := Listener.connForInit_ok (l := l) hP (connIdOf o.encData) rAddr z a idSnd false
    obtain ⟨key, hkey, _⟩ := hP.ecdh_agree c.prvKeyEpSnd a
    have hdec : decryptInitSnd P o.encData l.mtu = some (.ok (P.publicKey idSnd, P.publicKey a)) := by
      rw [decryptInitSnd_eq P (by omega) (by omega), he, initKeys_initSndText hP _ _ (by omega)]
      rfl
    rw [Listener.decode_eq_dispatch P l (show 39 ≤ _ by omega) hhead (by decide), Listener.dispatch, htype, hm]
    simp only [Listener.decodeInitSnd, hdec, Option.bind_eq_bind, Option.bind_some, hc, hkey]
    exact ⟨_, _, rfl⟩
  | initCryptoSnd idSnd key sn hm hkey hfit he =>
    have hpad := paddedText_length hfit
    have hlen : (o.encData.length : Int) = mtu := by
      rw [he, List.length_append, initCryptoSndHeader_length, sealedBody_length hP (hP.ecdh_length _ _ _ hkey)]
      simp only [footerDataSize, snSize, macSize]
      omega
    have hhead : o.encData[0]? = some (headerByte .initCryptoSnd) := by
      rw [he]
      rfl
    obtain ⟨l₁, c, hc⟩ := Listener.connForInit_ok (l := l) hP (connIdOf o.encData) rAddr z a idSnd true
    have hdec : ∃ m, decryptInitCryptoSnd P o.encData l.prvKeyId l.mtu = some (.ok m) ∧ m.pubKeyIdSnd = P.publicKey idSnd ∧
        m.pubKeyEpSnd = P.publicKey a := by
      have hread : decryptInitCryptoSnd P o.encData l.prvKeyId l.mtu = decryptInitCryptoSnd P o.encData l.prvKeyId mtu :=
        decryptInitCryptoSnd_mtu (by omega) (by omega) (by omega)
      rw [hread, he, sealedBody_mod, hid]
      exact ⟨_, decryptInitCryptoSnd_sealed hP (hP.ecdh_symm hkey) hfit hmtu.2 (encodePayload_length_ge _ _)
        (Nat.mod_lt _ (by decide)), rfl, rfl⟩
    obtain ⟨m, hm', hmid, hmep⟩ := hdec
    rw [Listener.decode_eq_dispatch P l (show 39 ≤ _ by omega) hhead (by decide), Listener.dispatch, htype, hm]
    simp only [Listener.decodeInitCryptoSnd, hm', Option.bind_eq_bind, Option.bind_some, hmid, hmep, hc]
    exact ⟨_, _, rfl⟩
  | data hm' => exact absurd hm' hm

/-- An honest reply is accepted by the dialer it is for. -/
theorem SessionMsg.opens_reply (h : SessionMsg P id a idRcv mtu false o) (hm : o.msgType ≠ .data)
    (hcid : connIdOf o.encData = id) (hget : l.connMap.get? id = some c) (hprv : c.prvKeyEpSnd = a) (rAddr : Nat)
    (fresh : Except String Prv) : ∃ l₁ dec, l.decode P o.encData rAddr fresh = some (l₁, .ok dec) := by
  have htype := h.msgType_eq
  have hlen := encodePayload_length_ge o.header o.userData
  cases h with
  | initRcv z key sn hm hkey he =>
    have hlong : minPacketSize ≤ o.encData.length := by
      rw [he, List.length_append, initRcvHeader_length]
      exact Nat.le_add_right_of_le (by decide)
    have hhead : o.encData[0]? = some (headerByte .initRcv) := by
      rw [he]
      rfl
    have hdec : ∃ m, decryptInitRcv P o.encData c.prvKeyEpSnd = some (.ok m) := by
      rw [he, sealedBody_mod, hprv]
      exact ⟨_, decryptInitRcv_sealed hP (hP.ecdh_symm hkey) hlen (Nat.mod_lt _ (by decide)) id⟩
    obtain ⟨m, hdec⟩ := hdec
    rw [Listener.decode_eq_dispatch P l hlong hhead (by decide), Listener.dispatch, htype, hm, hcid]
    simp only [Listener.decodeInitRcv, hget, hdec, Option.bind_eq_bind, Option.bind_some]
    exact ⟨_, _, rfl⟩
  | initCryptoRcv z key sn hm hkey he =>
    have hlong : minPacketSize ≤ o.encData.length := by
      rw [he, List.length_append, initCryptoRcvHeader_length]
      exact Nat.le_add_right_of_le (by decide)
    have hhead : o.encData[0]? = some (headerByte .initCryptoRcv) := by
      rw [he]
      rfl
    have hdec : ∃ m, decryptInitCryptoRcv P o.encData c.prvKeyEpSnd = some (.ok m) := by
      rw [he, sealedBody_mod, hprv]
      exact ⟨_, decryptInitCryptoRcv_sealed hP (hP.ecdh_symm hkey) hlen (Nat.mod_lt _ (by decide)) id⟩
    obtain ⟨m, hdec⟩ := hdec
    rw [Listener.decode_eq_dispatch P l hlong hhead (by decide), Listener.dispatch, htype, hm, hcid]
    simp only [Listener.decodeInitCryptoRcv, hget, hdec, Option.bind_eq_bind, Option.bind_some]
    exact ⟨_, _, rfl⟩
  | data hm' => exact absurd hm' hm

end

end Opens

end Qotp
