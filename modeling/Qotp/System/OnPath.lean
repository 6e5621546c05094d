import Qotp.System.SessionRefine

namespace Qotp

open Framework

variable {Prv Pub : Type}

section Pcap

variable (P : Primitives Prv Pub)

/-- The four functions that a capture is read with. They return the payload only. -/
def decryptDataForPcap (encData : Bytes) (isSenderOnInit : Bool) (epoch : Nat) (sharedSecret : Bytes) :
    Option (Except String Bytes) :=
  (decryptData P encData isSenderOnInit epoch (some sharedSecret)).map fun r => r.map Message.payloadRaw

def decryptInitCryptoSndForPcap (encData : Bytes) (prvKeyIdRcv : Prv) (mtu : Int) : Option (Except String Bytes) :=
  (decryptInitCryptoSnd P encData prvKeyIdRcv mtu).map fun r => r.map fun m => m.message.payloadRaw

def decryptInitRcvForPcap (encData : Bytes) (prvKeyEpSnd : Prv) : Option (Except String Bytes) :=
  (decryptInitRcv P encData prvKeyEpSnd).map fun r => r.map fun m => m.message.payloadRaw

def decryptInitCryptoRcvForPcap (encData : Bytes) (prvKeyEpSnd : Prv) : Option (Except String Bytes) :=
  (decryptInitCryptoRcv P encData prvKeyEpSnd).map fun r => r.map fun m => m.message.payloadRaw

end Pcap

variable {P : Primitives Prv Pub}

namespace Handshake

variable {id : Nat} {a : Prv} {s t : Handshake Prv Pub} {b : Bool} {c : Conn Prv Pub} {l : Listener Prv Pub} {key : Bytes}

/-- A Data datagram under the secret of a connection, written in the direction that the connection
itself writes. -/
theorem decode_reflected (hP : P.Correct) (hid : id < 2 ^ 64) (hk : key.length = 32) {sn e : Nat} {data : Bytes}
    (hd : 8 ≤ data.length) (hget : l.connMap.get? id = some c) (hs : c.isSenderOnInit = b)
    (hsec : c.sharedSecret = none ∨ c.sharedSecret = some key) (rAddr : Nat) (fresh : Except String Prv) :
    ∃ err, l.decode P (dataHeader id ++ sealedBody P sn e b key (dataHeader id) data) rAddr fresh = some (l, .error err) := by
  have hlen : minPacketSize ≤ (dataHeader id ++ sealedBody P sn e b key (dataHeader id) data).length := by
    rw [List.length_append, dataHeader_length, sealedBody_length hP hk]
    exact Nat.add_le_add_left (Nat.add_le_add_right hd 22) 9
  have hopen : ∀ m, decryptData P (dataHeader id ++ sealedBody P sn e b key (dataHeader id) data) c.isSenderOnInit
      c.epochCryptoRcv c.sharedSecret ≠ some (.ok m) := by
    intro m hm
    have hdir := (decryptData_text hP hk hsec hm).2
    rw [hs] at hdir
    exact absurd hdir (by simp)
  have hsome : decryptData P (dataHeader id ++ sealedBody P sn e b key (dataHeader id) data) c.isSenderOnInit
      c.epochCryptoRcv c.sharedSecret ≠ none := by
    have hbody : snSize + 24 ≤ ((dataHeader id ++ sealedBody P sn e b key (dataHeader id) data).drop 9).length := by
      rw [List.drop_left' (dataHeader_length id), sealedBody_length hP hk]
      exact Nat.add_le_add_right hd 22
    rw [decryptData_eq P ((by decide : 31 ≤ minPacketSize).trans hlen)]
    exact fun hn => absurd ((chainedDecrypt_eq_none P).mp hn) (not_lt.mpr hbody)
  generalize sealedBody P sn e b key (dataHeader id) data = body at hlen hopen hsome ⊢
  have htype : msgTypeOf (dataHeader id ++ body) = .data :=
    (by decide : CryptoMsgType.ofCode (headerByte .data >>> 5) = .data)
  have hconn : connIdOf (dataHeader id ++ body) = id := by
    rw [connIdOf, dataHeader, List.append_assoc, ← List.append_assoc,
      field_append (by rfl) (by rw [putUint64_length]), putUint64, getLE_putLE]
    exact Nat.mod_eq_of_lt hid
  rw [Listener.decode_eq_dispatch P l hlen rfl (by decide), Listener.dispatch, htype, hconn]
  cases hdec : decryptData P (dataHeader id ++ body) c.isSenderOnInit c.epochCryptoRcv c.sharedSecret with
  | none => exact absurd hdec hsome
  | some r =>
    cases r with
    | ok m => exact absurd hdec (hopen m)
    | error err =>
      simp only [Listener.decodeDataMsg, hget, hdec, Option.bind_eq_bind, Option.bind_some]
      exact ⟨err, rfl⟩

/-- No reflection: a Data datagram that is sent back to the side that wrote it is refused, and changes
nothing there. -/
theorem data_not_reflected (hP : P.Correct) (d₀ d l : Listener Prv Pub) (c : Conn Prv Pub) (a : Prv)
    (hdial : Session.Dialed P d₀ d l a c) (hl : l.connMap.get? c.connId = none) (ops : List (HandshakeOp Prv Pub))
    (t : Handshake Prv Pub) (hrun : run (step P c.connId) (start d l) ops = some t) (b : Bool) (x : Nat × Conn.Outgoing)
    (hx : x ∈ t.sent b) (hdata : x.2.msgType = .data) (rAddr : Nat) (fresh : Except String Prv) :
    ∃ err, (t.side b).decode P x.2.encData rAddr fresh = some (t.side b, .error err) := by
  obtain ⟨hid, _, hstart⟩ := Session.mirrors_start hdial hl
  have htrust := run_inv (step_trusted hP hid) hstart.trusted hrun
  cases htrust.phase with
  | dialed c₀ hget hdone hkeyed hnone hsent hquiet =>
    cases b with
    | true => exact absurd hdata (hsent x hx).2.1
    | false =>
      rw [hquiet] at hx
      cases hx
  | opened y key ha hkey hconn hsent =>
    obtain ⟨c', hget, hkeyed⟩ := hconn b
    obtain ⟨_, ⟨hm, _⟩ | ⟨sn, hd⟩⟩ := hsent b x hx
    · exact absurd hdata hm
    · rw [hd]
      exact decode_reflected hP (hid ▸ keyConnId_lt P _) (hP.ecdh_length _ _ _ (hkey true)) (encodePayload_length_ge _ _)
        hget hkeyed.sender (htrust.secret_of_keyed hconn hget) rAddr fresh

theorem session_dialed : Session.Dialed plainHonest (sessionSide 9 (by decide))
    ((sessionSide 9 (by decide)).setConn sessionDialed.connId sessionDialed) (sessionSide 11 (by decide)) ⟨3, by decide⟩
    sessionDialed := ⟨0, .inl rfl⟩

/-- The session ends with a Data datagram, and its listener holds keys to log. -/
theorem session_captured : ∃ t ∈ run (step plainHonest sessionDialed.connId)
      (start ((sessionSide 9 (by decide)).setConn sessionDialed.connId sessionDialed) (sessionSide 11 (by decide))) sessionOps,
    (∃ x ∈ t.sent true, x.2.msgType = .data ∧ x.2.userData = some [1, 2, 3]) ∧
    ∃ c ∈ (t.side false).connMap.get? sessionDialed.connId,
      (Listener.loggedSecrets plainHonest c.prvKeyEpSnd c.pubKeyEpRcv c.pubKeyIdRcv).bind Except.toOption =
        some (List.replicate 32 15, List.replicate 32 45) := by decide +kernel

theorem session_not_reflected : ∃ t x err, run (step plainHonest sessionDialed.connId)
      (start ((sessionSide 9 (by decide)).setConn sessionDialed.connId sessionDialed) (sessionSide 11 (by decide))) sessionOps =
        some t ∧ x ∈ t.sent true ∧ x.2.msgType = .data ∧
    (t.side true).decode plainHonest x.2.encData 0 (.error "") = some (t.side true, .error err) := by
  obtain ⟨t, ht, ⟨x, hx, hdata, _⟩, _⟩ := session_captured
  obtain ⟨err, herr⟩ := data_not_reflected plainHonest_correct _ _ _ _ _ session_dialed rfl sessionOps t ht true x hx hdata
    0 (.error "")
  exact ⟨t, x, err, ht, hx, hdata, herr⟩

/-- What the keys at hand read in a datagram of side `b`: the logged secret reads Data, the key that
was dialed with the replies, and the identity key of the listener the requests. -/
def captured (P : Primitives Prv Pub) (secret : Bytes) (a idRcv : Prv) (mtu : Int) (b : Bool) (x : Nat × Conn.Outgoing) :
    Option (Except String Bytes) :=
  match x.2.msgType with
  | .data => decryptDataForPcap P x.2.encData (!b) x.1 secret
  | .initRcv => decryptInitRcvForPcap P x.2.encData a
  | .initCryptoRcv => decryptInitCryptoRcvForPcap P x.2.encData a
  | .initCryptoSnd => decryptInitCryptoSndForPcap P x.2.encData idRcv mtu
  | .initSnd | .unknown _ => none

/-- The key log tells the truth: what the listener logs of a session, with the two keys of the handshake,
reads every payload of a capture of it. -/
theorem capture_reads_session (hP : P.Correct) (d₀ d l : Listener Prv Pub) (c : Conn Prv Pub) (a : Prv)
    (hdial : Session.Dialed P d₀ d l a c) (hl : l.connMap.get? c.connId = none) (hmtu : d.mtu ≤ 65507)
    (ops : List (HandshakeOp Prv Pub)) (t : Handshake Prv Pub)
    (hrun : run (step P c.connId) (start d l) ops = some t) (c' : Conn Prv Pub)
    (hget : (t.side false).connMap.get? c.connId = some c') (secret secretId : Bytes)
    (hlog : Listener.loggedSecrets P c'.prvKeyEpSnd c'.pubKeyEpRcv c'.pubKeyIdRcv = some (.ok (secret, secretId)))
    (b : Bool) (x : Nat × Conn.Outgoing) (hx : x ∈ t.sent b) (hm : x.2.msgType ≠ .initSnd) :
    captured P secret a l.prvKeyId d.mtu b x = some (.ok (encodePayload x.2.header x.2.userData).1) := by
  obtain ⟨hid, _, hstart⟩ := Session.mirrors_start hdial hl
  have htrust := run_inv (step_trusted hP hid) hstart.trusted hrun
  have hlen := encodePayload_length_ge x.2.header x.2.userData
  have hsn : ∀ sn, sn % 2 ^ 48 < 2 ^ 48 := fun sn => Nat.mod_lt _ (by decide)
  have hmsg : SessionMsg P c.connId a l.prvKeyId d.mtu b x.2 := htrust.sent b x hx
  unfold captured
  cases hmsg with
  | initSnd _ hm' _ _ => exact absurd hm' hm
  | initCryptoSnd idKey key sn hm' hkey hfit he =>
    have hkey' := hP.ecdh_symm hkey
    rw [hm', he, sealedBody_mod]
    dsimp only
    rw [decryptInitCryptoSndForPcap, decryptInitCryptoSnd_sealed hP hkey' hfit hmtu hlen (hsn sn)]
    rfl
  | initRcv z key sn hm' hkey he =>
    have hkey' := hP.ecdh_symm hkey
    rw [hm', he, sealedBody_mod]
    dsimp only
    rw [decryptInitRcvForPcap, decryptInitRcv_sealed hP hkey' hlen (hsn sn)]
    rfl
  | initCryptoRcv z key sn hm' hkey he =>
    have hkey' := hP.ecdh_symm hkey
    rw [hm', he, sealedBody_mod]
    dsimp only
    rw [decryptInitCryptoRcvForPcap, decryptInitCryptoRcv_sealed hP hkey' hlen (hsn sn)]
    rfl
  | data hm' _ =>
    cases htrust.phase with
    | dialed c₀ hget₀ hdone hkeyed hnone hsent hquiet => cases hnone.symm.trans hget
    | opened y key ha hkey hconn hsent =>
      -- the listener derived the secret from the key of the request
      have hsecret : secret = key := by
        obtain ⟨c₁, hget₁, hkeyed⟩ := hconn false
        cases hget₁.symm.trans hget
        have hep := (htrust.speaks false c' hget).listener rfl
        have hk := hkey false
        rw [Bool.not_false, ha] at hk
        rw [Listener.loggedSecrets, hep, hkeyed.prv] at hlog
        simp only [hk, Option.bind_eq_bind, Option.bind_some] at hlog
        obtain ⟨idKey, _, hlog⟩ := Option.bind_eq_some_iff.mp hlog
        cases hidk : P.ecdh (y false) idKey with
        | error e =>
          rw [hidk] at hlog
          cases hlog
        | ok keyId =>
          rw [hidk] at hlog
          cases hlog
          rfl
      obtain ⟨hepoch, ⟨hne, _⟩ | ⟨sn, hd⟩⟩ := hsent b x hx
      · exact absurd hm' hne
      · rw [hm', hd, hsecret]
        dsimp only
        rw [decryptDataForPcap, decryptData_sealed hP (hP.ecdh_length _ _ _ (hkey true)) hlen (by omega) (by omega) (by omega)]
        rfl

theorem session_read : ∃ t x, run (step plainHonest sessionDialed.connId)
      (start ((sessionSide 9 (by decide)).setConn sessionDialed.connId sessionDialed) (sessionSide 11 (by decide))) sessionOps =
        some t ∧ x ∈ t.sent true ∧ x.2.userData = some [1, 2, 3] ∧
    captured plainHonest (List.replicate 32 15) ⟨3, by decide⟩ ⟨11, by decide⟩ 1400 true x =
      some (.ok (encodePayload x.2.header x.2.userData).1) := by
  obtain ⟨t, ht, ⟨x, hx, hdata, huser⟩, c, hc, hlog⟩ := session_captured
  obtain ⟨r, hr, hok⟩ := Option.bind_eq_some_iff.mp hlog
  cases r with
  | error e => cases hok
  | ok keys =>
    cases hok
    exact ⟨t, x, ht, hx, huser, capture_reads_session plainHonest_correct _ _ _ _ _ session_dialed rfl (by decide)
      sessionOps t ht c hc _ _ hr true x hx (by rw [hdata]; decide)⟩

end Handshake

end Qotp
