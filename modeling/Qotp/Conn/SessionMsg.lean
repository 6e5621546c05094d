import Qotp.Conn.Datagrams

namespace Qotp

open Framework

variable {Prv Pub : Type} {P : Primitives Prv Pub}

/-- Either end derives the secret of the other. -/
theorem Primitives.Correct.ecdh_symm (hP : P.Correct) {x y : Prv} {key : Bytes} (h : P.ecdh x (P.publicKey y) = .ok key) :
    P.ecdh y (P.publicKey x) = .ok key := by
  obtain ⟨key', h₁, h₂⟩ := hP.ecdh_agree x y
  cases h₁.symm.trans h
  exact h₂

/-- The wire holds 48 bits of a sequence number, and so does the nonce. -/
theorem sealedBody_mod (sn e : Nat) (isSender : Bool) (key header data : Bytes) :
    sealedBody P sn e isSender key header data = sealedBody P (sn % 2 ^ 48) e isSender key header data := by
  have hmod : sn % 2 ^ 48 % 256 ^ 6 = sn % 256 ^ 6 := Nat.mod_mod_of_dvd _ (by decide)
  have hsn : putUint48 sn = putUint48 (sn % 2 ^ 48) := putLE_inj.mpr hmod.symm
  have hnonce : nonceDet e sn isSender = nonceDet e (sn % 2 ^ 48) isSender := nonceDet_inj.mpr ⟨rfl, rfl, rfl, hmod.symm⟩
  unfold sealedBody
  rw [hsn, hnonce]

section Text

variable {sn e : Nat} {isSender : Bool} {key header data : Bytes}

/-- The text comes from one of the epochs that are tried. -/
theorem tryEpochs_ok {cipher : Bytes} {es : List Nat} {r : Nat × Bytes}
    (h : tryEpochs P isSender sn key header cipher es = .ok r) :
    r.1 ∈ es ∧ P.openAead key (nonceDet r.1 sn (!isSender)) cipher header = .ok r.2 := by
  induction es with
  | nil => cases h
  | cons f es ih =>
    rw [tryEpochs] at h
    cases ho : P.openAead key (nonceDet f sn (!isSender)) cipher header with
    | ok text =>
      rw [ho] at h
      cases h
      exact ⟨List.mem_cons_self, ho⟩
    | error err =>
      simp only [ho] at h
      split_ifs at h
      exact ⟨List.mem_cons_of_mem _ (ih h).1, (ih h).2⟩

/-- What is sealed under a key opens under it to the same text or not at all, whatever
epoch the reader takes, and only to the other direction. -/
theorem chainedDecrypt_text (hP : P.Correct) (hk : key.length = 32) {reader : Bool} {r : Nat} {m : Message}
    (h : chainedDecrypt P reader r key header (sealedBody P sn e isSender key header data) = some (.ok m)) :
    m.payloadRaw = data ∧ isSender = !reader := by
  have hmask : (P.xorKeyStream key ((P.sealAead key (nonceDet e sn isSender) data header).take 24)
      (putUint48 sn)).length = snSize := by
    rw [P.xorKeyStream_length, putUint48_length]
  have hbody : (sealedBody P sn e isSender key header data).drop snSize =
      P.sealAead key (nonceDet e sn isSender) data header := List.drop_left' hmask
  obtain ⟨encSn, _, h⟩ := Option.bind_eq_some_iff.mp h
  obtain ⟨cipher, hc, h⟩ := Option.bind_eq_some_iff.mp h
  obtain rfl : _ = cipher := (sliceFrom?_eq_some.mp hc).2
  obtain ⟨nonceRand, _, h⟩ := Option.bind_eq_some_iff.mp h
  cases ho : openNoVerify P key nonceRand encSn with
  | error err =>
    rw [ho] at h
    cases h
  | ok snBytes =>
    simp only [ho] at h
    obtain ⟨snConn, _, h⟩ := Option.bind_eq_some_iff.mp h
    cases ht : tryEpochs P reader snConn key header ((sealedBody P sn e isSender key header data).drop snSize)
        (epochsToTry r) with
    | error err =>
      rw [ht] at h
      cases h
    | ok res =>
      rw [ht] at h
      cases h
      have hf := (tryEpochs_ok ht).2
      rw [hbody] at hf
      by_cases hn : nonceDet res.1 snConn (!reader) = nonceDet e sn isSender
      · rw [hn, hP.open_seal _ _ _ _ hk (nonceDet_length _ _ _)] at hf
        exact ⟨(Except.ok.inj hf).symm, (nonceDet_inj.mp hn).1.symm⟩
      · obtain ⟨err, herr⟩ := hP.open_other_nonce key _ _ data header hk (nonceDet_length e sn isSender)
          (nonceDet_length _ _ _) hn
        rw [herr] at hf
        cases hf

end Text

namespace Listener

variable {l l' : Listener Prv Pub} {d : Bytes} {rAddr : Nat} {fresh : Except String Prv} {dec : Decoded}

/-- What an accepted datagram was opened to. -/
inductive Opened (P : Primitives Prv Pub) (l : Listener Prv Pub) (d : Bytes) : Decoded → Prop
  | initSnd (ht : msgTypeOf d = .initSnd) : Opened P l d ⟨connIdOf d, [], .initSnd⟩
  | initRcv (c : Conn Prv Pub) (m : InitRcvMsg Pub) (ht : msgTypeOf d = .initRcv)
      (hg : l.connMap.get? (connIdOf d) = some c) (hd : decryptInitRcv P d c.prvKeyEpSnd = some (.ok m)) :
      Opened P l d ⟨connIdOf d, m.message.payloadRaw, .initRcv⟩
  | initCryptoSnd (m : InitCryptoSndMsg Pub) (ht : msgTypeOf d = .initCryptoSnd)
      (hd : decryptInitCryptoSnd P d l.prvKeyId l.mtu = some (.ok m)) :
      Opened P l d ⟨connIdOf d, m.message.payloadRaw, .initCryptoSnd⟩
  | initCryptoRcv (c : Conn Prv Pub) (m : InitCryptoRcvMsg Pub) (ht : msgTypeOf d = .initCryptoRcv)
      (hg : l.connMap.get? (connIdOf d) = some c) (hd : decryptInitCryptoRcv P d c.prvKeyEpSnd = some (.ok m)) :
      Opened P l d ⟨connIdOf d, m.message.payloadRaw, .initCryptoRcv⟩
  | data (c : Conn Prv Pub) (m : Message) (ht : msgTypeOf d = .data) (hg : l.connMap.get? (connIdOf d) = some c)
      (hd : decryptData P d c.isSenderOnInit c.epochCryptoRcv c.sharedSecret = some (.ok m)) :
      Opened P l d ⟨connIdOf d, m.payloadRaw, .data⟩

theorem decodeInitSnd_opened (ht : msgTypeOf d = .initSnd)
    (h : l.decodeInitSnd P (connIdOf d) d rAddr fresh = some (l', .ok dec)) : Opened P l d dec := by
  obtain ⟨res, _, h⟩ := Option.bind_eq_some_iff.mp h
  cases res with
  | error e => cases h
  | ok k =>
    obtain ⟨⟨l₁, res⟩, _, h⟩ := Option.bind_eq_some_iff.mp h
    cases res with
    | error e => cases h
    | ok c =>
      dsimp only at h
      cases hk : P.ecdh c.prvKeyEpSnd k.2 with
      | error e =>
        rw [hk] at h
        cases h
      | ok secret =>
        rw [hk] at h
        cases h
        exact .initSnd ht

theorem decodeInitCryptoSnd_opened (ht : msgTypeOf d = .initCryptoSnd)
    (h : l.decodeInitCryptoSnd P (connIdOf d) d rAddr fresh = some (l', .ok dec)) : Opened P l d dec := by
  obtain ⟨res, hd, h⟩ := Option.bind_eq_some_iff.mp h
  cases res with
  | error e => cases h
  | ok m =>
    obtain ⟨⟨l₁, res⟩, _, h⟩ := Option.bind_eq_some_iff.mp h
    cases res with
    | error e => cases h
    | ok c =>
      cases h
      exact .initCryptoSnd m ht hd

theorem decodeInitRcv_opened (ht : msgTypeOf d = .initRcv)
    (h : l.decodeInitRcv P (connIdOf d) d = some (l', .ok dec)) : Opened P l d dec := by
  unfold decodeInitRcv at h
  cases hg : l.connMap.get? (connIdOf d) with
  | none =>
    rw [hg] at h
    cases h
  | some c =>
    rw [hg] at h
    obtain ⟨res, hd, h⟩ := Option.bind_eq_some_iff.mp h
    cases res with
    | error e => cases h
    | ok m =>
      cases h
      exact .initRcv c m ht hg hd

theorem decodeInitCryptoRcv_opened (ht : msgTypeOf d = .initCryptoRcv)
    (h : l.decodeInitCryptoRcv P (connIdOf d) d = some (l', .ok dec)) : Opened P l d dec := by
  unfold decodeInitCryptoRcv at h
  cases hg : l.connMap.get? (connIdOf d) with
  | none =>
    rw [hg] at h
    cases h
  | some c =>
    rw [hg] at h
    obtain ⟨res, hd, h⟩ := Option.bind_eq_some_iff.mp h
    cases res with
    | error e => cases h
    | ok m =>
      cases h
      exact .initCryptoRcv c m ht hg hd

theorem decodeDataMsg_opened (ht : msgTypeOf d = .data)
    (h : l.decodeDataMsg P (connIdOf d) d = some (l', .ok dec)) : Opened P l d dec := by
  unfold decodeDataMsg at h
  cases hg : l.connMap.get? (connIdOf d) with
  | none =>
    rw [hg] at h
    cases h
  | some c =>
    rw [hg] at h
    obtain ⟨res, hd, h⟩ := Option.bind_eq_some_iff.mp h
    cases res with
    | error e => cases h
    | ok m =>
      cases h
      exact .data c m ht hg hd

theorem decode_opened (h : l.decode P d rAddr fresh = some (l', .ok dec)) : Opened P l d dec := by
  obtain ⟨_, e, he⟩ | h := decode_cases P h
  · cases he
  unfold dispatch at h
  cases ht : msgTypeOf d with
  | initSnd =>
    rw [ht] at h
    exact decodeInitSnd_opened ht h
  | initRcv =>
    rw [ht] at h
    exact decodeInitRcv_opened ht h
  | initCryptoSnd =>
    rw [ht] at h
    exact decodeInitCryptoSnd_opened ht h
  | initCryptoRcv =>
    rw [ht] at h
    exact decodeInitCryptoRcv_opened ht h
  | data =>
    rw [ht] at h
    exact decodeDataMsg_opened ht h
  | unknown c =>
    rw [ht] at h
    cases h

end Listener

section Read

variable {key data : Bytes} {sn : Nat} {b : Prv}

/-- Who derives the key of a message reads its payload, or nothing. -/
theorem decryptInitRcv_text (hP : P.Correct) {ep idKey : Pub} {connId : Nat} {m : InitRcvMsg Pub}
    (hkey : P.ecdh b ep = .ok key) (h : decryptInitRcv P (initRcvHeader P connId ep idKey ++
      sealedBody P sn 0 false key (initRcvHeader P connId ep idKey) data) b = some (.ok m)) :
    m.message.payloadRaw = data := by
  have hfield : field (initRcvHeader P connId ep idKey ++
      sealedBody P sn 0 false key (initRcvHeader P connId ep idKey) data) 9 41 = P.bytes ep := by
    rw [initRcvHeader, List.append_assoc _ (P.bytes idKey), field_append (by simp [putUint64_length])
      (by rw [P.bytes_length])]
  obtain ⟨_, hep, _, hsec, hopen⟩ := decryptInitRcv_ok h
  rw [hfield, hP.newPublicKey_bytes] at hep
  cases hep
  cases hkey.symm.trans hsec
  rw [field_front (initRcvHeader_length connId _ idKey), List.drop_left' (initRcvHeader_length connId _ idKey)] at hopen
  exact (chainedDecrypt_text hP (hP.ecdh_length _ _ _ hkey) hopen).1

theorem decryptInitCryptoRcv_text (hP : P.Correct) {ep : Pub} {connId : Nat} {m : InitCryptoRcvMsg Pub}
    (hkey : P.ecdh b ep = .ok key) (h : decryptInitCryptoRcv P (initCryptoRcvHeader P connId ep ++
      sealedBody P sn 0 false key (initCryptoRcvHeader P connId ep) data) b = some (.ok m)) :
    m.message.payloadRaw = data := by
  have hfield : field (initCryptoRcvHeader P connId ep ++
      sealedBody P sn 0 false key (initCryptoRcvHeader P connId ep) data) 9 41 = P.bytes ep := by
    rw [initCryptoRcvHeader, field_append (by simp [putUint64_length]) (by rw [P.bytes_length])]
  obtain ⟨_, hep, hsec, hopen⟩ := decryptInitCryptoRcv_ok h
  rw [hfield, hP.newPublicKey_bytes] at hep
  cases hep
  cases hkey.symm.trans hsec
  rw [field_front (initCryptoRcvHeader_length connId _), List.drop_left' (initCryptoRcvHeader_length connId _)] at hopen
  exact (chainedDecrypt_text hP (hP.ecdh_length _ _ _ hkey) hopen).1

/-- The filler of a writer with another MTU is found as well. -/
theorem decryptInitCryptoSnd_text (hP : P.Correct) {ep idKey : Pub} {mtu mtu' : Int} {m : InitCryptoSndMsg Pub}
    (hfit : (data.length : Int) ≤ mtu - 89) (hmtu : mtu ≤ 65507) (hkey : P.ecdh b ep = .ok key)
    (h : decryptInitCryptoSnd P (initCryptoSndHeader P ep idKey ++
      sealedBody P sn 0 true key (initCryptoSndHeader P ep idKey) (paddedText mtu data)) b mtu' = some (.ok m)) :
    m.message.payloadRaw = data := by
  have hk := hP.ecdh_length _ _ _ hkey
  have hep : field (initCryptoSndHeader P ep idKey ++
      sealedBody P sn 0 true key (initCryptoSndHeader P ep idKey) (paddedText mtu data)) 1 33 = P.bytes ep := by
    rw [initCryptoSndHeader, List.append_assoc _ (P.bytes idKey), field_append (by simp) (by rw [P.bytes_length])]
  have hlen : mtu' ≤ ((initCryptoSndHeader P ep idKey ++
      sealedBody P sn 0 true key (initCryptoSndHeader P ep idKey) (paddedText mtu data)).length : Int) := by
    by_contra hlt
    rw [decryptInitCryptoSnd, if_pos (not_le.mp hlt)] at h
    cases h
  rw [decryptInitCryptoSnd_eq P hlen (by rw [List.length_append, initCryptoSndHeader_length]; omega) b] at h
  unfold initKeys at h
  rw [hep, hP.newPublicKey_bytes, field_front (initCryptoSndHeader_length ep idKey),
    List.drop_left' (initCryptoSndHeader_length ep idKey)] at h
  cases hid : P.newPublicKey (field (initCryptoSndHeader P ep idKey ++
      sealedBody P sn 0 true key (initCryptoSndHeader P ep idKey) (paddedText mtu data)) 33 65) with
  | error e => simp [hid] at h
  | ok idKey' =>
    simp only [hid, hkey] at h
    obtain ⟨res, hopen, h⟩ := Option.bind_eq_some_iff.mp h
    cases res with
    | error e => cases h
    | ok msg =>
      dsimp only at h
      rw [(chainedDecrypt_text hP hk hopen).1, stripFiller_paddedText hfit hmtu] at h
      cases h
      rfl

theorem decryptData_text (hP : P.Correct) (hk : key.length = 32) {e r connId : Nat} {isSender reader : Bool} {m : Message}
    {secret : Option Bytes} (hsec : secret = none ∨ secret = some key)
    (h : decryptData P (dataHeader connId ++ sealedBody P sn e isSender key (dataHeader connId) data) reader r secret =
      some (.ok m)) : m.payloadRaw = data ∧ isSender = !reader := by
  unfold decryptData at h
  split_ifs at h
  · cases h
  obtain ⟨header, hh, h⟩ := Option.bind_eq_some_iff.mp h
  obtain ⟨body, hb, h⟩ := Option.bind_eq_some_iff.mp h
  have hheader : header = dataHeader connId := by
    rw [← (slice?_eq_some.mp hh).2]
    exact field_front (dataHeader_length connId)
  have hbody : body = sealedBody P sn e isSender key (dataHeader connId) data := by
    rw [← (sliceFrom?_eq_some.mp hb).2]
    exact List.drop_left' (dataHeader_length connId)
  subst hheader hbody
  obtain rfl | rfl := hsec
  · -- without a secret nothing opens
    obtain ⟨encSn, _, h⟩ := Option.bind_eq_some_iff.mp h
    obtain ⟨cipher, _, h⟩ := Option.bind_eq_some_iff.mp h
    obtain ⟨nonceRand, _, h⟩ := Option.bind_eq_some_iff.mp h
    cases h
  · exact chainedDecrypt_text hP hk h

end Read

/-- An InitSnd message: both keys, filled up to the MTU. -/
def initSndText (P : Primitives Prv Pub) (ep id : Pub) (mtu : Int) : Bytes :=
  ([headerByte .initSnd] ++ P.bytes ep ++ P.bytes id ++ List.replicate mtu.toNat 0).take mtu.toNat

theorem initSndText_type {ep id : Pub} {mtu : Int} (hmtu : 33 ≤ mtu) : msgTypeOf (initSndText P ep id mtu) = .initSnd := by
  refine msgTypeOf_of_take (n := 0) (h := []) ?_ (by decide)
  rw [initSndText, List.take_take, min_eq_left (by omega), List.append_assoc, List.append_assoc, List.singleton_append]
  rfl

/-- The datagrams of a session that was dialed with the ephemeral key `a`, to a listener with
the identity key `idRcv`: requests are sealed for that listener, replies for the dialer. -/
inductive SessionMsg (P : Primitives Prv Pub) (id : Nat) (a idRcv : Prv) (mtu : Int) : Bool → Conn.Outgoing → Prop
  | initSnd {o : Conn.Outgoing} (idSnd : Prv) (hm : o.msgType = .initSnd) (hmtu : 33 ≤ mtu)
      (he : o.encData = initSndText P (P.publicKey a) (P.publicKey idSnd) mtu) : SessionMsg P id a idRcv mtu true o
  | initCryptoSnd {o : Conn.Outgoing} (idSnd : Prv) (key : Bytes) (sn : Nat) (hm : o.msgType = .initCryptoSnd)
      (hkey : P.ecdh a (P.publicKey idRcv) = .ok key)
      (hfit : ((encodePayload o.header o.userData).1.length : Int) ≤ mtu - 89)
      (he : o.encData = initCryptoSndHeader P (P.publicKey a) (P.publicKey idSnd) ++ sealedBody P sn 0 true key
        (initCryptoSndHeader P (P.publicKey a) (P.publicKey idSnd))
        (paddedText mtu (encodePayload o.header o.userData).1)) :
      SessionMsg P id a idRcv mtu true o
  | initRcv {o : Conn.Outgoing} (z : Prv) (key : Bytes) (sn : Nat) (hm : o.msgType = .initRcv)
      (hkey : P.ecdh z (P.publicKey a) = .ok key)
      (he : o.encData = initRcvHeader P id (P.publicKey z) (P.publicKey idRcv) ++ sealedBody P sn 0 false key
        (initRcvHeader P id (P.publicKey z) (P.publicKey idRcv)) (encodePayload o.header o.userData).1) :
      SessionMsg P id a idRcv mtu false o
  | initCryptoRcv {o : Conn.Outgoing} (z : Prv) (key : Bytes) (sn : Nat) (hm : o.msgType = .initCryptoRcv)
      (hkey : P.ecdh z (P.publicKey a) = .ok key)
      (he : o.encData = initCryptoRcvHeader P id (P.publicKey z) ++ sealedBody P sn 0 false key
        (initCryptoRcvHeader P id (P.publicKey z)) (encodePayload o.header o.userData).1) :
      SessionMsg P id a idRcv mtu false o
  | data {b : Bool} {o : Conn.Outgoing} (hm : o.msgType = .data) (ht : msgTypeOf o.encData = .data) :
      SessionMsg P id a idRcv mtu b o

namespace SessionMsg

variable {id : Nat} {a idRcv : Prv} {mtu : Int} {b : Bool} {o : Conn.Outgoing}

/-- The type byte says what the writer meant. -/
theorem msgType_eq (h : SessionMsg P id a idRcv mtu b o) : msgTypeOf o.encData = o.msgType := by
  cases h with
  | initSnd idSnd hm hmtu he =>
    rw [he, hm]
    exact initSndText_type hmtu
  | initCryptoSnd idKey key sn hm _ _ he =>
    rw [he, hm]
    exact (by decide : CryptoMsgType.ofCode (headerByte .initCryptoSnd >>> 5) = .initCryptoSnd)
  | initRcv z key sn hm _ he =>
    rw [he, hm]
    exact (by decide : CryptoMsgType.ofCode (headerByte .initRcv >>> 5) = .initRcv)
  | initCryptoRcv z key sn hm _ he =>
    rw [he, hm]
    exact (by decide : CryptoMsgType.ofCode (headerByte .initCryptoRcv >>> 5) = .initCryptoRcv)
  | data hm ht => rw [ht, hm]

/-- What the reader opens is what was encoded. It holds the identity key, or the ephemeral
key, that the message is sealed for; Data it opens under the secret or not at all. -/
theorem payload (hP : P.Correct) (hmtu : mtu ≤ 65507) (h : SessionMsg P id a idRcv mtu b o)
    {l l' : Listener Prv Pub} {rAddr : Nat} {fresh : Except String Prv} {dec : Decoded} (hconn : connIdOf o.encData = id)
    (hrcv : b = true → l.prvKeyId = idRcv)
    (hdial : b = false → ∀ c, l.connMap.get? id = some c → c.prvKeyEpSnd = a)
    (hdata : o.msgType = .data → ∀ c, l.connMap.get? id = some c → ∃ sn e isSender key, key.length = 32 ∧
      (c.sharedSecret = none ∨ c.sharedSecret = some key) ∧ o.encData = dataHeader id ++
        sealedBody P sn e isSender key (dataHeader id) (encodePayload o.header o.userData).1)
    (hdec : l.decode P o.encData rAddr fresh = some (l', .ok dec)) :
    Listener.payloadOf dec = if o.msgType = .initSnd then some (.ok ({}, some []))
      else decodePayload (encodePayload o.header o.userData).1 := by
  have htype := h.msgType_eq
  cases Listener.decode_opened hdec with
  | initSnd ht =>
    rw [if_pos (htype.symm.trans ht)]
    rfl
  | initCryptoSnd m ht hd =>
    rw [htype] at ht
    cases h with
    | initCryptoSnd idKey key sn hm hkey hfit he =>
      rw [he, hrcv rfl] at hd
      rw [decryptInitCryptoSnd_text hP hfit hmtu (hP.ecdh_symm hkey) hd, hm]
      rfl
    | initSnd idSnd hm _ _ => cases hm.symm.trans ht
    | initRcv z key sn hm _ _ => cases hm.symm.trans ht
    | initCryptoRcv z key sn hm _ _ => cases hm.symm.trans ht
    | data hm _ => cases hm.symm.trans ht
  | initRcv c m ht hg hd =>
    rw [htype] at ht
    cases h with
    | initRcv z key sn hm hkey he =>
      rw [hconn] at hg
      rw [he, hdial rfl c hg] at hd
      rw [decryptInitRcv_text hP (hP.ecdh_symm hkey) hd, hm]
      rfl
    | initSnd idSnd hm _ _ => cases hm.symm.trans ht
    | initCryptoSnd idKey key sn hm _ _ _ => cases hm.symm.trans ht
    | initCryptoRcv z key sn hm _ _ => cases hm.symm.trans ht
    | data hm _ => cases hm.symm.trans ht
  | initCryptoRcv c m ht hg hd =>
    rw [htype] at ht
    cases h with
    | initCryptoRcv z key sn hm hkey he =>
      rw [hconn] at hg
      rw [he, hdial rfl c hg] at hd
      rw [decryptInitCryptoRcv_text hP (hP.ecdh_symm hkey) hd, hm]
      rfl
    | initSnd idSnd hm _ _ => cases hm.symm.trans ht
    | initCryptoSnd idKey key sn hm _ _ _ => cases hm.symm.trans ht
    | initRcv z key sn hm _ _ => cases hm.symm.trans ht
    | data hm _ => cases hm.symm.trans ht
  | data c m ht hg hd =>
    rw [htype] at ht
    rw [hconn] at hg
    obtain ⟨sn, e, isSender, key, hk, hsec, he⟩ := hdata ht c hg
    rw [he] at hd
    rw [(decryptData_text hP hk hsec hd).1, ht]
    rfl

end SessionMsg

namespace Conn

variable {l : ListenerCfg Prv} {c c' : Conn Prv Pub} {p : PayloadHeader} {u : Option Bytes} {enc : Bytes}

/-- The keys that a side of the session seals its handshake messages with. -/
structure SpeaksFor (P : Primitives Prv Pub) (id : Nat) (a idRcv : Prv) (b : Bool) (c : Conn Prv Pub) : Prop where
  connId : c.connId = id
  sender : c.isSenderOnInit = b
  dialer : b = true → c.prvKeyEpSnd = a ∧ (c.pubKeyIdRcv = none ∨ c.pubKeyIdRcv = some (P.publicKey idRcv))
  listener : b = false → c.pubKeyEpRcv = some (P.publicKey a)

variable {id : Nat} {a idRcv : Prv} {mtu : Int} {b : Bool}

/-- The first request: nothing is sealed, or the payload is, filled up to the MTU; a payload
that does not fit is refused. -/
theorem encode_sessionMsg_dialer (hP : P.Correct) (hc : c.SpeaksFor P id a idRcv true) (hd : c.isHandshakeDoneOnRcv = false)
    (h : c.encode P l p u c.msgType = some (c', .ok enc)) :
    SessionMsg P id a idRcv l.mtu true ⟨p, u, c.msgType, enc⟩ := by
  obtain ⟨hprv, hpin⟩ := hc.dialer rfl
  cases hw : c.isWithCryptoOnInit with
  | false =>
    have hm : c.msgType = .initSnd := by simp [msgType, hd, hc.sender, hw]
    rw [hm] at h ⊢
    obtain ⟨x, hx, h⟩ := Option.map_eq_some_iff.mp h
    cases finishInit_enc h
    unfold encryptInitSnd at hx
    split_ifs at hx with hmtu
    obtain ⟨n, _, rfl⟩ := Option.map_eq_some_iff.mp hx
    rw [hprv]
    exact .initSnd l.prvKeyId rfl (not_lt.mp hmtu) rfl
  | true =>
    have hm : c.msgType = .initCryptoSnd := by simp [msgType, hd, hc.sender, hw]
    rw [hm] at h ⊢
    obtain ⟨x, hx, h⟩ := Option.map_eq_some_iff.mp h
    obtain ⟨key, hkey, _⟩ := hP.ecdh_agree a idRcv
    obtain hpin | hpin := hpin
    · rw [hpin] at hx
      cases hx
    rw [hpin, hprv] at hx
    have hfit : ((encodePayload p u).1.length : Int) ≤ l.mtu - 89 := by
      by_contra hlt
      have hfill : l.mtu - ((minInitCryptoSndSizeHdr + footerDataSize + msgInitFillLenSize +
          (encodePayload p u).1.length : Nat) : Int) < 0 := by
        simp only [minInitCryptoSndSizeHdr, footerDataSize, msgInitFillLenSize, headerSize, pubKeySize, snSize, macSize]
        omega
      simp only [encryptInitCryptoSnd, Option.bind_eq_bind, Option.bind_some, if_pos hfill] at hx
      cases hx
      cases finishInit_enc h
    rw [encryptInitCryptoSnd_eq hP hkey hfit (encodePayload_length_ge p u)] at hx
    cases hx
    cases finishInit_enc h
    exact .initCryptoSnd l.prvKeyId key c.snCrypto rfl hkey hfit rfl

/-- The reply is sealed for the dialer. -/
theorem encode_sessionMsg_listener (hP : P.Correct) (hc : c.SpeaksFor P id a l.prvKeyId false)
    (hd : c.isHandshakeDoneOnRcv = false) (h : c.encode P l p u c.msgType = some (c', .ok enc)) :
    SessionMsg P id a l.prvKeyId mtu false ⟨p, u, c.msgType, enc⟩ := by
  have hlen := encodePayload_length_ge p u
  have hep := hc.listener rfl
  obtain ⟨key, hkey, _⟩ := hP.ecdh_agree c.prvKeyEpSnd a
  cases hw : c.isWithCryptoOnInit with
  | true =>
    have hm : c.msgType = .initCryptoRcv := by simp [msgType, hd, hc.sender, hw]
    rw [hm] at h ⊢
    obtain ⟨x, hx, h⟩ := Option.map_eq_some_iff.mp h
    rw [hep, encryptInitCryptoRcv_eq hP hkey hlen, hc.connId] at hx
    cases hx
    cases finishInit_enc h
    exact .initCryptoRcv c.prvKeyEpSnd key c.snCrypto rfl hkey rfl
  | false =>
    have hm : c.msgType = .initRcv := by simp [msgType, hd, hc.sender, hw]
    rw [hm] at h ⊢
    obtain ⟨x, hx, h⟩ := Option.map_eq_some_iff.mp h
    rw [hep, encryptInitRcv_eq hP hkey hlen, hc.connId] at hx
    cases hx
    cases finishInit_enc h
    exact .initRcv c.prvKeyEpSnd key c.snCrypto rfl hkey rfl

theorem encode_sessionMsg (hP : P.Correct) (hc : c.SpeaksFor P id a idRcv b) (hmtu : b = true → l.mtu = mtu)
    (hid : b = false → l.prvKeyId = idRcv) (h : c.encode P l p u c.msgType = some (c', .ok enc)) :
    SessionMsg P id a idRcv mtu b ⟨p, u, c.msgType, enc⟩ := by
  cases hd : c.isHandshakeDoneOnRcv with
  | true =>
    have hm : c.msgType = .data := if_pos hd
    rw [hm] at h ⊢
    obtain ⟨x, hx, h⟩ := Option.map_eq_some_iff.mp h
    obtain ⟨key, _, hx⟩ := Option.bind_eq_some_iff.mp hx
    cases x with
    | error e => cases h
    | ok x =>
      obtain ⟨rest, rfl⟩ := chainedEncrypt_header hx
      refine .data rfl ?_
      rw [← advanceSn_enc h]
      exact (by decide : CryptoMsgType.ofCode (headerByte .data >>> 5) = .data)
  | false =>
    cases b with
    | true =>
      rw [← hmtu rfl]
      exact encode_sessionMsg_dialer hP hc hd h
    | false =>
      rw [← hid rfl] at hc ⊢
      exact encode_sessionMsg_listener hP hc hd h

theorem SpeaksFor.sameCrypto (h : c.SpeaksFor P id a idRcv b) (hs : SameCrypto c c') : c'.SpeaksFor P id a idRcv b := by
  obtain ⟨_, _, _, _, _, _, _, rfl⟩ := hs
  exact ⟨h.connId, h.sender, h.dialer, h.listener⟩

/-- What `Flush` hands to the socket are messages of the session. -/
theorem flush_sessionMsg (hP : P.Correct) (hc : c.SpeaksFor P id a idRcv b) (hmtu : b = true → l.mtu = mtu)
    (hid : b = false → l.prvKeyId = idRcv) {k now : Nat} {w : WriteResult} {out : List Outgoing} {r : FlushResult}
    (h : c.flush P l k now w = some (c', out, r)) :
    c'.SpeaksFor P id a idRcv b ∧ ∀ o ∈ out, SessionMsg P id a idRcv mtu b o := by
  obtain ⟨rfl, hs⟩ | ⟨c₁, p, u, c₂, res, h₁, he, h₂, hout⟩ := flush_encodes h
  · exact ⟨hc.sameCrypto hs, nofun⟩
  have hc₁ := hc.sameCrypto h₁
  constructor
  · refine SpeaksFor.sameCrypto ?_ h₂
    obtain ⟨_, _, _, _, rfl⟩ := encode_frame P l he
    exact ⟨hc₁.connId, hc₁.sender, hc₁.dialer, hc₁.listener⟩
  · obtain rfl | ⟨enc, rfl, rfl⟩ := hout
    · exact nofun
    · intro o ho
      obtain rfl := List.mem_singleton.mp ho
      rw [← h₁.msgType_eq] at he ⊢
      exact encode_sessionMsg hP hc₁ hmtu hid he

end Conn

end Qotp
