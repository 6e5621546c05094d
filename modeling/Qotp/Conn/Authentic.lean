import Qotp.Conn.SessionMsg

namespace Qotp

open Framework

variable {Prv Pub : Type} {P : Primitives Prv Pub}

/-- A ciphertext opens only if sealing the text gives it again, as with every AEAD that
recomputes its tag. -/
def Primitives.Tidy (P : Primitives Prv Pub) : Prop :=
  ∀ key nonce cipher aad text, P.openAead key nonce cipher aad = .ok text → P.sealAead key nonce text aad = cipher

theorem plainHonest_tidy : plainHonest.Tidy := by
  intro key nonce cipher aad text h
  dsimp only [plainHonest, plain] at h ⊢
  split_ifs at h with htag
  cases h
  exact htag.symm

/-- No key opens but one of 32 bytes. -/
theorem key_of_chainedDecrypt {isSender : Bool} {epoch : Nat} {key header body : Bytes} {m : Message}
    (h : chainedDecrypt P isSender epoch key header body = some (.ok m)) : key.length = 32 := by
  by_contra hne
  obtain ⟨encSn, _, h⟩ := Option.bind_eq_some_iff.mp h
  obtain ⟨cipher, _, h⟩ := Option.bind_eq_some_iff.mp h
  obtain ⟨nonceRand, _, h⟩ := Option.bind_eq_some_iff.mp h
  simp only [openNoVerify, checkKey, if_neg hne] at h
  cases h

/-- Opening is the inverse of sealing: the bytes that open are those that the other direction
makes of the text, under one of the epochs that are tried. -/
theorem chainedEncrypt_of_chainedDecrypt (hP : P.Correct) (hT : P.Tidy) {isSender : Bool} {epoch : Nat}
    {key header body : Bytes} {m : Message} (h : chainedDecrypt P isSender epoch key header body = some (.ok m)) :
    m.currentEpochCrypt ∈ epochsToTry epoch ∧
      chainedEncrypt P m.snConn m.currentEpochCrypt (!isSender) key header m.payloadRaw = some (.ok (header ++ body)) := by
  have hk := key_of_chainedDecrypt h
  obtain ⟨encSn, hsn, h⟩ := Option.bind_eq_some_iff.mp h
  obtain ⟨cipher, hc, h⟩ := Option.bind_eq_some_iff.mp h
  obtain ⟨nonceRand, hn, h⟩ := Option.bind_eq_some_iff.mp h
  obtain ⟨⟨_, hsix⟩, rfl⟩ := slice?_eq_some.mp hsn
  obtain ⟨_, rfl⟩ := sliceFrom?_eq_some.mp hc
  obtain ⟨h24, rfl⟩ := sliceTo?_eq_some.mp hn
  simp only [openNoVerify, checkKey, if_pos hk] at h
  obtain ⟨sn, hsn, h⟩ := Option.bind_eq_some_iff.mp h
  cases ht : tryEpochs P isSender sn key header (body.drop snSize) (epochsToTry epoch) with
  | error e =>
    rw [ht] at h
    cases h
  | ok r =>
    rw [ht] at h
    cases h
    obtain ⟨hmem, hopen⟩ := tryEpochs_ok ht
    have hseal := hT _ _ _ _ _ hopen
    have hcipher := hP.seal_length key (nonceDet r.1 sn (!isSender)) r.2 header hk (nonceDet_length _ _ _)
    have h8 : 8 ≤ r.2.length := by
      rw [hseal] at hcipher
      have hmac : macSize = 16 := rfl
      omega
    have hmask : putUint48 sn = P.xorKeyStream key ((body.drop snSize).take 24) (body.take snSize) := by
      have hl : (P.xorKeyStream key ((body.drop snSize).take 24) (body.take snSize)).length = 6 := by
        rw [P.xorKeyStream_length, List.length_take_of_le hsix]
        rfl
      obtain ⟨_, hval⟩ := Option.ite_none_right_eq_some.mp hsn
      rw [List.drop_zero, List.take_of_length_le hl.le] at hval
      rw [← Option.some.inj hval, putUint48, ← hl, putLE_getLE]
    refine ⟨hmem, ?_⟩
    rw [chainedEncrypt_eq hP hk h8, sealedBody, hseal, hmask, hP.xorKeyStream_twice, List.take_append_drop]

/-- The datagram is what an encoder makes of the payload behind a header of `n` bytes, in an epoch
next to `epoch`. -/
def SealedWith (P : Primitives Prv Pub) (d : Bytes) (n : Nat) (isSender : Bool) (epoch : Nat) (key payload : Bytes) : Prop :=
  ∃ sn e, e ∈ epochsToTry epoch ∧ chainedEncrypt P sn e isSender key (d.take n) payload = some (.ok d)

theorem sealedWith_of_chainedDecrypt (hP : P.Correct) (hT : P.Tidy) {isSender : Bool} {epoch n : Nat} {key d : Bytes}
    {m : Message} (h : chainedDecrypt P isSender epoch key (field d 0 n) (d.drop n) = some (.ok m)) :
    SealedWith P d n (!isSender) epoch key m.payloadRaw := by
  obtain ⟨hmem, henc⟩ := chainedEncrypt_of_chainedDecrypt hP hT h
  rw [field, List.drop_zero, List.take_append_drop] at henc
  exact ⟨_, _, hmem, henc⟩

namespace Listener

variable {l l' : Listener Prv Pub} {d : Bytes} {rAddr : Nat} {fresh : Except String Prv} {dec : Decoded}

/-- Who sealed an accepted datagram, and what was sealed: the peer of a session its payload, a dialer
its payload behind the filler. Only an InitSnd is not sealed. A reply that is too short for the 24 bytes
behind the sequence number is left out, since it is opened with what follows it in the buffer. -/
def Authentic (P : Primitives Prv Pub) (l : Listener Prv Pub) (d : Bytes) (dec : Decoded) : Prop :=
  match dec.msgType with
  | .initSnd => dec.payload = []
  | .initRcv => 103 ≤ d.length → ∃ c ep key, l.connMap.get? (connIdOf d) = some c ∧ P.newPublicKey (field d 9 41) = .ok ep ∧
      P.ecdh c.prvKeyEpSnd ep = .ok key ∧ SealedWith P d 73 false 0 key dec.payload
  | .initCryptoSnd => ∃ ep key text, P.newPublicKey (field d 1 33) = .ok ep ∧ P.ecdh l.prvKeyId ep = .ok key ∧
      stripFiller text = some dec.payload ∧ SealedWith P d 65 true 0 key text
  | .initCryptoRcv => 71 ≤ d.length → ∃ c ep key, l.connMap.get? (connIdOf d) = some c ∧ P.newPublicKey (field d 9 41) = .ok ep ∧
      P.ecdh c.prvKeyEpSnd ep = .ok key ∧ SealedWith P d 41 false 0 key dec.payload
  | .data => ∃ c key, l.connMap.get? (connIdOf d) = some c ∧ c.sharedSecret = some key ∧
      SealedWith P d 9 (!c.isSenderOnInit) c.epochCryptoRcv key dec.payload
  | .unknown _ => False

theorem decryptInitCryptoSnd_authentic (hP : P.Correct) (hT : P.Tidy) {prv : Prv} {mtu : Int} {m : InitCryptoSndMsg Pub}
    (h : decryptInitCryptoSnd P d prv mtu = some (.ok m)) :
    ∃ ep key text, P.newPublicKey (field d 1 33) = .ok ep ∧ P.ecdh prv ep = .ok key ∧
      stripFiller text = some m.message.payloadRaw ∧ SealedWith P d 65 true 0 key text := by
  unfold decryptInitCryptoSnd at h
  split_ifs at h
  · cases h
  · obtain ⟨ep, hs, h⟩ := Option.bind_eq_some_iff.mp h
    obtain rfl : field d 1 33 = ep := (slice?_eq_some.mp hs).2
    cases hep : P.newPublicKey (field d 1 33) with
    | error e => simp [hep] at h
    | ok ep =>
      simp only [hep] at h
      obtain ⟨id, _, h⟩ := Option.bind_eq_some_iff.mp h
      cases hid : P.newPublicKey id with
      | error e => simp [hid] at h
      | ok idKey =>
        simp only [hid] at h
        cases hk : P.ecdh prv ep with
        | error e => simp [hk] at h
        | ok key =>
          simp only [hk] at h
          obtain ⟨header, hh, h⟩ := Option.bind_eq_some_iff.mp h
          obtain ⟨body, hb, h⟩ := Option.bind_eq_some_iff.mp h
          obtain ⟨r, hr, h⟩ := Option.bind_eq_some_iff.mp h
          obtain rfl : field d 0 65 = header := (slice?_eq_some.mp hh).2
          obtain rfl : d.drop 65 = body := (sliceFrom?_eq_some.mp hb).2
          cases r with
          | error e => cases h
          | ok msg =>
            obtain ⟨data, hdata, h⟩ := Option.bind_eq_some_iff.mp h
            cases h
            exact ⟨ep, key, msg.payloadRaw, rfl, hk, hdata, sealedWith_of_chainedDecrypt hP hT hr⟩

theorem decryptData_authentic (hP : P.Correct) (hT : P.Tidy) {isSender : Bool} {epoch : Nat} {secret : Option Bytes}
    {m : Message} (h : decryptData P d isSender epoch secret = some (.ok m)) :
    ∃ key, secret = some key ∧ SealedWith P d 9 (!isSender) epoch key m.payloadRaw := by
  unfold decryptData at h
  split_ifs at h
  · cases h
  obtain ⟨header, hh, h⟩ := Option.bind_eq_some_iff.mp h
  obtain ⟨body, hb, h⟩ := Option.bind_eq_some_iff.mp h
  obtain rfl : field d 0 9 = header := (slice?_eq_some.mp hh).2
  obtain rfl : d.drop 9 = body := (sliceFrom?_eq_some.mp hb).2
  cases secret with
  | none => cases key_of_chainedDecrypt h
  | some key => exact ⟨key, rfl, sealedWith_of_chainedDecrypt hP hT h⟩

/-- No datagram is accepted but what an encoder makes of the payload that is read, byte for byte, under
the key and in the direction of the other end. Only the filler of a request is free, and nothing is said
of a reply without room for a payload. -/
theorem accepted_is_authentic (hP : P.Correct) (hT : P.Tidy) (l l' : Listener Prv Pub) (d : Bytes) (rAddr : Nat)
    (fresh : Except String Prv) (dec : Decoded) (h : l.decode P d rAddr fresh = some (l', .ok dec)) :
    Authentic P l d dec := by
  cases decode_opened h with
  | initSnd ht => exact rfl
  | initRcv c m ht hg hd =>
    obtain ⟨_, hep, _, hkey, hopen⟩ := decryptInitRcv_ok hd
    exact fun _ => ⟨c, _, _, hg, hep, hkey, sealedWith_of_chainedDecrypt hP hT hopen⟩
  | initCryptoSnd m ht hd => exact decryptInitCryptoSnd_authentic hP hT hd
  | initCryptoRcv c m ht hg hd =>
    obtain ⟨_, hep, hkey, hopen⟩ := decryptInitCryptoRcv_ok hd
    exact fun _ => ⟨c, _, _, hg, hep, hkey, sealedWith_of_chainedDecrypt hP hT hopen⟩
  | data c m ht hg hd =>
    obtain ⟨key, hkey, hseal⟩ := decryptData_authentic hP hT hd
    exact ⟨c, key, hg, hkey, hseal⟩

/-- A listener behind the handshake with one dialer. -/
def establishedListener : Listener { prv : UInt8 // prv ≠ 0 } UInt8 :=
  ({ prvKeyId := ⟨67, by decide⟩, mtu := 300 } : Listener _ _).setConn 71
    { openedConn 71 0 ⟨73, by decide⟩ (some 79) (some 83) false false with
      sharedSecret := some (List.replicate 32 89), isHandshakeDoneOnRcv := true }

/-- The seventh datagram of the dialer. -/
def establishedDatagram : Bytes :=
  dataHeader 71 ++ sealedBody plainHonest 7 0 true (List.replicate 32 89) (dataHeader 71) (encodePayload {} (some [1, 2])).1

theorem established_authentic : ∃ l' dec,
    establishedListener.decode plainHonest establishedDatagram 0 (.error "") = some (l', .ok dec) ∧
    dec.payload = (encodePayload {} (some [1, 2])).1 ∧ Authentic plainHonest establishedListener establishedDatagram dec := by
  have hdec : ∃ r ∈ establishedListener.decode plainHonest establishedDatagram 0 (.error ""),
      r.2.toOption = some ⟨71, (encodePayload {} (some [1, 2])).1, .data⟩ := by decide +kernel
  obtain ⟨⟨l', res⟩, hr, hres⟩ := hdec
  cases res with
  | error e => cases hres
  | ok dec =>
    cases hres
    exact ⟨l', _, hr, rfl, accepted_is_authentic plainHonest_correct plainHonest_tidy _ l' _ _ _ _ hr⟩

end Listener

end Qotp
