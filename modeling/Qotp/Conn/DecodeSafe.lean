import Qotp.Conn.Listener
import Qotp.Conn.ListenerSpec
import Qotp.Crypto.Plain

namespace Qotp

open Framework

variable {Prv Pub : Type} (P : Primitives Prv Pub)

/-- Both keys of an InitRcv parse and the ephemeral one agrees with ours. -/
def InitRcvKeys (prvKeyEpSnd : Prv) (encData : Bytes) : Prop :=
  ∃ ep id key, P.newPublicKey (field encData 9 41) = .ok ep ∧ P.newPublicKey (field encData 41 73) = .ok id ∧
    P.ecdh prvKeyEpSnd ep = .ok key

def InitCryptoRcvKeys (prvKeyEpSnd : Prv) (encData : Bytes) : Prop :=
  ∃ ep key, P.newPublicKey (field encData 9 41) = .ok ep ∧ P.ecdh prvKeyEpSnd ep = .ok key

/-- The authenticated text of an InitCryptoSnd, if it opens under our identity key. -/
def InitCryptoSndText (prvKeyIdRcv : Prv) (encData text : Bytes) : Prop :=
  ∃ ep id key m, P.newPublicKey (field encData 1 33) = .ok ep ∧ P.newPublicKey (field encData 33 65) = .ok id ∧
    P.ecdh prvKeyIdRcv ep = .ok key ∧
    chainedDecrypt P false 0 key (field encData 0 65) (encData.drop 65) = some (.ok m) ∧ m.payloadRaw = text

/-- The text has no filler length, or the length names more bytes than follow. -/
def BadFiller (text : Bytes) : Prop := ∀ n, uint16 text = some n → text.length < 2 + n

theorem stripFiller_eq_none {text : Bytes} : stripFiller text = none ↔ BadFiller text := by
  unfold stripFiller BadFiller
  cases uint16 text with
  | none => simp
  | some n => simp [sliceFrom?]

theorem decryptInitSnd_ne_none {encData : Bytes} {mtu : Int} (hm : 97 ≤ mtu) :
    decryptInitSnd P encData mtu ≠ none := by
  by_cases hl : (encData.length : Int) < mtu
  · simp [decryptInitSnd, hl]
  · rw [decryptInitSnd_eq P (not_lt.mp hl) (by omega)]
    exact Option.some_ne_none _

theorem decryptInitRcv_eq_none {encData : Bytes} {prv : Prv} :
    decryptInitRcv P encData prv = none ↔
      95 ≤ encData.length ∧ encData.length < 103 ∧ InitRcvKeys P prv encData := by
  by_cases hl : 95 ≤ encData.length
  · have hbody : encData.length - 73 < snSize + 24 ↔ encData.length < 103 := by
      simp only [snSize]
      omega
    rw [decryptInitRcv_eq P hl]
    unfold InitRcvKeys
    cases P.newPublicKey (field encData 9 41) with
    | error e => simp
    | ok ep =>
      cases P.newPublicKey (field encData 41 73) with
      | error e => simp
      | ok id =>
        cases hk : P.ecdh prv ep with
        | error e => simp [hk]
        | ok key => simp [hk, chainedDecrypt_eq_none, hbody, hl]
  · have hs : encData.length < minInitRcvSizeHdr + footerDataSize := not_le.mp hl
    simp [decryptInitRcv, hs, hl]

theorem decryptInitCryptoRcv_eq_none {encData : Bytes} {prv : Prv} :
    decryptInitCryptoRcv P encData prv = none ↔
      63 ≤ encData.length ∧ encData.length < 71 ∧ InitCryptoRcvKeys P prv encData := by
  by_cases hl : 63 ≤ encData.length
  · have hbody : encData.length - 41 < snSize + 24 ↔ encData.length < 71 := by
      simp only [snSize]
      omega
    rw [decryptInitCryptoRcv_eq P hl]
    unfold InitCryptoRcvKeys
    cases P.newPublicKey (field encData 9 41) with
    | error e => simp
    | ok ep =>
      cases hk : P.ecdh prv ep with
      | error e => simp [hk]
      | ok key => simp [hk, chainedDecrypt_eq_none, hbody, hl]
  · have hs : encData.length < minInitCryptoRcvSizeHdr + footerDataSize := not_le.mp hl
    simp [decryptInitCryptoRcv, hs, hl]

theorem decryptInitCryptoSnd_eq_none {encData : Bytes} {prv : Prv} {mtu : Int} (hm : 97 ≤ mtu) :
    decryptInitCryptoSnd P encData prv mtu = none ↔
      mtu ≤ encData.length ∧ ∃ text, InitCryptoSndText P prv encData text ∧ BadFiller text := by
  by_cases hl : (encData.length : Int) < mtu
  · simp [decryptInitCryptoSnd, hl]
  · have hlen : 97 ≤ encData.length := by omega
    have hbody : ¬ (encData.drop 65).length < snSize + 24 := by
      rw [List.length_drop]
      simp only [snSize]
      omega
    rw [decryptInitCryptoSnd_eq P (not_lt.mp hl) (by omega)]
    unfold InitCryptoSndText initKeys
    cases P.newPublicKey (field encData 1 33) with
    | error e => simp
    | ok ep =>
      cases P.newPublicKey (field encData 33 65) with
      | error e => simp
      | ok id =>
        cases hk : P.ecdh prv ep with
        | error e => simp [hk]
        | ok key =>
          cases hd : chainedDecrypt P false 0 key (field encData 0 65) (encData.drop 65) with
          | none => exact absurd ((chainedDecrypt_eq_none P).mp hd) hbody
          | some r =>
            cases r with
            | error e => simp [hk, hd]
            | ok m => simp [hk, hd, stripFiller_eq_none, not_lt.mp hl]

theorem decryptData_ne_none {encData : Bytes} (h : minPacketSize ≤ encData.length) {isSender : Bool}
    {epoch : Nat} {secret : Option Bytes} : decryptData P encData isSender epoch secret ≠ none := by
  have h39 : 39 ≤ encData.length := h
  rw [decryptData_eq P (by omega), Ne, chainedDecrypt_eq_none, List.length_drop]
  simp only [snSize]
  omega

namespace Listener

variable {P} {l : Listener Prv Pub} {encData : Bytes} {connId rAddr : Nat} {fresh : Except String Prv}

theorem connForInit_ne_none {idKey epKey : Pub} {withCrypto : Bool} :
    l.connForInit P connId rAddr fresh idKey epKey withCrypto ≠ none := by
  unfold connForInit
  cases hg : l.connMap.get? connId with
  | some conn => exact nofun
  | none =>
    cases fresh with
    | error e => exact nofun
    | ok prv =>
      have hlog : ∃ r, logKeys P prv (some epKey) (some idKey) = some r := by
        simp only [logKeys, loggedSecrets, Option.bind_eq_bind, Option.bind_some]
        cases P.ecdh prv epKey with
        | error e => exact ⟨_, rfl⟩
        | ok _ => cases P.ecdh prv idKey <;> exact ⟨_, rfl⟩
      obtain ⟨r, hr⟩ := hlog
      simp only [newConn, hr]
      cases l.keyLog <;> cases l.connMap.contains connId <;> cases r <;> simp

theorem decodeInitSnd_ne_none (hm : 97 ≤ l.mtu) : l.decodeInitSnd P connId encData rAddr fresh ≠ none := by
  unfold decodeInitSnd
  cases hd : decryptInitSnd P encData l.mtu with
  | none => exact absurd hd (decryptInitSnd_ne_none P hm)
  | some r =>
    cases r with
    | error e => exact nofun
    | ok k =>
      cases hc : l.connForInit P connId rAddr fresh k.1 k.2 false with
      | none => exact absurd hc connForInit_ne_none
      | some c =>
        obtain ⟨l', conn⟩ := c
        simp only [Option.bind_eq_bind, Option.bind_some, hc]
        cases conn with
        | error e => exact nofun
        | ok conn => cases he : P.ecdh conn.prvKeyEpSnd k.2 <;> simp [he]

theorem decodeInitRcv_eq_none : l.decodeInitRcv P connId encData = none ↔
    ∃ conn, l.connMap.get? connId = some conn ∧ decryptInitRcv P encData conn.prvKeyEpSnd = none := by
  unfold decodeInitRcv
  cases l.connMap.get? connId with
  | none => simp
  | some conn =>
    cases hd : decryptInitRcv P encData conn.prvKeyEpSnd with
    | none => simp [hd]
    | some r => cases r <;> simp [hd]

theorem decodeInitCryptoRcv_eq_none : l.decodeInitCryptoRcv P connId encData = none ↔
    ∃ conn, l.connMap.get? connId = some conn ∧ decryptInitCryptoRcv P encData conn.prvKeyEpSnd = none := by
  unfold decodeInitCryptoRcv
  cases l.connMap.get? connId with
  | none => simp
  | some conn =>
    cases hd : decryptInitCryptoRcv P encData conn.prvKeyEpSnd with
    | none => simp [hd]
    | some r => cases r <;> simp [hd]

theorem decodeInitCryptoSnd_eq_none : l.decodeInitCryptoSnd P connId encData rAddr fresh = none ↔
    decryptInitCryptoSnd P encData l.prvKeyId l.mtu = none := by
  unfold decodeInitCryptoSnd
  cases hd : decryptInitCryptoSnd P encData l.prvKeyId l.mtu with
  | none => simp
  | some r =>
    simp only [reduceCtorEq, iff_false]
    cases r with
    | error e => exact nofun
    | ok m =>
      cases hc : l.connForInit P connId rAddr fresh m.pubKeyIdSnd m.pubKeyEpSnd true with
      | none => exact absurd hc connForInit_ne_none
      | some c =>
        obtain ⟨l', conn⟩ := c
        simp only [Option.bind_eq_bind, Option.bind_some, hc]
        cases conn <;> exact nofun

theorem decodeDataMsg_ne_none (h : minPacketSize ≤ encData.length) :
    l.decodeDataMsg P connId encData ≠ none := by
  unfold decodeDataMsg
  cases l.connMap.get? connId with
  | none => exact nofun
  | some conn =>
    cases hd : decryptData P encData conn.isSenderOnInit conn.epochCryptoRcv conn.sharedSecret with
    | none => exact absurd hd (decryptData_ne_none P h)
    | some r => cases r <;> simp [hd]

/-- The connection a datagram names. -/
def connOf (l : Listener Prv Pub) (encData : Bytes) : Option (Conn Prv Pub) :=
  l.connMap.get? (connIdOf encData)

variable (P) in
/-- The datagrams on which `decode` leaves the data: an InitCryptoSnd with a bad
filler length, and a reply to a known connection that is long enough for its
keys but not for the 24 bytes behind the sequence number. The data is taken to fill
its buffer: `Listen` reads a short reply into a longer one, where the 24 bytes are
there and the reply is opened with what follows it. -/
def Crashes (l : Listener Prv Pub) (encData : Bytes) : Prop :=
  minPacketSize ≤ encData.length ∧ ∃ header, encData[0]? = some header ∧ header &&& 0x1F = cryptoVersion ∧
    match CryptoMsgType.ofCode (header >>> 5) with
    | .initCryptoSnd => l.mtu ≤ encData.length ∧
        ∃ text, InitCryptoSndText P l.prvKeyId encData text ∧ BadFiller text
    | .initRcv => ∃ conn, l.connOf encData = some conn ∧
        95 ≤ encData.length ∧ encData.length < 103 ∧ InitRcvKeys P conn.prvKeyEpSnd encData
    | .initCryptoRcv => ∃ conn, l.connOf encData = some conn ∧
        63 ≤ encData.length ∧ encData.length < 71 ∧ InitCryptoRcvKeys P conn.prvKeyEpSnd encData
    | _ => False

/-- For an mtu that can carry an InitCryptoSnd, `decode` returns on exactly the
other datagrams. -/
theorem decode_returns_iff (P : Primitives Prv Pub) (l : Listener Prv Pub) (hm : 97 ≤ l.mtu) (encData : Bytes)
    (rAddr : Nat) (fresh : Except String Prv) :
    (∃ r, l.decode P encData rAddr fresh = some r) ↔ ¬ l.Crashes P encData := by
  rw [← Option.isSome_iff_exists, Option.isSome_iff_ne_none, not_iff_not]
  unfold Crashes
  by_cases hlen : encData.length < minPacketSize
  · simp [decode, hlen, not_le.mpr hlen]
  obtain ⟨header, hh⟩ := exists_header (not_lt.mp hlen)
  simp only [not_lt.mp hlen, true_and, hh, Option.some.injEq, exists_eq_left']
  by_cases hv : header &&& 0x1F = cryptoVersion
  · rw [decode_eq_dispatch P l (not_lt.mp hlen) hh hv, dispatch, msgTypeOf, hh, Option.getD_some]
    simp only [hv, true_and]
    cases CryptoMsgType.ofCode (header >>> 5) with
    | initSnd => simpa using decodeInitSnd_ne_none hm
    | initRcv => simp only [decodeInitRcv_eq_none, decryptInitRcv_eq_none, connOf]
    | initCryptoSnd => simp only [decodeInitCryptoSnd_eq_none, decryptInitCryptoSnd_eq_none P hm]
    | initCryptoRcv => simp only [decodeInitCryptoRcv_eq_none, decryptInitCryptoRcv_eq_none, connOf]
    | data => simpa using decodeDataMsg_ne_none (not_lt.mp hlen)
    | unknown c => simp
  · simp [decode, hlen, hh, hv]

/-- A listener without connections at the smallest mtu. -/
def plainListener : Listener UInt8 UInt8 := { prvKeyId := 3, mtu := 97 }

/-- What a peer with ephemeral key 5 seals for the identity key 3: a filler length
of 65535 in a text of ten bytes. -/
def fillerText : Bytes := [0xFF, 0xFF, 0, 0, 0, 0, 0, 0, 0, 0]

def fillerHeader : Bytes := [headerByte .initCryptoSnd] ++ plain.bytes 5 ++ plain.bytes 7

def fillerDatagram : Bytes :=
  fillerHeader ++ List.replicate 6 0 ++ plain.sealAead (List.replicate 32 15) (nonceDet 0 0 true) fillerText fillerHeader

/-- The datagram is what `chainedEncrypt` makes of the text; decoding it panics. -/
theorem filler_crashes :
    chainedEncrypt plain 0 0 true (List.replicate 32 15) fillerHeader fillerText = some (.ok fillerDatagram) ∧
    plain.ecdh 5 (plain.publicKey plainListener.prvKeyId) = .ok (List.replicate 32 15) ∧
    fillerDatagram.length = 97 ∧ plainListener.decode plain fillerDatagram 0 (.ok 9) = none := by
  decide +kernel

/-- The same text with a filler length of two is accepted. -/
def goodDatagram : Bytes :=
  fillerHeader ++ List.replicate 6 0 ++
    plain.sealAead (List.replicate 32 15) (nonceDet 0 0 true) [2, 0, 0, 0, 0, 0, 0, 0, 0, 0] fillerHeader

theorem goodDatagram_returns :
    97 ≤ plainListener.mtu ∧ ¬ plainListener.Crashes plain goodDatagram := by
  refine ⟨by decide, (decode_returns_iff plain plainListener (by decide) goodDatagram 0 (.ok 9)).mp ?_⟩
  exact Option.isSome_iff_exists.mp (by decide +kernel)

end Listener

end Qotp
