import Qotp.Conn.Listener
import Qotp.Crypto.MessageSpec

namespace Qotp

open Framework

variable {Prv Pub : Type}

/-- The message type and the connection id that a datagram names. -/
def msgTypeOf (encData : Bytes) : CryptoMsgType := CryptoMsgType.ofCode ((encData[0]?.getD 0) >>> 5)

def connIdOf (encData : Bytes) : Nat := getLE (field encData 1 9)

theorem exists_header {encData : Bytes} (h : minPacketSize ≤ encData.length) :
    ∃ header, encData[0]? = some header := by
  cases encData with
  | nil => exact absurd h (by decide)
  | cons b bs => exact ⟨b, rfl⟩

section Opened

variable {P : Primitives Prv Pub} {encData : Bytes} {prv : Prv} {mtu : Int}

/-- What an accepted InitRcv carried. -/
theorem decryptInitRcv_ok {m : InitRcvMsg Pub} (h : decryptInitRcv P encData prv = some (.ok m)) :
    95 ≤ encData.length ∧ P.newPublicKey (field encData 9 41) = .ok m.pubKeyEpRcv ∧
      P.newPublicKey (field encData 41 73) = .ok m.pubKeyIdRcv ∧
      P.ecdh prv m.pubKeyEpRcv = .ok m.sharedSecret ∧
      chainedDecrypt P true 0 m.sharedSecret (field encData 0 73) (encData.drop 73) = some (.ok m.message) := by
  by_cases hl : 95 ≤ encData.length
  · rw [decryptInitRcv_eq P hl] at h
    cases hep : P.newPublicKey (field encData 9 41) with
    | error e => simp [hep] at h
    | ok ep =>
      cases hid : P.newPublicKey (field encData 41 73) with
      | error e => simp [hep, hid] at h
      | ok id =>
        cases hk : P.ecdh prv ep with
        | error e => simp [hep, hid, hk] at h
        | ok key =>
          simp only [hep, hid, hk] at h
          obtain ⟨r, hd, hr⟩ := Option.map_eq_some_iff.mp h
          cases r with
          | error e => cases hr
          | ok msg =>
            cases hr
            exact ⟨hl, rfl, rfl, hk, hd⟩
  · have hmin : encData.length < minInitRcvSizeHdr + footerDataSize := not_le.mp hl
    rw [decryptInitRcv, if_pos hmin] at h
    cases h

/-- What an accepted InitCryptoRcv carried. -/
theorem decryptInitCryptoRcv_ok {m : InitCryptoRcvMsg Pub}
    (h : decryptInitCryptoRcv P encData prv = some (.ok m)) :
    63 ≤ encData.length ∧ P.newPublicKey (field encData 9 41) = .ok m.pubKeyEpRcv ∧
      P.ecdh prv m.pubKeyEpRcv = .ok m.sharedSecret ∧
      chainedDecrypt P true 0 m.sharedSecret (field encData 0 41) (encData.drop 41) = some (.ok m.message) := by
  by_cases hl : 63 ≤ encData.length
  · rw [decryptInitCryptoRcv_eq P hl] at h
    cases hep : P.newPublicKey (field encData 9 41) with
    | error e => simp [hep] at h
    | ok ep =>
      cases hk : P.ecdh prv ep with
      | error e => simp [hep, hk] at h
      | ok key =>
        simp only [hep, hk] at h
        obtain ⟨r, hd, hr⟩ := Option.map_eq_some_iff.mp h
        cases r with
        | error e => cases hr
        | ok msg =>
          cases hr
          exact ⟨hl, rfl, hk, hd⟩
  · have hmin : encData.length < minInitCryptoRcvSizeHdr + footerDataSize := not_le.mp hl
    rw [decryptInitCryptoRcv, if_pos hmin] at h
    cases h

/-- The ephemeral key of an accepted InitSnd. -/
theorem decryptInitSnd_ok {k : Pub × Pub} (h : decryptInitSnd P encData mtu = some (.ok k)) :
    P.newPublicKey (field encData 1 33) = .ok k.2 := by
  unfold decryptInitSnd at h
  split_ifs at h
  · cases h
  · obtain ⟨ep, hs, h⟩ := Option.bind_eq_some_iff.mp h
    obtain rfl : field encData 1 33 = ep := (slice?_eq_some.mp hs).2
    cases hep : P.newPublicKey (field encData 1 33) with
    | error e => simp [hep] at h
    | ok key =>
      simp only [hep] at h
      obtain ⟨id, _, h⟩ := Option.bind_eq_some_iff.mp h
      cases hid : P.newPublicKey id with
      | error e => simp [hid] at h
      | ok idKey =>
        simp only [hid] at h
        cases h
        rfl

/-- The size and the ephemeral key of an accepted InitCryptoSnd. -/
theorem decryptInitCryptoSnd_ok {m : InitCryptoSndMsg Pub}
    (h : decryptInitCryptoSnd P encData prv mtu = some (.ok m)) :
    65 ≤ encData.length ∧ P.newPublicKey (field encData 1 33) = .ok m.pubKeyEpSnd := by
  unfold decryptInitCryptoSnd at h
  split_ifs at h
  · cases h
  · obtain ⟨ep, hs, h⟩ := Option.bind_eq_some_iff.mp h
    obtain rfl : field encData 1 33 = ep := (slice?_eq_some.mp hs).2
    cases hep : P.newPublicKey (field encData 1 33) with
    | error e => simp [hep] at h
    | ok key =>
      simp only [hep] at h
      obtain ⟨id, hsid, h⟩ := Option.bind_eq_some_iff.mp h
      have h65 : 65 ≤ encData.length := (slice?_eq_some.mp hsid).1.2
      cases hid : P.newPublicKey id with
      | error e => simp [hid] at h
      | ok idKey =>
        simp only [hid] at h
        cases hk : P.ecdh prv key with
        | error e => simp [hk] at h
        | ok secret =>
          simp only [hk] at h
          obtain ⟨header, _, h⟩ := Option.bind_eq_some_iff.mp h
          obtain ⟨body, _, h⟩ := Option.bind_eq_some_iff.mp h
          obtain ⟨r, _, h⟩ := Option.bind_eq_some_iff.mp h
          cases r with
          | error e => cases h
          | ok msg =>
            obtain ⟨data, _, h⟩ := Option.bind_eq_some_iff.mp h
            cases h
            exact ⟨h65, rfl⟩

end Opened

namespace Listener

variable (P : Primitives Prv Pub) {l l' : Listener Prv Pub} {encData : Bytes} {rAddr : Nat}
  {fresh : Except String Prv} {r : Except String Decoded}

/-- What a datagram can do to the connection it names. -/
inductive Update (l : Listener Prv Pub) (encData : Bytes) (conn : Conn Prv Pub) : Conn Prv Pub → Prop
  | initSnd (k : Pub × Pub) (secret : Bytes) (ht : msgTypeOf encData = .initSnd)
      (hd : decryptInitSnd P encData l.mtu = some (.ok k)) (hk : P.ecdh conn.prvKeyEpSnd k.2 = .ok secret) :
      Update l encData conn { conn with sharedSecret := some secret }
  | initRcv (m : InitRcvMsg Pub) (ht : msgTypeOf encData = .initRcv)
      (hd : decryptInitRcv P encData conn.prvKeyEpSnd = some (.ok m)) :
      Update l encData conn { conn with
        pubKeyIdRcv := some m.pubKeyIdRcv
        pubKeyEpRcv := some m.pubKeyEpRcv
        sharedSecret := some m.sharedSecret }
  | initCryptoSnd (m : InitCryptoSndMsg Pub) (ht : msgTypeOf encData = .initCryptoSnd)
      (hd : decryptInitCryptoSnd P encData l.prvKeyId l.mtu = some (.ok m)) :
      Update l encData conn { conn with sharedSecret := (P.ecdh conn.prvKeyEpSnd m.pubKeyEpSnd).toOption }
  | initCryptoRcv (m : InitCryptoRcvMsg Pub) (ht : msgTypeOf encData = .initCryptoRcv)
      (hd : decryptInitCryptoRcv P encData conn.prvKeyEpSnd = some (.ok m)) :
      Update l encData conn { conn with
        pubKeyEpRcv := some m.pubKeyEpRcv
        sharedSecret := some m.sharedSecret }
  | data (epoch : Nat) (ht : msgTypeOf encData = .data) :
      Update l encData conn { conn with epochCryptoRcv := epoch }

/-- `decode` as a choice between its five branches. -/
def dispatch (l : Listener Prv Pub) (encData : Bytes) (rAddr : Nat) (fresh : Except String Prv) :
    Option (Listener Prv Pub × Except String Decoded) :=
  match msgTypeOf encData with
  | .initSnd => l.decodeInitSnd P (connIdOf encData) encData rAddr fresh
  | .initRcv => l.decodeInitRcv P (connIdOf encData) encData
  | .initCryptoSnd => l.decodeInitCryptoSnd P (connIdOf encData) encData rAddr fresh
  | .initCryptoRcv => l.decodeInitCryptoRcv P (connIdOf encData) encData
  | .data => l.decodeDataMsg P (connIdOf encData) encData
  | .unknown _ =>
    let code := ((encData[0]?.getD 0) >>> 5).toNat
    some (l, .error s!"unknown message type: {code}")

/-- Behind the checks of length and version no bound is missed on the way to a branch. -/
theorem decode_eq_dispatch (l : Listener Prv Pub) {encData : Bytes} {header : UInt8}
    (hlen : minPacketSize ≤ encData.length) (hh : encData[0]? = some header)
    (hv : header &&& 0x1F = cryptoVersion) (rAddr : Nat) (fresh : Except String Prv) :
    l.decode P encData rAddr fresh = l.dispatch P encData rAddr fresh := by
  have h39 : 39 ≤ encData.length := hlen
  have hs : slice? encData headerSize (connIdSize + headerSize) = some (field encData 1 9) :=
    slice?_eq_field (by decide) (h39.trans' (by decide))
  have hid : uint64 (field encData 1 9) = some (connIdOf encData) := by
    have hl : (field encData 1 9).length = 8 := by
      rw [field, List.length_drop, List.length_take_of_le (by omega)]
    rw [uint64, getLE?, if_pos hl.ge, ← hl, List.take_length, connIdOf]
  unfold decode dispatch msgTypeOf
  rw [if_neg (not_lt.mpr hlen)]
  simp only [hh, Option.bind_eq_bind, Option.bind_some, hs, hid, hv, ne_eq, not_true_eq_false, if_false,
    Option.getD_some]
  cases CryptoMsgType.ofCode (header >>> 5) <;> rfl

/-- A datagram that is too short or of another version changes nothing. -/
theorem decode_cases (h : l.decode P encData rAddr fresh = some (l', r)) :
    (l' = l ∧ ∃ e, r = .error e) ∨ l.dispatch P encData rAddr fresh = some (l', r) := by
  by_cases hlen : encData.length < minPacketSize
  · rw [decode, if_pos hlen] at h
    cases h
    exact .inl ⟨rfl, _, rfl⟩
  obtain ⟨header, hh⟩ := exists_header (not_lt.mp hlen)
  by_cases hv : header &&& 0x1F = cryptoVersion
  · rw [decode_eq_dispatch P l (not_lt.mp hlen) hh hv] at h
    exact .inr h
  · simp only [decode, if_neg hlen, hh, Option.bind_eq_bind, Option.bind_some, ne_eq, hv, not_false_eq_true,
      if_true] at h
    cases h
    exact .inl ⟨rfl, _, rfl⟩

theorem get?_setConn (l : Listener Prv Pub) (k j : Nat) (conn : Conn Prv Pub) :
    (l.setConn k conn).connMap.get? j = if j = k then some conn else l.connMap.get? j :=
  InsertionMap.get?_put _ _ _ _

/-- A datagram for `connId` leaves the other connections alone. A known connection is
updated if the datagram is accepted, and is as it was if not. -/
structure Effect (l : Listener Prv Pub) (encData : Bytes) (l' : Listener Prv Pub)
    (r : Except String Decoded) : Prop where
  others : ∀ j ≠ connIdOf encData, l'.connMap.get? j = l.connMap.get? j
  named : ∀ conn, l.connMap.get? (connIdOf encData) = some conn →
    (l' = l ∧ ∃ e, r = .error e) ∨
    ∃ conn', Update P l encData conn conn' ∧ l' = l.setConn (connIdOf encData) conn' ∧ ∃ dec, r = .ok dec
  result : ∀ dec, r = .ok dec → dec.connId = connIdOf encData ∧ dec.msgType = msgTypeOf encData

theorem effect_refl (l : Listener Prv Pub) (encData : Bytes) (e : String) :
    Effect P l encData l (.error e) := ⟨fun _ _ => rfl, fun _ _ => .inl ⟨rfl, e, rfl⟩, nofun⟩

theorem effect_known {conn conn' : Conn Prv Pub} {payload : Bytes}
    (hg : l.connMap.get? (connIdOf encData) = some conn) (hu : Update P l encData conn conn') :
    Effect P l encData (l.setConn (connIdOf encData) conn')
      (.ok ⟨connIdOf encData, payload, msgTypeOf encData⟩) := by
  refine ⟨fun j hj => by rw [get?_setConn, if_neg hj], fun c hgc => ?_, fun dec hdec => ?_⟩
  · obtain rfl : conn = c := Option.some.inj (hg.symm.trans hgc)
    exact .inr ⟨conn', hu, rfl, _, rfl⟩
  · cases hdec
    exact ⟨rfl, rfl⟩

/-- A datagram of an unknown connection may add one under its own id. -/
theorem effect_unknown (hg : l.connMap.get? (connIdOf encData) = none)
    (hoth : ∀ j ≠ connIdOf encData, l'.connMap.get? j = l.connMap.get? j)
    (hres : ∀ dec, r = .ok dec → dec.connId = connIdOf encData ∧ dec.msgType = msgTypeOf encData) :
    Effect P l encData l' r := ⟨hoth, fun _ hgc => absurd (hg.symm.trans hgc) nofun, hres⟩

/-- A connection as `newConn` makes it. -/
def openedConn (connId remoteAddr : Nat) (prvKeyEpSnd : Prv) (pubKeyIdRcv pubKeyEpRcv : Option Pub)
    (isSender withCrypto : Bool) : Conn Prv Pub :=
  { connId := connId, remoteAddr := remoteAddr, prvKeyEpSnd := prvKeyEpSnd, pubKeyEpRcv := pubKeyEpRcv,
    pubKeyIdRcv := pubKeyIdRcv, isSenderOnInit := isSender, isWithCryptoOnInit := withCrypto }

/-- `newConn` changes nothing when it fails; else it stores the connection it returns. -/
theorem newConn_cases {l₁ : Listener Prv Pub} {connId : Nat} {prv : Prv} {idKey epKey : Option Pub}
    {isSender withCrypto : Bool} {res : Except String (Conn Prv Pub)}
    (h : l.newConn P connId rAddr prv idKey epKey isSender withCrypto = some (l₁, res)) :
    (l₁ = l ∧ ∃ e, res = .error e) ∨
    (l.connMap.get? connId = none ∧ (l.keyLog = true → logKeys P prv epKey idKey = some (.ok ())) ∧
      l₁ = l.setConn connId (openedConn connId rAddr prv idKey epKey isSender withCrypto) ∧
      res = .ok (openedConn connId rAddr prv idKey epKey isSender withCrypto)) := by
  unfold newConn at h
  by_cases hcon : l.connMap.contains connId = true
  · rw [if_pos hcon] at h
    cases h
    exact .inl ⟨rfl, _, rfl⟩
  rw [if_neg hcon] at h
  have hnone : l.connMap.get? connId = none := by
    rwa [InsertionMap.contains, Bool.not_eq_true, Option.isSome_eq_false_iff, Option.isNone_iff_eq_none] at hcon
  dsimp only at h
  by_cases hk : l.keyLog = true
  · rw [if_pos hk] at h
    obtain ⟨logged, hlog, h⟩ := Option.bind_eq_some_iff.mp h
    cases logged with
    | error e =>
      cases h
      exact .inl ⟨rfl, _, rfl⟩
    | ok _ =>
      cases h
      exact .inr ⟨hnone, fun _ => hlog, rfl, rfl⟩
  · rw [if_neg hk] at h
    cases h
    exact .inr ⟨hnone, fun h => absurd h hk, rfl, rfl⟩

/-- A known connection is found; only an unknown id makes a new one. -/
theorem connForInit_cases {l₁ : Listener Prv Pub} {connId : Nat} {idKey epKey : Pub} {withCrypto : Bool}
    {res : Except String (Conn Prv Pub)}
    (h : l.connForInit P connId rAddr fresh idKey epKey withCrypto = some (l₁, res)) :
    (∃ conn, l.connMap.get? connId = some conn ∧ l₁ = l ∧ res = .ok conn) ∨
    (l₁ = l ∧ ∃ e, res = .error e) ∨
    (∃ prv, l.connMap.get? connId = none ∧ fresh = .ok prv ∧
      (l.keyLog = true → logKeys P prv (some epKey) (some idKey) = some (.ok ())) ∧
      l₁ = l.setConn connId (openedConn connId rAddr prv (some idKey) (some epKey) false withCrypto) ∧
      res = .ok (openedConn connId rAddr prv (some idKey) (some epKey) false withCrypto)) := by
  unfold connForInit at h
  cases hg : l.connMap.get? connId with
  | some conn =>
    simp only [hg] at h
    cases h
    exact .inl ⟨conn, rfl, rfl, rfl⟩
  | none =>
    refine .inr ?_
    simp only [hg] at h
    cases fresh with
    | error e =>
      cases h
      exact .inl ⟨rfl, _, rfl⟩
    | ok prv =>
      obtain ⟨⟨l₂, c⟩, hn, hc⟩ := Option.map_eq_some_iff.mp h
      cases hc
      obtain ⟨rfl, e, rfl⟩ | ⟨_, hlog, rfl, rfl⟩ := newConn_cases P hn
      · exact .inl ⟨rfl, _, rfl⟩
      · exact .inr ⟨prv, rfl, rfl, hlog, rfl, rfl⟩

theorem decodeInitSnd_effect (ht : msgTypeOf encData = .initSnd)
    (h : l.decodeInitSnd P (connIdOf encData) encData rAddr fresh = some (l', r)) :
    Effect P l encData l' r := by
  obtain ⟨dec, hd, h⟩ := Option.bind_eq_some_iff.mp h
  cases dec with
  | error e =>
    cases h
    exact effect_refl P l encData _
  | ok k =>
    obtain ⟨⟨l₁, res⟩, hc, h⟩ := Option.bind_eq_some_iff.mp h
    obtain ⟨conn, hg, rfl, rfl⟩ | ⟨rfl, e, rfl⟩ | ⟨prv, hnone, _, _, rfl, rfl⟩ := connForInit_cases P hc
    · dsimp only at h
      cases hk : P.ecdh conn.prvKeyEpSnd k.2 with
      | error e =>
        simp only [hk] at h
        cases h
        exact effect_refl P _ encData _
      | ok secret =>
        simp only [hk] at h
        cases h
        rw [← ht]
        exact effect_known P hg (.initSnd k secret ht hd hk)
    · cases h
      exact effect_refl P _ encData _
    · dsimp only [openedConn] at h
      cases hk : P.ecdh prv k.2 with
      | error e =>
        simp only [hk] at h
        cases h
        exact effect_unknown P hnone (fun j hj => by rw [get?_setConn, if_neg hj]) nofun
      | ok secret =>
        simp only [hk] at h
        cases h
        refine effect_unknown P hnone (fun j hj => ?_) fun dec hdec => ?_
        · rw [get?_setConn, if_neg hj, get?_setConn, if_neg hj]
        · cases hdec
          exact ⟨rfl, ht.symm⟩

theorem decodeInitCryptoSnd_effect (ht : msgTypeOf encData = .initCryptoSnd)
    (h : l.decodeInitCryptoSnd P (connIdOf encData) encData rAddr fresh = some (l', r)) :
    Effect P l encData l' r := by
  obtain ⟨dec, hd, h⟩ := Option.bind_eq_some_iff.mp h
  cases dec with
  | error e =>
    cases h
    exact effect_refl P l encData _
  | ok m =>
    obtain ⟨⟨l₁, res⟩, hc, h⟩ := Option.bind_eq_some_iff.mp h
    obtain ⟨conn, hg, rfl, rfl⟩ | ⟨rfl, e, rfl⟩ | ⟨prv, hnone, _, _, rfl, rfl⟩ := connForInit_cases P hc
    · cases h
      rw [← ht]
      exact effect_known P hg (.initCryptoSnd m ht hd)
    · cases h
      exact effect_refl P _ encData _
    · cases h
      refine effect_unknown P hnone (fun j hj => ?_) fun dec hdec => ?_
      · rw [get?_setConn, if_neg hj, get?_setConn, if_neg hj]
      · cases hdec
        exact ⟨rfl, ht.symm⟩

theorem decodeInitRcv_effect (ht : msgTypeOf encData = .initRcv)
    (h : l.decodeInitRcv P (connIdOf encData) encData = some (l', r)) : Effect P l encData l' r := by
  unfold decodeInitRcv at h
  cases hg : l.connMap.get? (connIdOf encData) with
  | none =>
    simp only [hg] at h
    cases h
    exact effect_refl P l encData _
  | some conn =>
    simp only [hg] at h
    obtain ⟨dec, hd, h⟩ := Option.bind_eq_some_iff.mp h
    cases dec with
    | error e =>
      cases h
      exact effect_refl P l encData _
    | ok m =>
      cases h
      rw [← ht]
      exact effect_known P hg (.initRcv m ht hd)

theorem decodeInitCryptoRcv_effect (ht : msgTypeOf encData = .initCryptoRcv)
    (h : l.decodeInitCryptoRcv P (connIdOf encData) encData = some (l', r)) : Effect P l encData l' r := by
  unfold decodeInitCryptoRcv at h
  cases hg : l.connMap.get? (connIdOf encData) with
  | none =>
    simp only [hg] at h
    cases h
    exact effect_refl P l encData _
  | some conn =>
    simp only [hg] at h
    obtain ⟨dec, hd, h⟩ := Option.bind_eq_some_iff.mp h
    cases dec with
    | error e =>
      cases h
      exact effect_refl P l encData _
    | ok m =>
      cases h
      rw [← ht]
      exact effect_known P hg (.initCryptoRcv m ht hd)

theorem decodeDataMsg_effect (ht : msgTypeOf encData = .data)
    (h : l.decodeDataMsg P (connIdOf encData) encData = some (l', r)) : Effect P l encData l' r := by
  unfold decodeDataMsg at h
  cases hg : l.connMap.get? (connIdOf encData) with
  | none =>
    simp only [hg] at h
    cases h
    exact effect_refl P l encData _
  | some conn =>
    simp only [hg] at h
    obtain ⟨dec, hd, h⟩ := Option.bind_eq_some_iff.mp h
    cases dec with
    | error e =>
      cases h
      exact effect_refl P l encData _
    | ok m =>
      cases h
      rw [← ht]
      apply effect_known P hg
      split_ifs
      · exact .data _ ht
      · exact .data conn.epochCryptoRcv ht

/-- What `Listener.decode` can do to the connections. -/
theorem decode_effect (h : l.decode P encData rAddr fresh = some (l', r)) : Effect P l encData l' r := by
  obtain ⟨rfl, e, rfl⟩ | h := decode_cases P h
  · exact effect_refl P l' encData e
  unfold dispatch at h
  cases ht : msgTypeOf encData with
  | initSnd =>
    rw [ht] at h
    exact decodeInitSnd_effect P ht h
  | initRcv =>
    rw [ht] at h
    exact decodeInitRcv_effect P ht h
  | initCryptoSnd =>
    rw [ht] at h
    exact decodeInitCryptoSnd_effect P ht h
  | initCryptoRcv =>
    rw [ht] at h
    exact decodeInitCryptoRcv_effect P ht h
  | data =>
    rw [ht] at h
    exact decodeDataMsg_effect P ht h
  | unknown c =>
    rw [ht] at h
    cases h
    exact effect_refl P l encData _

variable {P}

/-- A connection is never lost, and only the one that the datagram names changes. -/
theorem Effect.conn (h : Effect P l encData l' r) {id : Nat} {conn : Conn Prv Pub}
    (hget : l.connMap.get? id = some conn) :
    ∃ conn', l'.connMap.get? id = some conn' ∧
      (conn' = conn ∨ (id = connIdOf encData ∧ Update P l encData conn conn')) := by
  by_cases hid : id = connIdOf encData
  · subst hid
    obtain ⟨rfl, _⟩ | ⟨conn', hu, rfl, _⟩ := h.named conn hget
    · exact ⟨conn, hget, .inl rfl⟩
    · exact ⟨conn', by rw [get?_setConn, if_pos rfl], .inr ⟨rfl, hu⟩⟩
  · exact ⟨conn, (h.others id hid).trans hget, .inl rfl⟩

/-- A refused datagram leaves every connection. -/
theorem Effect.refused {e : String} (h : Effect P l encData l' (.error e)) {id : Nat} {conn : Conn Prv Pub}
    (hget : l.connMap.get? id = some conn) : l'.connMap.get? id = some conn := by
  by_cases hid : id = connIdOf encData
  · subst hid
    obtain ⟨rfl, _⟩ | ⟨_, _, _, _, hok⟩ := h.named conn hget
    · exact hget
    · cases hok
  · exact (h.others id hid).trans hget

end Listener

end Qotp
