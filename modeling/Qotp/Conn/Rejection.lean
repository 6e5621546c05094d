import Qotp.Conn.ListenerSpec
import Qotp.Crypto.Plain

namespace Qotp

open Framework

variable {Prv Pub : Type}

namespace Listener

variable (P : Primitives Prv Pub) {l l' : Listener Prv Pub} {encData : Bytes} {rAddr : Nat}
  {fresh : Except String Prv} {r : Except String Decoded}

/-- A well-formed InitSnd for an unknown connection whose ephemeral key the agreement
refuses. The connection is stored before the agreement is tried; with a key log the
agreement is tried first. -/
structure OpensLowOrder (l : Listener Prv Pub) (encData : Bytes) (fresh : Except String Prv) : Prop where
  long : minPacketSize ≤ encData.length
  version : (encData[0]?.getD 0) &&& 0x1F = cryptoVersion
  type : msgTypeOf encData = .initSnd
  full : l.mtu ≤ encData.length
  unknown : l.connMap.get? (connIdOf encData) = none
  quiet : l.keyLog = false
  refused : ∃ ep id prv e, 65 ≤ encData.length ∧ initKeys P encData = .ok (ep, id) ∧ fresh = .ok prv ∧
    P.ecdh prv ep = .error e

/-- What a datagram for an unknown connection can do. -/
inductive Opening (l : Listener Prv Pub) (encData : Bytes) (rAddr : Nat) (fresh : Except String Prv) :
    Listener Prv Pub → Except String Decoded → Prop
  | refused (e : String) : Opening l encData rAddr fresh l (.error e)
  | halfOpen (k : Pub × Pub) (prv : Prv) (e err : String) (ht : msgTypeOf encData = .initSnd)
      (hd : decryptInitSnd P encData l.mtu = some (.ok k)) (hf : fresh = .ok prv) (hq : l.keyLog = false)
      (hk : P.ecdh prv k.2 = .error err) :
      Opening l encData rAddr fresh (l.setConn (connIdOf encData)
        (openedConn (connIdOf encData) rAddr prv (some k.1) (some k.2) false false)) (.error e)
  | initSnd (k : Pub × Pub) (prv : Prv) (secret : Bytes) (ht : msgTypeOf encData = .initSnd)
      (hd : decryptInitSnd P encData l.mtu = some (.ok k)) (hf : fresh = .ok prv)
      (hk : P.ecdh prv k.2 = .ok secret) (l' : Listener Prv Pub)
      (hl : l' = (l.setConn (connIdOf encData)
        (openedConn (connIdOf encData) rAddr prv (some k.1) (some k.2) false false)).setConn (connIdOf encData)
        { openedConn (connIdOf encData) rAddr prv (some k.1) (some k.2) false false with
          sharedSecret := some secret }) :
      Opening l encData rAddr fresh l' (.ok ⟨connIdOf encData, [], .initSnd⟩)
  | initCryptoSnd (m : InitCryptoSndMsg Pub) (prv : Prv) (ht : msgTypeOf encData = .initCryptoSnd)
      (hd : decryptInitCryptoSnd P encData l.prvKeyId l.mtu = some (.ok m)) (hf : fresh = .ok prv)
      (l' : Listener Prv Pub)
      (hl : l' = (l.setConn (connIdOf encData)
        (openedConn (connIdOf encData) rAddr prv (some m.pubKeyIdSnd) (some m.pubKeyEpSnd) false true)).setConn
        (connIdOf encData)
        { openedConn (connIdOf encData) rAddr prv (some m.pubKeyIdSnd) (some m.pubKeyEpSnd) false true with
          sharedSecret := (P.ecdh prv m.pubKeyEpSnd).toOption }) :
      Opening l encData rAddr fresh l' (.ok ⟨connIdOf encData, m.message.payloadRaw, .initCryptoSnd⟩)

theorem decodeInitSnd_opening (ht : msgTypeOf encData = .initSnd) (hg : l.connMap.get? (connIdOf encData) = none)
    (h : l.decodeInitSnd P (connIdOf encData) encData rAddr fresh = some (l', r)) :
    Opening P l encData rAddr fresh l' r := by
  obtain ⟨dec, hd, h⟩ := Option.bind_eq_some_iff.mp h
  cases dec with
  | error e =>
    cases h
    exact .refused _
  | ok k =>
    obtain ⟨⟨l₁, res⟩, hc, h⟩ := Option.bind_eq_some_iff.mp h
    obtain ⟨conn, hknown, _⟩ | ⟨rfl, e, rfl⟩ | ⟨prv, _, hf, hlog, rfl, rfl⟩ := connForInit_cases P hc
    · rw [hg] at hknown
      cases hknown
    · cases h
      exact .refused _
    · dsimp only [openedConn] at h
      cases hk : P.ecdh prv k.2 with
      | error err =>
        simp only [hk] at h
        cases h
        -- a key log would have tried the same agreement before the connection was stored
        have hq : l.keyLog = false := by
          rw [← Bool.not_eq_true]
          intro hkl
          have hok := hlog hkl
          simp [logKeys, loggedSecrets, hk, Except.map] at hok
        exact .halfOpen k prv _ err ht hd hf hq hk
      | ok secret =>
        simp only [hk] at h
        cases h
        exact .initSnd k prv secret ht hd hf hk _ rfl

theorem decodeInitCryptoSnd_opening (ht : msgTypeOf encData = .initCryptoSnd)
    (hg : l.connMap.get? (connIdOf encData) = none)
    (h : l.decodeInitCryptoSnd P (connIdOf encData) encData rAddr fresh = some (l', r)) :
    Opening P l encData rAddr fresh l' r := by
  obtain ⟨dec, hd, h⟩ := Option.bind_eq_some_iff.mp h
  cases dec with
  | error e =>
    cases h
    exact .refused _
  | ok m =>
    obtain ⟨⟨l₁, res⟩, hc, h⟩ := Option.bind_eq_some_iff.mp h
    obtain ⟨conn, hknown, _⟩ | ⟨rfl, e, rfl⟩ | ⟨prv, _, hf, _, rfl, rfl⟩ := connForInit_cases P hc
    · rw [hg] at hknown
      cases hknown
    · cases h
      exact .refused _
    · cases h
      exact .initCryptoSnd m prv ht hd hf _ rfl

/-- Only the two initial messages open a connection. -/
theorem decode_opening (hg : l.connMap.get? (connIdOf encData) = none)
    (h : l.decode P encData rAddr fresh = some (l', r)) : Opening P l encData rAddr fresh l' r := by
  obtain ⟨rfl, e, rfl⟩ | h := decode_cases P h
  · exact .refused e
  unfold dispatch at h
  cases ht : msgTypeOf encData with
  | initSnd =>
    rw [ht] at h
    exact decodeInitSnd_opening P ht hg h
  | initCryptoSnd =>
    rw [ht] at h
    exact decodeInitCryptoSnd_opening P ht hg h
  | initRcv | initCryptoRcv | data =>
    simp only [ht, decodeInitRcv, decodeInitCryptoRcv, decodeDataMsg, hg] at h
    cases h
    exact .refused _
  | unknown c =>
    rw [ht] at h
    cases h
    exact .refused _

/-- An error about a known connection comes before the first write to it. -/
theorem decode_known_error {conn : Conn Prv Pub} {e : String}
    (hg : l.connMap.get? (connIdOf encData) = some conn)
    (h : l.decode P encData rAddr fresh = some (l', .error e)) : l' = l := by
  obtain ⟨rfl, _⟩ | ⟨_, _, _, _, hok⟩ := (decode_effect P h).named conn hg
  · rfl
  · cases hok

/-- A datagram that reaches the branch of the initial message has both keys in it. -/
theorem decryptInitSnd_keys {k : Pub × Pub} {mtu : Int} (hd : decryptInitSnd P encData mtu = some (.ok k)) :
    mtu ≤ encData.length ∧ 65 ≤ encData.length ∧ initKeys P encData = .ok (k.2, k.1) := by
  have hmtu : ¬ (encData.length : Int) < mtu := by
    intro hlt
    rw [decryptInitSnd, if_pos hlt] at hd
    cases hd
  have h65 : 65 ≤ encData.length := by
    by_contra hshort
    have hslice : slice? encData (headerSize + pubKeySize) (headerSize + 2 * pubKeySize) = none :=
      if_neg fun hb => hshort hb.2
    rw [decryptInitSnd, if_neg hmtu, hslice] at hd
    obtain ⟨ep, _, hd⟩ := Option.bind_eq_some_iff.mp hd
    cases hep : P.newPublicKey ep with
    | error e => simp [hep] at hd
    | ok key => simp [hep] at hd
  rw [decryptInitSnd_eq P (not_lt.mp hmtu) h65] at hd
  refine ⟨not_lt.mp hmtu, h65, ?_⟩
  cases hk : initKeys P encData with
  | error e => simp [hk, Except.map] at hd
  | ok keys =>
    simp only [hk, Except.map, Option.some.injEq, Except.ok.injEq] at hd
    rw [← hd]

theorem decode_other_version (hv : (encData[0]?.getD 0) &&& 0x1F ≠ cryptoVersion)
    (h : l.decode P encData rAddr fresh = some (l', r)) : l' = l := by
  by_cases hlen : encData.length < minPacketSize
  · rw [decode, if_pos hlen] at h
    cases h
    rfl
  · obtain ⟨header, hh⟩ := exists_header (not_lt.mp hlen)
    rw [hh, Option.getD_some] at hv
    simp only [decode, if_neg hlen, hh, Option.bind_eq_bind, Option.bind_some, if_pos hv] at h
    cases h
    rfl

/-- The datagram that is refused after its connection was stored. -/
theorem decode_lowOrder (h : OpensLowOrder P l encData fresh) (rAddr : Nat) :
    ∃ conn e, l.decode P encData rAddr fresh = some (l.setConn (connIdOf encData) conn, .error e) := by
  obtain ⟨ep, id, prv, err, h65, hkeys, rfl, hk⟩ := h.refused
  obtain ⟨header, hh⟩ := exists_header h.long
  have hv : header &&& 0x1F = cryptoVersion := by simpa [hh] using h.version
  have hfree : ¬ l.connMap.contains (connIdOf encData) = true := by
    rw [InsertionMap.contains, h.unknown]
    exact Bool.false_ne_true
  rw [decode_eq_dispatch P l h.long hh hv]
  simp only [dispatch, h.type, decodeInitSnd, decryptInitSnd_eq P h.full h65, hkeys, Except.map,
    Option.bind_eq_bind, Option.bind_some, connForInit, h.unknown, newConn, if_neg hfree, h.quiet,
    Bool.false_eq_true, if_false, Option.pure_def, Option.map_some, Except.mapError, hk]
  exact ⟨_, _, rfl⟩

/-- A refused datagram leaves the listener as it was exactly when it is not an initial
message with a low-order ephemeral key that opened a connection. -/
theorem rejected_leaves_no_trace_iff (l l' : Listener Prv Pub) (encData : Bytes) (rAddr : Nat)
    (fresh : Except String Prv) (e : String) (h : l.decode P encData rAddr fresh = some (l', .error e)) :
    l' = l ↔ ¬ OpensLowOrder P l encData fresh := by
  constructor
  · rintro rfl hlow
    obtain ⟨conn, e', hdec⟩ := decode_lowOrder P hlow rAddr
    rw [hdec] at h
    have hput : l'.setConn (connIdOf encData) conn = l' := congrArg Prod.fst (Option.some.inj h)
    have hget := get?_setConn l' (connIdOf encData) (connIdOf encData) conn
    rw [hput, hlow.unknown, if_pos rfl] at hget
    cases hget
  · intro hlow
    cases hg : l.connMap.get? (connIdOf encData) with
    | some conn => exact decode_known_error P hg h
    | none =>
      by_cases hv : (encData[0]?.getD 0) &&& 0x1F = cryptoVersion
      · have hop := decode_opening P hg h
        cases hop with
        | refused => rfl
        | halfOpen k prv _ err ht hd hf hq hk =>
          obtain ⟨hfull, h65, hkeys⟩ := decryptInitSnd_keys P hd
          have hlong : minPacketSize ≤ encData.length := h65.trans' (by decide)
          exact absurd ⟨hlong, hv, ht, hfull, hg, hq, k.2, k.1, prv, err, h65, hkeys, hf, hk⟩ hlow
      · exact decode_other_version P hv h

/-- A listener without connections, and an initial message whose ephemeral key is the
low-order point. -/
def quietListener : Listener UInt8 UInt8 := { prvKeyId := 7, mtu := 100 }

def lowOrderInit : Bytes := (encryptInitSnd plain 9 0 100).elim [] Prod.snd

/-- The message is refused and its connection stays in the map. -/
theorem lowOrderInit_leaves_conn :
    ∃ l' e, quietListener.decode plain lowOrderInit 0 (.ok 3) = some (l', .error e) ∧ l'.connMap.size = 1 ∧
      quietListener.connMap.size = 0 ∧ OpensLowOrder plain quietListener lowOrderInit (.ok 3) := by
  refine ⟨_, _, rfl, by decide +kernel, rfl, by decide +kernel, by decide +kernel, by decide +kernel,
    by decide +kernel, rfl, rfl, 0, 9, 3, _, by decide +kernel, rfl, rfl, rfl⟩

/-- The listener behind an initial message with a good key, and a Data datagram for its connection that was sealed by
nobody. -/
def openingInit : Bytes := (encryptInitSnd plain 9 5 100).elim [] Prod.snd

def openedListener : Listener UInt8 UInt8 :=
  (quietListener.decode plain openingInit 0 (.ok 3)).elim quietListener Prod.fst

def forgedData : Bytes := headerByte .data :: field openingInit 1 9 ++ List.replicate 40 1

/-- The datagram is refused, and the connection it names is as before. -/
theorem forgedData_leaves_no_trace :
    ∃ l' e, openedListener.decode plain forgedData 0 (.ok 3) = some (l', .error e) ∧
      openedListener.connMap.contains (connIdOf forgedData) = true ∧ msgTypeOf forgedData = .data ∧
      ¬ OpensLowOrder plain openedListener forgedData (.ok 3) ∧ l' = openedListener := by
  have hdec : ∃ l' e, openedListener.decode plain forgedData 0 (.ok 3) = some (l', .error e) := ⟨_, _, rfl⟩
  obtain ⟨l', e, hdec⟩ := hdec
  have htype : msgTypeOf forgedData = .data := by decide +kernel
  have hlow : ¬ OpensLowOrder plain openedListener forgedData (.ok 3) := fun h => by cases htype.symm.trans h.type
  exact ⟨l', e, hdec, by decide +kernel, htype, hlow, (rejected_leaves_no_trace_iff plain _ _ _ _ _ _ hdec).mpr hlow⟩

end Listener

end Qotp
