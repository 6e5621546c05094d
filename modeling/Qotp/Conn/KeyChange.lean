import Qotp.Conn.ListenerSpec
import Qotp.Crypto.Plain

namespace Qotp

open Framework

variable {Prv Pub : Type}

namespace Conn

/-- The secret and the peer's keys are as they were. -/
def SameKeys (c c' : Conn Prv Pub) : Prop :=
  c'.sharedSecret = c.sharedSecret ∧ c'.pubKeyIdRcv = c.pubKeyIdRcv ∧ c'.pubKeyEpRcv = c.pubKeyEpRcv

theorem sameKeys_refl (c : Conn Prv Pub) : c.SameKeys c := ⟨rfl, rfl, rfl⟩

end Conn

section Carried

variable (P : Primitives Prv Pub)

/-- The ephemeral key a handshake datagram carries: behind the connection id in a
reply, in its place in an initial message. -/
def carriedEp (encData : Bytes) : Except String Pub :=
  match msgTypeOf encData with
  | .initRcv | .initCryptoRcv => P.newPublicKey (field encData 9 41)
  | _ => P.newPublicKey (field encData 1 33)

/-- The identity key an InitRcv carries. -/
def carriedId (encData : Bytes) : Except String Pub := P.newPublicKey (field encData 41 73)

/-- A reply that opens under the agreement of `prv` with the key it carries. -/
def OpensReply (prv : Prv) (encData : Bytes) : Prop :=
  (msgTypeOf encData = .initRcv ∧ ∃ m, decryptInitRcv P encData prv = some (.ok m)) ∨
  (msgTypeOf encData = .initCryptoRcv ∧ ∃ m, decryptInitCryptoRcv P encData prv = some (.ok m))

end Carried

namespace Listener

variable {P : Primitives Prv Pub} {l : Listener Prv Pub} {encData : Bytes} {conn conn' : Conn Prv Pub}

/-- What no datagram changes of a connection: its id, its own key and role, the mark of the
handshake and the sending epoch. -/
structure SameRest (c c' : Conn Prv Pub) : Prop where
  connId : c'.connId = c.connId
  prv : c'.prvKeyEpSnd = c.prvKeyEpSnd
  sender : c'.isSenderOnInit = c.isSenderOnInit
  done : c'.isHandshakeDoneOnRcv = c.isHandshakeDoneOnRcv
  epoch : c'.epochCryptoSnd = c.epochCryptoSnd

theorem Update.rest (h : Update P l encData conn conn') : SameRest conn conn' := by
  cases h <;> exact ⟨rfl, rfl, rfl, rfl, rfl⟩

theorem Update.secret_of_data (h : Update P l encData conn conn') (ht : msgTypeOf encData = .data) :
    conn'.sharedSecret = conn.sharedSecret := by
  cases h with
  | data epoch ht' => rfl
  | initSnd k secret ht' hd hk => cases ht'.symm.trans ht
  | initRcv m ht' hd => cases ht'.symm.trans ht
  | initCryptoSnd m ht' hd => cases ht'.symm.trans ht
  | initCryptoRcv m ht' hd => cases ht'.symm.trans ht

/-- An initial message changes the secret only, to the agreement with the key it carries. -/
theorem Update.initial (h : Update P l encData conn conn')
    (ht : msgTypeOf encData = .initSnd ∨ msgTypeOf encData = .initCryptoSnd) :
    ∃ ep, carriedEp P encData = .ok ep ∧
      conn' = { conn with sharedSecret := (P.ecdh conn.prvKeyEpSnd ep).toOption } := by
  cases h with
  | initSnd k secret ht' hd hk =>
    refine ⟨k.2, ?_, by rw [hk]; rfl⟩
    rw [carriedEp, ht']
    exact decryptInitSnd_ok hd
  | initCryptoSnd m ht' hd =>
    refine ⟨m.pubKeyEpSnd, ?_, rfl⟩
    rw [carriedEp, ht']
    exact (decryptInitCryptoSnd_ok hd).2
  | initRcv m ht' hd => simp [ht'] at ht
  | initCryptoRcv m ht' hd => simp [ht'] at ht
  | data epoch ht' => simp [ht'] at ht

/-- A reply is opened first; then the carried keys are installed. -/
theorem Update.reply (h : Update P l encData conn conn')
    (ht : msgTypeOf encData = .initRcv ∨ msgTypeOf encData = .initCryptoRcv) :
    OpensReply P conn.prvKeyEpSnd encData ∧
    ∃ ep, carriedEp P encData = .ok ep ∧ conn'.pubKeyEpRcv = some ep ∧
      conn'.sharedSecret = (P.ecdh conn.prvKeyEpSnd ep).toOption ∧
      (conn'.pubKeyIdRcv = conn.pubKeyIdRcv ∨
        (msgTypeOf encData = .initRcv ∧ ∃ idKey, carriedId P encData = .ok idKey ∧
          conn'.pubKeyIdRcv = some idKey)) := by
  cases h with
  | initRcv m ht' hd =>
    obtain ⟨_, hep, hid, hk, _⟩ := decryptInitRcv_ok hd
    refine ⟨.inl ⟨ht', m, hd⟩, m.pubKeyEpRcv, ?_, rfl, by rw [hk]; rfl, .inr ⟨ht', _, hid, rfl⟩⟩
    rw [carriedEp, ht']
    exact hep
  | initCryptoRcv m ht' hd =>
    obtain ⟨_, hep, hk, _⟩ := decryptInitCryptoRcv_ok hd
    refine ⟨.inr ⟨ht', m, hd⟩, m.pubKeyEpRcv, ?_, rfl, by rw [hk]; rfl, .inl rfl⟩
    rw [carriedEp, ht']
    exact hep
  | initSnd k secret ht' hd hk => simp [ht'] at ht
  | initCryptoSnd m ht' hd => simp [ht'] at ht
  | data epoch ht' => simp [ht'] at ht

/-- A datagram that carries the keys the connection holds changes none of them. -/
theorem Update.sameKeys (h : Update P l encData conn conn') {ep : Pub} (hep : carriedEp P encData = .ok ep)
    (hheld : conn.pubKeyEpRcv = some ep) (hsec : conn.sharedSecret = (P.ecdh conn.prvKeyEpSnd ep).toOption)
    (hid : msgTypeOf encData = .initRcv → ∀ idKey, carriedId P encData = .ok idKey →
      conn.pubKeyIdRcv = some idKey) : conn.SameKeys conn' := by
  have hinit : msgTypeOf encData = .initSnd ∨ msgTypeOf encData = .initCryptoSnd → conn.SameKeys conn' := by
    intro ht
    obtain ⟨ep', hep', rfl⟩ := h.initial ht
    obtain rfl : ep = ep' := Except.ok.inj (hep.symm.trans hep')
    exact ⟨hsec.symm, rfl, rfl⟩
  have hreply : msgTypeOf encData = .initRcv ∨ msgTypeOf encData = .initCryptoRcv → conn.SameKeys conn' := by
    intro ht
    obtain ⟨_, ep', hep', hk, hs, hid'⟩ := h.reply ht
    obtain rfl : ep = ep' := Except.ok.inj (hep.symm.trans hep')
    refine ⟨hs.trans hsec.symm, ?_, hk.trans hheld.symm⟩
    obtain hid' | ⟨ht', idKey, hcar, hnew⟩ := hid'
    · exact hid'
    · exact hnew.trans (hid ht' idKey hcar).symm
  cases h with
  | initSnd k secret ht hd hk => exact hinit (.inl ht)
  | initRcv m ht hd => exact hreply (.inl ht)
  | initCryptoSnd m ht hd => exact hinit (.inr ht)
  | initCryptoRcv m ht hd => exact hreply (.inr ht)
  | data epoch ht => exact ⟨rfl, rfl, rfl⟩

/-- A datagram touches the connection it names only, and none if it is refused. An initial
message keeps the peer's keys and at most renews the secret with the key it carries; a reply
that does not open changes nothing, and only an InitRcv changes the identity key; one that
carries the keys the connection holds, such as a replay, leaves them all. -/
theorem handshake_keeps_keys {Prv Pub : Type} (P : Primitives Prv Pub) (l l' : Listener Prv Pub) (encData : Bytes)
    (rAddr : Nat) (fresh : Except String Prv) (r : Except String Decoded) (id : Nat) (conn : Conn Prv Pub)
    (hget : l.connMap.get? id = some conn) (h : l.decode P encData rAddr fresh = some (l', r)) :
    ∃ conn', l'.connMap.get? id = some conn' ∧
      (id ≠ connIdOf encData → conn' = conn) ∧
      (∀ e, r = .error e → conn' = conn) ∧
      (msgTypeOf encData = .initSnd ∨ msgTypeOf encData = .initCryptoSnd →
        conn'.pubKeyIdRcv = conn.pubKeyIdRcv ∧ conn'.pubKeyEpRcv = conn.pubKeyEpRcv ∧
        (conn'.sharedSecret = conn.sharedSecret ∨ ∃ ep, carriedEp P encData = .ok ep ∧
          conn'.sharedSecret = (P.ecdh conn.prvKeyEpSnd ep).toOption)) ∧
      (msgTypeOf encData = .initRcv ∨ msgTypeOf encData = .initCryptoRcv →
        ¬ OpensReply P conn.prvKeyEpSnd encData → conn.SameKeys conn') ∧
      (msgTypeOf encData = .initCryptoRcv → conn'.pubKeyIdRcv = conn.pubKeyIdRcv) ∧
      (∀ ep, carriedEp P encData = .ok ep → conn.pubKeyEpRcv = some ep →
        conn.sharedSecret = (P.ecdh conn.prvKeyEpSnd ep).toOption →
        (msgTypeOf encData = .initRcv → ∀ idKey, carriedId P encData = .ok idKey →
          conn.pubKeyIdRcv = some idKey) →
        conn.SameKeys conn') := by
  obtain ⟨conn', hg, rfl | ⟨hid, hu⟩⟩ := (decode_effect P h).conn hget
  · exact ⟨conn', hg, fun _ => rfl, fun _ _ => rfl, fun _ => ⟨rfl, rfl, .inl rfl⟩, fun _ _ => conn'.sameKeys_refl,
      fun _ => rfl, fun _ _ _ _ _ => conn'.sameKeys_refl⟩
  · refine ⟨conn', hg, fun hne => absurd hid hne, ?_, fun ht => ?_, fun ht hno => ?_, fun ht => ?_,
      fun ep hep hheld hsec hidk => hu.sameKeys hep hheld hsec hidk⟩
    · rintro e rfl
      exact Option.some.inj (hg.symm.trans ((decode_effect P h).refused hget))
    · obtain ⟨ep, hep, rfl⟩ := hu.initial ht
      exact ⟨rfl, rfl, .inr ⟨ep, hep, rfl⟩⟩
    · exact absurd (hu.reply ht).1 hno
    · obtain ⟨_, _, _, _, _, hkept | ⟨hrcv, _⟩⟩ := hu.reply (.inr ht)
      · exact hkept
      · cases hrcv.symm.trans ht

/-- The answering end of an established session with a peer of ephemeral key 5. -/
def sessionId : Nat := getLE (List.replicate 8 5)

def sessionConn : Conn UInt8 UInt8 :=
  { connId := sessionId, remoteAddr := 0, prvKeyEpSnd := 3, pubKeyEpRcv := some 5, pubKeyIdRcv := some 7,
    sharedSecret := some (List.replicate 32 15), isSenderOnInit := false, isWithCryptoOnInit := false,
    isHandshakeDoneOnRcv := true, isInitSentOnSnd := true }

def sessionListener : Listener UInt8 UInt8 :=
  { prvKeyId := 11, connMap := InsertionMap.empty.put sessionId sessionConn, mtu := 97 }

/-- An InitSnd of 97 bytes whose ephemeral key ends in `x`; its first bytes name the session. -/
def initSndWith (x : UInt8) : Bytes :=
  [headerByte .initSnd] ++ List.replicate 31 5 ++ [x] ++ List.replicate 32 7 ++ List.replicate 32 0

theorem replayedInitSnd_keeps :
    sessionListener.connMap.get? sessionId = some sessionConn ∧
    ∃ l' r conn', sessionListener.decode plain (initSndWith 5) 0 (.ok 9) = some (l', r) ∧
      l'.connMap.get? sessionId = some conn' ∧ sessionConn.SameKeys conn' := by
  have hget : sessionListener.connMap.get? sessionId = some sessionConn := InsertionMap.get?_put_self _ _ _
  have hdec : (sessionListener.decode plain (initSndWith 5) 0 (.ok 9)).isSome := by decide +kernel
  obtain ⟨⟨l', r⟩, hdec⟩ := Option.isSome_iff_exists.mp hdec
  obtain ⟨conn', hg, _, _, _, _, _, hreplay⟩ :=
    handshake_keeps_keys plain sessionListener l' (initSndWith 5) 0 (.ok 9) r sessionId sessionConn hget hdec
  have ht : msgTypeOf (initSndWith 5) ≠ .initRcv := by decide
  exact ⟨hget, l', r, conn', hdec, hg, hreplay 5 rfl rfl rfl fun h => absurd h ht⟩

/-- An InitRcv that an outsider with key 9 seals for the session, knowing its id and
the ephemeral public key 3. -/
def outsiderInitRcv : Option (Except String Bytes) :=
  encryptInitRcv plain sessionId 13 (some 3) 9 0 [0, 0, 0, 0, 0, 0, 0, 0]

/-- An InitSnd with the key tail changed renews the secret of an established session, and
the InitRcv of the outsider replaces its keys. -/
theorem session_rekeyed :
    ((sessionListener.decode plain (initSndWith 9) 0 (.ok 9)).map fun r =>
      (r.1.connMap.get? sessionId).map fun c => (c.isHandshakeDoneOnRcv, c.sharedSecret)) =
        some (some (true, some (List.replicate 32 27))) ∧
    (outsiderInitRcv.bind fun enc => enc.toOption.bind fun d =>
      (sessionListener.decode plain d 0 (.ok 9)).map fun r =>
        (r.1.connMap.get? sessionId).map fun c => (c.pubKeyIdRcv, c.pubKeyEpRcv, c.sharedSecret)) =
        some (some (some 13, some 9, some (List.replicate 32 27))) := by
  decide +kernel

end Listener

end Qotp
