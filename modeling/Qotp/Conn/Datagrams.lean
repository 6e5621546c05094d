import Qotp.Conn.FlushEncode
import Qotp.Conn.KeyChange
import Qotp.Crypto.OpenSealed

namespace Qotp

open Framework

variable {Prv Pub : Type} {P : Primitives Prv Pub}

section Hello

variable {d : Bytes} {id : Nat} {ep : Pub} {t : CryptoMsgType}

/-- A handshake datagram, of the dialer or of the listener, for connection `id` with the
ephemeral key `ep`. -/
structure Hello (P : Primitives Prv Pub) (isSender : Bool) (id : Nat) (ep : Pub) (d : Bytes) : Prop where
  type : match isSender with
    | true => msgTypeOf d = .initSnd ∨ msgTypeOf d = .initCryptoSnd
    | false => msgTypeOf d = .initRcv ∨ msgTypeOf d = .initCryptoRcv
  conn : connIdOf d = id
  key : carriedEp P d = .ok ep

theorem field_of_take {n lo hi : Nat} {h : Bytes} (hd : d.take n = h) (hn : hi ≤ n) : field d lo hi = field h lo hi := by
  rw [← hd, field, field, List.take_take, min_eq_left hn]

theorem msgTypeOf_of_take {n : Nat} {h : Bytes} (hd : d.take (n + 1) = headerByte t :: h)
    (ht : CryptoMsgType.ofCode (headerByte t >>> 5) = t) : msgTypeOf d = t := by
  have hhead : d[0]? = some (headerByte t) := by
    have h0 := congrArg (·[0]?) hd
    rwa [List.getElem?_take_of_lt (Nat.succ_pos n)] at h0
  rw [msgTypeOf, hhead, Option.getD_some, ht]

theorem keyConnId_lt (P : Primitives Prv Pub) (ep : Pub) : keyConnId P ep < 2 ^ 64 := by
  have hlt := getLE_lt ((P.bytes ep).take 8)
  rwa [List.length_take_of_le (by rw [P.bytes_length]; decide)] at hlt

/-- The first 33 bytes of a request name the connection and the key. -/
theorem hello_request (hP : P.Correct) (ht : t = .initSnd ∨ t = .initCryptoSnd)
    (hd : d.take 33 = headerByte t :: P.bytes ep) : Hello P true (keyConnId P ep) ep d := by
  have hcode : CryptoMsgType.ofCode (headerByte t >>> 5) = t := by
    obtain rfl | rfl := ht <;> decide
  have htype := msgTypeOf_of_take hd hcode
  have hep : field d 1 33 = P.bytes ep := by
    rw [field, hd]
    rfl
  have hid : field d 1 9 = (P.bytes ep).take 8 := by
    rw [field_of_take hd (by decide)]
    rfl
  refine ⟨?_, ?_, ?_⟩
  · rw [htype]
    exact ht
  · rw [connIdOf, hid, keyConnId]
  · rw [carriedEp, htype]
    obtain rfl | rfl := ht <;> exact (congrArg P.newPublicKey hep).trans (hP.newPublicKey_bytes ep)

/-- So do the first 41 bytes of a reply. -/
theorem hello_reply (hP : P.Correct) (ht : t = .initRcv ∨ t = .initCryptoRcv) (hlt : id < 2 ^ 64)
    (hd : d.take 41 = headerByte t :: (putUint64 id ++ P.bytes ep)) : Hello P false id ep d := by
  have hcode : CryptoMsgType.ofCode (headerByte t >>> 5) = t := by
    obtain rfl | rfl := ht <;> decide
  have htype := msgTypeOf_of_take hd hcode
  have hep : field d 9 41 = P.bytes ep := by
    rw [field, hd, List.drop_succ_cons, List.drop_left' (putUint64_length id)]
  have hid : field d 1 9 = putUint64 id := by
    rw [field_of_take hd (by decide), field, List.take_succ_cons, List.drop_succ_cons, List.drop_zero,
      List.take_left' (putUint64_length id)]
  refine ⟨?_, ?_, ?_⟩
  · rw [htype]
    exact ht
  · rw [connIdOf, hid, putUint64, getLE_putLE]
    exact Nat.mod_eq_of_lt hlt
  · rw [carriedEp, htype]
    obtain rfl | rfl := ht <;> exact (congrArg P.newPublicKey hep).trans (hP.newPublicKey_bytes ep)

theorem chainedEncrypt_header {sn e : Nat} {isSender : Bool} {key header data enc : Bytes}
    (h : chainedEncrypt P sn e isSender key header data = some (.ok enc)) : ∃ rest, enc = header ++ rest := by
  unfold chainedEncrypt at h
  cases hk : checkKey key with
  | error err => simp [hk] at h
  | ok _ =>
    simp only [hk] at h
    obtain ⟨nonceRand, _, h⟩ := Option.bind_eq_some_iff.mp h
    obtain ⟨encSn, _, h⟩ := Option.bind_eq_some_iff.mp h
    cases h
    exact ⟨encSn ++ _, List.append_assoc ..⟩

theorem encryptInitSnd_hello (hP : P.Correct) {idKey : Pub} {mtu : Int} {r : Nat × Bytes}
    (h : encryptInitSnd P idKey ep mtu = some r) : Hello P true (keyConnId P ep) ep r.2 := by
  unfold encryptInitSnd at h
  split_ifs at h with hmtu
  obtain ⟨n, _, rfl⟩ := Option.map_eq_some_iff.mp h
  refine hello_request hP (.inl rfl) ?_
  have h33 : 33 ≤ mtu.toNat := by omega
  dsimp only
  rw [List.take_take, min_eq_left h33, List.append_assoc]
  exact List.take_left' (by simp [P.bytes_length])

theorem encryptInitCryptoSnd_hello (hP : P.Correct) {idRcv : Option Pub} {idKey : Pub} {a : Prv} {sn : Nat}
    {mtu : Int} {data : Bytes} {r : Nat × Bytes}
    (h : encryptInitCryptoSnd P idRcv idKey a sn mtu data = some (.ok r)) :
    Hello P true (keyConnId P (P.publicKey a)) (P.publicKey a) r.2 := by
  obtain ⟨idRcv, _, h⟩ := Option.bind_eq_some_iff.mp h
  dsimp only at h
  split_ifs at h
  · cases h
  cases hk : P.ecdh a idRcv with
  | error e => simp [hk] at h
  | ok key =>
    simp only [hk] at h
    obtain ⟨enc, hc, h⟩ := Option.bind_eq_some_iff.mp h
    obtain ⟨n, _, h⟩ := Option.bind_eq_some_iff.mp h
    cases enc with
    | error e => cases h
    | ok enc =>
      cases h
      obtain ⟨rest, rfl⟩ := chainedEncrypt_header hc
      refine hello_request hP (.inr rfl) ?_
      rw [List.append_assoc]
      exact List.take_left' (by simp [P.bytes_length])

theorem encryptInitRcv_hello (hP : P.Correct) {idKey : Pub} {epRcv : Option Pub} {a : Prv} {sn : Nat}
    {data enc : Bytes} (hlt : id < 2 ^ 64) (h : encryptInitRcv P id idKey epRcv a sn data = some (.ok enc)) :
    Hello P false id (P.publicKey a) enc := by
  obtain ⟨epRcv, _, h⟩ := Option.bind_eq_some_iff.mp h
  dsimp only at h
  cases hk : P.ecdh a epRcv with
  | error e => simp [hk] at h
  | ok key =>
    simp only [hk] at h
    obtain ⟨rest, rfl⟩ := chainedEncrypt_header h
    refine hello_reply hP (.inl rfl) hlt ?_
    rw [List.append_assoc]
    exact List.take_left' (by simp [P.bytes_length, putUint64_length])

theorem encryptInitCryptoRcv_hello (hP : P.Correct) {epRcv : Option Pub} {a : Prv} {sn : Nat}
    {data enc : Bytes} (hlt : id < 2 ^ 64) (h : encryptInitCryptoRcv P id epRcv a sn data = some (.ok enc)) :
    Hello P false id (P.publicKey a) enc := by
  obtain ⟨epRcv, _, h⟩ := Option.bind_eq_some_iff.mp h
  dsimp only at h
  cases hk : P.ecdh a epRcv with
  | error e => simp [hk] at h
  | ok key =>
    simp only [hk] at h
    obtain ⟨rest, rfl⟩ := chainedEncrypt_header h
    refine hello_reply hP (.inr rfl) hlt ?_
    exact List.take_left' (by simp [P.bytes_length, putUint64_length])

end Hello

namespace Conn

variable {l : ListenerCfg Prv} {c c' : Conn Prv Pub} {p : PayloadHeader} {u : Option Bytes} {enc : Bytes}

theorem advanceSn_enc {x : Bytes} (h : c.advanceSn x = (c', .ok enc)) : x = enc := by
  unfold advanceSn at h
  dsimp only at h
  split_ifs at h <;> cases h <;> rfl

theorem finishInit_enc {r : Except String Bytes} (h : c.finishInit r = (c', .ok enc)) : r = .ok enc := by
  cases r with
  | error e => cases h
  | ok x => rw [advanceSn_enc h]

theorem advanceSn_epoch {x : Bytes} {r : Except String Bytes} (h : c.advanceSn x = (c', r))
    (he : c.epochCryptoSnd < 2 ^ 47) : c'.epochCryptoSnd < 2 ^ 47 := by
  unfold advanceSn at h
  dsimp only at h
  split_ifs at h with h1 h2
  · cases h
    exact he
  · cases h
    dsimp only
    omega
  · cases h
    exact he

/-- The epoch stays below 2^47. -/
theorem encode_epoch {m : CryptoMsgType} {r : Except String Bytes} (h : c.encode P l p u m = some (c', r))
    (he : c.epochCryptoSnd < 2 ^ 47) : c'.epochCryptoSnd < 2 ^ 47 := by
  obtain ⟨e, rfl, _⟩ | ⟨d, x, hd, hadv⟩ := encode_counters P l h
  · exact he
  · refine advanceSn_epoch hadv.symm ?_
    rw [hd.2.2]
    exact he

/-- A connection under the id that its own key stands for if it was dialed. -/
structure Named (P : Primitives Prv Pub) (c : Conn Prv Pub) : Prop where
  lt : c.connId < 2 ^ 64
  dialed : c.isSenderOnInit = true → c.connId = keyConnId P (P.publicKey c.prvKeyEpSnd)

/-- The datagram that carries `(p, u)`: a handshake message with the own ephemeral key,
or, past the handshake, the payload sealed under the secret. -/
def Emits (P : Primitives Prv Pub) (c : Conn Prv Pub) (p : PayloadHeader) (u : Option Bytes) (m : CryptoMsgType)
    (enc : Bytes) : Prop :=
  (c.isHandshakeDoneOnRcv = false ∧ m ≠ .data ∧
    Hello P c.isSenderOnInit c.connId (P.publicKey c.prvKeyEpSnd) enc) ∨
  (c.isHandshakeDoneOnRcv = true ∧ m = .data ∧ ∀ key, c.sharedSecret = some key → key.length = 32 →
    ∃ sn, enc = dataHeader c.connId ++ sealedBody P sn c.epochCryptoSnd c.isSenderOnInit key
      (dataHeader c.connId) (encodePayload p u).1)

theorem encode_data (hP : P.Correct) {key : Bytes} (hkey : c.sharedSecret = some key) (hlen : key.length = 32)
    (h : c.encode P l p u .data = some (c', .ok enc)) :
    enc = dataHeader c.connId ++ sealedBody P c.snCrypto c.epochCryptoSnd c.isSenderOnInit key
      (dataHeader c.connId) (encodePayload p u).1 := by
  obtain ⟨x, hx, h⟩ := Option.map_eq_some_iff.mp h
  rw [hkey, encryptData_eq hP hlen (encodePayload_length_ge p u)] at hx
  cases hx
  exact (advanceSn_enc h).symm

theorem encode_request (hP : P.Correct) (hd : c.isHandshakeDoneOnRcv = false) (hs : c.isSenderOnInit = true)
    (h : c.encode P l p u c.msgType = some (c', .ok enc)) :
    c.msgType ≠ .data ∧ Hello P true (keyConnId P (P.publicKey c.prvKeyEpSnd)) (P.publicKey c.prvKeyEpSnd) enc := by
  cases hw : c.isWithCryptoOnInit with
  | true =>
    have hm : c.msgType = .initCryptoSnd := by simp [msgType, hd, hs, hw]
    rw [hm] at h ⊢
    obtain ⟨x, hx, h⟩ := Option.map_eq_some_iff.mp h
    cases x with
    | error e => cases h
    | ok r =>
      cases finishInit_enc h
      exact ⟨nofun, encryptInitCryptoSnd_hello hP hx⟩
  | false =>
    have hm : c.msgType = .initSnd := by simp [msgType, hd, hs, hw]
    rw [hm] at h ⊢
    obtain ⟨r, hx, h⟩ := Option.map_eq_some_iff.mp h
    cases finishInit_enc h
    exact ⟨nofun, encryptInitSnd_hello hP hx⟩

theorem encode_reply (hP : P.Correct) (hd : c.isHandshakeDoneOnRcv = false) (hs : c.isSenderOnInit = false)
    (hlt : c.connId < 2 ^ 64) (h : c.encode P l p u c.msgType = some (c', .ok enc)) :
    c.msgType ≠ .data ∧ Hello P false c.connId (P.publicKey c.prvKeyEpSnd) enc := by
  cases hw : c.isWithCryptoOnInit with
  | true =>
    have hm : c.msgType = .initCryptoRcv := by simp [msgType, hd, hs, hw]
    rw [hm] at h ⊢
    obtain ⟨x, hx, h⟩ := Option.map_eq_some_iff.mp h
    cases finishInit_enc h
    exact ⟨nofun, encryptInitCryptoRcv_hello hP hlt hx⟩
  | false =>
    have hm : c.msgType = .initRcv := by simp [msgType, hd, hs, hw]
    rw [hm] at h ⊢
    obtain ⟨x, hx, h⟩ := Option.map_eq_some_iff.mp h
    cases finishInit_enc h
    exact ⟨nofun, encryptInitRcv_hello hP hlt hx⟩

theorem encode_emits (hP : P.Correct) (hc : c.Named P) (h : c.encode P l p u c.msgType = some (c', .ok enc)) :
    Emits P c p u c.msgType enc := by
  cases hd : c.isHandshakeDoneOnRcv with
  | true =>
    have hm : c.msgType = .data := if_pos hd
    rw [hm] at h ⊢
    exact .inr ⟨hd, rfl, fun key hkey hlen => ⟨c.snCrypto, encode_data hP hkey hlen h⟩⟩
  | false =>
    refine .inl ⟨hd, ?_⟩
    cases hs : c.isSenderOnInit with
    | true =>
      rw [hc.dialed hs]
      exact encode_request hP hd hs h
    | false => exact encode_reply hP hd hs hc.lt h

/-- What `Flush` hands to the socket, by the keys and the epoch before the call. -/
theorem flush_emits (hP : P.Correct) (hc : c.Named P) {k now : Nat} {w : WriteResult} {out : List Outgoing}
    {r : FlushResult} (h : c.flush P l k now w = some (c', out, r)) :
    ∀ o ∈ out, Emits P c o.header o.userData o.msgType o.encData := by
  obtain ⟨rfl, _⟩ | ⟨c₁, p, u, c₂, res, h₁, he, _, rfl | ⟨enc, rfl, rfl⟩⟩ := flush_encodes h
  · exact nofun
  · exact nofun
  · intro o ho
    obtain rfl := List.mem_singleton.mp ho
    have hn : c₁.Named P := by
      obtain ⟨_, _, _, _, _, _, _, rfl⟩ := h₁
      exact ⟨hc.lt, hc.dialed⟩
    rw [← h₁.msgType_eq] at he
    have hem := encode_emits hP hn he
    obtain ⟨_, _, _, _, _, _, _, rfl⟩ := h₁
    exact hem

end Conn

end Qotp
