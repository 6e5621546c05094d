import Qotp.Conn.Conn

namespace Qotp

open Framework

/-- A listener with its connections. `keyLog` says whether a key log writer is set. -/
structure Listener (Prv Pub : Type) where
  prvKeyId : Prv
  connMap : InsertionMap Nat (Conn Prv Pub) := .empty
  keyLog : Bool := false
  mtu : Int

/-- What `Listener.decode` returns: the key of the connection, the decrypted payload, the type. -/
structure Decoded where
  connId : Nat
  payload : Bytes
  msgType : CryptoMsgType
  deriving DecidableEq, Repr

/-- What one socket read gives. -/
inductive ReadResult where
  | datagram (data : Bytes) (remoteAddr : Nat)
  | timeout
  | error (msg : String)

namespace Listener

variable {Prv Pub : Type} (P : Primitives Prv Pub)

def cfg (l : Listener Prv Pub) : ListenerCfg Prv := ⟨l.prvKeyId, l.mtu⟩

def setConn (l : Listener Prv Pub) (connId : Nat) (conn : Conn Prv Pub) : Listener Prv Pub :=
  { l with connMap := l.connMap.put connId conn }

/-- The two secrets that `newConn` derives for the key log; a nil key panics in ECDH. -/
def loggedSecrets (prvKeyEpSnd : Prv) (pubKeyEpRcv pubKeyIdRcv : Option Pub) : Option (Except String (Bytes × Bytes)) := do
  let ep ← pubKeyEpRcv
  match P.ecdh prvKeyEpSnd ep with
  | .error e => return .error e
  | .ok sharedSecret =>
    let id ← pubKeyIdRcv
    match P.ecdh prvKeyEpSnd id with
    | .error e => return .error e
    | .ok sharedSecretId => return .ok (sharedSecret, sharedSecretId)

/-- `newConn` writes them to the log, which does not fail. -/
def logKeys (prvKeyEpSnd : Prv) (pubKeyEpRcv pubKeyIdRcv : Option Pub) : Option (Except String Unit) :=
  (loggedSecrets P prvKeyEpSnd pubKeyEpRcv pubKeyIdRcv).map fun r => r.map fun _ => ()

def newConn (l : Listener Prv Pub) (connId remoteAddr : Nat) (prvKeyEpSnd : Prv)
    (pubKeyIdRcv pubKeyEdRcv : Option Pub) (isSender withCrypto : Bool) :
    Option (Listener Prv Pub × Except String (Conn Prv Pub)) :=
  if l.connMap.contains connId then some (l, .error "conn already exists")
  else do
    let conn : Conn Prv Pub :=
      { connId := connId, remoteAddr := remoteAddr, prvKeyEpSnd := prvKeyEpSnd,
        pubKeyEpRcv := pubKeyEdRcv, pubKeyIdRcv := pubKeyIdRcv, isSenderOnInit := isSender,
        isWithCryptoOnInit := withCrypto }
    let logged ← if l.keyLog then logKeys P prvKeyEpSnd pubKeyEdRcv pubKeyIdRcv else some (.ok ())
    match logged with
    | .error e => return (l, .error e)
    | .ok _ => return (l.setConn connId conn, .ok conn)

/-- The connection an initial message belongs to: the stored one, or a new one
under the freshly generated key. -/
def connForInit (l : Listener Prv Pub) (connId rAddr : Nat) (fresh : Except String Prv)
    (pubKeyIdSnd pubKeyEpSnd : Pub) (withCrypto : Bool) :
    Option (Listener Prv Pub × Except String (Conn Prv Pub)) :=
  match l.connMap.get? connId with
  | some conn => some (l, .ok conn)
  | none =>
    match fresh with
    | .error e => some (l, .error ("failed to generate keys: " ++ e))
    | .ok prvKeyEpRcv =>
      (l.newConn P connId rAddr prvKeyEpRcv (some pubKeyIdSnd) (some pubKeyEpSnd) false withCrypto).map
        fun r => (r.1, r.2.mapError ("failed to create connection: " ++ ·))

def decodeInitSnd (l : Listener Prv Pub) (connId : Nat) (encData : Bytes) (rAddr : Nat)
    (fresh : Except String Prv) : Option (Listener Prv Pub × Except String Decoded) := do
  match ← decryptInitSnd P encData l.mtu with
  | .error e => return (l, .error ("failed to decode InitHandshakeS0: " ++ e))
  | .ok (pubKeyIdSnd, pubKeyEpSnd) =>
    let (l, conn) ← l.connForInit P connId rAddr fresh pubKeyIdSnd pubKeyEpSnd false
    match conn with
    | .error e => return (l, .error e)
    | .ok conn =>
      match P.ecdh conn.prvKeyEpSnd pubKeyEpSnd with
      | .error e => return (l, .error ("failed to create connection: " ++ e))
      | .ok sharedSecret =>
        return (l.setConn connId { conn with sharedSecret := some sharedSecret },
          .ok ⟨connId, [], .initSnd⟩)

def decodeInitRcv (l : Listener Prv Pub) (connId : Nat) (encData : Bytes) :
    Option (Listener Prv Pub × Except String Decoded) :=
  match l.connMap.get? connId with
  | none => some (l, .error "connection not found for InitRcv")
  | some conn => do
    match ← decryptInitRcv P encData conn.prvKeyEpSnd with
    | .error e => return (l, .error ("failed to decode InitRcv: " ++ e))
    | .ok m =>
      let conn := { conn with
        pubKeyIdRcv := some m.pubKeyIdRcv
        pubKeyEpRcv := some m.pubKeyEpRcv
        sharedSecret := some m.sharedSecret }
      return (l.setConn connId conn, .ok ⟨connId, m.message.payloadRaw, .initRcv⟩)

/-- Unlike `decodeInitSnd`, a failed agreement is not reported: the secret becomes nil. -/
def decodeInitCryptoSnd (l : Listener Prv Pub) (connId : Nat) (encData : Bytes) (rAddr : Nat)
    (fresh : Except String Prv) : Option (Listener Prv Pub × Except String Decoded) := do
  match ← decryptInitCryptoSnd P encData l.prvKeyId l.mtu with
  | .error e => return (l, .error ("failed to decode InitWithCryptoS0: " ++ e))
  | .ok m =>
    let (l, conn) ← l.connForInit P connId rAddr fresh m.pubKeyIdSnd m.pubKeyEpSnd true
    match conn with
    | .error e => return (l, .error e)
    | .ok conn =>
      return (l.setConn connId { conn with sharedSecret := (P.ecdh conn.prvKeyEpSnd m.pubKeyEpSnd).toOption },
        .ok ⟨connId, m.message.payloadRaw, .initCryptoSnd⟩)

def decodeInitCryptoRcv (l : Listener Prv Pub) (connId : Nat) (encData : Bytes) :
    Option (Listener Prv Pub × Except String Decoded) :=
  match l.connMap.get? connId with
  | none => some (l, .error "connection not found for InitWithCryptoR0")
  | some conn => do
    match ← decryptInitCryptoRcv P encData conn.prvKeyEpSnd with
    | .error e => return (l, .error ("failed to decode InitWithCryptoR0: " ++ e))
    | .ok m =>
      let conn := { conn with
        pubKeyEpRcv := some m.pubKeyEpRcv
        sharedSecret := some m.sharedSecret }
      return (l.setConn connId conn, .ok ⟨connId, m.message.payloadRaw, .initCryptoRcv⟩)

def decodeDataMsg (l : Listener Prv Pub) (connId : Nat) (encData : Bytes) :
    Option (Listener Prv Pub × Except String Decoded) :=
  match l.connMap.get? connId with
  | none => some (l, .error "connection not found for DataMessage")
  | some conn => do
    match ← decryptData P encData conn.isSenderOnInit conn.epochCryptoRcv conn.sharedSecret with
    | .error e => return (l, .error e)
    | .ok m =>
      let conn := if m.currentEpochCrypt > conn.epochCryptoRcv
        then { conn with epochCryptoRcv := m.currentEpochCrypt } else conn
      return (l.setConn connId conn, .ok ⟨connId, m.payloadRaw, .data⟩)

/-- `Listener.decode`; `fresh` is what `generateKey` returns if it is called. -/
def decode (l : Listener Prv Pub) (encData : Bytes) (rAddr : Nat) (fresh : Except String Prv) :
    Option (Listener Prv Pub × Except String Decoded) :=
  if encData.length < minPacketSize then
    some (l, .error s!"header needs to be at least {minPacketSize} bytes")
  else do
    let header ← encData[0]?
    if header &&& 0x1F ≠ cryptoVersion then return (l, .error "unsupported version version")
    let connIdBytes ← slice? encData headerSize (connIdSize + headerSize)
    let connId ← uint64 connIdBytes
    let code := (header >>> 5).toNat
    match CryptoMsgType.ofCode (header >>> 5) with
    | .initSnd => l.decodeInitSnd P connId encData rAddr fresh
    | .initRcv => l.decodeInitRcv P connId encData
    | .initCryptoSnd => l.decodeInitCryptoSnd P connId encData rAddr fresh
    | .initCryptoRcv => l.decodeInitCryptoRcv P connId encData
    | .data => l.decodeDataMsg P connId encData
    | .unknown _ => return (l, .error s!"unknown message type: {code}")

/-- The handshake mark that `Listen` sets behind a processed datagram. -/
def markHandshake (conn : Conn Prv Pub) (msgType : CryptoMsgType) : Conn Prv Pub :=
  if conn.isHandshakeDoneOnRcv then conn
  else if conn.isSenderOnInit then
    if msgType = .initRcv ∨ msgType = .initCryptoRcv then { conn with isHandshakeDoneOnRcv := true }
    else conn
  else if msgType = .data then { conn with isHandshakeDoneOnRcv := true }
  else conn

/-- The payload of an InitSnd is empty and stands for a bare header. -/
def payloadOf (d : Decoded) : Option (Except String (PayloadHeader × Option Bytes)) :=
  if d.payload.length = 0 ∧ d.msgType = .initSnd then some (.ok ({}, some []))
  else decodePayload d.payload

/-- What `Listen` does with a decoded datagram of `n` bytes. -/
def deliver (l : Listener Prv Pub) (d : Decoded) (n nowNano : Nat) :
    Option (Listener Prv Pub × Except String (Option (Nat × Nat))) := do
  let conn ← l.connMap.get? d.connId
  let conn := if nowNano > conn.measurements.lastReadTimeNano
    then { conn with measurements := { conn.measurements with lastReadTimeNano := nowNano } } else conn
  match ← payloadOf d with
  | .error e => return (l.setConn d.connId conn, .error e)
  | .ok (p, userData) =>
    let conn ← conn.decode p userData n nowNano
    return (l.setConn d.connId (markHandshake conn d.msgType), .ok (some (d.connId, p.streamID)))

/-- What `Listen` reads of a datagram: its buffer holds one MTU, the rest is cut off. -/
def readFrom (l : Listener Prv Pub) (datagram : Bytes) (remoteAddr : Nat) : ReadResult :=
  .datagram (datagram.take l.mtu.toNat) remoteAddr

/-- `Listener.Listen`: one datagram. The returned stream is named by its connection and id. -/
def listen (l : Listener Prv Pub) (read : ReadResult) (fresh : Except String Prv) (nowNano : Nat) :
    Option (Listener Prv Pub × Except String (Option (Nat × Nat))) :=
  match read with
  | .timeout => some (l, .ok none)
  | .error e => some (l, .error e)
  | .datagram data remoteAddr =>
    if data.length = 0 then some (l, .ok none)
    else do
      let (l, r) ← l.decode P data remoteAddr fresh
      match r with
      | .error e => return (l, .error e)
      | .ok d => l.deliver d data.length nowNano

/-- `Dial` and `DialWithCrypto`: the connection id is the head of the fresh public key. -/
def dialWith (l : Listener Prv Pub) (remoteAddr : Nat) (pubKeyIdRcv : Option Pub) (withCrypto : Bool)
    (fresh : Except String Prv) : Option (Listener Prv Pub × Except String (Conn Prv Pub)) :=
  match fresh with
  | .error e => some (l, .error e)
  | .ok prvKeyEp => do
    let connId ← uint64 (P.bytes (P.publicKey prvKeyEp))
    l.newConn P connId remoteAddr prvKeyEp pubKeyIdRcv none true withCrypto

def dial (l : Listener Prv Pub) (remoteAddr : Nat) (fresh : Except String Prv) :=
  l.dialWith P remoteAddr none false fresh

def dialWithCrypto (l : Listener Prv Pub) (remoteAddr : Nat) (pubKeyIdRcv : Option Pub)
    (fresh : Except String Prv) := l.dialWith P remoteAddr pubKeyIdRcv true fresh

end Listener

end Qotp
