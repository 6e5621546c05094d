import Qotp.Crypto.Chained

namespace Qotp

open Framework

variable {Prv Pub : Type} (P : Primitives Prv Pub)

def headerByte (msgType : CryptoMsgType) : UInt8 := (msgType.code <<< 5) ||| cryptoVersion

/-- Unencrypted: both public keys, padded to the MTU. -/
def encryptInitSnd (pubKeyIdSnd pubKeyEpSnd : Pub) (mtu : Int) : Option (Nat × Bytes) :=
  -- the identity key is copied to byte 33 on, so a smaller buffer panics
  if mtu < 33 then none
  else
    let buffer := [headerByte .initSnd] ++ P.bytes pubKeyEpSnd ++ P.bytes pubKeyIdSnd
    let buffer := (buffer ++ List.replicate mtu.toNat 0).take mtu.toNat
    (uint64 (buffer.drop headerSize)).map fun connId => (connId, buffer)

def encryptInitRcv (connId : Nat) (pubKeyIdSnd : Pub) (pubKeyEpRcv : Option Pub) (prvKeyEpSnd : Prv)
    (snCrypto : Nat) (packetData : Bytes) : Option (Except String Bytes) := do
  let pubKeyEpRcv ← pubKeyEpRcv
  let headerWithKeys := [headerByte .initRcv] ++ putUint64 connId ++
    P.bytes (P.publicKey prvKeyEpSnd) ++ P.bytes pubKeyIdSnd
  match P.ecdh prvKeyEpSnd pubKeyEpRcv with
  | .error e => return .error e
  | .ok sharedSecret => chainedEncrypt P snCrypto 0 false sharedSecret headerWithKeys packetData

/-- The payload is preceded by its filler so that the datagram fills the MTU. -/
def encryptInitCryptoSnd (pubKeyIdRcv : Option Pub) (pubKeyIdSnd : Pub) (prvKeyEpSnd : Prv)
    (snCrypto : Nat) (mtu : Int) (packetData : Bytes) : Option (Except String (Nat × Bytes)) := do
  let pubKeyIdRcv ← pubKeyIdRcv
  let headerWithKeys := [headerByte .initCryptoSnd] ++ P.bytes (P.publicKey prvKeyEpSnd) ++
    P.bytes pubKeyIdSnd
  let fillLen : Int := mtu -
    ((minInitCryptoSndSizeHdr + footerDataSize + msgInitFillLenSize + packetData.length : Nat) : Int)
  if fillLen < 0 then return .error "packet dataToSend cannot be larger than MTU"
  let paddedPacketData := putUint16 (toUint16 fillLen) ++ List.replicate fillLen.toNat 0 ++ packetData
  match P.ecdh prvKeyEpSnd pubKeyIdRcv with
  | .error e => return .error e
  | .ok nonForwardSecretKey =>
    let enc ← chainedEncrypt P snCrypto 0 true nonForwardSecretKey headerWithKeys paddedPacketData
    let connId ← uint64 (headerWithKeys.drop headerSize)
    return enc.map fun encData => (connId, encData)

def encryptInitCryptoRcv (connId : Nat) (pubKeyEpRcv : Option Pub) (prvKeyEpSnd : Prv)
    (snCrypto : Nat) (packetData : Bytes) : Option (Except String Bytes) := do
  let pubKeyEpRcv ← pubKeyEpRcv
  let headerWithKeys := [headerByte .initCryptoRcv] ++ putUint64 connId ++
    P.bytes (P.publicKey prvKeyEpSnd)
  match P.ecdh prvKeyEpSnd pubKeyEpRcv with
  | .error e => return .error e
  | .ok sharedSecret => chainedEncrypt P snCrypto 0 false sharedSecret headerWithKeys packetData

def dataHeader (connId : Nat) : Bytes := [headerByte .data] ++ putUint64 connId

def encryptData (connId : Nat) (isSender : Bool) (sharedSecret : Option Bytes)
    (snCrypto epochCrypto : Nat) (packetData : Bytes) : Option (Except String Bytes) := do
  let sharedSecret ← sharedSecret
  chainedEncrypt P snCrypto epochCrypto isSender sharedSecret (dataHeader connId) packetData

def decryptInitSnd (encData : Bytes) (mtu : Int) : Option (Except String (Pub × Pub)) :=
  if (encData.length : Int) < mtu then some (.error "size is below minimum init")
  else do
    let ep ← slice? encData headerSize (headerSize + pubKeySize)
    match P.newPublicKey ep with
    | .error e => return .error e
    | .ok pubKeyEpSnd =>
      let idBytes ← slice? encData (headerSize + pubKeySize) (headerSize + 2 * pubKeySize)
      match P.newPublicKey idBytes with
      | .error e => return .error e
      | .ok pubKeyIdSnd => return .ok (pubKeyIdSnd, pubKeyEpSnd)

structure InitRcvMsg (Pub : Type) where
  sharedSecret : Bytes
  pubKeyIdRcv : Pub
  pubKeyEpRcv : Pub
  message : Message

def decryptInitRcv (encData : Bytes) (prvKeyEpSnd : Prv) : Option (Except String (InitRcvMsg Pub)) :=
  if encData.length < minInitRcvSizeHdr + footerDataSize then
    some (.error "size is below minimum init reply")
  else do
    let ep ← slice? encData (headerSize + connIdSize) (headerSize + connIdSize + pubKeySize)
    match P.newPublicKey ep with
    | .error e => return .error e
    | .ok pubKeyEpRcv =>
      let idBytes ← slice? encData (headerSize + connIdSize + pubKeySize)
        (headerSize + connIdSize + 2 * pubKeySize)
      match P.newPublicKey idBytes with
      | .error e => return .error e
      | .ok pubKeyIdRcv =>
        match P.ecdh prvKeyEpSnd pubKeyEpRcv with
        | .error e => return .error e
        | .ok sharedSecret =>
          let header ← slice? encData 0 minInitRcvSizeHdr
          let body ← sliceFrom? encData minInitRcvSizeHdr
          let dec ← chainedDecrypt P true 0 sharedSecret header body
          return dec.map fun m => ⟨sharedSecret, pubKeyIdRcv, pubKeyEpRcv, m⟩

structure InitCryptoSndMsg (Pub : Type) where
  pubKeyIdSnd : Pub
  pubKeyEpSnd : Pub
  message : Message

/-- The filler length is read back from the decrypted text and used as a slice bound. -/
def stripFiller (packetData : Bytes) : Option Bytes := do
  let fillerLen ← uint16 packetData
  sliceFrom? packetData (2 + fillerLen)

def decryptInitCryptoSnd (encData : Bytes) (prvKeyIdRcv : Prv) (mtu : Int) :
    Option (Except String (InitCryptoSndMsg Pub)) :=
  if (encData.length : Int) < mtu then some (.error "size is below minimum init")
  else do
    let ep ← slice? encData headerSize (headerSize + pubKeySize)
    match P.newPublicKey ep with
    | .error e => return .error e
    | .ok pubKeyEpSnd =>
      let idBytes ← slice? encData (headerSize + pubKeySize) (headerSize + 2 * pubKeySize)
      match P.newPublicKey idBytes with
      | .error e => return .error e
      | .ok pubKeyIdSnd =>
        match P.ecdh prvKeyIdRcv pubKeyEpSnd with
        | .error e => return .error e
        | .ok nonForwardSecretKey =>
          let header ← slice? encData 0 minInitCryptoSndSizeHdr
          let body ← sliceFrom? encData minInitCryptoSndSizeHdr
          let dec ← chainedDecrypt P false 0 nonForwardSecretKey header body
          match dec with
          | .error e => return .error e
          | .ok m =>
            let actualData ← stripFiller m.payloadRaw
            return .ok ⟨pubKeyIdSnd, pubKeyEpSnd, { m with payloadRaw := actualData }⟩

structure InitCryptoRcvMsg (Pub : Type) where
  sharedSecret : Bytes
  pubKeyEpRcv : Pub
  message : Message

def decryptInitCryptoRcv (encData : Bytes) (prvKeyEpSnd : Prv) :
    Option (Except String (InitCryptoRcvMsg Pub)) :=
  if encData.length < minInitCryptoRcvSizeHdr + footerDataSize then
    some (.error "size is below minimum init reply")
  else do
    let ep ← slice? encData (headerSize + connIdSize) (headerSize + connIdSize + pubKeySize)
    match P.newPublicKey ep with
    | .error e => return .error e
    | .ok pubKeyEpRcv =>
      match P.ecdh prvKeyEpSnd pubKeyEpRcv with
      | .error e => return .error e
      | .ok sharedSecret =>
        let header ← slice? encData 0 minInitCryptoRcvSizeHdr
        let body ← sliceFrom? encData minInitCryptoRcvSizeHdr
        let dec ← chainedDecrypt P true 0 sharedSecret header body
        return dec.map fun m => ⟨sharedSecret, pubKeyEpRcv, m⟩

def decryptData (encData : Bytes) (isSender : Bool) (epochCrypt : Nat) (sharedSecret : Option Bytes) :
    Option (Except String Message) :=
  if encData.length < minDataSizeHdr + footerDataSize then some (.error "size is below minimum")
  else do
    let header ← slice? encData 0 minDataSizeHdr
    let body ← sliceFrom? encData minDataSizeHdr
    chainedDecrypt P isSender epochCrypt (sharedSecret.getD []) header body

end Qotp
