import Qotp.Wire.Proto

namespace Qotp

/-- The message types on the wire; the three-bit field leaves room for codes
that no branch handles. -/
inductive CryptoMsgType where
  | initSnd
  | initRcv
  | initCryptoSnd
  | initCryptoRcv
  | data
  | unknown (code : UInt8)
  deriving DecidableEq, Repr

namespace CryptoMsgType

def code : CryptoMsgType → UInt8
  | initSnd => 0
  | initRcv => 1
  | initCryptoSnd => 2
  | initCryptoRcv => 3
  | data => 4
  | unknown c => c

def ofCode (c : UInt8) : CryptoMsgType :=
  if c = 0 then initSnd else if c = 1 then initRcv else if c = 2 then initCryptoSnd
  else if c = 3 then initCryptoRcv else if c = 4 then data else unknown c

end CryptoMsgType

def cryptoVersion : UInt8 := 0
def macSize : Nat := 16
def snSize : Nat := 6
def pubKeySize : Nat := 32
def headerSize : Nat := 1
def connIdSize : Nat := 8
def msgInitFillLenSize : Nat := 2
def minInitRcvSizeHdr : Nat := headerSize + connIdSize + 2 * pubKeySize
def minInitCryptoSndSizeHdr : Nat := headerSize + 2 * pubKeySize
def minInitCryptoRcvSizeHdr : Nat := headerSize + connIdSize + pubKeySize
def minDataSizeHdr : Nat := headerSize + connIdSize
def footerDataSize : Nat := snSize + macSize
def minPacketSize : Nat := minDataSizeHdr + footerDataSize + minProtoSize

/-- What the code calls in crypto/ecdh and x/crypto. The AEADs are used with a
12-byte nonce (`sealAead`, `openAead`) and a 24-byte one (`sealX`);
`xorKeyStream` is the bare cipher at block counter 1. -/
structure Primitives (Prv Pub : Type) where
  publicKey : Prv → Pub
  bytes : Pub → Bytes
  newPublicKey : Bytes → Except String Pub
  ecdh : Prv → Pub → Except String Bytes
  sealAead : (key nonce plaintext aad : Bytes) → Bytes
  openAead : (key nonce ciphertext aad : Bytes) → Except String Bytes
  sealX : (key nonce plaintext : Bytes) → Bytes
  xorKeyStream : (key nonce text : Bytes) → Bytes
  bytes_length : ∀ p, (bytes p).length = 32
  xorKeyStream_length : ∀ k n t, (xorKeyStream k n t).length = t.length

/-- The constructors `New`, `NewX` and `NewUnauthenticatedCipher` only check the key length. -/
def checkKey (sharedSecret : Bytes) : Except String Unit :=
  if sharedSecret.length = 32 then .ok () else .error "bad key length"

/-- The number of bytes a datagram spends beside the user data. -/
def calcCryptoOverheadWithData (msgType : CryptoMsgType) (ack : Option Ack) (offset : Nat) : Int :=
  let hasAck := ack.isSome
  let needsExtension := (match ack with | some a => decide (a.offset > 0xFFFFFF) | none => false) ||
    decide (offset > 0xFFFFFF)
  let overhead : Int := calcProtoOverhead hasAck needsExtension false
  match msgType with
  | .initSnd => -1
  | .initRcv => overhead + (minInitRcvSizeHdr + footerDataSize : Nat)
  | .initCryptoSnd => overhead + (minInitCryptoSndSizeHdr + footerDataSize + msgInitFillLenSize : Nat)
  | .initCryptoRcv => overhead + (minInitCryptoRcvSizeHdr + footerDataSize : Nat)
  | .data => overhead + (minDataSizeHdr + footerDataSize : Nat)
  | .unknown _ => overhead

end Qotp
