import Qotp.Crypto.Primitives
import Qotp.Framework.Slice
import Qotp.Framework.Word

namespace Qotp

open Framework

variable {Prv Pub : Type}

/-- Bit 7 of the first byte says which end sealed the datagram. -/
def markDirection (isSender : Bool) (nonce : Bytes) : Bytes :=
  match nonce with
  | [] => []
  | b :: bs => (if isSender then b ||| 0x80 else b &&& ~~~0x80) :: bs

/-- The deterministic nonce: epoch, sequence number, direction. -/
def nonceDet (epochConn snCrypt : Nat) (isSender : Bool) : Bytes :=
  markDirection isSender (putUint48 epochConn ++ putUint48 snCrypt)

/-- Payload under the deterministic nonce, sequence number under the first 24
bytes of that ciphertext. -/
def chainedEncrypt (P : Primitives Prv Pub) (snCrypt epochConn : Nat) (isSender : Bool)
    (sharedSecret headerAndCrypto packetData : Bytes) : Option (Except String Bytes) :=
  match checkKey sharedSecret with
  | .error e => some (.error e)
  | .ok _ => do
    let nonce := nonceDet epochConn snCrypt isSender
    let cipher := P.sealAead sharedSecret nonce packetData headerAndCrypto
    let nonceRand ← slice? cipher 0 24
    let encSn ← sliceTo? (P.sealX sharedSecret nonceRand ((nonce.drop 6).take 6)) snSize
    return .ok (headerAndCrypto ++ encSn ++ cipher)

/-- Nothing but a short ciphertext can stop the encryption under a 32-byte key. -/
theorem chainedEncrypt_ok (P : Primitives Prv Pub) {snCrypt epochConn : Nat} {isSender : Bool}
    {sharedSecret headerAndCrypto packetData : Bytes} (hk : sharedSecret.length = 32)
    (hs : 24 ≤ (P.sealAead sharedSecret (nonceDet epochConn snCrypt isSender) packetData
      headerAndCrypto).length)
    (hx : ∀ n t, snSize ≤ (P.sealX sharedSecret n t).length) :
    ∃ enc, chainedEncrypt P snCrypt epochConn isSender sharedSecret headerAndCrypto packetData =
      some (.ok enc) := by
  have hkey : checkKey sharedSecret = .ok () := if_pos hk
  simp only [chainedEncrypt, hkey, slice?_of_le (Nat.zero_le _) hs, sliceTo?_of_le (hx _ _)]
  exact ⟨_, rfl⟩

def openNoVerify (P : Primitives Prv Pub) (sharedSecret nonce encoded : Bytes) :
    Except String Bytes :=
  match checkKey sharedSecret with
  | .error e => .error e
  | .ok _ => .ok (P.xorKeyStream sharedSecret nonce encoded)

/-- The current epoch, the one before it and the one after it, in this order. -/
def epochsToTry (epochCrypt : Nat) : List Nat :=
  [epochCrypt] ++ (if epochCrypt > 0 then [epochCrypt - 1] else []) ++ [add64 epochCrypt 1]

/-- The receiver rebuilds the nonce of the opposite direction. -/
def tryEpochs (P : Primitives Prv Pub) (isSender : Bool) (snConn : Nat)
    (sharedSecret header encData : Bytes) : List Nat → Except String (Nat × Bytes)
  | [] => .error ""
  | e :: es =>
    match P.openAead sharedSecret (nonceDet e snConn (!isSender)) encData header with
    | .ok packetData => .ok (e, packetData)
    | .error err => if es = [] then .error err
      else tryEpochs P isSender snConn sharedSecret header encData es

structure Message where
  snConn : Nat
  currentEpochCrypt : Nat
  payloadRaw : Bytes
  deriving DecidableEq, Repr

def chainedDecrypt (P : Primitives Prv Pub) (isSender : Bool) (epochCrypt : Nat)
    (sharedSecret header encData : Bytes) : Option (Except String Message) := do
  let encSn ← slice? encData 0 snSize
  let encData ← sliceFrom? encData snSize
  -- bounded by the length of the data; Go bounds it by the capacity of the buffer it was read into
  let nonceRand ← sliceTo? encData 24
  match openNoVerify P sharedSecret nonceRand encSn with
  | .error e => return .error e
  | .ok snConnBytes =>
    let snConn ← uint48 snConnBytes
    match tryEpochs P isSender snConn sharedSecret header encData (epochsToTry epochCrypt) with
    | .error e => return .error e
    | .ok (epoch, packetData) => return .ok ⟨snConn, epoch, packetData⟩

end Qotp
