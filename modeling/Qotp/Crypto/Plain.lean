import Qotp.Crypto.Messages

namespace Qotp

/-- A transparent instance of the primitives, on which the model can be run.
Nothing is hidden, but keys and nonces are checked: the tag carries four bytes of
the key and the nonce. Key agreement is the product, so both ends derive one secret.
A public key is read from its last byte, so keys can agree in their first eight. -/
def plain : Primitives UInt8 UInt8 where
  publicKey prv := prv
  bytes pub := List.replicate 32 pub
  newPublicKey b := match b.getLast? with
    | some x => if b.length = 32 then .ok x else .error "invalid public key"
    | none => .error "invalid public key"
  ecdh prv pub := if pub = 0 then .error "bad X25519 remote ECDH input: low order point"
    else .ok (List.replicate 32 (prv * pub))
  sealAead key nonce plaintext _ := plaintext ++ key.take 4 ++ nonce.take 12
  openAead key nonce ciphertext _ :=
    let text := ciphertext.take (ciphertext.length - 16)
    if ciphertext = text ++ key.take 4 ++ nonce.take 12 then .ok text
    else .error "message authentication failed"
  sealX _ _ plaintext := plaintext ++ List.replicate 16 0
  xorKeyStream _ _ text := text
  bytes_length _ := List.length_replicate
  xorKeyStream_length _ _ _ := rfl

/-- The same primitives without the private key 0, whose public key is the low-order point. -/
def plainHonest : Primitives {prv : UInt8 // prv ≠ 0} UInt8 :=
  { plain with
    publicKey := fun prv => prv.1
    ecdh := fun prv pub => plain.ecdh prv.1 pub }

end Qotp
