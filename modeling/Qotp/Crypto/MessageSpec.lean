import Qotp.Crypto.Messages

namespace Qotp

open Framework

variable {Prv Pub : Type} (P : Primitives Prv Pub)

/-- The bytes `[lo, hi)` of a datagram. -/
def field (encData : Bytes) (lo hi : Nat) : Bytes := (encData.take hi).drop lo

theorem slice?_eq_field {encData : Bytes} {lo hi : Nat} (hl : lo ≤ hi) (hh : hi ≤ encData.length) :
    slice? encData lo hi = some (field encData lo hi) := slice?_of_le hl hh

/-- The only bounds `chainedDecrypt` can miss are those of the encrypted sequence
number and of the 24 bytes behind it. -/
theorem chainedDecrypt_eq_none {isSender : Bool} {epoch : Nat} {key header body : Bytes} :
    chainedDecrypt P isSender epoch key header body = none ↔ body.length < snSize + 24 := by
  by_cases h6 : snSize ≤ body.length
  · have hs : slice? body 0 snSize = some (field body 0 snSize) := slice?_eq_field (Nat.zero_le _) h6
    have hf : sliceFrom? body snSize = some (body.drop snSize) := sliceFrom?_of_le h6
    by_cases h24 : body.length < snSize + 24
    · have hnone : sliceTo? (body.drop snSize) 24 = none := if_neg (by rw [List.length_drop]; omega)
      simp [chainedDecrypt, hs, hf, hnone, h24]
    · have hr : sliceTo? (body.drop snSize) 24 = some ((body.drop snSize).take 24) :=
        sliceTo?_of_le (by rw [List.length_drop]; omega)
      have hx : (P.xorKeyStream key ((body.drop snSize).take 24) (field body 0 snSize)).length = 6 := by
        rw [P.xorKeyStream_length, field, List.drop_zero, List.length_take_of_le h6]
        rfl
      have hsn : uint48 (P.xorKeyStream key ((body.drop snSize).take 24) (field body 0 snSize)) =
          some (getLE _) := if_pos hx.ge
      simp only [h24, iff_false]
      intro h
      simp only [chainedDecrypt, hs, hf, hr, Option.bind_eq_bind, Option.bind_some, openNoVerify] at h
      cases hk : checkKey key with
      | error e => simp [hk] at h
      | ok _ =>
        simp only [hk, hsn, Option.bind_some] at h
        split at h <;> cases h
  · have hnone : slice? body 0 snSize = none := if_neg (by omega)
    simp only [chainedDecrypt, hnone, Option.bind_eq_bind, Option.bind_none, true_iff]
    omega

/-- `decryptInitRcv` with its bounds checked: 95 bytes hold both keys and a footer. -/
theorem decryptInitRcv_eq {encData : Bytes} (h : 95 ≤ encData.length) (prv : Prv) :
    decryptInitRcv P encData prv =
      match P.newPublicKey (field encData 9 41), P.newPublicKey (field encData 41 73) with
      | .error e, _ => some (.error e)
      | .ok _, .error e => some (.error e)
      | .ok ep, .ok id =>
        match P.ecdh prv ep with
        | .error e => some (.error e)
        | .ok key => (chainedDecrypt P true 0 key (field encData 0 73) (encData.drop 73)).map
          fun r => r.map fun m => ⟨key, id, ep, m⟩ := by
  have hmin : ¬ encData.length < minInitRcvSizeHdr + footerDataSize := not_lt.mpr h
  have h1 : slice? encData (headerSize + connIdSize) (headerSize + connIdSize + pubKeySize) =
      some (field encData 9 41) := slice?_eq_field (by decide) (h.trans' (by decide))
  have h2 : slice? encData (headerSize + connIdSize + pubKeySize) (headerSize + connIdSize + 2 * pubKeySize) =
      some (field encData 41 73) := slice?_eq_field (by decide) (h.trans' (by decide))
  have h3 : slice? encData 0 minInitRcvSizeHdr = some (field encData 0 73) :=
    slice?_eq_field (by decide) (h.trans' (by decide))
  have h4 : sliceFrom? encData minInitRcvSizeHdr = some (encData.drop 73) :=
    sliceFrom?_of_le (h.trans' (by decide))
  simp only [decryptInitRcv, if_neg hmin, h1, h2, h3, h4, Option.bind_eq_bind, Option.bind_some]
  cases P.newPublicKey (field encData 9 41) with
  | error e => rfl
  | ok ep =>
    cases P.newPublicKey (field encData 41 73) with
    | error e => rfl
    | ok id =>
      dsimp only
      cases P.ecdh prv ep with
      | error e => rfl
      | ok key => exact Option.map_eq_bind.symm

/-- `decryptInitCryptoRcv` with its bounds checked: 63 bytes hold the key and a footer. -/
theorem decryptInitCryptoRcv_eq {encData : Bytes} (h : 63 ≤ encData.length) (prv : Prv) :
    decryptInitCryptoRcv P encData prv =
      match P.newPublicKey (field encData 9 41) with
      | .error e => some (.error e)
      | .ok ep =>
        match P.ecdh prv ep with
        | .error e => some (.error e)
        | .ok key => (chainedDecrypt P true 0 key (field encData 0 41) (encData.drop 41)).map
          fun r => r.map fun m => ⟨key, ep, m⟩ := by
  have hmin : ¬ encData.length < minInitCryptoRcvSizeHdr + footerDataSize := not_lt.mpr h
  have h1 : slice? encData (headerSize + connIdSize) (headerSize + connIdSize + pubKeySize) =
      some (field encData 9 41) := slice?_eq_field (by decide) (h.trans' (by decide))
  have h2 : slice? encData 0 minInitCryptoRcvSizeHdr = some (field encData 0 41) :=
    slice?_eq_field (by decide) (h.trans' (by decide))
  have h3 : sliceFrom? encData minInitCryptoRcvSizeHdr = some (encData.drop 41) :=
    sliceFrom?_of_le (h.trans' (by decide))
  simp only [decryptInitCryptoRcv, if_neg hmin, h1, h2, h3, Option.bind_eq_bind, Option.bind_some]
  cases P.newPublicKey (field encData 9 41) with
  | error e => rfl
  | ok ep =>
    dsimp only
    cases P.ecdh prv ep with
    | error e => rfl
    | ok key => exact Option.map_eq_bind.symm

/-- The two keys at the front of an InitSnd or InitCryptoSnd: ephemeral, then identity. -/
def initKeys (encData : Bytes) : Except String (Pub × Pub) :=
  match P.newPublicKey (field encData 1 33), P.newPublicKey (field encData 33 65) with
  | .error e, _ => .error e
  | .ok _, .error e => .error e
  | .ok ep, .ok id => .ok (ep, id)

/-- `decryptInitSnd` with its bounds checked: the datagram has at least 65 bytes. -/
theorem decryptInitSnd_eq {encData : Bytes} {mtu : Int} (h : mtu ≤ encData.length)
    (h65 : 65 ≤ encData.length) :
    decryptInitSnd P encData mtu = some ((initKeys P encData).map fun k => (k.2, k.1)) := by
  have h1 : slice? encData headerSize (headerSize + pubKeySize) = some (field encData 1 33) :=
    slice?_eq_field (by decide) (h65.trans' (by decide))
  have h2 : slice? encData (headerSize + pubKeySize) (headerSize + 2 * pubKeySize) =
      some (field encData 33 65) := slice?_eq_field (by decide) h65
  simp only [decryptInitSnd, if_neg (not_lt.mpr h), h1, h2, Option.bind_eq_bind, Option.bind_some, initKeys]
  cases P.newPublicKey (field encData 1 33) with
  | error e => rfl
  | ok ep =>
    cases P.newPublicKey (field encData 33 65) with
    | error e => rfl
    | ok id => rfl

/-- `decryptInitCryptoSnd` with its bounds checked, up to the stripping of the filler. -/
theorem decryptInitCryptoSnd_eq {encData : Bytes} {mtu : Int} (h : mtu ≤ encData.length)
    (h65 : 65 ≤ encData.length) (prv : Prv) :
    decryptInitCryptoSnd P encData prv mtu =
      match initKeys P encData with
      | .error e => some (.error e)
      | .ok (ep, id) =>
        match P.ecdh prv ep with
        | .error e => some (.error e)
        | .ok key => (chainedDecrypt P false 0 key (field encData 0 65) (encData.drop 65)).bind fun r =>
          match r with
          | .error e => some (.error e)
          | .ok m => (stripFiller m.payloadRaw).map fun data => .ok ⟨id, ep, { m with payloadRaw := data }⟩ := by
  have h1 : slice? encData headerSize (headerSize + pubKeySize) = some (field encData 1 33) :=
    slice?_eq_field (by decide) (h65.trans' (by decide))
  have h2 : slice? encData (headerSize + pubKeySize) (headerSize + 2 * pubKeySize) =
      some (field encData 33 65) := slice?_eq_field (by decide) h65
  have h3 : slice? encData 0 minInitCryptoSndSizeHdr = some (field encData 0 65) :=
    slice?_eq_field (by decide) h65
  have h4 : sliceFrom? encData minInitCryptoSndSizeHdr = some (encData.drop 65) := sliceFrom?_of_le h65
  simp only [decryptInitCryptoSnd, if_neg (not_lt.mpr h), h1, h2, h3, h4, Option.bind_eq_bind, Option.bind_some,
    initKeys]
  cases P.newPublicKey (field encData 1 33) with
  | error e => rfl
  | ok ep =>
    cases P.newPublicKey (field encData 33 65) with
    | error e => rfl
    | ok id =>
      dsimp only
      cases P.ecdh prv ep with
      | error e => rfl
      | ok key =>
        dsimp only
        cases chainedDecrypt P false 0 key (field encData 0 65) (encData.drop 65) with
        | none => rfl
        | some r =>
          cases r with
          | error e => rfl
          | ok m => exact Option.map_eq_bind.symm

/-- `decryptData` with its bounds checked. -/
theorem decryptData_eq {encData : Bytes} (h : 31 ≤ encData.length) (isSender : Bool) (epoch : Nat)
    (secret : Option Bytes) :
    decryptData P encData isSender epoch secret =
      chainedDecrypt P isSender epoch (secret.getD []) (field encData 0 9) (encData.drop 9) := by
  have hmin : ¬ encData.length < minDataSizeHdr + footerDataSize := not_lt.mpr h
  have h1 : slice? encData 0 minDataSizeHdr = some (field encData 0 9) :=
    slice?_eq_field (by decide) (h.trans' (by decide))
  have h2 : sliceFrom? encData minDataSizeHdr = some (encData.drop 9) := sliceFrom?_of_le (h.trans' (by decide))
  simp only [decryptData, if_neg hmin, h1, h2, Option.bind_eq_bind, Option.bind_some]

end Qotp
