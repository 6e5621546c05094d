import Qotp.Crypto.MessageSpec
import Qotp.Crypto.Nonce
import Qotp.Crypto.Plain
import Qotp.Wire.RoundTrip

namespace Qotp

open Framework

variable {Prv Pub : Type}

/-- What honest ends rely on. The AEADs are only ever called with a 32-byte key and,
for `sealAead` and `openAead`, with a 12-byte nonce. -/
structure Primitives.Correct (P : Primitives Prv Pub) : Prop where
  newPublicKey_bytes : ∀ p, P.newPublicKey (P.bytes p) = .ok p
  ecdh_agree : ∀ a b, ∃ key, P.ecdh a (P.publicKey b) = .ok key ∧ P.ecdh b (P.publicKey a) = .ok key
  ecdh_length : ∀ a p key, P.ecdh a p = .ok key → key.length = 32
  seal_length : ∀ key nonce text aad, key.length = 32 → nonce.length = 12 →
    (P.sealAead key nonce text aad).length = text.length + macSize
  open_seal : ∀ key nonce text aad, key.length = 32 → nonce.length = 12 →
    P.openAead key nonce (P.sealAead key nonce text aad) aad = .ok text
  open_other_nonce : ∀ key nonce other text aad, key.length = 32 → nonce.length = 12 →
    other.length = 12 → other ≠ nonce → ∃ e, P.openAead key other (P.sealAead key nonce text aad) aad = .error e
  sealX_take : ∀ key nonce text, key.length = 32 → text.length = snSize →
    (P.sealX key nonce text).take snSize = P.xorKeyStream key nonce text
  xorKeyStream_twice : ∀ key nonce text, P.xorKeyStream key nonce (P.xorKeyStream key nonce text) = text

section Layout

variable {d a b c : Bytes} {lo hi : Nat}

theorem field_append (hlo : a.length = lo) (hhi : lo + b.length = hi) : field (a ++ b ++ c) lo hi = b := by
  have htake : (a ++ b ++ c).take hi = a ++ b := List.take_left' (by rw [List.length_append, hlo, hhi])
  rw [field, htake, List.drop_left' hlo]

theorem field_front (hlo : a.length = hi) : field (a ++ b) 0 hi = a := by
  rw [field, List.take_left' hlo, List.drop_zero]

end Layout

section Chained

variable (P : Primitives Prv Pub) (sn e : Nat) (isSender : Bool) (key header data : Bytes)

/-- What follows the header of an encrypted datagram: the masked sequence number and
the ciphertext. -/
def sealedBody : Bytes :=
  let cipher := P.sealAead key (nonceDet e sn isSender) data header
  P.xorKeyStream key (cipher.take 24) (putUint48 sn) ++ cipher

variable {P sn e isSender key header data}

theorem putUint48_length (v : Nat) : (putUint48 v).length = snSize := putLE_length 6 v

/-- The second half of the nonce is the sequence number. -/
theorem nonceDet_sn : ((nonceDet e sn isSender).drop 6).take 6 = putUint48 sn := by
  have hhead : nonceDet e sn isSender =
      (directionByte isSender (UInt8.ofNat e) :: putLE 5 (e / 256)) ++ putUint48 sn := nonceDet_eq_cons ..
  rw [hhead, List.drop_left' (by simp), List.take_of_length_le (show (putUint48 sn).length ≤ 6 from (putUint48_length sn).le)]

theorem sealedBody_length (hP : P.Correct) (hk : key.length = 32) :
    (sealedBody P sn e isSender key header data).length = data.length + footerDataSize := by
  have hc := hP.seal_length key (nonceDet e sn isSender) data header hk (nonceDet_length ..)
  simp only [sealedBody, List.length_append, P.xorKeyStream_length, putUint48_length, hc, footerDataSize]
  omega

theorem chainedEncrypt_eq (hP : P.Correct) (hk : key.length = 32) (hd : 8 ≤ data.length) :
    chainedEncrypt P sn e isSender key header data =
      some (.ok (header ++ sealedBody P sn e isSender key header data)) := by
  have hkey : checkKey key = .ok () := if_pos hk
  have hc := hP.seal_length key (nonceDet e sn isSender) data header hk (nonceDet_length ..)
  have h24 : 24 ≤ (P.sealAead key (nonceDet e sn isSender) data header).length := by
    rw [hc, macSize]
    omega
  have hx := hP.sealX_take key ((P.sealAead key (nonceDet e sn isSender) data header).take 24)
    (putUint48 sn) hk (putUint48_length sn)
  have hxl : snSize ≤ (P.sealX key ((P.sealAead key (nonceDet e sn isSender) data header).take 24)
      (putUint48 sn)).length := by
    have hl := congrArg List.length hx
    rw [P.xorKeyStream_length, putUint48_length, List.length_take] at hl
    omega
  simp only [chainedEncrypt, hkey, slice?_of_le (Nat.zero_le _) h24, List.drop_zero, nonceDet_sn,
    Option.bind_eq_bind, Option.bind_some, sliceTo?_of_le hxl, hx, sealedBody, List.append_assoc]
  rfl

/-- The search stops at the one epoch under whose nonce the ciphertext opens. -/
theorem tryEpochs_of_unique {sn e : Nat} {isSender : Bool} {key header cipher data : Bytes} {es : List Nat}
    (hmem : e ∈ es) (hok : P.openAead key (nonceDet e sn (!isSender)) cipher header = .ok data)
    (hother : ∀ f ∈ es, f ≠ e → ∃ err, P.openAead key (nonceDet f sn (!isSender)) cipher header = .error err) :
    tryEpochs P isSender sn key header cipher es = .ok (e, data) := by
  induction es with
  | nil => cases hmem
  | cons f fs ih =>
    by_cases hf : f = e
    · subst hf
      simp only [tryEpochs, hok]
    · have hmem' : e ∈ fs := (List.mem_cons.mp hmem).resolve_left (Ne.symm hf)
      obtain ⟨err, herr⟩ := hother f List.mem_cons_self hf
      simp only [tryEpochs, herr, if_neg (List.ne_nil_of_mem hmem')]
      exact ih hmem' fun g hg => hother g (List.mem_cons_of_mem _ hg)

theorem mem_epochsToTry {r f : Nat} (hr : r < 2 ^ 64 - 1) :
    f ∈ epochsToTry r ↔ f = r ∨ (0 < r ∧ f = r - 1) ∨ f = r + 1 := by
  have hadd : add64 r 1 = r + 1 := add64_of_lt (by omega)
  by_cases h0 : 0 < r <;> simp [epochsToTry, hadd, h0]

/-- Epochs a receiver tries are too close together to share a nonce: they differ in
their lowest seven bits. -/
theorem nonceDet_ne_of_near {e f : Nat} (hne : f ≠ e) (h1 : f ≤ e + 2) (h2 : e ≤ f + 2) :
    nonceDet f sn isSender ≠ nonceDet e sn isSender := by
  intro h
  have hmod := (nonceDet_inj.mp h).2.1
  omega

/-- The opposite role, at most one epoch away, reads back what was sealed, and the low
48 bits of the sequence number. -/
theorem chainedDecrypt_sealedBody_mod (hP : P.Correct) (hk : key.length = 32) (hd : 8 ≤ data.length)
    {r : Nat} (hr : r < 2 ^ 64 - 1) (h1 : e ≤ r + 1) (h2 : r ≤ e + 1) :
    chainedDecrypt P (!isSender) r key header (sealedBody P sn e isSender key header data) =
      some (.ok ⟨sn % 2 ^ 48, e, data⟩) := by
  have hc := hP.seal_length key (nonceDet e sn isSender) data header hk (nonceDet_length ..)
  have hopen := hP.open_seal key (nonceDet e sn isSender) data header hk (nonceDet_length ..)
  have hfail : ∀ f ∈ epochsToTry r, f ≠ e → ∃ err, P.openAead key (nonceDet f sn isSender)
      (P.sealAead key (nonceDet e sn isSender) data header) header = .error err := by
    intro f hf hne
    have hnear := (mem_epochsToTry hr).mp hf
    exact hP.open_other_nonce _ _ _ _ _ hk (nonceDet_length ..) (nonceDet_length ..)
      (nonceDet_ne_of_near hne (by omega) (by omega))
  have hmem : e ∈ epochsToTry r := (mem_epochsToTry hr).mpr (by omega)
  have hnonce : ∀ f, nonceDet f (sn % 2 ^ 48) isSender = nonceDet f sn isSender := fun f =>
    nonceDet_inj.mpr ⟨rfl, rfl, rfl, by omega⟩
  simp only [sealedBody]
  generalize P.sealAead key (nonceDet e sn isSender) data header = cipher at hc hopen hfail ⊢
  have hmask : (P.xorKeyStream key (cipher.take 24) (putUint48 sn)).length = snSize := by
    rw [P.xorKeyStream_length, putUint48_length]
  have hslice : slice? (P.xorKeyStream key (cipher.take 24) (putUint48 sn) ++ cipher) 0 snSize =
      some (P.xorKeyStream key (cipher.take 24) (putUint48 sn)) := by
    rw [slice?_eq_field (Nat.zero_le _) (by rw [List.length_append]; omega), field_front hmask]
  have hdrop : sliceFrom? (P.xorKeyStream key (cipher.take 24) (putUint48 sn) ++ cipher) snSize = some cipher := by
    rw [sliceFrom?_of_le (by rw [List.length_append]; omega), List.drop_left' hmask]
  have hrand : sliceTo? cipher 24 = some (cipher.take 24) := sliceTo?_of_le (by rw [hc, macSize]; omega)
  have hkey : checkKey key = .ok () := if_pos hk
  have hget : uint48 (putUint48 sn) = some (sn % 2 ^ 48) := by
    have hput := getLE?_putLE_append 6 sn []
    rwa [List.append_nil] at hput
  have htry : tryEpochs P (!isSender) (sn % 2 ^ 48) key header cipher (epochsToTry r) = .ok (e, data) := by
    apply tryEpochs_of_unique hmem
    · rwa [Bool.not_not, hnonce]
    · simpa only [Bool.not_not, hnonce] using hfail
  simp only [chainedDecrypt, hslice, hdrop, hrand, openNoVerify, hkey, hP.xorKeyStream_twice, hget, htry,
    Option.bind_eq_bind, Option.bind_some]
  rfl

theorem chainedDecrypt_sealedBody (hP : P.Correct) (hk : key.length = 32) (hd : 8 ≤ data.length)
    (hsn : sn < 2 ^ 48) {r : Nat} (hr : r < 2 ^ 64 - 1) (h1 : e ≤ r + 1) (h2 : r ≤ e + 1) :
    chainedDecrypt P (!isSender) r key header (sealedBody P sn e isSender key header data) =
      some (.ok ⟨sn, e, data⟩) := by
  rw [chainedDecrypt_sealedBody_mod hP hk hd hr h1 h2, Nat.mod_eq_of_lt hsn]

end Chained

section Messages

variable {P : Primitives Prv Pub}

/-- The headers of the three encrypted handshake messages. -/
def initRcvHeader (P : Primitives Prv Pub) (connId : Nat) (ep id : Pub) : Bytes :=
  [headerByte .initRcv] ++ putUint64 connId ++ P.bytes ep ++ P.bytes id

def initCryptoSndHeader (P : Primitives Prv Pub) (ep id : Pub) : Bytes :=
  [headerByte .initCryptoSnd] ++ P.bytes ep ++ P.bytes id

def initCryptoRcvHeader (P : Primitives Prv Pub) (connId : Nat) (ep : Pub) : Bytes :=
  [headerByte .initCryptoRcv] ++ putUint64 connId ++ P.bytes ep

/-- The padded text of an InitCryptoSnd message. -/
def paddedText (mtu : Int) (data : Bytes) : Bytes :=
  let fillLen : Int := mtu -
    ((minInitCryptoSndSizeHdr + footerDataSize + msgInitFillLenSize + data.length : Nat) : Int)
  putUint16 (toUint16 fillLen) ++ List.replicate fillLen.toNat 0 ++ data

theorem putUint64_length (v : Nat) : (putUint64 v).length = 8 := putLE_length 8 v

theorem initRcvHeader_length (connId : Nat) (ep id : Pub) : (initRcvHeader P connId ep id).length = 73 := by
  simp [initRcvHeader, putUint64_length, P.bytes_length]

theorem initCryptoSndHeader_length (ep id : Pub) : (initCryptoSndHeader P ep id).length = 65 := by
  simp [initCryptoSndHeader, P.bytes_length]

theorem initCryptoRcvHeader_length (connId : Nat) (ep : Pub) : (initCryptoRcvHeader P connId ep).length = 41 := by
  simp [initCryptoRcvHeader, putUint64_length, P.bytes_length]

theorem dataHeader_length (connId : Nat) : (dataHeader connId).length = 9 := by
  simp [dataHeader, putUint64_length]

variable {sn : Nat} {key data : Bytes}

theorem encryptInitRcv_eq (hP : P.Correct) {a : Prv} {ep id : Pub} (hkey : P.ecdh a ep = .ok key)
    (hd : 8 ≤ data.length) (connId : Nat) :
    encryptInitRcv P connId id (some ep) a sn data =
      some (.ok (initRcvHeader P connId (P.publicKey a) id ++
        sealedBody P sn 0 false key (initRcvHeader P connId (P.publicKey a) id) data)) := by
  simp only [encryptInitRcv, Option.bind_eq_bind, Option.bind_some, hkey]
  exact chainedEncrypt_eq hP (hP.ecdh_length _ _ _ hkey) hd

theorem encryptInitCryptoRcv_eq (hP : P.Correct) {a : Prv} {ep : Pub} (hkey : P.ecdh a ep = .ok key)
    (hd : 8 ≤ data.length) (connId : Nat) :
    encryptInitCryptoRcv P connId (some ep) a sn data =
      some (.ok (initCryptoRcvHeader P connId (P.publicKey a) ++
        sealedBody P sn 0 false key (initCryptoRcvHeader P connId (P.publicKey a)) data)) := by
  simp only [encryptInitCryptoRcv, Option.bind_eq_bind, Option.bind_some, hkey]
  exact chainedEncrypt_eq hP (hP.ecdh_length _ _ _ hkey) hd

theorem encryptData_eq (hP : P.Correct) (hk : key.length = 32) (hd : 8 ≤ data.length) (connId e : Nat)
    (isSender : Bool) :
    encryptData P connId isSender (some key) sn e data =
      some (.ok (dataHeader connId ++ sealedBody P sn e isSender key (dataHeader connId) data)) :=
  chainedEncrypt_eq hP hk hd

/-- `decryptInitRcv` on an answer sealed under the key the reader derives from it. -/
theorem decryptInitRcv_sealed (hP : P.Correct) {b : Prv} {ep id : Pub} (hkey : P.ecdh b ep = .ok key)
    (hd : 8 ≤ data.length) (hsn : sn < 2 ^ 48) (connId : Nat) :
    decryptInitRcv P (initRcvHeader P connId ep id ++
      sealedBody P sn 0 false key (initRcvHeader P connId ep id) data) b =
      some (.ok ⟨key, id, ep, ⟨sn, 0, data⟩⟩) := by
  have hk := hP.ecdh_length _ _ _ hkey
  have hopen : chainedDecrypt P true 0 key _ (sealedBody P sn 0 false key (initRcvHeader P connId ep id) data) =
      some (.ok ⟨sn, 0, data⟩) := chainedDecrypt_sealedBody hP hk hd hsn (by decide) (by omega) (by omega)
  have hbl : (sealedBody P sn 0 false key (initRcvHeader P connId ep id) data).length = data.length + 22 :=
    sealedBody_length hP hk
  generalize sealedBody P sn 0 false key (initRcvHeader P connId ep id) data = body at hopen hbl ⊢
  have hlen : 95 ≤ (initRcvHeader P connId ep id ++ body).length := by
    rw [List.length_append, initRcvHeader_length, hbl]
    omega
  have hep : field (initRcvHeader P connId ep id ++ body) 9 41 = P.bytes ep := by
    have hsplit : initRcvHeader P connId ep id ++ body =
        ([headerByte .initRcv] ++ putUint64 connId) ++ P.bytes ep ++ (P.bytes id ++ body) := by
      simp only [initRcvHeader, List.append_assoc]
    rw [hsplit, field_append (by simp [putUint64_length]) (by rw [P.bytes_length])]
  have hid : field (initRcvHeader P connId ep id ++ body) 41 73 = P.bytes id := by
    rw [initRcvHeader, field_append (by simp [putUint64_length, P.bytes_length]) (by rw [P.bytes_length])]
  rw [decryptInitRcv_eq P hlen b, hep, hid, hP.newPublicKey_bytes, hP.newPublicKey_bytes]
  simp only [hkey, field_front (initRcvHeader_length connId ep id),
    List.drop_left' (initRcvHeader_length connId ep id), hopen]
  rfl

theorem decryptInitCryptoRcv_sealed (hP : P.Correct) {b : Prv} {ep : Pub} (hkey : P.ecdh b ep = .ok key)
    (hd : 8 ≤ data.length) (hsn : sn < 2 ^ 48) (connId : Nat) :
    decryptInitCryptoRcv P (initCryptoRcvHeader P connId ep ++
      sealedBody P sn 0 false key (initCryptoRcvHeader P connId ep) data) b =
      some (.ok ⟨key, ep, ⟨sn, 0, data⟩⟩) := by
  have hk := hP.ecdh_length _ _ _ hkey
  have hopen : chainedDecrypt P true 0 key _ (sealedBody P sn 0 false key (initCryptoRcvHeader P connId ep) data) =
      some (.ok ⟨sn, 0, data⟩) := chainedDecrypt_sealedBody hP hk hd hsn (by decide) (by omega) (by omega)
  have hbl : (sealedBody P sn 0 false key (initCryptoRcvHeader P connId ep) data).length = data.length + 22 :=
    sealedBody_length hP hk
  generalize sealedBody P sn 0 false key (initCryptoRcvHeader P connId ep) data = body at hopen hbl ⊢
  have hlen : 63 ≤ (initCryptoRcvHeader P connId ep ++ body).length := by
    rw [List.length_append, initCryptoRcvHeader_length, hbl]
    omega
  have hep : field (initCryptoRcvHeader P connId ep ++ body) 9 41 = P.bytes ep := by
    rw [initCryptoRcvHeader, field_append (by simp [putUint64_length]) (by rw [P.bytes_length])]
  rw [decryptInitCryptoRcv_eq P hlen b, hep, hP.newPublicKey_bytes]
  simp only [hkey, field_front (initCryptoRcvHeader_length connId ep),
    List.drop_left' (initCryptoRcvHeader_length connId ep), hopen]
  rfl

theorem decryptData_sealed (hP : P.Correct) (hk : key.length = 32) (hd : 8 ≤ data.length)
    {e r : Nat} (hr : r < 2 ^ 64 - 1) (h1 : e ≤ r + 1) (h2 : r ≤ e + 1) (connId : Nat) (isSender : Bool) :
    decryptData P (dataHeader connId ++ sealedBody P sn e isSender key (dataHeader connId) data)
      (!isSender) r (some key) = some (.ok ⟨sn % 2 ^ 48, e, data⟩) := by
  have hlen : 31 ≤ (dataHeader connId ++ sealedBody P sn e isSender key (dataHeader connId) data).length := by
    rw [List.length_append, dataHeader_length, sealedBody_length hP hk, footerDataSize, snSize, macSize]
    omega
  rw [decryptData_eq P hlen, field_front (dataHeader_length connId), List.drop_left' (dataHeader_length connId)]
  exact chainedDecrypt_sealedBody_mod hP hk hd hr h1 h2

/-- The connection id a public key stands for: its first eight bytes. -/
def keyConnId (P : Primitives Prv Pub) (ep : Pub) : Nat := getLE ((P.bytes ep).take 8)

theorem uint64_bytes (ep : Pub) (rest : Bytes) : uint64 (P.bytes ep ++ rest) = some (keyConnId P ep) := by
  have h8 : 8 ≤ (P.bytes ep).length := by rw [P.bytes_length]; decide
  rw [uint64, getLE?, if_pos (by rw [List.length_append]; omega), List.take_append_of_le_length h8, keyConnId]

section Padding

variable {mtu : Int}

theorem paddedText_length (hfit : (data.length : Int) ≤ mtu - 89) :
    ((paddedText mtu data).length : Int) = mtu - 87 := by
  simp only [paddedText, List.length_append, List.length_replicate, putUint16, putLE_length,
    minInitCryptoSndSizeHdr, footerDataSize, msgInitFillLenSize, headerSize, pubKeySize, snSize, macSize]
  omega

/-- The filler length survives its 16-bit field, so the text is found behind the filler. -/
theorem stripFiller_paddedText (hfit : (data.length : Int) ≤ mtu - 89) (hmtu : mtu ≤ 65507) :
    stripFiller (paddedText mtu data) = some data := by
  have hfill : ∃ n : Nat, mtu - ((minInitCryptoSndSizeHdr + footerDataSize + msgInitFillLenSize +
      data.length : Nat) : Int) = n ∧ n < 2 ^ 16 := by
    refine ⟨(mtu - 89 - data.length).toNat, ?_, by omega⟩
    simp only [minInitCryptoSndSizeHdr, footerDataSize, msgInitFillLenSize, headerSize, pubKeySize, snSize, macSize]
    omega
  obtain ⟨n, hn, hlt⟩ := hfill
  have h16 : toUint16 (n : Int) = n := by
    unfold toUint16
    omega
  have htext : paddedText mtu data = putLE 2 n ++ (List.replicate n 0 ++ data) := by
    simp only [paddedText, hn, h16, Int.toNat_natCast, putUint16, List.append_assoc]
  have hread : uint16 (paddedText mtu data) = some n := by
    have hput := getLE?_putLE_append 2 n (List.replicate n 0 ++ data)
    rwa [Nat.mod_eq_of_lt (show n < 256 ^ 2 by omega), ← htext] at hput
  have hdrop : (paddedText mtu data).drop (2 + n) = data := by
    rw [htext, ← List.append_assoc, List.drop_left' (by simp)]
  simp only [stripFiller, hread, Option.bind_eq_bind, Option.bind_some]
  rw [sliceFrom?_of_le, hdrop]
  rw [htext, List.length_append, List.length_append, putLE_length, List.length_replicate]
  omega

theorem encryptInitCryptoSnd_eq (hP : P.Correct) {a : Prv} {idRcv id : Pub} (hkey : P.ecdh a idRcv = .ok key)
    (hfit : (data.length : Int) ≤ mtu - 89) (hd : 8 ≤ data.length) :
    encryptInitCryptoSnd P (some idRcv) id a sn mtu data =
      some (.ok (keyConnId P (P.publicKey a), initCryptoSndHeader P (P.publicKey a) id ++
        sealedBody P sn 0 true key (initCryptoSndHeader P (P.publicKey a) id) (paddedText mtu data))) := by
  have hfill : ¬ mtu - ((minInitCryptoSndSizeHdr + footerDataSize + msgInitFillLenSize +
      data.length : Nat) : Int) < 0 := by
    simp only [minInitCryptoSndSizeHdr, footerDataSize, msgInitFillLenSize, headerSize, pubKeySize, snSize, macSize]
    omega
  have hpad := paddedText_length hfit
  have henc : chainedEncrypt P sn 0 true key (initCryptoSndHeader P (P.publicKey a) id) (paddedText mtu data) =
      _ := chainedEncrypt_eq hP (hP.ecdh_length _ _ _ hkey) (by omega)
  have hid : uint64 ((initCryptoSndHeader P (P.publicKey a) id).drop headerSize) =
      some (keyConnId P (P.publicKey a)) := uint64_bytes _ _
  simp only [paddedText, initCryptoSndHeader] at henc hid
  simp only [encryptInitCryptoSnd, Option.bind_eq_bind, Option.bind_some, if_neg hfill, hkey, henc, hid]
  rfl

theorem decryptInitCryptoSnd_sealed (hP : P.Correct) {b : Prv} {ep id : Pub} (hkey : P.ecdh b ep = .ok key)
    (hfit : (data.length : Int) ≤ mtu - 89) (hmtu : mtu ≤ 65507) (hd : 8 ≤ data.length) (hsn : sn < 2 ^ 48) :
    decryptInitCryptoSnd P (initCryptoSndHeader P ep id ++
      sealedBody P sn 0 true key (initCryptoSndHeader P ep id) (paddedText mtu data)) b mtu =
      some (.ok ⟨id, ep, ⟨sn, 0, data⟩⟩) := by
  have hk := hP.ecdh_length _ _ _ hkey
  have hpad := paddedText_length hfit
  have hopen : chainedDecrypt P false 0 key _
      (sealedBody P sn 0 true key (initCryptoSndHeader P ep id) (paddedText mtu data)) =
      some (.ok ⟨sn, 0, paddedText mtu data⟩) :=
    chainedDecrypt_sealedBody hP hk (by omega) hsn (by decide) (by omega) (by omega)
  have hbl : (sealedBody P sn 0 true key (initCryptoSndHeader P ep id) (paddedText mtu data)).length =
      (paddedText mtu data).length + 22 := sealedBody_length hP hk
  generalize sealedBody P sn 0 true key (initCryptoSndHeader P ep id) (paddedText mtu data) = body at hopen hbl ⊢
  have hlen : (initCryptoSndHeader P ep id ++ body).length = 65 + ((paddedText mtu data).length + 22) := by
    rw [List.length_append, initCryptoSndHeader_length, hbl]
  have hep : field (initCryptoSndHeader P ep id ++ body) 1 33 = P.bytes ep := by
    have hsplit : initCryptoSndHeader P ep id ++ body =
        [headerByte .initCryptoSnd] ++ P.bytes ep ++ (P.bytes id ++ body) := by
      simp only [initCryptoSndHeader, List.append_assoc]
    rw [hsplit, field_append (by simp) (by rw [P.bytes_length])]
  have hid : field (initCryptoSndHeader P ep id ++ body) 33 65 = P.bytes id := by
    rw [initCryptoSndHeader, field_append (by simp [P.bytes_length]) (by rw [P.bytes_length])]
  have hkeys : initKeys P (initCryptoSndHeader P ep id ++ body) = .ok (ep, id) := by
    simp only [initKeys, hep, hid, hP.newPublicKey_bytes]
  rw [decryptInitCryptoSnd_eq P (by omega) (by omega) b, hkeys]
  simp only [hkey, field_front (initCryptoSndHeader_length ep id),
    List.drop_left' (initCryptoSndHeader_length ep id), hopen, Option.bind_some,
    stripFiller_paddedText hfit hmtu, Option.map_some]

end Padding

end Messages

/-- Every encrypted message is read back by its peer: the keys it carries, the sequence
number and the payload; a Data message by the opposite role, also when the reader is one
epoch behind or ahead. -/
theorem sealed_messages_round_trip {P : Primitives Prv Pub} (hP : P.Correct) (sn : Nat) (hsn : sn < 2 ^ 48)
    (data : Bytes) (hd : 8 ≤ data.length) :
    (∀ (connId : Nat) (a b : Prv) (id : Pub), ∃ enc key,
      encryptInitRcv P connId id (some (P.publicKey b)) a sn data = some (.ok enc) ∧
      decryptInitRcv P enc b = some (.ok ⟨key, id, P.publicKey a, ⟨sn, 0, data⟩⟩)) ∧
    (∀ (connId : Nat) (a b : Prv), ∃ enc key,
      encryptInitCryptoRcv P connId (some (P.publicKey b)) a sn data = some (.ok enc) ∧
      decryptInitCryptoRcv P enc b = some (.ok ⟨key, P.publicKey a, ⟨sn, 0, data⟩⟩)) ∧
    (∀ (mtu : Int) (a b : Prv) (id : Pub), mtu ≤ 65507 → (data.length : Int) ≤ mtu - 89 → ∃ connId enc,
      encryptInitCryptoSnd P (some (P.publicKey b)) id a sn mtu data = some (.ok (connId, enc)) ∧
      (enc.length : Int) = mtu ∧
      decryptInitCryptoSnd P enc b mtu = some (.ok ⟨id, P.publicKey a, ⟨sn, 0, data⟩⟩)) ∧
    ∀ (connId : Nat) (isSender : Bool) (key : Bytes) (e r : Nat), key.length = 32 → e ≤ 2 ^ 47 - 1 →
      (r + 1 = e ∨ r = e ∨ r = e + 1) → ∃ enc,
      encryptData P connId isSender (some key) sn e data = some (.ok enc) ∧
      decryptData P enc (!isSender) r (some key) = some (.ok ⟨sn, e, data⟩) := by
  refine ⟨?_, ?_, ?_, ?_⟩
  · intro connId a b id
    obtain ⟨key, hab, hba⟩ := hP.ecdh_agree a b
    exact ⟨_, key, encryptInitRcv_eq hP hab hd connId, decryptInitRcv_sealed hP hba hd hsn connId⟩
  · intro connId a b
    obtain ⟨key, hab, hba⟩ := hP.ecdh_agree a b
    exact ⟨_, key, encryptInitCryptoRcv_eq hP hab hd connId, decryptInitCryptoRcv_sealed hP hba hd hsn connId⟩
  · intro mtu a b id hmtu hfit
    obtain ⟨key, hab, hba⟩ := hP.ecdh_agree a b
    refine ⟨_, _, encryptInitCryptoSnd_eq hP hab hfit hd, ?_, decryptInitCryptoSnd_sealed hP hba hfit hmtu hd hsn⟩
    have hpad := paddedText_length hfit
    rw [List.length_append, initCryptoSndHeader_length, sealedBody_length hP (hP.ecdh_length _ _ _ hab),
      footerDataSize, snSize, macSize]
    omega
  · intro connId isSender key e r hk he hr
    refine ⟨_, encryptData_eq hP hk hd connId e isSender, ?_⟩
    rw [decryptData_sealed hP hk hd (by omega) (by omega) (by omega), Nat.mod_eq_of_lt hsn]

theorem plain_text {key nonce : Bytes} (text : Bytes) (hk : key.length = 32) (hn : nonce.length = 12) :
    (text ++ key.take 4 ++ nonce.take 12).take ((text ++ key.take 4 ++ nonce.take 12).length - 16) = text := by
  have hl : (text ++ key.take 4 ++ nonce.take 12).length - 16 = text.length := by
    simp only [List.length_append, List.length_take, hk, hn]
    omega
  rw [hl, List.append_assoc, List.take_left]

theorem plainHonest_correct : plainHonest.Correct where
  newPublicKey_bytes p := by simp [plainHonest, plain]
  ecdh_agree a b := ⟨List.replicate 32 (a.1 * b.1), if_neg b.2, by
    rw [UInt8.mul_comm]
    exact if_neg a.2⟩
  ecdh_length a p key h := by
    by_cases hp : p = 0
    · simp [plainHonest, plain, hp] at h
    · simp only [plainHonest, plain, if_neg hp, Except.ok.injEq] at h
      rw [← h, List.length_replicate]
  seal_length key nonce text aad hk hn := by
    simp only [plainHonest, plain, List.length_append, List.length_take, hk, hn, macSize]
    omega
  open_seal key nonce text aad hk hn := by
    simp only [plainHonest, plain, plain_text text hk hn, if_true]
  open_other_nonce key nonce other text aad hk hn ho hne := by
    refine ⟨"message authentication failed", if_neg ?_⟩
    intro h
    simp only [plainHonest, plain, plain_text text hk hn] at h
    have htag := List.append_cancel_left h
    rw [List.take_of_length_le hn.le, List.take_of_length_le ho.le] at htag
    exact hne htag.symm
  sealX_take key nonce text hk ht := List.take_left' ht
  xorKeyStream_twice key nonce text := rfl

/-- An initial message that fills an MTU of 120, and a reader one epoch behind the dialer. -/
theorem plain_messages_read_back :
    (∃ connId enc, encryptInitCryptoSnd plainHonest (some 5) 9 ⟨3, by decide⟩ 3 120 (List.replicate 8 7) =
        some (.ok (connId, enc)) ∧ (enc.length : Int) = 120 ∧
      decryptInitCryptoSnd plainHonest enc ⟨5, by decide⟩ 120 = some (.ok ⟨9, 3, ⟨3, 0, List.replicate 8 7⟩⟩)) ∧
    ∃ enc, encryptData plainHonest 7 true (some (List.replicate 32 1)) 3 5 (List.replicate 8 7) =
        some (.ok enc) ∧
      decryptData plainHonest enc false 4 (some (List.replicate 32 1)) = some (.ok ⟨3, 5, List.replicate 8 7⟩) := by
  have h := sealed_messages_round_trip plainHonest_correct 3 (by decide) (List.replicate 8 7) (by decide)
  exact ⟨h.2.2.1 120 ⟨3, by decide⟩ ⟨5, by decide⟩ 9 (by decide) (by decide),
    h.2.2.2 7 true _ 5 4 (by decide) (by decide) (.inl rfl)⟩

end Qotp
