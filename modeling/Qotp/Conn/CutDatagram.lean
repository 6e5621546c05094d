import Qotp.Conn.Datagrams
import Qotp.Conn.Rejection

namespace Qotp

open Framework

variable {Prv Pub : Type} {P : Primitives Prv Pub}

section Header

variable {d e : Bytes} {n : Nat}

theorem msgTypeOf_take (hn : 0 < n) : msgTypeOf (d.take n) = msgTypeOf d := by
  rw [msgTypeOf, msgTypeOf, List.getElem?_take_of_lt hn]

theorem connIdOf_take (hn : 9 ≤ n) : connIdOf (d.take n) = connIdOf d := by
  rw [connIdOf, connIdOf, ← field_of_take rfl hn]

theorem carriedEp_take (hn : 41 ≤ n) : carriedEp P (d.take n) = carriedEp P d := by
  have hreply : field (d.take n) 9 41 = field d 9 41 := (field_of_take rfl hn).symm
  have hinit : field (d.take n) 1 33 = field d 1 33 := (field_of_take rfl (by omega)).symm
  rw [carriedEp, carriedEp, msgTypeOf_take (by omega), hreply, hinit]

/-- What is read of datagram `d` has its type and connection id, and in a handshake message
its ephemeral key. -/
structure SameHeader (P : Primitives Prv Pub) (d read : Bytes) : Prop where
  type : msgTypeOf read = msgTypeOf d
  conn : connIdOf read = connIdOf d
  key : msgTypeOf d ≠ .data → carriedEp P read = carriedEp P d

theorem Hello.read {isSender : Bool} {id : Nat} {ep : Pub} (h : Hello P isSender id ep d) (hs : SameHeader P d e) :
    Hello P isSender id ep e := by
  have htype := h.type
  have hne : msgTypeOf d ≠ .data := by
    intro hd
    rw [hd] at htype
    cases isSender <;> simp at htype
  refine ⟨?_, hs.conn.trans h.conn, (hs.key hne).trans h.key⟩
  rw [hs.type]
  exact htype

end Header

namespace Listener

variable {l l' : Listener Prv Pub} {d : Bytes} {c c' : Conn Prv Pub} {rAddr now : Nat} {fresh : Except String Prv}

theorem readFrom_of_fits (h : (d.length : Int) ≤ l.mtu) (rAddr : Nat) : l.readFrom d rAddr = .datagram d rAddr := by
  rw [readFrom, List.take_of_length_le (by omega)]

/-- Every handshake message that is accepted has its keys in it. -/
theorem Update.long (h : Update P l d c c') : msgTypeOf d = .data ∨ 63 ≤ d.length := by
  cases h with
  | initSnd k secret ht hd hk => exact .inr ((decryptInitSnd_keys P hd).2.1.trans' (by decide))
  | initRcv m ht hd => exact .inr ((decryptInitRcv_ok hd).1.trans' (by decide))
  | initCryptoSnd m ht hd => exact .inr ((decryptInitCryptoSnd_ok hd).1.trans' (by decide))
  | initCryptoRcv m ht hd => exact .inr (decryptInitCryptoRcv_ok hd).1
  | data epoch ht => exact .inl ht

/-- What is shorter changes nothing, unless it is a Data message. -/
theorem decode_long {r : Except String Decoded} (h : l.decode P d rAddr fresh = some (l', r)) :
    (l' = l ∧ ∃ e, r = .error e) ∨ (minPacketSize ≤ d.length ∧ (msgTypeOf d = .data ∨ 63 ≤ d.length)) := by
  by_cases hlen : d.length < minPacketSize
  · rw [decode, if_pos hlen] at h
    cases h
    exact .inl ⟨rfl, _, rfl⟩
  cases hg : l.connMap.get? (connIdOf d) with
  | some c =>
    refine ((decode_effect P h).named c hg).imp_right ?_
    rintro ⟨c', hu, _⟩
    exact ⟨not_lt.mp hlen, hu.long⟩
  | none =>
    cases decode_opening P hg h with
    | refused e => exact .inl ⟨rfl, e, rfl⟩
    | halfOpen k z e err ht hk hf hq herr | initSnd k z key ht hk hf hkey _ hl =>
      exact .inr ⟨not_lt.mp hlen, .inr ((decryptInitSnd_keys P hk).2.1.trans' (by decide))⟩
    | initCryptoSnd m z ht hk hf _ hl =>
      exact .inr ⟨not_lt.mp hlen, .inr ((decryptInitCryptoSnd_ok hk).1.trans' (by decide))⟩

/-- A datagram that is cut before the end of its header changes nothing. -/
theorem listen_readFrom {r : Except String (Option (Nat × Nat))}
    (h : l.listen P (l.readFrom d rAddr) fresh now = some (l', r)) :
    l' = l ∨ SameHeader P d (d.take l.mtu.toNat) := by
  unfold listen readFrom at h
  dsimp only at h
  split_ifs at h
  · cases h
    exact .inl rfl
  obtain ⟨⟨l₁, res⟩, hdec, h⟩ := Option.bind_eq_some_iff.mp h
  obtain ⟨rfl, e, rfl⟩ | ⟨hlen, hlong⟩ := decode_long hdec
  · cases h
    exact .inl rfl
  have hn : minPacketSize ≤ l.mtu.toNat := hlen.trans (List.length_take_le _ _)
  have h39 : 39 ≤ l.mtu.toNat := hn
  have htype : msgTypeOf (d.take l.mtu.toNat) = msgTypeOf d := msgTypeOf_take (by omega)
  refine .inr ⟨htype, connIdOf_take (by omega), fun hne => carriedEp_take ?_⟩
  obtain hdata | hlong := hlong
  · exact absurd (htype.symm.trans hdata) hne
  · exact (hlong.trans (List.length_take_le _ _)).trans' (by decide)

end Listener

end Qotp
