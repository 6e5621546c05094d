import Qotp.Crypto.Chained

namespace Qotp

open Framework

/-- Two epochs that differ in bit 7 and in no other bit. -/
def DifferInBit7 (e f : Nat) : Prop := e ≠ f ∧ e / 256 = f / 256 ∧ e % 128 = f % 128

instance (e f : Nat) : Decidable (DifferInBit7 e f) := inferInstanceAs (Decidable (_ ∧ _ ∧ _))

theorem setTop_toNat : ∀ n : Fin 256, (UInt8.ofNat n ||| 0x80).toNat = n % 128 + 128 := by
  decide +kernel

theorem clearTop_toNat : ∀ n : Fin 256, (UInt8.ofNat n &&& ~~~0x80).toNat = n % 128 := by
  decide +kernel

/-- The first nonce byte: seven bits of the epoch below the direction bit. -/
def directionByte (isSender : Bool) (b : UInt8) : UInt8 :=
  if isSender then b ||| 0x80 else b &&& ~~~0x80

theorem directionByte_toNat (isSender : Bool) (e : Nat) :
    (directionByte isSender (UInt8.ofNat e)).toNat = e % 128 + (if isSender then 128 else 0) := by
  have hm : UInt8.ofNat e = UInt8.ofNat (e % 256) := UInt8.toNat_inj.mp (by simp)
  have hlt : e % 256 < 256 := Nat.mod_lt _ (by decide)
  have hd : e % 256 % 128 = e % 128 := by omega
  rw [hm]
  cases isSender with
  | true =>
    have hs := setTop_toNat ⟨e % 256, hlt⟩
    simpa [directionByte, hd] using hs
  | false =>
    have hc := clearTop_toNat ⟨e % 256, hlt⟩
    simpa [directionByte, hd] using hc

theorem directionByte_inj {b c : Bool} {e f : Nat} :
    directionByte b (UInt8.ofNat e) = directionByte c (UInt8.ofNat f) ↔ b = c ∧ e % 128 = f % 128 := by
  rw [← UInt8.toNat_inj, directionByte_toNat, directionByte_toNat]
  have he := Nat.mod_lt e (show 0 < 128 by decide)
  have hf := Nat.mod_lt f (show 0 < 128 by decide)
  cases b <;> cases c <;> simp <;> omega

theorem nonceDet_eq_cons (e s : Nat) (b : Bool) :
    nonceDet e s b = directionByte b (UInt8.ofNat e) :: (putLE 5 (e / 256) ++ putLE 6 s) := rfl

@[simp] theorem nonceDet_length (e s : Nat) (b : Bool) : (nonceDet e s b).length = 12 := by
  simp [nonceDet_eq_cons]

/-- The nonce forgets exactly bit 7 of the epoch, which the direction bit overwrites. -/
theorem nonceDet_inj {e f s t : Nat} {b c : Bool} :
    nonceDet e s b = nonceDet f t c ↔
      b = c ∧ e % 128 = f % 128 ∧ e / 256 % 256 ^ 5 = f / 256 % 256 ^ 5 ∧ s % 256 ^ 6 = t % 256 ^ 6 := by
  have hl : (putLE 5 (e / 256)).length = (putLE 5 (f / 256)).length := by simp
  rw [nonceDet_eq_cons, nonceDet_eq_cons, List.cons.injEq, directionByte_inj, and_assoc,
    ← putLE_inj, ← putLE_inj]
  constructor
  · intro h
    obtain ⟨hep, hsn⟩ := List.append_inj h.2.2 hl
    exact ⟨h.1, h.2.1, hep, hsn⟩
  · intro h
    exact ⟨h.1, h.2.1, by rw [h.2.2.1, h.2.2.2]⟩

/-- On the counters the code can hold, two nonces agree exactly when the counters
do, up to bit 7 of the epoch. -/
theorem nonceDet_inj_of_lt {e f s t : Nat} {b c : Bool} (he : e < 2 ^ 47) (hf : f < 2 ^ 47)
    (hs : s < 2 ^ 48) (ht : t < 2 ^ 48) :
    nonceDet e s b = nonceDet f t c ↔ s = t ∧ b = c ∧ (e = f ∨ DifferInBit7 e f) := by
  rw [nonceDet_inj, Nat.mod_eq_of_lt (show e / 256 < 256 ^ 5 by omega),
    Nat.mod_eq_of_lt (show f / 256 < 256 ^ 5 by omega), Nat.mod_eq_of_lt (show s < 256 ^ 6 by omega),
    Nat.mod_eq_of_lt (show t < 256 ^ 6 by omega)]
  unfold DifferInBit7
  constructor
  · intro h
    refine ⟨h.2.2.2, h.1, ?_⟩
    by_cases hef : e = f
    · exact .inl hef
    · exact .inr ⟨hef, h.2.2.1, h.2.1⟩
  · intro h
    obtain ⟨hst, hbc, hef | ⟨_, hd, hm⟩⟩ := h
    · subst hef
      exact ⟨hbc, rfl, rfl, hst⟩
    · exact ⟨hbc, hm, hd, hst⟩

end Qotp
