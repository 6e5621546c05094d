import Mathlib.Data.Nat.Basic
import Mathlib.Data.UInt
import Mathlib.Tactic.Ring

namespace Qotp.Framework

/-- The low `n` bytes of `v`, least significant first. -/
def putLE : Nat → Nat → List UInt8
  | 0, _ => []
  | n + 1, v => UInt8.ofNat v :: putLE n (v / 256)

def getLE : List UInt8 → Nat
  | [] => 0
  | b :: bs => b.toNat + 256 * getLE bs

/-- Reads `n` bytes from the front; `none` when there are fewer. -/
def getLE? (n : Nat) (b : List UInt8) : Option Nat :=
  if n ≤ b.length then some (getLE (b.take n)) else none

@[simp] theorem putLE_length (n v : Nat) : (putLE n v).length = n := by
  induction n generalizing v with
  | zero => rfl
  | succ n ih => simp [putLE, ih]

theorem getLE_putLE (n v : Nat) : getLE (putLE n v) = v % 256 ^ n := by
  induction n generalizing v with
  | zero => simp [putLE, getLE, Nat.mod_one]
  | succ n ih =>
    have byte : (UInt8.ofNat v).toNat = v % 256 := by simp
    rw [putLE, getLE, ih, byte, Nat.pow_succ, Nat.mul_comm (256 ^ n) 256, Nat.mod_mul]

theorem getLE_lt (b : List UInt8) : getLE b < 256 ^ b.length := by
  induction b with
  | nil => simp [getLE]
  | cons a as ih =>
    have ha := a.toNat_lt
    simp only [getLE, List.length_cons, pow_succ]
    omega

theorem putLE_getLE (b : List UInt8) : putLE b.length (getLE b) = b := by
  induction b with
  | nil => rfl
  | cons a as ih =>
    have ha := a.toNat_lt
    have hhead : UInt8.ofNat (a.toNat + 256 * getLE as) = a := by
      apply UInt8.toNat_inj.mp
      rw [UInt8.toNat_ofNat']
      omega
    have htail : (a.toNat + 256 * getLE as) / 256 = getLE as := by omega
    rw [List.length_cons, putLE, getLE, hhead, htail, ih]

theorem putLE_inj {n v w : Nat} : putLE n v = putLE n w ↔ v % 256 ^ n = w % 256 ^ n := by
  constructor
  · intro h
    rw [← getLE_putLE, ← getLE_putLE, h]
  · induction n generalizing v w with
    | zero => intro _; rfl
    | succ n ih =>
      intro h
      rw [pow_succ, Nat.mul_comm (256 ^ n), Nat.mod_mul, Nat.mod_mul] at h
      have h0 := Nat.mod_lt v (show 0 < 256 by decide)
      have h1 := Nat.mod_lt w (show 0 < 256 by decide)
      have hb : v % 256 = w % 256 := by omega
      have ht : v / 256 % 256 ^ n = w / 256 % 256 ^ n := by omega
      simp only [putLE]
      rw [ih ht]
      congr 1
      exact UInt8.toNat_inj.mp (by simpa [UInt8.toNat_ofNat'] using hb)

end Qotp.Framework
