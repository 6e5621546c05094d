import Mathlib.Data.Nat.Basic
import Mathlib.Tactic.Ring

namespace Qotp.Framework

/-- Unsigned 64-bit arithmetic on natural numbers, wrapping as the machine does. -/
def add64 (a b : Nat) : Nat := (a + b) % 2 ^ 64

def sub64 (a b : Nat) : Nat := (a + (2 ^ 64 - b % 2 ^ 64)) % 2 ^ 64

def mul64 (a b : Nat) : Nat := (a * b) % 2 ^ 64

/-- The conversions `uint64(x)` and `uint16(x)` of a signed integer. -/
def toUint64 (x : Int) : Nat := (x % 2 ^ 64).toNat

def toUint16 (x : Int) : Nat := (x % 2 ^ 16).toNat

/-- The same operations where the result must fit; `none` is a wrap or a division by zero. -/
def addExact (a b : Nat) : Option Nat := if a + b < 2 ^ 64 then some (a + b) else none

def subExact (a b : Nat) : Option Nat := if b ≤ a then some (a - b) else none

def mulExact (a b : Nat) : Option Nat := if a * b < 2 ^ 64 then some (a * b) else none

def divExact (a b : Nat) : Option Nat := if b = 0 then none else some (a / b)

theorem add64_lt (a b : Nat) : add64 a b < 2 ^ 64 := Nat.mod_lt _ (by decide)

theorem add64_of_lt {a b : Nat} (h : a + b < 2 ^ 64) : add64 a b = a + b := Nat.mod_eq_of_lt h

theorem sub64_of_le {a b : Nat} (h : b ≤ a) (ha : a < 2 ^ 64) : sub64 a b = a - b := by
  unfold sub64
  have hb : b % 2 ^ 64 = b := Nat.mod_eq_of_lt (by omega)
  rw [hb, show a + (2 ^ 64 - b) = (a - b) + 2 ^ 64 by omega, Nat.add_mod_right]
  exact Nat.mod_eq_of_lt (by omega)

theorem sub64_of_gt {a b : Nat} (h : a < b) (hb : b < 2 ^ 64) : sub64 a b = 2 ^ 64 - (b - a) := by
  unfold sub64
  omega

theorem mul64_of_lt {a b : Nat} (h : a * b < 2 ^ 64) : mul64 a b = a * b := Nat.mod_eq_of_lt h

theorem addExact_of_lt {a b : Nat} (h : a + b < 2 ^ 64) : addExact a b = some (a + b) := if_pos h

theorem addExact_of_le {a b : Nat} (h : 2 ^ 64 ≤ a + b) : addExact a b = none := if_neg (Nat.not_lt.mpr h)

theorem subExact_of_le {a b : Nat} (h : b ≤ a) : subExact a b = some (a - b) := if_pos h

theorem mulExact_of_lt {a b : Nat} (h : a * b < 2 ^ 64) : mulExact a b = some (a * b) := if_pos h

theorem divExact_of_pos {a b : Nat} (h : 0 < b) : divExact a b = some (a / b) := if_neg (Nat.pos_iff_ne_zero.mp h)

theorem toUint64_natCast {n : Nat} (h : n < 2 ^ 64) : toUint64 n = n := by
  unfold toUint64
  omega

end Qotp.Framework
