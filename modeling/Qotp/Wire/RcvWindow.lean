import Qotp.Wire.Accept
import Mathlib.Order.Monotone.Basic

namespace Qotp

/-- The smallest window of step `n`: eight steps for each power of two from 256 on. -/
def windowBase (n : Nat) : Nat := (8 + n % 8) * 2 ^ (n / 8 + 5)

/-- The step of a window: its highest bit, and the three bits behind it. -/
def windowStep (w : Nat) : Nat := (Nat.log2 w - 8) * 8 + (w / 2 ^ (Nat.log2 w - 3) - 8)

/-- The code of the last step. -/
def maxWindowStep : Nat := 253

theorem windowBase_zero : windowBase 0 = 256 := rfl

theorem windowBase_succ (n : Nat) : windowBase (n + 1) = windowBase n + 2 ^ (n / 8 + 5) := by
  unfold windowBase
  by_cases h : n % 8 = 7
  · -- the last step before the next power of two
    have hdiv : (n + 1) / 8 = n / 8 + 1 := by omega
    have hmod : (n + 1) % 8 = 0 := by omega
    rw [hdiv, hmod, h, show n / 8 + 1 + 5 = n / 8 + 5 + 1 by omega, pow_succ]
    ring
  · have hdiv : (n + 1) / 8 = n / 8 := by omega
    have hmod : (n + 1) % 8 = n % 8 + 1 := by omega
    rw [hdiv, hmod]
    ring

theorem windowBase_strictMono : StrictMono windowBase := by
  apply strictMono_nat_of_lt_succ
  intro n
  rw [windowBase_succ]
  exact Nat.lt_add_of_pos_right (Nat.two_pow_pos _)

/-- A step is an eighth of its power of two. -/
theorem windowBase_step_le (n : Nat) : 8 * 2 ^ (n / 8 + 5) ≤ windowBase n :=
  Nat.mul_le_mul_right _ (Nat.le_add_right 8 _)

/-- The highest four bits of a window: 8 to 15 times the step. -/
theorem highBits_range {w : Nat} (hw : 256 ≤ w) :
    8 ≤ Nat.log2 w ∧ 8 ≤ w / 2 ^ (Nat.log2 w - 3) ∧ w / 2 ^ (Nat.log2 w - 3) < 16 := by
  have hhigh : 8 ≤ Nat.log2 w := (Nat.le_log2 (by omega)).mpr hw
  have hlow : 2 ^ Nat.log2 w ≤ w := Nat.log2_self_le (by omega)
  have hup : w < 2 ^ (Nat.log2 w + 1) := Nat.lt_log2_self
  have hpow : 2 ^ Nat.log2 w = 2 ^ (Nat.log2 w - 3) * 8 := by
    rw [show (8 : Nat) = 2 ^ 3 from rfl, ← pow_add]
    congr 1
    omega
  have hpos : 0 < 2 ^ (Nat.log2 w - 3) := Nat.two_pow_pos _
  refine ⟨hhigh, ?_, ?_⟩
  · rw [Nat.le_div_iff_mul_le hpos]
    omega
  · rw [Nat.div_lt_iff_lt_mul hpos]
    rw [pow_succ] at hup
    omega

/-- Every window from 256 bytes on lies in its own step. -/
theorem windowStep_spec {w : Nat} (hw : 256 ≤ w) :
    windowBase (windowStep w) ≤ w ∧ w < windowBase (windowStep w + 1) := by
  obtain ⟨hhigh, hq1, hq2⟩ := highBits_range hw
  have hdiv : windowStep w / 8 + 5 = Nat.log2 w - 3 := by
    unfold windowStep
    omega
  have hmod : 8 + windowStep w % 8 = w / 2 ^ (Nat.log2 w - 3) := by
    unfold windowStep
    omega
  have hbase : windowBase (windowStep w) = w / 2 ^ (Nat.log2 w - 3) * 2 ^ (Nat.log2 w - 3) := by
    rw [windowBase, hdiv, hmod]
  have hsplit := Nat.div_add_mod' w (2 ^ (Nat.log2 w - 3))
  have hlt := Nat.mod_lt w (Nat.two_pow_pos (Nat.log2 w - 3))
  rw [windowBase_succ, hbase, hdiv]
  omega

theorem windowStep_mono {a b : Nat} (ha : 256 ≤ a) (hab : a ≤ b) : windowStep a ≤ windowStep b := by
  have hlow := (windowStep_spec ha).1
  have hup := (windowStep_spec (ha.trans hab)).2
  have hlt : windowStep a < windowStep b + 1 := by
    apply windowBase_strictMono.lt_iff_lt.mp
    omega
  omega

/-- A code is 0, 1, or two more than the step, which stops at the last one. -/
theorem encodeRcvWindow_toNat (w : Nat) :
    (encodeRcvWindow w).toNat =
      if w = 0 then 0 else if w ≤ 255 then 1 else min maxWindowStep (windowStep w) + 2 := by
  unfold encodeRcvWindow
  by_cases h0 : w = 0
  · simp [h0]
  by_cases h1 : w ≤ 255
  · simp [h0, h1]
  obtain ⟨_, hq1, hq2⟩ := highBits_range (show 256 ≤ w by omega)
  have hlow : (w >>> (Nat.log2 w - 3)) &&& 7 = w / 2 ^ (Nat.log2 w - 3) - 8 := by
    rw [Nat.shiftRight_eq_div_pow, show (7 : Nat) = 2 ^ 3 - 1 from rfl, Nat.and_two_pow_sub_one_eq_mod]
    omega
  have hstep : (Nat.log2 w - 8) * 8 + (w / 2 ^ (Nat.log2 w - 3) - 8) = windowStep w := rfl
  simp only [h0, h1, if_false, hlow, hstep]
  split_ifs with hmax
  · simp [maxWindowStep]
    omega
  · rw [UInt8.toNat_ofNat', Nat.mod_eq_of_lt (by omega), maxWindowStep]
    omega

theorem decodeRcvWindow_eq (c : UInt8) :
    decodeRcvWindow c = if c.toNat = 0 then 0 else if c.toNat = 1 then 128 else windowBase (c.toNat - 2) := by
  unfold decodeRcvWindow
  have h0 : c = 0 ↔ c.toNat = 0 := UInt8.toNat_inj.symm
  have h1 : c = 1 ↔ c.toNat = 1 := UInt8.toNat_inj.symm
  simp only [h0, h1]
  split_ifs
  · rfl
  · rfl
  · have hpow : 2 ^ ((c.toNat - 2) / 8 + 8) = 8 * 2 ^ ((c.toNat - 2) / 8 + 5) := by
      rw [pow_add _ _ 8, pow_add _ _ 5]
      ring
    rw [windowBase, hpow, Nat.mul_div_cancel_left _ (by decide)]
    ring

/-- What the peer reads of a window. -/
def advertised (w : Nat) : Nat := decodeRcvWindow (encodeRcvWindow w)

theorem advertised_eq (w : Nat) :
    advertised w = if w = 0 then 0 else if w ≤ 255 then 128
      else windowBase (min maxWindowStep (windowStep w)) := by
  rw [advertised, decodeRcvWindow_eq, encodeRcvWindow_toNat]
  split_ifs <;> simp_all

theorem encodeRcvWindow_mono {a b : Nat} (hab : a ≤ b) : encodeRcvWindow a ≤ encodeRcvWindow b := by
  rw [UInt8.le_iff_toNat_le, encodeRcvWindow_toNat, encodeRcvWindow_toNat]
  by_cases ha : a ≤ 255
  · split_ifs <;> omega
  · have hmono := windowStep_mono (show 256 ≤ a by omega) hab
    simp only [show a ≠ 0 by omega, show b ≠ 0 by omega, ha, show ¬ b ≤ 255 by omega, if_false]
    omega

theorem decodeRcvWindow_mono {c d : UInt8} (h : c ≤ d) : decodeRcvWindow c ≤ decodeRcvWindow d := by
  rw [UInt8.le_iff_toNat_le] at h
  rw [decodeRcvWindow_eq, decodeRcvWindow_eq]
  have hge : ∀ n, 256 ≤ windowBase n := by
    intro n
    rw [← windowBase_zero]
    exact windowBase_strictMono.monotone (Nat.zero_le n)
  have hmono := windowBase_strictMono.monotone (Nat.sub_le_sub_right h 2)
  have hd := hge (d.toNat - 2)
  split_ifs <;> omega

/-- The window never promises more than there is, from the first code for data on. -/
theorem advertised_le {w : Nat} (hw : 128 ≤ w) : advertised w ≤ w := by
  rw [advertised_eq]
  split_ifs with h0 h1
  · omega
  · exact hw
  · calc windowBase (min maxWindowStep (windowStep w)) ≤ windowBase (windowStep w) :=
        windowBase_strictMono.monotone (min_le_right _ _)
      _ ≤ w := (windowStep_spec (by omega)).1

/-- Below the end of the last step less than one step is lost. -/
theorem advertised_loss {w : Nat} (hw : 256 ≤ w) (hlt : w < windowBase (maxWindowStep + 1)) :
    8 * (w - advertised w) < advertised w := by
  obtain ⟨hlow, hup⟩ := windowStep_spec hw
  have hmax : windowStep w ≤ maxWindowStep := by
    apply Nat.lt_succ_iff.mp
    apply windowBase_strictMono.lt_iff_lt.mp
    exact hlow.trans_lt hlt
  have hadv : advertised w = windowBase (windowStep w) := by
    rw [advertised_eq, if_neg (by omega), if_neg (by omega), min_eq_right hmax]
  have hstep := windowBase_step_le (windowStep w)
  rw [windowBase_succ] at hup
  rw [hadv]
  omega

/-- The window codec is monotone, its codes read back as themselves, it advertises no more
than it is given, and it loses less than an eighth up to the end of its range. -/
theorem rcvWindow_quantisation :
    (∀ a b, a ≤ b → encodeRcvWindow a ≤ encodeRcvWindow b ∧
      decodeRcvWindow (encodeRcvWindow a) ≤ decodeRcvWindow (encodeRcvWindow b)) ∧
    (∀ a, encodeRcvWindow (decodeRcvWindow (encodeRcvWindow a)) = encodeRcvWindow a) ∧
    (∀ w, 128 ≤ w → decodeRcvWindow (encodeRcvWindow w) ≤ w) ∧
    ∀ w, 256 ≤ w → w < 2 ^ 39 + 6 * 2 ^ 36 →
      8 * (w - decodeRcvWindow (encodeRcvWindow w)) < decodeRcvWindow (encodeRcvWindow w) := by
  refine ⟨?_, ?_, ?_, ?_⟩
  · intro a b hab
    have hmono := encodeRcvWindow_mono hab
    exact ⟨hmono, decodeRcvWindow_mono hmono⟩
  · intro a
    exact encodeRcvWindow_decode _
  · intro w hw
    exact advertised_le hw
  · intro w hw hlt
    have hend : windowBase (maxWindowStep + 1) = 2 ^ 39 + 6 * 2 ^ 36 := rfl
    exact advertised_loss hw (hend ▸ hlt)

theorem rcvWindow_1500 : decodeRcvWindow (encodeRcvWindow 1500) = 1408 ∧ decodeRcvWindow (encodeRcvWindow 1500) ≤ 1500 ∧
    8 * (1500 - decodeRcvWindow (encodeRcvWindow 1500)) < decodeRcvWindow (encodeRcvWindow 1500) := by
  obtain ⟨_, _, hle, hloss⟩ := rcvWindow_quantisation
  exact ⟨by decide +kernel, hle 1500 (by decide), hloss 1500 (by decide) (by decide)⟩

end Qotp
