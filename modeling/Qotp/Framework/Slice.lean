import Mathlib.Data.List.Infix
import Mathlib.Data.List.TakeDrop

namespace Qotp.Framework

variable {α : Type*}

/-- Slice expressions with their bounds check; `none` is the run-time panic. -/
def sliceTo? (b : List α) (hi : Nat) : Option (List α) :=
  if hi ≤ b.length then some (b.take hi) else none

def sliceFrom? (b : List α) (lo : Nat) : Option (List α) :=
  if lo ≤ b.length then some (b.drop lo) else none

def slice? (b : List α) (lo hi : Nat) : Option (List α) :=
  if lo ≤ hi ∧ hi ≤ b.length then some ((b.take hi).drop lo) else none

theorem sliceTo?_of_le {b : List α} {hi : Nat} (h : hi ≤ b.length) :
    sliceTo? b hi = some (b.take hi) := if_pos h

theorem sliceFrom?_of_le {b : List α} {lo : Nat} (h : lo ≤ b.length) :
    sliceFrom? b lo = some (b.drop lo) := if_pos h

theorem slice?_of_le {b : List α} {lo hi : Nat} (hl : lo ≤ hi) (hh : hi ≤ b.length) :
    slice? b lo hi = some ((b.take hi).drop lo) := if_pos ⟨hl, hh⟩

theorem sliceTo?_eq_some {b d : List α} {hi : Nat} :
    sliceTo? b hi = some d ↔ hi ≤ b.length ∧ b.take hi = d := by
  unfold sliceTo?
  split_ifs with h <;> simp [h]

theorem sliceFrom?_eq_some {b d : List α} {lo : Nat} :
    sliceFrom? b lo = some d ↔ lo ≤ b.length ∧ b.drop lo = d := by
  unfold sliceFrom?
  split_ifs with h <;> simp [h]

theorem slice?_eq_some {b d : List α} {lo hi : Nat} :
    slice? b lo hi = some d ↔ (lo ≤ hi ∧ hi ≤ b.length) ∧ (b.take hi).drop lo = d := by
  unfold slice?
  split_ifs with h <;> simp [h]

/-- `d` is what the sequence `S` holds from offset `o` on. -/
def IsAt (S : List α) (o : Nat) (d : List α) : Prop := d <+: S.drop o

theorem isAt_nil (S : List α) (o : Nat) : IsAt S o [] := List.nil_prefix

theorem isAt_iff_getElem? {S : List α} {o : Nat} {d : List α} :
    IsAt S o d ↔ ∀ i < d.length, S[o + i]? = d[i]? := by
  unfold IsAt
  rw [List.prefix_iff_getElem?]
  simp only [List.getElem?_drop]
  exact forall₂_congr fun i hi => by simp [hi]

namespace IsAt

variable {S T d e : List α} {o p : Nat}

theorem eq_take (h : IsAt S o d) : d = (S.drop o).take d.length := List.prefix_iff_eq_take.mp h

theorem end_le (h : IsAt S o d) (hd : d ≠ []) : o + d.length ≤ S.length := by
  have hl := List.IsPrefix.length_le h
  have hp := List.length_pos_iff.mpr hd
  rw [List.length_drop] at hl
  omega

theorem getElem?_sub (h : IsAt S o d) {i : Nat} (hlo : o ≤ i) (hhi : i < o + d.length) : d[i - o]? = S[i]? := by
  rw [← isAt_iff_getElem?.mp h (i - o) (by omega), Nat.add_sub_cancel' hlo]

theorem append (h : IsAt S o d) : IsAt (S ++ T) o d := by
  unfold IsAt at *
  rw [List.drop_append]
  exact h.trans (List.prefix_append _ _)

theorem take (h : IsAt S o d) (m : Nat) : IsAt S o (d.take m) :=
  (List.take_prefix m d).trans h

theorem drop (h : IsAt S o d) {m : Nat} : IsAt S (o + m) (d.drop m) := by
  rw [isAt_iff_getElem?] at *
  intro i hi
  rw [List.length_drop] at hi
  rw [List.getElem?_drop, Nat.add_assoc]
  exact h (m + i) (by omega)

theorem of_slice (m : Nat) : IsAt S o ((S.drop o).take m) := List.take_prefix m _

/-- Two pieces of one sequence agree wherever both reach. -/
theorem agree (hd : IsAt S o d) (he : IsAt S p e) (m n l : Nat) (hoff : o + m = p + n)
    (hm : m + l ≤ d.length) (hn : n + l ≤ e.length) :
    (d.drop m).take l = (e.drop n).take l := by
  have hd' := isAt_iff_getElem?.mp hd
  have he' := isAt_iff_getElem?.mp he
  apply List.ext_getElem?
  intro i
  simp only [List.getElem?_take, List.getElem?_drop]
  split_ifs with hi
  · rw [← hd' (m + i) (by omega), ← he' (n + i) (by omega), ← Nat.add_assoc, hoff, Nat.add_assoc]
  · rfl

theorem concat (hd : IsAt S o d) (he : IsAt S (o + d.length) e) : IsAt S o (d ++ e) := by
  rw [isAt_iff_getElem?] at *
  intro i hi
  rw [List.length_append] at hi
  by_cases h : i < d.length
  · rw [List.getElem?_append_left h]
    exact hd i h
  · rw [List.getElem?_append_right (by omega)]
    have := he (i - d.length) (by omega)
    rwa [Nat.add_assoc, Nat.add_sub_cancel' (by omega)] at this

end IsAt

/-- Appending to one of several sequences extends each of them. -/
theorem prefix_update {ι : Type*} [DecidableEq ι] (f : ι → List α) (k j : ι) (t : List α) :
    f j <+: Function.update f k (f k ++ t) j := by
  by_cases hj : j = k
  · subst hj
    rw [Function.update_self]
    exact List.prefix_append _ _
  · rw [Function.update_of_ne hj]

end Qotp.Framework
