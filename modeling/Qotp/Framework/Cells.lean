import Mathlib.Data.Set.Insert

namespace Qotp.Framework

variable {B : Set Nat} {o l p m x : Nat}

/-- `[o, o + l)` is a cell of the line that is cut at the points of `B`: it begins and ends at
a cut, and none lies inside. -/
structure IsCell (B : Set Nat) (o l : Nat) : Prop where
  start : o ∈ B
  stop : o + l ∈ B
  uncut : ∀ x ∈ B, x ≤ o ∨ o + l ≤ x

/-- Two cells are the same, or one lies before the other. -/
theorem IsCell.eq_or_apart (h : IsCell B o l) (h' : IsCell B p m) :
    (o = p ∧ l = m) ∨ o + l ≤ p ∨ p + m ≤ o := by
  have h₁ := h.uncut p h'.start
  have h₂ := h.uncut (p + m) h'.stop
  have h₃ := h'.uncut o h.start
  have h₄ := h'.uncut (o + l) h.stop
  omega

/-- A cut behind all others leaves the cells as they are. -/
theorem IsCell.insert (h : IsCell B o l) (hx : ∀ y ∈ B, y ≤ x) : IsCell (insert x B) o l := by
  refine ⟨.inr h.start, .inr h.stop, fun y hy => ?_⟩
  obtain rfl | hy := hy
  · exact .inr (hx _ h.stop)
  · exact h.uncut y hy

/-- It adds the cell between the last cut and itself. -/
theorem isCell_insert (ho : o ∈ B) (htop : ∀ y ∈ B, y ≤ o) (l : Nat) : IsCell (Insert.insert (o + l) B) o l := by
  refine ⟨.inr ho, .inl rfl, fun y hy => ?_⟩
  obtain rfl | hy := hy
  · exact .inr le_rfl
  · exact .inl (htop y hy)

end Qotp.Framework
