import Qotp.Buffer.ReceiveSize

namespace Qotp

open Framework

namespace RcvBuffer

/-- The packet `[o, o+l)` reaches behind the preceding segment, and the following segment starts
inside that one: `nextOffset - finalOffset` wraps. -/
def Clash (s : RcvBuffer) (o l : Nat) : Prop :=
  s.nextInOrderOffsetToWaitFor < o + l ∧ s.segments.get? o = none ∧
    ∃ p ∈ s.segments.prev o, ∃ n ∈ s.segments.next o, segEnd p < o + l ∧ n.1 < segEnd p

instance (s : RcvBuffer) (o l : Nat) : Decidable (s.Clash o l) := inferInstanceAs (Decidable (_ ∧ _ ∧ _))

variable {S : Bytes} {s s' : RcvBuffer} {o fo : Nat} {d r : Bytes}

theorem Pieces.trimNext_eq_none (h : Pieces S s) (hS : S.length < 2 ^ 63) (hr : IsAt S fo r) (hne : r ≠ []) :
    trimNext s.segments o fo r = none ↔ ∃ n ∈ s.segments.next o, n.1 < fo := by
  constructor
  · intro hnone
    by_contra hno
    have hfo : ∀ n, s.segments.next o = some n → fo ≤ n.1 := by
      intro n hn
      by_contra hlt
      exact hno ⟨n, hn, not_le.mp hlt⟩
    obtain ⟨t, ht⟩ := h.trimNext_ok hS hr hne hfo
    rw [hnone] at ht
    cases ht
  · rintro ⟨n, hn, hlt⟩
    have hend := hr.end_le hne
    cases ht : trimNext s.segments o fo r with
    | none => rfl
    | some t => exact absurd (trimNext_cut hn (by omega) hne ht) (not_le.mpr hlt)

/-- What is left behind the preceding segment starts at its end, so that the following segment clashes with it just
when it starts before what is left. -/
theorem clash_of_trimmed {l m : Nat} (hnew : s.nextInOrderOffsetToWaitFor < o + l) (hg : s.segments.get? o = none)
    (hm : m = 0 ∧ (∀ p v, s.segments.prev o = some (p, v) → p + v.data.length ≤ o) ∨
      m < l ∧ ∃ p v, s.segments.prev o = some (p, v) ∧ o + m = p + v.data.length) :
    s.Clash o l ↔ ∃ n ∈ s.segments.next o, n.1 < o + m := by
  constructor
  · rintro ⟨_, _, p, hp, n, hn, _, hcut⟩
    have hon := (SortedAssoc.next_spec hn).2.1
    unfold segEnd at hcut
    refine ⟨n, hn, ?_⟩
    obtain ⟨rfl, hbelow⟩ | ⟨_, p', v', hp', hpe⟩ := hm
    · have := hbelow p.1 p.2 hp
      omega
    · cases hp.symm.trans hp'
      dsimp only at hcut
      omega
  · rintro ⟨n, hn, hcut⟩
    have hon := (SortedAssoc.next_spec hn).2.1
    obtain ⟨rfl, _⟩ | ⟨hlt, p, v, hp, hpe⟩ := hm
    · omega
    · refine ⟨hnew, hg, (p, v), hp, n, hn, ?_⟩
      unfold segEnd
      dsimp only
      omega

/-- On pieces of one sequence no comparison fails, so that a clash is the only panic. -/
theorem Pieces.insert_eq_none (h : Pieces S s) (hS : S.length < 2 ^ 63) (hne : d ≠ []) (hd : IsAt S o d)
    (now : Nat) : s.insert o now d = none ↔ s.Clash o d.length := by
  have hpos := List.length_pos_iff.mpr hne
  by_cases hold : o + d.length ≤ s.nextInOrderOffsetToWaitFor
  · simp [RcvBuffer.insert, Clash, hold]
  cases hg : s.segments.get? o with
  | some v =>
    unfold RcvBuffer.insert Clash
    rw [if_neg hold, hg]
    dsimp only
    split_ifs <;> simp
  | none =>
    obtain ⟨t, ht⟩ := h.trimPrev_ok hd
    rw [RcvBuffer.insert, if_neg hold, hg]
    obtain ⟨p, v, hp, hle, rfl⟩ | ⟨m, rfl, hm⟩ := trimPrev_cases ht
    · simp only [ht, Option.bind_eq_bind, Option.bind_some]
      refine iff_of_false (by simp) ?_
      rintro ⟨_, _, p', hp', n, _, hend, _⟩
      cases hp.symm.trans hp'
      unfold segEnd at hend
      dsimp only at hend
      omega
    · have hrest : d.drop m ≠ [] := by
        apply List.ne_nil_of_length_pos
        rw [List.length_drop]
        omega
      rw [clash_of_trimmed (not_le.mp hold) hg (hm.imp_right fun ⟨hlt, p, v, hp, hpe, _⟩ => ⟨hlt, p, v, hp, hpe⟩),
        ← h.trimNext_eq_none hS hd.drop hrest]
      simp only [ht, Option.bind_eq_bind, Option.bind_some, Option.bind_eq_none_iff]
      refine ⟨fun hall => ?_, fun hnone r hr => ?_⟩
      · cases htn : trimNext s.segments o (o + m) (d.drop m) with
        | some r => cases hall r htn
        | none => rfl
      · rw [hnone] at hr
        cases hr

end RcvBuffer

namespace ReceiveBuffer

/-- No insert that the buffer has room for meets a clash. -/
def NoClash (rb : ReceiveBuffer) : BufferOp → Prop
  | .insert k o _ d => rb.size + d.length ≤ rb.capacity → ¬ (rb.stream k).Clash o d.length
  | _ => True

instance (rb : ReceiveBuffer) : ∀ op, Decidable (rb.NoClash op)
  | .insert .. => inferInstanceAs (Decidable (_ → _))
  | .emptyInsert .. | .close .. | .removeOldestInOrder _ | .getSndAck => inferInstanceAs (Decidable True)

variable {S : Nat → Bytes} {capacity : Int} {rb : ReceiveBuffer} {k o now : Nat} {d : Bytes}

/-- A full buffer drops the packet unseen. -/
theorem insert_eq_none : rb.insert k o now d = none ↔
    rb.size + d.length ≤ rb.capacity ∧ (rb.stream k).insert o now d = none := by
  unfold insert
  dsimp only
  by_cases hfull : rb.size + d.length > rb.capacity
  · rw [if_pos hfull]
    exact iff_of_false (by simp) fun h => absurd h.1 (not_le.mpr hfull)
  · rw [if_neg hfull]
    cases (rb.stream k).insert o now d with
    | none => simp [not_lt.mp hfull]
    | some r => simp

theorem step_returns_iff (hS : ∀ k, (S k).length < 2 ^ 63) (rb : ReceiveBuffer) (op : BufferOp)
    (hi : Bounded S capacity rb) (hg : op.Genuine S) : (∃ rb', rb.step op = some rb') ↔ rb.NoClash op := by
  cases op with
  | insert k o now d =>
    have hnone := (hi.pieces k).insert_eq_none (hS k) hg.1 hg.2 now
    rw [← Option.isSome_iff_exists, Option.isSome_iff_ne_none]
    simp only [step, NoClash, ne_eq, Option.map_eq_none_iff, insert_eq_none, hnone, not_and]
  | emptyInsert k o => exact iff_of_true ⟨_, rfl⟩ trivial
  | close k o => exact iff_of_true ⟨_, rfl⟩ trivial
  | removeOldestInOrder k => exact iff_of_true ⟨_, rfl⟩ trivial
  | getSndAck => exact iff_of_true ⟨_, rfl⟩ trivial

/-- A run over consistent data returns just when none of its inserts meets a clash. -/
theorem consistent_run_returns_iff (S : Nat → Bytes) (hS : ∀ k, (S k).length < 2 ^ 63) (capacity : Int)
    (ops : List BufferOp) (hgen : ∀ op ∈ ops, op.Genuine S) :
    (∃ rb, run step (new capacity) ops = some rb) ↔ Along step NoClash (new capacity) ops := by
  have hS' : ∀ k, (S k).length < 2 ^ 64 := fun k => (hS k).trans (by decide)
  have hinv : ∀ rb op rb', Bounded S capacity rb → op.Genuine S → rb.step op = some rb' → Bounded S capacity rb' := by
    intro rb op rb' hi hg h
    exact (step_drift hS' rb op rb' hi hg h).1
  exact run_returns_iff (step_returns_iff hS) hinv (bounded_new S capacity) hgen

/-- The packets overlap on either side. -/
def overlaps : List BufferOp :=
  [.insert 0 4 1 [4, 5, 6], .insert 0 0 2 [0, 1], .insert 0 1 3 [1, 2, 3, 4, 5], .removeOldestInOrder 0]

theorem overlaps_return : ∃ rb, run step (new 100) overlaps = some rb := by
  have hgen : ∀ op ∈ overlaps, op.Genuine fun _ => [0, 1, 2, 3, 4, 5, 6] := by
    simp [overlaps, BufferOp.Genuine, IsAt]
  exact (consistent_run_returns_iff (fun _ => [0, 1, 2, 3, 4, 5, 6]) (fun _ => by decide) 100 overlaps hgen).mpr
    (by decide)

/-- Packet [0, 10) takes the place of [0, 2), and leaves [3, 5) inside it, where packet [2, 12)
meets it. -/
def longerAtStart : List BufferOp :=
  [.insert 0 0 1 [0, 1], .insert 0 3 2 [3, 4], .insert 0 0 3 [0, 1, 2, 3, 4, 5, 6, 7, 8, 9],
    .insert 0 2 4 [2, 3, 4, 5, 6, 7, 8, 9, 10, 11]]

theorem longerAtStart_panics :
    (∀ op ∈ longerAtStart, op.Genuine fun _ => [0, 1, 2, 3, 4, 5, 6, 7, 8, 9, 10, 11]) ∧
    run step (new 100) longerAtStart = none := by
  refine ⟨by simp [longerAtStart, BufferOp.Genuine, IsAt], rfl⟩

end ReceiveBuffer

end Qotp
