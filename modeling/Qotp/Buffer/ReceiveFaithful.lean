import Qotp.Buffer.ReceiveSpec

namespace Qotp

open Framework

namespace RcvBuffer

/-- The segments are pieces of `S` that start before its end, whatever they overlap. -/
structure Pieces (S : Bytes) (s : RcvBuffer) : Prop where
  content : ∀ e ∈ s.segments.entries, IsAt S e.1 e.2.data
  start : ∀ e ∈ s.segments.entries, e.1 < S.length

variable {S T : Bytes} {s s' : RcvBuffer}

theorem Pieces.end_le (h : Pieces S s) {e : Nat × RcvValue} (he : e ∈ s.segments.entries) :
    segEnd e ≤ S.length := by
  unfold segEnd
  by_cases hd : e.2.data = []
  · have := h.start e he
    rw [hd]
    exact this.le
  · exact (h.content e he).end_le hd

theorem Pieces.mono (h : Pieces S s) (hST : S <+: T) : Pieces T s := by
  obtain ⟨t, rfl⟩ := hST
  refine ⟨fun e he => (h.content e he).append, fun e he => ?_⟩
  rw [List.length_append]
  exact Nat.lt_add_right _ (h.start e he)

/-- The segments alone count. -/
theorem Pieces.sub (h : Pieces S s) (hsub : ∀ e ∈ s'.segments.entries, e ∈ s.segments.entries) : Pieces S s' :=
  ⟨fun e he => h.content e (hsub e he), fun e he => h.start e (hsub e he)⟩

/-- A packet of the same sequence agrees with the preceding segment. -/
theorem Pieces.trimPrev_ok (h : Pieces S s) {o : Nat} {d : Bytes} (hd : IsAt S o d) :
    ∃ r, trimPrev s.segments o d = some r := by
  unfold trimPrev
  cases hp : s.segments.prev o with
  | none => exact ⟨_, rfl⟩
  | some e =>
    obtain ⟨p, v⟩ := e
    obtain ⟨hmem, hlt, _⟩ := SortedAssoc.prev_spec hp
    dsimp only at hlt ⊢
    split_ifs with hov hcov
    · exact ⟨_, rfl⟩
    · have hagree : v.data.drop (o - p) = d.take (p + v.data.length - o) := by
        have ha := (h.content _ hmem).agree hd (o - p) 0 (p + v.data.length - o) (by dsimp only; omega)
          (by dsimp only; omega) (by omega)
        rw [List.take_of_length_le (by rw [List.length_drop]; dsimp only; omega)] at ha
        simpa using ha
      simp only [sliceFrom?_of_le (show o - p ≤ v.data.length by omega),
        sliceTo?_of_le (show p + v.data.length - o ≤ d.length by omega),
        sliceFrom?_of_le (show p + v.data.length - o ≤ d.length by omega), hagree]
      simp
    · exact ⟨_, rfl⟩

/-- It agrees with the following segment, where that one starts behind the cut. -/
theorem Pieces.trimNext_ok (h : Pieces S s) (hS : S.length < 2 ^ 63) {o fo : Nat} {d : Bytes}
    (hd : IsAt S fo d) (hne : d ≠ []) (hfo : ∀ n, s.segments.next o = some n → fo ≤ n.1) :
    ∃ r, trimNext s.segments o fo d = some r := by
  unfold trimNext
  cases hn : s.segments.next o with
  | none => exact ⟨_, rfl⟩
  | some e =>
    have hle := hfo e hn
    obtain ⟨p, v⟩ := e
    obtain ⟨hmem, hlt, _⟩ := SortedAssoc.next_spec hn
    have hend := h.end_le hmem
    have hdend := hd.end_le hne
    have hcont := h.content _ hmem
    unfold segEnd at hend
    dsimp only at hlt hle hend hcont ⊢
    have hsub : sub64 p fo = p - fo := sub64_of_le hle (by omega)
    split_ifs with hov hcov
    · have hadd : add64 (p - fo) v.data.length = p - fo + v.data.length := add64_of_lt (by omega)
      have hagree : v.data = (d.take (p - fo + v.data.length)).drop (p - fo) := by
        have ha := hcont.agree hd 0 (p - fo) v.data.length (by omega) (by omega) (by omega)
        rw [List.drop_zero, List.take_length] at ha
        rw [List.drop_take, Nat.add_sub_cancel_left]
        exact ha
      rw [hsub, hadd, slice?_of_le (by omega) (by omega), ← hagree]
      simp
    · have hagree : v.data.take (fo + d.length - p) = d.drop (p - fo) := by
        have ha := hcont.agree hd 0 (p - fo) (fo + d.length - p) (by omega) (by omega) (by omega)
        rw [List.drop_zero, List.take_of_length_le (l := d.drop (p - fo))
          (by rw [List.length_drop]; omega)] at ha
        exact ha
      rw [hsub, sliceTo?_of_le (by omega), sliceFrom?_of_le (by omega), hagree,
        sliceTo?_of_le (show p - fo ≤ d.length by omega)]
      simp
    · exact ⟨_, rfl⟩

/-- No overlap, order or state of the buffer makes a faithful packet corrupt it. -/
theorem Pieces.insert (h : Pieces S s) {o now : Nat} {d : Bytes} {delta : Int} {st : RcvInsertStatus}
    (hne : d ≠ []) (hd : IsAt S o d) (hi : s.insert o now d = some (s', delta, st)) : Pieces S s' := by
  obtain ⟨rfl, _⟩ | ⟨_, segs, fo, v, rfl, hpiece, hsub⟩ := insert_cases hi
  · exact h
  · refine ⟨fun e he => ?_, fun e he => ?_⟩
    · obtain rfl | ⟨_, he⟩ := SortedAssoc.mem_put.mp he
      · exact hpiece.isAt hd
      · exact h.content e (hsub e he)
    · obtain rfl | ⟨_, he⟩ := SortedAssoc.mem_put.mp he
      · exact (hpiece.start_lt hne).trans_le (hd.end_le hne)
      · exact h.start e (hsub e he)

end RcvBuffer

/-- What the receiver stores are pieces of the accepted bytes `W`; what it delivered is
their beginning, up to the delivery point. -/
structure RcvFaithful (W : Nat → Bytes) (rb : ReceiveBuffer) (delivered : Nat → Bytes) : Prop where
  pieces : ∀ k, (rb.stream k).Pieces (W k)
  isPrefix : ∀ k, IsAt (W k) 0 (delivered k)
  length : ∀ k, (delivered k).length = (rb.stream k).nextInOrderOffsetToWaitFor

theorem rcvFaithful_new (W : Nat → Bytes) (capacity : Int) : RcvFaithful W (.new capacity) fun _ => [] :=
  ⟨fun _ => ⟨nofun, nofun⟩, fun k => isAt_nil (W k) 0, fun _ => rfl⟩

namespace RcvFaithful

variable {W V : Nat → Bytes} {rb rb' : ReceiveBuffer} {delivered : Nat → Bytes} {k : Nat}

theorem mono (h : RcvFaithful W rb delivered) (hWV : ∀ k, W k <+: V k) : RcvFaithful V rb delivered := by
  refine ⟨fun k => (h.pieces k).mono (hWV k), fun k => ?_, h.length⟩
  obtain ⟨t, ht⟩ := hWV k
  rw [← ht]
  exact (h.isPrefix k).append

/-- Acks and close marks play no part. -/
theorem congr (h : RcvFaithful W rb delivered)
    (hstr : ∀ j, rb'.stream j = { rb.stream j with closeAtOffset := (rb'.stream j).closeAtOffset }) :
    RcvFaithful W rb' delivered := by
  refine ⟨fun j => (h.pieces j).sub ?_, h.isPrefix, fun j => ?_⟩
  · rw [hstr j]
    exact fun e he => he
  · rw [hstr j]
    exact h.length j

theorem put (h : RcvFaithful W rb delivered) {s' : RcvBuffer}
    (hstr : ∀ j, rb'.stream j = if j = k then s' else rb.stream j) (hs : s'.Pieces (W k))
    (hn : s'.nextInOrderOffsetToWaitFor = (rb.stream k).nextInOrderOffsetToWaitFor) :
    RcvFaithful W rb' delivered := by
  refine ⟨fun j => ?_, h.isPrefix, fun j => ?_⟩
  · rw [hstr j]
    split_ifs with hj
    · exact hj ▸ hs
    · exact h.pieces j
  · rw [hstr j]
    split_ifs with hj
    · rw [hn, hj]
      exact h.length k
    · exact h.length j

theorem insert (h : RcvFaithful W rb delivered) {o now : Nat} {d : Bytes} {st : RcvInsertStatus} (hne : d ≠ [])
    (hd : IsAt (W k) o d) (hi : rb.insert k o now d = some (rb', st)) : RcvFaithful W rb' delivered := by
  obtain ⟨_, _, _, _, hstr⟩ | ⟨_, _, _, s', delta, hins, _, hstr⟩ := ReceiveBuffer.insert_cases hi
  · exact h.congr fun j => by rw [hstr j]
  · exact h.put hstr ((h.pieces k).insert hne hd hins) (by rw [RcvBuffer.insert_frame hins])

theorem remove (h : RcvFaithful W rb delivered) (k : Nat) :
    RcvFaithful W (rb.removeOldestInOrder k).1
      (Function.update delivered k (delivered k ++ (rb.removeOldestInOrder k).2.2.1.getD [])) := by
  have hstr := rb.removeOldestInOrder_stream k
  rw [rb.removeOldestInOrder_packet k]
  obtain ⟨v, hm, hr⟩ | ⟨hr, _⟩ := (rb.stream k).removeOldestInOrder_cases
  · have hat := (h.pieces k).content _ (SortedAssoc.min?_spec hm).1
    rw [hr] at hstr ⊢
    refine ⟨fun j => ?_, fun j => ?_, fun j => ?_⟩
    · rw [hstr j]
      split_ifs with hj
      · subst hj
        exact (h.pieces j).sub fun e he => (SortedAssoc.mem_erase.mp he).2
      · exact h.pieces j
    · by_cases hj : j = k
      · subst hj
        rw [Function.update_self]
        refine (h.isPrefix j).concat ?_
        rw [Nat.zero_add, h.length j]
        exact hat
      · rw [Function.update_of_ne hj]
        exact h.isPrefix j
    · rw [hstr j]
      by_cases hj : j = k
      · subst hj
        rw [if_pos rfl, Function.update_self, List.length_append, h.length j]
        rfl
      · rw [if_neg hj, Function.update_of_ne hj]
        exact h.length j
  · rw [hr] at hstr ⊢
    simp only [Option.getD_none, List.append_nil, Function.update_eq_self]
    refine h.congr fun j => ?_
    rw [hstr j]
    split_ifs with hj
    · rw [hj]
    · rfl

/-- All is delivered once the delivery point is at the end. -/
theorem eq_of_next (h : RcvFaithful W rb delivered)
    (hn : (rb.stream k).nextInOrderOffsetToWaitFor = (W k).length) : delivered k = W k := by
  have hp : delivered k <+: W k := h.isPrefix k
  exact hp.eq_of_length (by rw [h.length k, hn])

theorem next_le (h : RcvFaithful W rb delivered) (k : Nat) :
    (rb.stream k).nextInOrderOffsetToWaitFor ≤ (W k).length := by
  have hp : delivered k <+: W k := h.isPrefix k
  exact h.length k ▸ hp.length_le

end RcvFaithful

end Qotp
