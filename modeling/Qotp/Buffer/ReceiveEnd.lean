import Qotp.Buffer.ReceiveFaithful
import Qotp.Buffer.ReceiveSafe

namespace Qotp

open Framework

namespace RcvBuffer

/-- A close mark at `c` ends a stream of `N` bytes where it should: a readable segment
behind the mark reaches to the end. A mark at 0 is met by a read that finds nothing,
so then the next segment has to be there. -/
structure EndsAt (s : RcvBuffer) (c N : Nat) : Prop where
  ends : ∀ e ∈ s.segments.entries, c ≤ e.1 → s.nextInOrderOffsetToWaitFor ≤ e.1 → segEnd e = N
  zero : c = 0 → s.nextInOrderOffsetToWaitFor = N ∨
    s.segments.min?.map Prod.fst = some s.nextInOrderOffsetToWaitFor

instance (s : RcvBuffer) (c N : Nat) : Decidable (s.EndsAt c N) :=
  decidable_of_iff ((∀ e ∈ s.segments.entries, c ≤ e.1 → s.nextInOrderOffsetToWaitFor ≤ e.1 → segEnd e = N) ∧
    (c = 0 → s.nextInOrderOffsetToWaitFor = N ∨
      s.segments.min?.map Prod.fst = some s.nextInOrderOffsetToWaitFor))
    ⟨fun h => ⟨h.1, h.2⟩, fun h => ⟨h.1, h.2⟩⟩

/-- The packet `[o, o+l)` of a stream of `N` bytes brings no missing bytes behind the
mark `c`, unless it brings them up to the end. -/
def PieceFits (s : RcvBuffer) (c N o l : Nat) : Prop :=
  o + l ≤ s.nextInOrderOffsetToWaitFor ∨
    (o + l = N ∨ (s.segments.get? o).isSome ∨ o + l ≤ s.startAfterPrev o ∨ s.startAfterPrev o < c ∨
      s.startAfterPrev o < s.nextInOrderOffsetToWaitFor) ∧
    (c = 0 → s.nextInOrderOffsetToWaitFor ≤ o)

instance (s : RcvBuffer) (c N o l : Nat) : Decidable (s.PieceFits c N o l) :=
  inferInstanceAs (Decidable (_ ∨ _ ∧ _))

/-- The last packet `[o, N)`, which sets the mark at its own start: what is stored behind
that reaches to the end, but for the segment that the packet removes. -/
def CloseFits (s : RcvBuffer) (o N : Nat) : Prop :=
  N ≤ s.nextInOrderOffsetToWaitFor ∨
    (∀ e ∈ s.segments.entries, o < e.1 → s.nextInOrderOffsetToWaitFor ≤ e.1 → segEnd e = N ∨
      (s.segments.get? o = none ∧ s.startAfterPrev o < N ∧ s.segments.next o = some e)) ∧
    (o = 0 → s.nextInOrderOffsetToWaitFor = 0)

instance (s : RcvBuffer) (o N : Nat) : Decidable (s.CloseFits o N) :=
  inferInstanceAs (Decidable (_ ∨ _ ∧ _))

variable {S : Bytes} {s s' : RcvBuffer} {o now c : Nat} {d : Bytes} {delta : Int} {st : RcvInsertStatus}

theorem startAfterPrev_eq {m : Nat}
    (h : (m = 0 ∧ ∀ p v, s.segments.prev o = some (p, v) → p + v.data.length ≤ o) ∨
      ∃ p v, s.segments.prev o = some (p, v) ∧ o + m = p + v.data.length) : s.startAfterPrev o = o + m := by
  unfold startAfterPrev
  obtain ⟨rfl, hend⟩ | ⟨p, v, hp, hend⟩ := h
  · cases hp : s.segments.prev o with
    | none => rfl
    | some e => exact max_eq_left (hend e.1 e.2 hp)
  · rw [hp]
    dsimp only [segEnd]
    omega

/-- Why a packet is a duplicate, and what it stores if it is none. -/
theorem insert_outcome (hne : d ≠ []) (h : s.insert o now d = some (s', delta, st)) :
    (s' = s ∧ (o + d.length ≤ s.nextInOrderOffsetToWaitFor ∨
      (∃ v, s.segments.get? o = some v ∧ d.length ≤ v.data.length) ∨
      (s.segments.get? o = none ∧ o + d.length ≤ s.startAfterPrev o))) ∨
    (s.nextInOrderOffsetToWaitFor < o + d.length ∧
      ((∃ v, s.segments.get? o = some v ∧ v.data.length < d.length ∧
        s' = { s with segments := (s.segments.erase o).put o ⟨d, now⟩ }) ∨
      (s.segments.get? o = none ∧ ∃ m segs removed stored, s.startAfterPrev o = o + m ∧ m < d.length ∧
        trimNext s.segments o (o + m) (d.drop m) = some (segs, removed, stored) ∧
        s' = { s with segments := segs.put (o + m) ⟨stored, now⟩ }))) := by
  obtain ⟨rfl, _, _, hdup⟩ | ⟨hnew, v, hg, hlt, _, rfl, _⟩ | ⟨hnew, hg, _, m, segs, removed, stored, hm, hn, rfl, _⟩ :=
    insert_paths h
  · refine .inl ⟨rfl, hdup.imp_right fun hdup => hdup.imp_right fun ⟨hg, p, hp, hle⟩ => ⟨hg, ?_⟩⟩
    unfold startAfterPrev
    rw [Option.mem_def.mp hp]
    exact hle.trans (le_max_right _ _)
  · exact .inr ⟨hnew, .inl ⟨v, hg, hlt, rfl⟩⟩
  · have hmlt : m < d.length := by
      obtain ⟨rfl, _⟩ | ⟨hlt, _⟩ := hm
      · exact List.length_pos_iff.mpr hne
      · exact hlt
    have hstart := startAfterPrev_eq (hm.imp_right And.right)
    exact .inr ⟨hnew, .inr ⟨hg, m, segs, removed, stored, hstart, hmlt, hn, rfl⟩⟩

/-- The trimmed piece ends where the packet does, unless the packet ends inside the
following segment. -/
theorem Pieces.trimNext_end (h : Pieces S s) {m : Nat} {segs : Segments} {removed : Int} {stored : Bytes}
    (hm : m < d.length) (hn : trimNext s.segments o (o + m) (d.drop m) = some (segs, removed, stored)) :
    (∀ e ∈ segs.entries, e ∈ s.segments.entries) ∧
      (segEnd (o + m, ⟨stored, now⟩) = o + d.length ∨ o + d.length < S.length) := by
  have hlen : segEnd (o + m, ⟨d.drop m, now⟩) = o + d.length := by
    simp only [segEnd, List.length_drop]
    omega
  obtain ⟨_, rfl, rfl⟩ | ⟨_, _, _, _, _, rfl, rfl⟩ | ⟨p, v, hp, _, hlt, rfl, _⟩ := trimNext_cases hn
  · exact ⟨fun e he => he, .inl hlen⟩
  · exact ⟨fun e he => (SortedAssoc.mem_erase.mp he).2, .inl hlen⟩
  · have hend := h.end_le (SortedAssoc.next_spec hp).1
    simp only [segEnd, List.length_drop] at hend hlt
    exact ⟨fun e he => he, .inr (by omega)⟩

/-- The last packet removes the segment that follows its start. -/
theorem Pieces.trimNext_removes (h : Pieces S s) {m : Nat} {segs : Segments} {removed : Int} {stored : Bytes}
    (hm : m < d.length) (hend : o + d.length = S.length)
    (hn : trimNext s.segments o (o + m) (d.drop m) = some (segs, removed, stored)) {e : Nat × RcvValue}
    (he : s.segments.next o = some e) : e ∉ segs.entries := by
  obtain ⟨p, v⟩ := e
  have hmem := (SortedAssoc.next_spec he).1
  obtain ⟨hfar, _, _⟩ | ⟨q, w, hq, _, _, rfl, _⟩ | ⟨q, w, hq, _, hlt, _⟩ := trimNext_cases hn
  · have hle := hfar p v he
    have hlt := h.start _ hmem
    rw [List.length_drop] at hle
    omega
  · rw [he] at hq
    cases hq
    exact fun hin => (SortedAssoc.mem_erase.mp hin).1 rfl
  · have hle := h.end_le (SortedAssoc.next_spec hq).1
    simp only [segEnd, List.length_drop] at hle hlt
    omega

theorem startAfterPrev_zero (s : RcvBuffer) : s.startAfterPrev 0 = 0 := by
  unfold startAfterPrev
  rw [SortedAssoc.prev_eq_none.mpr fun _ _ => Nat.zero_le _]

/-- Behind a mark at 0 the next segment holds all that is missing, so nothing is stored. -/
theorem EndsAt.insert_zero (h : EndsAt s 0 S.length) (hne : d ≠ []) (hd : IsAt S o d)
    (hfit : s.PieceFits 0 S.length o d.length) (hi : s.insert o now d = some (s', delta, st)) : s' = s := by
  have hend := hd.end_le hne
  obtain ⟨rfl, _⟩ | ⟨hnew, hput⟩ := insert_outcome hne hi
  · rfl
  exfalso
  have hle : s.nextInOrderOffsetToWaitFor ≤ o := (hfit.resolve_left (by omega)).2 rfl
  have hreach : ∀ e ∈ s.segments.entries, s.nextInOrderOffsetToWaitFor ≤ e.1 → segEnd e = S.length :=
    fun e he => h.ends e he (Nat.zero_le _)
  obtain hn | hmin := h.zero rfl
  · omega
  obtain ⟨⟨n, w⟩, hmin, hfst⟩ := Option.map_eq_some_iff.mp hmin
  obtain ⟨hmem, hall⟩ := SortedAssoc.min?_spec hmin
  dsimp only at hfst hall
  obtain ⟨v, hg, hlt, _⟩ | ⟨hg, m, _, _, _, hstart, hm, _⟩ := hput
  · have := hreach _ (SortedAssoc.get?_eq_some.mp hg) hle
    simp only [segEnd] at this
    omega
  · have hno := SortedAssoc.get?_eq_none.mp hg _ hmem
    dsimp only at hno
    cases hp : s.segments.prev o with
    | none =>
      have := SortedAssoc.prev_eq_none.mp hp _ hmem
      dsimp only at this
      omega
    | some p =>
      have hpm := (SortedAssoc.prev_spec hp).1
      have hpend := hreach p hpm (hfst ▸ hall p hpm)
      unfold startAfterPrev at hstart
      rw [hp] at hstart
      dsimp only at hstart
      omega

theorem EndsAt.insert (hP : Pieces S s) (h : EndsAt s c S.length) (hne : d ≠ []) (hd : IsAt S o d)
    (hfit : s.PieceFits c S.length o d.length) (hi : s.insert o now d = some (s', delta, st)) :
    EndsAt s' c S.length := by
  have hend := hd.end_le hne
  refine ⟨?_, fun hc => ?_⟩
  · obtain ⟨rfl, _⟩ | ⟨hnew, ⟨v, hg, hlt, rfl⟩ | ⟨hg, m, segs, removed, stored, hstart, hm, hn, rfl⟩⟩ :=
      insert_outcome hne hi
    · exact h.ends
    · intro e he hc hnext
      obtain rfl | ⟨_, he⟩ := SortedAssoc.mem_put.mp he
      · -- the segment it would replace already reaches to the end
        have := h.ends _ (SortedAssoc.get?_eq_some.mp hg) hc hnext
        simp only [segEnd] at this
        omega
      · exact h.ends e (SortedAssoc.mem_erase.mp he).2 hc hnext
    · obtain ⟨hsub, hpiece⟩ : _ ∧ (segEnd (o + m, ⟨stored, now⟩) = _ ∨ _) := hP.trimNext_end hm hn
      intro e he hc hnext
      obtain rfl | ⟨_, he⟩ := SortedAssoc.mem_put.mp he
      · dsimp only at hc hnext
        have hlast : o + d.length = S.length := by
          obtain hl | hs | hr := (hfit.resolve_left (by omega)).1
          · exact hl
          · rw [hg] at hs
            cases hs
          · omega
        exact (hpiece.resolve_right (by omega)).trans hlast
      · exact h.ends e (hsub e he) hc hnext
  · subst hc
    rw [h.insert_zero hne hd hfit hi]
    exact h.zero rfl

/-- A segment at 0 is the next one of a stream nothing of which was read. -/
theorem min?_zero {v : RcvValue} (hn : s.nextInOrderOffsetToWaitFor = 0) (hv : (0, v) ∈ s.segments.entries) :
    s.segments.min?.map Prod.fst = some s.nextInOrderOffsetToWaitFor := by
  rw [SortedAssoc.min?_eq_some hv fun _ _ => Nat.zero_le _, hn]
  rfl

/-- Behind an offset that is stored everything reaches to the end. -/
theorem CloseFits.ends_behind {N : Nat} {v : RcvValue} (h : s.CloseFits o N) (hN : s.nextInOrderOffsetToWaitFor < N)
    (hg : s.segments.get? o = some v) {e : Nat × RcvValue} (he : e ∈ s.segments.entries) (ho : o < e.1)
    (hn : s.nextInOrderOffsetToWaitFor ≤ e.1) : segEnd e = N := by
  obtain hr | ⟨hg', _⟩ := (h.resolve_left (not_le.mpr hN)).1 e he ho hn
  · exact hr
  · rw [hg] at hg'
    cases hg'

/-- A packet with CLOSE whose bytes are all there. -/
theorem endsAt_close_dup (hP : Pieces S s) (hN : s.nextInOrderOffsetToWaitFor < S.length)
    (hpos : 0 < d.length) (hend : o + d.length = S.length) (hfit : s.CloseFits o S.length)
    (hdup : (∃ v, s.segments.get? o = some v ∧ d.length ≤ v.data.length) ∨
      (s.segments.get? o = none ∧ o + d.length ≤ s.startAfterPrev o)) : EndsAt s o S.length := by
  obtain ⟨hbehind, hzero⟩ := hfit.resolve_left (not_le.mpr hN)
  obtain ⟨v, hg, hle⟩ | ⟨hg, hcov⟩ := hdup
  · have hmem := SortedAssoc.get?_eq_some.mp hg
    refine ⟨fun e he ho hn => ?_, fun h0 => .inr (min?_zero (hzero h0) (h0 ▸ hmem))⟩
    by_cases heq : e.1 = o
    · obtain ⟨eo, ev⟩ := e
      dsimp only at heq
      subst heq
      obtain rfl := SortedAssoc.eq_of_mem he hmem
      have := hP.end_le he
      simp only [segEnd] at this ⊢
      omega
    · exact hfit.ends_behind hN hg he (by omega) hn
  · refine ⟨fun e he ho hn => ?_, fun h0 => ?_⟩
    · have hne' := SortedAssoc.get?_eq_none.mp hg e he
      obtain hr | ⟨_, hlt, _⟩ := hbehind e he (by omega) hn
      · exact hr
      · omega
    · -- nothing precedes offset 0
      subst h0
      rw [startAfterPrev_zero] at hcov
      omega

/-- The first packet with CLOSE that is stored sets the mark where it should be. -/
theorem endsAt_close (hP : Pieces S s) (hnext : s.nextInOrderOffsetToWaitFor ≤ S.length) (hne : d ≠ [])
    (hend : o + d.length = S.length) (hfit : s.CloseFits o S.length)
    (hi : s.insert o now d = some (s', delta, st)) : EndsAt s' o S.length := by
  have hpos := List.length_pos_iff.mpr hne
  by_cases hall : S.length ≤ s.nextInOrderOffsetToWaitFor
  · have hsame : s' = s := by
      obtain ⟨rfl, _⟩ | ⟨hlt, _⟩ := insert_outcome hne hi
      · rfl
      · omega
    subst hsame
    refine ⟨fun e he _ hn => ?_, fun _ => .inl (by omega)⟩
    have := hP.start e he
    omega
  obtain ⟨hbehind, hzero⟩ := hfit.resolve_left hall
  obtain ⟨rfl, hdup⟩ | ⟨_, ⟨v, hg, hlt, rfl⟩ | ⟨hg, m, segs, removed, stored, hstart, hm, hn, rfl⟩⟩ :=
    insert_outcome hne hi
  · exact endsAt_close_dup hP (not_le.mp hall) hpos hend hfit (hdup.resolve_left (by omega))
  · refine ⟨fun e he ho hn => ?_, fun h0 => .inr ?_⟩
    · obtain rfl | ⟨hne', he⟩ := SortedAssoc.mem_put.mp he
      · exact hend
      · exact hfit.ends_behind (not_le.mp hall) hg (SortedAssoc.mem_erase.mp he).2 (by omega) hn
    · subst h0
      exact min?_zero (hzero rfl) (SortedAssoc.mem_put.mpr (.inl rfl))
  · obtain ⟨hsub, hpiece⟩ : _ ∧ (segEnd (o + m, ⟨stored, now⟩) = _ ∨ _) := hP.trimNext_end hm hn
    refine ⟨fun e he ho hnx => ?_, fun h0 => .inr ?_⟩
    · obtain rfl | ⟨_, he⟩ := SortedAssoc.mem_put.mp he
      · exact (hpiece.resolve_right (by omega)).trans hend
      · have hne' := SortedAssoc.get?_eq_none.mp hg e (hsub e he)
        obtain hr | ⟨_, _, hnxt⟩ := hbehind e (hsub e he) (by omega) hnx
        · exact hr
        · exact absurd he (hP.trimNext_removes hm hend hn hnxt)
    · subst h0
      have hm0 : 0 + m = 0 := hstart.symm.trans (startAfterPrev_zero s)
      exact min?_zero (hzero rfl) (SortedAssoc.mem_put.mpr (.inl (by rw [hm0])))

/-- The mark itself plays no part. -/
theorem EndsAt.congr {N : Nat} (h : EndsAt s c N) (hs : s' = { s with closeAtOffset := s'.closeAtOffset }) :
    EndsAt s' c N := by
  rw [hs]
  exact ⟨h.ends, h.zero⟩

/-- Reading keeps the mark where it should be. -/
theorem EndsAt.remove {N : Nat} (h : EndsAt s c N) : EndsAt s.removeOldestInOrder.1 c N := by
  obtain ⟨v, hm, hr⟩ | ⟨hr, _⟩ := s.removeOldestInOrder_cases
  · have hmem := (SortedAssoc.min?_spec hm).1
    rw [hr]
    refine ⟨fun e he hc hn => ?_, fun hc => .inl ?_⟩
    · dsimp only at hn
      exact h.ends e (SortedAssoc.mem_erase.mp he).2 hc (by omega)
    · exact h.ends _ hmem (by dsimp only; omega) le_rfl
  · rw [hr]
    exact h

/-- A read at or behind the mark reaches the end of the stream. -/
theorem EndsAt.read_end {N : Nat} (h : EndsAt s c N) (hc : c ≤ s.removeOldestInOrder.2.2.1) :
    s.removeOldestInOrder.1.nextInOrderOffsetToWaitFor = N := by
  obtain ⟨v, hm, hr⟩ | ⟨hr, hnot⟩ := s.removeOldestInOrder_cases
  · rw [hr] at hc ⊢
    exact h.ends _ (SortedAssoc.min?_spec hm).1 hc le_rfl
  · rw [hr] at hc ⊢
    obtain hn | hmin := h.zero (Nat.le_zero.mp hc)
    · exact hn
    · obtain ⟨e, he, hfst⟩ := Option.map_eq_some_iff.mp hmin
      exact absurd hfst (hnot e he)

end RcvBuffer

/-- The packet leaves the end of its stream where it should be, `N` bytes from its start:
stored behind a mark it fits, and the packet that sets the mark sets it right. -/
def ReceiveBuffer.EndFits (rb : ReceiveBuffer) (p : PayloadHeader) (userData : Option Bytes) (N : Nat) : Prop :=
  match (rb.stream p.streamID).closeAtOffset with
  | some c => rb.Stores userData →
    (rb.stream p.streamID).PieceFits c N p.streamOffset (userData.getD []).length
  | none => p.isClose = true →
    if rb.Stores userData then (rb.stream p.streamID).CloseFits p.streamOffset N
    else (rb.stream p.streamID).EndsAt p.streamOffset N

instance (rb : ReceiveBuffer) (p : PayloadHeader) (u : Option Bytes) (N : Nat) : Decidable (rb.EndFits p u N) :=
  match hc : (rb.stream p.streamID).closeAtOffset with
  | some c => decidable_of_iff
    (rb.Stores u → (rb.stream p.streamID).PieceFits c N p.streamOffset (u.getD []).length)
    (by rw [ReceiveBuffer.EndFits, hc])
  | none => decidable_of_iff
    (p.isClose = true → if rb.Stores u then (rb.stream p.streamID).CloseFits p.streamOffset N
      else (rb.stream p.streamID).EndsAt p.streamOffset N)
    (by rw [ReceiveBuffer.EndFits, hc])

namespace ReceiveBuffer

variable {rb : ReceiveBuffer} {p : PayloadHeader} {u : Option Bytes} {N : Nat}

theorem EndFits.marked (h : rb.EndFits p u N) {c : Nat} (hc : (rb.stream p.streamID).closeAtOffset = some c)
    (hst : rb.Stores u) : (rb.stream p.streamID).PieceFits c N p.streamOffset (u.getD []).length := by
  unfold EndFits at h
  rw [hc] at h
  exact h hst

theorem EndFits.first (h : rb.EndFits p u N) (hc : (rb.stream p.streamID).closeAtOffset = none)
    (hcl : p.isClose = true) : if rb.Stores u then (rb.stream p.streamID).CloseFits p.streamOffset N
      else (rb.stream p.streamID).EndsAt p.streamOffset N := by
  unfold EndFits at h
  rw [hc] at h
  exact h hcl

end ReceiveBuffer

end Qotp
