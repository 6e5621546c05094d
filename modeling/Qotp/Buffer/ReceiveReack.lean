import Qotp.Buffer.ReceiveClash
import Qotp.Buffer.ReceiveSafe

namespace Qotp

open Framework

namespace RcvBuffer

/-- The packet `[o, o+l)` overwrites the following segment, and a byte of that one is held by no
other segment. -/
def Loses (s : RcvBuffer) (o l : Nat) : Prop :=
  s.Overwrites o l ∧ ∃ n ∈ s.segments.next o, ∃ i, s.Covered i ∧
    ¬ Covered { s with segments := s.segments.erase n.1 } i

variable {s s' : RcvBuffer} {o now i : Nat} {d : Bytes} {delta : Int} {st : RcvInsertStatus}

/-- A segment put at a free offset hides no other. -/
theorem covered_put {segs : Segments} {fo : Nat} {v : RcvValue} (hfree : segs.get? fo = none)
    (h : Covered { s with segments := segs } i) : Covered { s with segments := segs.put fo v } i := by
  obtain hi | ⟨e, he, h1, h2⟩ := h
  · exact .inl hi
  · exact .inr ⟨e, SortedAssoc.mem_put.mpr (.inr ⟨SortedAssoc.get?_eq_none.mp hfree e he, he⟩), h1, h2⟩

/-- A segment leaves, and its bytes are in the one that is put. -/
theorem covered_erase_put {p fo : Nat} {v w : RcvValue} (hmem : (p, v) ∈ s.segments.entries)
    (hfree : (s.segments.erase p).get? fo = none) (hle : fo ≤ p) (hend : p + v.data.length ≤ fo + w.data.length)
    (h : s.Covered i) : Covered { s with segments := (s.segments.erase p).put fo w } i := by
  obtain hi | ⟨e, he, h1, h2⟩ := h
  · exact .inl hi
  · by_cases hp : e.1 = p
    · obtain ⟨q, u⟩ := e
      dsimp only at hp h1
      subst hp
      obtain rfl := SortedAssoc.eq_of_mem he hmem
      refine .inr ⟨(fo, w), SortedAssoc.mem_put.mpr (.inl rfl), by dsimp only; omega, ?_⟩
      unfold segEnd at h2 ⊢
      dsimp only at h2 ⊢
      omega
    · apply covered_put hfree
      exact .inr ⟨e, SortedAssoc.mem_erase.mpr ⟨hp, he⟩, h1, h2⟩

theorem insert_covers (hlen : o + d.length < 2 ^ 64) (hne : d ≠ []) (h : s.insert o now d = some (s', delta, st))
    (hw : ¬ s.Overwrites o d.length) (hi : s.Covered i) : s'.Covered i := by
  have hpos := List.length_pos_iff.mpr hne
  obtain ⟨rfl, _⟩ | ⟨_, v, hg, hlt, _, rfl, _⟩ |
    ⟨hnext, hg, _, m, segs, removed, kept, hm, hn, rfl, _⟩ := insert_paths h
  · exact hi
  · refine covered_erase_put (SortedAssoc.get?_eq_some.mp hg) ?_ le_rfl (by dsimp only; omega) hi
    exact SortedAssoc.get?_eq_none.mpr fun e he => (SortedAssoc.mem_erase.mp he).1
  · have hfree : segs.get? (o + m) = none := by
      cases hget : segs.get? (o + m) with
      | none => rfl
      | some w => exact absurd (overwrites_of_get? hlen hnext hg (by omega) (hm.imp id And.right) hn hget) hw
    obtain ⟨_, rfl, _⟩ | ⟨p, v, hp, _, hover, rfl, rfl⟩ | ⟨_, _, _, _, _, rfl, _⟩ := trimNext_cases hn
    · exact covered_put hfree hi
    · have hcut := trimNext_cut hp (by rw [List.length_drop]; omega)
        (List.ne_nil_of_length_pos (by rw [List.length_drop]; omega)) hn
      exact covered_erase_put (SortedAssoc.next_spec hp).1 hfree hcut hover hi
    · exact covered_put hfree hi

/-- What is left when a segment is overwritten with nothing. -/
theorem covered_put_nil {n : Nat} (segs : Segments) :
    Covered { s with segments := segs.put n ⟨[], now⟩ } i ↔ Covered { s with segments := segs.erase n } i := by
  refine or_congr Iff.rfl ⟨?_, ?_⟩
  · rintro ⟨e, he, h1, h2⟩
    obtain rfl | ⟨hne, he⟩ := SortedAssoc.mem_put.mp he
    · simp only [segEnd, List.length_nil] at h1 h2
      omega
    · exact ⟨e, SortedAssoc.mem_erase.mpr ⟨hne, he⟩, h1, h2⟩
  · rintro ⟨e, he, h1, h2⟩
    obtain ⟨hne, he⟩ := SortedAssoc.mem_erase.mp he
    exact ⟨e, SortedAssoc.mem_put.mpr (.inr ⟨hne, he⟩), h1, h2⟩

theorem insert_overwrites (hlen : o + d.length < 2 ^ 64) (hne : d ≠ [])
    (h : s.insert o now d = some (s', delta, st)) (hw : s.Overwrites o d.length) :
    ∃ n ∈ s.segments.next o, ∀ i, s'.Covered i ↔ Covered { s with segments := s.segments.erase n.1 } i := by
  have hpos := List.length_pos_iff.mpr hne
  obtain ⟨hnext, hfree, p, hp, q, _, hpq, hlt, _⟩ := id hw
  obtain ⟨rfl, _, _, hdup⟩ | ⟨_, v, hg, _⟩ | ⟨_, hg, _, m, segs, removed, kept, hm, hn, rfl, _⟩ := insert_paths h
  · obtain hold | ⟨v, hg, _⟩ | ⟨_, p', hp', hle⟩ := hdup
    · omega
    · cases hg.symm.trans hfree
    · cases hp'.symm.trans hp
      omega
  · cases hg.symm.trans hfree
  · obtain ⟨n, hnn, hom, _, rfl, rfl⟩ := overwrites_cut hlen hnext (by omega) (hm.imp id And.right) hn hw
    refine ⟨n, hnn, fun i => ?_⟩
    rw [hom]
    exact covered_put_nil s.segments

theorem insert_keeps_iff (hlen : o + d.length < 2 ^ 64) (hne : d ≠ [])
    (h : s.insert o now d = some (s', delta, st)) :
    (∀ i, s.Covered i → s'.Covered i) ↔ ¬ s.Loses o d.length := by
  by_cases hw : s.Overwrites o d.length
  · obtain ⟨n, hn, hiff⟩ := insert_overwrites hlen hne h hw
    constructor
    · rintro hall ⟨_, n', hn', i, hi, hlost⟩
      cases hn'.symm.trans hn
      exact hlost ((hiff i).mp (hall i hi))
    · intro hno i hi
      by_contra hlost
      exact hno ⟨hw, n, hn, i, hi, fun hc => hlost ((hiff i).mpr hc)⟩
  · refine iff_of_true (fun i hi => insert_covers hlen hne h hw hi) fun hl => hw hl.1

/-- An empty packet changes nothing, or puts an empty segment at a free offset. -/
theorem insert_nil (s : RcvBuffer) (o now : Nat) :
    ∃ s' delta st, s.insert o now [] = some (s', delta, st) ∧ ∀ i, s.Covered i → s'.Covered i := by
  by_cases hold : o ≤ s.nextInOrderOffsetToWaitFor
  · exact ⟨s, 0, .duplicate, by simp [insert, hold], fun i hi => hi⟩
  cases hg : s.segments.get? o with
  | some v => exact ⟨s, 0, .duplicate, by simp [insert, hold, hg], fun i hi => hi⟩
  | none =>
    by_cases hprev : ∃ p ∈ s.segments.prev o, o < segEnd p
    · obtain ⟨p, hp, hlt⟩ := hprev
      have htrim : trimPrev s.segments o [] = some none := by
        unfold segEnd at hlt
        simp [trimPrev, Option.mem_def.mp hp, hlt]
      exact ⟨s, 0, .duplicate, by simp [insert, hold, hg, htrim], fun i hi => hi⟩
    · have htrim : trimPrev s.segments o [] = some (some (o, [])) := by
        cases hp : s.segments.prev o with
        | none => simp [trimPrev, hp]
        | some p =>
          have hle : ¬ o < p.1 + p.2.data.length := fun hlt => hprev ⟨p, hp, hlt⟩
          simp [trimPrev, hp, hle]
      have hnext : trimNext s.segments o o [] = some (s.segments, 0, []) := by
        cases hn : s.segments.next o with
        | none => simp [trimNext, hn]
        | some n =>
          have hlt : ¬ n.1 < o := not_lt.mpr (SortedAssoc.next_spec hn).2.1.le
          simp [trimNext, hn, hlt]
      refine ⟨{ s with segments := s.segments.put o ⟨[], now⟩ }, 0, .ok, ?_, fun i hi => covered_put hg hi⟩
      simp [insert, hold, hg, htrim, hnext]

theorem not_clash_zero (s : RcvBuffer) (o : Nat) : ¬ s.Clash o 0 := by
  rintro ⟨_, _, p, _, n, hn, hend, hcut⟩
  have := (SortedAssoc.next_spec hn).2.1
  omega

theorem not_overwrites_zero (s : RcvBuffer) (o : Nat) : ¬ s.Overwrites o 0 := by
  rintro ⟨_, _, p, _, n, hn, _, hlt, _⟩
  have := (SortedAssoc.next_spec hn).2.1
  omega

/-- A packet of the sequence is taken without a loss just when it neither clashes nor overwrites
bytes that no other segment holds. -/
theorem Pieces.insert_keeps {S : Bytes} (h : Pieces S s) (hS : S.length < 2 ^ 63) (hd : IsAt S o d) :
    (∃ s' delta st, s.insert o now d = some (s', delta, st) ∧ ∀ i, s.Covered i → s'.Covered i) ↔
      ¬ s.Clash o d.length ∧ ¬ s.Loses o d.length := by
  by_cases hne : d = []
  · subst hne
    refine iff_of_true (insert_nil s o now) ⟨s.not_clash_zero o, fun hl => s.not_overwrites_zero o hl.1⟩
  · have hnone := h.insert_eq_none hS hne hd now
    have hlen : o + d.length < 2 ^ 64 := by
      have := hd.end_le hne
      omega
    constructor
    · rintro ⟨s', delta, st, hi, hkeeps⟩
      refine ⟨fun hc => ?_, (insert_keeps_iff hlen hne hi).mp hkeeps⟩
      rw [hnone.mpr hc] at hi
      cases hi
    · rintro ⟨hclash, hloses⟩
      cases hi : s.insert o now d with
      | none => exact absurd (hnone.mp hi) hclash
      | some r => exact ⟨r.1, r.2.1, r.2.2, rfl, (insert_keeps_iff hlen hne hi).mpr hloses⟩

end RcvBuffer

namespace ReceiveBuffer

/-- `Insert` appends an ack for the whole packet, and what was delivered or buffered still is. -/
def Reacks (rb : ReceiveBuffer) (k o now : Nat) (d : Bytes) : Prop :=
  ∃ rb' st, rb.insert k o now d = some (rb', st) ∧ rb'.ackList = rb.ackList ++ [⟨k, o, d.length, 0⟩] ∧
    ∀ j i, (rb.stream j).Covered i → (rb'.stream j).Covered i

variable {S : Nat → Bytes} {capacity : Int} {rb : ReceiveBuffer} {k o now : Nat} {d : Bytes}

/-- The room comes first, then the ack with a length of 16 bits, and then the stream. -/
theorem reacks_iff_stream : rb.Reacks k o now d ↔
    rb.size + d.length ≤ rb.capacity ∧ d.length < 2 ^ 16 ∧
      ∃ s' delta st, (rb.stream k).insert o now d = some (s', delta, st) ∧
        ∀ i, (rb.stream k).Covered i → s'.Covered i := by
  constructor
  · rintro ⟨rb', st, h, hack, hkeeps⟩
    obtain ⟨_, _, _, hsame, _⟩ | ⟨hroom, _, hlist, s', delta, hs, _, hstr⟩ := insert_cases h
    · have hlen := congrArg List.length (hsame.symm.trans hack)
      simp at hlen
    · have hmod : d.length % 2 ^ 16 = d.length := by
        have := List.append_cancel_left (hlist.symm.trans hack)
        simpa using this
      refine ⟨hroom, ?_, s', delta, st, hs, fun i hi => ?_⟩
      · exact hmod ▸ Nat.mod_lt _ (by decide)
      · have := hkeeps k i hi
        rwa [hstr k, if_pos rfl] at this
  · rintro ⟨hroom, hlen, s', delta, st, hs, hkeeps⟩
    obtain ⟨⟨rb', st'⟩, h⟩ := insert_eq_some (fun _ => ⟨_, hs⟩)
    obtain ⟨hfull, _⟩ | ⟨_, _, hlist, s₁, delta₁, hs₁, _, hstr⟩ := insert_cases h
    · exact absurd hfull (not_lt.mpr hroom)
    · cases hs.symm.trans hs₁
      refine ⟨rb', st, h, ?_, fun j i hi => ?_⟩
      · rw [hlist, Nat.mod_eq_of_lt hlen]
      · rw [hstr j]
        split_ifs with hj
        · exact hkeeps i (hj ▸ hi)
        · exact hi

/-- Two bytes are delivered and two are buffered. -/
def halfRead : List BufferOp := [.insert 0 0 1 [0, 1], .removeOldestInOrder 0, .insert 0 2 2 [2, 3]]

theorem halfRead_genuine : ∀ op ∈ halfRead, op.Genuine fun _ => [0, 1, 2, 3] := by
  simp [halfRead, BufferOp.Genuine, IsAt]

end ReceiveBuffer

end Qotp
