import Qotp.Buffer.Receive
import Qotp.Framework.Run

namespace Qotp

open Framework

namespace RcvBuffer

/-- One past the last byte of a stored segment. -/
def segEnd (e : Nat × RcvValue) : Nat := e.1 + e.2.data.length

/-- `e` stores a piece of the packet with data `d` at offset `o`, and starts inside it. -/
def PieceOf (o : Nat) (d : Bytes) (e : Nat × RcvValue) : Prop :=
  ∃ m n, e.1 = o + m ∧ e.2.data = (d.drop m).take n ∧ (m = 0 ∨ m < d.length)

theorem pieceOf_self (o now : Nat) (d : Bytes) : PieceOf o d (o, ⟨d, now⟩) :=
  ⟨0, d.length, rfl, by simp, .inl rfl⟩

theorem PieceOf.isAt {S d : Bytes} {o : Nat} {e : Nat × RcvValue} (h : PieceOf o d e)
    (hd : IsAt S o d) : IsAt S e.1 e.2.data := by
  obtain ⟨m, n, ho, hdata, _⟩ := h
  rw [ho, hdata]
  exact hd.drop.take n

theorem PieceOf.start_lt {d : Bytes} {o : Nat} {e : Nat × RcvValue} (h : PieceOf o d e) (hd : d ≠ []) :
    e.1 < o + d.length := by
  obtain ⟨m, n, ho, _, hm⟩ := h
  have := List.length_pos_iff.mpr hd
  omega

/-- What is left behind the preceding segment is the end of the packet. -/
theorem trimPrev_cases {segs : Segments} {o : Nat} {d : Bytes} {r : Option (Nat × Bytes)}
    (h : trimPrev segs o d = some r) :
    (∃ p v, segs.prev o = some (p, v) ∧ o + d.length ≤ p + v.data.length ∧ r = none) ∨
    ∃ m, r = some (o + m, d.drop m) ∧
      ((m = 0 ∧ ∀ p v, segs.prev o = some (p, v) → p + v.data.length ≤ o) ∨
        (m < d.length ∧ ∃ p v, segs.prev o = some (p, v) ∧ o + m = p + v.data.length ∧
          v.data.drop (o - p) = d.take m)) := by
  unfold trimPrev at h
  cases hp : segs.prev o with
  | none =>
    rw [hp] at h
    cases h
    exact .inr ⟨0, rfl, .inl ⟨rfl, by simp⟩⟩
  | some e =>
    obtain ⟨p, v⟩ := e
    rw [hp] at h
    dsimp only at h
    split_ifs at h with hov hcov
    · cases h
      exact .inl ⟨p, v, rfl, by omega, rfl⟩
    · obtain ⟨ex, hex, h⟩ := Option.bind_eq_some_iff.mp h
      obtain ⟨inc, hinc, h⟩ := Option.bind_eq_some_iff.mp h
      obtain ⟨_, rfl⟩ := sliceFrom?_eq_some.mp hex
      obtain ⟨_, rfl⟩ := sliceTo?_eq_some.mp hinc
      split_ifs at h with heq
      obtain ⟨rest, hrest, h⟩ := Option.bind_eq_some_iff.mp h
      obtain ⟨_, rfl⟩ := sliceFrom?_eq_some.mp hrest
      cases h
      refine .inr ⟨p + v.data.length - o, ?_, .inr ⟨by omega, p, v, rfl, by omega, not_not.mp heq⟩⟩
      rw [show o + (p + v.data.length - o) = p + v.data.length by omega]
    · cases h
      exact .inr ⟨0, rfl, .inl ⟨rfl, fun q w hq => by cases hq; omega⟩⟩

/-- The following segment stays, or is covered and removed; what is stored is a
beginning of the data. -/
theorem trimNext_cases {segs segs' : Segments} {o fo : Nat} {d stored : Bytes} {removed : Int}
    (h : trimNext segs o fo d = some (segs', removed, stored)) :
    ((∀ p v, segs.next o = some (p, v) → fo + d.length ≤ p) ∧ segs' = segs ∧ stored = d) ∨
    (∃ p v, segs.next o = some (p, v) ∧ p < fo + d.length ∧ p + v.data.length ≤ fo + d.length ∧
      segs' = segs.erase p ∧ stored = d) ∨
    (∃ p v, segs.next o = some (p, v) ∧ p < fo + d.length ∧ fo + d.length < p + v.data.length ∧
      segs' = segs ∧ stored = d.take (sub64 p fo) ∧ sub64 p fo ≤ d.length) := by
  unfold trimNext at h
  cases hn : segs.next o with
  | none =>
    rw [hn] at h
    cases h
    exact .inl ⟨by simp, rfl, rfl⟩
  | some e =>
    obtain ⟨p, v⟩ := e
    rw [hn] at h
    dsimp only at h
    split_ifs at h with hov hcov
    · obtain ⟨inc, _, h⟩ := Option.bind_eq_some_iff.mp h
      split_ifs at h
      cases h
      exact .inr (.inl ⟨p, v, rfl, by omega, by omega, rfl, rfl⟩)
    · obtain ⟨ex, _, h⟩ := Option.bind_eq_some_iff.mp h
      obtain ⟨inc, hinc, h⟩ := Option.bind_eq_some_iff.mp h
      obtain ⟨hle, rfl⟩ := sliceFrom?_eq_some.mp hinc
      split_ifs at h
      obtain ⟨short, hshort, h⟩ := Option.bind_eq_some_iff.mp h
      obtain ⟨_, rfl⟩ := sliceTo?_eq_some.mp hshort
      cases h
      exact .inr (.inr ⟨p, v, rfl, by omega, by omega, rfl, rfl, hle⟩)
    · cases h
      exact .inl ⟨fun q w hq => by cases hq; omega, rfl, rfl⟩

/-- The ways through `insert`: a duplicate, a longer packet in the place of the segment at its
offset, or what is left of the packet between its neighbours. -/
theorem insert_paths {s s' : RcvBuffer} {o now : Nat} {d : Bytes} {delta : Int} {st : RcvInsertStatus}
    (h : s.insert o now d = some (s', delta, st)) :
    (s' = s ∧ delta = 0 ∧ st = .duplicate ∧ (o + d.length ≤ s.nextInOrderOffsetToWaitFor ∨
      (∃ v, s.segments.get? o = some v ∧ d.length ≤ v.data.length) ∨
      s.segments.get? o = none ∧ ∃ p ∈ s.segments.prev o, o + d.length ≤ segEnd p)) ∨
    (s.nextInOrderOffsetToWaitFor < o + d.length ∧ ∃ v, s.segments.get? o = some v ∧ v.data.length < d.length ∧ st = .ok ∧
      s' = { s with segments := (s.segments.erase o).put o ⟨d, now⟩ } ∧
      delta = (d.length : Int) - v.data.length) ∨
    (s.nextInOrderOffsetToWaitFor < o + d.length ∧ s.segments.get? o = none ∧ st = .ok ∧
      ∃ m segs removed kept,
        ((m = 0 ∧ ∀ p v, s.segments.prev o = some (p, v) → p + v.data.length ≤ o) ∨
          (m < d.length ∧ ∃ p v, s.segments.prev o = some (p, v) ∧ o + m = p + v.data.length)) ∧
        trimNext s.segments o (o + m) (d.drop m) = some (segs, removed, kept) ∧
        s' = { s with segments := segs.put (o + m) ⟨kept, now⟩ } ∧ delta = removed + kept.length) := by
  unfold insert at h
  split_ifs at h with hold
  · cases h
    exact .inl ⟨rfl, rfl, rfl, .inl hold⟩
  · cases hg : s.segments.get? o with
    | some v =>
      rw [hg] at h
      dsimp only at h
      split_ifs at h with hle
      · cases h
        exact .inl ⟨rfl, rfl, rfl, .inr (.inl ⟨v, rfl, hle⟩)⟩
      · cases h
        exact .inr (.inl ⟨not_le.mp hold, v, rfl, not_le.mp hle, rfl, rfl, rfl⟩)
    | none =>
      rw [hg] at h
      obtain ⟨r, hr, h⟩ := Option.bind_eq_some_iff.mp h
      obtain ⟨p, v, hp, hle, rfl⟩ | ⟨m, rfl, hm⟩ := trimPrev_cases hr
      · cases h
        exact .inl ⟨rfl, rfl, rfl, .inr (.inr ⟨rfl, (p, v), hp, hle⟩)⟩
      · obtain ⟨⟨segs, removed, kept⟩, hn, h⟩ := Option.bind_eq_some_iff.mp h
        cases h
        refine .inr (.inr ⟨not_le.mp hold, rfl, rfl, m, segs, removed, kept, ?_, hn, rfl, rfl⟩)
        exact hm.imp id fun ⟨hlt, p, v, hp, hpe, _⟩ => ⟨hlt, p, v, hp, hpe⟩

/-- Whatever branch `insert` takes, it stores only bytes of the packet, at their
own offsets, and touches neither the delivery point nor the close mark. -/
theorem insert_cases {s s' : RcvBuffer} {o now : Nat} {d : Bytes} {delta : Int} {st : RcvInsertStatus}
    (h : s.insert o now d = some (s', delta, st)) :
    (s' = s ∧ st = .duplicate) ∨
    (st = .ok ∧ ∃ (segs : Segments) (fo : Nat) (v : RcvValue), s' = { s with segments := segs.put fo v } ∧ PieceOf o d (fo, v) ∧
      ∀ e ∈ segs.entries, e ∈ s.segments.entries) := by
  obtain ⟨rfl, _, rfl, _⟩ | ⟨_, v, _, _, rfl, rfl, _⟩ | ⟨_, _, rfl, m, segs, removed, kept, hm, hn, rfl, _⟩ :=
    insert_paths h
  · exact .inl ⟨rfl, rfl⟩
  · exact .inr ⟨rfl, _, _, _, rfl, pieceOf_self o now d, fun e he => (SortedAssoc.mem_erase.mp he).2⟩
  · refine .inr ⟨rfl, _, _, _, rfl, ?_, ?_⟩
    · have hstored : ∃ n, kept = (d.drop m).take n := by
        obtain ⟨_, _, rfl⟩ | ⟨_, _, _, _, _, _, rfl⟩ | ⟨_, _, _, _, _, _, rfl, _⟩ := trimNext_cases hn
        · exact ⟨(d.drop m).length, by simp⟩
        · exact ⟨(d.drop m).length, by simp⟩
        · exact ⟨_, rfl⟩
      obtain ⟨n, rfl⟩ := hstored
      exact ⟨m, n, rfl, rfl, hm.imp And.left And.left⟩
    · intro e he
      obtain ⟨_, rfl, _⟩ | ⟨_, _, _, _, _, rfl, _⟩ | ⟨_, _, _, _, _, rfl, _⟩ := trimNext_cases hn
      · exact he
      · exact (SortedAssoc.mem_erase.mp he).2
      · exact he

/-- `insert` moves neither the delivery point nor the close mark. -/
theorem insert_frame {s s' : RcvBuffer} {o now : Nat} {d : Bytes} {delta : Int} {st : RcvInsertStatus}
    (h : s.insert o now d = some (s', delta, st)) : s' = { s with segments := s'.segments } := by
  obtain ⟨rfl, _⟩ | ⟨_, segs, fo, v, rfl, _, _⟩ := insert_cases h <;> rfl

/-- Either the segment at the delivery point is handed out, or nothing changes. -/
theorem removeOldestInOrder_cases (s : RcvBuffer) :
    (∃ v, s.segments.min? = some (s.nextInOrderOffsetToWaitFor, v) ∧
      s.removeOldestInOrder =
        ({ s with segments := s.segments.erase s.nextInOrderOffsetToWaitFor
                  nextInOrderOffsetToWaitFor := s.nextInOrderOffsetToWaitFor + v.data.length },
          v.data.length, s.nextInOrderOffsetToWaitFor, some v.data, v.receiveTimeNano)) ∨
    (s.removeOldestInOrder = (s, 0, 0, none, 0) ∧
      ∀ e, s.segments.min? = some e → e.1 ≠ s.nextInOrderOffsetToWaitFor) := by
  unfold removeOldestInOrder
  cases hm : s.segments.min? with
  | none => exact .inr ⟨rfl, by simp⟩
  | some e =>
    obtain ⟨o, v⟩ := e
    dsimp only
    by_cases ho : o = s.nextInOrderOffsetToWaitFor
    · subst ho
      exact .inl ⟨v, rfl, by simp⟩
    · refine .inr ⟨by simp [ho], fun e he => ?_⟩
      cases he
      exact ho

theorem removeOldestInOrder_closeAt (s : RcvBuffer) :
    s.removeOldestInOrder.1.closeAtOffset = s.closeAtOffset := by
  obtain ⟨v, _, hr⟩ | ⟨hr, _⟩ := s.removeOldestInOrder_cases <;> rw [hr]

/-- The first mark stays. -/
theorem close_eq (s : RcvBuffer) (o : Nat) : s.close o = { s with closeAtOffset := some (s.closeAtOffset.getD o) } := by
  obtain ⟨segs, next, mark⟩ := s
  cases mark <;> rfl

end RcvBuffer

namespace ReceiveBuffer

theorem stream_put (rb : ReceiveBuffer) (k j : Nat) (s : RcvBuffer) :
    ({ rb with streams := rb.streams.put k s } : ReceiveBuffer).stream j =
      if j = k then s else rb.stream j := by
  unfold stream
  rw [InsertionMap.get?_put]
  split_ifs <;> rfl

/-- `Insert` either finds the buffer full, or queues an ack and updates its stream. -/
theorem insert_cases {rb rb' : ReceiveBuffer} {k o now : Nat} {d : Bytes} {st : RcvInsertStatus}
    (h : rb.insert k o now d = some (rb', st)) :
    (rb.size + d.length > rb.capacity ∧ st = .bufferFull ∧ rb'.size = rb.size ∧
      rb'.ackList = rb.ackList ∧ ∀ j, rb'.stream j = rb.stream j) ∨
    (rb.size + d.length ≤ rb.capacity ∧ st ≠ .bufferFull ∧
      rb'.ackList = rb.ackList ++ [⟨k, o, d.length % 2 ^ 16, 0⟩] ∧
      ∃ s' delta, (rb.stream k).insert o now d = some (s', delta, st) ∧ rb'.size = rb.size + delta ∧
        ∀ j, rb'.stream j = if j = k then s' else rb.stream j) := by
  unfold insert at h
  dsimp only at h
  split_ifs at h with hfull
  · cases h
    refine .inl ⟨hfull, rfl, rfl, rfl, fun j => ?_⟩
    rw [stream_put]
    split_ifs with hj
    · rw [hj]
    · rfl
  · obtain ⟨⟨s', delta, st'⟩, hs, h⟩ := Option.bind_eq_some_iff.mp h
    cases h
    have hst : st' ≠ .bufferFull := by
      obtain ⟨_, rfl⟩ | ⟨rfl, _⟩ := RcvBuffer.insert_cases hs <;> decide
    exact .inr ⟨by omega, hst, rfl, s', delta, hs, rfl, fun j => stream_put rb k j s'⟩

/-- The packet carries data, and the buffer has room for it. -/
def Stores (rb : ReceiveBuffer) (userData : Option Bytes) : Prop :=
  userData.getD [] ≠ [] ∧ rb.size + (userData.getD []).length ≤ rb.capacity

instance (rb : ReceiveBuffer) (userData : Option Bytes) : Decidable (rb.Stores userData) :=
  inferInstanceAs (Decidable (_ ∧ _))

theorem close_stream (rb : ReceiveBuffer) (k o j : Nat) :
    (rb.close k o).stream j = if j = k then (rb.stream k).close o else rb.stream j :=
  stream_put rb k j _

theorem insert_eq_some {rb : ReceiveBuffer} {k o now : Nat} {d : Bytes}
    (h : rb.size + d.length ≤ rb.capacity → ∃ r, (rb.stream k).insert o now d = some r) :
    ∃ r, rb.insert k o now d = some r := by
  unfold insert
  dsimp only
  split_ifs with hfull
  · exact ⟨_, rfl⟩
  · obtain ⟨r, hr⟩ := h (by omega)
    exact ⟨_, by rw [hr]; rfl⟩

theorem removeOldestInOrder_stream (rb : ReceiveBuffer) (k j : Nat) :
    (rb.removeOldestInOrder k).1.stream j =
      if j = k then (rb.stream k).removeOldestInOrder.1 else rb.stream j := by
  unfold removeOldestInOrder
  cases hg : rb.streams.get? k with
  | none =>
    have hk : rb.stream k = {} := by simp [stream, hg]
    split_ifs with hj
    · subst hj
      rw [hk]
      rfl
    · rfl
  | some s =>
    have hk : rb.stream k = s := by simp [stream, hg]
    rw [hk]
    exact stream_put rb k j s.removeOldestInOrder.1

theorem removeOldestInOrder_packet (rb : ReceiveBuffer) (k : Nat) :
    (rb.removeOldestInOrder k).2 = (rb.stream k).removeOldestInOrder.2.2 := by
  unfold removeOldestInOrder stream
  cases rb.streams.get? k <;> rfl

end ReceiveBuffer

end Qotp
