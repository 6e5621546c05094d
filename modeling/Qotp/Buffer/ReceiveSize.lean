import Qotp.Buffer.ReceiveFaithful

namespace Qotp

open Framework

namespace RcvBuffer

/-- The bytes in the segments of the stream. -/
def stored (s : RcvBuffer) : Nat := s.segments.sumBy fun v => v.data.length

/-- The packet `[o, o+l)` starts inside one segment and ends inside another that follows
without a gap. Nothing is left of it, and this nothing is stored over the second one. -/
def Overwrites (s : RcvBuffer) (o l : Nat) : Prop :=
  s.nextInOrderOffsetToWaitFor < o + l ∧ s.segments.get? o = none ∧
    ∃ p ∈ s.segments.prev o, ∃ n ∈ s.segments.next o, segEnd p = n.1 ∧ n.1 < o + l ∧ o + l < segEnd n

instance (s : RcvBuffer) (o l : Nat) : Decidable (s.Overwrites o l) := inferInstanceAs (Decidable (_ ∧ _ ∧ _))

variable {S : Bytes} {s s' : RcvBuffer} {o m now : Nat} {d : Bytes}

/-- The change in size that `trimNext` reports is that of the segments it returns. -/
theorem trimNext_sum {segs segs' : Segments} {fo : Nat} {stored : Bytes} {removed : Int}
    (h : trimNext segs o fo d = some (segs', removed, stored)) :
    ((segs'.sumBy fun v => v.data.length : Nat) : Int) = (segs.sumBy fun v => v.data.length : Nat) + removed ∧
      removed ≤ 0 ∧ stored.length ≤ d.length := by
  unfold trimNext at h
  cases hn : segs.next o with
  | none =>
    rw [hn] at h
    cases h
    simp
  | some e =>
    obtain ⟨p, v⟩ := e
    rw [hn] at h
    dsimp only at h
    split_ifs at h with hov hcov
    · obtain ⟨inc, _, h⟩ := Option.bind_eq_some_iff.mp h
      split_ifs at h
      cases h
      have hsum := SortedAssoc.sumBy_erase (fun v : RcvValue => v.data.length) segs p
      rw [SortedAssoc.get?_eq_some.mpr (SortedAssoc.next_spec hn).1] at hsum
      simp only [Option.map_some, Option.getD_some] at hsum
      omega
    · obtain ⟨ex, _, h⟩ := Option.bind_eq_some_iff.mp h
      obtain ⟨inc, _, h⟩ := Option.bind_eq_some_iff.mp h
      split_ifs at h
      obtain ⟨short, hshort, h⟩ := Option.bind_eq_some_iff.mp h
      obtain ⟨_, rfl⟩ := sliceTo?_eq_some.mp hshort
      cases h
      exact ⟨by simp, le_rfl, by simp⟩
    · cases h
      simp

/-- A following segment that starts in front of the cut ends in a panic. -/
theorem trimNext_cut {segs segs' : Segments} {fo : Nat} {stored : Bytes} {removed : Int} {n : Nat × RcvValue}
    (hn : segs.next o = some n) (hlen : fo + d.length < 2 ^ 64) (hne : d ≠ [])
    (h : trimNext segs o fo d = some (segs', removed, stored)) : fo ≤ n.1 := by
  have hpos := List.length_pos_iff.mpr hne
  obtain ⟨p, v⟩ := n
  unfold trimNext at h
  rw [hn] at h
  dsimp only at h ⊢
  by_contra hlt
  have hsub := sub64_of_gt (not_le.mp hlt) (by omega)
  rw [if_pos (by omega)] at h
  split_ifs at h with hcov
  · obtain ⟨inc, hinc, h⟩ := Option.bind_eq_some_iff.mp h
    obtain ⟨h1, h2, _⟩ := slice?_eq_some.mp hinc
    omega
  · obtain ⟨ex, _, h⟩ := Option.bind_eq_some_iff.mp h
    obtain ⟨inc, hinc, h⟩ := Option.bind_eq_some_iff.mp h
    obtain ⟨h1, _⟩ := sliceFrom?_eq_some.mp hinc
    omega

theorem mem_trimNext {segs segs' : Segments} {fo : Nat} {stored : Bytes} {removed : Int} {e : Nat × RcvValue}
    (h : trimNext segs o fo d = some (segs', removed, stored)) (he : e ∈ segs'.entries) : e ∈ segs.entries := by
  obtain ⟨_, rfl, _⟩ | ⟨_, _, _, _, _, rfl, _⟩ | ⟨_, _, _, _, _, rfl, _⟩ := trimNext_cases h
  · exact he
  · exact (SortedAssoc.mem_erase.mp he).2
  · exact he

section Cut

variable {segs : Segments} {stored : Bytes} {removed : Int} (hlen : o + d.length < 2 ^ 64)
  (hnext : s.nextInOrderOffsetToWaitFor < o + d.length) (hg : s.segments.get? o = none) (hm : m < d.length)
  (hstart : (m = 0 ∧ ∀ p v, s.segments.prev o = some (p, v) → p + v.data.length ≤ o) ∨
    ∃ p v, s.segments.prev o = some (p, v) ∧ o + m = p + v.data.length)
  (h : trimNext s.segments o (o + m) (d.drop m) = some (segs, removed, stored))

include hlen hnext hg hm hstart h

/-- A segment at the cut is the following one, and it is overwritten. -/
theorem overwrites_of_get? {w : RcvValue} (hw : segs.get? (o + m) = some w) : s.Overwrites o d.length := by
  have hend : o + m + (d.drop m).length = o + d.length := by
    rw [List.length_drop]
    omega
  have hne : d.drop m ≠ [] := List.ne_nil_of_length_pos (by omega)
  have hmem := SortedAssoc.get?_eq_some.mp hw
  have hsub := mem_trimNext h hmem
  have hm0 : m ≠ 0 := by
    rintro rfl
    exact SortedAssoc.get?_eq_none.mp hg _ hsub rfl
  obtain ⟨hm, _⟩ | ⟨p, v, hp, hpe⟩ := hstart
  · exact absurd hm hm0
  cases hn : s.segments.next o with
  | none =>
    have := SortedAssoc.next_eq_none.mp hn _ hsub
    dsimp only at this
    omega
  | some n =>
    have hle := trimNext_cut hn (by omega) hne h
    have hmin := (SortedAssoc.next_spec hn).2.2 _ hsub (by dsimp only; omega)
    have hn1 : n.1 = o + m := by
      dsimp only at hmin
      omega
    refine ⟨hnext, hg, (p, v), hp, n, hn, hpe.symm.trans hn1.symm, by omega, ?_⟩
    obtain ⟨hfar, _⟩ | ⟨q, u, hq', _, _, rfl, _⟩ | ⟨q, u, hq', _, hin, _⟩ := trimNext_cases h
    · have := hfar n.1 n.2 hn
      omega
    · rw [hn] at hq'
      cases hq'
      exact absurd hn1.symm (SortedAssoc.mem_erase.mp hmem).1
    · rw [hn] at hq'
      cases hq'
      rw [hend] at hin
      exact hin

omit hg in
/-- A packet that overwrites the following segment is cut where that one starts, and nothing of it is
left. -/
theorem overwrites_cut (hw : s.Overwrites o d.length) :
    ∃ n ∈ s.segments.next o, o + m = n.1 ∧ n.2.data ≠ [] ∧ segs = s.segments ∧ stored = [] := by
  obtain ⟨_, _, p, hp, n, hn, hpn, hlt, hin⟩ := hw
  have hend : o + m + (d.drop m).length = o + d.length := by
    rw [List.length_drop]
    omega
  have hop := (SortedAssoc.next_spec hn).2.1
  have hom : o + m = n.1 := by
    obtain ⟨rfl, hbelow⟩ | ⟨p', v', hp', hpe⟩ := hstart
    · have := hbelow p.1 p.2 hp
      unfold segEnd at hpn
      omega
    · cases hp'.symm.trans hp
      exact hpe.trans hpn
  unfold segEnd at hin
  refine ⟨n, hn, hom, List.ne_nil_of_length_pos (by omega), ?_⟩
  obtain ⟨hfar, _⟩ | ⟨q, u, hq, _, hover, _⟩ | ⟨q, u, hq, _, _, rfl, rfl, _⟩ := trimNext_cases h
  · have := hfar n.1 n.2 hn
    omega
  · cases hq.symm.trans hn
    dsimp only at hin
    omega
  · cases hq.symm.trans hn
    refine ⟨rfl, ?_⟩
    rw [hom, sub64_of_le le_rfl (by omega), Nat.sub_self, List.take_zero]

/-- The cut packet is stored over a segment just when it overwrites one, and then over
one that has bytes. -/
theorem lost_iff : 0 < ((segs.get? (o + m)).map fun v => v.data.length).getD 0 ↔ s.Overwrites o d.length := by
  constructor
  · intro hlost
    cases hq : segs.get? (o + m) with
    | none => simp [hq] at hlost
    | some w => exact overwrites_of_get? hlen hnext hg hm hstart h hq
  · intro hw
    obtain ⟨n, hn, hom, hdata, rfl, _⟩ := overwrites_cut hlen hnext hm hstart h hw
    have hget := SortedAssoc.get?_eq_some.mpr (SortedAssoc.next_spec hn).1
    rw [hom, hget]
    exact List.length_pos_iff.mpr hdata

end Cut

/-- A longer packet in the place of a segment that starts where it does. -/
theorem replace_stored {v : RcvValue} (hg : s.segments.get? o = some v) (now : Nat) (d : Bytes) :
    ((RcvBuffer.stored { s with segments := (s.segments.erase o).put o ⟨d, now⟩ } : Nat) : Int) =
      s.stored + ((d.length : Int) - v.data.length) := by
  have hput := SortedAssoc.sumBy_put (fun v : RcvValue => v.data.length) (s.segments.erase o) o ⟨d, now⟩
  have herase := SortedAssoc.sumBy_erase (fun v : RcvValue => v.data.length) s.segments o
  have hfree : (s.segments.erase o).get? o = none :=
    SortedAssoc.get?_eq_none.mpr fun e he => (SortedAssoc.mem_erase.mp he).1
  simp only [hfree, hg, Option.map_none, Option.map_some, Option.getD_none, Option.getD_some] at hput herase
  simp only [RcvBuffer.stored]
  omega

/-- An insert reports at least the bytes that it adds to the segments, and exactly
these unless it overwrites a segment. -/
theorem insert_stored {delta : Int} {st : RcvInsertStatus} (hlen : o + d.length < 2 ^ 64) (hne : d ≠ [])
    (h : s.insert o now d = some (s', delta, st)) :
    (s'.stored : Int) ≤ s.stored + delta ∧ ((s'.stored : Int) = s.stored + delta ↔ ¬ s.Overwrites o d.length) ∧
      delta ≤ d.length := by
  have hpos := List.length_pos_iff.mpr hne
  obtain ⟨rfl, rfl, _, hdup⟩ | ⟨_, v, hg, hlt, _, rfl, rfl⟩ |
    ⟨hnext, hg, _, m, segs, removed, kept, hm, hn, rfl, rfl⟩ := insert_paths h
  · refine ⟨by simp, iff_of_true (by simp) fun hw => ?_, by simp⟩
    obtain ⟨hnext, hfree, p, hp, n, _, hpn, hlt, _⟩ := hw
    obtain hold | ⟨v, hg, _⟩ | ⟨_, q, hq, hle⟩ := hdup
    · omega
    · cases hg.symm.trans hfree
    · cases hq.symm.trans hp
      omega
  · have heq := replace_stored hg now d
    refine ⟨heq.le, iff_of_true heq fun hw => ?_, by omega⟩
    cases hg.symm.trans hw.2.1
  · obtain ⟨hsum, hrem, hkept⟩ := trimNext_sum hn
    have hput := SortedAssoc.sumBy_put (fun v : RcvValue => v.data.length) segs (o + m) ⟨kept, now⟩
    have hlost := lost_iff hlen hnext hg (by omega) (hm.imp id And.right) hn
    rw [List.length_drop] at hkept
    dsimp only at hput
    have heq : ((stored { s with segments := segs.put (o + m) ⟨kept, now⟩ } : Nat) : Int) +
        (((segs.get? (o + m)).map fun v => v.data.length).getD 0 : Nat) = s.stored + (removed + kept.length) := by
      simp only [stored]
      omega
    refine ⟨by omega, ?_, by omega⟩
    rw [← hlost]
    omega

/-- What is handed out leaves the segments. -/
theorem removeOldestInOrder_stored (s : RcvBuffer) :
    s.removeOldestInOrder.1.stored + s.removeOldestInOrder.2.1 = s.stored := by
  obtain ⟨v, hm, hr⟩ | ⟨hr, _⟩ := s.removeOldestInOrder_cases
  · have herase := SortedAssoc.sumBy_erase (fun v : RcvValue => v.data.length) s.segments s.nextInOrderOffsetToWaitFor
    rw [SortedAssoc.get?_eq_some.mpr (SortedAssoc.min?_spec hm).1] at herase
    rw [hr]
    exact herase
  · rw [hr]
    rfl

end RcvBuffer

/-- A receive buffer's bytes: those of the segments of all its streams. -/
def ReceiveBuffer.stored (rb : ReceiveBuffer) : Nat := rb.streams.sumBy RcvBuffer.stored

/-- The window that `Conn.Flush` advertises. -/
def ReceiveBuffer.window (rb : ReceiveBuffer) : Nat := sub64 (toUint64 rb.capacity) (toUint64 rb.size)

inductive BufferOp where
  | insert (streamID offset nowNano : Nat) (userData : Bytes)
  | emptyInsert (streamID offset : Nat)
  | close (streamID closeOffset : Nat)
  | removeOldestInOrder (streamID : Nat)
  | getSndAck

/-- The data of an insert is a non-empty slice of the stream's sequence. -/
def BufferOp.Genuine (S : Nat → Bytes) : BufferOp → Prop
  | insert k o _ d => d ≠ [] ∧ IsAt (S k) o d
  | _ => True

namespace ReceiveBuffer

def step (rb : ReceiveBuffer) : BufferOp → Option ReceiveBuffer
  | .insert k o now d => (rb.insert k o now d).map Prod.fst
  | .emptyInsert k o => some (rb.emptyInsert k o).1
  | .close k o => some (rb.close k o)
  | .removeOldestInOrder k => some (rb.removeOldestInOrder k).1
  | .getSndAck => some rb.getSndAck.1

/-- No insert that the buffer has room for overwrites a segment. -/
def KeepsSegments (rb : ReceiveBuffer) : BufferOp → Prop
  | .insert k o _ d => rb.size + d.length ≤ rb.capacity → ¬ (rb.stream k).Overwrites o d.length
  | _ => True

instance (rb : ReceiveBuffer) : ∀ op, Decidable (rb.KeepsSegments op)
  | .insert .. => inferInstanceAs (Decidable (_ → _))
  | .emptyInsert .. | .close .. | .removeOldestInOrder _ | .getSndAck => inferInstanceAs (Decidable True)

/-- The counter is what the segments hold, inside the capacity, and the window is what
is free. -/
structure Accounted (rb : ReceiveBuffer) : Prop where
  size_eq : rb.size = rb.stored
  nonneg : 0 ≤ rb.size
  size_le : rb.size ≤ rb.capacity
  window_eq : rb.capacity < 2 ^ 63 → (rb.window : Int) = rb.capacity - rb.stored

variable {rb rb' : ReceiveBuffer} {k : Nat}

theorem stored_put (rb : ReceiveBuffer) (k : Nat) (s : RcvBuffer) :
    (rb.streams.put k s).sumBy RcvBuffer.stored + (rb.stream k).stored = rb.stored + s.stored := by
  have hput := InsertionMap.sumBy_put RcvBuffer.stored rb.streams k s
  have hold : ((rb.streams.get? k).map RcvBuffer.stored).getD 0 = (rb.stream k).stored := by
    unfold stream
    cases rb.streams.get? k <;> rfl
  rwa [hold] at hput

theorem insert_eq {o now : Nat} {d : Bytes} {st : RcvInsertStatus} (h : rb.insert k o now d = some (rb', st)) :
    ∃ s' delta acks, rb' = { rb with
        streams := rb.streams.put k s', size := rb.size + delta, ackList := acks } ∧
      ((rb.size + d.length > rb.capacity ∧ s' = rb.stream k ∧ delta = 0) ∨
        (rb.size + d.length ≤ rb.capacity ∧ (rb.stream k).insert o now d = some (s', delta, st))) := by
  unfold insert at h
  dsimp only at h
  split_ifs at h with hfull
  · cases h
    exact ⟨rb.stream k, 0, rb.ackList, by simp, .inl ⟨hfull, rfl, rfl⟩⟩
  · obtain ⟨⟨s', delta, st'⟩, hs, h⟩ := Option.bind_eq_some_iff.mp h
    cases h
    exact ⟨s', delta, _, rfl, .inr ⟨by omega, hs⟩⟩

/-- What holds in every run, whatever it overwrites. -/
structure Bounded (S : Nat → Bytes) (capacity : Int) (rb : ReceiveBuffer) : Prop where
  pieces : ∀ k, (rb.stream k).Pieces (S k)
  capacity_eq : rb.capacity = capacity
  size_le : 0 ≤ capacity → rb.size ≤ capacity

theorem bounded_new (S : Nat → Bytes) (capacity : Int) : Bounded S capacity (new capacity) :=
  ⟨fun _ => ⟨nofun, nofun⟩, rfl, fun h => h⟩

/-- By how much the counter is ahead of the segments. -/
def drift (rb : ReceiveBuffer) : Int := rb.size - rb.stored

variable {S : Nat → Bytes} {capacity : Int}

/-- An insert never lowers the drift, and raises it just when it overwrites a segment. -/
theorem insert_drift {o now : Nat} {d : Bytes} {st : RcvInsertStatus} (hlen : o + d.length < 2 ^ 64) (hne : d ≠ [])
    (h : rb.insert k o now d = some (rb', st)) :
    rb.drift ≤ rb'.drift ∧ (rb'.drift = rb.drift ↔ rb.KeepsSegments (.insert k o now d)) := by
  obtain ⟨s', delta, acks, rfl, hcase⟩ := insert_eq h
  have hsum := stored_put rb k s'
  have hdrift : drift { rb with streams := rb.streams.put k s', size := rb.size + delta, ackList := acks } =
      rb.size + delta - ((rb.streams.put k s').sumBy RcvBuffer.stored : Nat) := rfl
  obtain ⟨hfull, rfl, rfl⟩ | ⟨hroom, hins⟩ := hcase
  · refine ⟨?_, iff_of_true ?_ fun hle => absurd hfull (not_lt.mpr hle)⟩
    · rw [hdrift, drift]
      omega
    · rw [hdrift, drift]
      omega
  · obtain ⟨hle, hiff, _⟩ := RcvBuffer.insert_stored hlen hne hins
    have hkeeps : rb.KeepsSegments (.insert k o now d) ↔ ¬ (rb.stream k).Overwrites o d.length :=
      ⟨fun h => h hroom, fun h _ => h⟩
    refine ⟨?_, ?_⟩
    · rw [hdrift, drift]
      omega
    · rw [hdrift, drift, hkeeps, ← hiff]
      omega

theorem removeOldestInOrder_drift (rb : ReceiveBuffer) (k : Nat) : (rb.removeOldestInOrder k).1.drift = rb.drift := by
  have hfreed := (rb.stream k).removeOldestInOrder_stored
  unfold removeOldestInOrder
  cases hg : rb.streams.get? k with
  | none => rfl
  | some s =>
    have hk : rb.stream k = s := by simp [stream, hg]
    have hsum := stored_put rb k s.removeOldestInOrder.1
    rw [hk] at hsum hfreed
    change rb.size - s.removeOldestInOrder.2.1 -
      ((rb.streams.put k s.removeOldestInOrder.1).sumBy RcvBuffer.stored : Nat) = rb.size - rb.stored
    omega

theorem close_drift (rb : ReceiveBuffer) (k o : Nat) : (rb.close k o).drift = rb.drift := by
  have hsum := stored_put rb k ((rb.stream k).close o)
  have hsame : ((rb.stream k).close o).stored = (rb.stream k).stored := by
    rw [RcvBuffer.close_eq]
    rfl
  rw [hsame] at hsum
  change rb.size - ((rb.streams.put k ((rb.stream k).close o)).sumBy RcvBuffer.stored : Nat) = rb.size - rb.stored
  omega

theorem insert_bounded (hi : Bounded S capacity rb) {o now : Nat} {d : Bytes} {st : RcvInsertStatus}
    (hlen : o + d.length < 2 ^ 64) (hg : d ≠ [] ∧ IsAt (S k) o d) (h : rb.insert k o now d = some (rb', st)) :
    Bounded S capacity rb' := by
  obtain ⟨s', delta, acks, rfl, hcase⟩ := insert_eq h
  have hpieces : s'.Pieces (S k) → ∀ j, (stream { rb with
      streams := rb.streams.put k s', size := rb.size + delta, ackList := acks } j).Pieces (S j) := by
    intro hs j
    have hj : stream { rb with streams := rb.streams.put k s', size := rb.size + delta, ackList := acks } j =
      if j = k then s' else rb.stream j := stream_put rb k j s'
    rw [hj]
    split_ifs with hjk
    · exact hjk ▸ hs
    · exact hi.pieces j
  obtain ⟨hfull, rfl, rfl⟩ | ⟨hroom, hins⟩ := hcase
  · refine ⟨hpieces (hi.pieces k), hi.capacity_eq, fun h0 => ?_⟩
    have := hi.size_le h0
    dsimp only
    omega
  · have hdelta := (RcvBuffer.insert_stored hlen hg.1 hins).2.2
    refine ⟨hpieces ((hi.pieces k).insert hg.1 hg.2 hins), hi.capacity_eq, fun _ => ?_⟩
    have := hi.capacity_eq
    dsimp only
    omega

theorem remove_bounded (hi : Bounded S capacity rb) (k : Nat) : Bounded S capacity (rb.removeOldestInOrder k).1 := by
  have hstr := rb.removeOldestInOrder_stream k
  have hpieces : ∀ j, ((rb.removeOldestInOrder k).1.stream j).Pieces (S j) := by
    intro j
    rw [hstr j]
    split_ifs with hj
    · subst hj
      refine (hi.pieces j).sub fun e he => ?_
      obtain ⟨v, _, hr⟩ | ⟨hr, _⟩ := (rb.stream j).removeOldestInOrder_cases
      · rw [hr] at he
        exact (SortedAssoc.mem_erase.mp he).2
      · rw [hr] at he
        exact he
    · exact hi.pieces j
  unfold removeOldestInOrder at hpieces ⊢
  cases hg : rb.streams.get? k with
  | none => exact hi
  | some s =>
    rw [hg] at hpieces
    refine ⟨hpieces, hi.capacity_eq, fun h0 => ?_⟩
    have := hi.size_le h0
    dsimp only
    omega

theorem close_bounded (hi : Bounded S capacity rb) (k o : Nat) : Bounded S capacity (rb.close k o) := by
  refine ⟨fun j => ?_, hi.capacity_eq, hi.size_le⟩
  rw [close_stream, RcvBuffer.close_eq]
  split_ifs with hj
  · subst hj
    exact (hi.pieces j).sub fun e he => he
  · exact hi.pieces j

/-- One operation never lowers the drift, and raises it just when it overwrites a segment. -/
theorem step_drift (hS : ∀ k, (S k).length < 2 ^ 64) (rb : ReceiveBuffer) (op : BufferOp) (rb' : ReceiveBuffer)
    (hi : Bounded S capacity rb) (hg : op.Genuine S) (h : rb.step op = some rb') :
    Bounded S capacity rb' ∧ rb.drift ≤ rb'.drift ∧ (rb'.drift = rb.drift ↔ rb.KeepsSegments op) := by
  have hsame : Bounded S capacity rb' ∧ rb'.drift = rb.drift → rb.KeepsSegments op →
      Bounded S capacity rb' ∧ rb.drift ≤ rb'.drift ∧ (rb'.drift = rb.drift ↔ rb.KeepsSegments op) :=
    fun ⟨hb, heq⟩ hk => ⟨hb, heq.ge, iff_of_true heq hk⟩
  cases op with
  | insert k o now d =>
    obtain ⟨⟨rb₁, st⟩, hr, rfl⟩ := Option.map_eq_some_iff.mp h
    have hlen : o + d.length < 2 ^ 64 := (hg.2.end_le hg.1).trans_lt (hS k)
    exact ⟨insert_bounded hi hlen hg hr, insert_drift hlen hg.1 hr⟩
  | emptyInsert k o =>
    cases h
    exact hsame ⟨⟨hi.pieces, hi.capacity_eq, hi.size_le⟩, rfl⟩ trivial
  | close k o =>
    cases h
    exact hsame ⟨close_bounded hi k o, close_drift rb k o⟩ trivial
  | removeOldestInOrder k =>
    cases h
    exact hsame ⟨remove_bounded hi k, removeOldestInOrder_drift rb k⟩ trivial
  | getSndAck =>
    cases h
    unfold getSndAck at hsame ⊢
    cases hacks : rb.ackList with
    | nil => exact ⟨hi, le_rfl, iff_of_true rfl trivial⟩
    | cons a acks => exact ⟨⟨hi.pieces, hi.capacity_eq, hi.size_le⟩, le_rfl, iff_of_true rfl trivial⟩

theorem run_bounded (hS : ∀ k, (S k).length < 2 ^ 64) {ops : List BufferOp} (hgen : ∀ op ∈ ops, op.Genuine S)
    (hrun : run step (new capacity) ops = some rb) : Bounded S capacity rb :=
  run_inv_along (fun s op t hi hg h => (step_drift hS s op t hi hg h).1) (bounded_new S capacity)
    (along_of_forall hgen) hrun

theorem window_of_accounted (hsize : rb.size = rb.stored) (hle : rb.size ≤ rb.capacity) (hcap : rb.capacity < 2 ^ 63) :
    (rb.window : Int) = rb.capacity - rb.stored := by
  obtain ⟨c, hc⟩ := Int.eq_ofNat_of_zero_le (show 0 ≤ rb.capacity by omega)
  unfold window
  rw [hsize, hc, toUint64_natCast (by omega), toUint64_natCast (by omega), sub64_of_le (by omega) (by omega)]
  omega

/-- A run keeps the accounts just when none of its inserts overwrites a segment. -/
theorem accounted_iff (S : Nat → Bytes) (hS : ∀ k, (S k).length < 2 ^ 64) (capacity : Int) (ops : List BufferOp)
    (hgen : ∀ op ∈ ops, op.Genuine S) (rb : ReceiveBuffer) (hrun : run step (new capacity) ops = some rb) :
    rb.Accounted ↔ 0 ≤ capacity ∧ Along step KeepsSegments (new capacity) ops := by
  obtain ⟨hle, hiff⟩ := run_measure_along (step_drift hS) (bounded_new S capacity) hgen hrun
  have hb := run_bounded hS hgen hrun
  have hzero : rb.drift = (new capacity).drift ↔ rb.size = rb.stored := by
    change rb.size - (rb.stored : Int) = 0 - 0 ↔ _
    omega
  rw [← hiff, hzero]
  constructor
  · intro h
    have h1 := h.nonneg
    have h2 := h.size_le
    rw [hb.capacity_eq] at h2
    exact ⟨h1.trans h2, h.size_eq⟩
  · rintro ⟨h0, hsize⟩
    have hcap := hb.size_le h0
    rw [← hb.capacity_eq] at hcap
    exact ⟨hsize, by omega, hcap, window_of_accounted hsize hcap⟩

/-- Packets [0, 5) and [5, 10) are stored before one that starts in the first and ends
in the second. -/
def acrossBoth : List BufferOp :=
  [.insert 0 0 1 [0, 1, 2, 3, 4], .insert 0 5 2 [5, 6, 7, 8, 9], .insert 0 2 3 [2, 3, 4, 5, 6]]

/-- Five bytes are stored and ten are counted. -/
theorem acrossBoth_drifts :
    (∀ op ∈ acrossBoth, op.Genuine fun _ => [0, 1, 2, 3, 4, 5, 6, 7, 8, 9]) ∧
    ∃ rb, run step (new 100) acrossBoth = some rb ∧ rb.size = 10 ∧ rb.stored = 5 ∧ rb.window = 90 ∧
      ¬ rb.Accounted := by
  refine ⟨by simp [acrossBoth, BufferOp.Genuine, IsAt], _, rfl, rfl, rfl, rfl, fun h => ?_⟩
  exact absurd h.size_eq (by decide)

/-- The packet between the two arrives before the second one. -/
def inOrder : List BufferOp :=
  [.insert 0 0 1 [0, 1, 2, 3, 4], .insert 0 2 2 [2, 3, 4, 5, 6], .insert 0 5 3 [5, 6, 7, 8, 9],
    .removeOldestInOrder 0]

theorem inOrder_accounted : ∃ rb, run step (new 100) inOrder = some rb ∧ rb.size = 5 ∧ rb.Accounted := by
  have hgen : ∀ op ∈ inOrder, op.Genuine fun _ => [0, 1, 2, 3, 4, 5, 6, 7, 8, 9] := by
    simp [inOrder, BufferOp.Genuine, IsAt]
  exact ⟨_, rfl, rfl, (accounted_iff (fun _ => [0, 1, 2, 3, 4, 5, 6, 7, 8, 9]) (fun _ => by decide) 100 inOrder hgen _
    rfl).mpr ⟨by decide, by decide⟩⟩

end ReceiveBuffer

end Qotp
