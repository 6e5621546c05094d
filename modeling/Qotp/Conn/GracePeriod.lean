import Qotp.Conn.StableIds

namespace Qotp

open Framework

variable {Prv Pub : Type} (P : Primitives Prv Pub)

namespace Listener

variable {l : Listener Prv Pub} {now closedAtNano : Nat} {v : Nat × Nat}

/-- The stream at which the loop of `Flush` ends. -/
def LoopEnd.last : LoopEnd → List (Nat × Nat)
  | .sent v | .closed v => [v]
  | .through => []

/-- A stream of a connection on the receiving side, closed at the time `closedAtNano`. -/
def ClosedOnRcv (l : Listener Prv Pub) (v : Nat × Nat) (closedAtNano : Nat) : Prop :=
  closedAtNano ≠ 0 ∧ ∃ conn stream, l.connMap.get? v.1 = some conn ∧ conn.isSenderOnInit = false ∧
    conn.streams.get? v.2 = some stream ∧ stream.closedAtNano = closedAtNano

theorem ClosedOnRcv.streamAt (h : l.ClosedOnRcv v closedAtNano) : (l.streamAt v).isSome := by
  obtain ⟨_, conn, stream, hconn, _, hstream, _⟩ := h
  rw [Listener.streamAt, hconn, Option.bind_some, hstream]
  rfl

/-- The comparison is the wrong way round: the mark is set during the grace period. -/
theorem ClosedOnRcv.closing (h : l.ClosedOnRcv v closedAtNano) :
    l.closing now v = decide (add64 closedAtNano readDeadLine > now) := by
  obtain ⟨hne, conn, stream, hconn, hrole, hstream, rfl⟩ := h
  simp [Listener.closing, hconn, hrole, hstream, hne]

end Listener

namespace RoundRobin

open Listener Memory

variable {s : RoundRobin Prv Pub} {now : Nat} {writes : Nat × Nat → WriteResult} {rank : Nat → Nat}
  {f : Flushed Prv Pub} {v : Nat × Nat}

/-- The loop of `Flush` comes to the stream: it passes over it or ends there. -/
def Reaches (s : RoundRobin Prv Pub) (now : Nat) (writes : Nat × Nat → WriteResult) (v : Nat × Nat) : Prop :=
  ∃ pre e, s.LoopEndsAt P now writes s.visits pre e ∧ v ∈ pre ++ e.last

/-- The loop passes over the stream, and of its connection marks it the last. -/
def MarksLast (s : RoundRobin Prv Pub) (now : Nat) (writes : Nat × Nat → WriteResult) (v : Nat × Nat) : Prop :=
  ∃ pre e, s.LoopEndsAt P now writes s.visits pre e ∧ s.lastClosing now pre v.1 = some v.2

theorem marksLast_iff {r : Round Prv Pub} (hk : s.Keyed)
    (hr : Round.serve P now writes { listener := s.toListener } s.visits = some r) :
    s.MarksLast P now writes v ↔ r.closeStream.get? v.1 = some v.2 := by
  have hmarks : ∀ {pre e}, s.LoopEndsAt P now writes s.visits pre e →
      r.closeStream.get? v.1 = s.lastClosing now pre v.1 := by
    intro pre e he
    obtain ⟨r', hr', hg⟩ := Round.serve_of_endsAt P (r := { listener := s.toListener }) hk he
    obtain rfl : r = r' := Option.some.inj (hr.symm.trans hr')
    rw [hg.closeStream, marks_get?]
  constructor
  · rintro ⟨pre, e, he, hlast⟩
    exact (hmarks he).trans hlast
  · intro hmark
    obtain ⟨pre, e, he⟩ := Round.serve_endsAt P hr
    exact ⟨pre, e, he, (hmarks he).symm.trans hmark⟩

variable {P} in
/-- A stream of a connection that stays goes just when it is the last one marked. -/
theorem flush_keeps_iff (hk : s.Keyed) (hf : s.flush P now writes rank = some f) (hs : (s.streamAt v).isSome)
    (hkept : v.1 ∈ f.listener.connMap.keys) : (f.listener.streamAt v).isSome ↔ ¬ s.MarksLast P now writes v := by
  have hsize := size_ne_zero (mem_keys_of_streamAt hs)
  obtain ⟨r, hr, _, _, _, hg⟩ := flush_gathered P hsize hk hf
  obtain ⟨f', hflush, hmem, hlistener, _⟩ := flush_eq P hsize hr rank
  obtain rfl : f' = f := Option.some.inj (hflush.symm.trans hf)
  obtain ⟨hwrites, hnone⟩ := cleanupConns_connWrite hg
  -- the cleanup leaves the keys of the objects as they are
  have hkeys : (r.closeConn.foldl cleanupConn (s.behind r)).streamKeysAt v.1 = s.streamKeysAt v.1 :=
    (hwrites.streamKeysAt v.1).trans (hg.same.streamKeysAt v.1)
  have hin : v.2 ∈ s.streamKeysAt v.1 := mem_streamKeysAt.mpr hs
  have hgone : v ∈ f'.memory.removedStreams ↔ s.MarksLast P now writes v := by
    rw [hmem, mem_cleanupStreams, hnone, hkeys, mem_inOrder, marksLast_iff P hk hr]
    simp [hin]
  have hthere : (f'.memory.streamAt v).isSome := by
    rw [← mem_streamKeysAt, hmem, (cleanupStreams_streamWrite _ _).streamKeys, hkeys]
    exact hin
  have hconn : v.1 ∉ f'.memory.removedConns := by
    rw [hlistener, tables_keys] at hkept
    simpa using (List.mem_filter.mp hkept).2
  rw [hlistener, tables_streamAt, ← hgone]
  by_cases hv : v ∈ f'.memory.removedStreams
  · rw [if_pos (.inr hv)]
    simp [hv]
  · rw [if_neg (by simp [hconn, hv])]
    exact iff_of_true hthere hv

end RoundRobin

/-- A call of `Listener.Flush` that returns, from a state with every object under its own id. -/
structure FlushCall where
  before : RoundRobin Prv Pub
  now : Nat
  writes : Nat × Nat → WriteResult
  rank : Nat → Nat
  after : Flushed Prv Pub
  keyed : before.Keyed
  returned : before.flush P now writes rank = some after

namespace FlushCall

open Listener

variable {P} {v : Nat × Nat} {closedAtNano : Nat}

/-- The stream is there, closed, and its connection is not removed. -/
def HoldsClosed (call : FlushCall P) (v : Nat × Nat) (closedAtNano : Nat) : Prop :=
  call.before.ClosedOnRcv v closedAtNano ∧ v.1 ∈ call.after.listener.connMap.keys

/-- Over the calls of a run the stream stays for the grace period, and some call removes
it once one comes to it behind the period. -/
structure GracePeriod {ι : Type} [LE ι] (calls : ι → FlushCall P) (v : Nat × Nat) (closedAtNano : Nat) : Prop where
  keeps : ∀ i, (calls i).HoldsClosed v closedAtNano → (calls i).now < closedAtNano + readDeadLine →
    ((calls i).after.listener.streamAt v).isSome
  removes : ∀ i, (calls i).HoldsClosed v closedAtNano → closedAtNano + readDeadLine ≤ (calls i).now →
    (calls i).before.Reaches P (calls i).now (calls i).writes v →
    ∃ j, i ≤ j ∧ (calls j).HoldsClosed v closedAtNano ∧ (calls j).after.listener.streamAt v = none

/-- The loop marks another stream of the connection behind this one or none, while the
period lasts; afterwards it does not come to this one. -/
def Spares (call : FlushCall P) (v : Nat × Nat) (closedAtNano : Nat) : Prop :=
  if call.now < closedAtNano + readDeadLine then ¬ call.before.MarksLast P call.now call.writes v
  else ¬ call.before.Reaches P call.now call.writes v

theorem HoldsClosed.kept_iff {call : FlushCall P} (h : call.HoldsClosed v closedAtNano) :
    (call.after.listener.streamAt v).isSome ↔ ¬ call.before.MarksLast P call.now call.writes v :=
  RoundRobin.flush_keeps_iff call.keyed call.returned h.1.streamAt h.2

/-- Behind the period no call removes the stream. -/
theorem HoldsClosed.kept_late {call : FlushCall P} (h : call.HoldsClosed v closedAtNano)
    (hlate : closedAtNano + readDeadLine ≤ call.now) : (call.after.listener.streamAt v).isSome := by
  refine h.kept_iff.mpr ?_
  rintro ⟨pre, e, _, hmark⟩
  have hclosing := closing_of_lastClosing hmark
  rw [h.1.closing, decide_eq_true_eq, add64] at hclosing
  exact absurd (hclosing.trans_le (Nat.mod_le _ _)) (Nat.not_lt.mpr hlate)

/-- The grace period is kept just when no call of the run meets the stream. -/
theorem grace_period_iff {ι : Type} [LE ι] (calls : ι → FlushCall P) (v : Nat × Nat) (closedAtNano : Nat) :
    GracePeriod calls v closedAtNano ↔
      ∀ i, (calls i).HoldsClosed v closedAtNano → (calls i).Spares v closedAtNano := by
  constructor
  · intro h i hi
    unfold Spares
    split_ifs with hearly
    · exact hi.kept_iff.mp (h.keeps i hi hearly)
    · intro hreach
      obtain ⟨j, _, hj, hgone⟩ := h.removes i hi (Nat.not_lt.mp hearly) hreach
      have hkept : ((calls j).after.listener.streamAt v).isSome := by
        by_cases hj' : (calls j).now < closedAtNano + readDeadLine
        · exact h.keeps j hj hj'
        · exact hj.kept_late (Nat.not_lt.mp hj')
      rw [hgone] at hkept
      cases hkept
  · intro h
    refine ⟨fun i hi hearly => hi.kept_iff.mpr ?_, fun i hi hlate hreach => ?_⟩
    · have hi' := h i hi
      rwa [Spares, if_pos hearly] at hi'
    · have hi' := h i hi
      rw [Spares, if_neg (Nat.not_lt.mpr hlate)] at hi'
      exact absurd hreach hi'

end FlushCall

namespace RoundRobin

open Listener

/-- Stream 5 of connection 1 was closed at the time 1, on the receiving side. -/
def closedOnRcv : RoundRobin UInt8 UInt8 :=
  { prvKeyId := 7, mtu := 1400
    connMap := InsertionMap.empty.put 1 { oneStream 1 5 1 [] with
      isSenderOnInit := false, snd := (SendBuffer.new sndBufferCapacity).close 5 } }

theorem closedOnRcv_keyed : closedOnRcv.Keyed := by
  intro k c hc
  simp only [closedOnRcv, InsertionMap.get?_put] at hc
  split_ifs at hc with hk
  · cases hc
    exact ⟨hk.symm, (oneStream_keyed 1 5 1 []).2⟩
  · cases hc

def closedOnRcvCall (now : Nat) (h : (closedOnRcv.flush plain now (fun _ => .ok ()) fun _ => 0).isSome) :
    FlushCall plain where
  before := closedOnRcv
  now := now
  writes := fun _ => .ok ()
  rank := fun _ => 0
  after := (closedOnRcv.flush plain now (fun _ => .ok ()) fun _ => 0).get h
  keyed := closedOnRcv_keyed
  returned := (Option.some_get h).symm

/-- The first call behind the close removes the stream; 30 seconds later it stays. -/
theorem grace_period_reversed :
    ¬ FlushCall.GracePeriod (fun _ : Unit => closedOnRcvCall 2 rfl) (1, 5) 1 ∧
    ¬ FlushCall.GracePeriod (fun _ : Unit => closedOnRcvCall 30000000001 rfl) (1, 5) 1 := by
  have hholds : closedOnRcv.ClosedOnRcv (1, 5) 1 := ⟨nofun, _, _, rfl, rfl, rfl, rfl⟩
  constructor
  · intro h
    exact Bool.false_ne_true (h.keeps () ⟨hholds, by decide⟩ (by decide))
  · intro h
    obtain ⟨_, _, _, hgone⟩ := h.removes () ⟨hholds, by decide⟩ (by decide)
      ⟨[(1, 5)], .through, ⟨rfl, _, (reached_cons plain).mpr ⟨_, _, _, rfl, .inr ⟨rfl, rfl⟩,
        (reached_nil plain).mpr rfl⟩⟩, by decide⟩
    cases hgone

end RoundRobin

end Qotp
