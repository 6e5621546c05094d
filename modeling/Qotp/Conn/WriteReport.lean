import Qotp.Conn.Endpoint
import Qotp.Conn.NonceUse

namespace Qotp

open Framework

variable {Prv Pub : Type}

namespace Conn

/-- `Write` takes data for the stream. -/
def Writable (c : Conn Prv Pub) (s : Stream) : Prop :=
  s.closedAtNano = 0 ∧ c.snd.getOffsetClosedAt s.streamID = none

/-- All of the data is queued, but the reader cannot be woken up: `Write` returns 0 and the error. -/
def Unreported (c : Conn Prv Pub) (s : Stream) (d : Bytes) (wake : WriteResult) : Prop :=
  c.Writable s ∧ d ≠ [] ∧ c.snd.size + d.length ≤ c.snd.capacity ∧ wake ≠ .ok ()

/-- The buffer holds more than its capacity, and `Write` ends in a slice out of bounds. -/
def Overfull (c : Conn Prv Pub) (s : Stream) (d : Bytes) : Prop :=
  c.Writable s ∧ d ≠ [] ∧ c.snd.capacity < c.snd.size

/-- What a call of `Write` has queued, `m` bytes, beside what it returns. -/
structure Wrote (c : Conn Prv Pub) (s : Stream) (d : Bytes) (c' : Conn Prv Pub) (m : Nat) : Prop where
  le : m ≤ d.length
  queued : ∀ j, c'.snd.stream j =
    if j = s.streamID then (c.snd.stream s.streamID).queue (d.take m) else c.snd.stream j

/-- `Write` returns, the queue of the stream has grown by exactly the first `n` bytes for the
returned `n`, and behind an error the send buffer is as it was. -/
def ReportsQueued (c : Conn Prv Pub) (s : Stream) (d : Bytes) (wake : WriteResult) : Prop :=
  ∃ c' n err, c.write s d wake = some (c', n, err) ∧ Wrote c s d c' n ∧ (err.isSome → c'.snd = c.snd)

variable {c c' : Conn Prv Pub} {s : Stream} {d : Bytes} {wake : WriteResult} {n : Nat} {err : Option IoError}

theorem wrote_zero (c : Conn Prv Pub) (s : Stream) (d : Bytes) : Wrote c s d c 0 := by
  refine ⟨Nat.zero_le _, ?_⟩
  intro j
  by_cases hj : j = s.streamID
  · simp [hj, StreamBuffer.queue]
  · simp [hj]

/-- Two counts for one change of the queue agree. -/
theorem Wrote.unique {m : Nat} (h : Wrote c s d c' m) (h' : Wrote c s d c' n) : n = m := by
  have hq := (h.queued s.streamID).symm.trans (h'.queued s.streamID)
  have hlen := congrArg (fun t => t.queuedData.length) hq
  simp only [if_true, StreamBuffer.queue, List.length_append, List.length_take_of_le h.le,
    List.length_take_of_le h'.le] at hlen
  omega

theorem Wrote.queuedBy {m : Nat} (h : Wrote c s d c' m) : c.queuedBy c' s.streamID d = d.take m := by
  unfold Conn.queuedBy
  rw [h.queued s.streamID]
  simp only [if_true, StreamBuffer.queue, List.length_append, List.length_take_of_le h.le]
  simp

theorem write_of_not_writable (h : ¬ c.Writable s) : c.write s d wake = some (c, 0, some .unexpectedEof) := by
  have hclosed : s.closedAtNano ≠ 0 ∨ (c.snd.getOffsetClosedAt s.streamID).isSome := by
    by_contra hno
    rw [not_or, not_not, Option.not_isSome_iff_eq_none] at hno
    exact h hno
  rw [write, if_pos hclosed]

theorem write_of_writable (h : c.Writable s) (hd : d ≠ []) :
    c.write s d wake = (c.snd.queueData s.streamID d).map fun r =>
      ({ c with snd := r.1 },
        if r.2.2 = .ok then (match wake with | .error e => (0, some (.net e)) | .ok _ => (r.2.1, none))
        else (r.2.1, none)) := by
  have hopen : ¬ (s.closedAtNano ≠ 0 ∨ (c.snd.getOffsetClosedAt s.streamID).isSome) := by
    simp [h.1, h.2]
  rw [write, if_neg hopen, if_neg (by simpa using hd)]
  cases c.snd.queueData s.streamID d with
  | none => rfl
  | some r =>
    obtain ⟨snd, n, st⟩ := r
    by_cases hst : st = .ok
    · cases wake <;> simp [hst]
    · simp [hst]

theorem write_nil (h : c.Writable s) : c.write s [] wake = some (c, 0, none) := by
  have hopen : ¬ (s.closedAtNano ≠ 0 ∨ (c.snd.getOffsetClosedAt s.streamID).isSome) := by
    simp [h.1, h.2]
  rw [write, if_neg hopen, if_pos (by simp)]

/-- The send buffer takes what there is room for, and says so if that is all of `d`. -/
theorem wrote_of_queueData {snd : SendBuffer} {m : Nat} {st : InsertStatus} (hd : d ≠ [])
    (hq : c.snd.queueData s.streamID d = some (snd, m, st)) :
    Wrote c s d { c with snd := snd } m ∧
      if c.snd.size + d.length ≤ c.snd.capacity then st = .ok ∧ m = d.length else st ≠ .ok := by
  have hcap : c.snd.size ≤ c.snd.capacity := by
    by_contra hlt
    rw [SendBuffer.queueData_eq_none.mpr ⟨hd, not_le.mp hlt⟩] at hq
    cases hq
  obtain ⟨sb', st', hq', _, _, hst⟩ := SendBuffer.queueData_eq hcap s.streamID d
  cases hq.symm.trans hq'
  refine ⟨⟨min_le_left _ _, SendBuffer.queueData_stream hq⟩, ?_⟩
  split_ifs with hfits
  · exact ⟨hst.mpr ⟨hd, hfits⟩, by omega⟩
  · exact fun hok => hfits (hst.mp hok).2

/-- What a call does: it queues the bytes it returns, or all of them and reports none. -/
theorem write_outcome (h : c.write s d wake = some (c', n, err)) :
    ∃ m, Wrote c s d c' m ∧
      ((¬ c.Unreported s d wake ∧ n = m ∧ (err.isSome → c'.snd = c.snd)) ∨
      (c.Unreported s d wake ∧ n = 0 ∧ m = d.length ∧ err.isSome)) := by
  by_cases hw : c.Writable s
  · by_cases hd : d = []
    · subst hd
      rw [write_nil hw] at h
      cases h
      refine ⟨0, wrote_zero c s [], .inl ⟨?_, rfl, fun _ => rfl⟩⟩
      intro hu
      exact hu.2.1 rfl
    · rw [write_of_writable hw hd] at h
      obtain ⟨⟨snd, m, st⟩, hq, h⟩ := Option.map_eq_some_iff.mp h
      obtain ⟨hwrote, hst⟩ := wrote_of_queueData hd hq
      split_ifs at hst with hfits
      · obtain ⟨rfl, rfl⟩ := hst
        cases wake with
        | ok _ =>
          cases h
          refine ⟨_, hwrote, .inl ⟨?_, rfl, nofun⟩⟩
          intro hu
          exact hu.2.2.2 rfl
        | error e =>
          cases h
          exact ⟨_, hwrote, .inr ⟨⟨hw, hd, hfits, nofun⟩, rfl, rfl, rfl⟩⟩
      · rw [if_neg hst] at h
        cases h
        refine ⟨_, hwrote, .inl ⟨?_, rfl, nofun⟩⟩
        intro hu
        exact hfits hu.2.2.1
  · rw [write_of_not_writable hw] at h
    cases h
    refine ⟨0, wrote_zero c s d, .inl ⟨?_, rfl, fun _ => rfl⟩⟩
    intro hu
    exact hw hu.1

theorem write_eq_none : c.write s d wake = none ↔ c.Overfull s d := by
  by_cases hw : c.Writable s
  · by_cases hd : d = []
    · simp [write, Overfull, hd, hw.1, hw.2]
    · rw [write_of_writable hw hd, Option.map_eq_none_iff, SendBuffer.queueData_eq_none]
      simp [Overfull, hw]
  · simp [write_of_not_writable hw, Overfull, hw]

theorem reportsQueued_iff :
    c.ReportsQueued s d wake ↔ ¬ c.Overfull s d ∧ ¬ c.Unreported s d wake := by
  constructor
  · rintro ⟨c', n, err, h, hwrote, herr⟩
    refine ⟨fun hover => ?_, fun hun => ?_⟩
    · rw [write_eq_none.mpr hover] at h
      cases h
    · obtain ⟨m, hm, ⟨hno, _⟩ | ⟨_, rfl, hall, _⟩⟩ := write_outcome h
      · exact hno hun
      · have hzero := hm.unique hwrote
        exact hun.2.1 (List.length_eq_zero_iff.mp (by omega))
  · rintro ⟨hover, hun⟩
    cases h : c.write s d wake with
    | none => exact absurd (write_eq_none.mp h) hover
    | some r =>
      obtain ⟨c', n, err⟩ := r
      obtain ⟨m, hm, ⟨_, rfl, herr⟩ | ⟨hu, _⟩⟩ := write_outcome h
      · exact ⟨c', n, err, h, hm, herr⟩
      · exact absurd hu hun

end Conn

/-- One call of `Write`, in any state of the connection and of the stream. -/
structure WriteCall (Prv Pub : Type) where
  conn : Conn Prv Pub
  stream : Stream
  wake : WriteResult

/-- A caller that goes on behind the returned count: what its calls have put into the queue, and
what it still has to write. -/
structure Caller where
  queued : Bytes := []
  rest : Bytes

namespace Caller

def write (w : Caller) (call : WriteCall Prv Pub) : Option Caller :=
  (call.conn.write call.stream w.rest call.wake).map fun r =>
    ⟨w.queued ++ call.conn.queuedBy r.1 call.stream.streamID w.rest, w.rest.drop r.2.1⟩

/-- The count of the call is what it has queued. -/
def Reported (w : Caller) (call : WriteCall Prv Pub) : Prop :=
  ¬ call.conn.Unreported call.stream w.rest call.wake

variable {w w' : Caller} {call : WriteCall Prv Pub}

theorem write_step (h : w.write call = some w') :
    (w.queued.length + w.rest.length : Int) ≤ w'.queued.length + w'.rest.length ∧
    ((w'.queued.length + w'.rest.length : Int) = w.queued.length + w.rest.length ↔ w.Reported call) ∧
    (w.Reported call → w'.queued ++ w'.rest = w.queued ++ w.rest) := by
  obtain ⟨⟨c', n, err⟩, hw, rfl⟩ := Option.map_eq_some_iff.mp h
  obtain ⟨m, hm, ⟨hrep, rfl, _⟩ | ⟨hun, rfl, rfl, _⟩⟩ := Conn.write_outcome hw
  · have hle := hm.le
    simp only [hm.queuedBy, List.length_append, List.length_take_of_le hle, List.length_drop]
    refine ⟨by omega, iff_of_true (by omega) hrep, fun _ => ?_⟩
    rw [List.append_assoc, List.take_append_drop]
  · have hpos := List.length_pos_iff.mpr hun.2.1
    simp only [hm.queuedBy, List.length_append, List.take_length, List.drop_zero]
    refine ⟨by omega, iff_of_false (by omega) fun hrep => hrep hun, fun hrep => absurd hun hrep⟩

/-- The caller has queued a beginning of its data and holds the rest just when every call reported
what it queued. -/
theorem run_iff {d : Bytes} {calls : List (WriteCall Prv Pub)} (h : run write { rest := d } calls = some w) :
    w.queued ++ w.rest = d ↔ Along write Reported { rest := d } calls := by
  have hstep : ∀ (w : Caller) (call : WriteCall Prv Pub) w', True → True → w.write call = some w' → True ∧
      (w.queued.length + w.rest.length : Int) ≤ w'.queued.length + w'.rest.length ∧
      ((w'.queued.length + w'.rest.length : Int) = w.queued.length + w.rest.length ↔ w.Reported call) := by
    intro w call w' _ _ hw
    exact ⟨trivial, (write_step hw).1, (write_step hw).2.1⟩
  have hiff := (run_measure_along hstep trivial (fun _ _ => trivial) h).2
  constructor
  · intro heq
    apply hiff.mp
    have hlen := congrArg List.length heq
    rw [List.length_append] at hlen
    simp only [List.length_nil]
    omega
  · intro hal
    have hinv : ∀ (w : Caller) (call : WriteCall Prv Pub) w', w.queued ++ w.rest = d → w.Reported call →
        w.write call = some w' → w'.queued ++ w'.rest = d := by
      intro w call w' heq hrep hw
      rw [(write_step hw).2.2 hrep, heq]
    exact run_inv_along hinv rfl hal h

/-- `Write` has queued just the bytes that it reports, and nothing where it reports an error, unless
it meets a buffer beyond its capacity or cannot wake the reader up once all of the data is queued. A
caller that goes on behind the reported count neither repeats nor skips a byte just when no such wake-up
failed. -/
theorem write_reports_queued_iff :
    (∀ (c : Conn Prv Pub) (s : Stream) (d : Bytes) (wake : WriteResult),
      c.ReportsQueued s d wake ↔ ¬ c.Overfull s d ∧ ¬ c.Unreported s d wake) ∧
    ∀ (d : Bytes) (calls : List (WriteCall Prv Pub)) (w : Caller), run write { rest := d } calls = some w →
      (w.queued ++ w.rest = d ↔ Along write Reported { rest := d } calls) := by
  constructor
  · intro c s d wake
    exact Conn.reportsQueued_iff
  · intro d calls w h
    exact run_iff h

section Example

/-- A connection whose send buffer takes `n` more bytes. -/
def plainConnWith (n : Int) : Conn UInt8 UInt8 := { Ends.plainConn true with snd := .new n }

/-- Two bytes fit, and then one more. -/
def shortWrite : List (WriteCall UInt8 UInt8) :=
  [⟨plainConnWith 2, { streamID := 5 }, .ok ()⟩, ⟨plainConnWith 1, { streamID := 5 }, .ok ()⟩]

theorem shortWrite_goes_on :
    ∃ w, run write { rest := [1, 2, 3] } shortWrite = some w ∧ w.queued ++ w.rest = [1, 2, 3] ∧ w.rest = [] := by
  have hreported : Along write Reported { rest := [1, 2, 3] } shortWrite := by
    refine ⟨fun hu => hu.2.2.2 rfl, fun t _ => ⟨fun hu => hu.2.2.2 rfl, fun _ _ => trivial⟩⟩
  refine ⟨_, rfl, ?_, rfl⟩
  exact (write_reports_queued_iff.2 [1, 2, 3] shortWrite _ rfl).mpr hreported

/-- The wake-up fails behind the queued byte: the call reports none, and the caller queues it again. -/
theorem failedWake_repeats :
    ∃ c c' : Conn UInt8 UInt8, (plainConnWith 2).write { streamID := 5 } [1] (.error "deadline") =
        some (c, 0, some (.net "deadline")) ∧
      (c.snd.stream 5).queuedData = [1] ∧
      c.write { streamID := 5 } [1] (.ok ()) = some (c', 1, none) ∧ (c'.snd.stream 5).queuedData = [1, 1] ∧
      run write { rest := [1] }
        [⟨plainConnWith 2, { streamID := 5 }, .error "deadline"⟩, ⟨c, { streamID := 5 }, .ok ()⟩] =
          some ⟨[1, 1], []⟩ := by
  refine ⟨_, _, rfl, rfl, rfl, rfl, rfl⟩

end Example

end Caller

end Qotp
