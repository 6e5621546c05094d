import Qotp.Conn.ListenerFlush
import Qotp.Crypto.Plain
import Qotp.Framework.Run

namespace Qotp

open Framework

variable {Prv Pub : Type} (P : Primitives Prv Pub)

/-- What one iteration of `Loop` gets from outside: the socket read with the key generated for
it, the callback with what it does to the listener, the two times, the socket writes of
`Flush` and the order of its range. -/
structure Turn (Prv Pub : Type) where
  read : ReadResult
  fresh : Except String Prv
  listenAt : Nat
  callback : RoundRobin Prv Pub → Option (Nat × Nat) → RoundRobin Prv Pub × Except String Bool
  flushAt : Nat
  writes : Nat × Nat → WriteResult
  rank : Nat → Nat

/-- Where `Loop` is behind some iterations: `calls` are the streams given to the callback, and
`stopped` says that a break was reached. -/
structure Looped (Prv Pub : Type) where
  state : RoundRobin Prv Pub
  waitNextNano : Nat := minDeadLine
  calls : List (Option (Nat × Nat)) := []
  stopped : Bool := false

namespace RoundRobin

def setListener (s : RoundRobin Prv Pub) (l : Listener Prv Pub) : RoundRobin Prv Pub :=
  ⟨l, s.currentConnID, s.currentStreamID⟩

/-- `Listener.Loop` over a sequence of iterations. The socket waits `waitNextNano` for the next
read; what it returns is part of the iteration. -/
def loop : Looped Prv Pub → List (Turn Prv Pub) → Option (Looped Prv Pub)
  | x, [] => some x
  | x, t :: ts =>
    (x.state.listen P t.read t.fresh t.listenAt).bind fun (l, r) =>
      let s := x.state.setListener l
      match r with
      | .error _ => some { x with state := s, stopped := true }
      | .ok stream =>
        let (s, r) := t.callback s stream
        let x := { x with state := s, calls := x.calls ++ [stream] }
        match r with
        | .error _ => some { x with stopped := true }
        | .ok cont =>
          (s.flush P t.flushAt t.writes t.rank).bind fun f =>
            let x := { x with state := f.listener, waitNextNano := f.minPacing }
            if cont then loop x ts else some { x with stopped := true }

end RoundRobin

namespace Listener

/-- `Listen` takes the read: nothing was read, or `decode` and `DecodePayload` accept the
datagram, and nothing panics behind them. -/
def Accepts (l : Listener Prv Pub) (read : ReadResult) (fresh : Except String Prv) (now : Nat) : Prop :=
  match read with
  | .timeout => True
  | .error _ => False
  | .datagram data remoteAddr => data = [] ∨
      ∃ l₁ d p u, l.decode P data remoteAddr fresh = some (l₁, .ok d) ∧ payloadOf d = some (.ok (p, u)) ∧
        (l₁.deliver d data.length now).isSome

theorem deliver_ok_iff {l : Listener Prv Pub} {d : Decoded} {n now : Nat} :
    (∃ l' stream, l.deliver d n now = some (l', .ok stream)) ↔
      (∃ p u, payloadOf d = some (.ok (p, u))) ∧ (l.deliver d n now).isSome := by
  unfold deliver
  cases hc : l.connMap.get? d.connId with
  | none => simp
  | some c =>
    rcases hp : payloadOf d with _ | _ | ⟨p, u⟩
    · simp
    · simp
    · simp only [Option.bind_eq_bind, Option.bind_some]
      generalize (if now > c.measurements.lastReadTimeNano then _ else c) = c₁
      cases c₁.decode p u n now <;> simp

theorem listen_ok_iff {l : Listener Prv Pub} {read : ReadResult} {fresh : Except String Prv} {now : Nat} :
    (∃ l' stream, l.listen P read fresh now = some (l', .ok stream)) ↔ l.Accepts P read fresh now := by
  cases read with
  | timeout => simp [listen, Accepts]
  | error e => simp [listen, Accepts]
  | datagram data remoteAddr =>
    by_cases h0 : data = []
    · simp [listen, Accepts, h0]
    · have hlen : data.length ≠ 0 := fun h => h0 (List.length_eq_zero_iff.mp h)
      simp only [listen, Accepts, h0, hlen, if_false, false_or]
      rcases hd : l.decode P data remoteAddr fresh with _ | ⟨l₁, _ | d⟩
      · simp
      · simp
      · simp only [Option.bind_eq_bind, Option.bind_some, deliver_ok_iff]
        simp [← and_assoc]

end Listener

namespace RoundRobin

variable {s : RoundRobin Prv Pub} {t : Turn Prv Pub} {ts : List (Turn Prv Pub)}

/-- One iteration without a break. -/
def turn (s : RoundRobin Prv Pub) (t : Turn Prv Pub) : Option (RoundRobin Prv Pub) :=
  (s.listen P t.read t.fresh t.listenAt).bind fun (l, r) =>
    match r with
    | .error _ => none
    | .ok stream =>
      ((t.callback (s.setListener l) stream).1.flush P t.flushAt t.writes t.rank).map Flushed.listener

/-- The read of the iteration is accepted, and the `Flush` behind it does not panic. -/
def Digests (s : RoundRobin Prv Pub) (t : Turn Prv Pub) : Prop :=
  s.Accepts P t.read t.fresh t.listenAt ∧
    ∀ l stream, s.listen P t.read t.fresh t.listenAt = some (l, .ok stream) →
      ((t.callback (s.setListener l) stream).1.flush P t.flushAt t.writes t.rank).isSome

theorem turn_returns_iff : (∃ s', turn P s t = some s') ↔ s.Digests P t := by
  constructor
  · rintro ⟨s', h⟩
    obtain ⟨⟨l, r⟩, hl, h⟩ := Option.bind_eq_some_iff.mp h
    rcases r with e | stream
    · cases h
    obtain ⟨f, hf, rfl⟩ := Option.map_eq_some_iff.mp h
    refine ⟨(Listener.listen_ok_iff P).mp ⟨l, stream, hl⟩, fun l' stream' hl' => ?_⟩
    cases hl.symm.trans hl'
    rw [hf]
    rfl
  · rintro ⟨ha, hflush⟩
    obtain ⟨l, stream, hl⟩ := (Listener.listen_ok_iff P).mpr ha
    obtain ⟨f, hf⟩ := Option.isSome_iff_exists.mp (hflush l stream hl)
    exact ⟨f.listener, by simp [turn, hl, hf]⟩

/-- An iteration goes on just when its read is digested. -/
theorem loop_cons (x : Looped Prv Pub) (hcb : ∀ s stream, (t.callback s stream).2 = .ok true) :
    (x.state.Digests P t ∧ ∃ x', loop P x (t :: ts) = loop P x' ts ∧ turn P x.state t = some x'.state ∧
      x'.calls.length = x.calls.length + 1 ∧ x'.stopped = x.stopped) ∨
    (¬ x.state.Digests P t ∧ ∀ y, loop P x (t :: ts) = some y → y.stopped = true) := by
  by_cases ha : x.state.Accepts P t.read t.fresh t.listenAt
  · obtain ⟨l, stream, hl⟩ := (Listener.listen_ok_iff P).mpr ha
    have hcont := hcb (x.state.setListener l) stream
    cases hf : (t.callback (x.state.setListener l) stream).1.flush P t.flushAt t.writes t.rank with
    | none =>
      refine .inr ⟨fun hd => ?_, fun y hy => ?_⟩
      · have hsome := hd.2 l stream hl
        rw [hf] at hsome
        cases hsome
      · simp [loop, hl, hcont, hf] at hy
    | some f =>
      refine .inl ⟨⟨ha, fun l' stream' hl' => ?_⟩, ⟨f.listener, f.minPacing, x.calls ++ [stream], x.stopped⟩, ?_, ?_,
        List.length_append, rfl⟩
      · cases hl.symm.trans hl'
        rw [hf]
        rfl
      · simp [loop, hl, hcont, hf]
      · simp [turn, hl, hf]
  · refine .inr ⟨fun hd => ha hd.1, fun y hy => ?_⟩
    rw [← Listener.listen_ok_iff] at ha
    rcases hl : x.state.listen P t.read t.fresh t.listenAt with _ | ⟨l, _ | stream⟩
    · simp [loop, hl] at hy
    · simp only [loop, hl, Option.bind_some, Option.some.injEq] at hy
      rw [← hy]
    · exact absurd ⟨l, stream, hl⟩ ha

theorem loop_goes_on (x : Looped Prv Pub) (hcb : ∀ t ∈ ts, ∀ s stream, (t.callback s stream).2 = .ok true)
    (hx : x.stopped = false) :
    (∃ y, loop P x ts = some y ∧ y.stopped = false ∧ y.calls.length = x.calls.length + ts.length) ↔
      Along (turn P) (Digests P) x.state ts := by
  induction ts generalizing x with
  | nil => simp [loop, Along, hx]
  | cons t ts ih =>
    have hrest : ∀ t' ∈ ts, ∀ s stream, (t'.callback s stream).2 = .ok true :=
      fun t' ht' => hcb t' (List.mem_cons_of_mem t ht')
    obtain ⟨hd, x', hloop, hturn, hcalls, hstop⟩ | ⟨hd, hstop⟩ := loop_cons P x (hcb t List.mem_cons_self)
    · have hlen : x.calls.length + (t :: ts).length = x'.calls.length + ts.length := by
        rw [hcalls, List.length_cons]
        omega
      rw [hloop, hlen, ih x' hrest (hstop.trans hx)]
      exact ⟨fun h => along_cons hd hturn h, fun h => h.2 _ hturn⟩
    · refine iff_of_false ?_ fun h => hd h.1
      rintro ⟨y, hy, hgo, _⟩
      rw [hstop y hy] at hgo
      cases hgo

/-- With a callback that always goes on, `Loop` takes a sequence of reads to its end, with one
call of the callback for each, just when `decode` and `DecodePayload` accept every datagram
in the state it meets and nothing panics. -/
theorem loop_survives_iff (s : RoundRobin Prv Pub) (ts : List (Turn Prv Pub))
    (hcb : ∀ t ∈ ts, ∀ s stream, (t.callback s stream).2 = .ok true) :
    (∃ y, loop P { state := s } ts = some y ∧ y.stopped = false ∧ y.calls.length = ts.length) ↔
      Along (turn P) (Digests P) s ts := by
  have h := loop_goes_on P { state := s } hcb rfl
  rwa [List.length_nil, Nat.zero_add] at h

/-- An iteration that reads `read` and changes nothing in the callback. -/
def readTurn (read : ReadResult) : Turn UInt8 UInt8 where
  read := read
  fresh := .ok 3
  listenAt := 1
  callback s _ := (s, .ok true)
  flushAt := 1
  writes _ := .ok ()
  rank _ := 0

/-- A datagram of one byte ends the loop before the callback is called, and the read
behind it is not taken. -/
theorem short_datagram_stops_loop :
    ∃ y, loop plain { state := { prvKeyId := 7, mtu := 1400 } }
        [readTurn (.datagram [0] 0), readTurn .timeout] = some y ∧ y.stopped = true ∧ y.calls = [] :=
  ⟨_, rfl, rfl, rfl⟩

/-- An InitSnd of a dialer with ephemeral key 5, and three bytes on the connection it opens. -/
def dialerReads : List ReadResult :=
  let connId := getLE (List.replicate 8 5)
  let request := ((encryptInitSnd plain 9 5 200).map Prod.snd).getD []
  let payload := (encodePayload {} (some [1, 2, 3])).1
  let data := ((encryptData plain connId true (some (List.replicate 32 15)) 1 0 payload).bind Except.toOption).getD []
  [.datagram request 0, .timeout, .datagram data 0, .datagram [] 0]

theorem accepted_reads_survive :
    ∃ y, loop plain { state := { prvKeyId := 7, mtu := 200 } } (dialerReads.map readTurn) = some y ∧
      y.stopped = false ∧ y.calls.length = 4 ∧
      y.calls = [some (getLE (List.replicate 8 5), 0), none, some (getLE (List.replicate 8 5), 0), none] := by
  have hcb : ∀ t ∈ dialerReads.map readTurn, ∀ s stream, (t.callback s stream).2 = .ok true := by
    intro t ht s stream
    obtain ⟨read, _, rfl⟩ := List.mem_map.mp ht
    rfl
  have hturns : Along (turn plain) (Digests plain) { prvKeyId := 7, mtu := 200 } (dialerReads.map readTurn) := by
    refine (run_returns_iff (fun _ _ (_ : True) (_ : True) => turn_returns_iff plain)
      (fun _ _ _ _ _ _ => trivial) trivial fun _ _ => trivial).mp (Option.isSome_iff_exists.mp ?_)
    decide +kernel
  obtain ⟨y, hy, hstop, hcalls⟩ := (loop_survives_iff plain _ _ hcb).mpr hturns
  have hstreams : ((loop plain { state := { prvKeyId := 7, mtu := 200 } } (dialerReads.map readTurn)).map Looped.calls) =
      some [some (getLE (List.replicate 8 5), 0), none, some (getLE (List.replicate 8 5), 0), none] := by decide +kernel
  rw [hy] at hstreams
  exact ⟨y, hy, hstop, hcalls, Option.some.inj hstreams⟩

end RoundRobin

end Qotp
