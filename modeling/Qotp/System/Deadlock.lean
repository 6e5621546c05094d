import Qotp.Conn.FlowControl
import Qotp.System.Link

namespace Qotp

open Framework

variable {Prv Pub : Type}

namespace Conn

/-- `Stream.IsOpen` for stream `k`. -/
def IsOpen (c : Conn Prv Pub) (k : Nat) : Prop :=
  ∃ s ∈ c.streams.get? k, s.closedAtNano = 0 ∧ c.snd.getOffsetClosedAt s.streamID = none

instance (c : Conn Prv Pub) (k : Nat) : Decidable (c.IsOpen k) := inferInstanceAs (Decidable (∃ s ∈ _, _))

/-- A connection behind its handshake, with nothing sent or received yet and `capacity` bytes
of receive buffer on both sides. -/
structure Established (c : Conn Prv Pub) (mtu capacity : Int) : Prop where
  ready : c.Ready 1
  initSent : c.isInitSentOnSnd = true
  streams : c.streams = .empty
  snd : c.snd = .new sndBufferCapacity
  rcv : c.rcv = .new capacity
  dataInFlight : c.dataInFlight = 0
  window : (c.rcvWndSize : Int) = capacity
  mtu : mtu ≤ capacity
  time : c.nextWriteTime < 2 ^ 64

/-- What the steps of the system keep of a side. -/
structure Flowing (c : Conn Prv Pub) (mtu : Int) : Prop where
  ready : c.Ready 1
  flow : c.FlowOk mtu
  time : c.nextWriteTime < 2 ^ 64

theorem Established.flowing {c : Conn Prv Pub} {mtu capacity : Int} (h : c.Established mtu capacity) :
    c.Flowing mtu := by
  refine ⟨h.ready, fun _ => ?_, h.time⟩
  rw [WindowOpen, h.dataInFlight, h.window, zero_add]
  exact h.mtu

variable {P : Primitives Prv Pub} {l : ListenerCfg Prv} {c c' : Conn Prv Pub}

/-- The calls of the application leave keys, counters and window alone, and put nothing in
flight. -/
theorem Flowing.congr {mtu : Int} (h : c.Flowing mtu) (streams : InsertionMap Nat Stream) (rcv : ReceiveBuffer)
    {snd : SendBuffer} (hl : snd.Landed ↔ c.snd.Landed) :
    Flowing ({ c with streams := streams, snd := snd, rcv := rcv } : Conn Prv Pub) mtu :=
  ⟨h.ready.sameCrypto ⟨_, _, _, _, _, _, _, rfl⟩, flowOk_congr hl rfl rfl h.flow, h.time⟩

theorem Flowing.flush {k now : Nat} {w : WriteResult} {out : List Outgoing} {r : FlushResult}
    (h : c.Flowing l.mtu) (hroom : c.position + 2 < 2 ^ 95) (hf : c.flush P l k now w = some (c', out, r)) :
    c'.Flowing l.mtu :=
  ⟨Ready.flush ⟨h.ready.done, h.ready.secret, h.ready.counters, hroom⟩ hf, flush_flowOk h.flow hf,
    flush_nextWriteTime h.time hf⟩

theorem Flowing.decode {p : PayloadHeader} {u : Option Bytes} {rawLen now : Nat} {mtu : Int}
    (h : c.Flowing mtu) (ha : c.AckOpens mtu p.ack rawLen) (hd : c.decode p u rawLen now = some c') :
    c'.Flowing mtu := by
  refine ⟨?_, decode_flowOk h.flow ha hd, ?_⟩
  · obtain ⟨_, _, _, _, _, _, rfl⟩ := decode_frame hd
    exact h.ready.sameCrypto ⟨_, _, _, _, _, _, _, rfl⟩
  · obtain ⟨_, _, _, _, _, _, rfl⟩ := decode_frame hd
    exact h.time

theorem Flowing.stream {mtu : Int} (h : c.Flowing mtu) (k : Nat) : (c.stream k).1.Flowing mtu := by
  rw [stream_frame]
  exact h.congr _ c.rcv Iff.rfl

theorem Flowing.read {mtu : Int} (h : c.Flowing mtu) (k : Nat) (s : Stream) : (c.read k s).1.Flowing mtu := by
  unfold Conn.read
  dsimp only
  split_ifs
  · exact h
  · exact h.congr _ _ Iff.rfl
  · exact h.congr c.streams _ Iff.rfl

theorem Flowing.write {mtu : Int} {s : Stream} {d : Bytes} {wake : WriteResult} {n : Nat} {err : Option IoError}
    (h : c.Flowing mtu) (hw : c.write s d wake = some (c', n, err)) : c'.Flowing mtu := by
  obtain rfl | ⟨_, snd, m, st, hq, rfl⟩ := write_cases hw
  · exact h
  · exact h.congr c.streams c.rcv (SendBuffer.landed_queueData hq)

/-- Every local call keeps a side flowing. -/
theorem Flowing.step {op : ConnOp Prv Pub} {e e' : Endpoint Prv Pub} (h : e.conn.Flowing l.mtu)
    (hroom : e.conn.position + 2 < 2 ^ 95) (hop : op.isLocal = true) (hs : e.step P l op = some e') :
    e'.conn.Flowing l.mtu := by
  cases op with
  | write k d wake =>
    obtain ⟨⟨c', n, err⟩, hw, rfl⟩ := Option.map_eq_some_iff.mp hs
    exact (h.stream k).write hw
  | read k =>
    cases hs
    exact (h.stream k).read k _
  | ping k =>
    cases hs
    exact (h.stream k).congr (e.conn.stream k).1.streams (e.conn.stream k).1.rcv (SendBuffer.landed_queuePing _ _)
  | close k =>
    cases hs
    exact (h.stream k).congr (e.conn.stream k).1.streams (e.conn.stream k).1.rcv (SendBuffer.landed_close _ _)
  | flush k now w =>
    obtain ⟨⟨c', out, r⟩, hf, rfl⟩ := Option.map_eq_some_iff.mp hs
    exact h.flush hroom hf
  | decode p u rawLen now => cases hop
  | cleanup k =>
    cases hs
    exact h.congr _ e.conn.rcv Iff.rfl
  | handshake d => cases hop

end Conn

/-- The two ends of a connection and the datagrams on their way to each. -/
structure Duplex (Prv Pub : Type) where
  side : Bool → Conn Prv Pub
  net : Bool → List Conn.Outgoing := fun _ => []

/-- A side is called, or the network delivers, loses or copies datagram `i` of those on
their way to a side. -/
inductive DuplexOp (Prv Pub : Type) where
  | call (side : Bool) (op : ConnOp Prv Pub)
  | deliver (side : Bool) (i nowNano : Nat)
  | drop (side : Bool) (i : Nat)
  | duplicate (side : Bool) (i : Nat)

namespace Duplex

variable (P : Primitives Prv Pub) (cfg : Bool → ListenerCfg Prv)

/-- Side `b` is called; what it writes to the socket is on its way to the other side. -/
def call (s : Duplex Prv Pub) (b : Bool) (op : ConnOp Prv Pub) : Option (Duplex Prv Pub) :=
  (({ conn := s.side b } : Endpoint Prv Pub).step P (cfg b) op).map fun e =>
    { side := Function.update s.side b e.conn
      net := Function.update s.net (!b) (s.net (!b) ++ e.sent) }

def take (s : Duplex Prv Pub) (b : Bool) (i : Nat) : Duplex Prv Pub :=
  { s with net := Function.update s.net b ((s.net b).eraseIdx i) }

def step (s : Duplex Prv Pub) : DuplexOp Prv Pub → Option (Duplex Prv Pub)
  | .call b op => if op.isLocal then s.call P cfg b op else none
  | .deliver b i now => do
    let o ← (s.net b)[i]?
    match ← o.payload with
    | .error _ => some (s.take b i)
    | .ok (p, u) => ((s.side b).decode p u o.encData.length now).map fun c =>
      { s.take b i with side := Function.update s.side b c }
  | .drop b i => some (s.take b i)
  | .duplicate b i => (s.net b)[i]?.map fun o =>
      { s with net := Function.update s.net b (s.net b ++ [o]) }

/-- A flush of the stream transmits nothing, now or later. -/
def NeverSends (l : ListenerCfg Prv) (c : Conn Prv Pub) (k t₀ : Nat) : Prop :=
  ∀ now, t₀ ≤ now → now < 2 ^ 64 → ∀ c' out r, c.flush P l k now (.ok ()) = some (c', out, r) → out = []

/-- Side `b` has data to send, everything sent has arrived and is acknowledged and read, and
no flush on either side sends anything from `t₀` on. -/
structure DeadlockedAt (s : Duplex Prv Pub) (b : Bool) (t₀ : Nat) : Prop where
  net : ∀ d, s.net d = []
  acks : ∀ d, (s.side d).rcv.ackList = []
  landed : (s.side b).snd.Landed
  read : (s.side (!b)).rcv.size = 0
  queued : ∃ k, (s.side b).IsOpen k ∧ ((s.side b).snd.stream k).queuedData ≠ []
  silent : ∀ d k st, (s.side d).streams.get? k = some st → NeverSends P (cfg d) (s.side d) k t₀

def Deadlocked (s : Duplex Prv Pub) : Prop := ∃ b t₀, t₀ < 2 ^ 64 ∧ s.DeadlockedAt P cfg b t₀

/-- Counters have room for the datagrams of two calls, and an ack that arrives and leaves
nothing in flight opens the window. -/
def OpensWindow (s : Duplex Prv Pub) (op : DuplexOp Prv Pub) : Prop :=
  (∀ b, (s.side b).position + 2 < 2 ^ 95) ∧
  match op with
  | .deliver b i _ => ∀ o ∈ (s.net b)[i]?, ∀ r ∈ o.payload, ∀ pu ∈ r.toOption,
      (s.side b).AckOpens (cfg b).mtu pu.1.ack o.encData.length
  | _ => True

instance (s : Duplex Prv Pub) : ∀ op, Decidable (s.OpensWindow cfg op)
  | .deliver _ _ _ => inferInstanceAs (Decidable (_ ∧ ∀ o ∈ _, ∀ r ∈ _, ∀ pu ∈ _, _))
  | .call _ _ | .drop _ _ | .duplicate _ _ => inferInstanceAs (Decidable (_ ∧ True))

/-- Both sides are behind their handshake, with nothing on the way. -/
structure Established (s : Duplex Prv Pub) (capacity : Int) : Prop where
  side : ∀ b, (s.side b).Established (cfg b).mtu capacity
  net : ∀ b, s.net b = []

variable {P cfg} {s t : Duplex Prv Pub}

/-- What can happen to the sides. -/
theorem step_cases {op : DuplexOp Prv Pub} (hs : s.step P cfg op = some t) :
    (∃ b op' e, op = .call b op' ∧ op'.isLocal = true ∧
      ({ conn := s.side b } : Endpoint Prv Pub).step P (cfg b) op' = some e ∧
      t.side = Function.update s.side b e.conn) ∨
    (∃ b i now o p u c, op = .deliver b i now ∧ (s.net b)[i]? = some o ∧ o.payload = some (.ok (p, u)) ∧
      (s.side b).decode p u o.encData.length now = some c ∧ t.side = Function.update s.side b c) ∨
    t.side = s.side := by
  cases op with
  | call b op =>
    simp only [step] at hs
    split_ifs at hs with hop
    obtain ⟨e, he, rfl⟩ := Option.map_eq_some_iff.mp hs
    exact .inl ⟨b, op, e, rfl, hop, he, rfl⟩
  | deliver b i now =>
    obtain ⟨o, ho, hs⟩ := Option.bind_eq_some_iff.mp hs
    obtain ⟨r, hr, hs⟩ := Option.bind_eq_some_iff.mp hs
    rcases r with err | ⟨p, u⟩
    · cases hs
      exact .inr (.inr rfl)
    · obtain ⟨c, hc, rfl⟩ := Option.map_eq_some_iff.mp hs
      exact .inr (.inl ⟨b, i, now, o, p, u, c, rfl, ho, hr, hc, rfl⟩)
  | drop b i =>
    cases hs
    exact .inr (.inr rfl)
  | duplicate b i =>
    obtain ⟨o, _, rfl⟩ := Option.map_eq_some_iff.mp hs
    exact .inr (.inr rfl)

/-- Both sides keep the window open whenever nothing is in flight. -/
def Flowing (cfg : Bool → ListenerCfg Prv) (s : Duplex Prv Pub) : Prop := ∀ b, (s.side b).Flowing (cfg b).mtu

theorem Flowing.update (h : Flowing cfg s) {b : Bool} {c : Conn Prv Pub} (hc : c.Flowing (cfg b).mtu)
    (ht : t.side = Function.update s.side b c) : Flowing cfg t := by
  intro d
  rw [ht, Function.update_apply]
  split_ifs with hd
  · rw [hd]
    exact hc
  · exact h d

theorem step_flowing (s : Duplex Prv Pub) (op : DuplexOp Prv Pub) (t : Duplex Prv Pub) (h : Flowing cfg s)
    (hop : s.OpensWindow cfg op) (hs : s.step P cfg op = some t) : Flowing cfg t := by
  obtain ⟨hroom, hack⟩ := hop
  obtain ⟨b, op', e, rfl, hop, he, ht⟩ | ⟨b, i, now, o, p, u, c, rfl, ho, hp, hc, ht⟩ | ht := step_cases hs
  · exact h.update (Conn.Flowing.step (e := { conn := s.side b }) (h b) (hroom b) hop he) ht
  · exact h.update ((h b).decode (hack o ho _ hp (p, u) rfl) hc) ht
  · intro d
    rw [ht]
    exact h d

/-- A side that could send does so once its pacing time is over. -/
theorem Flowing.not_deadlocked (hP : P.Correct) (h : Flowing cfg s) : ¬ s.Deadlocked P cfg := by
  rintro ⟨b, t₀, ht, hdead⟩
  obtain ⟨k, ⟨st, hst, _⟩, hq⟩ := hdead.queued
  have hb := h b
  obtain ⟨c', o, r, hf⟩ := Conn.flush_sends (l := cfg b) hP hb.ready (hdead.acks b) hdead.landed
    (hb.flow hdead.landed) hq (le_max_right t₀ _)
  have hnil := hdead.silent b k st hst _ (le_max_left ..) (max_lt ht hb.time) c' [o] r hf
  cases hnil

/-- Flow control does not deadlock in a run in which every ack that leaves nothing in flight
advertises room for what the sender still counts as in flight and one more packet. -/
theorem not_deadlocked_of_opensWindow (hP : P.Correct) (capacity : Int) (hs : s.Established cfg capacity)
    (ops : List (DuplexOp Prv Pub)) (hops : Along (step P cfg) (OpensWindow cfg) s ops)
    (hr : run (step P cfg) s ops = some t) : ¬ t.Deadlocked P cfg := by
  have hflow : Flowing cfg s := fun b => (hs.side b).flowing
  exact (run_inv_along step_flowing hflow hops hr).not_deadlocked hP

/-- Side `b` waits for a window that the other side, with no data of its own and no ack to
send, does not open. -/
def Shut (cfg : Bool → ListenerCfg Prv) (s : Duplex Prv Pub) (b : Bool) : Prop :=
  ¬ (s.side b).WindowOpen (cfg b).mtu ∧ (s.side (!b)).isHandshakeDoneOnRcv = true ∧
  (s.side (!b)).isInitSentOnSnd = true ∧
  ∀ e ∈ (s.side (!b)).streams.entries, (s.side (!b)).snd.streams.get? e.1 = none

instance (s : Duplex Prv Pub) (b : Bool) : Decidable (Shut cfg s b) :=
  inferInstanceAs (Decidable (¬ _ ∧ _ ∧ _ ∧ ∀ e ∈ _, _))

theorem Shut.silent {b : Bool} (h : Shut cfg s b) (hacks : ∀ d, (s.side d).rcv.ackList = []) (d : Bool) (k : Nat)
    (st : Stream) (hk : (s.side d).streams.get? k = some st) : NeverSends P (cfg d) (s.side d) k 0 := by
  intro now _ _ c' out r hf
  obtain ⟨hshut, hdone, hinit, hidle⟩ := h
  by_cases hd : d = b
  · subst hd
    exact (Conn.flush_closed hshut hf).2 (by rw [Conn.takeAck_nil (hacks d)])
  · obtain rfl : d = !b := by
      cases d <;> cases b <;> simp at hd ⊢
    exact Conn.flush_idle hinit (hacks _) (hidle _ (InsertionMap.get?_eq_some.mp hk)) hf

section Pair

/-- Two sides behind their handshake, with the default mtu and `capacity` bytes of receive
buffer each. -/
def pair (capacity : Nat) : Duplex { prv : UInt8 // prv ≠ 0 } UInt8 where
  side isSender :=
    { connId := 1, remoteAddr := 0, prvKeyEpSnd := ⟨13, by decide⟩, pubKeyEpRcv := some 5, pubKeyIdRcv := none
      sharedSecret := some (List.replicate 32 15), isSenderOnInit := isSender, isWithCryptoOnInit := false
      isHandshakeDoneOnRcv := true, isInitSentOnSnd := true, rcv := .new (Int.ofNat capacity), rcvWndSize := capacity }

def pairCfg (_ : Bool) : ListenerCfg { prv : UInt8 // prv ≠ 0 } := ⟨⟨9, by decide⟩, 1400⟩

theorem pair_established {capacity : Nat} (h : 1400 ≤ capacity) : (pair capacity).Established pairCfg capacity := by
  have hmtu : (1400 : Int) ≤ capacity := by exact_mod_cast h
  refine ⟨fun b => ⟨⟨rfl, ⟨_, rfl, rfl⟩, ⟨?_, ?_, ?_⟩, ?_⟩, rfl, rfl, rfl, rfl, rfl, rfl, hmtu, ?_⟩, fun _ => rfl⟩
  · exact (by decide : 0 < 2 ^ 47)
  · exact (by decide : 0 < 2 ^ 64)
  · exact fun _ => (by decide : 0 < 2 ^ 48)
  · norm_num [Conn.position, pair]
  · exact (by decide : 0 < 2 ^ 64)

/-- One side queues 1400 bytes and sends what fits in a packet; the other acknowledges it,
then reads it. -/
def pairOps : List (DuplexOp { prv : UInt8 // prv ≠ 0 } UInt8) :=
  [.call true (.write 0 (List.replicate 1400 7) (.ok ())), .call true (.flush 0 1 (.ok ())), .deliver false 0 2,
    .call false (.flush 0 3 (.ok ())), .deliver true 0 4, .call false (.read 0)]

/-- With room for one packet at the receiver, its ack advertises the window before the read,
and the sender takes the 42 bytes of the ack off its count where it had added 1361. The
window is shut for good with 39 bytes queued. -/
theorem unread_packet_shuts_window :
    (pair 1400).Established pairCfg 1400 ∧
    ∃ t, run (step plainHonest pairCfg) (pair 1400) pairOps = some t ∧ t.Deadlocked plainHonest pairCfg := by
  refine ⟨pair_established (le_refl _), ?_⟩
  have hend : ∃ t ∈ run (step plainHonest pairCfg) (pair 1400) pairOps, t.Shut pairCfg true ∧ (∀ d, t.net d = []) ∧
      (∀ d, (t.side d).rcv.ackList = []) ∧ (t.side true).snd.Landed ∧ (t.side false).rcv.size = 0 ∧
      (t.side true).IsOpen 0 ∧ ((t.side true).snd.stream 0).queuedData ≠ [] := by
    decide +kernel
  obtain ⟨t, ht, hshut, hnet, hacks, hland, hread, hopen, hqueued⟩ := hend
  exact ⟨t, ht, true, 0, by decide, hnet, hacks, hland, hread, ⟨0, hopen, hqueued⟩, hshut.silent hacks⟩

/-- With room for several packets the window stays open, so the rest can be sent. -/
theorem spare_window_is_live :
    (pair 65536).Established pairCfg 65536 ∧
    Along (step plainHonest pairCfg) (OpensWindow pairCfg) (pair 65536) pairOps ∧
    ∃ t, run (step plainHonest pairCfg) (pair 65536) pairOps = some t ∧
      ((t.side true).snd.stream 0).queuedData ≠ [] ∧ ¬ t.Deadlocked plainHonest pairCfg := by
  have hs : (pair 65536).Established pairCfg 65536 := pair_established (by decide)
  have hops : Along (step plainHonest pairCfg) (OpensWindow pairCfg) (pair 65536) pairOps := by decide +kernel
  have hend : ∃ t ∈ run (step plainHonest pairCfg) (pair 65536) pairOps,
      ((t.side true).snd.stream 0).queuedData ≠ [] := by decide +kernel
  obtain ⟨t, ht, hqueued⟩ := hend
  exact ⟨hs, hops, t, ht, hqueued, not_deadlocked_of_opensWindow plainHonest_correct 65536 hs pairOps hops ht⟩

end Pair

end Duplex

end Qotp
