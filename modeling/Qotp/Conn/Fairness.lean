import Qotp.Conn.FlowControl
import Qotp.Conn.StableIds

namespace Qotp

open Framework

variable {Prv Pub : Type} (P : Primitives Prv Pub)

/-- A stream with nothing to hand out stays as it is. -/
theorem SendBuffer.readyToSend_none {sb sb' : SendBuffer} {k o now : Nat} {m : CryptoMsgType} {ack : Option Ack}
    {mtu : Int} {isClose : Bool} (h : sb.readyToSend k m ack mtu now = (sb', none, o, isClose)) :
    sb' = sb ∧ (sb.stream k).queuedData = [] := by
  unfold readyToSend at h
  cases hg : sb.streams.get? k with
  | none =>
    simp only [hg] at h
    cases h
    exact ⟨rfl, by rw [stream, hg]; rfl⟩
  | some s =>
    simp only [hg] at h
    rw [stream, hg, Option.getD_some]
    obtain ⟨_, hq, _, he⟩ | ⟨_, he⟩ | ⟨_, _, _, he⟩ | ⟨_, _, he⟩ := s.readyToSend_cases m ack mtu now
    · rw [he] at h
      cases h
      exact ⟨by rw [InsertionMap.put_of_get? hg], hq⟩
    all_goals
      rw [he] at h
      cases h

/-- User data is taken from the front of the queue. -/
theorem SendBuffer.readyToSend_data {sb sb' : SendBuffer} {k o now : Nat} {m : CryptoMsgType} {ack : Option Ack}
    {mtu : Int} {d : Bytes} {isClose : Bool} (h : sb.readyToSend k m ack mtu now = (sb', some d, o, isClose))
    (hd : 0 < d.length) :
    (sb.stream k).queuedData ≠ [] ∧ ∀ i, (sb'.stream i).queuedData = if i = k
      then (sb.stream k).queuedData.drop ((sb.stream k).sendLength m ack mtu) else (sb.stream i).queuedData := by
  have hstr := fun i => (sb.readyToSend_stream k i m ack mtu now).1
  have hpkt := (sb.readyToSend_stream k k m ack mtu now).2
  simp only [h] at hstr hpkt
  obtain ⟨_, _, _, he⟩ | ⟨_, he⟩ | ⟨_, _, _, he⟩ | ⟨_, hq, he⟩ := (sb.stream k).readyToSend_cases m ack mtu now
  · rw [he] at hpkt
    cases hpkt
  · rw [he] at hpkt
    cases hpkt
    cases hd
  · rw [he] at hpkt
    cases hpkt
    cases hd
  · refine ⟨hq, fun i => ?_⟩
    rw [hstr, he]
    split_ifs <;> rfl

namespace Conn

variable {P} {l : ListenerCfg Prv} {c c' : Conn Prv Pub} {k j now : Nat} {w : WriteResult} {ack : Option Ack}
  {out : List Outgoing} {r : Nat × Nat}

theorem sendPacket_ok {d : Bytes} {o : Nat} {isClose track : Bool} {m : CryptoMsgType}
    (h : c.sendPacket P l k ack d o isClose m now track w = some (c', out, .ok r)) :
    out.length = 1 ∧ r.1 = d.length ∧ c'.snd = c.snd := by
  obtain ⟨⟨c₁, enc⟩, he, h⟩ := Option.bind_eq_some_iff.mp h
  obtain ⟨_, _, _, _, rfl⟩ := encode_frame P l he
  cases enc with
  | error e => cases h
  | ok enc =>
    cases w with
    | error e => cases h
    | ok _ =>
      cases h
      refine ⟨rfl, rfl, ?_⟩
      cases track <;> rfl

theorem writeAck_ok (h : c.writeAck P l k ack now w = some (c', out, .ok r)) : out.length = 1 ∧ r.1 = 0 := by
  obtain ⟨⟨c₁, enc⟩, he, h⟩ := Option.bind_eq_some_iff.mp h
  cases enc with
  | error e => cases h
  | ok enc =>
    cases w with
    | error e => cases h
    | ok _ =>
      cases h
      exact ⟨rfl, rfl⟩

/-- What `flushSend` writes is one datagram, and it is written if user data is counted. -/
theorem flushSend_ok (h : c.flushSend P l k ack now w = some (c', out, .ok r)) : out.length = 1 ∨ r.1 = 0 := by
  unfold flushSend at h
  split_ifs at h with hs ha
  · rcases hr : c.snd.readyToSend k c.msgType ack l.mtu now with ⟨snd, data, o, isClose⟩
    simp only [hr] at h
    cases data with
    | some d => exact .inl (sendPacket_ok h).1
    | none =>
      dsimp only at h
      split_ifs at h
      · exact .inl (writeAck_ok h).1
      · cases h
        exact .inr rfl
  · exact .inl (writeAck_ok h).1
  · cases h
    exact .inr rfl

theorem flush_ok (h : c.flush P l k now w = some (c', out, .ok r)) : out.length = 1 ∨ r.1 = 0 := by
  unfold flush at h
  dsimp only at h
  split_ifs at h with hp hw ha
  · cases h
    exact .inr rfl
  · exact .inl (writeAck_ok h).1
  · cases h
    exact .inr rfl
  · obtain ⟨⟨snd, res⟩, _, h⟩ := Option.bind_eq_some_iff.mp h
    rcases res with e | ⟨_ | d, o, isClose⟩
    · cases h
    · exact flushSend_ok h
    · exact .inl (sendPacket_ok h).1

/-- A connection past its handshake that may send: neither the pacing nor the window nor
an ack nor an expired timer stands before the data of its streams, and none is closed. -/
structure Unhindered (c : Conn Prv Pub) (mtu : Int) (now : Nat) : Prop where
  done : c.isHandshakeDoneOnRcv = true
  noAck : c.rcv.ackList = []
  paced : c.nextWriteTime ≤ now
  window : c.WindowOpen mtu
  notClosed : ∀ k stream, c.streams.get? k = some stream → stream.closedAtNano = 0
  notDue : ∀ k stream, c.streams.get? k = some stream →
    c.snd.readyToRetransmit stream.streamID none mtu c.measurements.rtoNano .data now =
      some (c.snd, .ok (none, 0, false))

theorem Unhindered.flush {stream : Stream} (h : c.Unhindered l.mtu now) (hs : c.streams.get? j = some stream) :
    c.flush P l stream.streamID now w = c.flushSend P l stream.streamID none now w := by
  have hm : c.msgType = .data := if_pos h.done
  unfold Conn.flush
  rw [takeAck_nil h.noAck]
  dsimp only
  rw [if_neg (not_lt.mpr h.paced), if_neg (not_lt.mpr h.window), hm, h.notDue j stream hs]
  rfl

/-- Nothing is written, with nothing queued and nothing changed; or one datagram is, and
user data comes from the front of the queue. -/
theorem Unhindered.flush_cases {stream : Stream} (h : c.Unhindered l.mtu now) (hs : c.streams.get? j = some stream)
    (hk : stream.streamID = k) (hf : c.flush P l k now w = some (c', out, .ok r)) :
    (out = [] ∧ c' = c ∧ (c.snd.stream k).queuedData = []) ∨
    (out.length = 1 ∧ (0 < r.1 → (c.snd.stream k).queuedData ≠ [] ∧
      ∀ i, (c'.snd.stream i).queuedData = if i = k
        then (c.snd.stream k).queuedData.drop ((c.snd.stream k).sendLength .data none l.mtu)
        else (c.snd.stream i).queuedData)) := by
  subst hk
  have hm : c.msgType = .data := if_pos h.done
  have hdone : (c.isHandshakeDoneOnRcv || !c.isInitSentOnSnd) = true := by rw [h.done]; rfl
  rw [h.flush hs] at hf
  simp only [flushSend, if_pos hdone, hm, Option.isSome_none, Bool.false_or] at hf
  rcases hr : c.snd.readyToSend stream.streamID .data none l.mtu now with ⟨snd, data, o, isClose⟩
  simp only [hr] at hf
  cases data with
  | none =>
    obtain ⟨rfl, hq⟩ := SendBuffer.readyToSend_none hr
    dsimp only at hf
    split_ifs at hf
    · obtain ⟨hone, h0⟩ := writeAck_ok hf
      exact .inr ⟨hone, fun hpos => absurd h0 hpos.ne'⟩
    · cases hf
      exact .inl ⟨rfl, rfl, hq⟩
  | some d =>
    obtain ⟨hone, hlen, hsnd⟩ := sendPacket_ok hf
    refine .inr ⟨hone, fun hpos => ?_⟩
    rw [hsnd]
    exact SendBuffer.readyToSend_data hr (hlen ▸ hpos)

end Conn

namespace Listener

variable {l l' : Listener Prv Pub} {now : Nat} {writes : Nat × Nat → WriteResult} {u v : Nat × Nat}
  {out : List Conn.Outgoing} {r : Nat × Nat}

/-- The data that waits on a stream. -/
def queuedAt (l : Listener Prv Pub) (v : Nat × Nat) : Bytes :=
  (l.connMap.get? v.1).elim [] fun c => (c.snd.stream v.2).queuedData

/-- What the next packet of a stream leaves in its queue. -/
def leftOver (l : Listener Prv Pub) (v : Nat × Nat) : Bytes :=
  (l.connMap.get? v.1).elim [] fun c =>
    (c.snd.stream v.2).queuedData.drop ((c.snd.stream v.2).sendLength .data none l.mtu)

def hasQueued (l : Listener Prv Pub) (v : Nat × Nat) : Bool := l.queuedAt v ≠ []

def Unhindered (l : Listener Prv Pub) (now : Nat) : Prop :=
  ∀ k c, l.connMap.get? k = some c → c.Unhindered l.mtu now ∧ l.timedOut now k = false

theorem unhindered_of_entries (h : ∀ e ∈ l.connMap.entries, e.2.isHandshakeDoneOnRcv = true ∧
    e.2.rcv.ackList = [] ∧ e.2.nextWriteTime ≤ now ∧ e.2.WindowOpen l.mtu ∧ l.timedOut now e.1 = false ∧
    ∀ t ∈ e.2.streams.entries, t.2.closedAtNano = 0 ∧
      e.2.snd.readyToRetransmit t.2.streamID none l.mtu e.2.measurements.rtoNano .data now =
        some (e.2.snd, .ok (none, 0, false))) : l.Unhindered now := by
  intro k c hc
  obtain ⟨hdone, hack, hpaced, hwindow, halive, hstreams⟩ := h _ (InsertionMap.get?_eq_some.mp hc)
  exact ⟨⟨hdone, hack, hpaced, hwindow, fun j stream hj => (hstreams _ (InsertionMap.get?_eq_some.mp hj)).1,
    fun j stream hj => (hstreams _ (InsertionMap.get?_eq_some.mp hj)).2⟩, halive⟩

theorem Unhindered.closing (h : l.Unhindered now) (v : Nat × Nat) : l.closing now v = false := by
  unfold Listener.closing
  cases hc : l.connMap.get? v.1 with
  | none => rfl
  | some c =>
    cases hs : c.streams.get? v.2 with
    | none => simp [hs]
    | some stream => simp [hs, (h v.1 c hc).1.notClosed v.2 stream hs]

theorem visit_ok (h : l.visit P now writes v = some (l', out, .ok r)) : out.length = 1 ∨ r.1 = 0 := by
  obtain ⟨c, hc, h⟩ := Option.bind_eq_some_iff.mp h
  obtain ⟨stream, hs, h⟩ := Option.bind_eq_some_iff.mp h
  obtain ⟨⟨c', out', r'⟩, hf, h⟩ := Option.bind_eq_some_iff.mp h
  cases h
  exact Conn.flush_ok hf

variable {P} in
theorem Unhindered.visit (hl : l.Unhindered now) (hk : l.Keyed)
    (h : l.visit P now writes v = some (l', out, .ok r)) :
    (out = [] ∧ l' = l ∧ l.hasQueued v = false) ∨
    (out.length = 1 ∧ (0 < r.1 → l.hasQueued v = true ∧
      ∀ u, l'.queuedAt u = if u = v then l.leftOver v else l.queuedAt u)) := by
  obtain ⟨c, hc, h⟩ := Option.bind_eq_some_iff.mp h
  obtain ⟨stream, hs, h⟩ := Option.bind_eq_some_iff.mp h
  obtain ⟨⟨c', out', r'⟩, hf, h⟩ := Option.bind_eq_some_iff.mp h
  cases h
  have hid : stream.streamID = v.2 := (hk v.1 c hc).2 v.2 stream hs
  have hqueued : l.queuedAt v = (c.snd.stream v.2).queuedData := by simp only [queuedAt, hc, Option.elim_some]
  rw [hid] at hf
  obtain ⟨rfl, rfl, hq⟩ | ⟨hone, hsent⟩ := (hl v.1 c hc).1.flush_cases (l := l.cfg) hs hid hf
  · refine .inl ⟨rfl, ?_, ?_⟩
    · rw [setConn, InsertionMap.put_of_get? hc]
    · simp [hasQueued, hqueued, hq]
  · refine .inr ⟨hone, fun hpos => ?_⟩
    obtain ⟨hq, hrest⟩ := hsent hpos
    refine ⟨by simp [hasQueued, hqueued, hq], fun u => ?_⟩
    simp only [queuedAt, leftOver, setConn, InsertionMap.get?_put]
    by_cases hu : u.1 = v.1
    · rw [if_pos hu, hu, hc, Option.elim_some, hrest]
      by_cases huv : u.2 = v.2
      · rw [if_pos huv, if_pos (Prod.ext hu huv)]
        rfl
      · rw [if_neg huv, if_neg fun h => huv (congrArg Prod.snd h)]
        rfl
    · rw [if_neg hu, if_neg fun h => hu (congrArg Prod.fst h)]

end Listener

namespace Round

open Listener

variable {r r' : Round Prv Pub} {now : Nat} {writes : Nat × Nat → WriteResult} {vs : List (Nat × Nat)} {v : Nat × Nat}

/-- A loop that ends at sent data has written a datagram. -/
theorem serve_out (h : serve P now writes r vs = some r') (hs : r.served = none) (hv : r'.served = some v) :
    r.out.length < r'.out.length := by
  induction vs generalizing r with
  | nil =>
    cases h
    cases hs.symm.trans hv
  | cons u vs ih =>
    obtain ⟨l', out, res, hvisit, ⟨d, rfl, _, hd, rfl⟩ | ⟨_, rfl⟩ | ⟨_, r₁, _, _, hrest, _, hout, hserved⟩⟩ := serve_turn P h
    · obtain hone | h0 := visit_ok P hvisit
      · rw [List.length_append, List.length_map]
        omega
      · exact absurd h0 hd.ne'
    · cases hs.symm.trans hv
    · -- a visit only adds to what was written
      have hlt := ih hrest (hserved.trans hs)
      rw [hout, List.length_append] at hlt
      omega

/-- The loop that writes one datagram, of user data, takes it from the first stream that
has some. -/
theorem serve_unhindered (hl : r.listener.Unhindered now) (hk : r.listener.Keyed)
    (h : serve P now writes r vs = some r') (hs : r.served = none) (hv : r'.served = some v)
    (hone : r'.out.length = r.out.length + 1) :
    vs.find? r.listener.hasQueued = some v ∧ r'.closeConn = r.closeConn ∧ r'.closeStream = r.closeStream ∧
      SameIds r.listener r'.listener ∧
      ∀ u, r'.listener.queuedAt u = if u = v then r.listener.leftOver v else r.listener.queuedAt u := by
  induction vs generalizing r with
  | nil =>
    cases h
    cases hs.symm.trans hv
  | cons u vs ih =>
    obtain ⟨stream, _, h⟩ := Option.bind_eq_some_iff.mp h
    obtain ⟨⟨l', out, res⟩, hvisit, h⟩ := Option.bind_eq_some_iff.mp h
    have hsame := (visit_sameIds hvisit).1
    have hclosing : l'.closing now u = false := (hsame.closing now u).trans (hl.closing u)
    cases res with
    | error e =>
      cases h
      cases hs.symm.trans hv
    | ok res =>
      simp only [hclosing, Bool.false_eq_true, if_false] at h
      obtain ⟨rfl, rfl, hnone⟩ | ⟨hwrote, hsent⟩ := hl.visit hk hvisit
      · -- nothing queued: the loop goes on with the listener as it was
        obtain hlen | h0 := visit_ok P hvisit
        · cases hlen
        rw [h0, if_neg (lt_irrefl 0)] at h
        rw [List.find?_cons_of_neg (by rw [hnone]; exact Bool.false_ne_true)]
        split_ifs at h
        · cases h
          cases hs.symm.trans hv
        all_goals exact ih (r := { r with out := r.out ++ [], minPacing := _ }) hl hk h hs (by simpa using hone)
      · split_ifs at h with hd
        · cases h
          obtain rfl : u = v := Option.some.inj hv
          obtain ⟨hq, hqueues⟩ := hsent hd
          exact ⟨List.find?_cons_of_pos hq, rfl, rfl, hsame, hqueues⟩
        · cases h
          cases hs.symm.trans hv
        all_goals
          -- a second datagram would have to follow
          have hlt := serve_out P h hs hv
          simp only [List.length_append, List.length_map] at hlt
          omega

end Round

namespace RoundRobin

open Listener Memory

variable {s : RoundRobin Prv Pub} {now : Nat} {writes : Nat × Nat → WriteResult} {rank : Nat → Nat}
  {f : Flushed Prv Pub} {v : Nat × Nat}

/-- The call sends user data of the stream, and writes nothing besides. -/
def Serves (s : RoundRobin Prv Pub) (now : Nat) (writes : Nat × Nat → WriteResult) (v : Nat × Nat) : Prop :=
  ∃ r, Round.serve P now writes { listener := s.toListener } s.visits = some r ∧ r.served = some v ∧ r.out.length = 1

variable {P} in
theorem Serves.flush (h : s.Serves P now writes v) (hl : s.Unhindered now) (hk : s.Keyed)
    (hf : s.flush P now writes rank = some f) :
    s.visits.find? s.hasQueued = some v ∧ f.listener.visits = s.nested none none ∧ f.listener.Keyed ∧
      ∀ u, f.listener.queuedAt u = if u = v then s.leftOver v else s.queuedAt u := by
  obtain ⟨r, hr, hserved, hone⟩ := h
  obtain ⟨hfind, hconns, hstreams, hsame, hqueues⟩ :=
    Round.serve_unhindered P (r := { listener := s.toListener }) hl hk hr rfl hserved hone
  have hsize : s.connMap.size ≠ 0 := by
    intro h0
    rw [visits_nil h0] at hfind
    cases hfind
  have hlistener : f.listener = { toListener := r.listener } := by
    simp only [RoundRobin.flush, if_neg hsize, hr, Option.map_some, hconns, hstreams] at hf
    cases hf
    rfl
  rw [hlistener]
  exact ⟨hfind, nested_sameIds hsame, hsame.keyed hk, hqueues⟩

/-- It is another stream's turn next: the call that follows starts anew and meets data of
another stream first, or the one that is served now is left without. -/
def MovesOn (s : RoundRobin Prv Pub) : Prop :=
  ∀ v, s.visits.find? s.hasQueued = some v →
    (s.nested none none).find? s.hasQueued ≠ some v ∨ s.leftOver v = []

/-- Two calls in a row serve different streams just when the first one finds the turn to
be another stream's next: `Flush` forgets at its end where it stopped. -/
theorem round_robin_iff (s : RoundRobin Prv Pub) (hk : s.Keyed) (t₁ t₂ : Nat)
    (writes₁ writes₂ : Nat × Nat → WriteResult) (rank : Nat → Nat) (v₁ v₂ : Nat × Nat) {f : Flushed Prv Pub}
    (hf : s.flush P t₁ writes₁ rank = some f) (h₁ : s.Unhindered t₁) (h₂ : f.listener.Unhindered t₂)
    (hs₁ : s.Serves P t₁ writes₁ v₁) (hs₂ : f.listener.Serves P t₂ writes₂ v₂) : v₁ ≠ v₂ ↔ s.MovesOn := by
  obtain ⟨hfind₁, hvisits, hk', hqueues⟩ := hs₁.flush h₁ hk hf
  obtain ⟨r, hr, hserved, hone⟩ := hs₂
  obtain ⟨hfind₂, _⟩ :=
    Round.serve_unhindered P (r := { listener := f.listener.toListener }) h₂ hk' hr rfl hserved hone
  rw [hvisits] at hfind₂
  have hmoves : s.MovesOn ↔ (s.nested none none).find? s.hasQueued ≠ some v₁ ∨ s.leftOver v₁ = [] := by
    constructor
    · exact fun h => h v₁ hfind₁
    · rintro h v hv
      obtain rfl : v₁ = v := Option.some.inj (hfind₁.symm.trans hv)
      exact h
  rw [hmoves]
  by_cases hleft : s.leftOver v₁ = []
  · refine iff_of_true ?_ (.inr hleft)
    rintro rfl
    have hq := List.find?_some hfind₂
    simp [hasQueued, hqueues, hleft] at hq
  · -- the queues that are empty are the same ones as before
    have hsame : f.listener.hasQueued = s.hasQueued := by
      funext u
      have hq₁ := List.find?_some hfind₁
      by_cases hu : u = v₁
      · rw [hu, hq₁]
        simp [hasQueued, hqueues, hleft]
      · simp [hasQueued, hqueues, hu]
    rw [hsame] at hfind₂
    rw [hfind₂]
    simp [hleft, eq_comm]

/-- Stream 5 of connection 1 has `queued` to send, stream 6 of connection 2 three bytes,
and a packet takes three. -/
def bothQueued (queued : Bytes) : RoundRobin UInt8 UInt8 :=
  { prvKeyId := 7, mtu := 42
    connMap := (InsertionMap.empty.put 1 (oneStream 1 5 0 queued)).put 2 (oneStream 2 6 0 [1, 2, 3]) }

theorem bothQueued_keyed (queued : Bytes) : (bothQueued queued).Keyed := by
  intro k c hc
  simp only [bothQueued, InsertionMap.get?_put] at hc
  split_ifs at hc with h2 h1
  · cases hc
    exact h2 ▸ oneStream_keyed ..
  · cases hc
    exact h1 ▸ oneStream_keyed ..
  · cases hc

/-- The first stream is served twice in a row while the second one waits. -/
theorem longQueue_serves_twice : (bothQueued [1, 2, 3, 4]).Keyed ∧ (bothQueued [1, 2, 3, 4]).Unhindered 1 ∧
    ∃ f, (bothQueued [1, 2, 3, 4]).flush plain 1 (fun _ => .ok ()) (fun _ => 0) = some f ∧
      f.listener.Unhindered 10000001 ∧
      (bothQueued [1, 2, 3, 4]).queuedAt (2, 6) = [1, 2, 3] ∧ f.listener.queuedAt (2, 6) = [1, 2, 3] ∧
      (bothQueued [1, 2, 3, 4]).Serves plain 1 (fun _ => .ok ()) (1, 5) ∧
      f.listener.Serves plain 10000001 (fun _ => .ok ()) (1, 5) := by
  refine ⟨bothQueued_keyed _, unhindered_of_entries ?_, _, rfl, unhindered_of_entries ?_, rfl, rfl, ⟨_, rfl, rfl, rfl⟩,
    ⟨_, rfl, rfl, rfl⟩⟩
  all_goals
    rintro e (_ | ⟨_, _ | ⟨_, ⟨⟩⟩⟩) <;>
      exact ⟨rfl, rfl, by decide, by decide, rfl, by rintro t (_ | ⟨_, ⟨⟩⟩); exact ⟨rfl, rfl⟩⟩

theorem shortQueue_moves_on : (bothQueued [7, 8, 9]).MovesOn := by
  refine (round_robin_iff plain _ (bothQueued_keyed _) 1 10000001 (fun _ => .ok ()) (fun _ => .ok ()) (fun _ => 0)
    (1, 5) (2, 6) rfl (unhindered_of_entries ?_) (unhindered_of_entries ?_) ⟨_, rfl, rfl, rfl⟩
    ⟨_, rfl, rfl, rfl⟩).mp (by decide)
  all_goals
    rintro e (_ | ⟨_, _ | ⟨_, ⟨⟩⟩⟩) <;>
      exact ⟨rfl, rfl, by decide, by decide, rfl, by rintro t (_ | ⟨_, ⟨⟩⟩); exact ⟨rfl, rfl⟩⟩

end RoundRobin

end Qotp
