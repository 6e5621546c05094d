import Qotp.Conn.Endpoint

namespace Qotp

open Framework

variable {Prv Pub : Type}

namespace Conn

/-- When a stream was closed; 0 for an open or unknown one. -/
def closedAtNano (c : Conn Prv Pub) (k : Nat) : Nat := ((c.streams.get? k).map Stream.closedAtNano).getD 0

variable {c c' : Conn Prv Pub} {k j : Nat}

theorem stream_closedAtNano (c : Conn Prv Pub) (k : Nat) : (c.stream k).2.closedAtNano = c.closedAtNano k := by
  unfold stream closedAtNano
  cases c.streams.get? k <;> rfl

/-- Creating a stream closes none. -/
theorem closedAtNano_stream (c : Conn Prv Pub) (k j : Nat) :
    (c.stream k).1.closedAtNano j = c.closedAtNano j := by
  unfold stream
  cases hg : c.streams.get? k with
  | some s => rfl
  | none =>
    unfold closedAtNano
    dsimp only
    rw [InsertionMap.get?_put]
    split_ifs with hj
    · rw [hj, hg]
      rfl
    · rfl

theorem closedAtNano_congr (h : c'.streams = c.streams) (j : Nat) : c'.closedAtNano j = c.closedAtNano j := by
  unfold closedAtNano
  rw [h]

theorem closedAtNano_put {now : Nat} (h : c'.streams = c.streams.put k ⟨k, now⟩) (j : Nat) :
    c'.closedAtNano j = if j = k then now else c.closedAtNano j := by
  unfold closedAtNano
  rw [h, InsertionMap.get?_put]
  split_ifs <;> rfl

/-- A close mark of the receive buffer. -/
theorem getOffsetClosedAt_stream (rb : ReceiveBuffer) (k : Nat) :
    rb.getOffsetClosedAt k = (rb.stream k).closeAtOffset := by
  unfold ReceiveBuffer.getOffsetClosedAt ReceiveBuffer.stream
  cases rb.streams.get? k <;> rfl

/-- The data of a packet is stored or not; then CLOSE sets the mark. -/
theorem decode_rcv {p : PayloadHeader} {u : Option Bytes} {rawLen now : Nat} (hk : c.StreamsKeyed)
    (hd : c.decode p u rawLen now = some c') :
    ∃ s₁, (∀ j, c'.rcv.stream j = if j = p.streamID then
        (if p.isClose then s₁.close p.streamOffset else s₁) else c.rcv.stream j) ∧
      s₁ = { c.rcv.stream p.streamID with segments := s₁.segments } ∧
      ((¬ c.rcv.Stores u ∧ s₁ = c.rcv.stream p.streamID) ∨
      (c.rcv.Stores u ∧ ∃ delta st,
        (c.rcv.stream p.streamID).insert p.streamOffset now (u.getD []) = some (s₁, delta, st))) := by
  obtain ⟨rcv, hrcv, hc'⟩ := (hk.decode_effect hd).rcv
  obtain ⟨s₁, hstr, hs₁⟩ : ∃ s₁, (∀ j, rcv.stream j = if j = p.streamID then s₁ else c.rcv.stream j) ∧
      ((¬ c.rcv.Stores u ∧ s₁ = c.rcv.stream p.streamID) ∨
      (c.rcv.Stores u ∧ ∃ delta st,
        (c.rcv.stream p.streamID).insert p.streamOffset now (u.getD []) = some (s₁, delta, st))) := by
    have hsame : ∀ j, c.rcv.stream j = if j = p.streamID then c.rcv.stream p.streamID else c.rcv.stream j := by
      intro j
      split_ifs with hj
      · rw [hj]
      · rfl
    obtain ⟨d, st, rfl, hne, hins⟩ | ⟨hu, rfl⟩ | ⟨rfl, _, rfl⟩ := hrcv
    · obtain ⟨hfull, _, _, _, hstr⟩ | ⟨hroom, _, _, s', delta, hi, _, hstr⟩ := ReceiveBuffer.insert_cases hins
      · refine ⟨_, fun j => (hstr j).trans (hsame j), .inl ⟨fun hst => ?_, rfl⟩⟩
        exact absurd hst.2 (not_le.mpr hfull)
      · exact ⟨s', hstr, .inr ⟨⟨hne, hroom⟩, delta, st, hi⟩⟩
    · refine ⟨_, hsame, .inl ⟨fun hst => hst.1 ?_, rfl⟩⟩
      obtain rfl | ⟨rfl, _⟩ := hu <;> rfl
    · exact ⟨_, hsame, .inl ⟨fun hst => hst.1 rfl, rfl⟩⟩
  refine ⟨s₁, fun j => ?_, ?_, hs₁⟩
  · rw [hc']
    by_cases hcl : p.isClose = true
    · rw [if_pos hcl, if_pos hcl, ReceiveBuffer.close_stream, hstr j, hstr p.streamID, if_pos rfl]
      split_ifs <;> rfl
    · rw [if_neg hcl, if_neg hcl, hstr j]
  · obtain ⟨_, rfl⟩ | ⟨_, delta, st, hins⟩ := hs₁
    · rfl
    · exact RcvBuffer.insert_frame hins

/-- Receiving does not deliver. -/
theorem decode_next {p : PayloadHeader} {u : Option Bytes} {rawLen now : Nat} (hk : c.StreamsKeyed)
    (hd : c.decode p u rawLen now = some c') (k : Nat) :
    (c'.rcv.stream k).nextInOrderOffsetToWaitFor = (c.rcv.stream k).nextInOrderOffsetToWaitFor := by
  obtain ⟨s₁, hstr, hfr, _⟩ := decode_rcv hk hd
  rw [hstr k]
  split_ifs with hk
  · rw [RcvBuffer.close_eq, hfr, hk]
  · rw [hfr, hk]
  · rfl

/-- A packet with CLOSE closes the send side of its stream. -/
theorem decode_marks {p : PayloadHeader} {u : Option Bytes} {rawLen now : Nat} (hk : c.StreamsKeyed)
    (hd : c.decode p u rawLen now = some c') (k : Nat) :
    (c'.snd.stream k).closeAtOffset = (c.snd.stream k).closeAtOffset ∨
      ((c.snd.stream k).closeAtOffset = none ∧ p.isClose = true ∧ p.streamID = k) := by
  have hm := SendBuffer.sameMarks_afterAck c.snd p.ack k
  rw [(hk.decode_effect hd).snd]
  by_cases hc : p.isClose = true
  · rw [if_pos hc, ← hm]
    exact (SendBuffer.close_mark _ p.streamID k).imp_right fun hk => ⟨hk.2, hc, hk.1.symm⟩
  · rw [if_neg hc]
    exact .inl hm

/-- A stream is marked closed by an ack in a packet of its own. -/
theorem decode_closedAtNano {p : PayloadHeader} {u : Option Bytes} {rawLen now : Nat} (hk : c.StreamsKeyed)
    (hd : c.decode p u rawLen now = some c') (k : Nat) :
    c'.closedAtNano k = c.closedAtNano k ∨ (p.streamID = k ∧ c.snd.ackCloses k p.ack = true) := by
  have hs := (hk.decode_effect hd).streams
  split_ifs at hs with hack
  · have hput := closedAtNano_put hs k
    rw [closedAtNano_stream] at hput
    split_ifs at hput with hk
    · subst hk
      exact .inr ⟨rfl, hack⟩
    · exact .inl hput
  · exact .inl ((closedAtNano_congr hs k).trans (closedAtNano_stream c _ k))

end Conn

namespace Endpoint

variable {P : Primitives Prv Pub} {l : ListenerCfg Prv} {e e' : Endpoint Prv Pub} {op : ConnOp Prv Pub} {k : Nat}

/-- `Stream.Read` on stream `k`: the connection, the data and the error. -/
def readOf (e : Endpoint Prv Pub) (k : Nat) : Conn Prv Pub × Option Bytes × Option Conn.IoError :=
  (e.conn.stream k).1.read k (e.conn.stream k).2

/-- A read of a closed stream fails; any other takes what the receive buffer hands out,
and reports the end when that starts at or behind the close mark. -/
theorem readOf_cases (h : e.conn.StreamsKeyed) (k : Nat) :
    (e.conn.closedAtNano k ≠ 0 ∧ e.readOf k = ((e.conn.stream k).1, none, some .unexpectedEof)) ∨
    (e.conn.closedAtNano k = 0 ∧ (e.readOf k).1.rcv = (e.conn.rcv.removeOldestInOrder k).1 ∧
      (e.readOf k).2.1 = (e.conn.rcv.removeOldestInOrder k).2.2.1 ∧
      ((∃ c, (e.conn.rcv.stream k).closeAtOffset = some c ∧ c ≤ (e.conn.rcv.removeOldestInOrder k).2.1 ∧
        (e.readOf k).2.2 = some .eof ∧ (e.readOf k).1.streams =
          (e.conn.stream k).1.streams.put k ⟨k, (e.conn.rcv.removeOldestInOrder k).2.2.2⟩) ∨
      ((∀ c, (e.conn.rcv.stream k).closeAtOffset = some c → (e.conn.rcv.removeOldestInOrder k).2.1 < c) ∧
        (e.readOf k).2.2 = none ∧ (e.readOf k).1.streams = (e.conn.stream k).1.streams))) := by
  obtain ⟨hid, _⟩ := Conn.stream_streamID h k
  have hrcv : (e.conn.stream k).1.rcv = e.conn.rcv := by rw [Conn.stream_frame]
  unfold readOf Conn.read
  rw [hid, hrcv, Conn.stream_closedAtNano, Conn.getOffsetClosedAt_stream]
  by_cases hc : e.conn.closedAtNano k = 0
  · rw [if_neg (not_not.mpr hc)]
    refine .inr ⟨hc, ?_⟩
    cases hcl : (e.conn.rcv.stream k).closeAtOffset with
    | none =>
      refine ⟨rfl, rfl, .inr ⟨nofun, rfl, rfl⟩⟩
    | some c =>
      dsimp only
      by_cases hle : c ≤ (e.conn.rcv.removeOldestInOrder k).2.1
      · rw [if_pos (by simpa using hle)]
        have hmark := Conn.markClosed_stream e.conn k (e.conn.rcv.removeOldestInOrder k).2.2.2
        rw [Conn.storedID, hid] at hmark
        exact ⟨rfl, rfl, .inl ⟨c, rfl, hle, rfl, hmark⟩⟩
      · rw [if_neg (by simpa using hle)]
        exact ⟨rfl, rfl, .inr ⟨fun c' hc' => by cases hc'; omega, rfl, rfl⟩⟩
  · rw [if_pos hc]
    exact .inl ⟨hc, rfl⟩

/-- A read hands out data, or leaves the receive buffer as it is; it sets no mark. -/
theorem readOf_rcv (h : e.conn.StreamsKeyed) (k : Nat) :
    ((e.readOf k).1.rcv = e.conn.rcv ∧ (e.readOf k).2.1 = none ∨
      (e.readOf k).1.rcv = (e.conn.rcv.removeOldestInOrder k).1 ∧
        (e.readOf k).2.1 = (e.conn.rcv.removeOldestInOrder k).2.2.1) ∧
    ∀ j, ((e.readOf k).1.rcv.stream j).closeAtOffset = (e.conn.rcv.stream j).closeAtOffset := by
  obtain ⟨_, hr⟩ | ⟨_, hrcv, hdata, _⟩ := readOf_cases h k
  · rw [hr, Conn.stream_frame]
    exact ⟨.inl ⟨rfl, rfl⟩, fun _ => rfl⟩
  · refine ⟨.inr ⟨hrcv, hdata⟩, fun j => ?_⟩
    rw [hrcv, ReceiveBuffer.removeOldestInOrder_stream]
    split_ifs with hj
    · rw [hj, RcvBuffer.removeOldestInOrder_closeAt]
    · rfl

theorem step_accepted (hs : e.step P l op = some e') (k : Nat) : e.accepted k <+: e'.accepted k := by
  cases op with
  | write j d wake =>
    obtain ⟨r, _, rfl⟩ := Option.map_eq_some_iff.mp hs
    exact prefix_update e.accepted j k _
  | flush j now w | decode p u rawLen now =>
    obtain ⟨r, _, rfl⟩ := Option.map_eq_some_iff.mp hs
    exact List.prefix_rfl
  | read j | ping j | close j | cleanup j | handshake c =>
    cases hs
    exact List.prefix_rfl

/-- What is written names the stream that was flushed. -/
theorem step_sent (hs : e.step P l op = some e') :
    ∀ o ∈ e'.sent, o ∈ e.sent ∨ ∃ now w, op = .flush o.header.streamID now w := by
  cases op with
  | flush k now w =>
    obtain ⟨⟨c', out, r⟩, hf, rfl⟩ := Option.map_eq_some_iff.mp hs
    intro o ho
    obtain ho | ho := List.mem_append.mp ho
    · exact .inl ho
    · have hid : o.header.streamID = k := (flush_frame hf).ids o ho
      exact .inr ⟨now, w, by rw [hid]⟩
  | write k d wake | decode p u rawLen now =>
    obtain ⟨r, _, rfl⟩ := Option.map_eq_some_iff.mp hs
    exact fun o ho => .inl ho
  | read k | ping k | close k | cleanup k | handshake c =>
    cases hs
    exact fun o ho => .inl ho

/-- The send side of a stream is closed by `Close` or by a packet with CLOSE, and stays so. -/
theorem step_marks (h : e.conn.StreamsKeyed) (hs : e.step P l op = some e') (k : Nat) :
    (e'.conn.snd.stream k).closeAtOffset = (e.conn.snd.stream k).closeAtOffset ∨
      ((e.conn.snd.stream k).closeAtOffset = none ∧
        (op = .close k ∨ ∃ p u rawLen now, op = .decode p u rawLen now ∧ p.isClose = true ∧ p.streamID = k)) := by
  have hsnd : ∀ j, (e.conn.stream j).1.snd = e.conn.snd := fun j => by rw [Conn.stream_frame]
  cases op with
  | write j d wake =>
    obtain ⟨⟨c', n, err⟩, hw, rfl⟩ := Option.map_eq_some_iff.mp hs
    obtain rfl | ⟨_, snd, m, st, hq, rfl⟩ := Conn.write_cases hw
    · exact .inl (by rw [hsnd])
    · rw [hsnd] at hq
      exact .inl (SendBuffer.sameMarks_queueData hq k)
  | read j =>
    cases hs
    have hr := (read_keyed (Conn.stream_streamID h j).2 j (e.conn.stream j).2).2
    dsimp only
    rw [hr, hsnd]
    exact .inl rfl
  | ping j =>
    cases hs
    dsimp only [Conn.ping]
    rw [hsnd]
    exact .inl (SendBuffer.sameMarks_queuePing _ _ k)
  | close j =>
    cases hs
    dsimp only [Conn.closeStream]
    rw [hsnd, (Conn.stream_streamID h j).1]
    refine (SendBuffer.close_mark _ j k).imp_right fun hj => ?_
    exact ⟨hj.2, .inl (by rw [hj.1])⟩
  | flush j now w =>
    obtain ⟨⟨c', out, r⟩, hf, rfl⟩ := Option.map_eq_some_iff.mp hs
    exact .inl ((flush_frame hf).marks k)
  | decode p u rawLen now =>
    obtain ⟨c', hd, rfl⟩ := Option.map_eq_some_iff.mp hs
    refine (Conn.decode_marks h hd k).imp_right fun hk => ?_
    exact ⟨hk.1, .inr ⟨p, u, rawLen, now, rfl, hk.2⟩⟩
  | cleanup j | handshake c =>
    cases hs
    exact .inl rfl

/-- Of the calls that receive nothing only a read touches the received data or closes
a stream. -/
theorem step_rcv (hs : e.step P l op = some e') (hr : ∀ k, op ≠ .read k)
    (hd : ∀ p u rawLen now, op ≠ .decode p u rawLen now) :
    (∀ j, e'.conn.rcv.stream j = e.conn.rcv.stream j) ∧ e'.delivered = e.delivered ∧
      ∀ j, e'.conn.closedAtNano j = e.conn.closedAtNano j ∨ e'.conn.closedAtNano j = 0 := by
  have hrcv : ∀ k, (e.conn.stream k).1.rcv = e.conn.rcv := fun k => by rw [Conn.stream_frame]
  have hold : ∀ k j, (e.conn.stream k).1.closedAtNano j = e.conn.closedAtNano j :=
    fun k j => Conn.closedAtNano_stream e.conn k j
  cases op with
  | read k => exact absurd rfl (hr k)
  | decode p u rawLen now => exact absurd rfl (hd p u rawLen now)
  | write k d wake =>
    obtain ⟨⟨c', n, err⟩, hw, rfl⟩ := Option.map_eq_some_iff.mp hs
    obtain rfl | ⟨_, snd, m, st, hq, rfl⟩ := Conn.write_cases hw
    · exact ⟨fun j => by rw [hrcv], rfl, fun j => .inl (hold k j)⟩
    · exact ⟨fun j => by rw [hrcv], rfl, fun j => .inl (hold k j)⟩
  | ping k | close k =>
    cases hs
    exact ⟨fun j => congrArg (·.stream j) (hrcv k), rfl, fun j => .inl (hold k j)⟩
  | flush k now w =>
    obtain ⟨⟨c', out, r⟩, hf, rfl⟩ := Option.map_eq_some_iff.mp hs
    have hfr := flush_frame hf
    refine ⟨fun j => ?_, rfl, fun j => .inl (Conn.closedAtNano_congr hfr.streams j)⟩
    dsimp only
    rw [hfr.rcv]
    dsimp only [Conn.takeAck]
    unfold ReceiveBuffer.getSndAck
    cases e.conn.rcv.ackList <;> rfl
  | cleanup k =>
    cases hs
    refine ⟨fun j => rfl, rfl, fun j => ?_⟩
    unfold Conn.closedAtNano
    dsimp only [Conn.cleanupStream]
    rw [InsertionMap.get?_erase]
    split_ifs
    · exact .inr rfl
    · exact .inl rfl
  | handshake c =>
    cases hs
    exact ⟨fun j => rfl, rfl, fun j => .inl rfl⟩

end Endpoint

end Qotp
