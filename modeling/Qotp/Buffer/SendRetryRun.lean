import Qotp.Buffer.SendRetry

namespace Qotp

open Framework Transmission

/-- A send buffer in use, with the place of each entry's first byte, everything handed out, and the last time. -/
structure TimedRun extends SndRun where
  start : Nat → PacketKey → Nat := fun _ _ => 0
  handed : List Transmission := []
  clock : Nat := 0

namespace TimedRun

def new (capacity : Int) : TimedRun := { toSndRun := .new capacity }

/-- What an operation hands out. -/
def transmissions (r : TimedRun) : SndOp → List Transmission
  | .readyToSend k msgType ack mtu now =>
    (r.snd.stream k).sentAs k now (r.snd.readyToSend k msgType ack mtu now).2.1
  | .readyToRetransmit k ack mtu rto msgType now =>
    match r.snd.readyToRetransmit k ack mtu rto msgType now with
    | some (_, .ok (d, _, _)) => (r.snd.stream k).resentAs (r.start k) k now rto d
    | _ => []
  | _ => []

def places (r : TimedRun) : SndOp → Nat → PacketKey → Nat
  | .readyToSend k msgType ack mtu now =>
    Function.update r.start k ((r.snd.stream k).sentStart (r.start k) (r.snd.readyToSend k msgType ack mtu now).2.1)
  | .readyToRetransmit k ack mtu rto msgType now =>
    match r.snd.readyToRetransmit k ack mtu rto msgType now with
    | some (_, .ok (d, _, _)) => Function.update r.start k ((r.snd.stream k).resentStart (r.start k) d)
    | _ => r.start
  | _ => r.start

def time (r : TimedRun) : SndOp → Nat
  | .readyToSend _ _ _ _ now => now
  | .readyToRetransmit _ _ _ _ _ now => now
  | _ => r.clock

/-- The buffer takes its own step; the rest only records it. -/
def step (r : TimedRun) (op : SndOp) : Option TimedRun :=
  (r.toSndRun.step op).map fun s =>
    { toSndRun := s
      start := r.places op
      handed := r.handed ++ r.transmissions op
      clock := r.time op }

/-- Times do not decrease, and an RTO is at most `maxRTO`. -/
def Timely (r : TimedRun) (op : SndOp) : Prop :=
  r.Sized op ∧ r.clock ≤ r.time op ∧
    match op with
    | .readyToRetransmit _ _ _ rto _ now => rto ≤ maxRTO ∧ now < 2 ^ 64
    | _ => True

instance (r : TimedRun) : ∀ op, Decidable (r.Timely op)
  | .readyToRetransmit _ _ _ _ _ _ => inferInstanceAs (Decidable (_ ∧ _ ∧ _ ∧ _))
  | .queueData _ _ | .queuePing _ | .close _ | .readyToSend _ _ _ _ _ | .acknowledgeRange _ =>
    inferInstanceAs (Decidable (_ ∧ _ ∧ True))

/-- The transmissions of byte `i` of stream `k`. -/
def history (r : TimedRun) (k i : Nat) : List Transmission := r.handed.filter fun t => t.Covers k i

structure Inv (r : TimedRun) : Prop where
  placed : ∀ k, (r.snd.stream k).Placed (r.accepted k) (r.history k) (r.start k) r.clock
  handed : ∀ t ∈ r.handed, IsAt (r.accepted t.streamID) t.start t.data
  emitted : r.emitted.map (fun p => (p.1, p.2.2)) = r.handed.map fun t => (t.streamID, t.data)

theorem inv_new (capacity : Int) : Inv (new capacity) :=
  ⟨fun _ => StreamBuffer.placed_new _ 0, fun _ ht => (by cases ht), rfl⟩

/-- Every run of the buffer is the buffer's part of a recorded one. -/
theorem run_of_sndRun {r : TimedRun} {s : SndRun} {ops : List SndOp} (h : run SndRun.step r.toSndRun ops = some s) :
    ∃ r', run step r ops = some r' ∧ r'.toSndRun = s := by
  induction ops generalizing r with
  | nil =>
    cases h
    exact ⟨r, rfl, rfl⟩
  | cons op ops ih =>
    obtain ⟨t, ht, hr⟩ := (run_cons SndRun.step _ op ops s).mp h
    obtain ⟨r', hr', rfl⟩ := ih (r := ⟨t, r.places op, r.handed ++ r.transmissions op, r.time op⟩) hr
    exact ⟨r', (run_cons step r op ops r').mpr ⟨_, by rw [step, ht]; rfl, hr'⟩, rfl⟩

variable {r r' : TimedRun} {k : Nat}

/-- The data of a packet, whatever its offset field. -/
theorem handedOut_data (k : Nat) (p : StreamBuffer.Packet) :
    (SndRun.handedOut k p).map (fun q => (q.1, q.2.2)) = p.1.toList.map fun d => (k, d) := by
  obtain ⟨d, o, c⟩ := p
  cases d <;> rfl

theorem sentAs_data (s : StreamBuffer) (k now : Nat) (d : Option Bytes) :
    (s.sentAs k now d).map (fun t => (t.streamID, t.data)) = d.toList.map fun d => (k, d) := by
  cases d <;> rfl

theorem resentAs_data {s s' : StreamBuffer} {ack : Option Ack} {mtu : Int} {rto now : Nat} {msgType : CryptoMsgType}
    {d : Option Bytes} {o : Nat} {isClose : Bool}
    (h : s.readyToRetransmit ack mtu rto msgType now = some (s', .ok (d, o, isClose))) (start : PacketKey → Nat) (k : Nat) :
    (s.resentAs start k now rto d).map (fun t => (t.streamID, t.data)) = d.toList.map fun d => (k, d) := by
  unfold StreamBuffer.resentAs
  cases d with
  | none => cases s.dataInFlightMap.first <;> rfl
  | some d =>
    obtain ⟨key, info, limit, hf, _⟩ := StreamBuffer.readyToRetransmit_expired h
    rw [hf]
    rfl

/-- The transmissions of a byte, one by one. -/
theorem filter_covers (H : Nat → List Transmission) {handed l : List Transmission}
    (hl : ∀ t ∈ l, t.streamID = k) (hH : ∀ i, H i = handed.filter fun t => t.Covers k i) (i : Nat) :
    (handed ++ l).filter (fun t => t.Covers k i) = l.foldl StreamBuffer.extend H i := by
  induction l generalizing handed H with
  | nil => rw [List.append_nil, List.foldl_nil, hH]
  | cons t l ih =>
    rw [List.append_cons, List.foldl_cons]
    apply ih
    · exact fun u hu => hl u (List.mem_cons_of_mem t hu)
    · intro j
      have hk : t.streamID = k := hl t List.mem_cons_self
      rw [List.filter_append, StreamBuffer.extend, hH]
      by_cases hc : t.start ≤ j ∧ j < t.start + t.data.length
      · have hcov : t.Covers k j := ⟨hk, hc⟩
        rw [if_pos hc, List.filter_cons_of_pos (by simpa using hcov), List.filter_nil]
      · have hcov : ¬ t.Covers k j := fun h => hc h.2
        rw [if_neg hc, List.filter_cons_of_neg (by simpa using hcov), List.filter_nil, List.append_nil]

/-- The invariant for a change of stream `k` that accepts nothing and hands out `l`. -/
theorem inv_stream (hi : Inv r) {st : StreamBuffer} {start : PacketKey → Nat} {l : List Transmission}
    (hacc : r'.accepted = r.accepted) (hstr : ∀ j, r'.snd.stream j = if j = k then st else r.snd.stream j)
    (hstart : r'.start = Function.update r.start k start) (hh : r'.handed = r.handed ++ l) (hclock : r.clock ≤ r'.clock)
    (hp : st.Placed (r.accepted k) (l.foldl StreamBuffer.extend (r.history k)) start r'.clock)
    (hl : StreamBuffer.Genuinely (r.accepted k) k l)
    (hem : r'.emitted.map (fun p => (p.1, p.2.2)) =
      r.emitted.map (fun p => (p.1, p.2.2)) ++ l.map fun t => (t.streamID, t.data)) : Inv r' := by
  refine ⟨fun j => ?_, fun t ht => ?_, ?_⟩
  · rw [hacc, hstr j, hstart]
    unfold history
    rw [hh]
    by_cases hj : j = k
    · subst hj
      rw [if_pos rfl, Function.update_self, funext (filter_covers _ (fun t ht => (hl t ht).1) fun _ => rfl)]
      exact hp
    · have hnone : ∀ i, l.filter (fun t => t.Covers j i) = [] := by
        intro i
        refine List.filter_eq_nil_iff.mpr fun t ht hc => hj ?_
        exact (of_decide_eq_true hc).1.symm.trans (hl t ht).1
      rw [if_neg hj, Function.update_of_ne hj]
      simp only [List.filter_append, hnone, List.append_nil]
      exact (hi.placed j).clock_mono hclock
  · rw [hacc]
    rw [hh] at ht
    obtain ht | ht := List.mem_append.mp ht
    · exact hi.handed t ht
    · obtain ⟨hk, hat⟩ := hl t ht
      rw [hk]
      exact hat
  · rw [hem, hh, List.map_append, hi.emitted]

/-- The same where nothing is handed out. -/
theorem inv_quiet (hi : Inv r) {st : StreamBuffer} (hacc : r'.accepted = r.accepted)
    (hstr : ∀ j, r'.snd.stream j = if j = k then st else r.snd.stream j) (hstart : r'.start = r.start)
    (hh : r'.handed = r.handed ++ []) (hclock : r.clock ≤ r'.clock)
    (hp : st.Placed (r.accepted k) (r.history k) (r.start k) r'.clock)
    (hem : r'.emitted.map (fun p => (p.1, p.2.2)) = r.emitted.map fun p => (p.1, p.2.2)) : Inv r' := by
  apply inv_stream (l := []) hi hacc hstr
  · rw [hstart, Function.update_eq_self]
  · exact hh
  · exact hclock
  · exact hp
  · exact StreamBuffer.genuinely_nil _ k
  · rw [hem, List.map_nil, List.append_nil]

theorem step_queueData (hi : Inv r) {d : Bytes} (h : r.step (.queueData k d) = some r') : Inv r' := by
  obtain ⟨s, hs, rfl⟩ := Option.map_eq_some_iff.mp h
  obtain ⟨⟨snd, n, st⟩, hq, rfl⟩ := Option.map_eq_some_iff.mp hs
  have hstr := SendBuffer.queueData_stream hq
  have hhanded : r.handed ++ r.transmissions (.queueData k d) = r.handed := List.append_nil _
  rw [hhanded]
  refine ⟨fun j => ?_, fun t ht => ?_, hi.emitted⟩
  · change (snd.stream j).Placed (Function.update r.accepted k _ j) (r.history j) (r.start j) r.clock
    rw [hstr j]
    by_cases hj : j = k
    · subst hj
      rw [if_pos rfl, Function.update_self]
      exact (hi.placed j).queue _
    · rw [if_neg hj, Function.update_of_ne hj]
      exact hi.placed j
  · have hat := hi.handed t ht
    change IsAt (Function.update r.accepted k _ t.streamID) _ _
    by_cases hj : t.streamID = k
    · rw [hj, Function.update_self]
      exact (hj ▸ hat).append
    · rw [Function.update_of_ne hj]
      exact hat

theorem step_readyToSend (hi : Inv r) {msgType : CryptoMsgType} {ack : Option Ack} {mtu : Int} {now : Nat}
    (hok : r.Timely (.readyToSend k msgType ack mtu now))
    (h : r.step (.readyToSend k msgType ack mtu now) = some r') : Inv r' := by
  cases h
  have hclock : r.clock ≤ now := hok.2.1
  have hstr := fun j => r.snd.readyToSend_stream k j msgType ack mtu now
  obtain ⟨hp, hl⟩ := (hi.placed k).readyToSend hok.1 hclock k
  rw [← (hstr k).2] at hp hl
  refine inv_stream hi rfl (fun j => (hstr j).1) rfl rfl hclock hp hl ?_
  rw [List.map_append, handedOut_data, transmissions, sentAs_data]

theorem step_readyToRetransmit (hi : Inv r) {msgType : CryptoMsgType} {ack : Option Ack} {mtu : Int} {rto now : Nat}
    (hok : r.Timely (.readyToRetransmit k ack mtu rto msgType now))
    (h : r.step (.readyToRetransmit k ack mtu rto msgType now) = some r') : Inv r' := by
  obtain ⟨s, hs, rfl⟩ := Option.map_eq_some_iff.mp h
  obtain ⟨⟨snd, res⟩, hr, rfl⟩ := Option.map_eq_some_iff.mp hs
  have hclock : r.clock ≤ now := hok.2.1
  obtain ⟨hsize, _, hrto, hnow⟩ := hok
  obtain ⟨st, hst, hstr⟩ := SendBuffer.readyToRetransmit_stream hr
  cases res with
  | error e =>
    refine inv_quiet hi rfl hstr ?_ ?_ hclock ?_ ?_
    · simp only [places, hr]
    · simp only [transmissions, hr]
    · rw [StreamBuffer.readyToRetransmit_error hst]
      exact (hi.placed k).clock_mono hclock
    · rw [List.append_nil]
  | ok p =>
    obtain ⟨d, o, isClose⟩ := p
    obtain ⟨hp, hl⟩ := (hi.placed k).readyToRetransmit hsize hclock hnow hrto k hst
    refine inv_stream hi rfl hstr ?_ ?_ hclock hp hl ?_
    · simp only [places, hr]
    · simp only [transmissions, hr]
    · rw [List.map_append, handedOut_data, resentAs_data hst]

theorem step_inv (r : TimedRun) (op : SndOp) (r' : TimedRun) (hi : Inv r) (hok : r.Timely op)
    (h : r.step op = some r') : Inv r' := by
  cases op with
  | queueData k d => exact step_queueData hi h
  | queuePing k =>
    cases h
    exact inv_quiet hi rfl (SendBuffer.stream_put r.snd k · _) rfl rfl le_rfl
      ((hi.placed k).sub (fun _ he => he) rfl rfl) rfl
  | close k =>
    cases h
    exact inv_quiet hi rfl (SendBuffer.stream_put r.snd k · _) rfl rfl le_rfl (hi.placed k).close rfl
  | readyToSend k msgType ack mtu now => exact step_readyToSend hi hok h
  | readyToRetransmit k ack mtu rto msgType now => exact step_readyToRetransmit hi hok h
  | acknowledgeRange a =>
    cases h
    obtain ⟨st, hr, _⟩ | ⟨info, _, _, _, hstr⟩ := r.snd.acknowledgeRange_cases a
    · exact inv_quiet hi rfl (SendBuffer.stream_same (congrArg Prod.fst hr) a.streamID) rfl rfl le_rfl (hi.placed _) rfl
    · exact inv_quiet hi rfl hstr rfl rfl le_rfl
        ((hi.placed _).sub (fun e he => (InsertionMap.mem_erase.mp he).2) rfl rfl) rfl

theorem run_keeps_inv {ops : List SndOp} (hi : Inv r) (hok : Along step Timely r ops) (h : run step r ops = some r') :
    Inv r' := run_inv_along step_inv hi hok h

/-- The packet carries the data, and its offset is their place. -/
def SentFrom (p : Nat × Nat × Bytes) (t : Transmission) : Prop :=
  p.1 = t.streamID ∧ p.2.2 = t.data ∧ (t.data ≠ [] → p.2.1 = t.start)

/-- The recorded places are those of the keys and of the packets. -/
structure Offsets (r : TimedRun) : Prop where
  named : ∀ k, (r.snd.stream k).KeysTellPlace (r.start k)
  emitted : List.Forall₂ SentFrom r.emitted r.handed

theorem offsets_new (capacity : Int) : Offsets (new capacity) := by
  refine ⟨fun k e he => ?_, .nil⟩
  cases he

theorem sentFrom_handedOut {p : StreamBuffer.Packet} {s : StreamBuffer} {now : Nat}
    (h : ∀ d, p.1 = some d → d ≠ [] → p.2.1 = s.bytesSentOffset) :
    List.Forall₂ SentFrom (SndRun.handedOut k p) (s.sentAs k now p.1) := by
  obtain ⟨d, o, c⟩ := p
  cases d with
  | none => exact .nil
  | some d => exact .cons ⟨rfl, rfl, h d rfl⟩ .nil

theorem resentFrom_handedOut {s s' : StreamBuffer} {ack : Option Ack} {mtu : Int} {rto now : Nat}
    {msgType : CryptoMsgType} {d : Option Bytes} {o : Nat} {isClose : Bool} {start : PacketKey → Nat}
    (hr : s.readyToRetransmit ack mtu rto msgType now = some (s', .ok (d, o, isClose)))
    (h : ∀ key info x, s.dataInFlightMap.first = some (key, info) → d = some x → x ≠ [] → o = start key) :
    List.Forall₂ SentFrom (SndRun.handedOut k (d, o, isClose)) (s.resentAs start k now rto d) := by
  unfold StreamBuffer.resentAs
  cases d with
  | none => cases s.dataInFlightMap.first <;> exact .nil
  | some d =>
    obtain ⟨key, info, limit, hf, _⟩ := StreamBuffer.readyToRetransmit_expired hr
    rw [hf]
    exact .cons ⟨rfl, rfl, h key info d hf rfl⟩ .nil

/-- A change of stream `k`, with the packet it hands out. -/
theorem offsets_stream (ho : Offsets r) {st : StreamBuffer} {start : PacketKey → Nat} {l : List Transmission}
    {packets : List (Nat × Nat × Bytes)} (hstr : ∀ j, r'.snd.stream j = if j = k then st else r.snd.stream j)
    (hstart : r'.start = Function.update r.start k start) (hn : st.KeysTellPlace start)
    (hem : r'.emitted = r.emitted ++ packets) (hh : r'.handed = r.handed ++ l) (hl : List.Forall₂ SentFrom packets l) : Offsets r' := by
  refine ⟨fun j => ?_, ?_⟩
  · rw [hstr j, hstart]
    by_cases hj : j = k
    · subst hj
      rw [if_pos rfl, Function.update_self]
      exact hn
    · rw [if_neg hj, Function.update_of_ne hj]
      exact ho.named j
  · rw [hem, hh]
    exact List.rel_append ho.emitted hl

theorem offsets_quiet (ho : Offsets r) {st : StreamBuffer}
    (hstr : ∀ j, r'.snd.stream j = if j = k then st else r.snd.stream j) (hstart : r'.start = r.start)
    (hn : st.KeysTellPlace (r.start k)) (hem : r'.emitted = r.emitted) (hh : r'.handed = r.handed ++ []) :
    Offsets r' := by
  refine offsets_stream ho hstr ?_ hn (hem.trans (List.append_nil _).symm) hh .nil
  rw [hstart, Function.update_eq_self]

theorem step_offsets (r : TimedRun) (op : SndOp) (r' : TimedRun) (hi : SndRun.Inv r.toSndRun) (ho : Offsets r)
    (hadm : r.Admissible op) (h : r.step op = some r') : Offsets r' := by
  obtain ⟨s, hs, rfl⟩ := Option.map_eq_some_iff.mp h
  cases op with
  | queueData k d =>
    obtain ⟨⟨snd, n, st⟩, hq, rfl⟩ := Option.map_eq_some_iff.mp hs
    exact offsets_quiet ho (SendBuffer.queueData_stream hq) rfl ((ho.named k).sub fun _ he => he) rfl rfl
  | queuePing k =>
    cases hs
    exact offsets_quiet ho (SendBuffer.stream_put r.snd k · _) rfl ((ho.named k).sub fun _ he => he) rfl rfl
  | close k =>
    cases hs
    exact offsets_quiet ho (SendBuffer.stream_put r.snd k · _) rfl (ho.named k).close rfl rfl
  | readyToSend k msgType ack mtu now =>
    cases hs
    have hstr := fun j => r.snd.readyToSend_stream k j msgType ack mtu now
    obtain ⟨hn, hoff⟩ := (ho.named k).readyToSend hadm.1 hadm.2 now
    rw [← (hstr k).2] at hn hoff
    exact offsets_stream ho (fun j => (hstr j).1) rfl hn rfl rfl (sentFrom_handedOut hoff)
  | readyToRetransmit k ack mtu rto msgType now =>
    obtain ⟨⟨snd, res⟩, hr, rfl⟩ := Option.map_eq_some_iff.mp hs
    obtain ⟨st, hst, hstr⟩ := SendBuffer.readyToRetransmit_stream hr
    cases res with
    | error e =>
      refine offsets_quiet ho hstr ?_ ?_ (List.append_nil _) ?_
      · simp only [places, hr]
      · rw [StreamBuffer.readyToRetransmit_error hst]
        exact ho.named k
      · simp only [transmissions, hr]
    | ok p =>
      obtain ⟨d, o, isClose⟩ := p
      obtain ⟨hn, hoff⟩ := (ho.named k).readyToRetransmit (hi.conserves k) hadm.1 hadm.2 hst
      refine offsets_stream ho hstr ?_ hn rfl ?_ (resentFrom_handedOut hst hoff)
      · simp only [places, hr]
      · simp only [transmissions, hr]
  | acknowledgeRange a =>
    cases hs
    obtain ⟨st, hr, _⟩ | ⟨info, _, _, _, hstr⟩ := r.snd.acknowledgeRange_cases a
    · exact offsets_quiet ho (SendBuffer.stream_same (congrArg Prod.fst hr) a.streamID) rfl (ho.named _) rfl rfl
    · exact offsets_quiet ho hstr rfl ((ho.named _).sub fun e he => (InsertionMap.mem_erase.mp he).2) rfl rfl

theorem run_offsets {ops : List SndOp} (hi : SndRun.Inv r.toSndRun) (ho : Offsets r)
    (hadm : Along step (fun r op => r.Admissible op) r ops) (h : run step r ops = some r') : Offsets r' := by
  have hstep : ∀ r op r', SndRun.Inv r.toSndRun ∧ Offsets r → r.Admissible op → step r op = some r' →
      SndRun.Inv r'.toSndRun ∧ Offsets r' := by
    intro r op r' hi hok h
    refine ⟨?_, step_offsets r op r' hi.1 hi.2 hok h⟩
    obtain ⟨s, hs, rfl⟩ := Option.map_eq_some_iff.mp h
    exact SndRun.step_inv _ op s hi.1 hok hs
  exact (run_inv_along hstep ⟨hi, ho⟩ hadm h).2

/-- For every stream of every run with times that do not decrease: the count of an entry is the number of times each
of its bytes was handed out, its time the last of them; no byte goes out more than `maxRetry + 1` times, nor before
the doubled RTO is over; behind the last retry an error is reported and nothing changes. -/
theorem retransmission_discipline (capacity : Int) (ops : List SndOp) (s : SndRun)
    (hok : Along step Timely (new capacity) ops) (hrun : run SndRun.step (SndRun.new capacity) ops = some s) (k : Nat) :
    ∃ r : TimedRun, (run step (new capacity) ops = some r ∧ r.toSndRun = s ∧
      r.emitted.map (fun p => (p.1, p.2.2)) = r.handed.map fun t => (t.streamID, t.data)) ∧
    (∀ t ∈ r.handed, IsAt (r.accepted t.streamID) t.start t.data) ∧
    (∀ e ∈ (r.snd.stream k).dataInFlightMap.entries, IsAt (r.accepted k) (r.start k e.1) e.2.data ∧
      ∀ i, r.start k e.1 ≤ i → i < r.start k e.1 + e.2.data.length →
        (r.history k i).length = e.2.sentNr ∧ (r.history k i).getLast?.map (·.nowNano) = some e.2.sentTimeNano) ∧
    (∀ i, (r.history k i).length ≤ maxRetry + 1 ∧ Spaced (r.history k i)) ∧
    (∀ key info, (r.snd.stream k).dataInFlightMap.first = some (key, info) → maxRetry < info.sentNr →
      ∀ ack mtu rto msgType now, ∃ snd msg, r.snd.readyToRetransmit k ack mtu rto msgType now = some (snd, .error msg) ∧
        ∀ j, snd.stream j = r.snd.stream j) ∧
    (Along step (fun r op => r.Admissible op) (new capacity) ops → Offsets r) := by
  obtain ⟨r, hr, hs⟩ := run_of_sndRun (r := new capacity) hrun
  have hi := run_keeps_inv (inv_new capacity) hok hr
  have hp := hi.placed k
  refine ⟨r, ⟨hr, hs, hi.emitted⟩, hi.handed, fun e he => ⟨hp.content e he, hp.counted e he⟩,
    fun i => ⟨hp.bounded i, hp.spaced i⟩, fun key info hf hnr ack mtu rto msgType now => ?_, fun hadm => ?_⟩
  · obtain ⟨msg, hr⟩ := StreamBuffer.readyToRetransmit_refused hf hnr ack mtu rto msgType now
    obtain ⟨snd, hsnd⟩ := SendBuffer.readyToRetransmit_of_stream hr
    obtain ⟨st, hst, hstr⟩ := SendBuffer.readyToRetransmit_stream hsnd
    refine ⟨snd, msg, hsnd, fun j => ?_⟩
    rw [hstr j, StreamBuffer.readyToRetransmit_error hst]
    split_ifs with hj
    · rw [hj]
    · rfl
  · exact run_offsets (SndRun.inv_new capacity) (offsets_new capacity) hadm hr

theorem splitAndAck_timely : Along step Timely (new 100) SndRun.splitAndAck := by decide +kernel

/-- Byte 3 went out twice, byte 5 once. -/
theorem splitAndAck_counted :
    ∃ r : TimedRun, run step (new 100) SndRun.splitAndAck = some r ∧ (r.history 0 3).length = 2 ∧
      (r.history 0 5).length = 1 ∧ Spaced (r.history 0 3) := by
  obtain ⟨r, ⟨hr, _⟩, _, _, hspaced, _⟩ :=
    retransmission_discipline 100 SndRun.splitAndAck _ splitAndAck_timely rfl 0
  cases hr
  exact ⟨_, rfl, rfl, rfl, (hspaced 3).2⟩

end TimedRun

end Qotp
