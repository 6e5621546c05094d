import Qotp.Buffer.SendInv
import Qotp.Framework.Run

namespace Qotp

open Framework

/-- A send buffer in use: what it accepted for each stream, the acks that removed an
entry, and the packets it handed out (stream, offset, data). -/
structure SndRun where
  snd : SendBuffer
  accepted : Nat → Bytes := fun _ => []
  okAcks : List Ack := []
  emitted : List (Nat × Nat × Bytes) := []

inductive SndOp where
  | queueData (streamID : Nat) (userData : Bytes)
  | queuePing (streamID : Nat)
  | close (streamID : Nat)
  | readyToSend (streamID : Nat) (msgType : CryptoMsgType) (ack : Option Ack) (mtu : Int) (nowNano : Nat)
  | readyToRetransmit (streamID : Nat) (ack : Option Ack) (mtu : Int) (rtoNano : Nat)
      (msgType : CryptoMsgType) (nowNano : Nat)
  | acknowledgeRange (ack : Ack)

namespace SndRun

def new (capacity : Int) : SndRun := { snd := .new capacity }

/-- The packet handed out, if any. -/
def handedOut (k : Nat) (p : StreamBuffer.Packet) : List (Nat × Nat × Bytes) :=
  match p with
  | (some d, o, _) => [(k, o, d)]
  | (none, _, _) => []

def step (s : SndRun) : SndOp → Option SndRun
  | .queueData k d => (s.snd.queueData k d).map fun r =>
    { s with snd := r.1, accepted := Function.update s.accepted k (s.accepted k ++ d.take r.2.1) }
  | .queuePing k => some { s with snd := s.snd.queuePing k }
  | .close k => some { s with snd := s.snd.close k }
  | .readyToSend k msgType ack mtu now =>
    let r := s.snd.readyToSend k msgType ack mtu now
    some { s with snd := r.1, emitted := s.emitted ++ handedOut k r.2 }
  | .readyToRetransmit k ack mtu rto msgType now =>
    (s.snd.readyToRetransmit k ack mtu rto msgType now).map fun r =>
      { s with snd := r.1, emitted := s.emitted ++ (match r.2 with | .ok p => handedOut k p | .error _ => []) }
  | .acknowledgeRange a =>
    let r := s.snd.acknowledgeRange a
    some { s with snd := r.1, okAcks := if r.2.1 = .ok then s.okAcks ++ [a] else s.okAcks }

/-- Room for 0 to 65535 bytes behind the overhead, and an ack length of 16 bits. -/
def Sized (s : SndRun) : SndOp → Prop
  | .readyToSend k msgType ack mtu _ => StreamBuffer.MtuFits msgType ack mtu (s.snd.stream k).bytesSentOffset
  | .readyToRetransmit k ack mtu _ msgType _ => ∀ e, (s.snd.stream k).dataInFlightMap.first = some e →
      StreamBuffer.MtuFits msgType ack mtu (StreamBuffer.entryStart e)
  | .acknowledgeRange a => a.len < 2 ^ 16
  | _ => True

/-- What is sent, and sent again, starts below offset 2^48. -/
def SendsBelow (s : SndRun) : SndOp → Prop
  | .readyToSend k _ _ _ _ | .readyToRetransmit k _ _ _ _ _ => (s.snd.stream k).bytesSentOffset < 2 ^ 48
  | _ => True

/-- The domain: both. -/
def Admissible (s : SndRun) (op : SndOp) : Prop := s.SendsBelow op ∧ s.Sized op

instance (s : SndRun) : ∀ op, Decidable (s.Sized op)
  | .readyToSend _ _ _ _ _ => inferInstanceAs (Decidable (StreamBuffer.MtuFits _ _ _ _))
  | .readyToRetransmit k ack mtu _ msgType _ => inferInstanceAs (Decidable (∀ e ∈ (s.snd.stream k).dataInFlightMap.first,
      StreamBuffer.MtuFits msgType ack mtu (StreamBuffer.entryStart e)))
  | .acknowledgeRange _ => inferInstanceAs (Decidable (_ < _))
  | .queueData _ _ | .queuePing _ | .close _ => isTrue trivial

instance (s : SndRun) : ∀ op, Decidable (s.SendsBelow op)
  | .readyToSend _ _ _ _ _ | .readyToRetransmit _ _ _ _ _ _ => inferInstanceAs (Decidable (_ < _))
  | .queueData _ _ | .queuePing _ | .close _ | .acknowledgeRange _ => isTrue trivial

instance (s : SndRun) (op : SndOp) : Decidable (s.Admissible op) := inferInstanceAs (Decidable (_ ∧ _))

/-- Byte `i` is in the range that the key of the ack names: the key keeps 48 bits of
the offset. -/
def AckCovers (a : Ack) (i : Nat) : Prop := a.offset % 2 ^ 48 ≤ i ∧ i < a.offset % 2 ^ 48 + a.len

/-- Byte `i` of stream `k` was in the range of a successful ack. -/
def Acknowledged (s : SndRun) (k i : Nat) : Prop := ∃ a ∈ s.okAcks, a.streamID = k ∧ AckCovers a i

structure Inv (s : SndRun) : Prop where
  conserves : ∀ k, (s.snd.stream k).Conserves (s.accepted k) (s.Acknowledged k)
  emitted : ∀ p ∈ s.emitted, p.2.2 ≠ [] → IsAt (s.accepted p.1) p.2.1 p.2.2

theorem inv_new (capacity : Int) : Inv (new capacity) :=
  ⟨fun _ => StreamBuffer.conserves_new, fun _ hp => by cases hp⟩

variable {s t : SndRun}

/-- The invariant for a change of one stream that accepts and acknowledges nothing. -/
theorem inv_stream (hi : Inv s) {snd : SendBuffer} {st : StreamBuffer} {k : Nat}
    {emitted : List (Nat × Nat × Bytes)}
    (hstr : ∀ j, snd.stream j = if j = k then st else s.snd.stream j)
    (hc : st.Conserves (s.accepted k) (s.Acknowledged k))
    (hem : ∀ p ∈ emitted, p ∈ s.emitted ∨ (p.2.2 ≠ [] → IsAt (s.accepted p.1) p.2.1 p.2.2)) :
    Inv { s with snd := snd, emitted := emitted } := by
  refine ⟨fun j => ?_, fun p hp => ?_⟩
  · have := hstr j
    change (snd.stream j).Conserves (s.accepted j) (s.Acknowledged j)
    rw [this]
    split_ifs with hj
    · exact hj ▸ hc
    · exact hi.conserves j
  · cases hem p hp with
    | inl hp => exact hi.emitted p hp
    | inr hat => exact hat

theorem handedOut_isAt {k : Nat} {p : StreamBuffer.Packet}
    (h : ∀ d o c, p = (some d, o, c) → d ≠ [] → IsAt (s.accepted k) o d) :
    ∀ q ∈ s.emitted ++ handedOut k p,
      q ∈ s.emitted ∨ (q.2.2 ≠ [] → IsAt (s.accepted q.1) q.2.1 q.2.2) := by
  intro q hq
  cases List.mem_append.mp hq with
  | inl hq => exact .inl hq
  | inr hq =>
    obtain ⟨d, o, c⟩ := p
    cases d with
    | none => cases hq
    | some d =>
      obtain rfl := List.mem_singleton.mp hq
      exact .inr (h d o c rfl)

theorem step_queueData (hi : Inv s) {k : Nat} {d : Bytes} (h : s.step (.queueData k d) = some t) :
    Inv t := by
  obtain ⟨⟨snd, n, st⟩, hq, rfl⟩ := Option.map_eq_some_iff.mp h
  have hstr := SendBuffer.queueData_stream hq
  refine ⟨fun j => ?_, fun p hp hne => ?_⟩
  · change (snd.stream j).Conserves (Function.update s.accepted k _ j) (s.Acknowledged j)
    rw [hstr j]
    by_cases hj : j = k
    · subst hj
      rw [if_pos rfl, Function.update_self]
      exact (hi.conserves j).queue _
    · rw [if_neg hj, Function.update_of_ne hj]
      exact hi.conserves j
  · have hat := hi.emitted p hp hne
    change IsAt (Function.update s.accepted k _ p.1) _ _
    by_cases hj : p.1 = k
    · rw [hj, Function.update_self]
      exact (hj ▸ hat).append
    · rw [Function.update_of_ne hj]
      exact hat

theorem step_acknowledgeRange (hi : Inv s) {a : Ack} (ha : a.len < 2 ^ 16)
    (h : s.step (.acknowledgeRange a) = some t) : Inv t := by
  cases h
  obtain ⟨st, hr, hst⟩ | ⟨info, hmem, hok, _, hstr⟩ := s.snd.acknowledgeRange_cases a
  · rw [hr]
    dsimp only
    rw [if_neg hst]
    exact hi
  rw [hok, if_pos rfl]
  have hmono : ∀ j i, s.Acknowledged j i →
      ∃ b ∈ s.okAcks ++ [a], b.streamID = j ∧ AckCovers b i := by
    intro j i hb
    obtain ⟨b, hb, h⟩ := hb
    exact ⟨b, List.mem_append_left _ hb, h⟩
  refine ⟨fun j => ?_, hi.emitted⟩
  change StreamBuffer.Conserves _ (fun i => ∃ b ∈ s.okAcks ++ [a], b.streamID = j ∧ AckCovers b i)
    ((s.snd.acknowledgeRange a).1.stream j)
  rw [hstr j]
  split_ifs with hj
  · subst hj
    refine (hi.conserves a.streamID).erase (hmono _) (fun v hv i h1 h2 => ?_)
    have hlen := (hi.conserves a.streamID).keyed _ hv
    dsimp only at hlen
    rw [createPacketKey_length _ _ ha] at hlen
    rw [createPacketKey_offset _ _ ha, ← hlen] at h2
    rw [createPacketKey_offset _ _ ha] at h1
    exact ⟨a, by simp, rfl, h1, h2⟩
  · exact (hi.conserves j).mono (hmono j)

theorem step_inv (s : SndRun) (op : SndOp) (t : SndRun) (hi : Inv s) (hadm : s.Admissible op)
    (h : s.step op = some t) : Inv t := by
  cases op with
  | queueData k d => exact step_queueData hi h
  | queuePing k =>
    cases h
    exact inv_stream hi (SendBuffer.stream_put s.snd k · _) ((hi.conserves k).congr rfl rfl rfl)
      (fun _ hp => .inl hp)
  | close k =>
    cases h
    exact inv_stream hi (SendBuffer.stream_put s.snd k · _) (hi.conserves k).close (fun _ hp => .inl hp)
  | readyToSend k msgType ack mtu now =>
    cases h
    have hstr := fun j => s.snd.readyToSend_stream k j msgType ack mtu now
    obtain ⟨hc, hd⟩ : _ ∧ ∀ d o c, ((s.snd.stream k).readyToSend msgType ack mtu now).2 = (some d, o, c) →
        d ≠ [] → IsAt (s.accepted k) o d := (hi.conserves k).readyToSend hadm.1 hadm.2
    rw [← (hstr k).2] at hd
    exact inv_stream hi (fun j => (hstr j).1) hc (handedOut_isAt hd)
  | readyToRetransmit k ack mtu rto msgType now =>
    obtain ⟨⟨snd, r⟩, hr, rfl⟩ := Option.map_eq_some_iff.mp h
    obtain ⟨s', hs, hstr⟩ := SendBuffer.readyToRetransmit_stream hr
    obtain ⟨hc, hd⟩ := (hi.conserves k).readyToRetransmit hadm.1 hadm.2 hs
    refine inv_stream hi hstr hc ?_
    cases r with
    | error e => exact fun p hp => .inl (by simpa using hp)
    | ok q => exact handedOut_isAt fun d o c hq => hd d o c (congrArg Except.ok hq)
  | acknowledgeRange a => exact step_acknowledgeRange hi hadm.2 h

theorem run_keeps_inv {ops : List SndOp} (hi : Inv s) (hadm : Along step Admissible s ops)
    (h : run step s ops = some t) : Inv t := run_inv_along step_inv hi hadm h

/-- For every stream: the queue is the unsent rest of the accepted bytes; each entry
in flight holds its own range, inside the sent bytes and apart from the others; a
sent byte that is in no entry was named by a successful ack. -/
theorem send_buffer_conserves (capacity : Int) (ops : List SndOp) (s : SndRun)
    (hadm : Along step Admissible (new capacity) ops) (hrun : run step (new capacity) ops = some s)
    (k : Nat) :
    (s.snd.stream k).queuedData = (s.accepted k).drop (s.snd.stream k).bytesSentOffset ∧
    (∀ e ∈ (s.snd.stream k).dataInFlightMap.entries, e.2.data ≠ [] →
      e.2.data = ((s.accepted k).drop (PacketKey.offset e.1)).take (PacketKey.length e.1) ∧
      PacketKey.offset e.1 + PacketKey.length e.1 ≤ (s.snd.stream k).bytesSentOffset) ∧
    (∀ e ∈ (s.snd.stream k).dataInFlightMap.entries, ∀ f ∈ (s.snd.stream k).dataInFlightMap.entries,
      e.1 ≠ f.1 → e.2.data ≠ [] → f.2.data ≠ [] →
      PacketKey.offset e.1 + PacketKey.length e.1 ≤ PacketKey.offset f.1 ∨
      PacketKey.offset f.1 + PacketKey.length f.1 ≤ PacketKey.offset e.1) ∧
    (∀ i < (s.snd.stream k).bytesSentOffset,
      (∀ e ∈ (s.snd.stream k).dataInFlightMap.entries,
        ¬ (PacketKey.offset e.1 ≤ i ∧ i < PacketKey.offset e.1 + PacketKey.length e.1)) →
      ∃ a ∈ s.okAcks, a.streamID = k ∧ AckCovers a i ∧
        (a.offset < 2 ^ 48 → a.offset ≤ i ∧ i < a.offset + a.len)) := by
  have hi := run_keeps_inv (inv_new capacity) hadm hrun
  have hc := hi.conserves k
  refine ⟨hc.queued, fun e he hne => ⟨?_, ?_⟩, fun e he f hf hne h1 h2 => ?_, fun i hlt hno => ?_⟩
  · rw [hc.keyed e he]
    exact (hc.content e he).eq_take
  · rw [hc.keyed e he]
    exact hc.below e he
  · rw [hc.keyed e he, hc.keyed f hf]
    exact hc.disjoint e he f hf hne h1 h2
  · cases hc.kept i hlt with
    | inl hin =>
      obtain ⟨e, he, h1, h2⟩ := hin
      rw [StreamBuffer.entryEnd_eq (hc.keyed e he)] at h2
      exact absurd ⟨h1, h2⟩ (hno e he)
    | inr hack =>
      obtain ⟨a, ha, hk, hcov⟩ := hack
      refine ⟨a, ha, hk, hcov, fun h48 => ?_⟩
      rw [AckCovers, Nat.mod_eq_of_lt h48] at hcov
      exact hcov

/-- Ten bytes are sent, split behind four on retransmission, and the first part acknowledged. -/
def splitAndAck : List SndOp :=
  [.queueData 0 [0, 1, 2, 3, 4, 5, 6, 7, 8, 9], .readyToSend 0 .data none 1400 0,
    .readyToRetransmit 0 none 43 100 .data 1000, .acknowledgeRange ⟨0, 0, 4, 0⟩]

theorem splitAndAck_admissible : Along step Admissible (new 100) splitAndAck := by decide +kernel

theorem splitAndAck_conserves :
    ∃ s, run step (new 100) splitAndAck = some s ∧ s.okAcks.length = 1 ∧
      (s.snd.stream 0).dataInFlightMap.entries.length = 1 ∧
      (s.snd.stream 0).queuedData = (s.accepted 0).drop (s.snd.stream 0).bytesSentOffset :=
  ⟨_, rfl, rfl, rfl, (send_buffer_conserves 100 splitAndAck _ splitAndAck_admissible rfl 0).1⟩

/-- One byte is sent and its entry removed by an ack for offset 2^48. -/
def aliasedAck : List SndOp :=
  [.queueData 0 [7], .readyToSend 0 .data none 1400 0, .acknowledgeRange ⟨0, 2 ^ 48, 1, 0⟩]

/-- The key drops the upper offset bits: byte 0 is in no entry and in no ack's range. -/
theorem aliasedAck_loses_byte :
    Along step Admissible (new 100) aliasedAck ∧
    ∃ s, run step (new 100) aliasedAck = some s ∧ 0 < (s.snd.stream 0).bytesSentOffset ∧
      (s.snd.stream 0).dataInFlightMap.entries = [] ∧
      ∀ a ∈ s.okAcks, ¬ (a.offset ≤ 0 ∧ 0 < a.offset + a.len) := by
  exact ⟨by decide +kernel, _, rfl, by decide, rfl, by decide⟩

end SndRun

end Qotp
