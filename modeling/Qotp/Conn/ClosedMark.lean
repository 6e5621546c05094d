import Qotp.Buffer.SendAckable
import Qotp.Buffer.SendOrder
import Qotp.Conn.Effects

namespace Qotp

open Framework

namespace StreamBuffer

/-- What `checkStreamFullyAcked` tests on one stream. -/
def Closes (s : StreamBuffer) : Prop := ∃ c, s.closeAtOffset = some c ∧ c ≤ s.ackedOffset

end StreamBuffer

namespace SendBuffer

/-- A stream without the entry that the ack names. -/
def remaining (sb : SendBuffer) (a : Ack) (streamID : Nat) : StreamBuffer :=
  if streamID = a.streamID then
    { sb.stream streamID with
      dataInFlightMap := (sb.stream streamID).dataInFlightMap.erase (createPacketKey a.offset a.len) }
  else sb.stream streamID

theorem afterAck_stream (sb : SendBuffer) (a : Ack) (k : Nat) : (sb.afterAck (some a)).stream k = sb.remaining a k := by
  change (sb.acknowledgeRange a).1.stream k = _
  unfold remaining
  obtain ⟨st, hr, hst⟩ | ⟨info, _, _, _, hstr⟩ := sb.acknowledgeRange_cases a
  · -- an ack that names nothing in flight leaves the streams as they are
    have hnone : (sb.stream a.streamID).dataInFlightMap.get? (createPacketKey a.offset a.len) = none := by
      by_contra hsome
      obtain ⟨info, hi⟩ := Option.ne_none_iff_exists'.mp hsome
      have hok := (sb.acknowledgeRange_ok_iff a info.sentTimeNano).mpr ⟨info, hi, rfl⟩
      rw [hr] at hok
      exact hst (congrArg Prod.fst hok)
    rw [hr]
    split_ifs with hk
    · rw [hk, InsertionMap.erase_of_get?_eq_none hnone]
    · rfl
  · rw [hstr k]
    split_ifs with hk
    · rw [hk]
    · rfl

theorem ackCloses_iff (sb : SendBuffer) (a : Ack) (k : Nat) :
    sb.ackCloses k (some a) = true ↔ (sb.remaining a k).Closes := by
  rw [ackCloses, Option.isSome_some, Bool.true_and, fullyAcked_iff, afterAck_stream]
  rfl

end SendBuffer

namespace Conn

variable {Prv Pub : Type} {c c' : Conn Prv Pub} {p : PayloadHeader} {u : Option Bytes} {rawLen now : Nat} {a : Ack}

/-- The mark of a stream, if there is such a stream. -/
def closedAt (c : Conn Prv Pub) (streamID : Nat) : Option Nat := (c.streams.get? streamID).map Stream.closedAtNano

theorem stream_closedAt (c : Conn Prv Pub) (j k : Nat) :
    (c.stream j).1.closedAt k = if k = j then some ((c.closedAt j).getD 0) else c.closedAt k := by
  unfold stream closedAt
  cases hg : c.streams.get? j with
  | some s =>
    split_ifs with hk
    · rw [hk, hg]
      rfl
    · rfl
  | none =>
    dsimp only
    rw [InsertionMap.get?_put]
    split_ifs <;> rfl

/-- A packet with a header for stream `j` creates `j` and no other stream, and marks it alone; what is checked is
the send side under the id that the stored stream carries. -/
theorem decode_closedAt (h : c.decode p u rawLen now = some c') (k : Nat) :
    c'.closedAt k = if k = p.streamID then
      (if c.snd.ackCloses (c.storedID p.streamID) p.ack then some now else some ((c.closedAt p.streamID).getD 0))
      else c.closedAt k := by
  have hstr := (decode_effect h).streams
  have hnew := stream_closedAt c p.streamID k
  unfold closedAt at hnew ⊢
  rw [hstr]
  by_cases hk : k = p.streamID
  · rw [if_pos hk] at hnew ⊢
    split_ifs
    · rw [hk, InsertionMap.get?_put_self]
      rfl
    · exact hnew
  · rw [if_neg hk] at hnew ⊢
    split_ifs
    · rw [InsertionMap.get?_put_ne _ _ hk, hnew]
    · exact hnew

section AckedOffset

open SndRun

/-- The bytes of stream `k` below its close offset are sent and not in flight; in a run
inside the domain of the buffer an ack has named each of them. -/
structure ClosedAcked (capacity : Int) (ops : List SndOp) (s : SndRun) (k : Nat) : Prop where
  allAcked : (s.snd.stream k).AllAcked
  named : Along step Admissible (SndRun.new capacity) ops →
    ∀ closeAt, (s.snd.stream k).closeAtOffset = some closeAt → ∀ i < closeAt, s.Acknowledged k i

theorem closedAcked_of_fullyAcked {capacity : Int} {ops : List SndOp} {s : SndRun} {k : Nat}
    (hok : Along step Unsplit (SndRun.new capacity) ops) (hrun : run step (SndRun.new capacity) ops = some s)
    (hf : s.snd.fullyAcked k = true) : ClosedAcked capacity ops s k := by
  have hall := SendBuffer.allAcked_of_fullyAcked (run_inOrder hok hrun k) hf
  exact ⟨hall, fun hadm closeAt hc i hi =>
    (run_keeps_inv (inv_new capacity) hadm hrun).acknowledged hall hc hi⟩

/-- In every run that cuts no packet into two parts with data, nothing with data is in
flight below the acked offset, and a stream is only taken for fully acked, and marked
closed, when its bytes are acknowledged. -/
theorem acked_offset_sound {Prv Pub : Type} (capacity : Int) (ops : List SndOp) (s : SndRun)
    (hok : Along step Unsplit (SndRun.new capacity) ops) (hrun : run step (SndRun.new capacity) ops = some s) :
    (∀ k, ∀ e ∈ (s.snd.stream k).dataInFlightMap.entries, e.2.data ≠ [] →
      s.snd.getOffsetAcked k ≤ StreamBuffer.entryStart e) ∧
    ∀ c : Conn Prv Pub, c.snd = s.snd →
      (∀ k, c.checkStreamFullyAcked k = true → ClosedAcked capacity ops s k) ∧
      ∀ p u rawLen now c', c.decode p u rawLen now = some c' → ∀ k,
        (c'.closedAt k).getD 0 ≠ (c.closedAt k).getD 0 →
        ∃ a t, p.ack = some a ∧ run step (SndRun.new capacity) (ops ++ [.acknowledgeRange a]) = some t ∧
          ClosedAcked capacity (ops ++ [.acknowledgeRange a]) t (c.storedID k) := by
  refine ⟨fun k e he hne => ?_, fun c hc => ⟨fun k hk => ?_, fun p u rawLen now c' h k hmark => ?_⟩⟩
  · rw [SendBuffer.getOffsetAcked_eq]
    exact (run_inOrder hok hrun k).ackedOffset_le he hne
  · rw [checkStreamFullyAcked_eq, hc] at hk
    exact closedAcked_of_fullyAcked hok hrun hk
  · rw [decode_closedAt h] at hmark
    split_ifs at hmark with hk hclose
    · subst hk
      cases hack : p.ack with
      | none =>
        rw [hack] at hclose
        cases hclose
      | some a =>
        rw [hack, hc] at hclose
        obtain ⟨t, hstep, hsnd⟩ : ∃ t, s.step (.acknowledgeRange a) = some t ∧ t.snd = s.snd.afterAck (some a) :=
          ⟨_, rfl, rfl⟩
        have hrun' : run step (SndRun.new capacity) (ops ++ [.acknowledgeRange a]) = some t := by
          rw [run_append, hrun, Option.bind_some]
          exact (run_cons _ _ _ _ _).mpr ⟨t, hstep, rfl⟩
        exact ⟨a, t, rfl, hrun', closedAcked_of_fullyAcked (along_append hok hrun (along_cons trivial hstep trivial))
          hrun' (hsnd ▸ (Bool.and_eq_true_iff.mp hclose).2)⟩
    · exact absurd (hk ▸ rfl) hmark
    · exact absurd rfl hmark

/-- Ten bytes are sent and closed with an empty packet; on retransmission they are cut
behind four. -/
def cutBeforeClose : List SndOp :=
  [.queueData 0 [0, 1, 2, 3, 4, 5, 6, 7, 8, 9], .readyToSend 0 .data none 1400 1, .close 0,
    .readyToSend 0 .data none 1400 2, .readyToRetransmit 0 none 43 100 .data 1000]

/-- A connection past its handshake with the given send buffer and streams. -/
def withStreams (snd : SendBuffer) (streams : InsertionMap Nat Stream) : Conn UInt8 UInt8 :=
  { connId := 1, remoteAddr := 0, prvKeyEpSnd := 3, pubKeyEpRcv := some 5, pubKeyIdRcv := none
    sharedSecret := some (List.replicate 32 15), isSenderOnInit := true, isWithCryptoOnInit := false
    isHandshakeDoneOnRcv := true, isInitSentOnSnd := true, snd := snd, streams := streams }

/-- The acked offset is 4 with bytes 0 to 3 in flight, and the ack of bytes 4 to 9 marks the
stream closed with them still in flight. -/
theorem cutBeforeClose_unsound : Along step Admissible (SndRun.new 100) cutBeforeClose ∧
    ∃ s, run step (SndRun.new 100) cutBeforeClose = some s ∧ s.snd.getOffsetAcked 0 = 4 ∧
      (createPacketKey 0 4, (⟨[0, 1, 2, 3], 1000, 2, false⟩ : SendInfo)) ∈ (s.snd.stream 0).dataInFlightMap.entries ∧
      ∃ c', (withStreams s.snd (InsertionMap.empty.put 0 ⟨0, 0⟩)).decode ⟨false, some ⟨0, 4, 6, 100⟩, 0, 0⟩ (some [])
          10 1100 = some c' ∧ c'.closedAt 0 = some 1100 ∧
        (createPacketKey 0 4, (⟨[0, 1, 2, 3], 1000, 2, false⟩ : SendInfo)) ∈
          (c'.snd.stream 0).dataInFlightMap.entries := by
  have hadm : Along step Admissible (SndRun.new 100) cutBeforeClose := by decide +kernel
  exact ⟨hadm, _, rfl, rfl, by decide, _, rfl, rfl, by decide⟩

/-- Without the retransmission all is acknowledged when the stream is marked. -/
theorem uncut_sound : ∃ s, run step (SndRun.new 100) (cutBeforeClose.take 4 ++ [.acknowledgeRange ⟨0, 0, 10, 0⟩,
      .acknowledgeRange ⟨0, 10, 0, 0⟩]) = some s ∧ s.snd.fullyAcked 0 = true ∧ (s.snd.stream 0).AllAcked := by
  have hok : Along step Unsplit (SndRun.new 100) (cutBeforeClose.take 4 ++ [.acknowledgeRange ⟨0, 0, 10, 0⟩,
      .acknowledgeRange ⟨0, 10, 0, 0⟩]) :=
    along_cons trivial rfl (along_cons (show (0 : Nat) < 2 ^ 48 by decide) rfl (along_cons trivial rfl
      (along_cons (show (10 : Nat) < 2 ^ 48 by decide) rfl (along_cons trivial rfl (along_cons trivial rfl trivial)))))
  refine ⟨_, rfl, rfl, ?_⟩
  exact (((acked_offset_sound 100 _ _ hok rfl).2 (withStreams _ .empty) rfl).1 0 rfl).allAcked

end AckedOffset

/-- What an ack for a stream should do: mark that stream closed once its bytes are
acknowledged, and, without a stream header beside it, touch no other stream. -/
structure AckActs (c : Conn Prv Pub) (p : PayloadHeader) (u : Option Bytes) (a : Ack) (now : Nat)
    (c' : Conn Prv Pub) : Prop where
  marks : ((c.snd.afterAck (some a)).stream a.streamID).AllAcked → c'.closedAt a.streamID = some now
  creates : u = none → p.isClose = false → ∀ k, (c'.closedAt k).isSome → (c.closedAt k).isSome
  others : u = none → p.isClose = false → ∀ k, k ≠ a.streamID → c'.closedAt k = c.closedAt k

/-- An ack that completes its stream comes with the header of that stream, and nothing
stands in flight in front of the close offset; or the mark is there already. -/
def MarksNamed (c : Conn Prv Pub) (p : PayloadHeader) (a : Ack) (now : Nat) : Prop :=
  (c.snd.remaining a a.streamID).AllAcked →
    if p.streamID = a.streamID then
      (c.snd.remaining a (c.storedID p.streamID)).Closes ∨ (c.closedAt a.streamID).getD 0 = now
    else c.closedAt a.streamID = some now

/-- Without a header the stream that the packet is taken for is there already, and it is
the one of the ack or not fully acked itself. -/
def LeavesOthers (c : Conn Prv Pub) (p : PayloadHeader) (u : Option Bytes) (a : Ack) (now : Nat) : Prop :=
  u = none → p.isClose = false → (c.closedAt p.streamID).isSome ∧
    (p.streamID = a.streamID ∨
      ((c.snd.remaining a (c.storedID p.streamID)).Closes → c.closedAt p.streamID = some now))

theorem marks_iff (hack : p.ack = some a) (h : c.decode p u rawLen now = some c') :
    (((c.snd.afterAck (some a)).stream a.streamID).AllAcked → c'.closedAt a.streamID = some now) ↔
      MarksNamed c p a now := by
  have hcl := decode_closedAt h a.streamID
  rw [hack] at hcl
  unfold MarksNamed
  rw [SendBuffer.afterAck_stream, hcl]
  refine imp_congr_right fun _ => ?_
  by_cases hk : a.streamID = p.streamID
  · rw [if_pos hk, if_pos hk.symm, ← SendBuffer.ackCloses_iff, ← hk]
    split_ifs with hclose
    · exact iff_of_true rfl (.inl hclose)
    · rw [Option.some.injEq]
      exact ⟨.inr, fun ho => ho.resolve_left hclose⟩
  · rw [if_neg hk, if_neg fun hk' => hk hk'.symm]

theorem leavesOthers_iff (hack : p.ack = some a) (h : c.decode p u rawLen now = some c') :
    ((u = none → p.isClose = false → ∀ k, (c'.closedAt k).isSome → (c.closedAt k).isSome) ∧
      (u = none → p.isClose = false → ∀ k, k ≠ a.streamID → c'.closedAt k = c.closedAt k)) ↔
      LeavesOthers c p u a now := by
  have hcl := decode_closedAt h
  rw [hack] at hcl
  constructor
  · rintro ⟨hcreate, hother⟩ hu hc
    have hsome : (c.closedAt p.streamID).isSome := by
      refine hcreate hu hc p.streamID ?_
      rw [hcl, if_pos rfl]
      split_ifs <;> rfl
    refine ⟨hsome, or_iff_not_imp_left.mpr fun hne hclose => ?_⟩
    have hsame := hother hu hc p.streamID hne
    rw [hcl, if_pos rfl, if_pos ((SendBuffer.ackCloses_iff ..).mpr hclose)] at hsame
    exact hsame.symm
  · intro hleave
    refine ⟨fun hu hc k hk => ?_, fun hu hc k hne => ?_⟩
    · rw [hcl] at hk
      split_ifs at hk with hj
      · rw [hj]
        exact (hleave hu hc).1
      · rw [hj]
        exact (hleave hu hc).1
      · exact hk
    · obtain ⟨hsome, hnamed⟩ := hleave hu hc
      rw [hcl]
      split_ifs with hj hclose
      · rw [hj] at hne ⊢
        exact (hnamed.resolve_left hne ((SendBuffer.ackCloses_iff ..).mp hclose)).symm
      · obtain ⟨t, ht⟩ := Option.isSome_iff_exists.mp hsome
        rw [hj, ht]
        rfl
      · rfl

/-- The last byte of stream 5 is in flight, behind its close. -/
def lastByte : SendBuffer :=
  { streams := InsertionMap.empty.put 5
      { dataInFlightMap := InsertionMap.empty.put (createPacketKey 0 1) ⟨[7], 10, 1, false⟩
        bytesSentOffset := 1, closeAtOffset := some 1 }
    capacity := 100, size := 1 }

end Conn

end Qotp
