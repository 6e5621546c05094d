import Qotp.Buffer.SendClose
import Qotp.Buffer.SendRun

namespace Qotp

open Framework

theorem SndOk.congr {W : Nat → Bytes} {sb sb' : SendBuffer} (h : SndOk W sb) (hstr : ∀ j, sb'.stream j = sb.stream j) :
    SndOk W sb' := by
  refine ⟨fun k => ?_, fun k c hc => ?_⟩
  · rw [hstr k]
    exact h.conserves k
  · rw [hstr k] at hc
    exact h.closed k c hc

namespace SndRun

/-- The call returns data `d` at offset `o` for stream `j`, and not as a ping. -/
def HandsOut (s : SndRun) (j : Nat) (d : Bytes) (o : Nat) (isClose : Bool) : SndOp → Prop
  | .readyToSend k msgType ack mtu now => j = k ∧ (s.snd.stream k).pingRequest = false ∧
    (s.snd.readyToSend k msgType ack mtu now).2 = (some d, o, isClose)
  | .readyToRetransmit k ack mtu rto msgType now => j = k ∧
    ∃ snd', s.snd.readyToRetransmit k ack mtu rto msgType now = some (snd', .ok (some d, o, isClose))
  | _ => False

/-- No byte is queued on a stream that is closed. -/
def QueuesOpen (s : SndRun) : SndOp → Prop
  | .queueData k d => ∀ snd' n st, s.snd.queueData k d = some (snd', n, st) → n ≠ 0 →
    (s.snd.stream k).closeAtOffset = none
  | _ => True

variable {s t : SndRun} {op : SndOp}

theorem step_sndOk (s : SndRun) (op : SndOp) (t : SndRun) (hi : SndOk s.accepted s.snd)
    (hok : s.Admissible op ∧ s.QueuesOpen op) (h : s.step op = some t) : SndOk t.accepted t.snd := by
  obtain ⟨hadm, hopen⟩ := hok
  cases op with
  | queueData k d =>
    obtain ⟨⟨snd, n, st⟩, hq, rfl⟩ := Option.map_eq_some_iff.mp h
    by_cases hn : n = 0
    · subst hn
      dsimp only
      rw [List.take_zero, List.append_nil, Function.update_eq_self]
      apply hi.congr
      intro j
      rw [SendBuffer.queueData_stream hq j]
      split_ifs with hj
      · simp [hj, StreamBuffer.queue]
      · rfl
    · exact (hi.queueData (hopen snd n st hq hn) hq).1
  | queuePing k =>
    cases h
    exact (hi.queuePing k).ok
  | close k =>
    cases h
    exact (hi.close k).ok
  | readyToSend k msgType ack mtu now =>
    cases h
    exact (hi.readyToSend hadm.1 hadm.2 rfl).1.ok
  | readyToRetransmit k ack mtu rto msgType now =>
    obtain ⟨⟨snd, r⟩, hr, rfl⟩ := Option.map_eq_some_iff.mp h
    exact (hi.readyToRetransmit hadm.1 hadm.2 hr).1.ok
  | acknowledgeRange a =>
    cases h
    exact (hi.afterAck (some a)).ok

/-- A close mark stays, whatever is called. -/
theorem step_mark (h : s.step op = some t) {k c : Nat} (hc : (s.snd.stream k).closeAtOffset = some c) :
    (t.snd.stream k).closeAtOffset = some c := by
  have hsame : SendBuffer.SameMarks s.snd t.snd → (t.snd.stream k).closeAtOffset = some c :=
    fun hm => (hm k).trans hc
  cases op with
  | queueData j d =>
    obtain ⟨⟨snd, n, st⟩, hq, rfl⟩ := Option.map_eq_some_iff.mp h
    exact hsame (SendBuffer.sameMarks_queueData hq)
  | queuePing j =>
    cases h
    exact hsame (s.snd.sameMarks_queuePing j)
  | close j =>
    cases h
    obtain heq | ⟨_, hnone⟩ := s.snd.close_mark j k
    · exact heq.trans hc
    · rw [hc] at hnone
      cases hnone
  | readyToSend j msgType ack mtu now =>
    cases h
    exact hsame (SendBuffer.sameMarks_readyToSend rfl)
  | readyToRetransmit j ack mtu rto msgType now =>
    obtain ⟨⟨snd, r⟩, hr, rfl⟩ := Option.map_eq_some_iff.mp h
    exact hsame (SendBuffer.sameMarks_readyToRetransmit hr)
  | acknowledgeRange a =>
    cases h
    exact hsame (s.snd.sameMarks_afterAck (some a))

theorem handsOut_close_iff (hi : SndOk s.accepted s.snd) (hadm : s.Admissible op) {k o : Nat} {d : Bytes} {isClose : Bool}
    (h : s.HandsOut k d o isClose op) :
    isClose = true ↔ ∃ c, (s.snd.stream k).closeAtOffset = some c ∧ o + d.length = c := by
  cases op with
  | readyToSend j msgType ack mtu now =>
    obtain ⟨rfl, hping, hr⟩ := h
    rw [(s.snd.readyToSend_stream k k msgType ack mtu now).2] at hr
    exact (hi.conserves k).sent_close_iff (hi.closed k) hadm.1 hadm.2 hping hr
  | readyToRetransmit j ack mtu rto msgType now =>
    obtain ⟨rfl, snd', hr⟩ := h
    obtain ⟨s', hs, _⟩ := SendBuffer.readyToRetransmit_stream hr
    exact (hi.conserves k).resent_close_iff (hi.closed k) hs
  | queueData | queuePing | close | acknowledgeRange => exact absurd h id

/-- Where no byte is queued behind a close, the flag of a packet says that it ends at the close
offset; that offset stays, in any run. -/
theorem close_marks_end (capacity : Int) (ops : List SndOp) (s : SndRun)
    (hrun : run step (new capacity) ops = some s) :
    (Along step Admissible (new capacity) ops → Along step QueuesOpen (new capacity) ops →
      ∀ op k d o isClose, s.Admissible op → s.HandsOut k d o isClose op →
        (isClose = true ↔ ∃ c, (s.snd.stream k).closeAtOffset = some c ∧ o + d.length = c)) ∧
    ∀ more t, run step s more = some t → ∀ k c, (s.snd.stream k).closeAtOffset = some c →
      (t.snd.stream k).closeAtOffset = some c := by
  constructor
  · intro hadm hopen op k d o isClose hop hout
    have hi : SndOk s.accepted s.snd := run_inv_along step_sndOk (sndOk_new capacity) (along_and hadm hopen) hrun
    exact handsOut_close_iff hi hop hout
  · intro more t hmore k c hc
    have hstep : ∀ s op t, (s.snd.stream k).closeAtOffset = some c → step s op = some t →
        (t.snd.stream k).closeAtOffset = some c := fun _ _ _ hi h => step_mark h hi
    exact run_inv hstep hc hmore

/-- Six bytes are sent in two packets, the stream is closed between them. -/
def closeBetween : List SndOp :=
  [.queueData 0 [1, 2, 3, 4, 5, 6], .readyToSend 0 .data none 43 0, .close 0]

theorem closeBetween_marks :
    ∃ s, run step (new 100) closeBetween = some s ∧ s.HandsOut 0 [5, 6] 4 true (.readyToSend 0 .data none 1400 1) ∧
      (true = true ↔ ∃ c, (s.snd.stream 0).closeAtOffset = some c ∧ 4 + [5, 6].length = c) := by
  have hadm : Along step Admissible (new 100) closeBetween := by decide +kernel
  have hopen : Along step QueuesOpen (new 100) closeBetween :=
    along_cons (fun _ _ _ _ _ => rfl) rfl (along_cons trivial rfl (along_cons trivial rfl trivial))
  refine ⟨_, rfl, ⟨rfl, rfl, rfl⟩, ?_⟩
  exact (close_marks_end 100 closeBetween _ rfl).1 hadm hopen (.readyToSend 0 .data none 1400 1) 0 [5, 6] 4 true
    ⟨by decide, by decide⟩ ⟨rfl, rfl, rfl⟩

section LongPacket

/-- A stream behind one packet of `d`, which the key says to have 1 byte. -/
def longStream (d : Bytes) : StreamBuffer :=
  { dataInFlightMap := InsertionMap.empty.put (createPacketKey 0 1) (newSendInfo d 0 false)
    bytesSentOffset := 65537
    closeAtOffset := some 65537 }

def longSent (d : Bytes) : SendBuffer :=
  { streams := InsertionMap.empty.put 0 (longStream d), capacity := 100000, size := 65537 }

def longPacket (d : Bytes) : List SndOp := [.queueData 0 d, .close 0, .readyToSend 0 .data none 100000 0]

variable {d : Bytes} (hd : d.length = 65537)

include hd

theorem run_longPacket : ∃ s, run step (new 100000) (longPacket d) = some s ∧ s.snd = longSent d := by
  have hq : (SendBuffer.new 100000).queueData 0 d = some
      ({ streams := InsertionMap.empty.put 0 { queuedData := d }, capacity := 100000, size := 65537 }, 65537, .ok) := by
    simp only [SendBuffer.queueData, hd]
    rfl
  have hsend : (StreamBuffer.readyToSend { queuedData := d, closeAtOffset := some 65537 } .data none 100000 0).1 =
      longStream d := by
    have hroom : toUint64 (maxDataFor .data none 100000 0) = 99961 := by decide
    have htake : d.take 65537 = d := List.take_of_length_le hd.le
    have hdrop : d.drop 65537 = [] := List.drop_eq_nil_of_le hd.le
    have hmin : min 99961 65537 = 65537 := by decide
    simp only [StreamBuffer.readyToSend, hd, hroom, hmin, htake, hdrop]
    rfl
  have hclose : StreamBuffer.close { queuedData := d } = { queuedData := d, closeAtOffset := some 65537 } := by
    simp only [StreamBuffer.close, hd]
  refine ⟨_, (run_cons _ _ _ _ _).mpr ⟨_, congrArg (Option.map _) hq, rfl⟩, ?_⟩
  change SendBuffer.mk (InsertionMap.empty.put 0 (StreamBuffer.readyToSend (StreamBuffer.close { queuedData := d })
    .data none 100000 0).1) 100000 65537 = longSent d
  rw [hclose, hsend]
  rfl

/-- All of the data is sent again, but the flag is decided by the one byte of the key. -/
theorem longPacket_resent {s : SndRun} (hs : s.snd = longSent d) :
    s.HandsOut 0 d 0 false (.readyToRetransmit 0 none 100000 100 .data 1000) := by
  have hfits : d.length % 2 ^ 16 ≤ toUint16 (maxDataFor .data none 100000 0) := by
    rw [hd]
    decide
  have hfirst : (longStream d).dataInFlightMap.first = some (createPacketKey 0 1, newSendInfo d 0 false) := rfl
  have hback : backoff 100 (newSendInfo d 0 false).sentNr = .ok 100 := rfl
  have hexp : 100 < sub64 1000 (newSendInfo d 0 false).sentTimeNano := by
    change 100 < sub64 1000 0
    decide
  have hst := StreamBuffer.readyToRetransmit_whole hfirst hback hexp rfl hfits
  change _ = some (_, Except.ok (some d, 0, (longStream d).closesAt (0 + d.length % 2 ^ 16))) at hst
  rw [hd] at hst
  have hbuf := congrArg (Option.map fun r => ({ longSent d with streams := (longSent d).streams.put 0 r.1 }, r.2)) hst
  refine ⟨rfl, ?_⟩
  rw [hs]
  exact ⟨_, hbuf⟩

end LongPacket

/-- Beyond 65535 bytes a packet that ends the stream is sent again without CLOSE. -/
theorem longPacket_loses_close :
    ∃ d s, Along step QueuesOpen (new 100000) (longPacket d) ∧ run step (new 100000) (longPacket d) = some s ∧
      (s.snd.stream 0).closeAtOffset = some 65537 ∧ 0 + d.length = 65537 ∧
      s.HandsOut 0 d 0 false (.readyToRetransmit 0 none 100000 100 .data 1000) := by
  have hd : (List.replicate 65537 (7 : UInt8)).length = 65537 := List.length_replicate
  obtain ⟨s, hs, hsnd⟩ := run_longPacket hd
  refine ⟨_, s, ?_, hs, ?_, by rw [Nat.zero_add, hd], longPacket_resent hd hsnd⟩
  · exact ⟨fun _ _ _ _ _ => rfl, fun _ _ => ⟨trivial, fun _ _ => ⟨trivial, fun _ _ => trivial⟩⟩⟩
  · rw [hsnd]
    rfl

end SndRun

end Qotp
