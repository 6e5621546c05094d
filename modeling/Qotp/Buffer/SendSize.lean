import Qotp.Buffer.InFlight
import Qotp.Buffer.SendRun

namespace Qotp

open Framework

namespace StreamBuffer

/-- The user bytes of a stream that are queued or in flight. -/
def held (s : StreamBuffer) : Nat := s.queuedData.length + s.inFlight

variable {W : Bytes} {A : Nat → Prop} {s s' : StreamBuffer} {msgType : CryptoMsgType} {ack : Option Ack}
  {mtu : Int} {now rto : Nat}

/-- What is sent moves from the queue into flight. -/
theorem Conserves.held_readyToSend (h : Conserves W A s) (hb : s.bytesSentOffset < 2 ^ 48)
    (hm : MtuFits msgType ack mtu s.bytesSentOffset) (now : Nat) :
    (s.readyToSend msgType ack mtu now).1.held = s.held := by
  obtain ⟨_, _, _, hr⟩ | ⟨_, hr⟩ | ⟨_, _, _, hr⟩ | ⟨_, _, hr⟩ := s.readyToSend_cases msgType ack mtu now
  · rw [hr]
  · rw [hr]
    unfold held
    rw [h.inFlight_afterEmpty]
    rfl
  · rw [hr]
    unfold held
    rw [h.inFlight_afterEmpty]
    rfl
  · obtain ⟨hn, hn16⟩ := sendLength_le hm
    rw [hr]
    unfold held
    rw [h.inFlight_afterData hb hn hn16]
    simp only [StreamBuffer.afterData, List.length_drop]
    omega

theorem Conserves.held_readyToRetransmit (h : Conserves W A s) (hb : s.bytesSentOffset < 2 ^ 48)
    (hm : ∀ e, s.dataInFlightMap.first = some e → MtuFits msgType ack mtu (entryStart e))
    {r : Except String Packet} (hr : s.readyToRetransmit ack mtu rto msgType now = some (s', r)) :
    s'.held = s.held := by
  have hfly := h.inFlight_readyToRetransmit hb hm hr
  have hq : s'.queuedData = s.queuedData := by rw [readyToRetransmit_frame hr]
  unfold held
  rw [hfly, hq]

theorem held_erase {key : PacketKey} {info : SendInfo} (he : (key, info) ∈ s.dataInFlightMap.entries) :
    held { s with dataInFlightMap := s.dataInFlightMap.erase key } + info.data.length = s.held := by
  have hfly := inFlight_erase (InsertionMap.get?_eq_some.mpr he)
  unfold held StreamBuffer.inFlight at *
  dsimp only
  omega

end StreamBuffer

namespace SendBuffer

/-- The user bytes of all streams that are queued or in flight. -/
def held (sb : SendBuffer) : Nat := sb.streams.sumBy StreamBuffer.held

/-- By how much the counter differs from the bytes that are held. -/
def drift (sb : SendBuffer) : Int := sb.size - sb.held

/-- The capacity and the drift stay, and the counter stays inside the capacity. -/
structure Accounts (sb sb' : SendBuffer) : Prop where
  capacity : sb'.capacity = sb.capacity
  drift : sb'.drift = sb.drift
  size_le : sb.size ≤ sb.capacity → sb'.size ≤ sb'.capacity

variable {sb sb' : SendBuffer} {k : Nat} {msgType : CryptoMsgType} {ack : Option Ack} {mtu : Int} {now rto : Nat}

/-- Whatever does not touch what a stream holds. -/
theorem accounts_of_held (hcap : sb'.capacity = sb.capacity) (hsize : sb'.size = sb.size) (hheld : sb'.held = sb.held) :
    Accounts sb sb' := by
  refine ⟨hcap, ?_, ?_⟩
  · rw [drift, hsize, hheld, drift]
  · rw [hcap, hsize]
    exact id

theorem accounts_update {f : StreamBuffer → StreamBuffer} (hf : (f (sb.stream k)).held = (sb.stream k).held) :
    Accounts sb (sb.update k f) := by
  have hput := sumBy_put (f := StreamBuffer.held) rfl sb k (f (sb.stream k))
  refine accounts_of_held rfl rfl ?_
  unfold held update
  dsimp only
  omega

theorem accounts_queuePing (sb : SendBuffer) (k : Nat) : Accounts sb (sb.queuePing k) := accounts_update rfl

theorem accounts_close (sb : SendBuffer) (k : Nat) : Accounts sb (sb.close k) := by
  apply accounts_update
  unfold StreamBuffer.close
  cases (sb.stream k).closeAtOffset <;> rfl

/-- The counter grows by the accepted bytes, and these fit. -/
theorem accounts_queueData {d : Bytes} {n : Nat} {st : InsertStatus} (h : sb.queueData k d = some (sb', n, st)) :
    Accounts sb sb' := by
  have hle : sb.size ≤ sb.capacity → sb'.size ≤ sb'.capacity := by
    intro hcap
    obtain ⟨sb₁, st₁, hq, hcap₁, hsize₁, _⟩ := queueData_eq hcap k d
    cases h.symm.trans hq
    omega
  obtain ⟨hn, ⟨_, rfl⟩ | rfl⟩ := queueData_cases h
  · exact ⟨rfl, rfl, hle⟩
  · have hput := sumBy_put (f := StreamBuffer.held) rfl sb k ((sb.stream k).queue (d.take n))
    have hone : ((sb.stream k).queue (d.take n)).held = (sb.stream k).held + n := by
      simp only [StreamBuffer.held, StreamBuffer.queue, List.length_append, List.length_take_of_le hn]
      exact Nat.add_right_comm _ _ _
    refine ⟨rfl, ?_, hle⟩
    unfold drift held update
    dsimp only
    omega

theorem accounts_readyToSend (hone : ((sb.stream k).readyToSend msgType ack mtu now).1.held = (sb.stream k).held) :
    Accounts sb (sb.readyToSend k msgType ack mtu now).1 := by
  have hsum := sumBy_readyToSend (f := StreamBuffer.held) rfl sb k msgType ack mtu now
  have hframe : (sb.readyToSend k msgType ack mtu now).1.size = sb.size ∧
      (sb.readyToSend k msgType ack mtu now).1.capacity = sb.capacity := by
    unfold readyToSend
    cases sb.streams.get? k <;> exact ⟨rfl, rfl⟩
  apply accounts_of_held hframe.2 hframe.1
  unfold held
  omega

theorem accounts_readyToRetransmit {r : Except String StreamBuffer.Packet}
    (h : sb.readyToRetransmit k ack mtu rto msgType now = some (sb', r))
    (hone : ∀ s', (sb.stream k).readyToRetransmit ack mtu rto msgType now = some (s', r) →
      s'.held = (sb.stream k).held) : Accounts sb sb' := by
  obtain ⟨s', hs, hsum⟩ := sumBy_readyToRetransmit (f := StreamBuffer.held) rfl h
  have hframe : sb'.size = sb.size ∧ sb'.capacity = sb.capacity := by
    unfold readyToRetransmit at h
    cases hg : sb.streams.get? k with
    | none =>
      rw [hg] at h
      cases h
      exact ⟨rfl, rfl⟩
    | some s =>
      rw [hg] at h
      obtain ⟨q, _, hq⟩ := Option.map_eq_some_iff.mp h
      cases hq
      exact ⟨rfl, rfl⟩
  have := hone s' hs
  apply accounts_of_held hframe.2 hframe.1
  unfold held
  omega

/-- An ack takes the bytes of its entry out of the counter. -/
theorem accounts_acknowledgeRange (sb : SendBuffer) (a : Ack) : Accounts sb (sb.acknowledgeRange a).1 := by
  obtain ⟨_, hsame⟩ | ⟨info, hmem, hok, hsum⟩ := sumBy_acknowledgeRange (f := StreamBuffer.held) rfl sb a
  · rw [hsame]
    exact ⟨rfl, rfl, id⟩
  · have hone := StreamBuffer.held_erase hmem
    have hcap : (sb.acknowledgeRange a).1.capacity = sb.capacity := by
      unfold acknowledgeRange
      cases sb.streams.get? a.streamID with
      | none => rfl
      | some s =>
        dsimp only
        cases s.dataInFlightMap.get? (createPacketKey a.offset a.len) <;> rfl
    obtain ⟨st, hr, hst⟩ | ⟨info', hmem', _, hsize, _⟩ := sb.acknowledgeRange_cases a
    · rw [hr] at hok
      exact absurd hok hst
    · obtain rfl := InsertionMap.eq_of_mem hmem hmem'
      dsimp only at hsum
      refine ⟨hcap, ?_, by omega⟩
      unfold drift held
      omega

end SendBuffer

namespace SndRun

/-- The counter is what the streams hold, inside the capacity. -/
structure SizeInv (capacity : Int) (s : SndRun) : Prop where
  inv : Inv s
  capacity_eq : s.snd.capacity = capacity
  drift_eq : s.snd.drift = 0
  size_le : s.snd.size ≤ capacity

variable {capacity : Int}

theorem SizeInv.step_of_accounts {s t : SndRun} (hi : SizeInv capacity s) (ht : Inv t)
    (h : SendBuffer.Accounts s.snd t.snd) : SizeInv capacity t := by
  have hcap := h.capacity.trans hi.capacity_eq
  refine ⟨ht, hcap, h.drift.trans hi.drift_eq, ?_⟩
  rw [← hcap]
  apply h.size_le
  rw [hi.capacity_eq]
  exact hi.size_le

theorem step_accounts {s t : SndRun} {op : SndOp} (hi : Inv s) (hadm : s.Admissible op) (h : s.step op = some t) :
    SendBuffer.Accounts s.snd t.snd := by
  cases op with
  | queueData k d =>
    obtain ⟨⟨snd, n, st⟩, hq, rfl⟩ := Option.map_eq_some_iff.mp h
    exact SendBuffer.accounts_queueData hq
  | queuePing k =>
    cases h
    exact s.snd.accounts_queuePing k
  | close k =>
    cases h
    exact s.snd.accounts_close k
  | readyToSend k msgType ack mtu now =>
    cases h
    exact SendBuffer.accounts_readyToSend ((hi.conserves k).held_readyToSend hadm.1 hadm.2 now)
  | readyToRetransmit k ack mtu rto msgType now =>
    obtain ⟨⟨snd, r⟩, hr, rfl⟩ := Option.map_eq_some_iff.mp h
    apply SendBuffer.accounts_readyToRetransmit hr
    intro s' hs
    exact (hi.conserves k).held_readyToRetransmit hadm.1 hadm.2 hs
  | acknowledgeRange a =>
    cases h
    exact s.snd.accounts_acknowledgeRange a

theorem step_sizeInv (s : SndRun) (op : SndOp) (t : SndRun) (hi : SizeInv capacity s) (hadm : s.Admissible op)
    (h : s.step op = some t) : SizeInv capacity t :=
  hi.step_of_accounts (step_inv s op t hi.inv hadm h) (step_accounts hi.inv hadm h)

/-- While offsets stay below 2^48, the counter is the number of bytes queued or in flight on all
streams, it stays inside the capacity, and a write takes what fits. -/
theorem send_capacity_accounted (capacity : Int) (hcap : 0 ≤ capacity) (ops : List SndOp) (s : SndRun)
    (hadm : Along step Admissible (new capacity) ops) (hrun : run step (new capacity) ops = some s) :
    s.snd.size = s.snd.held ∧ 0 ≤ s.snd.size ∧ s.snd.size ≤ capacity ∧
    ∀ (k : Nat) (d : Bytes), ∃ snd' st,
      s.snd.queueData k d = some (snd', min d.length (capacity - s.snd.size).toNat, st) ∧
      ∀ j, snd'.stream j = if j = k then
        (s.snd.stream k).queue (d.take (min d.length (capacity - s.snd.size).toNat)) else s.snd.stream j := by
  have hi : SizeInv capacity s := run_inv_along step_sizeInv ⟨inv_new capacity, rfl, rfl, hcap⟩ hadm hrun
  have hsize : s.snd.size = s.snd.held := by
    have := hi.drift_eq
    unfold SendBuffer.drift at this
    omega
  refine ⟨hsize, by omega, hi.size_le, fun k d => ?_⟩
  obtain ⟨snd', st, hq, _⟩ := SendBuffer.queueData_eq (hi.size_le.trans_eq hi.capacity_eq.symm) k d
  rw [hi.capacity_eq] at hq
  exact ⟨snd', st, hq, SendBuffer.queueData_stream hq⟩

theorem splitAndAck_accounted :
    ∃ s, run step (new 100) splitAndAck = some s ∧ s.snd.size = 6 ∧ s.snd.size = s.snd.held ∧ s.snd.size ≤ 100 := by
  obtain ⟨hsize, _, hle, _⟩ := send_capacity_accounted 100 (by decide) splitAndAck _ splitAndAck_admissible rfl
  exact ⟨_, rfl, rfl, hsize, hle⟩

section Wrap

/-- Stream 0 with its first byte in flight, `n` bytes sent and the given queue. -/
def firstInFlight (n : Nat) (queued : Bytes) : StreamBuffer :=
  { dataInFlightMap := InsertionMap.empty.put (createPacketKey 0 1) (newSendInfo [7] 0 false)
    queuedData := queued
    bytesSentOffset := n }

/-- The buffer once `n` bytes are sent and all but the first are acknowledged. -/
def firstUnacked (n : Nat) : SendBuffer :=
  { streams := InsertionMap.empty.put 0 (firstInFlight n []), capacity := 2, size := 1 }

/-- One more byte is queued. -/
def byteQueued (n : Nat) : SendBuffer :=
  { streams := InsertionMap.empty.put 0 (firstInFlight n [7]), capacity := 2, size := 2 }

/-- It is sent under the key of its offset. -/
def byteSent (n : Nat) : SendBuffer :=
  { streams := InsertionMap.empty.put 0 { firstInFlight (n + 1) [] with
      dataInFlightMap := (firstInFlight n []).dataInFlightMap.put (createPacketKey n 1) (newSendInfo [7] 0 false) }
    capacity := 2
    size := 2 }

theorem firstUnacked_queueData (n : Nat) : (firstUnacked n).queueData 0 [7] = some (byteQueued n, 1, .ok) := rfl

theorem byteQueued_readyToSend (n : Nat) : ((byteQueued n).readyToSend 0 .data none 1400 0).1 = byteSent n := by
  have hroom : 1 ≤ toUint64 (maxDataFor .data none 1400 n) := by
    have hdata : CryptoMsgType.data ≠ .initSnd := by decide
    have := StreamBuffer.calcCryptoOverhead_le none n hdata
    unfold maxDataFor toUint64
    rw [if_pos (by decide)]
    omega
  have hsend : ((firstInFlight n [7]).readyToSend .data none 1400 0).1 = { firstInFlight (n + 1) [] with
      dataInFlightMap := (firstInFlight n []).dataInFlightMap.put (createPacketKey n 1) (newSendInfo [7] 0 false) } := by
    simp only [StreamBuffer.readyToSend, firstInFlight, List.length_singleton, min_eq_right hroom]
    rfl
  unfold byteSent
  rw [← hsend]
  rfl

/-- Below 2^48 the key is new, and its ack removes it. -/
theorem byteSent_acknowledgeRange {n : Nat} (h1 : 1 ≤ n) (h2 : n < 2 ^ 48) :
    ((byteSent n).acknowledgeRange ⟨0, n, 1, 0⟩).1 = firstUnacked (n + 1) := by
  have hne : createPacketKey n 1 ≠ createPacketKey 0 1 := by
    intro he
    have := congrArg PacketKey.offset he
    rw [createPacketKey_offset _ _ (by decide), createPacketKey_offset _ _ (by decide)] at this
    omega
  have hfree : (firstInFlight n []).dataInFlightMap.get? (createPacketKey n 1) = none := by
    change (InsertionMap.empty.put (createPacketKey 0 1) (newSendInfo [7] 0 false)).get? (createPacketKey n 1) = none
    rw [InsertionMap.get?_put_ne _ _ hne]
    rfl
  have hback := InsertionMap.erase_put_of_get?_eq_none hfree (newSendInfo [7] 0 false)
  have hget := InsertionMap.get?_put_self (firstInFlight n []).dataInFlightMap (createPacketKey n 1)
    (newSendInfo [7] 0 false)
  have hstream : (byteSent n).streams.get? 0 = some { firstInFlight (n + 1) [] with
      dataInFlightMap := (firstInFlight n []).dataInFlightMap.put (createPacketKey n 1) (newSendInfo [7] 0 false) } := rfl
  simp only [SendBuffer.acknowledgeRange, hstream, hget, hback]
  rfl

theorem mtuFits_1400 (n : Nat) : StreamBuffer.MtuFits .data none 1400 n :=
  StreamBuffer.mtuFits_of_range (by decide) .data none n

/-- One byte is queued and sent. -/
def sendByte : List SndOp := [.queueData 0 [7], .readyToSend 0 .data none 1400 0]

theorem run_sendByte {s : SndRun} {n : Nat} (hs : s.snd = firstUnacked n) :
    Along step Sized s sendByte ∧ ∃ t, run step s sendByte = some t ∧ t.snd = byteSent n := by
  have hq : s.step (.queueData 0 [7]) = some { s with
      snd := byteQueued n, accepted := Function.update s.accepted 0 (s.accepted 0 ++ [7]) } := by
    simp only [step, hs, firstUnacked_queueData]
    rfl
  refine ⟨along_cons trivial hq ⟨mtuFits_1400 _, fun _ _ => trivial⟩, ?_⟩
  exact ⟨_, (run_cons _ _ _ _ _).mpr ⟨_, hq, rfl⟩, byteQueued_readyToSend n⟩

/-- The first byte stays in flight, each of the next `n` is acknowledged at once. -/
def byteRounds : Nat → List SndOp
  | 0 => sendByte
  | n + 1 => byteRounds n ++ (sendByte ++ [.acknowledgeRange ⟨0, n + 1, 1, 0⟩])

theorem run_byteRounds {n : Nat} (hn : n < 2 ^ 48) : Along step Sized (new 2) (byteRounds n) ∧
    ∃ s, run step (new 2) (byteRounds n) = some s ∧ s.snd = firstUnacked (n + 1) := by
  induction n with
  | zero => exact ⟨along_cons trivial rfl ⟨mtuFits_1400 _, fun _ _ => trivial⟩, _, rfl, rfl⟩
  | succ n ih =>
    obtain ⟨hsized, s, hs, hsnd⟩ := ih (by omega)
    obtain ⟨hsized', t, ht, hsent⟩ := run_sendByte hsnd
    have hlast : run step s (sendByte ++ [.acknowledgeRange ⟨0, n + 1, 1, 0⟩]) =
        t.step (.acknowledgeRange ⟨0, n + 1, 1, 0⟩) := by
      rw [run_append, ht]
      rfl
    constructor
    · refine along_append hsized hs (along_append hsized' ht ?_)
      exact ⟨show 1 < 2 ^ 16 by decide, fun _ _ => trivial⟩
    · refine ⟨_, (run_append _ _ _ _).trans (by rw [hs]; exact hlast), ?_⟩
      change (t.snd.acknowledgeRange ⟨0, n + 1, 1, 0⟩).1 = firstUnacked (n + 1 + 1)
      rw [hsent]
      exact byteSent_acknowledgeRange (by omega) hn

/-- At offset 2^48 the key is that of the first byte again, and its entry is overwritten. -/
theorem wrapped_key_drifts :
    ∃ ops s, Along step Sized (new 2) ops ∧ run step (new 2) ops = some s ∧ s.snd.size = 2 ∧ s.snd.held = 1 := by
  obtain ⟨n, hn⟩ : ∃ n, 2 ^ 48 = n + 1 := Nat.exists_eq_add_one_of_ne_zero (by decide)
  obtain ⟨hsized, s, hs, hsnd⟩ := run_byteRounds (n := n) (by omega)
  obtain ⟨hsized', t, ht, hsent⟩ := run_sendByte hsnd
  refine ⟨byteRounds n ++ sendByte, t, along_append hsized hs hsized', ?_, ?_, ?_⟩
  · rw [run_append, hs]
    exact ht
  · rw [hsent]
    rfl
  · have hkey : createPacketKey (2 ^ 48) 1 = createPacketKey 0 1 := by decide
    rw [hsent]
    unfold byteSent
    rw [← hn, hkey]
    rfl

end Wrap

end SndRun

end Qotp
