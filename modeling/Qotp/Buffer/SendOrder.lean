import Qotp.Buffer.SendRun
import Qotp.Framework.InsertionOrder

namespace Qotp

open Framework

theorem createPacketKey_offset_lt (o l : Nat) (hl : l < 2 ^ 16) : PacketKey.offset (createPacketKey o l) < 2 ^ 48 := by
  rw [createPacketKey_offset _ _ hl]
  exact Nat.mod_lt _ (by decide)

namespace StreamBuffer

/-- The entries in flight with data stand in the order of their offsets, each behind
whatever starts below it. -/
structure InOrder (s : StreamBuffer) : Prop where
  keyed : ∀ e ∈ s.dataInFlightMap.entries, PacketKey.length e.1 = e.2.data.length % 2 ^ 16
  start_lt : ∀ e ∈ s.dataInFlightMap.entries, entryStart e < 2 ^ 48
  start_le : ∀ e ∈ s.dataInFlightMap.entries, entryStart e ≤ s.bytesSentOffset
  ordered : s.dataInFlightMap.entries.Pairwise fun e f => f.2.data ≠ [] → entryStart e ≤ entryStart f

/-- `GetOffsetAcked` on one stream. -/
def ackedOffset (s : StreamBuffer) : Nat := s.dataInFlightMap.first.elim s.bytesSentOffset entryStart

/-- Every byte below the close offset is sent and no longer in flight. -/
def AllAcked (s : StreamBuffer) : Prop :=
  ∃ c, s.closeAtOffset = some c ∧ c ≤ s.bytesSentOffset ∧
    ∀ e ∈ s.dataInFlightMap.entries, e.2.data ≠ [] → c ≤ entryStart e

/-- The oldest entry is due and is cut into two parts with data. -/
def SplitsFirst (s : StreamBuffer) (ack : Option Ack) (mtu : Int) (rto : Nat) (msgType : CryptoMsgType) (now : Nat) :
    Prop :=
  ∃ e ∈ s.dataInFlightMap.first, due e.2 rto now = true ∧ e.2.pingRequest = false ∧
    0 < maxDataFor msgType ack mtu (entryStart e) ∧
    toUint16 (maxDataFor msgType ack mtu (entryStart e)) < e.2.data.length % 2 ^ 16

variable {s s' : StreamBuffer} {ack : Option Ack} {mtu : Int} {rto now : Nat} {msgType : CryptoMsgType}

theorem inOrder_new : InOrder {} := by
  constructor <;> simp

theorem InOrder.congr (h : InOrder s) (hm : s'.dataInFlightMap = s.dataInFlightMap)
    (hb : s'.bytesSentOffset = s.bytesSentOffset) : InOrder s' := by
  refine ⟨?_, ?_, ?_, ?_⟩
  · rw [hm]
    exact h.keyed
  · rw [hm]
    exact h.start_lt
  · rw [hm, hb]
    exact h.start_le
  · rw [hm]
    exact h.ordered

theorem close_frame (s : StreamBuffer) :
    s.close.dataInFlightMap = s.dataInFlightMap ∧ s.close.bytesSentOffset = s.bytesSentOffset := by
  unfold close
  cases s.closeAtOffset <;> exact ⟨rfl, rfl⟩

/-- An entry with data comes behind all that starts below it, or where one was before. -/
theorem InOrder.put (h : InOrder s) (key : PacketKey) (info : SendInfo)
    (hlen : PacketKey.length key = info.data.length % 2 ^ 16) (hlt : PacketKey.offset key < 2 ^ 48)
    (hle : PacketKey.offset key ≤ s.bytesSentOffset)
    (hord : info.data ≠ [] → (∀ e ∈ s.dataInFlightMap.entries, entryStart e ≤ PacketKey.offset key) ∨
      ∃ old, (key, old) ∈ s.dataInFlightMap.entries ∧ old.data ≠ []) :
    InOrder { s with dataInFlightMap := s.dataInFlightMap.put key info } := by
  refine ⟨?_, ?_, ?_, ?_⟩
  · exact InsertionMap.forall_put hlen fun e he _ => h.keyed e he
  · exact InsertionMap.forall_put hlt fun e he _ => h.start_lt e he
  · exact InsertionMap.forall_put hle fun e he _ => h.start_le e he
  · refine InsertionMap.pairwise_put h.ordered (fun hnone e he hne => ?_) fun w hw e he => ⟨fun hR hne => ?_, fun hR => hR⟩
    · obtain hall | ⟨old, hold, _⟩ := hord hne
      · exact hall e he
      · exact absurd (InsertionMap.get?_eq_some.mpr hold) (by simp [hnone])
    · obtain hall | ⟨old, hold, hdata⟩ := hord hne
      · exact hall e he
      · obtain rfl := InsertionMap.eq_of_mem hw hold
        exact hR hdata

theorem InOrder.erase (h : InOrder s) (key : PacketKey) :
    InOrder { s with dataInFlightMap := s.dataInFlightMap.erase key } := by
  have hsub : ∀ e ∈ (s.dataInFlightMap.erase key).entries, e ∈ s.dataInFlightMap.entries :=
    fun e he => (InsertionMap.mem_erase.mp he).2
  exact ⟨fun e he => h.keyed e (hsub e he), fun e he => h.start_lt e (hsub e he),
    fun e he => h.start_le e (hsub e he), h.ordered.sublist List.filter_sublist⟩

/-- What is sent next starts at the sent offset, behind every entry. -/
theorem InOrder.put_next (h : InOrder s) (hb : s.bytesSentOffset < 2 ^ 48) (n : Nat) (info : SendInfo)
    (hn : n = info.data.length % 2 ^ 16) :
    InOrder { s with dataInFlightMap := s.dataInFlightMap.put (createPacketKey s.bytesSentOffset n) info } := by
  have hlt : n < 2 ^ 16 := hn ▸ Nat.mod_lt _ (by decide)
  have hoff : PacketKey.offset (createPacketKey s.bytesSentOffset n) = s.bytesSentOffset := by
    rw [createPacketKey_offset _ _ hlt, Nat.mod_eq_of_lt hb]
  refine h.put _ info ?_ (createPacketKey_offset_lt _ _ hlt) hoff.le fun _ => .inl fun e he => ?_
  · rw [createPacketKey_length _ _ hlt, hn]
  · rw [hoff]
    exact h.start_le e he

theorem InOrder.readyToSend (h : InOrder s) (hb : s.bytesSentOffset < 2 ^ 48) (msgType : CryptoMsgType)
    (ack : Option Ack) (mtu : Int) (now : Nat) : InOrder (s.readyToSend msgType ack mtu now).1 := by
  have hempty : ∀ isPing, InOrder (s.afterEmpty now isPing) :=
    fun isPing => (h.put_next hb 0 (newSendInfo [] now isPing) rfl).congr rfl rfl
  obtain ⟨_, _, _, hr⟩ | ⟨_, hr⟩ | ⟨_, _, _, hr⟩ | ⟨_, _, hr⟩ := s.readyToSend_cases msgType ack mtu now
  · rw [hr]
    exact h
  · rw [hr]
    exact hempty true
  · rw [hr]
    exact hempty false
  · rw [hr]
    have hle : s.sendLength msgType ack mtu ≤ s.queuedData.length := Nat.min_le_right _ _
    have hput := h.put_next hb (s.sendLength msgType ack mtu % 2 ^ 16)
      (newSendInfo (s.queuedData.take (s.sendLength msgType ack mtu)) now false)
      (by rw [newSendInfo, List.length_take_of_le hle])
    exact ⟨hput.keyed, hput.start_lt, fun e he => (hput.start_le e he).trans (Nat.le_add_right _ _), hput.ordered⟩

/-- A cut in front of the first byte leaves the entry as it is and adds an empty one. -/
theorem InOrder.afterSplit_zero (h : InOrder s) {key : PacketKey} {info : SendInfo}
    (hmem : (key, info) ∈ s.dataInFlightMap.entries) (hpos : 0 < info.data.length % 2 ^ 16) (now : Nat) :
    InOrder (s.afterSplit key info 0 now) := by
  have hlt : PacketKey.offset key < 2 ^ 48 := h.start_lt (key, info) hmem
  have hle : PacketKey.offset key ≤ s.bytesSentOffset := h.start_le (key, info) hmem
  have hlen : PacketKey.length key = info.data.length % 2 ^ 16 := h.keyed (key, info) hmem
  have hdata : info.data ≠ [] := by
    rintro hnil
    simp [hnil] at hpos
  have hkey : createPacketKey (PacketKey.offset key) (info.data.length % 2 ^ 16) = key :=
    hlen ▸ createPacketKey_self hlt
  have hoff : PacketKey.offset (leftKey key 0) = PacketKey.offset key := by
    rw [leftKey, createPacketKey_offset _ _ (by decide), Nat.mod_eq_of_lt hlt]
  have hzero : PacketKey.length (leftKey key 0) = 0 := createPacketKey_length _ _ (by decide)
  have hleft : key ≠ leftKey key 0 := by
    intro heq
    have := congrArg PacketKey.length heq
    omega
  have hput : InOrder { s with dataInFlightMap := s.dataInFlightMap.put (leftKey key 0) (leftPart info 0 now) } := by
    refine h.put _ _ hzero ?_ ?_ fun hne => absurd rfl hne
    · rw [hoff]
      exact hlt
    · rw [hoff]
      exact hle
  have hmem' : (key, info) ∈ (s.dataInFlightMap.put (leftKey key 0) (leftPart info 0 now)).entries :=
    InsertionMap.mem_put.mpr (.inr ⟨hleft, hmem⟩)
  have hagain := hput.put key info hlen hlt hle fun _ => .inr ⟨info, hmem', hdata⟩
  have hin : (key, info) ∈ ((s.dataInFlightMap.put (leftKey key 0) (leftPart info 0 now)).put key info).entries :=
    InsertionMap.mem_put.mpr (.inl rfl)
  refine (hagain.put key info hlen hlt hle fun _ => .inr ⟨info, hin, hdata⟩).congr ?_ rfl
  have hkeys := List.mem_map_of_mem (f := Prod.fst) hin
  rw [leftKey, leftPart, List.take_zero] at hkeys ⊢
  simp only [afterSplit, Nat.zero_mod, List.take_zero, List.drop_zero, Nat.add_zero, hkey, InsertionMap.replace,
    InsertionMap.keys, if_pos hkeys, if_true]

theorem InOrder.readyToRetransmit (h : InOrder s) {r : Except String Packet}
    (hns : ¬ s.SplitsFirst ack mtu rto msgType now) (hr : s.readyToRetransmit ack mtu rto msgType now = some (s', r)) :
    InOrder s' := by
  obtain ⟨rfl, _⟩ | ⟨key, info, hf, hcase⟩ := readyToRetransmit_cases hr
  · exact h
  have hmem := InsertionMap.first_mem hf
  obtain ⟨_, rfl, _⟩ | ⟨_, _, rfl, _⟩ | ⟨m, hping, hmax, hlt, _, rfl, rfl⟩ := hcase
  · exact h.erase key
  · have hlen : PacketKey.length key = info.data.length % 2 ^ 16 := h.keyed (key, info) hmem
    have hlt : PacketKey.offset key < 2 ^ 48 := h.start_lt (key, info) hmem
    have hle : PacketKey.offset key ≤ s.bytesSentOffset := h.start_le (key, info) hmem
    exact h.put key (resend info now) hlen hlt hle fun hne => .inr ⟨info, hmem, hne⟩
  · have hm : m = 0 := by
      by_contra hm
      have hu : toUint16 (m : Int) = m % 2 ^ 16 := by
        unfold toUint16
        omega
      refine hns ⟨(key, info), hf, readyToRetransmit_due hf hr, hping, ?_, ?_⟩
      · rw [entryStart, hmax]
        omega
      · rw [entryStart, hmax, hu]
        exact hlt
    subst hm
    exact h.afterSplit_zero hmem (by simpa using hlt) now

/-- The first entry in flight starts below every one with data. -/
theorem InOrder.ackedOffset_le (h : InOrder s) {e : PacketKey × SendInfo} (he : e ∈ s.dataInFlightMap.entries)
    (hne : e.2.data ≠ []) : s.ackedOffset ≤ entryStart e := by
  unfold ackedOffset InsertionMap.first
  cases hes : s.dataInFlightMap.entries with
  | nil =>
    rw [hes] at he
    cases he
  | cons f es =>
    have hord := h.ordered
    rw [hes] at he hord
    rw [List.head?_cons, Option.elim_some]
    obtain rfl | he := List.mem_cons.mp he
    · exact le_rfl
    · exact (List.pairwise_cons.mp hord).1 e he hne

theorem InOrder.ackedOffset_le_sent (h : InOrder s) : s.ackedOffset ≤ s.bytesSentOffset := by
  unfold ackedOffset
  cases hf : s.dataInFlightMap.first with
  | none => exact le_rfl
  | some e => exact h.start_le e (InsertionMap.first_mem hf)

end StreamBuffer

namespace SendBuffer

theorem getOffsetAcked_eq (sb : SendBuffer) (k : Nat) : sb.getOffsetAcked k = (sb.stream k).ackedOffset := by
  unfold getOffsetAcked stream StreamBuffer.ackedOffset
  cases sb.streams.get? k with
  | none => rfl
  | some s =>
    dsimp only [Option.getD_some]
    cases s.dataInFlightMap.first <;> rfl

theorem fullyAcked_iff (sb : SendBuffer) (k : Nat) :
    sb.fullyAcked k = true ↔ ∃ c, (sb.stream k).closeAtOffset = some c ∧ c ≤ (sb.stream k).ackedOffset := by
  unfold fullyAcked
  rw [getOffsetClosedAt_eq, getOffsetAcked_eq]
  cases (sb.stream k).closeAtOffset <;> simp

theorem allAcked_of_fullyAcked {sb : SendBuffer} {k : Nat} (h : (sb.stream k).InOrder) (hf : sb.fullyAcked k = true) :
    (sb.stream k).AllAcked := by
  obtain ⟨c, hc, hle⟩ := (sb.fullyAcked_iff k).mp hf
  exact ⟨c, hc, hle.trans h.ackedOffset_le_sent, fun e he hne => hle.trans (h.ackedOffset_le he hne)⟩

end SendBuffer

namespace SndRun

/-- Data is sent below offset 2^48, and no retransmission cuts an entry into two parts with data. -/
def Unsplit (s : SndRun) : SndOp → Prop
  | .readyToSend k _ _ _ _ => (s.snd.stream k).bytesSentOffset < 2 ^ 48
  | .readyToRetransmit k ack mtu rto msgType now => ¬ (s.snd.stream k).SplitsFirst ack mtu rto msgType now
  | _ => True

variable {s t : SndRun}

theorem step_inOrder (s : SndRun) (op : SndOp) (t : SndRun) (hi : ∀ k, (s.snd.stream k).InOrder)
    (hok : s.Unsplit op) (h : s.step op = some t) : ∀ k, (t.snd.stream k).InOrder := by
  -- each operation changes one stream
  have hone : ∀ {sb : SendBuffer} {st : StreamBuffer} {k : Nat},
      (∀ j, sb.stream j = if j = k then st else s.snd.stream j) → st.InOrder → ∀ j, (sb.stream j).InOrder := by
    intro sb st k hstr hst j
    rw [hstr j]
    split_ifs
    · exact hst
    · exact hi j
  cases op with
  | queueData k d =>
    obtain ⟨⟨snd, n, st⟩, hq, rfl⟩ := Option.map_eq_some_iff.mp h
    obtain ⟨_, ⟨_, rfl⟩ | rfl⟩ := SendBuffer.queueData_cases hq
    · exact hi
    · exact hone (SendBuffer.stream_put s.snd k · _) ((hi k).congr rfl rfl)
  | queuePing k =>
    cases h
    exact hone (SendBuffer.stream_put s.snd k · _) ((hi k).congr rfl rfl)
  | close k =>
    cases h
    refine hone (SendBuffer.stream_put s.snd k · _) ((hi k).congr ?_ ?_)
    · exact (s.snd.stream k).close_frame.1
    · exact (s.snd.stream k).close_frame.2
  | readyToSend k msgType ack mtu now =>
    cases h
    exact hone (fun j => (s.snd.readyToSend_stream k j msgType ack mtu now).1)
      ((hi k).readyToSend hok msgType ack mtu now)
  | readyToRetransmit k ack mtu rto msgType now =>
    obtain ⟨⟨snd, r⟩, hr, rfl⟩ := Option.map_eq_some_iff.mp h
    obtain ⟨s', hs, hstr⟩ := SendBuffer.readyToRetransmit_stream hr
    exact hone hstr ((hi k).readyToRetransmit hok hs)
  | acknowledgeRange a =>
    cases h
    obtain ⟨st, hr, _⟩ | ⟨info, _, _, _, hstr⟩ := s.snd.acknowledgeRange_cases a
    · rw [hr]
      exact hi
    · exact hone hstr ((hi a.streamID).erase _)

theorem run_inOrder {capacity : Int} {ops : List SndOp} (hok : Along step Unsplit (new capacity) ops)
    (h : run step (new capacity) ops = some t) (k : Nat) : (t.snd.stream k).InOrder :=
  run_inv_along step_inOrder (s := new capacity) (fun _ => StreamBuffer.inOrder_new) hok h k

/-- A stream without bytes in flight or unsent has them all in the range of an ack. -/
theorem Inv.acknowledged (hi : Inv s) {k c i : Nat} (h : (s.snd.stream k).AllAcked)
    (hc : (s.snd.stream k).closeAtOffset = some c) (hlt : i < c) : s.Acknowledged k i := by
  obtain ⟨c', hc', hle, hfly⟩ := h
  obtain rfl := Option.some.inj (hc.symm.trans hc')
  obtain ⟨e, he, h1, h2⟩ | hack := (hi.conserves k).kept i (by omega)
  · have hne : e.2.data ≠ [] := by
      intro hnil
      simp only [StreamBuffer.entryEnd, hnil, List.length_nil] at h2
      unfold StreamBuffer.entryStart at h1
      omega
    have := hfly e he hne
    omega
  · exact hack

end SndRun

end Qotp
