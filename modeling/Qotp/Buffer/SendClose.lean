import Qotp.Buffer.SendInv

namespace Qotp

open Framework

/-- For every stream the send buffer keeps the accepted bytes, and a close mark
stands at their end. -/
structure SndOk (W : Nat → Bytes) (sb : SendBuffer) : Prop where
  conserves : ∀ k, (sb.stream k).Conserves (W k) fun _ => True
  closed : ∀ k c, (sb.stream k).closeAtOffset = some c → c = (W k).length

/-- A step of the send buffer that accepts nothing: close marks stay. -/
structure SndKeeps (W : Nat → Bytes) (sb sb' : SendBuffer) : Prop where
  ok : SndOk W sb'
  closed : ∀ k c, (sb.stream k).closeAtOffset = some c → (sb'.stream k).closeAtOffset = some c

theorem sndOk_new (capacity : Int) : SndOk (fun _ => []) (.new capacity) :=
  ⟨fun _ => StreamBuffer.conserves_new, fun _ _ h => by cases h⟩

namespace SndOk

variable {W : Nat → Bytes} {sb sb' : SendBuffer} {k : Nat}

theorem refl (h : SndOk W sb) : SndKeeps W sb sb := ⟨h, fun _ _ hc => hc⟩

theorem put (h : SndOk W sb) {s' : StreamBuffer}
    (hstr : ∀ j, sb'.stream j = if j = k then s' else sb.stream j)
    (hs : s'.Conserves (W k) fun _ => True)
    (hc : s'.closeAtOffset = (sb.stream k).closeAtOffset ∨
      ((sb.stream k).closeAtOffset = none ∧ s'.closeAtOffset = some (W k).length)) : SndKeeps W sb sb' := by
  refine ⟨⟨fun j => ?_, fun j c hj => ?_⟩, fun j c hj => ?_⟩
  · rw [hstr j]
    by_cases hjk : j = k
    · subst hjk
      rwa [if_pos rfl]
    · rw [if_neg hjk]
      exact h.conserves j
  · rw [hstr j] at hj
    by_cases hjk : j = k
    · subst hjk
      rw [if_pos rfl] at hj
      obtain hc | ⟨_, hc⟩ := hc
      · exact h.closed j c (hc ▸ hj)
      · exact (Option.some.inj (hc.symm.trans hj)).symm
    · rw [if_neg hjk] at hj
      exact h.closed j c hj
  · rw [hstr j]
    by_cases hjk : j = k
    · subst hjk
      rw [if_pos rfl]
      obtain hc | ⟨hn, _⟩ := hc
      · rw [hc, hj]
      · rw [hn] at hj
        cases hj
    · rw [if_neg hjk]
      exact hj

theorem queuePing (h : SndOk W sb) (k : Nat) : SndKeeps W sb (sb.queuePing k) :=
  h.put (SendBuffer.stream_put sb k · _) ((h.conserves k).congr rfl rfl rfl) (.inl rfl)

/-- The mark is set at the end of what is sent and queued. -/
theorem close (h : SndOk W sb) (k : Nat) : SndKeeps W sb (sb.close k) := by
  have hs := h.conserves k
  refine h.put (SendBuffer.stream_put sb k · _) hs.close ?_
  dsimp only
  unfold StreamBuffer.close
  cases hc : (sb.stream k).closeAtOffset with
  | some c => exact .inl hc
  | none =>
    refine .inr ⟨rfl, ?_⟩
    have hle := hs.sent_le
    have hlen : (sb.stream k).bytesSentOffset + (sb.stream k).queuedData.length = (W k).length := by
      rw [hs.queued, List.length_drop]
      omega
    exact congrArg some hlen

theorem afterAck (h : SndOk W sb) (ack : Option Ack) : SndKeeps W sb (sb.afterAck ack) := by
  cases ack with
  | none => exact h.refl
  | some a =>
    obtain ⟨st, hr, _⟩ | ⟨info, _, _, _, hstr⟩ := sb.acknowledgeRange_cases a
    · rw [SendBuffer.afterAck, hr]
      exact h.refl
    · exact h.put hstr ((h.conserves _).erase (fun _ _ => trivial) fun _ _ _ _ _ => trivial) (.inl rfl)

end SndOk

theorem SndKeeps.trans {W : Nat → Bytes} {sb₁ sb₂ sb₃ : SendBuffer} (h : SndKeeps W sb₁ sb₂)
    (h' : SndKeeps W sb₂ sb₃) : SndKeeps W sb₁ sb₃ :=
  ⟨h'.ok, fun k c hc => h'.closed k c (h.closed k c hc)⟩

namespace StreamBuffer

variable {s s' : StreamBuffer} {msgType : CryptoMsgType} {ack : Option Ack} {mtu : Int} {now rto : Nat}

/-- The largest overhead is that of an InitRcv with a long ack. -/
theorem calcCryptoOverhead_le (ack : Option Ack) (offset : Nat) (h : msgType ≠ .initSnd) :
    0 ≤ calcCryptoOverheadWithData msgType ack offset ∧
      calcCryptoOverheadWithData msgType ack offset ≤ 119 := by
  have hp : ∀ a e, calcProtoOverhead a e false ≤ 24 := by decide
  have hpo := hp ack.isSome
  unfold calcCryptoOverheadWithData
  cases msgType with
  | initSnd => exact absurd rfl h
  | initRcv | initCryptoSnd | initCryptoRcv | data | unknown =>
    simp only [minInitRcvSizeHdr, minInitCryptoSndSizeHdr, minInitCryptoRcvSizeHdr, minDataSizeHdr,
      footerDataSize, msgInitFillLenSize, headerSize, connIdSize, pubKeySize, snSize, macSize]
    generalize hx : calcProtoOverhead _ _ _ = x
    have := hx ▸ hpo _
    omega

theorem mtuFits_of_range (hm : 119 ≤ mtu ∧ mtu ≤ 65535) (msgType : CryptoMsgType) (ack : Option Ack)
    (offset : Nat) : MtuFits msgType ack mtu offset := by
  unfold MtuFits maxDataFor
  split_ifs with h
  · have := calcCryptoOverhead_le ack offset h
    omega
  · omega

theorem closesAt_iff {n : Nat} : s.closesAt n = true ↔ ∃ c, s.closeAtOffset = some c ∧ c ≤ n := by
  unfold closesAt
  cases s.closeAtOffset <;> simp

theorem readyToSend_closeAt (s : StreamBuffer) (msgType : CryptoMsgType) (ack : Option Ack) (mtu : Int)
    (now : Nat) : (s.readyToSend msgType ack mtu now).1.closeAtOffset = s.closeAtOffset := by
  obtain ⟨_, _, _, hr⟩ | ⟨_, hr⟩ | ⟨_, _, _, hr⟩ | ⟨_, _, hr⟩ := s.readyToSend_cases msgType ack mtu now <;>
    rw [hr] <;> rfl

/-- A retransmission works on the entries in flight only. -/
theorem readyToRetransmit_frame {r : Except String Packet}
    (h : s.readyToRetransmit ack mtu rto msgType now = some (s', r)) :
    s' = { s with dataInFlightMap := s'.dataInFlightMap } := by
  obtain ⟨rfl, _⟩ | ⟨key, info, _, ⟨_, rfl, _⟩ | ⟨_, _, rfl, _⟩ | ⟨m, _, _, _, _, rfl, _⟩⟩ :=
    readyToRetransmit_cases h <;> rfl

/-- What is sent next does not depend on what is in flight. -/
theorem readyToSend_packet (s : StreamBuffer) (m : InsertionMap PacketKey SendInfo)
    (msgType : CryptoMsgType) (ack : Option Ack) (mtu : Int) (now : Nat) :
    (({ s with dataInFlightMap := m } : StreamBuffer).readyToSend msgType ack mtu now).2 =
      (s.readyToSend msgType ack mtu now).2 := by
  unfold readyToSend
  dsimp only
  split_ifs
  · rfl
  · cases s.closeAtOffset with
    | none => rfl
    | some c =>
      dsimp only
      split_ifs <;> rfl
  · rfl

end StreamBuffer

namespace SendBuffer

/-- Every stream has the close mark it had. -/
def SameMarks (sb sb' : SendBuffer) : Prop := ∀ k, (sb'.stream k).closeAtOffset = (sb.stream k).closeAtOffset

variable {sb sb' : SendBuffer} {k now rto : Nat} {msgType : CryptoMsgType} {ack : Option Ack} {mtu : Int}

theorem sameMarks_put {s' : StreamBuffer} (hstr : ∀ j, sb'.stream j = if j = k then s' else sb.stream j)
    (hs : s'.closeAtOffset = (sb.stream k).closeAtOffset) : SameMarks sb sb' := by
  intro j
  rw [hstr j]
  split_ifs with hj
  · rw [hj, hs]
  · rfl

theorem SameMarks.trans {sb'' : SendBuffer} (h : SameMarks sb sb') (h' : SameMarks sb' sb'') : SameMarks sb sb'' :=
  fun j => (h' j).trans (h j)

theorem sameMarks_queueData {d : Bytes} {n : Nat} {st : InsertStatus}
    (h : sb.queueData k d = some (sb', n, st)) : SameMarks sb sb' := by
  obtain ⟨_, ⟨_, rfl⟩ | rfl⟩ := queueData_cases h
  · exact fun _ => rfl
  · exact sameMarks_put (stream_put sb k · ((sb.stream k).queue (d.take n))) rfl

theorem sameMarks_queuePing (sb : SendBuffer) (k : Nat) : SameMarks sb (sb.queuePing k) :=
  sameMarks_put (stream_put sb k · _) rfl

theorem sameMarks_readyToSend {p : StreamBuffer.Packet}
    (h : sb.readyToSend k msgType ack mtu now = (sb', p)) : SameMarks sb sb' := by
  have hstr := fun j => (sb.readyToSend_stream k j msgType ack mtu now).1
  rw [h] at hstr
  exact sameMarks_put hstr (StreamBuffer.readyToSend_closeAt _ _ _ _ _)

theorem sameMarks_readyToRetransmit {r : Except String StreamBuffer.Packet}
    (h : sb.readyToRetransmit k ack mtu rto msgType now = some (sb', r)) : SameMarks sb sb' := by
  obtain ⟨s', hs, hstr⟩ := readyToRetransmit_stream h
  exact sameMarks_put hstr (by rw [StreamBuffer.readyToRetransmit_frame hs])

theorem sameMarks_afterAck (sb : SendBuffer) (ack : Option Ack) : SameMarks sb (sb.afterAck ack) := by
  cases ack with
  | none => exact fun _ => rfl
  | some a =>
    obtain ⟨st, hr, _⟩ | ⟨info, _, _, _, hstr⟩ := sb.acknowledgeRange_cases a
    · rw [afterAck, hr]
      exact fun _ => rfl
    · exact sameMarks_put hstr rfl

theorem fullyAcked_closed (h : sb.fullyAcked k = true) : ∃ c, (sb.stream k).closeAtOffset = some c := by
  unfold fullyAcked at h
  rw [getOffsetClosedAt_eq] at h
  cases hc : (sb.stream k).closeAtOffset with
  | none =>
    rw [hc] at h
    cases h
  | some c => exact ⟨c, rfl⟩

/-- Only an ack for a stream whose send side is closed marks it closed. -/
theorem ackCloses_closed (h : sb.ackCloses k ack = true) : ∃ c, (sb.stream k).closeAtOffset = some c := by
  obtain ⟨c, hc⟩ := fullyAcked_closed (Bool.and_eq_true_iff.mp h).2
  exact ⟨c, (sameMarks_afterAck sb ack k).symm.trans hc⟩

/-- `Close` sets the mark of its own stream, once. -/
theorem close_mark (sb : SendBuffer) (k j : Nat) :
    ((sb.close k).stream j).closeAtOffset = (sb.stream j).closeAtOffset ∨
      (j = k ∧ (sb.stream j).closeAtOffset = none) := by
  have hstr : (sb.close k).stream j = if j = k then (sb.stream k).close else sb.stream j := stream_put sb k j _
  rw [hstr]
  split_ifs with hj
  · subst hj
    unfold StreamBuffer.close
    cases hc : (sb.stream j).closeAtOffset with
    | some c => exact .inl hc
    | none => exact .inr ⟨rfl, rfl⟩
  · exact .inl rfl

end SendBuffer

/-- The bytes of a packet are accepted bytes at their own offset; CLOSE is only set on
a stream that is closed, and on data only where that ends the stream. -/
structure Genuine (W : Nat → Bytes) (sb : SendBuffer) (k : Nat) (d : Bytes) (o : Nat) (isClose : Bool) :
    Prop where
  offset : o < 2 ^ 48
  data : d ≠ [] → IsAt (W k) o d
  close : isClose = true → ∃ c, (sb.stream k).closeAtOffset = some c ∧ (d ≠ [] → o + d.length = c)

theorem Genuine.mono {W V : Nat → Bytes} {sb sb' : SendBuffer} {k o : Nat} {d : Bytes} {isClose : Bool}
    (h : Genuine W sb k d o isClose) (hWV : ∀ k, W k <+: V k)
    (hcl : ∀ k c, (sb.stream k).closeAtOffset = some c → (sb'.stream k).closeAtOffset = some c) :
    Genuine V sb' k d o isClose := by
  refine ⟨h.offset, fun hd => ?_, fun hc => ?_⟩
  · obtain ⟨t, ht⟩ := hWV k
    rw [← ht]
    exact (h.data hd).append
  · obtain ⟨c, hc, hend⟩ := h.close hc
    exact ⟨c, hcl k c hc, hend⟩

theorem Genuine.keeps {W : Nat → Bytes} {sb sb' : SendBuffer} {k o : Nat} {d : Bytes} {isClose : Bool}
    (h : Genuine W sb k d o isClose) (hs : SndKeeps W sb sb') : Genuine W sb' k d o isClose :=
  h.mono (fun _ => List.prefix_rfl) hs.closed

/-- An ack without data carries CLOSE on a closed stream only. -/
theorem genuine_ack (W : Nat → Bytes) (sb : SendBuffer) (k : Nat) :
    Genuine W sb k [] 0 (sb.fullyAcked k) := by
  refine ⟨by decide, fun h => absurd rfl h, fun h => ?_⟩
  obtain ⟨c, hc⟩ := SendBuffer.fullyAcked_closed h
  exact ⟨c, hc, fun hd => absurd rfl hd⟩

namespace StreamBuffer

variable {W : Bytes} {A : Nat → Prop} {s s' : StreamBuffer} {msgType : CryptoMsgType} {ack : Option Ack}
  {mtu : Int} {now rto : Nat} {d : Bytes} {o : Nat} {isClose : Bool}

/-- Inside the accepted bytes the close offset is met only at their end. -/
theorem closesAt_iff_end (hcl : ∀ c, s.closeAtOffset = some c → c = W.length) {n : Nat} (hn : n ≤ W.length) :
    s.closesAt n = true ↔ ∃ c, s.closeAtOffset = some c ∧ n = c := by
  rw [closesAt_iff]
  constructor
  · rintro ⟨c, hc, hle⟩
    have := hcl c hc
    exact ⟨c, hc, by omega⟩
  · rintro ⟨c, hc, rfl⟩
    exact ⟨n, hc, le_rfl⟩

theorem Conserves.sent_close_iff (h : Conserves W A s) (hcl : ∀ c, s.closeAtOffset = some c → c = W.length)
    (hb : s.bytesSentOffset < 2 ^ 48) (hm : MtuFits msgType ack mtu s.bytesSentOffset) (hping : s.pingRequest = false)
    (hr : (s.readyToSend msgType ack mtu now).2 = (some d, o, isClose)) :
    isClose = true ↔ ∃ c, s.closeAtOffset = some c ∧ o + d.length = c := by
  obtain ⟨_, _, _, hs⟩ | ⟨hp, _⟩ | ⟨_, hq, hc, hs⟩ | ⟨_, _, hs⟩ := s.readyToSend_cases msgType ack mtu now
  · rw [hs] at hr
    cases hr
  · rw [hping] at hp
    cases hp
  · rw [hs] at hr
    cases hr
    rw [createPacketKey_offset _ _ (by decide), Nat.mod_eq_of_lt hb]
    have hend := (closesAt_iff_end hcl h.sent_le).mp hc
    exact iff_of_true rfl hend
  · obtain ⟨hn, hn16⟩ := sendLength_le hm
    have hlen : s.bytesSentOffset + s.queuedData.length = W.length := by
      have := h.sent_le
      rw [h.queued, List.length_drop]
      omega
    rw [hs] at hr
    cases hr
    rw [Nat.mod_eq_of_lt hn16, createPacketKey_offset _ _ hn16, Nat.mod_eq_of_lt hb, List.length_take_of_le hn]
    exact closesAt_iff_end hcl (by omega)

theorem Conserves.resent_close_iff (h : Conserves W A s) (hcl : ∀ c, s.closeAtOffset = some c → c = W.length)
    (hr : s.readyToRetransmit ack mtu rto msgType now = some (s', .ok (some d, o, isClose))) :
    isClose = true ↔ ∃ c, s.closeAtOffset = some c ∧ o + d.length = c := by
  obtain ⟨rfl, hnone⟩ | ⟨key, info, hf, hcase⟩ := readyToRetransmit_cases hr
  · obtain hr | ⟨e, hr⟩ := hnone <;> cases hr
  have hmem := InsertionMap.first_mem hf
  have hlen16 : info.data.length < 2 ^ 16 := by
    have := packetKey_length_lt key
    rwa [h.keyed (key, info) hmem] at this
  have hbel : PacketKey.offset key + info.data.length ≤ W.length := (h.below (key, info) hmem).trans h.sent_le
  obtain ⟨_, _, hr⟩ | ⟨_, _, _, hr⟩ | ⟨m, _, _, hlt, hle, _, hr⟩ := hcase
  · cases hr
  · cases hr
    rw [Nat.mod_eq_of_lt hlen16]
    exact closesAt_iff_end hcl hbel
  · -- the left part of a cut entry ends before the entry does
    cases hr
    refine iff_of_false (by simp) ?_
    rintro ⟨c, hc, hend⟩
    have := hcl c hc
    rw [List.length_take_of_le hle] at hend
    omega

theorem Conserves.sent_close (h : Conserves W A s) (hcl : ∀ c, s.closeAtOffset = some c → c = W.length)
    (hb : s.bytesSentOffset < 2 ^ 48) (hm : MtuFits msgType ack mtu s.bytesSentOffset)
    (hr : (s.readyToSend msgType ack mtu now).2 = (some d, o, isClose)) :
    o < 2 ^ 48 ∧ (isClose = true → ∃ c, s.closeAtOffset = some c ∧ (d ≠ [] → o + d.length = c)) := by
  have hend : s.pingRequest = false → isClose = true → ∃ c, s.closeAtOffset = some c ∧ (d ≠ [] → o + d.length = c) :=
    fun hping hc => ((h.sent_close_iff hcl hb hm hping hr).mp hc).imp fun c hc => ⟨hc.1, fun _ => hc.2⟩
  obtain ⟨_, _, _, hs⟩ | ⟨_, hs⟩ | ⟨hping, _, _, hs⟩ | ⟨hping, _, hs⟩ := s.readyToSend_cases msgType ack mtu now
  · rw [hs] at hr
    cases hr
  · rw [hs] at hr
    cases hr
    exact ⟨by decide, nofun⟩
  · refine ⟨?_, hend hping⟩
    rw [hs] at hr
    cases hr
    rw [createPacketKey_offset _ _ (by decide)]
    exact Nat.mod_lt _ (by decide)
  · refine ⟨?_, hend hping⟩
    rw [hs] at hr
    cases hr
    rw [createPacketKey_offset _ _ (Nat.mod_lt _ (by decide))]
    exact Nat.mod_lt _ (by decide)

theorem Conserves.resent_close (h : Conserves W A s) (hcl : ∀ c, s.closeAtOffset = some c → c = W.length)
    (hb : s.bytesSentOffset < 2 ^ 48)
    (hr : s.readyToRetransmit ack mtu rto msgType now = some (s', .ok (some d, o, isClose))) :
    o < 2 ^ 48 ∧ (isClose = true → ∃ c, s.closeAtOffset = some c ∧ (d ≠ [] → o + d.length = c)) := by
  refine ⟨?_, fun hc => ((h.resent_close_iff hcl hr).mp hc).imp fun c hc => ⟨hc.1, fun _ => hc.2⟩⟩
  obtain ⟨rfl, hnone⟩ | ⟨key, info, hf, hcase⟩ := readyToRetransmit_cases hr
  · obtain hr | ⟨e, hr⟩ := hnone <;> cases hr
  have hbel : PacketKey.offset key + info.data.length ≤ s.bytesSentOffset :=
    h.below (key, info) (InsertionMap.first_mem hf)
  obtain ⟨_, _, hr⟩ | ⟨_, _, _, hr⟩ | ⟨m, _, _, _, _, _, hr⟩ := hcase <;> cases hr <;> omega

end StreamBuffer

namespace SndOk

variable {W : Nat → Bytes} {sb sb' : SendBuffer} {k : Nat} {msgType : CryptoMsgType} {ack : Option Ack}
  {mtu : Int} {now rto : Nat}

theorem readyToSend (h : SndOk W sb) (hb : (sb.stream k).bytesSentOffset < 2 ^ 48)
    (hm : StreamBuffer.MtuFits msgType ack mtu (sb.stream k).bytesSentOffset) {p : StreamBuffer.Packet}
    (hr : sb.readyToSend k msgType ack mtu now = (sb', p)) :
    SndKeeps W sb sb' ∧ ∀ d o isClose, p = (some d, o, isClose) → Genuine W sb k d o isClose := by
  have hstr := fun j => sb.readyToSend_stream k j msgType ack mtu now
  rw [hr] at hstr
  dsimp only at hstr
  obtain ⟨hc, hd⟩ : _ ∧ ∀ d o c, ((sb.stream k).readyToSend msgType ack mtu now).2 = (some d, o, c) →
      d ≠ [] → IsAt (W k) o d := (h.conserves k).readyToSend hb hm
  have hcl := (sb.stream k).readyToSend_closeAt msgType ack mtu now
  refine ⟨h.put (fun j => (hstr j).1) hc (.inl hcl), fun d o isClose hp => ?_⟩
  have hpkt := (hstr k).2.symm.trans hp
  obtain ⟨ho, hclose⟩ := (h.conserves k).sent_close (h.closed k) hb hm hpkt
  exact ⟨ho, hd d o isClose hpkt, hclose⟩

theorem readyToRetransmit (h : SndOk W sb) (hb : (sb.stream k).bytesSentOffset < 2 ^ 48)
    (hm : ∀ e, (sb.stream k).dataInFlightMap.first = some e →
      StreamBuffer.MtuFits msgType ack mtu (StreamBuffer.entryStart e))
    {r : Except String StreamBuffer.Packet}
    (hr : sb.readyToRetransmit k ack mtu rto msgType now = some (sb', r)) :
    SndKeeps W sb sb' ∧ ∀ d o isClose, r = .ok (some d, o, isClose) → Genuine W sb k d o isClose := by
  obtain ⟨s', hs, hstr⟩ := SendBuffer.readyToRetransmit_stream hr
  obtain ⟨hc, hd⟩ := (h.conserves k).readyToRetransmit hb hm hs
  have hcl : s'.closeAtOffset = (sb.stream k).closeAtOffset := by
    rw [StreamBuffer.readyToRetransmit_frame hs]
  refine ⟨h.put hstr hc (.inl hcl), fun d o isClose hp => ?_⟩
  subst hp
  obtain ⟨ho, hclose⟩ := (h.conserves k).resent_close (h.closed k) hb hs
  exact ⟨ho, hd d o isClose rfl, hclose⟩

/-- The bytes a write accepts; a closed stream accepts none. -/
theorem queueData (h : SndOk W sb) {d : Bytes} {n : Nat} {st : InsertStatus}
    (hopen : (sb.stream k).closeAtOffset = none) (hq : sb.queueData k d = some (sb', n, st)) :
    SndOk (Function.update W k (W k ++ d.take n)) sb' ∧
      (sb'.stream k).queuedData.length = (sb.stream k).queuedData.length + n ∧
      ∀ j c, (sb.stream j).closeAtOffset = some c → (sb'.stream j).closeAtOffset = some c := by
  have hle := (SendBuffer.queueData_cases hq).1
  have hstr := SendBuffer.queueData_stream hq
  refine ⟨⟨fun j => ?_, fun j c hj => ?_⟩, ?_, fun j c hj => ?_⟩
  · rw [hstr j]
    by_cases hjk : j = k
    · subst hjk
      rw [if_pos rfl, Function.update_self]
      exact (h.conserves j).queue _
    · rw [if_neg hjk, Function.update_of_ne hjk]
      exact h.conserves j
  · rw [hstr j] at hj
    by_cases hjk : j = k
    · subst hjk
      rw [if_pos rfl, StreamBuffer.queue, hopen] at hj
      cases hj
    · rw [if_neg hjk] at hj
      rw [Function.update_of_ne hjk]
      exact h.closed j c hj
  · rw [hstr k, if_pos rfl, StreamBuffer.queue, List.length_append, List.length_take_of_le hle]
  · rw [hstr j]
    by_cases hjk : j = k
    · subst hjk
      rw [hopen] at hj
      cases hj
    · rwa [if_neg hjk]

end SndOk

end Qotp
