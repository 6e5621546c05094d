import Qotp.Buffer.SendClose

namespace Qotp

open Framework

namespace StreamBuffer

/-- The user bytes of a stream that are sent and not acknowledged. -/
def inFlight (s : StreamBuffer) : Nat := s.dataInFlightMap.sumBy fun info => info.data.length

variable {W : Bytes} {A : Nat → Prop} {s s' : StreamBuffer}

theorem inFlight_nil (h : s.dataInFlightMap.entries = []) : s.inFlight = 0 := by
  simp [inFlight, InsertionMap.sumBy, h]

/-- An entry with key length `n` counts for `n` bytes. -/
theorem Conserves.length_of_key (h : Conserves W A s) {key : PacketKey} {info : SendInfo}
    (hg : s.dataInFlightMap.get? key = some info) : info.data.length = PacketKey.length key :=
  (h.keyed (key, info) (InsertionMap.get?_eq_some.mp hg)).symm

/-- Bytes count once: what is put is new, or has the length of what was there. -/
theorem Conserves.inFlight_put (h : Conserves W A s) {key : PacketKey} {info : SendInfo}
    (hlen : PacketKey.length key = info.data.length)
    (hnew : ∀ old, s.dataInFlightMap.get? key = some old → info.data = []) :
    (s.dataInFlightMap.put key info).sumBy (fun i => i.data.length) = s.inFlight + info.data.length := by
  cases hg : s.dataInFlightMap.get? key with
  | none => exact InsertionMap.sumBy_put_none _ hg info
  | some old =>
    have hold := h.length_of_key hg
    have hput := InsertionMap.sumBy_put_some (fun i : SendInfo => i.data.length) hg info
    have hnil := congrArg List.length (hnew old hg)
    unfold inFlight
    simp only [List.length_nil] at hnil
    omega

theorem Conserves.inFlight_afterEmpty (h : Conserves W A s) (now : Nat) (isPing : Bool) :
    (s.afterEmpty now isPing).inFlight = s.inFlight := by
  apply h.inFlight_put
  · exact createPacketKey_length _ _ (by decide)
  · exact fun _ _ => rfl

/-- A first transmission of `n` bytes: no entry can be in its place. -/
theorem Conserves.inFlight_afterData (h : Conserves W A s) (hb : s.bytesSentOffset < 2 ^ 48) {n : Nat}
    (hn : n ≤ s.queuedData.length) (hn16 : n < 2 ^ 16) (now : Nat) :
    (s.afterData n now).inFlight = s.inFlight + n := by
  have hlen : (s.queuedData.take n).length = n := List.length_take_of_le hn
  have hput : (s.dataInFlightMap.put (createPacketKey s.bytesSentOffset n)
      (newSendInfo (s.queuedData.take n) now false)).sumBy (fun i => i.data.length) =
      s.inFlight + (s.queuedData.take n).length := by
    apply h.inFlight_put
    · rw [createPacketKey_length _ _ hn16]
      exact hlen.symm
    · intro old hg
      have hold := h.length_of_key hg
      have hbel := h.below _ (InsertionMap.get?_eq_some.mp hg)
      unfold entryEnd at hbel
      dsimp only at hbel
      rw [createPacketKey_length _ _ hn16] at hold
      rw [createPacketKey_offset _ _ hn16, Nat.mod_eq_of_lt hb] at hbel
      have hn0 : n = 0 := by omega
      simp [newSendInfo, hn0]
  unfold StreamBuffer.afterData StreamBuffer.inFlight
  rw [Nat.mod_eq_of_lt hn16]
  rw [hlen] at hput
  exact hput

theorem inFlight_resend {key : PacketKey} {info : SendInfo}
    (hg : s.dataInFlightMap.get? key = some info) (now : Nat) :
    (s.dataInFlightMap.put key (StreamBuffer.resend info now)).sumBy (fun i => i.data.length) =
      s.inFlight := by
  have hput := InsertionMap.sumBy_put_some (fun i : SendInfo => i.data.length) hg
    (StreamBuffer.resend info now)
  exact Nat.add_right_cancel hput

theorem inFlight_erase {key : PacketKey} {info : SendInfo}
    (hg : s.dataInFlightMap.get? key = some info) :
    (s.dataInFlightMap.erase key).sumBy (fun i => i.data.length) + info.data.length = s.inFlight := by
  have he := InsertionMap.sumBy_erase (fun i : SendInfo => i.data.length) s.dataInFlightMap key
  rwa [hg] at he

/-- The two parts of a cut entry count as much as the entry. -/
theorem SplitAt.inFlight {key : PacketKey} {info : SendInfo} {m : Nat} (h : SplitAt s key info m)
    (hc : Conserves W A s) (now : Nat) : (s.afterSplit key info m now).inFlight = s.inFlight := by
  have hlt := h.m_lt
  have hne := h.leftKey_ne (hc.keyed (key, info) h.mem)
  have hleft : (s.dataInFlightMap.put (leftKey key m) (leftPart info m now)).sumBy (fun i => i.data.length) =
      s.inFlight + m := by
    have hlen : (leftPart info m now).data.length = m := List.length_take_of_le hlt.le
    rw [hc.inFlight_put, hlen]
    · rw [h.leftKey_length, hlen]
    · -- an entry there would lie inside the one that is cut
      intro old hg
      have hold := hc.length_of_key hg
      rw [h.leftKey_length] at hold
      have hd := hc.disjoint _ (InsertionMap.get?_eq_some.mp hg) (key, info) h.mem hne
      unfold entryEnd entryStart at hd
      dsimp only at hd
      rw [h.leftKey_offset] at hd
      by_contra hnil
      have hpos : 0 < m := hlen ▸ List.length_pos_iff.mpr hnil
      have := hd (List.ne_nil_of_length_pos (by omega)) (List.ne_nil_of_length_pos (by omega))
      omega
  have hkey : (s.dataInFlightMap.put (leftKey key m) (leftPart info m now)).get? key = some info := by
    rw [InsertionMap.get?_put_ne _ _ hne.symm]
    exact InsertionMap.get?_eq_some.mpr h.mem
  have hright := InsertionMap.sumBy_put_some (fun i : SendInfo => i.data.length) hkey (rightPart info m)
  have hren := InsertionMap.sumBy_replace (fun i : SendInfo => i.data.length) (v := rightPart info m)
    (InsertionMap.get?_put_self (s.dataInFlightMap.put (leftKey key m) (leftPart info m now)) key
      (rightPart info m)) (h.rightKey_free hc now)
  have hdrop : (rightPart info m).data.length = info.data.length - m := List.length_drop
  rw [h.afterSplit_eq]
  unfold StreamBuffer.inFlight at hleft ⊢
  dsimp only
  omega

/-- A first send adds what it hands out. -/
theorem Conserves.inFlight_readyToSend (h : Conserves W A s) (hb : s.bytesSentOffset < 2 ^ 48)
    {msgType : CryptoMsgType} {ack : Option Ack} {mtu : Int} {now : Nat}
    (hm : MtuFits msgType ack mtu s.bytesSentOffset) :
    (s.readyToSend msgType ack mtu now).1.inFlight =
      s.inFlight + ((s.readyToSend msgType ack mtu now).2.1.getD []).length := by
  obtain ⟨_, _, _, hr⟩ | ⟨_, hr⟩ | ⟨_, _, _, hr⟩ | ⟨_, _, hr⟩ := s.readyToSend_cases msgType ack mtu now
  · rw [hr]
    rfl
  · rw [hr]
    exact h.inFlight_afterEmpty now true
  · rw [hr]
    exact h.inFlight_afterEmpty now false
  · obtain ⟨hn, hn16⟩ := sendLength_le hm
    rw [hr, h.inFlight_afterData hb hn hn16]
    simp [List.length_take_of_le hn]

/-- A retransmission, whole or split, and an expired ping change nothing. -/
theorem Conserves.inFlight_readyToRetransmit (h : Conserves W A s) (hb : s.bytesSentOffset < 2 ^ 48)
    {msgType : CryptoMsgType} {ack : Option Ack} {mtu : Int} {rto now : Nat}
    (hm : ∀ e, s.dataInFlightMap.first = some e → MtuFits msgType ack mtu (entryStart e))
    {r : Except String Packet} (hr : s.readyToRetransmit ack mtu rto msgType now = some (s', r)) :
    s'.inFlight = s.inFlight := by
  obtain ⟨rfl, _⟩ | ⟨key, info, hf, hcase⟩ := readyToRetransmit_cases hr
  · rfl
  have hmem := InsertionMap.first_mem hf
  have hg := InsertionMap.get?_eq_some.mpr hmem
  obtain ⟨hp, rfl, _⟩ | ⟨_, _, rfl, _⟩ | ⟨m, _, hmax, hlt, hle, rfl, _⟩ := hcase
  · have he := inFlight_erase hg
    rw [h.ping (key, info) hmem hp] at he
    exact he
  · exact inFlight_resend hg now
  · exact (h.splitAt hb hmem hmax (hm (key, info) hf) hlt).inFlight h now

end StreamBuffer

namespace SendBuffer

variable {sb sb' : SendBuffer} {k : Nat}

section Total

-- a count of each stream that is 0 for a new one, summed over the streams
variable {f : StreamBuffer → Nat} (hf : f {} = 0)

include hf

/-- The total follows the one stream that is changed. -/
theorem sumBy_put (sb : SendBuffer) (k : Nat) (s : StreamBuffer) :
    (sb.streams.put k s).sumBy f + f (sb.stream k) = sb.streams.sumBy f + f s := by
  have hput := InsertionMap.sumBy_put f sb.streams k s
  have hk : f (sb.stream k) = ((sb.streams.get? k).map f).getD 0 := by
    unfold stream
    cases sb.streams.get? k with
    | none => exact hf
    | some s => rfl
  rw [hk]
  exact hput

theorem sumBy_readyToSend (sb : SendBuffer) (k : Nat) (msgType : CryptoMsgType) (ack : Option Ack)
    (mtu : Int) (now : Nat) :
    (sb.readyToSend k msgType ack mtu now).1.streams.sumBy f + f (sb.stream k) =
      sb.streams.sumBy f + f ((sb.stream k).readyToSend msgType ack mtu now).1 := by
  unfold readyToSend
  cases hg : sb.streams.get? k with
  | none =>
    have hk : sb.stream k = {} := by simp [stream, hg]
    rw [hk]
    rfl
  | some s =>
    have hk : sb.stream k = s := by simp [stream, hg]
    have hput := sumBy_put hf sb k (s.readyToSend msgType ack mtu now).1
    rw [hk] at hput ⊢
    exact hput

theorem sumBy_readyToRetransmit {ack : Option Ack} {mtu : Int} {rto now : Nat}
    {msgType : CryptoMsgType} {r : Except String StreamBuffer.Packet}
    (h : sb.readyToRetransmit k ack mtu rto msgType now = some (sb', r)) :
    ∃ s', (sb.stream k).readyToRetransmit ack mtu rto msgType now = some (s', r) ∧
      sb'.streams.sumBy f + f (sb.stream k) = sb.streams.sumBy f + f s' := by
  unfold readyToRetransmit at h
  cases hg : sb.streams.get? k with
  | none =>
    have hk : sb.stream k = {} := by simp [stream, hg]
    rw [hg] at h
    cases h
    exact ⟨{}, by rw [hk]; rfl, by rw [hk]⟩
  | some s =>
    have hk : sb.stream k = s := by simp [stream, hg]
    rw [hg] at h
    obtain ⟨⟨s', r'⟩, hs, hr⟩ := Option.map_eq_some_iff.mp h
    cases hr
    exact ⟨s', by rw [hk]; exact hs, sumBy_put hf sb k s'⟩

theorem sumBy_acknowledgeRange (sb : SendBuffer) (a : Ack) :
    ((sb.acknowledgeRange a).2.1 ≠ .ok ∧ (sb.acknowledgeRange a).1 = sb) ∨
    ∃ info, (createPacketKey a.offset a.len, info) ∈ (sb.stream a.streamID).dataInFlightMap.entries ∧
      (sb.acknowledgeRange a).2.1 = .ok ∧
      (sb.acknowledgeRange a).1.streams.sumBy f + f (sb.stream a.streamID) = sb.streams.sumBy f +
        f { sb.stream a.streamID with dataInFlightMap :=
          (sb.stream a.streamID).dataInFlightMap.erase (createPacketKey a.offset a.len) } := by
  unfold acknowledgeRange
  cases hg : sb.streams.get? a.streamID with
  | none => exact .inl ⟨by simp, rfl⟩
  | some s =>
    have hk : sb.stream a.streamID = s := by simp [stream, hg]
    dsimp only
    cases hi : s.dataInFlightMap.get? (createPacketKey a.offset a.len) with
    | none => exact .inl ⟨by simp, rfl⟩
    | some info =>
      have hput := sumBy_put hf sb a.streamID
        { s with dataInFlightMap := s.dataInFlightMap.erase (createPacketKey a.offset a.len) }
      rw [hk] at hput ⊢
      exact .inr ⟨info, InsertionMap.get?_eq_some.mp hi, rfl, hput⟩

end Total

/-- The user bytes in flight on all streams. -/
def inFlight (sb : SendBuffer) : Nat := sb.streams.sumBy StreamBuffer.inFlight

/-- An ack that hits takes its entry out of the total. -/
theorem inFlight_acknowledgeRange (sb : SendBuffer) (a : Ack) :
    ((sb.acknowledgeRange a).2.1 ≠ .ok ∧ (sb.acknowledgeRange a).1 = sb) ∨
    ∃ info, (createPacketKey a.offset a.len, info) ∈ (sb.stream a.streamID).dataInFlightMap.entries ∧
      (sb.acknowledgeRange a).2.1 = .ok ∧
      (sb.acknowledgeRange a).1.inFlight + info.data.length = sb.inFlight := by
  refine (sumBy_acknowledgeRange (f := StreamBuffer.inFlight) rfl sb a).imp id ?_
  rintro ⟨info, hmem, hok, hsum⟩
  refine ⟨info, hmem, hok, ?_⟩
  have he := StreamBuffer.inFlight_erase (InsertionMap.get?_eq_some.mpr hmem)
  unfold inFlight StreamBuffer.inFlight at *
  dsimp only at hsum
  omega

theorem inFlight_eq_zero {sb : SendBuffer} (h : ∀ k, (sb.stream k).dataInFlightMap.entries = []) :
    sb.inFlight = 0 := by
  apply List.sum_eq_zero
  intro n hn
  obtain ⟨⟨k, s⟩, he, rfl⟩ := List.mem_map.mp hn
  have hk : sb.stream k = s := by simp [stream, InsertionMap.get?_eq_some.mpr he]
  exact StreamBuffer.inFlight_nil (hk ▸ h k)

/-- Queueing, a ping and a close leave the entries in flight as they are. -/
theorem inFlight_update (sb : SendBuffer) (k : Nat) {f : StreamBuffer → StreamBuffer}
    (hf : (f (sb.stream k)).dataInFlightMap = (sb.stream k).dataInFlightMap) :
    (sb.update k f).inFlight = sb.inFlight := by
  have hput := sumBy_put (f := StreamBuffer.inFlight) rfl sb k (f (sb.stream k))
  have hone : (f (sb.stream k)).inFlight = (sb.stream k).inFlight := by
    unfold StreamBuffer.inFlight
    rw [hf]
  unfold update inFlight
  dsimp only
  omega

theorem inFlight_close (sb : SendBuffer) (k : Nat) : (sb.close k).inFlight = sb.inFlight := by
  apply inFlight_update
  unfold StreamBuffer.close
  cases (sb.stream k).closeAtOffset <;> rfl

theorem inFlight_queueData {sb sb' : SendBuffer} {k n : Nat} {d : Bytes} {st : InsertStatus}
    (h : sb.queueData k d = some (sb', n, st)) : sb'.inFlight = sb.inFlight := by
  obtain ⟨_, ⟨_, rfl⟩ | rfl⟩ := queueData_cases h
  · rfl
  · exact inFlight_update (f := (·.queue (d.take n))) sb k rfl

end SendBuffer

namespace SndOk

variable {W : Nat → Bytes} {sb sb' : SendBuffer} {k : Nat} {msgType : CryptoMsgType} {ack : Option Ack}
  {mtu : Int} {now rto : Nat}

theorem inFlight_readyToSend (h : SndOk W sb) (hb : (sb.stream k).bytesSentOffset < 2 ^ 48)
    (hm : StreamBuffer.MtuFits msgType ack mtu (sb.stream k).bytesSentOffset) {p : StreamBuffer.Packet}
    (hr : sb.readyToSend k msgType ack mtu now = (sb', p)) :
    sb'.inFlight = sb.inFlight + (p.1.getD []).length := by
  have hsum := SendBuffer.sumBy_readyToSend (f := StreamBuffer.inFlight) rfl sb k msgType ack mtu now
  have hone : ((sb.stream k).readyToSend msgType ack mtu now).1.inFlight = _ :=
    (h.conserves k).inFlight_readyToSend hb hm
  rw [← (sb.readyToSend_stream k k msgType ack mtu now).2] at hone
  rw [hr] at hsum hone
  unfold SendBuffer.inFlight
  dsimp only at hsum hone
  omega

theorem inFlight_readyToRetransmit (h : SndOk W sb) (hb : (sb.stream k).bytesSentOffset < 2 ^ 48)
    (hm : ∀ e, (sb.stream k).dataInFlightMap.first = some e →
      StreamBuffer.MtuFits msgType ack mtu (StreamBuffer.entryStart e))
    {r : Except String StreamBuffer.Packet}
    (hr : sb.readyToRetransmit k ack mtu rto msgType now = some (sb', r)) : sb'.inFlight = sb.inFlight := by
  obtain ⟨s', hs, hsum⟩ := SendBuffer.sumBy_readyToRetransmit (f := StreamBuffer.inFlight) rfl hr
  have hone := (h.conserves k).inFlight_readyToRetransmit hb hm hs
  unfold SendBuffer.inFlight
  omega

end SndOk

end Qotp
