import Qotp.Buffer.ReceiveSafe
import Qotp.Buffer.SendClose
import Qotp.Framework.Cells

namespace Qotp

open Framework

namespace RcvBuffer

variable {B : Set Nat} {s s' : RcvBuffer} {o now : Nat} {d : Bytes}

/-- The segments are cells of one cut, and so is all that was delivered. -/
structure Celled (B : Set Nat) (s : RcvBuffer) : Prop where
  next : s.nextInOrderOffsetToWaitFor ∈ B
  cells : ∀ e ∈ s.segments.entries, e.2.data ≠ [] ∧ IsCell B e.1 e.2.data.length

theorem celled_new (h : 0 ∈ B) : Celled B {} := ⟨h, nofun⟩

theorem Celled.grow (h : Celled B s) {x : Nat} (hx : ∀ y ∈ B, y ≤ x) : Celled (Insert.insert x B) s :=
  ⟨.inr h.next, fun e he => ⟨(h.cells e he).1, (h.cells e he).2.insert hx⟩⟩

theorem Celled.close (h : Celled B s) (o : Nat) : Celled B (s.close o) := by
  rw [close_eq]
  exact ⟨h.next, h.cells⟩

/-- A cell and a stored segment are the same, or lie apart. -/
theorem Celled.eq_or_apart (h : Celled B s) {l p : Nat} {v : RcvValue} (hc : IsCell B o l) (hv : (p, v) ∈ s.segments.entries) :
    (o = p ∧ l = v.data.length) ∨ o + l ≤ p ∨ p + v.data.length ≤ o :=
  hc.eq_or_apart (h.cells (p, v) hv).2

/-- Every cell is safe to insert. -/
theorem Celled.insertSafe (h : Celled B s) {l : Nat} (hc : IsCell B o l) (hl : 0 < l) : s.InsertSafe o l := by
  obtain hle | hle := hc.uncut _ h.next
  · refine .inr ⟨hle, ?_⟩
    cases hg : s.segments.get? o with
    | some v =>
      have hv := h.eq_or_apart hc (SortedAssoc.get?_eq_some.mp hg)
      have hpos : 0 < v.data.length := List.length_pos_iff.mpr (h.cells _ (SortedAssoc.get?_eq_some.mp hg)).1
      exact .inl (by omega)
    | none =>
      refine .inr fun e he hlt hin => ?_
      have hv := h.eq_or_apart hc (p := e.1) (v := e.2) he
      omega
  · exact .inl hle

/-- A cell is stored whole, or not at all. -/
theorem Celled.insert (h : Celled B s) (hc : IsCell B o d.length) (hne : d ≠ []) {delta : Int} {st : RcvInsertStatus}
    (hi : s.insert o now d = some (s', delta, st)) : Celled B s' := by
  have hl := List.length_pos_iff.mpr hne
  obtain ⟨rfl, _⟩ | ⟨_, v, _, _, _, rfl, _⟩ | ⟨_, _, _, m, segs, removed, kept, hm, hn, rfl, _⟩ := insert_paths hi
  · exact h
  · exact ⟨h.next, SortedAssoc.forall_put ⟨hne, hc⟩ fun e he _ => h.cells e (SortedAssoc.mem_erase.mp he).2⟩
  · -- the preceding segment ends before the cell, and the following one starts behind it
    obtain rfl : m = 0 := by
      obtain ⟨hm, _⟩ | ⟨hlt, p, v, hp, hend⟩ := hm
      · exact hm
      · obtain ⟨hmem, hbelow, _⟩ := SortedAssoc.prev_spec hp
        have hv := h.eq_or_apart hc hmem
        dsimp only at hbelow
        omega
    rw [List.drop_zero, Nat.add_zero] at hn
    have hafter : ∀ p v, s.segments.next o = some (p, v) → ¬ p < o + d.length := by
      intro p v hp hlt
      obtain ⟨hmem, habove, _⟩ := SortedAssoc.next_spec hp
      have hv := h.eq_or_apart hc hmem
      dsimp only at habove
      omega
    obtain ⟨_, rfl, rfl⟩ | ⟨p, v, hp, hlt, _⟩ | ⟨p, v, hp, hlt, _⟩ := trimNext_cases hn
    · exact ⟨h.next, SortedAssoc.forall_put ⟨hne, hc⟩ fun e he _ => h.cells e he⟩
    · exact absurd hlt (hafter p v hp)
    · exact absurd hlt (hafter p v hp)

theorem Celled.remove (h : Celled B s) : Celled B s.removeOldestInOrder.1 := by
  obtain ⟨v, hmin, hr⟩ | ⟨hr, _⟩ := s.removeOldestInOrder_cases
  · rw [hr]
    have hcell := (h.cells _ (SortedAssoc.min?_spec hmin).1).2
    exact ⟨hcell.stop, fun e he => h.cells e (SortedAssoc.mem_erase.mp he).2⟩
  · rw [hr]
    exact h

end RcvBuffer

namespace StreamBuffer

variable {B : Set Nat} {s s' : StreamBuffer} {msgType : CryptoMsgType} {ack : Option Ack} {mtu : Int} {now rto : Nat}

/-- The sent offsets so far are the cuts, and what is in flight are their cells. -/
structure CutAt (B : Set Nat) (s : StreamBuffer) : Prop where
  last : s.bytesSentOffset ∈ B
  le : ∀ x ∈ B, x ≤ s.bytesSentOffset
  cells : ∀ e ∈ s.dataInFlightMap.entries, e.2.data ≠ [] → IsCell B (entryStart e) e.2.data.length

theorem cutAt_new : CutAt {0} {} := by
  refine ⟨rfl, fun x hx => ?_, nofun⟩
  rw [Set.mem_singleton_iff.mp hx]

/-- Where the oldest packet in flight is due, it still fits. -/
def ResendsWhole (s : StreamBuffer) (ack : Option Ack) (mtu : Int) (rto : Nat) (msgType : CryptoMsgType) (now : Nat) :
    Prop :=
  ∀ e ∈ s.dataInFlightMap.first, due e.2 rto now = true → e.2.pingRequest = false →
    (e.2.data.length : Int) ≤ maxDataFor msgType ack mtu (entryStart e)

instance (s : StreamBuffer) (ack : Option Ack) (mtu : Int) (rto : Nat) (msgType : CryptoMsgType) (now : Nat) :
    Decidable (s.ResendsWhole ack mtu rto msgType now) :=
  inferInstanceAs (Decidable (∀ e ∈ s.dataInFlightMap.first, _ → _ → (e.2.data.length : Int) ≤ _))

/-- No new cut: the entries are old ones, or carry no data. -/
theorem CutAt.keep (h : CutAt B s) (hoff : s'.bytesSentOffset = s.bytesSentOffset)
    (hent : ∀ e ∈ s'.dataInFlightMap.entries, e.2.data ≠ [] →
      ∃ v ∈ s.dataInFlightMap.entries, v.1 = e.1 ∧ v.2.data = e.2.data) : CutAt B s' := by
  refine ⟨hoff ▸ h.last, fun x hx => (h.le x hx).trans hoff.ge, fun e he hne => ?_⟩
  obtain ⟨v, hv, hkey, hdata⟩ := hent e he hne
  have hcell := h.cells v hv (hdata ▸ hne)
  unfold entryStart at hcell ⊢
  rwa [hkey, hdata] at hcell

/-- `Close`, a ping and a write leave what is in flight. -/
theorem CutAt.congr (h : CutAt B s) (hoff : s'.bytesSentOffset = s.bytesSentOffset)
    (hmap : s'.dataInFlightMap = s.dataInFlightMap) : CutAt B s' :=
  h.keep hoff fun e he _ => ⟨e, hmap ▸ he, rfl, rfl⟩

theorem CutAt.close (h : CutAt B s) : CutAt B s.close := by
  unfold StreamBuffer.close
  cases s.closeAtOffset with
  | some c => exact h
  | none => exact h.congr rfl rfl

theorem CutAt.afterEmpty (h : CutAt B s) (now : Nat) (isPing : Bool) : CutAt B (s.afterEmpty now isPing) := by
  refine h.keep rfl fun e he hne => ?_
  obtain rfl | ⟨_, he⟩ := InsertionMap.mem_put.mp he
  · exact absurd rfl hne
  · exact ⟨e, he, rfl, rfl⟩

/-- What is sent first is a cell, between the last cut and a new one. -/
theorem CutAt.readyToSend (h : CutAt B s) (hb : s.bytesSentOffset < 2 ^ 48)
    (hm : MtuFits msgType ack mtu s.bytesSentOffset) :
    CutAt (insert (s.readyToSend msgType ack mtu now).1.bytesSentOffset B) (s.readyToSend msgType ack mtu now).1 ∧
      ∀ d o c, (s.readyToSend msgType ack mtu now).2 = (some d, o, c) → d ≠ [] →
        IsCell (insert (s.readyToSend msgType ack mtu now).1.bytesSentOffset B) o d.length := by
  have hsame : insert s.bytesSentOffset B = B := Set.insert_eq_of_mem h.last
  obtain ⟨_, _, _, hr⟩ | ⟨_, hr⟩ | ⟨_, _, _, hr⟩ | ⟨_, _, hr⟩ := s.readyToSend_cases msgType ack mtu now
  · rw [hr, hsame]
    exact ⟨h, fun d o c hd => by cases hd⟩
  · rw [hr]
    refine ⟨?_, fun d o c hd hne => ?_⟩
    · change CutAt (insert s.bytesSentOffset B) _
      rw [hsame]
      exact h.afterEmpty now true
    · cases hd
      exact absurd rfl hne
  · rw [hr]
    refine ⟨?_, fun d o c hd hne => ?_⟩
    · change CutAt (insert s.bytesSentOffset B) _
      rw [hsame]
      exact h.afterEmpty now false
    · cases hd
      exact absurd rfl hne
  · obtain ⟨hn, hn16⟩ := sendLength_le hm
    have hlen : (s.queuedData.take (s.sendLength msgType ack mtu)).length = s.sendLength msgType ack mtu :=
      List.length_take_of_le hn
    have ho : PacketKey.offset (createPacketKey s.bytesSentOffset (s.sendLength msgType ack mtu % 2 ^ 16)) =
        s.bytesSentOffset := by
      rw [Nat.mod_eq_of_lt hn16, createPacketKey_offset _ _ hn16, Nat.mod_eq_of_lt hb]
    have hnew := isCell_insert h.last h.le (s.sendLength msgType ack mtu)
    have hle : ∀ x ∈ B, x ≤ s.bytesSentOffset + s.sendLength msgType ack mtu :=
      fun x hx => (h.le x hx).trans (Nat.le_add_right _ _)
    rw [hr]
    refine ⟨⟨.inl rfl, fun x hx => ?_, InsertionMap.forall_put (fun _ => ?_) fun e he _ hne => ?_⟩, fun d o c hd _ => ?_⟩
    · obtain rfl | hx := hx
      · exact le_rfl
      · exact hle x hx
    · unfold entryStart
      dsimp only [newSendInfo]
      rw [ho, hlen]
      exact hnew
    · exact (h.cells e he hne).insert hle
    · cases hd
      rw [ho, hlen]
      exact hnew

/-- A packet that still fits is sent again as the cell it is. -/
theorem CutAt.readyToRetransmit (h : CutAt B s) (hw : s.ResendsWhole ack mtu rto msgType now)
    (hm : ∀ e, s.dataInFlightMap.first = some e → MtuFits msgType ack mtu (entryStart e)) {r : Except String Packet}
    (hr : s.readyToRetransmit ack mtu rto msgType now = some (s', r)) :
    CutAt B s' ∧ ∀ d o c, r = .ok (some d, o, c) → d ≠ [] → IsCell B o d.length := by
  obtain ⟨rfl, hnone⟩ | ⟨key, info, hf, hcase⟩ := readyToRetransmit_cases hr
  · refine ⟨h, fun d o c hd => ?_⟩
    obtain rfl | ⟨e, rfl⟩ := hnone <;> cases hd
  have hmem := InsertionMap.first_mem hf
  obtain ⟨_, rfl, rfl⟩ | ⟨_, _, rfl, rfl⟩ | ⟨m, hping, hmax, hlt, _, rfl, rfl⟩ := hcase
  · refine ⟨h.keep rfl fun e he _ => ?_, fun d o c hd => by cases hd⟩
    exact ⟨e, (InsertionMap.mem_erase.mp he).2, rfl, rfl⟩
  · refine ⟨h.keep rfl fun e he _ => ?_, fun d o c hd hne => ?_⟩
    · obtain rfl | ⟨_, he⟩ := InsertionMap.mem_put.mp he
      · exact ⟨(key, info), hmem, rfl, rfl⟩
      · exact ⟨e, he, rfl, rfl⟩
    · cases hd
      exact h.cells (key, info) hmem hne
  · -- the packet would have to be longer than its room
    have hle : (info.data.length : Int) ≤ maxDataFor msgType ack mtu (PacketKey.offset key) :=
      hw (key, info) hf (readyToRetransmit_due hf hr) hping
    have hfit : maxDataFor msgType ack mtu (PacketKey.offset key) ≤ 65535 := (hm (key, info) hf).2
    rw [hmax] at hle hfit
    have hmod := Nat.mod_le info.data.length (2 ^ 16)
    have hm16 : m % 2 ^ 16 = m := Nat.mod_eq_of_lt (by omega)
    omega

end StreamBuffer

/-- The streams of a send buffer with their cuts. -/
def SndCut (B : Nat → Set Nat) (sb : SendBuffer) : Prop := ∀ k, (sb.stream k).CutAt (B k)

/-- The cuts behind a step: the sent offsets are cuts as well. -/
def cutBy (B : Nat → Set Nat) (sb : SendBuffer) : Nat → Set Nat := fun k => insert (sb.stream k).bytesSentOffset (B k)

theorem sndCut_new (capacity : Int) : SndCut (fun _ => {0}) (.new capacity) := fun _ => StreamBuffer.cutAt_new

namespace SndCut

variable {B : Nat → Set Nat} {sb sb' : SendBuffer} {k now rto : Nat} {msgType : CryptoMsgType} {ack : Option Ack} {mtu : Int}

theorem cutBy_eq (h : SndCut B sb) : cutBy B sb = B := funext fun k => Set.insert_eq_of_mem (h k).last

theorem put (h : SndCut B sb) {s' : StreamBuffer} (hstr : ∀ j, sb'.stream j = if j = k then s' else sb.stream j)
    (hs : s'.CutAt (B k)) : SndCut B sb' := by
  intro j
  rw [hstr j]
  split_ifs with hj
  · rw [hj]
    exact hs
  · exact h j

theorem queuePing (h : SndCut B sb) (k : Nat) : SndCut B (sb.queuePing k) :=
  h.put (SendBuffer.stream_put sb k · _) ((h k).congr rfl rfl)

theorem close (h : SndCut B sb) (k : Nat) : SndCut B (sb.close k) := h.put (SendBuffer.stream_put sb k · _) (h k).close

theorem queueData (h : SndCut B sb) {d : Bytes} {n : Nat} {st : InsertStatus} (hq : sb.queueData k d = some (sb', n, st)) :
    SndCut B sb' := h.put (SendBuffer.queueData_stream hq) ((h k).congr rfl rfl)

theorem afterAck (h : SndCut B sb) (ack : Option Ack) : SndCut B (sb.afterAck ack) := by
  cases ack with
  | none => exact h
  | some a =>
    obtain ⟨st, hr, _⟩ | ⟨info, _, _, _, hstr⟩ := sb.acknowledgeRange_cases a
    · rw [SendBuffer.afterAck, hr]
      exact h
    · refine h.put hstr ((h a.streamID).keep rfl fun e he _ => ?_)
      exact ⟨e, (InsertionMap.mem_erase.mp he).2, rfl, rfl⟩

theorem readyToSend (h : SndCut B sb) (hb : (sb.stream k).bytesSentOffset < 2 ^ 48)
    (hm : StreamBuffer.MtuFits msgType ack mtu (sb.stream k).bytesSentOffset) {p : StreamBuffer.Packet}
    (hr : sb.readyToSend k msgType ack mtu now = (sb', p)) :
    SndCut (cutBy B sb') sb' ∧ ∀ d o c, p = (some d, o, c) → d ≠ [] → IsCell (cutBy B sb' k) o d.length := by
  have hstr := fun j => sb.readyToSend_stream k j msgType ack mtu now
  rw [hr] at hstr
  obtain ⟨hcut, hcell⟩ := (h k).readyToSend hb hm
  have hk : sb'.stream k = ((sb.stream k).readyToSend msgType ack mtu now).1 := by rw [(hstr k).1, if_pos rfl]
  refine ⟨fun j => ?_, fun d o c hp hne => ?_⟩
  · unfold cutBy
    by_cases hj : j = k
    · rw [hj, hk]
      exact hcut
    · rw [(hstr j).1, if_neg hj, Set.insert_eq_of_mem (h j).last]
      exact h j
  · unfold cutBy
    rw [hk]
    exact hcell d o c ((hstr k).2.symm.trans hp) hne

theorem readyToRetransmit (h : SndCut B sb) (hw : (sb.stream k).ResendsWhole ack mtu rto msgType now)
    (hm : ∀ e, (sb.stream k).dataInFlightMap.first = some e →
      StreamBuffer.MtuFits msgType ack mtu (StreamBuffer.entryStart e)) {r : Except String StreamBuffer.Packet}
    (hr : sb.readyToRetransmit k ack mtu rto msgType now = some (sb', r)) :
    SndCut B sb' ∧ ∀ d o c, r = .ok (some d, o, c) → d ≠ [] → IsCell (B k) o d.length := by
  obtain ⟨s', hs, hstr⟩ := SendBuffer.readyToRetransmit_stream hr
  obtain ⟨hcut, hcell⟩ := (h k).readyToRetransmit hw hm hs
  exact ⟨h.put hstr hcut, hcell⟩

end SndCut

end Qotp
