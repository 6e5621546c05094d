import Qotp.Buffer.SendRun
import Qotp.Conn.Congestion

namespace Qotp

open Framework

/-- Data that was handed out: the place of its first byte in the stream, the time, and the expected RTO
where it was sent again. -/
structure Transmission where
  streamID : Nat
  start : Nat
  data : Bytes
  nowNano : Nat
  rtoNano : Option Nat

namespace Transmission

/-- Byte `i` of stream `k` was among the data. -/
def Covers (t : Transmission) (k i : Nat) : Prop :=
  t.streamID = k ∧ t.start ≤ i ∧ i < t.start + t.data.length

instance (t : Transmission) (k i : Nat) : Decidable (t.Covers k i) := inferInstanceAs (Decidable (_ ∧ _ ∧ _))

/-- Each transmission follows the one before it after more than its RTO, doubled each time. -/
def Spaced (l : List Transmission) : Prop :=
  ∀ j t u, l[j]? = some t → l[j + 1]? = some u → ∃ rto, u.rtoNano = some rto ∧ t.nowNano + rto * 2 ^ j < u.nowNano

theorem spaced_nil : Spaced [] := by
  intro j t u ht
  simp at ht

theorem Spaced.concat {l : List Transmission} (h : Spaced l) {u : Transmission}
    (hlast : ∀ t, l.getLast? = some t →
      ∃ rto, u.rtoNano = some rto ∧ t.nowNano + rto * 2 ^ (l.length - 1) < u.nowNano) : Spaced (l ++ [u]) := by
  intro j t v ht hv
  by_cases hj : j + 1 < l.length
  · rw [List.getElem?_append_left (by omega)] at ht
    rw [List.getElem?_append_left hj] at hv
    exact h j t v ht hv
  · have hlen : j + 1 < (l ++ [u]).length := List.getElem?_eq_some_iff.mp hv |>.1
    rw [List.length_append, List.length_singleton] at hlen
    have hjl : j = l.length - 1 := by omega
    rw [List.getElem?_append_left (by omega)] at ht
    rw [List.getElem?_append_right (by omega), show j + 1 - l.length = 0 by omega] at hv
    obtain rfl : u = v := by simpa using hv
    subst hjl
    apply hlast
    rw [List.getLast?_eq_getElem?, ht]

end Transmission

open Transmission

theorem backoff_ok {rto i limit : Nat} (h : backoff rto i = .ok limit) : 1 ≤ i ∧ i ≤ maxRetry := by
  unfold backoff at h
  split_ifs at h
  omega

namespace StreamBuffer

/-- The entries of a stream against the accepted bytes `W` and the transmissions `H` of each byte.
`start` is the place of an entry's first byte: beyond 2^48 the key does not tell it. -/
structure Placed (W : Bytes) (H : Nat → List Transmission) (start : PacketKey → Nat) (clock : Nat) (s : StreamBuffer) :
    Prop where
  sent_le : s.bytesSentOffset ≤ W.length
  queued : s.queuedData = W.drop s.bytesSentOffset
  short : ∀ e ∈ s.dataInFlightMap.entries, e.2.data.length ≤ PacketKey.length e.1
  content : ∀ e ∈ s.dataInFlightMap.entries, IsAt W (start e.1) e.2.data
  below : ∀ e ∈ s.dataInFlightMap.entries, start e.1 + e.2.data.length ≤ s.bytesSentOffset
  disjoint : ∀ e ∈ s.dataInFlightMap.entries, ∀ f ∈ s.dataInFlightMap.entries, e.1 ≠ f.1 →
    e.2.data ≠ [] → f.2.data ≠ [] →
    start e.1 + e.2.data.length ≤ start f.1 ∨ start f.1 + f.2.data.length ≤ start e.1
  counted : ∀ e ∈ s.dataInFlightMap.entries, ∀ i, start e.1 ≤ i → i < start e.1 + e.2.data.length →
    (H i).length = e.2.sentNr ∧ (H i).getLast?.map (·.nowNano) = some e.2.sentTimeNano
  past : ∀ e ∈ s.dataInFlightMap.entries, e.2.sentTimeNano ≤ clock
  fresh : ∀ i, s.bytesSentOffset ≤ i → H i = []
  bounded : ∀ i, (H i).length ≤ maxRetry + 1
  spaced : ∀ i, Spaced (H i)

variable {W : Bytes} {H : Nat → List Transmission} {start : PacketKey → Nat} {clock : Nat} {s s' : StreamBuffer}

theorem placed_new (start : PacketKey → Nat) (clock : Nat) : Placed [] (fun _ => []) start clock {} := by
  constructor <;> simp [spaced_nil]

namespace Placed

theorem clock_mono (h : Placed W H start clock s) {now : Nat} (hle : clock ≤ now) : Placed W H start now s :=
  { h with past := fun e he => (h.past e he).trans hle }

/-- Entries may leave; the ping request and the close mark play no part. -/
theorem sub (h : Placed W H start clock s) (hm : ∀ e ∈ s'.dataInFlightMap.entries, e ∈ s.dataInFlightMap.entries)
    (hq : s'.queuedData = s.queuedData) (hb : s'.bytesSentOffset = s.bytesSentOffset) : Placed W H start clock s' := by
  refine ⟨hb ▸ h.sent_le, hb ▸ hq ▸ h.queued, fun e he => h.short e (hm e he), fun e he => h.content e (hm e he),
    fun e he => hb ▸ h.below e (hm e he), fun e he f hf => h.disjoint e (hm e he) f (hm f hf),
    fun e he => h.counted e (hm e he), fun e he => h.past e (hm e he), hb ▸ h.fresh, h.bounded, h.spaced⟩

theorem queue (h : Placed W H start clock s) (chunk : Bytes) : Placed (W ++ chunk) H start clock (s.queue chunk) := by
  refine { h with sent_le := ?_, queued := ?_, content := fun e he => (h.content e he).append }
  · rw [List.length_append]
    exact h.sent_le.trans (Nat.le_add_right _ _)
  · have hd : (W ++ chunk).drop s.bytesSentOffset = W.drop s.bytesSentOffset ++ chunk :=
      List.drop_append_of_le_length h.sent_le
    rw [StreamBuffer.queue, h.queued]
    exact hd.symm

theorem close (h : Placed W H start clock s) : Placed W H start clock s.close := by
  unfold StreamBuffer.close
  cases s.closeAtOffset with
  | some c => exact h
  | none => exact h.sub (fun _ he => he) rfl rfl

/-- The sent offset moves over `n` queued bytes. -/
theorem advance (h : Placed W H start clock s) {n : Nat} (hn : n ≤ s.queuedData.length) :
    Placed W H start clock { s with
      queuedData := s.queuedData.drop n
      bytesSentOffset := s.bytesSentOffset + n } := by
  have hqlen : s.queuedData.length = W.length - s.bytesSentOffset := by rw [h.queued, List.length_drop]
  have hle := h.sent_le
  refine { h with
    sent_le := ?_
    queued := ?_
    below := fun e he => (h.below e he).trans (Nat.le_add_right _ _)
    fresh := fun i hi => h.fresh i ((Nat.le_add_right _ _).trans hi) }
  · dsimp only
    omega
  · dsimp only
    rw [h.queued, List.drop_drop]

/-- An entry of bytes `[p, p+l)` is stored; their transmissions become `H'`, those of other bytes stay. -/
theorem put (h : Placed W H start clock s) (key : PacketKey) (info : SendInfo) {p : Nat} {H' : Nat → List Transmission}
    (hshort : info.data.length ≤ PacketKey.length key) (hat : IsAt W p info.data)
    (hend : p + info.data.length ≤ s.bytesSentOffset) (hpast : info.sentTimeNano ≤ clock)
    (hdis : info.data ≠ [] → ∀ e ∈ s.dataInFlightMap.entries, e.1 ≠ key → e.2.data ≠ [] →
      start e.1 + e.2.data.length ≤ p ∨ p + info.data.length ≤ start e.1)
    (hsame : ∀ i, ¬ (p ≤ i ∧ i < p + info.data.length) → H' i = H i)
    (hnew : ∀ i, p ≤ i → i < p + info.data.length → (H' i).length = info.sentNr ∧
      (H' i).getLast?.map (·.nowNano) = some info.sentTimeNano ∧ (H' i).length ≤ maxRetry + 1 ∧ Spaced (H' i)) :
    Placed W H' (Function.update start key p) clock { s with dataInFlightMap := s.dataInFlightMap.put key info } := by
  have hself : Function.update start key p key = p := Function.update_self _ _ _
  have hother : ∀ e : PacketKey × SendInfo, e.1 ≠ key → Function.update start key p e.1 = start e.1 :=
    fun e he => Function.update_of_ne he _ _
  have hcases : ∀ i, H' i = H i ∨ (p ≤ i ∧ i < p + info.data.length) :=
    fun i => (em (p ≤ i ∧ i < p + info.data.length)).symm.imp_left (hsame i)
  refine ⟨h.sent_le, h.queued, ?_, ?_, ?_, ?_, ?_, ?_, fun i hi => ?_, fun i => ?_, fun i => ?_⟩
  · exact InsertionMap.forall_put hshort fun e he _ => h.short e he
  · refine InsertionMap.forall_put (by rwa [hself]) fun e he hek => ?_
    rw [hother e hek]
    exact h.content e he
  · refine InsertionMap.forall_put (by rwa [hself]) fun e he hek => ?_
    rw [hother e hek]
    exact h.below e he
  · refine InsertionMap.forall_pair_put (fun e f hsep h1 h2 => (hsep h2 h1).symm) (fun e he hek h1 h2 => ?_)
      fun e he hek f hf hfk => ?_
    · rw [hself, hother e hek]
      exact hdis h2 e he hek h1
    · rw [hother e hek, hother f hfk]
      exact h.disjoint e he f hf
  · refine InsertionMap.forall_put (fun i hi hi' => ?_) fun e he hek i hi hi' => ?_
    · rw [hself] at hi hi'
      obtain ⟨hlen, hlast, _⟩ := hnew i hi hi'
      exact ⟨hlen, hlast⟩
    · rw [hother e hek] at hi hi'
      have hout : ¬ (p ≤ i ∧ i < p + info.data.length) := by
        intro hin
        have := hdis (List.ne_nil_of_length_pos (by omega)) e he hek (List.ne_nil_of_length_pos (by omega))
        omega
      rw [hsame i hout]
      exact h.counted e he i hi hi'
  · exact InsertionMap.forall_put hpast fun e he _ => h.past e he
  · have hi : s.bytesSentOffset ≤ i := hi
    rw [hsame i (by omega)]
    exact h.fresh i hi
  · obtain hold | ⟨hi, hi'⟩ := hcases i
    · rw [hold]
      exact h.bounded i
    · exact (hnew i hi hi').2.2.1
  · obtain hold | ⟨hi, hi'⟩ := hcases i
    · rw [hold]
      exact h.spaced i
    · exact (hnew i hi hi').2.2.2

end Placed

/-- The transmissions of each byte behind one more. -/
def extend (H : Nat → List Transmission) (t : Transmission) (i : Nat) : List Transmission :=
  if t.start ≤ i ∧ i < t.start + t.data.length then H i ++ [t] else H i

theorem extend_nil (H : Nat → List Transmission) {t : Transmission} (ht : t.data = []) : extend H t = H := by
  funext i
  rw [extend, if_neg]
  rw [ht, List.length_nil]
  omega

namespace Placed

variable {key : PacketKey} {info : SendInfo} {now rto m : Nat}

/-- An entry goes out: its bytes have one transmission more. -/
theorem handOut (h : Placed W H start clock s) (key : PacketKey) (info : SendInfo) (t : Transmission)
    (ht : t.data = info.data) (htime : info.sentTimeNano = t.nowNano)
    (hshort : info.data.length ≤ PacketKey.length key) (hat : IsAt W t.start info.data)
    (hend : t.start + info.data.length ≤ s.bytesSentOffset) (hpast : t.nowNano ≤ clock)
    (hdis : info.data ≠ [] → ∀ e ∈ s.dataInFlightMap.entries, e.1 ≠ key → e.2.data ≠ [] →
      start e.1 + e.2.data.length ≤ t.start ∨ t.start + info.data.length ≤ start e.1)
    (hcount : ∀ i, t.start ≤ i → i < t.start + info.data.length → (H i).length + 1 = info.sentNr ∧
      ∀ u, (H i).getLast? = some u →
        ∃ rto, t.rtoNano = some rto ∧ u.nowNano + rto * 2 ^ ((H i).length - 1) < t.nowNano)
    (hnr : info.sentNr ≤ maxRetry + 1) :
    Placed W (extend H t) (Function.update start key t.start) clock
      { s with dataInFlightMap := s.dataInFlightMap.put key info } := by
  refine h.put key info hshort hat hend (htime ▸ hpast) hdis (fun i hi => ?_) (fun i h1 h2 => ?_)
  · rw [extend, ht, if_neg hi]
  · obtain ⟨hlen, hlast⟩ := hcount i h1 h2
    rw [extend, ht, if_pos ⟨h1, h2⟩, List.length_append, List.length_singleton, hlen]
    refine ⟨rfl, ?_, hnr, (h.spaced i).concat hlast⟩
    rw [List.getLast?_concat, Option.map_some, htime]

theorem afterEmpty (h : Placed W H start clock s) (hclock : clock ≤ now) (isPing : Bool) :
    Placed W H (Function.update start (createPacketKey s.bytesSentOffset 0) s.bytesSentOffset) now
      (s.afterEmpty now isPing) := by
  have hput : Placed W H (Function.update start (createPacketKey s.bytesSentOffset 0) s.bytesSentOffset) now { s with
      dataInFlightMap := s.dataInFlightMap.put (createPacketKey s.bytesSentOffset 0) (newSendInfo [] now isPing) } := by
    apply (h.clock_mono hclock).put
    · exact Nat.zero_le _
    · exact isAt_nil W _
    · exact le_rfl
    · exact le_rfl
    · exact fun hne => absurd rfl hne
    · exact fun _ _ => rfl
    · exact fun i h1 h2 => absurd h2 (not_lt.mpr h1)
  exact hput.sub (fun e he => he) rfl rfl

/-- A first transmission of the next `n` queued bytes. -/
theorem afterData (h : Placed W H start clock s) {n : Nat} (hn : n ≤ s.queuedData.length) (hn16 : n < 2 ^ 16)
    (hclock : clock ≤ now) (k : Nat) :
    Placed W (extend H ⟨k, s.bytesSentOffset, s.queuedData.take n, now, none⟩)
      (Function.update start (createPacketKey s.bytesSentOffset (n % 2 ^ 16)) s.bytesSentOffset) now
      (s.afterData n now) := by
  have hlen : (s.queuedData.take n).length = n := List.length_take_of_le hn
  have hadvance := (h.clock_mono hclock).advance hn
  have hgoal := hadvance.handOut (createPacketKey s.bytesSentOffset (n % 2 ^ 16))
    (newSendInfo (s.queuedData.take n) now false) ⟨k, s.bytesSentOffset, s.queuedData.take n, now, none⟩ rfl rfl
    ?_ ?_ ?_ le_rfl ?_ ?_ (show 1 ≤ maxRetry + 1 by decide)
  · exact hgoal
  · rw [createPacketKey_length _ _ (Nat.mod_lt _ (by decide)), Nat.mod_eq_of_lt hn16]
    exact hlen.le
  · dsimp only [newSendInfo]
    rw [h.queued]
    exact IsAt.of_slice n
  · exact Nat.add_le_add_left hlen.le _
  · -- every old entry ends where the new one starts, or before
    intro _ e he _ _
    exact .inl (h.below e he)
  · intro i hi _
    rw [h.fresh i hi]
    exact ⟨rfl, fun u hu => by cases hu⟩

/-- The timer of an entry has expired: each of its bytes may go out again. -/
theorem again (h : Placed W H start clock s) (he : (key, info) ∈ s.dataInFlightMap.entries)
    (hexp : info.sentTimeNano + rto * 2 ^ (info.sentNr - 1) < now) {i : Nat} (h1 : start key ≤ i)
    (h2 : i < start key + info.data.length) :
    (H i).length + 1 = info.sentNr + 1 ∧ ∀ u, (H i).getLast? = some u →
      ∃ r, some rto = some r ∧ u.nowNano + r * 2 ^ ((H i).length - 1) < now := by
  obtain ⟨hlen, hlast⟩ := h.counted (key, info) he i h1 h2
  refine ⟨congrArg (· + 1) hlen, fun u hu => ⟨rto, rfl, ?_⟩⟩
  rw [hu, Option.map_some, Option.some_inj] at hlast
  rw [hlen, hlast]
  exact hexp

theorem resend (h : Placed W H start clock s) (he : (key, info) ∈ s.dataInFlightMap.entries)
    (hexp : info.sentTimeNano + rto * 2 ^ (info.sentNr - 1) < now) (hnr : info.sentNr ≤ maxRetry) (hclock : clock ≤ now)
    (k : Nat) :
    Placed W (extend H ⟨k, start key, info.data, now, some rto⟩) start now
      { s with dataInFlightMap := s.dataInFlightMap.put key (StreamBuffer.resend info now) } := by
  have hgoal := (h.clock_mono hclock).handOut key (StreamBuffer.resend info now)
    ⟨k, start key, info.data, now, some rto⟩ rfl rfl (h.short (key, info) he) (h.content (key, info) he)
    (h.below (key, info) he) le_rfl
    (fun hne e hmem hk hne' => h.disjoint e hmem (key, info) he hk hne' hne)
    (fun i h1 h2 => h.again he hexp h1 h2) (Nat.succ_le_succ hnr)
  rwa [Function.update_eq_self] at hgoal

/-- An entry gets a new key, unless another entry has it. -/
theorem replace (h : Placed W H start clock s) (he : (key, info) ∈ s.dataInFlightMap.entries) {new : PacketKey}
    (hshort : info.data.length ≤ PacketKey.length new) :
    Placed W H (if new ∈ s.dataInFlightMap.keys then start else Function.update start new (start key)) clock
      { s with dataInFlightMap := (s.dataInFlightMap.replace key new info).1 } := by
  have hkey : key ∈ s.dataInFlightMap.keys := List.mem_map_of_mem he
  by_cases hnew : new ∈ s.dataInFlightMap.keys
  · rw [if_pos hnew]
    refine h.sub (fun e hmem => ?_) rfl rfl
    simp only [InsertionMap.replace, if_pos hkey, dif_pos hnew] at hmem
    split_ifs at hmem with hsame
    · obtain rfl | ⟨_, hmem⟩ := InsertionMap.mem_put.mp hmem
      · exact he
      · exact hmem
    · exact hmem
  · rw [if_neg hnew]
    have herase : Placed W H start clock { s with dataInFlightMap := s.dataInFlightMap.erase key } :=
      h.sub (fun e hmem => (InsertionMap.mem_erase.mp hmem).2) rfl rfl
    have hput : Placed W H (Function.update start new (start key)) clock { s with
        dataInFlightMap := (s.dataInFlightMap.erase key).put new info } := by
      apply herase.put
      · exact hshort
      · exact h.content (key, info) he
      · exact h.below (key, info) he
      · exact h.past (key, info) he
      · intro hne e hmem _ hne'
        obtain ⟨hek, hmem⟩ := InsertionMap.mem_erase.mp hmem
        exact h.disjoint e hmem (key, info) he hek hne' hne
      · exact fun _ _ => rfl
      · intro i h1 h2
        obtain ⟨hlen, hlast⟩ := h.counted (key, info) he i h1 h2
        exact ⟨hlen, hlast, h.bounded i, h.spaced i⟩
    refine hput.sub (fun e hmem => ?_) rfl rfl
    obtain rfl | ⟨hne, hmem⟩ := (InsertionMap.mem_replace he (.inr hnew)).mp hmem
    · exact InsertionMap.mem_put.mpr (.inl rfl)
    · refine InsertionMap.mem_put.mpr (.inr ⟨fun heq => hnew ?_, InsertionMap.mem_erase.mpr ⟨hne, hmem⟩⟩)
      exact heq ▸ List.mem_map_of_mem hmem

end Placed

/-- The places behind a cut of the entry at `m` bytes: the left part stays where the entry was, the
right part starts `m` bytes further, under its own key or, where that is taken, under the old one. -/
def startAfterSplit (s : StreamBuffer) (start : PacketKey → Nat) (key : PacketKey) (info : SendInfo) (m : Nat) :
    PacketKey → Nat :=
  let left := createPacketKey key.offset (m % 2 ^ 16)
  let right := createPacketKey (key.offset + m) ((info.data.drop m).length % 2 ^ 16)
  let placed := Function.update (Function.update start left (start key)) key (start key + m)
  if right = left ∨ right ∈ s.dataInFlightMap.keys then placed else Function.update placed right (start key + m)

section Split

variable {key : PacketKey} {info : SendInfo} {now rto m : Nat}

theorem Placed.apart (h : Placed W H start clock s) (he : (key, info) ∈ s.dataInFlightMap.entries)
    (hm : m < info.data.length) : ∀ e ∈ s.dataInFlightMap.entries, e.1 ≠ key → e.2.data ≠ [] →
      start e.1 + e.2.data.length ≤ start key ∨ start key + info.data.length ≤ start e.1 := by
  intro e hmem hek hne
  exact h.disjoint e hmem (key, info) he hek hne (List.ne_nil_of_length_pos (Nat.zero_lt_of_lt hm))

/-- The right part keeps its count and time. -/
theorem Placed.keepRight (h : Placed W H start clock s) (he : (key, info) ∈ s.dataInFlightMap.entries)
    (hm : m < info.data.length) :
    Placed W H (Function.update start key (start key + m)) clock { s with
      dataInFlightMap := s.dataInFlightMap.put key (rightPart info m) } := by
  have hshort : info.data.length ≤ PacketKey.length key := h.short (key, info) he
  have hend : start key + info.data.length ≤ s.bytesSentOffset := h.below (key, info) he
  have hlen : (rightPart info m).data.length = info.data.length - m := List.length_drop
  apply h.put
  · omega
  · exact (h.content (key, info) he).drop
  · omega
  · exact h.past (key, info) he
  · intro _ e hmem hek hne
    have := h.apart he hm e hmem hek hne
    omega
  · exact fun _ _ => rfl
  · intro i h1 h2
    obtain ⟨hlen, hlast⟩ := h.counted (key, info) he i (show start key ≤ i by omega) (by dsimp only; omega)
    exact ⟨hlen, hlast, h.bounded i, h.spaced i⟩

/-- The left part goes out. -/
theorem Placed.sendLeft (h : Placed W H start clock s) (he : (key, info) ∈ s.dataInFlightMap.entries)
    (hm : m < info.data.length) {left : PacketKey} (hleft : PacketKey.length left = m)
    (hexp : info.sentTimeNano + rto * 2 ^ (info.sentNr - 1) < now) (hnr : info.sentNr ≤ maxRetry) (hclock : clock ≤ now)
    (k : Nat) :
    Placed W (extend H ⟨k, start key, info.data.take m, now, some rto⟩)
      (Function.update (Function.update start key (start key + m)) left (start key)) now { s with
      dataInFlightMap := (s.dataInFlightMap.put key (rightPart info m)).put left (leftPart info m now) } := by
  have hend : start key + info.data.length ≤ s.bytesSentOffset := h.below (key, info) he
  have hlen : (leftPart info m now).data.length = m := List.length_take_of_le hm.le
  have hright := (h.keepRight he hm).clock_mono hclock
  refine hright.handOut left (leftPart info m now) ⟨k, start key, info.data.take m, now, some rto⟩ rfl rfl
    (hlen.trans hleft.symm).le ((h.content (key, info) he).take m) ?_ le_rfl (fun _ e hmem _ hne => ?_) (fun i h1 h2 => ?_)
    (Nat.succ_le_succ hnr)
  · dsimp only
    omega
  · obtain rfl | ⟨hek, hmem⟩ := InsertionMap.mem_put.mp hmem
    · rw [Function.update_self]
      exact .inr (Nat.add_le_add_left hlen.le _)
    · have := h.apart he hm e hmem hek hne
      rw [Function.update_of_ne hek]
      dsimp only
      omega
  · dsimp only at h1 h2
    exact h.again he hexp h1 (by omega)

theorem Placed.split (h : Placed W H start clock s) (he : (key, info) ∈ s.dataInFlightMap.entries)
    (hm : m < info.data.length) (hexp : info.sentTimeNano + rto * 2 ^ (info.sentNr - 1) < now)
    (hnr : info.sentNr ≤ maxRetry) (hclock : clock ≤ now) (k : Nat) :
    Placed W (extend H ⟨k, start key, info.data.take m, now, some rto⟩) (s.startAfterSplit start key info m) now
      (s.afterSplit key info m now) := by
  have hshort : info.data.length ≤ PacketKey.length key := h.short (key, info) he
  have hlen16 := packetKey_length_lt key
  have hleftKey : PacketKey.length (createPacketKey (PacketKey.offset key) (m % 2 ^ 16)) = m := by
    rw [createPacketKey_length _ _ (Nat.mod_lt _ (by decide)), Nat.mod_eq_of_lt (by omega)]
  have hne : createPacketKey (PacketKey.offset key) (m % 2 ^ 16) ≠ key := by
    intro heq
    rw [heq] at hleftKey
    omega
  -- the code stores the left part first
  have hparts : Placed W (extend H ⟨k, start key, info.data.take m, now, some rto⟩)
      (Function.update (Function.update start (createPacketKey (PacketKey.offset key) (m % 2 ^ 16)) (start key)) key
        (start key + m)) now { s with
      dataInFlightMap := (s.dataInFlightMap.put (createPacketKey (PacketKey.offset key) (m % 2 ^ 16))
        (leftPart info m now)).put key (rightPart info m) } := by
    rw [Function.update_comm hne]
    refine (h.sendLeft he hm hleftKey hexp hnr hclock k).sub (fun e hmem => ?_) rfl rfl
    obtain rfl | ⟨hek, hmem⟩ := InsertionMap.mem_put.mp hmem
    · exact InsertionMap.mem_put.mpr (.inr ⟨hne.symm, InsertionMap.mem_put.mpr (.inl rfl)⟩)
    · obtain rfl | ⟨hel, hmem⟩ := InsertionMap.mem_put.mp hmem
      · exact InsertionMap.mem_put.mpr (.inl rfl)
      · exact InsertionMap.mem_put.mpr (.inr ⟨hel, InsertionMap.mem_put.mpr (.inr ⟨hek, hmem⟩)⟩)
  have hrightKey : (rightPart info m).data.length ≤ PacketKey.length
      (createPacketKey (PacketKey.offset key + m) ((info.data.drop m).length % 2 ^ 16)) := by
    rw [createPacketKey_length _ _ (Nat.mod_lt _ (by decide)), rightPart, List.length_drop,
      Nat.mod_eq_of_lt (by omega)]
  have hgoal := hparts.replace (InsertionMap.mem_put.mpr (.inl rfl)) hrightKey
  have hkeys : ∀ j, j ∈ ((s.dataInFlightMap.put (createPacketKey (PacketKey.offset key) (m % 2 ^ 16))
      (leftPart info m now)).put key (rightPart info m)).keys ↔
      j = createPacketKey (PacketKey.offset key) (m % 2 ^ 16) ∨ j ∈ s.dataInFlightMap.keys := by
    intro j
    rw [InsertionMap.mem_keys_put, InsertionMap.mem_keys_put, or_iff_right_of_imp]
    rintro rfl
    exact .inr (List.mem_map_of_mem he)
  simp only [hkeys, Function.update_self] at hgoal
  exact hgoal

end Split

/-- What `readyToSend` transmits, and where the new entry stands. -/
def sentAs (s : StreamBuffer) (k now : Nat) (d : Option Bytes) : List Transmission :=
  d.toList.map fun d => ⟨k, s.bytesSentOffset, d, now, none⟩

def sentStart (s : StreamBuffer) (start : PacketKey → Nat) (d : Option Bytes) : PacketKey → Nat :=
  match d with
  | none => start
  | some d => Function.update start (createPacketKey s.bytesSentOffset (d.length % 2 ^ 16)) s.bytesSentOffset

/-- What `readyToRetransmit` transmits is the beginning of the first entry; less than all of it is a cut. -/
def resentAs (s : StreamBuffer) (start : PacketKey → Nat) (k now rto : Nat) (d : Option Bytes) : List Transmission :=
  match s.dataInFlightMap.first, d with
  | some (key, _), some d => [⟨k, start key, d, now, some rto⟩]
  | _, _ => []

def resentStart (s : StreamBuffer) (start : PacketKey → Nat) (d : Option Bytes) : PacketKey → Nat :=
  match s.dataInFlightMap.first, d with
  | some (key, info), some d => if d.length < info.data.length then s.startAfterSplit start key info d.length else start
  | _, _ => start

/-- All bytes of the transmissions are bytes of stream `k` at their places. -/
def Genuinely (W : Bytes) (k : Nat) (ts : List Transmission) : Prop :=
  ∀ t ∈ ts, t.streamID = k ∧ IsAt W t.start t.data

theorem genuinely_nil (W : Bytes) (k : Nat) : Genuinely W k [] := fun _ ht => by cases ht

theorem genuinely_singleton {t : Transmission} (h : IsAt W t.start t.data) : Genuinely W t.streamID [t] := by
  intro u hu
  obtain rfl := List.mem_singleton.mp hu
  exact ⟨rfl, h⟩

variable {msgType : CryptoMsgType} {ack : Option Ack} {mtu : Int} {now rto : Nat}

theorem Placed.readyToSend (h : Placed W H start clock s) (hm : MtuFits msgType ack mtu s.bytesSentOffset)
    (hclock : clock ≤ now) (k : Nat) :
    Placed W ((s.sentAs k now (s.readyToSend msgType ack mtu now).2.1).foldl extend H)
      (s.sentStart start (s.readyToSend msgType ack mtu now).2.1) now (s.readyToSend msgType ack mtu now).1 ∧
    Genuinely W k (s.sentAs k now (s.readyToSend msgType ack mtu now).2.1) := by
  have hempty : ∀ isPing, Placed W ((s.sentAs k now (some [])).foldl extend H) (s.sentStart start (some [])) now
      (s.afterEmpty now isPing) := by
    intro isPing
    change Placed W (extend H ⟨k, s.bytesSentOffset, [], now, none⟩) _ now _
    rw [extend_nil H rfl]
    exact h.afterEmpty hclock isPing
  have hnil : Genuinely W k (s.sentAs k now (some [])) := genuinely_singleton (isAt_nil W s.bytesSentOffset)
  obtain ⟨_, _, _, hr⟩ | ⟨_, hr⟩ | ⟨_, _, _, hr⟩ | ⟨_, _, hr⟩ := s.readyToSend_cases msgType ack mtu now
  · rw [hr]
    exact ⟨h.clock_mono hclock, genuinely_nil W k⟩
  · rw [hr]
    exact ⟨hempty true, hnil⟩
  · rw [hr]
    exact ⟨hempty false, hnil⟩
  · obtain ⟨hn, hn16⟩ := sendLength_le hm
    rw [hr]
    refine ⟨?_, ?_⟩
    · have hplace : s.sentStart start (some (s.queuedData.take (s.sendLength msgType ack mtu))) =
          Function.update start (createPacketKey s.bytesSentOffset (s.sendLength msgType ack mtu % 2 ^ 16))
            s.bytesSentOffset := by
        unfold sentStart
        dsimp only
        rw [List.length_take_of_le hn]
      dsimp only
      rw [hplace]
      exact h.afterData hn hn16 hclock k
    · have hat : IsAt W s.bytesSentOffset (s.queuedData.take (s.sendLength msgType ack mtu)) := by
        rw [h.queued]
        exact IsAt.of_slice _
      exact genuinely_singleton hat

theorem Placed.readyToRetransmit (h : Placed W H start clock s)
    (hm : ∀ e, s.dataInFlightMap.first = some e → MtuFits msgType ack mtu (entryStart e)) (hclock : clock ≤ now)
    (hnow : now < 2 ^ 64) (hrto : rto ≤ maxRTO) (k : Nat) {d : Option Bytes} {o : Nat} {isClose : Bool}
    (hr : s.readyToRetransmit ack mtu rto msgType now = some (s', .ok (d, o, isClose))) :
    Placed W ((s.resentAs start k now rto d).foldl extend H) (s.resentStart start d) now s' ∧
      Genuinely W k (s.resentAs start k now rto d) := by
  cases d with
  | none =>
    have hcases : s' = s ∨ ∃ key, s' = { s with dataInFlightMap := s.dataInFlightMap.erase key } := by
      obtain ⟨hs, _⟩ | ⟨key, info, _, ⟨_, hs, _⟩ | ⟨_, _, _, hres⟩ | ⟨m, _, _, _, _, _, hres⟩⟩ :=
        readyToRetransmit_cases hr
      · exact .inl hs
      · exact .inr ⟨key, hs⟩
      · cases hres
      · cases hres
    have hnone : s.resentAs start k now rto none = [] ∧ s.resentStart start none = start := by
      unfold resentAs resentStart
      cases s.dataInFlightMap.first <;> exact ⟨rfl, rfl⟩
    rw [hnone.1, hnone.2]
    refine ⟨?_, genuinely_nil W k⟩
    obtain rfl | ⟨key, rfl⟩ := hcases
    · exact h.clock_mono hclock
    · exact (h.clock_mono hclock).sub (fun e he => (InsertionMap.mem_erase.mp he).2) rfl rfl
  | some d =>
    obtain ⟨key, info, limit, hf, hback, hexp⟩ := readyToRetransmit_expired hr
    have he := InsertionMap.first_mem hf
    obtain ⟨hnr1, hnr⟩ := backoff_ok hback
    rw [backoff_eq hrto hnr1 hnr] at hback
    cases hback
    have hpast : info.sentTimeNano ≤ now := (h.past (key, info) he).trans hclock
    rw [sub64_of_le hpast hnow] at hexp
    have hlater : info.sentTimeNano + rto * 2 ^ (info.sentNr - 1) < now := by omega
    have hat : IsAt W (start key) info.data := h.content (key, info) he
    have hlen : info.data.length < 2 ^ 16 := (h.short (key, info) he).trans_lt (packetKey_length_lt key)
    unfold resentAs resentStart
    rw [hf]
    dsimp only
    obtain ⟨_, hres⟩ | ⟨key', info', hf', hcase⟩ := readyToRetransmit_cases hr
    · obtain hres | ⟨msg, hres⟩ := hres <;> cases hres
    cases hf.symm.trans hf'
    obtain ⟨_, _, hres⟩ | ⟨_, _, rfl, hres⟩ | ⟨m, _, hmax, hlt, hle, rfl, hres⟩ := hcase
    · cases hres
    · cases hres
      rw [if_neg (lt_irrefl _)]
      exact ⟨h.resend he hlater hnr hclock k, genuinely_singleton hat⟩
    · cases hres
      have hmlt : m < info.data.length := by
        have hfit := (hm (key, info) hf).2
        unfold entryStart at hfit
        rw [hmax] at hfit
        omega
      rw [List.length_take_of_le hle, if_pos hmlt]
      exact ⟨h.split he hmlt hlater hnr hclock k, genuinely_singleton (hat.take m)⟩

/-- The key of an entry tells its place. -/
def KeysTellPlace (start : PacketKey → Nat) (s : StreamBuffer) : Prop :=
  ∀ e ∈ s.dataInFlightMap.entries, e.2.data ≠ [] → start e.1 = PacketKey.offset e.1

namespace KeysTellPlace

theorem sub (h : KeysTellPlace start s) (hm : ∀ e ∈ s'.dataInFlightMap.entries, e ∈ s.dataInFlightMap.entries) :
    KeysTellPlace start s' := fun e he => h e (hm e he)

theorem put (h : KeysTellPlace start s) {key : PacketKey} {p : Nat} (hp : p = PacketKey.offset key) (info : SendInfo) :
    KeysTellPlace (Function.update start key p) { s with dataInFlightMap := s.dataInFlightMap.put key info } := by
  refine InsertionMap.forall_put (fun _ => ?_) fun e he hek hne => ?_
  · rw [Function.update_self]
    exact hp
  · rw [Function.update_of_ne hek]
    exact h e he hne

theorem close (h : KeysTellPlace start s) : KeysTellPlace start s.close := by
  unfold StreamBuffer.close
  cases s.closeAtOffset <;> exact h

/-- Below 2^48 the key takes the whole offset, and the packet carries it. -/
theorem readyToSend (h : KeysTellPlace start s) (hb : s.bytesSentOffset < 2 ^ 48)
    (hm : MtuFits msgType ack mtu s.bytesSentOffset) (now : Nat) :
    KeysTellPlace (s.sentStart start (s.readyToSend msgType ack mtu now).2.1) (s.readyToSend msgType ack mtu now).1 ∧
    ∀ d, (s.readyToSend msgType ack mtu now).2.1 = some d → d ≠ [] →
      (s.readyToSend msgType ack mtu now).2.2.1 = s.bytesSentOffset := by
  have hoff : ∀ n, s.bytesSentOffset = PacketKey.offset (createPacketKey s.bytesSentOffset (n % 2 ^ 16)) := by
    intro n
    rw [createPacketKey_offset _ _ (Nat.mod_lt _ (by decide)), Nat.mod_eq_of_lt hb]
  obtain ⟨_, _, _, hr⟩ | ⟨_, hr⟩ | ⟨_, _, _, hr⟩ | ⟨_, _, hr⟩ := s.readyToSend_cases msgType ack mtu now
  · rw [hr]
    exact ⟨h, fun d hd => by cases hd⟩
  · rw [hr]
    refine ⟨h.put (hoff 0) _, fun d hd hne => absurd ?_ hne⟩
    cases hd
    rfl
  · rw [hr]
    refine ⟨h.put (hoff 0) _, fun d hd hne => absurd ?_ hne⟩
    cases hd
    rfl
  · rw [hr]
    refine ⟨?_, fun d hd _ => (hoff _).symm⟩
    dsimp only [sentStart]
    rw [List.length_take_of_le (sendLength_le hm).1]
    exact h.put (hoff _) _

theorem split {A : Nat → Prop} {key : PacketKey} {info : SendInfo} {m : Nat} (h : KeysTellPlace start s)
    (hc : Conserves W A s) (hs : SplitAt s key info m) :
    KeysTellPlace (s.startAfterSplit start key info m) (s.afterSplit key info m now) := by
  have hlt := hs.m_lt
  have hlen := hs.len_lt
  have hkey : start key = PacketKey.offset key := h (key, info) hs.mem (List.ne_nil_of_length_pos (by dsimp only; omega))
  have hleft : createPacketKey (PacketKey.offset key) (m % 2 ^ 16) = leftKey key m := by
    rw [Nat.mod_eq_of_lt (by omega), leftKey]
  have hright : createPacketKey (PacketKey.offset key + m) ((info.data.drop m).length % 2 ^ 16) =
      rightKey key info m := by
    rw [List.length_drop, Nat.mod_eq_of_lt (by omega), rightKey]
  have hne := hs.leftKey_ne (hc.keyed (key, info) hs.mem)
  have hfree : key = rightKey key info m ∨ ¬ (rightKey key info m = leftKey key m ∨
      rightKey key info m ∈ s.dataInFlightMap.keys) := by
    refine (hs.rightKey_free hc now).imp_right fun hno hmem => hno ?_
    rw [InsertionMap.mem_keys_put, InsertionMap.mem_keys_put]
    exact .inr hmem
  unfold startAfterSplit
  rw [hleft, hright]
  dsimp only
  intro e he hdata
  obtain rfl | rfl | ⟨hek, hel, he⟩ := (hs.mem_afterSplit hc).mp he
  · rw [hs.rightKey_offset, ← hkey]
    split_ifs with htaken
    · rw [← hfree.resolve_right fun hno => hno htaken, Function.update_self]
    · rw [Function.update_self]
  · rw [hs.leftKey_offset, ← hkey]
    split_ifs with htaken
    · rw [Function.update_of_ne hne, Function.update_self]
    · rw [Function.update_of_ne (fun heq => htaken (.inl heq.symm)), Function.update_of_ne hne, Function.update_self]
  · split_ifs with htaken
    · rw [Function.update_of_ne hek, Function.update_of_ne hel, h e he hdata]
    · have her : e.1 ≠ rightKey key info m := fun heq => htaken (.inr (heq ▸ List.mem_map_of_mem he))
      rw [Function.update_of_ne her, Function.update_of_ne hek, Function.update_of_ne hel, h e he hdata]

theorem readyToRetransmit {A : Nat → Prop} (h : KeysTellPlace start s) (hc : Conserves W A s)
    (hb : s.bytesSentOffset < 2 ^ 48)
    (hm : ∀ e, s.dataInFlightMap.first = some e → MtuFits msgType ack mtu (entryStart e)) {d : Option Bytes} {o : Nat}
    {isClose : Bool} (hr : s.readyToRetransmit ack mtu rto msgType now = some (s', .ok (d, o, isClose))) :
    KeysTellPlace (s.resentStart start d) s' ∧
    ∀ key info x, s.dataInFlightMap.first = some (key, info) → d = some x → x ≠ [] → o = start key := by
  have hnone : s.resentStart start none = start := by
    unfold resentStart
    cases s.dataInFlightMap.first <;> rfl
  obtain ⟨rfl, hres⟩ | ⟨key, info, hf, hcase⟩ := readyToRetransmit_cases hr
  · obtain hres | ⟨msg, hres⟩ := hres
    · cases hres
      rw [hnone]
      exact ⟨h, fun key info x _ hx => by cases hx⟩
    · cases hres
  have he := InsertionMap.first_mem hf
  have hplace : info.data ≠ [] → PacketKey.offset key = start key := fun hne => (h (key, info) he hne).symm
  obtain ⟨_, rfl, hres⟩ | ⟨_, _, rfl, hres⟩ | ⟨m, _, hmax, hlt, hle, rfl, hres⟩ := hcase
  · cases hres
    rw [hnone]
    exact ⟨h.sub fun e he => (InsertionMap.mem_erase.mp he).2, fun key info x _ hx => by cases hx⟩
  · cases hres
    refine ⟨?_, fun key' info' x hf' hx hne => ?_⟩
    · unfold resentStart
      rw [hf]
      dsimp only
      rw [if_neg (lt_irrefl _)]
      intro e hmem hne
      obtain rfl | ⟨_, hmem⟩ := InsertionMap.mem_put.mp hmem
      · exact (hplace hne).symm
      · exact h e hmem hne
    · cases hf.symm.trans hf'
      cases hx
      exact hplace hne
  · cases hres
    have hs := hc.splitAt hb he hmax (hm (key, info) hf) hlt
    refine ⟨?_, fun key' info' x hf' hx hne => ?_⟩
    · unfold resentStart
      rw [hf]
      dsimp only
      rw [List.length_take_of_le hle, if_pos hs.m_lt]
      exact h.split hc hs
    · cases hf.symm.trans hf'
      exact hplace (List.ne_nil_of_length_pos (Nat.zero_lt_of_lt hs.m_lt))

end KeysTellPlace

end StreamBuffer

end Qotp
