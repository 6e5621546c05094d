import Qotp.Buffer.SendSpec

namespace Qotp

open Framework

namespace StreamBuffer

/-- An in-flight entry: its first offset and one past its last. -/
def entryStart (e : PacketKey × SendInfo) : Nat := PacketKey.offset e.1

def entryEnd (e : PacketKey × SendInfo) : Nat := PacketKey.offset e.1 + e.2.data.length

theorem entryEnd_eq {e : PacketKey × SendInfo} (h : PacketKey.length e.1 = e.2.data.length) :
    entryEnd e = PacketKey.offset e.1 + PacketKey.length e.1 := by rw [entryEnd, h]

/-- Of the accepted bytes `W` the queue holds what is not sent; what is sent is in
flight, each byte in one entry at its own offset, or acknowledged (`A`). -/
structure Conserves (W : Bytes) (A : Nat → Prop) (s : StreamBuffer) : Prop where
  sent_le : s.bytesSentOffset ≤ W.length
  queued : s.queuedData = W.drop s.bytesSentOffset
  keyed : ∀ e ∈ s.dataInFlightMap.entries, PacketKey.length e.1 = e.2.data.length
  content : ∀ e ∈ s.dataInFlightMap.entries, IsAt W (entryStart e) e.2.data
  below : ∀ e ∈ s.dataInFlightMap.entries, entryEnd e ≤ s.bytesSentOffset
  ping : ∀ e ∈ s.dataInFlightMap.entries, e.2.pingRequest = true → e.2.data = []
  disjoint : ∀ e ∈ s.dataInFlightMap.entries, ∀ f ∈ s.dataInFlightMap.entries, e.1 ≠ f.1 →
    e.2.data ≠ [] → f.2.data ≠ [] → entryEnd e ≤ entryStart f ∨ entryEnd f ≤ entryStart e
  kept : ∀ i < s.bytesSentOffset, (∃ e ∈ s.dataInFlightMap.entries, entryStart e ≤ i ∧ i < entryEnd e) ∨ A i

variable {W : Bytes} {A B : Nat → Prop} {s : StreamBuffer}

theorem conserves_new : Conserves [] A {} := by
  constructor <;> simp

/-- A byte that no longer counts as acknowledged has to be in flight. -/
theorem Conserves.of_kept (h : Conserves W A s) (hkept : ∀ i < s.bytesSentOffset, A i →
    (∃ e ∈ s.dataInFlightMap.entries, entryStart e ≤ i ∧ i < entryEnd e) ∨ B i) : Conserves W B s :=
  ⟨h.sent_le, h.queued, h.keyed, h.content, h.below, h.ping, h.disjoint,
    fun i hi => (h.kept i hi).elim .inl (hkept i hi)⟩

theorem Conserves.mono (h : Conserves W A s) (hAB : ∀ i, A i → B i) : Conserves W B s :=
  h.of_kept fun i _ hi => .inr (hAB i hi)

/-- The ping request and the close mark play no part. -/
theorem Conserves.congr (h : Conserves W A s) {s' : StreamBuffer}
    (hm : s'.dataInFlightMap = s.dataInFlightMap) (hq : s'.queuedData = s.queuedData)
    (hb : s'.bytesSentOffset = s.bytesSentOffset) : Conserves W A s' := by
  obtain ⟨m, q, b, p, c⟩ := s
  obtain ⟨m', q', b', p', c'⟩ := s'
  dsimp only at hm hq hb
  subst hm hq hb
  exact ⟨h.sent_le, h.queued, h.keyed, h.content, h.below, h.ping, h.disjoint, h.kept⟩

theorem Conserves.queue (h : Conserves W A s) (chunk : Bytes) : Conserves (W ++ chunk) A (s.queue chunk) := by
  refine ⟨?_, ?_, h.keyed, fun e he => (h.content e he).append, h.below, h.ping, h.disjoint, h.kept⟩
  · rw [List.length_append]
    exact h.sent_le.trans (Nat.le_add_right _ _)
  · have hd : (W ++ chunk).drop s.bytesSentOffset = W.drop s.bytesSentOffset ++ chunk :=
      List.drop_append_of_le_length h.sent_le
    rw [StreamBuffer.queue, h.queued]
    exact hd.symm

theorem Conserves.close (h : Conserves W A s) : Conserves W A s.close := by
  unfold StreamBuffer.close
  cases s.closeAtOffset with
  | some c => exact h
  | none => exact h.congr rfl rfl rfl

/-- An entry is added, or takes the place of one with the same range. -/
theorem Conserves.put (h : Conserves W A s) {key : PacketKey} {info : SendInfo}
    (hlen : PacketKey.length key = info.data.length) (hat : IsAt W (PacketKey.offset key) info.data)
    (hend : PacketKey.offset key + info.data.length ≤ s.bytesSentOffset)
    (hping : info.pingRequest = true → info.data = [])
    (hdis : info.data ≠ [] → ∀ e ∈ s.dataInFlightMap.entries, e.1 ≠ key → e.2.data ≠ [] →
      entryEnd e ≤ PacketKey.offset key ∨ PacketKey.offset key + info.data.length ≤ entryStart e) :
    Conserves W A { s with dataInFlightMap := s.dataInFlightMap.put key info } := by
  refine ⟨h.sent_le, h.queued, ?_, ?_, ?_, ?_, ?_, fun i hi => ?_⟩
  · exact InsertionMap.forall_put hlen fun e he _ => h.keyed e he
  · exact InsertionMap.forall_put hat fun e he _ => h.content e he
  · exact InsertionMap.forall_put hend fun e he _ => h.below e he
  · exact InsertionMap.forall_put hping fun e he _ => h.ping e he
  · refine InsertionMap.forall_pair_put (fun e f hsep h1 h2 => (hsep h2 h1).symm) (fun e he hek h1 h2 => ?_) ?_
    · exact hdis h2 e he hek h1
    · exact fun e he _ f hf _ => h.disjoint e he f hf
  · obtain ⟨e, he, h1, h2⟩ | ha := h.kept i hi
    · by_cases hk : e.1 = key
      · refine .inl ⟨(key, info), InsertionMap.mem_put.mpr (.inl rfl), ?_, ?_⟩
        · rw [entryStart, hk] at h1
          exact h1
        · rw [entryEnd, ← h.keyed e he, hk, hlen] at h2
          exact h2
      · exact .inl ⟨e, InsertionMap.mem_put.mpr (.inr ⟨hk, he⟩), h1, h2⟩
    · exact .inr ha

/-- An entry leaves once its bytes are acknowledged. -/
theorem Conserves.erase (h : Conserves W A s) {key : PacketKey} (hAB : ∀ i, A i → B i)
    (hcov : ∀ info, (key, info) ∈ s.dataInFlightMap.entries →
      ∀ i, PacketKey.offset key ≤ i → i < PacketKey.offset key + info.data.length → B i) :
    Conserves W B { s with dataInFlightMap := s.dataInFlightMap.erase key } := by
  have hsub : ∀ e ∈ (s.dataInFlightMap.erase key).entries, e ∈ s.dataInFlightMap.entries :=
    fun e he => (InsertionMap.mem_erase.mp he).2
  refine ⟨h.sent_le, h.queued, fun e he => h.keyed e (hsub e he), fun e he => h.content e (hsub e he),
    fun e he => h.below e (hsub e he), fun e he => h.ping e (hsub e he),
    fun e he f hf => h.disjoint e (hsub e he) f (hsub f hf), fun i hi => ?_⟩
  obtain ⟨e, he, h1, h2⟩ | ha := h.kept i hi
  · by_cases hk : e.1 = key
    · subst hk
      exact .inr (hcov e.2 he i h1 h2)
    · exact .inl ⟨e, InsertionMap.mem_erase.mpr ⟨hk, he⟩, h1, h2⟩
  · exact .inr (hAB i ha)

theorem Conserves.afterEmpty (h : Conserves W A s) (hb : s.bytesSentOffset < 2 ^ 48) (now : Nat)
    (isPing : Bool) : Conserves W A (s.afterEmpty now isPing) := by
  have ho : PacketKey.offset (createPacketKey s.bytesSentOffset 0) = s.bytesSentOffset := by
    rw [createPacketKey_offset _ _ (by decide), Nat.mod_eq_of_lt hb]
  have hput : Conserves W A { s with
      dataInFlightMap := s.dataInFlightMap.put (createPacketKey s.bytesSentOffset 0)
        (newSendInfo [] now isPing) } := by
    apply h.put
    · exact createPacketKey_length _ _ (by decide)
    · exact isAt_nil _ _
    · rw [ho]
      exact le_rfl
    · exact fun _ => rfl
    · exact fun hne => absurd rfl hne
  exact hput.congr rfl rfl rfl

/-- The sent offset moves over `n` queued bytes, which then count as acknowledged. -/
theorem Conserves.advance (h : Conserves W A s) {n : Nat} (hn : n ≤ s.queuedData.length) :
    Conserves W (fun i => A i ∨ s.bytesSentOffset ≤ i) { s with
      queuedData := s.queuedData.drop n
      bytesSentOffset := s.bytesSentOffset + n } := by
  have hqlen : s.queuedData.length = W.length - s.bytesSentOffset := by rw [h.queued, List.length_drop]
  have hle := h.sent_le
  refine ⟨?_, ?_, h.keyed, h.content, fun e he => (h.below e he).trans (Nat.le_add_right _ _), h.ping, h.disjoint,
    fun i hi => ?_⟩
  · dsimp only
    omega
  · dsimp only
    rw [h.queued, List.drop_drop]
  · by_cases hs : i < s.bytesSentOffset
    · exact (h.kept i hs).imp_right .inl
    · exact .inr (.inr (not_lt.mp hs))

/-- The next `n` queued bytes go in flight. -/
theorem Conserves.afterData (h : Conserves W A s) (hb : s.bytesSentOffset < 2 ^ 48) {n : Nat}
    (hn : n ≤ s.queuedData.length) (hn16 : n < 2 ^ 16) (now : Nat) : Conserves W A (s.afterData n now) := by
  have hm : n % 2 ^ 16 = n := Nat.mod_eq_of_lt hn16
  have hlen : (s.queuedData.take n).length = n := List.length_take_of_le hn
  have ho : PacketKey.offset (createPacketKey s.bytesSentOffset n) = s.bytesSentOffset := by
    rw [createPacketKey_offset _ _ hn16, Nat.mod_eq_of_lt hb]
  unfold StreamBuffer.afterData
  rw [hm]
  have hput : Conserves W (fun i => A i ∨ s.bytesSentOffset ≤ i) { s with
      dataInFlightMap := s.dataInFlightMap.put (createPacketKey s.bytesSentOffset n)
        (newSendInfo (s.queuedData.take n) now false)
      queuedData := s.queuedData.drop n
      bytesSentOffset := s.bytesSentOffset + n } := by
    apply (h.advance hn).put
    · rw [createPacketKey_length _ _ hn16]
      exact hlen.symm
    · rw [ho, h.queued]
      exact IsAt.of_slice n
    · rw [ho]
      exact Nat.add_le_add_left hlen.le _
    · exact fun hp => absurd hp (by simp [newSendInfo])
    · -- every old entry ends where the new one starts, or before
      intro _ e he _ _
      rw [ho]
      exact .inl (h.below e he)
  refine hput.of_kept fun i hi hA => ?_
  obtain hA | hge := hA
  · exact .inr hA
  · refine .inl ⟨_, InsertionMap.mem_put.mpr (.inl rfl), ?_, ?_⟩
    · rw [entryStart, ho]
      exact hge
    · rw [entryEnd, ho]
      simp only [newSendInfo, hlen]
      exact hi

/-- Sending an entry again changes neither its key nor its data. -/
theorem Conserves.resend (h : Conserves W A s) {key : PacketKey} {info : SendInfo}
    (he : (key, info) ∈ s.dataInFlightMap.entries) (now : Nat) :
    Conserves W A { s with dataInFlightMap := s.dataInFlightMap.put key (StreamBuffer.resend info now) } := by
  apply h.put
  · exact h.keyed (key, info) he
  · exact h.content (key, info) he
  · exact h.below (key, info) he
  · exact h.ping (key, info) he
  · intro hne e he' hk hne'
    exact h.disjoint e he' (key, info) he hk hne' hne

/-- The entry that is cut, its range and the keys of its two parts. -/
structure SplitAt (s : StreamBuffer) (key : PacketKey) (info : SendInfo) (m : Nat) : Prop where
  mem : (key, info) ∈ s.dataInFlightMap.entries
  m_lt : m < info.data.length
  len_lt : info.data.length < 2 ^ 16
  end_lt : PacketKey.offset key + info.data.length < 2 ^ 48

def leftPart (info : SendInfo) (m now : Nat) : SendInfo := ⟨info.data.take m, now, info.sentNr + 1, false⟩

def rightPart (info : SendInfo) (m : Nat) : SendInfo := { info with data := info.data.drop m }

def leftKey (key : PacketKey) (m : Nat) : PacketKey := createPacketKey (PacketKey.offset key) m

def rightKey (key : PacketKey) (info : SendInfo) (m : Nat) : PacketKey :=
  createPacketKey (PacketKey.offset key + m) (info.data.length - m)

namespace SplitAt

variable {key : PacketKey} {info : SendInfo} {m : Nat}

theorem leftKey_offset (h : SplitAt s key info m) : PacketKey.offset (leftKey key m) = PacketKey.offset key := by
  have h1 := h.m_lt
  have h2 := h.len_lt
  have h3 := h.end_lt
  rw [leftKey, createPacketKey_offset _ _ (by omega), Nat.mod_eq_of_lt (by omega)]

theorem leftKey_length (h : SplitAt s key info m) : PacketKey.length (leftKey key m) = m :=
  createPacketKey_length _ _ (h.m_lt.trans h.len_lt)

theorem rightKey_offset (h : SplitAt s key info m) :
    PacketKey.offset (rightKey key info m) = PacketKey.offset key + m := by
  have h1 := h.m_lt
  have h2 := h.len_lt
  have h3 := h.end_lt
  rw [rightKey, createPacketKey_offset _ _ (by omega), Nat.mod_eq_of_lt (by omega)]

theorem rightKey_length (h : SplitAt s key info m) :
    PacketKey.length (rightKey key info m) = info.data.length - m := by
  have h2 := h.len_lt
  exact createPacketKey_length _ _ (by omega)

theorem afterSplit_eq (h : SplitAt s key info m) (now : Nat) :
    s.afterSplit key info m now = { s with
      dataInFlightMap := (((s.dataInFlightMap.put (leftKey key m) (leftPart info m now)).put key
        (rightPart info m)).replace key (rightKey key info m) (rightPart info m)).1 } := by
  have h1 := h.m_lt
  have h2 := h.len_lt
  have hm : m % 2 ^ 16 = m := Nat.mod_eq_of_lt (by omega)
  have hd : (info.data.length - m) % 2 ^ 16 = info.data.length - m := Nat.mod_eq_of_lt (by omega)
  simp only [afterSplit, List.length_drop, hm, hd]
  rfl

theorem leftKey_ne (h : SplitAt s key info m) (hk : PacketKey.length key = info.data.length) :
    leftKey key m ≠ key := by
  intro he
  have h1 := h.m_lt
  have h2 := h.leftKey_length
  rw [he] at h2
  omega

/-- The key of the right part is the old key (an empty left part) or a free one. -/
theorem rightKey_free (h : SplitAt s key info m) (hc : Conserves W A s) (now : Nat) :
    key = rightKey key info m ∨
      rightKey key info m ∉ ((s.dataInFlightMap.put (leftKey key m) (leftPart info m now)).put key
        (rightPart info m)).keys := by
  have hlt := h.m_lt
  have hkl : PacketKey.length key = info.data.length := hc.keyed (key, info) h.mem
  have hro := h.rightKey_offset
  have hrl := h.rightKey_length
  by_cases hm : m = 0
  · refine .inl (packetKey_ext ?_ ?_)
    · omega
    · omega
  · refine .inr fun hmem => ?_
    obtain ⟨e, he, hek⟩ := List.mem_map.mp hmem
    obtain rfl | ⟨_, he⟩ := InsertionMap.mem_put.mp he
    · dsimp only at hek
      rw [← hek] at hro
      omega
    obtain rfl | ⟨_, he⟩ := InsertionMap.mem_put.mp he
    · dsimp only at hek
      rw [← hek, h.leftKey_offset] at hro
      omega
    · -- an old entry there would overlap the one that is cut
      have hel := hc.keyed e he
      rw [hek, hrl] at hel
      have hek' : e.1 ≠ key := by
        intro hc
        rw [← hek, hc] at hro
        omega
      have hd := hc.disjoint e he (key, info) h.mem hek' (List.ne_nil_of_length_pos (by omega))
        (List.ne_nil_of_length_pos (by dsimp only; omega))
      unfold entryEnd entryStart at hd
      rw [hek, hro] at hd
      dsimp only at hd
      omega

theorem mem_afterSplit (h : SplitAt s key info m) (hc : Conserves W A s) {now : Nat}
    {e : PacketKey × SendInfo} :
    e ∈ (s.afterSplit key info m now).dataInFlightMap.entries ↔
      e = (rightKey key info m, rightPart info m) ∨ e = (leftKey key m, leftPart info m now) ∨
      (e.1 ≠ key ∧ e.1 ≠ leftKey key m ∧ e ∈ s.dataInFlightMap.entries) := by
  have hkey : (key, rightPart info m) ∈ ((s.dataInFlightMap.put (leftKey key m) (leftPart info m now)).put
      key (rightPart info m)).entries := InsertionMap.mem_put.mpr (.inl rfl)
  have hne := h.leftKey_ne (hc.keyed (key, info) h.mem)
  rw [h.afterSplit_eq]
  dsimp only
  rw [InsertionMap.mem_replace hkey (h.rightKey_free hc now), InsertionMap.mem_put, InsertionMap.mem_put]
  constructor
  · rintro (rfl | ⟨hk, rfl | ⟨_, rfl | ⟨hl, he⟩⟩⟩)
    · exact .inl rfl
    · exact absurd rfl hk
    · exact .inr (.inl rfl)
    · exact .inr (.inr ⟨hk, hl, he⟩)
  · rintro (rfl | rfl | ⟨hk, hl, he⟩)
    · exact .inl rfl
    · exact .inr ⟨hne, .inr ⟨hne, .inl rfl⟩⟩
    · exact .inr ⟨hk, .inr ⟨hk, .inr ⟨hl, he⟩⟩⟩

theorem right_start (h : SplitAt s key info m) :
    entryStart (rightKey key info m, rightPart info m) = PacketKey.offset key + m := h.rightKey_offset

theorem left_start (h : SplitAt s key info m) (now : Nat) :
    entryStart (leftKey key m, leftPart info m now) = PacketKey.offset key := h.leftKey_offset

theorem right_end (h : SplitAt s key info m) :
    entryEnd (rightKey key info m, rightPart info m) = PacketKey.offset key + info.data.length := by
  have hlt := h.m_lt
  simp only [entryEnd, h.rightKey_offset, rightPart, List.length_drop]
  omega

theorem left_end (h : SplitAt s key info m) (now : Nat) :
    entryEnd (leftKey key m, leftPart info m now) = PacketKey.offset key + m := by
  have hlt := h.m_lt
  simp only [entryEnd, h.leftKey_offset, leftPart, List.length_take]
  omega

/-- What an entry held before the cut, an entry holds after it. -/
theorem held (h : SplitAt s key info m) (hc : Conserves W A s) (now : Nat) {e : PacketKey × SendInfo}
    (he : e ∈ s.dataInFlightMap.entries) {i : Nat} (h1 : entryStart e ≤ i) (h2 : i < entryEnd e) :
    ∃ f ∈ (s.afterSplit key info m now).dataInFlightMap.entries, entryStart f ≤ i ∧ i < entryEnd f := by
  have hrs := h.right_start
  have hre := h.right_end
  have hls := h.left_start now
  have hle := h.left_end now
  by_cases hk : e.1 = key
  · obtain ⟨k, v⟩ := e
    dsimp only at hk
    subst hk
    obtain rfl := InsertionMap.eq_of_mem he h.mem
    unfold entryStart at h1
    unfold entryEnd at h2
    dsimp only at h1 h2
    by_cases hi : i < PacketKey.offset k + m
    · exact ⟨_, (h.mem_afterSplit hc).mpr (.inr (.inl rfl)), by omega, by omega⟩
    · exact ⟨_, (h.mem_afterSplit hc).mpr (.inl rfl), by omega, by omega⟩
  by_cases hl : e.1 = leftKey key m
  · -- an entry under the key of the left part has its range
    have hlen := hc.keyed e he
    rw [hl, h.leftKey_length] at hlen
    unfold entryStart at h1
    unfold entryEnd at h2
    rw [hl, h.leftKey_offset] at h1 h2
    exact ⟨_, (h.mem_afterSplit hc).mpr (.inr (.inl rfl)), by omega, by omega⟩
  · exact ⟨e, (h.mem_afterSplit hc).mpr (.inr (.inr ⟨hk, hl, he⟩)), h1, h2⟩

/-- Any other entry lies on one side of the one that is cut. -/
theorem side (h : SplitAt s key info m) (hc : Conserves W A s) {e : PacketKey × SendInfo}
    (he : e ∈ s.dataInFlightMap.entries) (hk : e.1 ≠ key) (hne : e.2.data ≠ []) :
    entryEnd e ≤ PacketKey.offset key ∨ PacketKey.offset key + info.data.length ≤ entryStart e := by
  have hlt := h.m_lt
  exact hc.disjoint e he (key, info) h.mem hk hne (List.ne_nil_of_length_pos (by dsimp only; omega))

theorem disjoint (h : SplitAt s key info m) (hc : Conserves W A s) (now : Nat) {e f : PacketKey × SendInfo}
    (he : e ∈ (s.afterSplit key info m now).dataInFlightMap.entries)
    (hf : f ∈ (s.afterSplit key info m now).dataInFlightMap.entries) (hne : e.1 ≠ f.1) (h1 : e.2.data ≠ [])
    (h2 : f.2.data ≠ []) : entryEnd e ≤ entryStart f ∨ entryEnd f ≤ entryStart e := by
  have hlt := h.m_lt
  have hrs := h.right_start
  have hre := h.right_end
  have hls := h.left_start now
  have hle := h.left_end now
  obtain rfl | rfl | ⟨hek, _, he⟩ := (h.mem_afterSplit hc).mp he <;>
    obtain rfl | rfl | ⟨hfk, _, hf⟩ := (h.mem_afterSplit hc).mp hf
  · exact absurd rfl hne
  · exact .inr (by omega)
  · have := h.side hc hf hfk h2
    omega
  · exact .inl (by omega)
  · exact absurd rfl hne
  · have := h.side hc hf hfk h2
    omega
  · have := h.side hc he hek h1
    omega
  · have := h.side hc he hek h1
    omega
  · exact hc.disjoint e he f hf hne h1 h2

/-- Both parts of a cut entry together hold its range. -/
theorem conserves (h : SplitAt s key info m) (hc : Conserves W A s) (now : Nat) :
    Conserves W A (s.afterSplit key info m now) := by
  have hlt := h.m_lt
  have hb := hc.below (key, info) h.mem
  have hat := hc.content (key, info) h.mem
  unfold entryEnd at hb
  unfold entryStart at hat
  dsimp only at hb hat
  refine ⟨hc.sent_le, hc.queued, fun e he => ?_, fun e he => ?_, fun e he => ?_, fun e he => ?_,
    fun e he f hf => h.disjoint hc now he hf, fun i hi => ?_⟩
  · obtain rfl | rfl | ⟨_, _, he⟩ := (h.mem_afterSplit hc).mp he
    · rw [h.rightKey_length, rightPart, List.length_drop]
    · rw [h.leftKey_length, leftPart, List.length_take]
      omega
    · exact hc.keyed e he
  · obtain rfl | rfl | ⟨_, _, he⟩ := (h.mem_afterSplit hc).mp he
    · rw [h.right_start]
      exact hat.drop
    · rw [h.left_start]
      exact hat.take m
    · exact hc.content e he
  · obtain rfl | rfl | ⟨_, _, he⟩ := (h.mem_afterSplit hc).mp he
    · rw [h.right_end]
      exact hb
    · rw [h.left_end]
      change _ ≤ s.bytesSentOffset
      omega
    · exact hc.below e he
  · obtain rfl | rfl | ⟨_, _, he⟩ := (h.mem_afterSplit hc).mp he
    · intro hp
      have hnil : info.data = [] := hc.ping (key, info) h.mem hp
      simp [rightPart, hnil]
    · exact fun hp => absurd hp (by simp [leftPart])
    · exact hc.ping e he
  · obtain ⟨e, he, h1, h2⟩ | ha := hc.kept i hi
    · exact .inl (h.held hc now he h1 h2)
    · exact .inr ha

end SplitAt

/-- Room for 0 to 65535 user bytes behind the overhead. -/
def MtuFits (msgType : CryptoMsgType) (ack : Option Ack) (mtu : Int) (offset : Nat) : Prop :=
  0 ≤ maxDataFor msgType ack mtu offset ∧ maxDataFor msgType ack mtu offset ≤ 65535

instance (msgType : CryptoMsgType) (ack : Option Ack) (mtu : Int) (offset : Nat) :
    Decidable (MtuFits msgType ack mtu offset) := inferInstanceAs (Decidable (_ ∧ _))

theorem sendLength_le {msgType : CryptoMsgType} {ack : Option Ack} {mtu : Int}
    (hm : MtuFits msgType ack mtu s.bytesSentOffset) :
    s.sendLength msgType ack mtu ≤ s.queuedData.length ∧ s.sendLength msgType ack mtu < 2 ^ 16 := by
  obtain ⟨h0, h1⟩ := hm
  obtain ⟨n, hn⟩ := Int.eq_ofNat_of_zero_le h0
  have hu : toUint64 (n : Int) = n := toUint64_natCast (by omega)
  unfold sendLength
  rw [hn, hu]
  omega

/-- An entry is cut inside its range, which is short of 2^16 bytes and of offset 2^48. -/
theorem Conserves.splitAt (h : Conserves W A s) (hb : s.bytesSentOffset < 2 ^ 48) {key : PacketKey}
    {info : SendInfo} {m : Nat} (hmem : (key, info) ∈ s.dataInFlightMap.entries)
    {msgType : CryptoMsgType} {ack : Option Ack} {mtu : Int}
    (hmax : maxDataFor msgType ack mtu (PacketKey.offset key) = m)
    (hfit : MtuFits msgType ack mtu (PacketKey.offset key))
    (hlt : m % 2 ^ 16 < info.data.length % 2 ^ 16) : SplitAt s key info m := by
  have hlen : PacketKey.length key = info.data.length := h.keyed (key, info) hmem
  have hlen16 := packetKey_length_lt key
  have hbel : PacketKey.offset key + info.data.length ≤ s.bytesSentOffset := h.below (key, info) hmem
  unfold MtuFits at hfit
  rw [hmax] at hfit
  exact ⟨hmem, by omega, by omega, by omega⟩

/-- `readyToSend` keeps the bytes, and what it hands out is a piece of them. -/
theorem Conserves.readyToSend (h : Conserves W A s) (hb : s.bytesSentOffset < 2 ^ 48)
    {msgType : CryptoMsgType} {ack : Option Ack} {mtu : Int} {now : Nat}
    (hm : MtuFits msgType ack mtu s.bytesSentOffset) :
    Conserves W A (s.readyToSend msgType ack mtu now).1 ∧
      ∀ d o c, (s.readyToSend msgType ack mtu now).2 = (some d, o, c) → d ≠ [] → IsAt W o d := by
  obtain ⟨_, _, _, hr⟩ | ⟨_, hr⟩ | ⟨_, _, _, hr⟩ | ⟨_, _, hr⟩ := s.readyToSend_cases msgType ack mtu now
  · rw [hr]
    exact ⟨h, fun d o c hd => by cases hd⟩
  · rw [hr]
    refine ⟨h.afterEmpty hb now true, fun d o c hd hne => ?_⟩
    cases hd
    exact absurd rfl hne
  · rw [hr]
    refine ⟨h.afterEmpty hb now false, fun d o c hd hne => ?_⟩
    cases hd
    exact absurd rfl hne
  · obtain ⟨hn, hn16⟩ := sendLength_le hm
    rw [hr]
    refine ⟨h.afterData hb hn hn16 now, fun d o c hd _ => ?_⟩
    cases hd
    rw [Nat.mod_eq_of_lt hn16, createPacketKey_offset _ _ hn16, Nat.mod_eq_of_lt hb, h.queued]
    exact IsAt.of_slice _

/-- The same for `readyToRetransmit`. -/
theorem Conserves.readyToRetransmit (h : Conserves W A s) (hb : s.bytesSentOffset < 2 ^ 48)
    {msgType : CryptoMsgType} {ack : Option Ack} {mtu : Int} {rto now : Nat}
    (hm : ∀ e, s.dataInFlightMap.first = some e → MtuFits msgType ack mtu (entryStart e))
    {s' : StreamBuffer} {r : Except String Packet}
    (hr : s.readyToRetransmit ack mtu rto msgType now = some (s', r)) :
    Conserves W A s' ∧ ∀ d o c, r = .ok (some d, o, c) → d ≠ [] → IsAt W o d := by
  obtain ⟨rfl, hnone⟩ | ⟨key, info, hf, hcase⟩ := readyToRetransmit_cases hr
  · refine ⟨h, fun d o c hd => ?_⟩
    obtain rfl | ⟨e, rfl⟩ := hnone <;> cases hd
  have hmem := InsertionMap.first_mem hf
  have hat : IsAt W (PacketKey.offset key) info.data := h.content (key, info) hmem
  obtain ⟨hp, rfl, rfl⟩ | ⟨_, _, rfl, rfl⟩ | ⟨m, _, hmax, hlt, hle, rfl, rfl⟩ := hcase
  · refine ⟨h.erase (fun _ hi => hi) (fun v hv i h1 h2 => ?_), fun d o c hd => by cases hd⟩
    obtain rfl := InsertionMap.eq_of_mem hv hmem
    have hnil : v.data = [] := h.ping (key, v) hv hp
    rw [hnil, List.length_nil] at h2
    omega
  · refine ⟨h.resend hmem now, fun d o c hd _ => ?_⟩
    cases hd
    exact hat
  · have hsplit := h.splitAt hb hmem hmax (hm (key, info) hf) hlt
    refine ⟨hsplit.conserves h now, fun d o c hd _ => ?_⟩
    cases hd
    exact hat.take m

end StreamBuffer

end Qotp
