import Qotp.Buffer.Send

namespace Qotp

open Framework

theorem createPacketKey_eq (o l : Nat) (hl : l < 2 ^ 16) :
    createPacketKey o l = (o % 2 ^ 48) * 2 ^ 16 + l := by
  have hs : (o <<< 16) % 2 ^ 64 = (o % 2 ^ 48) <<< 16 := by
    rw [Nat.shiftLeft_eq, Nat.shiftLeft_eq]
    omega
  rw [createPacketKey, hs, ← Nat.shiftLeft_add_eq_or_of_lt hl, Nat.shiftLeft_eq]

/-- The key keeps 48 bits of the offset. -/
theorem createPacketKey_offset (o l : Nat) (hl : l < 2 ^ 16) :
    PacketKey.offset (createPacketKey o l) = o % 2 ^ 48 := by
  rw [PacketKey.offset, createPacketKey_eq o l hl, Nat.shiftRight_eq_div_pow]
  omega

theorem createPacketKey_length (o l : Nat) (hl : l < 2 ^ 16) :
    PacketKey.length (createPacketKey o l) = l := by
  rw [PacketKey.length, createPacketKey_eq o l hl, show (0xFFFF : Nat) = 2 ^ 16 - 1 by rfl,
    Nat.and_two_pow_sub_one_eq_mod]
  omega

/-- A key is determined by its two parts. -/
theorem packetKey_ext {k j : Nat} (ho : PacketKey.offset k = PacketKey.offset j)
    (hl : PacketKey.length k = PacketKey.length j) : k = j := by
  unfold PacketKey.offset at ho
  unfold PacketKey.length at hl
  rw [Nat.shiftRight_eq_div_pow, Nat.shiftRight_eq_div_pow] at ho
  rw [show (0xFFFF : Nat) = 2 ^ 16 - 1 by rfl, Nat.and_two_pow_sub_one_eq_mod,
    Nat.and_two_pow_sub_one_eq_mod] at hl
  omega

theorem packetKey_length_lt (k : Nat) : PacketKey.length k < 2 ^ 16 := by
  rw [PacketKey.length, show (0xFFFF : Nat) = 2 ^ 16 - 1 by rfl, Nat.and_two_pow_sub_one_eq_mod]
  exact Nat.mod_lt _ (by decide)

theorem createPacketKey_self {k : Nat} (h : PacketKey.offset k < 2 ^ 48) :
    createPacketKey (PacketKey.offset k) (PacketKey.length k) = k := by
  have hlen := packetKey_length_lt k
  refine packetKey_ext ?_ ?_
  · rw [createPacketKey_offset _ _ hlen, Nat.mod_eq_of_lt h]
  · rw [createPacketKey_length _ _ hlen]

namespace StreamBuffer

variable {s s' : StreamBuffer} {msgType : CryptoMsgType} {ack : Option Ack} {mtu : Int} {now rto : Nat}

/-- The number of queued bytes that the next data packet takes. -/
def sendLength (s : StreamBuffer) (msgType : CryptoMsgType) (ack : Option Ack) (mtu : Int) : Nat :=
  min (toUint64 (maxDataFor msgType ack mtu s.bytesSentOffset)) s.queuedData.length

/-- The state behind a packet without data: an empty entry at the sent offset. -/
def afterEmpty (s : StreamBuffer) (now : Nat) (isPing : Bool) : StreamBuffer :=
  { s with
    pingRequest := s.pingRequest && !isPing
    dataInFlightMap := s.dataInFlightMap.put (createPacketKey s.bytesSentOffset 0)
      (newSendInfo [] now isPing) }

/-- The state behind a packet with the next `n` queued bytes. -/
def afterData (s : StreamBuffer) (n now : Nat) : StreamBuffer :=
  { s with
    dataInFlightMap := s.dataInFlightMap.put (createPacketKey s.bytesSentOffset (n % 2 ^ 16))
      (newSendInfo (s.queuedData.take n) now false)
    queuedData := s.queuedData.drop n
    bytesSentOffset := s.bytesSentOffset + n }

/-- CLOSE is set on a packet that ends at or behind the close offset. -/
def closesAt (s : StreamBuffer) (packetEnd : Nat) : Bool :=
  s.closeAtOffset.elim false fun closeAt => decide (packetEnd ≥ closeAt)

/-- What `readyToSend` can do: nothing, a ping, an empty CLOSE, or data. -/
theorem readyToSend_cases (s : StreamBuffer) (msgType : CryptoMsgType) (ack : Option Ack) (mtu : Int)
    (now : Nat) :
    (s.pingRequest = false ∧ s.queuedData = [] ∧ s.closesAt s.bytesSentOffset = false ∧
      s.readyToSend msgType ack mtu now = (s, none, 0, false)) ∨
    (s.pingRequest = true ∧
      s.readyToSend msgType ack mtu now = (s.afterEmpty now true, some [], 0, false)) ∨
    (s.pingRequest = false ∧ s.queuedData = [] ∧ s.closesAt s.bytesSentOffset = true ∧
      s.readyToSend msgType ack mtu now = (s.afterEmpty now false, some [],
        PacketKey.offset (createPacketKey s.bytesSentOffset 0), true)) ∨
    (s.pingRequest = false ∧ s.queuedData ≠ [] ∧
      s.readyToSend msgType ack mtu now = (s.afterData (s.sendLength msgType ack mtu) now,
        some (s.queuedData.take (s.sendLength msgType ack mtu)),
        PacketKey.offset (createPacketKey s.bytesSentOffset (s.sendLength msgType ack mtu % 2 ^ 16)),
        s.closesAt (s.bytesSentOffset + s.sendLength msgType ack mtu))) := by
  unfold readyToSend
  split_ifs with hp hq
  · exact .inr (.inl ⟨hp, by simp [afterEmpty]⟩)
  · have hp' : s.pingRequest = false := by simpa using hp
    have hq' : s.queuedData = [] := List.length_eq_zero_iff.mp hq
    cases hc : s.closeAtOffset with
    | none => exact .inl ⟨hp', hq', by simp [closesAt, hc], rfl⟩
    | some c =>
      dsimp only
      split_ifs with hlt
      · exact .inl ⟨hp', hq', by simpa [closesAt, hc] using hlt, rfl⟩
      · refine .inr (.inr (.inl ⟨hp', hq', by simpa [closesAt, hc] using hlt, ?_⟩))
        simp [afterEmpty, hp', hc]
  · have hp' : s.pingRequest = false := by simpa using hp
    exact .inr (.inr (.inr ⟨hp', fun h => hq (by simp [h]), rfl⟩))

/-- The entry of a packet that is sent again as it is. -/
def resend (info : SendInfo) (now : Nat) : SendInfo :=
  { info with sentTimeNano := now, sentNr := info.sentNr + 1 }

/-- The entry `(key, info)` is cut behind `m` bytes: the left part is a new entry,
the right part takes the place of the old one. -/
def afterSplit (s : StreamBuffer) (key : PacketKey) (info : SendInfo) (m now : Nat) : StreamBuffer :=
  let leftInfo : SendInfo := ⟨info.data.take m, now, info.sentNr + 1, false⟩
  let rightInfo := { info with data := info.data.drop m }
  let rightKey := createPacketKey (key.offset + m) ((info.data.drop m).length % 2 ^ 16)
  { s with dataInFlightMap := (((s.dataInFlightMap.put (createPacketKey key.offset (m % 2 ^ 16)) leftInfo).put
      key rightInfo).replace key rightKey rightInfo).1 }

/-- What `readyToRetransmit` can do: nothing, drop an expired ping, send the first
entry again, or send its first `m` bytes. -/
theorem readyToRetransmit_cases {r : Except String Packet}
    (h : s.readyToRetransmit ack mtu rto msgType now = some (s', r)) :
    (s' = s ∧ (r = .ok (none, 0, false) ∨ ∃ e, r = .error e)) ∨
    ∃ key info, s.dataInFlightMap.first = some (key, info) ∧
      ((info.pingRequest = true ∧ s' = { s with dataInFlightMap := s.dataInFlightMap.erase key } ∧
        r = .ok (none, 0, false)) ∨
      (info.pingRequest = false ∧
        info.data.length % 2 ^ 16 ≤ toUint16 (maxDataFor msgType ack mtu key.offset) ∧
        s' = { s with dataInFlightMap := s.dataInFlightMap.put key (resend info now) } ∧
        r = .ok (some info.data, key.offset, s.closesAt (key.offset + info.data.length % 2 ^ 16))) ∨
      ∃ m : Nat, info.pingRequest = false ∧ maxDataFor msgType ack mtu key.offset = m ∧
        m % 2 ^ 16 < info.data.length % 2 ^ 16 ∧ m ≤ info.data.length ∧
        s' = s.afterSplit key info m now ∧ r = .ok (some (info.data.take m), key.offset, false)) := by
  unfold readyToRetransmit at h
  cases hf : s.dataInFlightMap.first with
  | none =>
    rw [hf] at h
    cases h
    exact .inl ⟨rfl, .inl rfl⟩
  | some e =>
    obtain ⟨key, info⟩ := e
    rw [hf] at h
    dsimp only at h
    cases hb : backoff rto info.sentNr with
    | error e =>
      rw [hb] at h
      cases h
      exact .inl ⟨rfl, .inr ⟨e, rfl⟩⟩
    | ok limit =>
      rw [hb] at h
      dsimp only at h
      split_ifs at h with hexp hping hfits hneg
      · cases h
        exact .inl ⟨rfl, .inl rfl⟩
      · cases h
        exact .inr ⟨key, info, rfl, .inl ⟨hping, rfl, rfl⟩⟩
      · cases h
        exact .inr ⟨key, info, rfl, .inr (.inl ⟨by simpa using hping, hfits, rfl, rfl⟩)⟩
      · obtain ⟨left, hl, h⟩ := Option.bind_eq_some_iff.mp h
        obtain ⟨right, hr, h⟩ := Option.bind_eq_some_iff.mp h
        obtain ⟨hle, rfl⟩ := sliceTo?_eq_some.mp hl
        obtain ⟨_, rfl⟩ := sliceFrom?_eq_some.mp hr
        obtain ⟨m, hm⟩ := Int.eq_ofNat_of_zero_le (not_lt.mp hneg)
        rw [hm] at h hfits hle
        have hu : toUint16 (m : Int) = m % 2 ^ 16 := by
          unfold toUint16
          omega
        rw [hu] at h hfits
        cases h
        exact .inr ⟨key, info, rfl, .inr (.inr ⟨m, by simpa using hping, hm, by omega, by simpa using hle,
          rfl, rfl⟩)⟩

theorem readyToRetransmit_error {msg : String}
    (h : s.readyToRetransmit ack mtu rto msgType now = some (s', .error msg)) : s' = s := by
  obtain ⟨hsame, _⟩ | ⟨key, info, _, ⟨_, _, hres⟩ | ⟨_, _, _, hres⟩ | ⟨m, _, _, _, _, _, hres⟩⟩ :=
    readyToRetransmit_cases h
  · exact hsame
  · cases hres
  · cases hres
  · cases hres

/-- What is sent again has expired. -/
theorem readyToRetransmit_expired {d : Bytes} {o : Nat} {isClose : Bool}
    (h : s.readyToRetransmit ack mtu rto msgType now = some (s', .ok (some d, o, isClose))) :
    ∃ key info limit, s.dataInFlightMap.first = some (key, info) ∧ backoff rto info.sentNr = .ok limit ∧
      limit < sub64 now info.sentTimeNano := by
  unfold readyToRetransmit at h
  cases hf : s.dataInFlightMap.first with
  | none =>
    rw [hf] at h
    cases h
  | some e =>
    rw [hf] at h
    dsimp only at h
    cases hb : backoff rto e.2.sentNr with
    | error msg =>
      rw [hb] at h
      cases h
    | ok limit =>
      rw [hb] at h
      dsimp only at h
      by_cases hexp : sub64 now e.2.sentTimeNano ≤ limit
      · rw [if_pos hexp] at h
        cases h
      · exact ⟨e.1, e.2, limit, rfl, hb, not_le.mp hexp⟩

/-- The retransmission timer of the entry has run out. -/
def due (info : SendInfo) (rto now : Nat) : Bool :=
  match backoff rto info.sentNr with
  | .ok limit => decide (limit < sub64 now info.sentTimeNano)
  | .error _ => false

theorem readyToRetransmit_due {d : Bytes} {o : Nat} {c : Bool} {e : PacketKey × SendInfo}
    (hf : s.dataInFlightMap.first = some e)
    (h : s.readyToRetransmit ack mtu rto msgType now = some (s', .ok (some d, o, c))) : due e.2 rto now = true := by
  obtain ⟨key, info, limit, hfirst, hback, hexp⟩ := readyToRetransmit_expired h
  cases hf.symm.trans hfirst
  unfold due
  rw [hback]
  exact decide_eq_true hexp

/-- Behind the last retry the first entry is reported instead. -/
theorem readyToRetransmit_refused {key : PacketKey} {info : SendInfo} (hf : s.dataInFlightMap.first = some (key, info))
    (hnr : maxRetry < info.sentNr) (ack : Option Ack) (mtu : Int) (rto : Nat) (msgType : CryptoMsgType) (now : Nat) :
    ∃ msg, s.readyToRetransmit ack mtu rto msgType now = some (s, .error msg) := by
  unfold readyToRetransmit backoff
  rw [hf]
  dsimp only
  rw [if_neg (by omega), if_pos hnr]
  exact ⟨_, rfl⟩

/-- An expired entry that fits is sent again. -/
theorem readyToRetransmit_whole {key : PacketKey} {info : SendInfo} {limit : Nat}
    (hf : s.dataInFlightMap.first = some (key, info)) (hb : backoff rto info.sentNr = .ok limit)
    (hexp : limit < sub64 now info.sentTimeNano) (hping : info.pingRequest = false)
    (hfits : info.data.length % 2 ^ 16 ≤ toUint16 (maxDataFor msgType ack mtu key.offset)) :
    s.readyToRetransmit ack mtu rto msgType now =
      some ({ s with dataInFlightMap := s.dataInFlightMap.put key (resend info now) },
        .ok (some info.data, key.offset, s.closesAt (key.offset + info.data.length % 2 ^ 16))) := by
  unfold readyToRetransmit
  rw [hf]
  dsimp only
  rw [hb]
  dsimp only
  rw [if_neg (not_le.mpr hexp), if_neg (by simp [hping]), if_pos hfits]
  rfl

end StreamBuffer

namespace SendBuffer

theorem stream_put (sb : SendBuffer) (k j : Nat) (s : StreamBuffer) :
    ({ sb with streams := sb.streams.put k s } : SendBuffer).stream j = if j = k then s else sb.stream j := by
  unfold stream
  rw [InsertionMap.get?_put]
  split_ifs <;> rfl

theorem stream_same {sb sb' : SendBuffer} (h : sb' = sb) (k j : Nat) :
    sb'.stream j = if j = k then sb.stream k else sb.stream j := by
  subst h
  split_ifs with hj
  · rw [hj]
  · rfl

theorem getOffsetClosedAt_eq (sb : SendBuffer) (k : Nat) :
    sb.getOffsetClosedAt k = (sb.stream k).closeAtOffset := by
  unfold getOffsetClosedAt stream
  cases sb.streams.get? k <;> rfl

/-- The bytes `queueData` accepts. -/
theorem queueData_cases {sb sb' : SendBuffer} {k n : Nat} {d : Bytes} {st : InsertStatus}
    (h : sb.queueData k d = some (sb', n, st)) :
    n ≤ d.length ∧ ((n = 0 ∧ sb' = sb) ∨
      sb' = { sb.update k (·.queue (d.take n)) with size := sb.size + n }) := by
  unfold queueData at h
  dsimp only at h
  split_ifs at h with h0 h1 h2 h3
  · cases h
    exact ⟨Nat.zero_le _, .inl ⟨rfl, rfl⟩⟩
  · cases h
    exact ⟨Nat.zero_le _, .inl ⟨rfl, rfl⟩⟩
  · have hlen : (d.take (sb.capacity - sb.size).toNat).length = (sb.capacity - sb.size).toNat :=
      List.length_take_of_le (by omega)
    cases h
    rw [hlen]
    exact ⟨by omega, .inr rfl⟩
  · cases h
    exact ⟨le_rfl, .inr (by rw [List.take_length])⟩

/-- The queue of one stream grows by the accepted bytes. -/
theorem queueData_stream {sb sb' : SendBuffer} {k n : Nat} {d : Bytes} {st : InsertStatus}
    (h : sb.queueData k d = some (sb', n, st)) (j : Nat) :
    sb'.stream j = if j = k then (sb.stream k).queue (d.take n) else sb.stream j := by
  obtain ⟨_, ⟨rfl, rfl⟩ | rfl⟩ := queueData_cases h
  · split_ifs with hj
    · simp [hj, StreamBuffer.queue]
    · rfl
  · exact stream_put sb k j _

/-- While the counter is inside the capacity, what fits is accepted; it is all of it
just when the status says so. -/
theorem queueData_eq {sb : SendBuffer} (hcap : sb.size ≤ sb.capacity) (k : Nat) (d : Bytes) :
    ∃ sb' st, sb.queueData k d = some (sb', min d.length (sb.capacity - sb.size).toNat, st) ∧
      sb'.capacity = sb.capacity ∧ sb'.size = sb.size + min (d.length : Int) (sb.capacity - sb.size) ∧
      (st = .ok ↔ d ≠ [] ∧ sb.size + d.length ≤ sb.capacity) := by
  unfold queueData
  dsimp only
  split_ifs with h0 hfull hmore hneg
  · have hnil : d = [] := List.length_eq_zero_iff.mp h0
    refine ⟨sb, .noData, ?_, rfl, ?_, ?_⟩
    · simp [h0]
    · omega
    · simp [hnil]
  · refine ⟨sb, .sndFull, ?_, rfl, ?_, ?_⟩
    · simp [hfull]
    · omega
    · simp only [reduceCtorEq, false_iff, not_and, not_le]
      omega
  · omega
  · have hlen : (d.take (sb.capacity - sb.size).toNat).length = (sb.capacity - sb.size).toNat :=
      List.length_take_of_le (by omega)
    rw [hlen, min_eq_right (show (sb.capacity - sb.size).toNat ≤ d.length by omega)]
    refine ⟨_, .sndFull, rfl, rfl, ?_, ?_⟩
    · dsimp only
      omega
    · simp only [reduceCtorEq, false_iff, not_and, not_le]
      omega
  · rw [min_eq_left (show d.length ≤ (sb.capacity - sb.size).toNat by omega)]
    refine ⟨_, .ok, rfl, rfl, ?_, ?_⟩
    · dsimp only
      omega
    · have hne : d ≠ [] := fun h => h0 (by simp [h])
      simp only [true_iff]
      exact ⟨hne, by omega⟩

/-- A counter above the capacity ends in a slice out of bounds. -/
theorem queueData_eq_none {sb : SendBuffer} {k : Nat} {d : Bytes} :
    sb.queueData k d = none ↔ d ≠ [] ∧ sb.capacity < sb.size := by
  constructor
  · intro h
    by_contra hno
    by_cases hcap : sb.size ≤ sb.capacity
    · obtain ⟨sb', st, hq, _⟩ := queueData_eq hcap k d
      simp [hq] at h
    · have hnil : d = [] := by
        by_contra hne
        exact hno ⟨hne, by omega⟩
      simp [queueData, hnil] at h
  · rintro ⟨hne, hlt⟩
    have hpos := List.length_pos_iff.mpr hne
    unfold queueData
    dsimp only
    rw [if_neg (by omega), if_neg (by omega), if_pos (by omega), if_pos (by omega)]

/-- Without a stream nothing is handed out; a missing stream is as good as a new one. -/
theorem readyToSend_stream (sb : SendBuffer) (k j : Nat) (msgType : CryptoMsgType) (ack : Option Ack)
    (mtu : Int) (now : Nat) :
    (sb.readyToSend k msgType ack mtu now).1.stream j =
      (if j = k then ((sb.stream k).readyToSend msgType ack mtu now).1 else sb.stream j) ∧
    (sb.readyToSend k msgType ack mtu now).2 = ((sb.stream k).readyToSend msgType ack mtu now).2 := by
  unfold readyToSend
  cases hg : sb.streams.get? k with
  | none =>
    have hk : sb.stream k = {} := by simp [stream, hg]
    rw [hk]
    refine ⟨?_, rfl⟩
    split_ifs with hj
    · subst hj
      exact hk
    · rfl
  | some s =>
    have hk : sb.stream k = s := by simp [stream, hg]
    rw [hk]
    exact ⟨stream_put sb k j _, rfl⟩

theorem readyToRetransmit_stream {sb sb' : SendBuffer} {k : Nat} {ack : Option Ack} {mtu : Int}
    {rto : Nat} {msgType : CryptoMsgType} {now : Nat} {r : Except String StreamBuffer.Packet}
    (h : sb.readyToRetransmit k ack mtu rto msgType now = some (sb', r)) :
    ∃ s', (sb.stream k).readyToRetransmit ack mtu rto msgType now = some (s', r) ∧
      ∀ j, sb'.stream j = if j = k then s' else sb.stream j := by
  unfold readyToRetransmit at h
  cases hg : sb.streams.get? k with
  | none =>
    have hk : sb.stream k = {} := by simp [stream, hg]
    rw [hg] at h
    cases h
    refine ⟨{}, by rw [hk]; rfl, fun j => ?_⟩
    split_ifs with hj
    · subst hj
      exact hk
    · rfl
  | some s =>
    have hk : sb.stream k = s := by simp [stream, hg]
    rw [hg] at h
    obtain ⟨⟨s', r'⟩, hs, hr⟩ := Option.map_eq_some_iff.mp h
    cases hr
    exact ⟨s', by rw [hk]; exact hs, fun j => stream_put sb k j s'⟩

theorem readyToRetransmit_of_stream {sb : SendBuffer} {s' : StreamBuffer} {k : Nat} {ack : Option Ack} {mtu : Int}
    {rto : Nat} {msgType : CryptoMsgType} {now : Nat} {r : Except String StreamBuffer.Packet}
    (h : (sb.stream k).readyToRetransmit ack mtu rto msgType now = some (s', r)) :
    ∃ sb', sb.readyToRetransmit k ack mtu rto msgType now = some (sb', r) := by
  unfold readyToRetransmit
  unfold stream at h
  cases hg : sb.streams.get? k with
  | none =>
    rw [hg] at h
    cases h
    exact ⟨sb, rfl⟩
  | some s =>
    rw [hg, Option.getD_some] at h
    dsimp only
    rw [h]
    exact ⟨_, rfl⟩

/-- An acknowledged key is erased from its stream; otherwise nothing changes. -/
theorem acknowledgeRange_cases (sb : SendBuffer) (a : Ack) :
    (∃ st, (sb.acknowledgeRange a) = (sb, st, 0) ∧ st ≠ .ok) ∨
    ∃ info, (createPacketKey a.offset a.len, info) ∈ (sb.stream a.streamID).dataInFlightMap.entries ∧
      (sb.acknowledgeRange a).2 = (.ok, info.sentTimeNano) ∧
      (sb.acknowledgeRange a).1.size = sb.size - info.data.length ∧
      ∀ j, (sb.acknowledgeRange a).1.stream j = if j = a.streamID then
        { sb.stream a.streamID with dataInFlightMap :=
          (sb.stream a.streamID).dataInFlightMap.erase (createPacketKey a.offset a.len) } else sb.stream j := by
  unfold acknowledgeRange
  cases hg : sb.streams.get? a.streamID with
  | none => exact .inl ⟨.noStream, rfl, by decide⟩
  | some s =>
    have hk : sb.stream a.streamID = s := by simp [stream, hg]
    dsimp only
    cases hi : s.dataInFlightMap.get? (createPacketKey a.offset a.len) with
    | none => exact .inl ⟨.dup, rfl, by decide⟩
    | some info =>
      rw [hk]
      exact .inr ⟨info, InsertionMap.get?_eq_some.mp hi, rfl, rfl, fun j => stream_put sb a.streamID j _⟩

/-- The send side of the stream is closed, and acked up to its close offset. -/
def fullyAcked (sb : SendBuffer) (streamID : Nat) : Bool :=
  (sb.getOffsetClosedAt streamID).elim false fun closeOffset =>
    decide (sb.getOffsetAcked streamID ≥ closeOffset)

/-- The send buffer behind the ack of a packet, if it carries one. -/
def afterAck (sb : SendBuffer) : Option Ack → SendBuffer
  | some ack => (sb.acknowledgeRange ack).1
  | none => sb

/-- The ack of the packet removes an entry. -/
def ackHits (sb : SendBuffer) : Option Ack → Bool
  | some ack => decide ((sb.acknowledgeRange ack).2.1 = .ok)
  | none => false

/-- A packet with this ack marks its stream closed. -/
def ackCloses (sb : SendBuffer) (streamID : Nat) (ack : Option Ack) : Bool :=
  ack.isSome && (sb.afterAck ack).fullyAcked streamID

end SendBuffer

end Qotp
