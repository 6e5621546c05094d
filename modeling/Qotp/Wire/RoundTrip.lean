import Qotp.Wire.Proto

namespace Qotp

open Framework

/-- A field is read back from the front of whatever follows it. -/
theorem getLE?_putLE_append (n v : Nat) (rest : Bytes) :
    getLE? n (putLE n v ++ rest) = some (v % 256 ^ n) := by
  have hlen : n ≤ (putLE n v ++ rest).length := by simp
  rw [getLE?, if_pos hlen, List.take_append_of_le_length (by simp),
    List.take_of_length_le (by simp), getLE_putLE]

/-- An offset survives if it fits the width that was chosen for it. -/
theorem offsetVarint_put {offset : Nat} {isExtend : Bool} (h : offset > 0xffffff → isExtend = true)
    (rest : Bytes) : offsetVarint (putOffsetVarint offset isExtend ++ rest) isExtend = some (offset % 2 ^ 48) := by
  cases isExtend with
  | true => exact getLE?_putLE_append 6 offset rest
  | false =>
    have hsmall : offset ≤ 0xffffff := not_lt.mp fun hlt => absurd (h hlt) nofun
    have hread : offsetVarint (putOffsetVarint offset false ++ rest) false = some (offset % 256 ^ 3) :=
      getLE?_putLE_append 3 offset rest
    rw [hread]
    congr 1
    omega

/-- An ack as the other end reads it: fields at their width, the window rounded. -/
def wireAck (a : Ack) : Ack :=
  ⟨a.streamID % 2 ^ 32, a.offset % 2 ^ 48, a.len % 2 ^ 16, decodeRcvWindow (encodeRcvWindow a.rcvWnd)⟩

theorem ackSection_length (a : Ack) (isExtend : Bool) :
    (ackSection a isExtend).length = 7 + offsetSize isExtend := by
  simp only [ackSection, List.length_append, putOffsetVarint_length, putUint32, putUint16, putLE_length,
    List.length_singleton]
  omega

/-- The reader finds its fields behind the header byte, whatever follows the section. -/
theorem decodeAck_section {a : Ack} {isExtend : Bool} (h : a.offset > 0xffffff → isExtend = true)
    (header : UInt8) (rest : Bytes) :
    decodeAck ([header] ++ ackSection a isExtend ++ rest) isExtend =
      some (wireAck a, 8 + offsetSize isExtend) := by
  have h4 : (putUint32 a.streamID).length = 4 := putLE_length 4 _
  have h2 : (putUint16 a.len).length = 2 := putLE_length 2 _
  have ho := putOffsetVarint_length a.offset isExtend
  generalize hdata : [header] ++ ackSection a isExtend ++ rest = data
  have hid : data.drop 1 = putUint32 a.streamID ++ (putOffsetVarint a.offset isExtend ++ putUint16 a.len ++
      [encodeRcvWindow a.rcvWnd] ++ rest) := by
    simp [← hdata, ackSection]
  have hoff : data.drop 5 = putOffsetVarint a.offset isExtend ++ (putUint16 a.len ++
      [encodeRcvWindow a.rcvWnd] ++ rest) := by
    rw [← hdata, show [header] ++ ackSection a isExtend ++ rest = ([header] ++ putUint32 a.streamID) ++
      (putOffsetVarint a.offset isExtend ++ (putUint16 a.len ++ [encodeRcvWindow a.rcvWnd] ++ rest)) by
        simp [ackSection]]
    exact List.drop_left' (by simp [h4])
  have hlen : data.drop (5 + offsetSize isExtend) = putUint16 a.len ++ ([encodeRcvWindow a.rcvWnd] ++ rest) := by
    rw [← List.drop_drop, hoff, List.append_assoc (putUint16 a.len)]
    exact List.drop_left' ho
  have hwnd : data[5 + offsetSize isExtend + 2]? = some (encodeRcvWindow a.rcvWnd) := by
    rw [← List.getElem?_drop, hlen, List.getElem?_append_right h2.le, h2]
    rfl
  have r1 : uint32 (data.drop 1) = some (a.streamID % 2 ^ 32) := by
    rw [hid]
    exact getLE?_putLE_append 4 _ _
  have r2 : offsetVarint (data.drop 5) isExtend = some (a.offset % 2 ^ 48) := by
    rw [hoff]
    exact offsetVarint_put h _
  have r3 : uint16 (data.drop (5 + offsetSize isExtend)) = some (a.len % 2 ^ 16) := by
    rw [hlen]
    exact getLE?_putLE_append 2 _ _
  simp only [decodeAck, r1, r2, r3, hwnd, Option.bind_eq_bind, Option.bind_some, wireAck, Option.some.injEq,
    Prod.mk.injEq, true_and]
  omega

/-- A packet without CLOSE that only carries an ack has no data section. -/
def ackOnly (p : PayloadHeader) (u : Option Bytes) : Bool := !p.isClose && p.ack.isSome && u.isNone

/-- What the other end reads of a packet: of a bare ack not even the stream. -/
def wireImage (p : PayloadHeader) (u : Option Bytes) : PayloadHeader × Option Bytes :=
  if ackOnly p u then ({ ack := p.ack.map wireAck }, none)
  else (⟨p.isClose, p.ack.map wireAck, p.streamID % 2 ^ 32, p.streamOffset % 2 ^ 48⟩, some (u.getD []))

/-- The offsets are written in 48 bits if one of them does not fit into 24. -/
def needsExtend (p : PayloadHeader) : Bool :=
  decide (p.streamOffset > 0xffffff) ||
    (match p.ack with | some a => decide (a.offset > 0xffffff) | none => false)

/-- The header byte of a packet. -/
def payloadHeaderByte (p : PayloadHeader) : UInt8 :=
  protoVersion ||| (typeBits p.isClose p.ack.isSome <<< 5) ||| (if needsExtend p then (1 : UInt8) <<< 7 else 0)

def ackPart (p : PayloadHeader) : Bytes :=
  match p.ack with
  | some a => ackSection a (needsExtend p)
  | none => []

def dataPart (p : PayloadHeader) (u : Option Bytes) : Bytes :=
  if ackOnly p u then []
  else putUint32 p.streamID ++ putOffsetVarint p.streamOffset (needsExtend p) ++ u.getD []

theorem ackPart_length (p : PayloadHeader) :
    (ackPart p).length = if p.ack.isSome then 7 + offsetSize (needsExtend p) else 0 := by
  unfold ackPart
  cases p.ack with
  | none => rfl
  | some a => exact ackSection_length a _

theorem dataPart_length (p : PayloadHeader) (u : Option Bytes) :
    (dataPart p u).length =
      if ackOnly p u then 0 else 4 + offsetSize (needsExtend p) + (u.getD []).length := by
  unfold dataPart
  split_ifs
  · rfl
  · simp only [List.length_append, putOffsetVarint_length, putUint32, putLE_length]

/-- The predicted size is the written one, so nothing is left over. -/
theorem encodePayload_eq (p : PayloadHeader) (u : Option Bytes) :
    (encodePayload p u).1 = [payloadHeaderByte p] ++ ackPart p ++ dataPart p u := by
  have hlen : ([payloadHeaderByte p] ++ ackPart p ++ dataPart p u).length =
      calcProtoOverhead p.ack.isSome (needsExtend p) (ackOnly p u) + (u.getD []).length := by
    have hnil : ackOnly p u = true → u.getD [] = [] := by
      cases u <;> simp [ackOnly]
    simp only [List.length_append, ackPart_length, dataPart_length, List.length_singleton, calcProtoOverhead,
      offsetSize]
    split_ifs with h1 h2 h3 <;> simp_all <;> omega
  have hpad : (encodePayload p u).1 = ([payloadHeaderByte p] ++ ackPart p ++ dataPart p u) ++ List.replicate
      (calcProtoOverhead p.ack.isSome (needsExtend p) (ackOnly p u) + (u.getD []).length -
        ([payloadHeaderByte p] ++ ackPart p ++ dataPart p u).length) 0 := rfl
  rw [hpad, hlen, Nat.sub_self, List.replicate_zero, List.append_nil]

/-- The shortest payload is a header byte with a stream id and an offset, or with an ack. -/
theorem encodePayload_length_ge (p : PayloadHeader) (u : Option Bytes) : 8 ≤ (encodePayload p u).1.length := by
  rw [encodePayload_eq, List.length_append, List.length_append, ackPart_length, dataPart_length, List.length_singleton]
  have hoff : 3 ≤ offsetSize (needsExtend p) := by
    unfold offsetSize
    split_ifs <;> omega
  by_cases ha : ackOnly p u = true
  · have hack : p.ack.isSome = true := by
      simp only [ackOnly, Bool.and_eq_true] at ha
      exact ha.1.2
    rw [if_pos hack]
    omega
  · rw [if_neg ha]
    omega

/-- The flags of the header byte are the ones it was built from. -/
theorem payloadHeaderByte_flags (p : PayloadHeader) :
    payloadHeaderByte p &&& 0b11111 = protoVersion ∧
      ((payloadHeaderByte p &&& ((1 : UInt8) <<< 7)) != 0) = needsExtend p ∧
      (((payloadHeaderByte p >>> 5) &&& 0b11) == 0b00 || ((payloadHeaderByte p >>> 5) &&& 0b11) == 0b10) =
        p.ack.isSome ∧
      (((payloadHeaderByte p >>> 5) &&& 0b11) == 0b10 || ((payloadHeaderByte p >>> 5) &&& 0b11) == 0b11) =
        p.isClose := by
  unfold payloadHeaderByte
  generalize p.isClose = isClose, p.ack.isSome = isAck, needsExtend p = isExtend
  revert isClose isAck isExtend
  decide

theorem needsExtend_ack {p : PayloadHeader} {a : Ack} (ha : p.ack = some a) (h : a.offset > 0xffffff) :
    needsExtend p = true := by
  simp [needsExtend, ha, h]

theorem needsExtend_data {p : PayloadHeader} (h : p.streamOffset > 0xffffff) : needsExtend p = true := by
  simp [needsExtend, h]

/-- Where the data section starts. -/
def dataStart (p : PayloadHeader) : Nat := 1 + (ackPart p).length

theorem decodeAck_part {p : PayloadHeader} {a : Ack} (ha : p.ack = some a) (rest : Bytes) :
    decodeAck ([payloadHeaderByte p] ++ ackPart p ++ rest) (needsExtend p) = some (wireAck a, dataStart p) := by
  have hpart : ackPart p = ackSection a (needsExtend p) := by simp [ackPart, ha]
  rw [hpart, decodeAck_section (needsExtend_ack ha), dataStart, hpart, ackSection_length]
  simp only [Option.some.injEq, Prod.mk.injEq, true_and]
  omega

theorem ackOnly_isSome (p : PayloadHeader) (u : Option Bytes) : ackOnly p u = true → p.ack.isSome = true := by
  simp only [ackOnly, Bool.and_eq_true]
  exact fun h => h.1.2

/-- A bare ack is recognised by its length: it is too short for a data section. -/
theorem ackOnly_of_length (p : PayloadHeader) (u : Option Bytes) :
    (p.ack.isSome && decide (([payloadHeaderByte p] ++ ackPart p ++ dataPart p u).length < 18)) = ackOnly p u := by
  have hack := ackOnly_isSome p u
  simp only [List.length_append, ackPart_length, dataPart_length, List.length_singleton, offsetSize]
  cases hs : p.ack.isSome <;> cases ho : ackOnly p u <;> cases needsExtend p <;> simp_all <;> omega

theorem calcProtoOverhead_le_length (p : PayloadHeader) (u : Option Bytes) :
    minProtoSize ≤ ([payloadHeaderByte p] ++ ackPart p ++ dataPart p u).length ∧
      calcProtoOverhead p.ack.isSome (needsExtend p) (ackOnly p u) ≤
        ([payloadHeaderByte p] ++ ackPart p ++ dataPart p u).length := by
  have hack := ackOnly_isSome p u
  simp only [List.length_append, ackPart_length, dataPart_length, List.length_singleton, offsetSize, minProtoSize,
    calcProtoOverhead]
  cases hs : p.ack.isSome <;> cases ho : ackOnly p u <;> cases needsExtend p <;> simp_all <;> omega

/-- The three fields of the data section, read from where it starts. -/
theorem read_dataPart {p : PayloadHeader} {u : Option Bytes} (h : ackOnly p u = false) {data : Bytes}
    (hdata : data = [payloadHeaderByte p] ++ ackPart p ++ dataPart p u) :
    uint32 (data.drop (dataStart p)) = some (p.streamID % 2 ^ 32) ∧
      offsetVarint (data.drop (dataStart p + 4)) (needsExtend p) = some (p.streamOffset % 2 ^ 48) ∧
      data.drop (dataStart p + 4 + offsetSize (needsExtend p)) = u.getD [] := by
  have hid : data.drop (dataStart p) = putUint32 p.streamID ++
      (putOffsetVarint p.streamOffset (needsExtend p) ++ u.getD []) := by
    rw [hdata, List.drop_left' (by simp [dataStart, Nat.add_comm])]
    simp [dataPart, h]
  have hoff : data.drop (dataStart p + 4) = putOffsetVarint p.streamOffset (needsExtend p) ++ u.getD [] := by
    rw [← List.drop_drop, hid]
    exact List.drop_left' (putLE_length 4 _)
  refine ⟨?_, ?_, ?_⟩
  · rw [hid]
    exact getLE?_putLE_append 4 _ _
  · rw [hoff]
    exact offsetVarint_put needsExtend_data _
  · rw [← List.drop_drop, hoff]
    exact List.drop_left' (putOffsetVarint_length _ _)

/-- The other end reads the packet that was written, up to the width of its fields. -/
theorem decodePayload_encodePayload (p : PayloadHeader) (u : Option Bytes) :
    decodePayload (encodePayload p u).1 = some (.ok (wireImage p u)) := by
  obtain ⟨hver, hext, hack, hclose⟩ := payloadHeaderByte_flags p
  obtain ⟨hmin, hover⟩ := calcProtoOverhead_le_length p u
  have hempty := ackOnly_of_length p u
  have hsect := fun a (ha : p.ack = some a) => decodeAck_part ha (dataPart p u)
  have hread := fun h => read_dataPart (p := p) (u := u) h rfl
  have hhead : ([payloadHeaderByte p] ++ ackPart p ++ dataPart p u)[0]? = some (payloadHeaderByte p) := by simp
  rw [encodePayload_eq]
  generalize [payloadHeaderByte p] ++ ackPart p ++ dataPart p u = data at *
  unfold decodePayload
  rw [if_neg (not_lt.mpr hmin), hhead]
  simp only [Option.bind_eq_bind, Option.bind_some, hver, hext, hack, hclose, hempty, ne_eq, not_true_eq_false,
    if_false, not_lt.mpr hover]
  cases ho : ackOnly p u with
  | true =>
    obtain ⟨a, ha⟩ := Option.isSome_iff_exists.mp (ackOnly_isSome p u ho)
    have hc : p.isClose = false := by
      simp only [ackOnly, Bool.and_eq_true, Bool.not_eq_true'] at ho
      exact ho.1.1
    simp [wireImage, ho, hc, ha, hsect a ha]
  | false =>
    obtain ⟨h1, h2, h3⟩ := hread ho
    have hrest : (if data.length > dataStart p + 4 + offsetSize (needsExtend p) then u.getD [] else []) =
        u.getD [] := by
      split_ifs with hlt
      · rfl
      · rw [← h3, List.drop_eq_nil_of_le (not_lt.mp hlt)]
    cases ha : p.ack with
    | none =>
      have hs : dataStart p = 1 := by simp [dataStart, ackPart, ha]
      rw [hs] at h1 h2 h3 hrest
      simp only [Option.isSome_none, Bool.false_eq_true, if_false, Option.bind_some, h1, h2, h3, hrest, wireImage,
        ho, ha]
      rfl
    | some a => simp [h1, h2, h3, hrest, wireImage, ho, ha, hsect a ha]

end Qotp
