import Qotp.Wire.Codec

namespace Qotp

open Framework

def protoVersion : UInt8 := 0
def minProtoSize : Nat := 8

structure Ack where
  streamID : Nat
  offset : Nat
  len : Nat
  rcvWnd : Nat
  deriving DecidableEq, Repr

structure PayloadHeader where
  isClose : Bool := false
  ack : Option Ack := none
  streamID : Nat := 0
  streamOffset : Nat := 0
  deriving DecidableEq, Repr

/-- Eight substeps per power of two; `Nat.log2` is `bits.Len64 - 1`. -/
def encodeRcvWindow (actualBytes : Nat) : UInt8 :=
  if actualBytes = 0 then 0
  else if actualBytes ≤ 255 then 1
  else
    let highBit := Nat.log2 actualBytes
    let lowerBits := (actualBytes >>> (highBit - 3)) &&& 7
    let encoded := (highBit - 8) * 8 + lowerBits + 2
    if encoded > 255 then 255 else UInt8.ofNat encoded

def decodeRcvWindow (encoded : UInt8) : Nat :=
  if encoded = 0 then 0
  else if encoded = 1 then 128
  else
    let adjusted := encoded.toNat - 2
    let highBit := adjusted / 8 + 8
    let subStep := adjusted % 8
    let base := 2 ^ highBit
    base + subStep * (base / 8)

def calcProtoOverhead (isAck isExtend isEmptyDataHeader : Bool) : Nat :=
  let extBytes := if isExtend then 6 else 3
  1 + (if isEmptyDataHeader then 0 else 4 + extBytes) + (if isAck then 4 + extBytes + 2 + 1 else 0)

/-- The two type bits: CLOSE and ACK presence. -/
def typeBits (isClose isAck : Bool) : UInt8 :=
  match isClose, isAck with
  | true, true => 0b10
  | true, false => 0b11
  | false, true => 0b00
  | false, false => 0b01

def ackSection (a : Ack) (isExtend : Bool) : Bytes :=
  putUint32 a.streamID ++ putOffsetVarint a.offset isExtend ++ putUint16 a.len ++
    [encodeRcvWindow a.rcvWnd]

/-- `userData` distinguishes nil (`none`) from the empty slice. The buffer has
the predicted size; what the writes do not reach stays zero. -/
def encodePayload (p : PayloadHeader) (userData : Option Bytes) : Bytes × Nat :=
  let isAck := p.ack.isSome
  let isEmptyDataHeader := !p.isClose && isAck && userData.isNone
  let isExtend := decide (p.streamOffset > 0xffffff) ||
    (match p.ack with | some a => decide (a.offset > 0xffffff) | none => false)
  let header := protoVersion ||| (typeBits p.isClose isAck <<< 5) |||
    (if isExtend then (1 : UInt8) <<< 7 else 0)
  let overhead := calcProtoOverhead isAck isExtend isEmptyDataHeader
  let ackPart := match p.ack with | some a => ackSection a isExtend | none => []
  let dataPart :=
    if isEmptyDataHeader then []
    else putUint32 p.streamID ++ putOffsetVarint p.streamOffset isExtend ++ userData.getD []
  let written := [header] ++ ackPart ++ dataPart
  (written ++ List.replicate (overhead + (userData.getD []).length - written.length) 0,
    written.length)

/-- The ACK section at the front of `data`, as the decoder reads it. -/
def decodeAck (data : Bytes) (isExtend : Bool) : Option (Ack × Nat) := do
  let streamID ← uint32 (data.drop 1)
  let offset ← offsetVarint (data.drop 5) isExtend
  let at2 := 5 + offsetSize isExtend
  let len ← uint16 (data.drop at2)
  let wnd ← data[at2 + 2]?
  some (⟨streamID, offset, len, decodeRcvWindow wnd⟩, at2 + 3)

/-- The outer `none` is a run-time panic, `error` a returned error. -/
def decodePayload (data : Bytes) : Option (Except String (PayloadHeader × Option Bytes)) :=
  if data.length < minProtoSize then
    some (.error "payload Size below minimum of 8 bytes")
  else do
    let header ← data[0]?
    let typeFlag := (header >>> 5) &&& 0b11
    let isExtend := (header &&& ((1 : UInt8) <<< 7)) != 0
    if header &&& 0b11111 ≠ protoVersion then
      return .error "unsupported protocol version"
    let isAck := typeFlag == 0b00 || typeFlag == 0b10
    let isClose := typeFlag == 0b10 || typeFlag == 0b11
    let isEmptyDataHeader := isAck && decide (data.length < 18)
    if data.length < calcProtoOverhead isAck isExtend isEmptyDataHeader then
      return .error "payload size below minimum"
    let (ack, offset) ←
      if isAck then (decodeAck data isExtend).map fun r => (some r.1, r.2)
      else some (none, 1)
    if isEmptyDataHeader then
      return .ok ({ isClose := isClose, ack := ack }, none)
    let streamID ← uint32 (data.drop offset)
    let streamOffset ← offsetVarint (data.drop (offset + 4)) isExtend
    let rest := offset + 4 + offsetSize isExtend
    return .ok (⟨isClose, ack, streamID, streamOffset⟩,
      some (if data.length > rest then data.drop rest else []))

end Qotp
