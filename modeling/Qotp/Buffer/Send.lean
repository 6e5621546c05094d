import Qotp.Crypto.Primitives
import Qotp.Framework.InsertionMap
import Qotp.Framework.Slice
import Qotp.Framework.Word

namespace Qotp

open Framework

inductive InsertStatus where
  | ok
  | sndFull
  | noData
  deriving DecidableEq, Repr

inductive AckStatus where
  | ok
  | noStream
  | dup
  deriving DecidableEq, Repr

/-- Offset in the upper 48 bits, length in the lower 16. -/
abbrev PacketKey := Nat

def createPacketKey (offset length : Nat) : PacketKey := ((offset <<< 16) % 2 ^ 64) ||| length

namespace PacketKey

def offset (p : PacketKey) : Nat := p >>> 16

def length (p : PacketKey) : Nat := p &&& 0xFFFF

end PacketKey

structure SendInfo where
  data : Bytes
  sentTimeNano : Nat
  sentNr : Nat
  pingRequest : Bool := false
  deriving DecidableEq, Repr

/-- One stream's unsent and unacknowledged bytes. -/
structure StreamBuffer where
  dataInFlightMap : InsertionMap PacketKey SendInfo := .empty
  queuedData : Bytes := []
  bytesSentOffset : Nat := 0
  pingRequest : Bool := false
  closeAtOffset : Option Nat := none

structure SendBuffer where
  streams : InsertionMap Nat StreamBuffer := .empty
  capacity : Int
  size : Int := 0

def newSendInfo (data : Bytes) (nowNano : Nat) (isPing : Bool) : SendInfo := ⟨data, nowNano, 1, isPing⟩

/-- Room for user data in one packet; an InitSnd carries none. -/
def maxDataFor (msgType : CryptoMsgType) (ack : Option Ack) (mtu : Int) (offset : Nat) : Int :=
  if msgType ≠ .initSnd then mtu - calcCryptoOverheadWithData msgType ack offset else 0

def maxRetry : Nat := 5
def rtoBackoffPct : Nat := 200

def backoff (rtoNano rtoNr : Nat) : Except String Nat :=
  if rtoNr = 0 then .error "backoff requires a positive rto number"
  else if rtoNr > maxRetry then .error s!"max retry attempts: {rtoNr} exceeded limit {maxRetry}"
  else .ok ((fun r => mul64 r rtoBackoffPct / 100)^[rtoNr - 1] rtoNano)

namespace StreamBuffer

def queue (s : StreamBuffer) (chunk : Bytes) : StreamBuffer :=
  { s with queuedData := s.queuedData ++ chunk }

def queuePing (s : StreamBuffer) : StreamBuffer := { s with pingRequest := true }

def close (s : StreamBuffer) : StreamBuffer :=
  match s.closeAtOffset with
  | some _ => s
  | none => { s with closeAtOffset := some (s.bytesSentOffset + s.queuedData.length) }

/-- Packet data (`none` is nil), its offset and the CLOSE flag. -/
abbrev Packet := Option Bytes × Nat × Bool

/-- A ping, an empty CLOSE, or the next bytes of the queue. -/
def readyToSend (s : StreamBuffer) (msgType : CryptoMsgType) (ack : Option Ack) (mtu : Int)
    (nowNano : Nat) : StreamBuffer × Packet :=
  if s.pingRequest then
    let key := createPacketKey s.bytesSentOffset 0
    ({ s with pingRequest := false,
              dataInFlightMap := s.dataInFlightMap.put key (newSendInfo [] nowNano true) },
      some [], 0, false)
  else if s.queuedData.length = 0 then
    match s.closeAtOffset with
    | none => (s, none, 0, false)
    | some closeAt =>
      if s.bytesSentOffset < closeAt then (s, none, 0, false)
      else
        let key := createPacketKey s.bytesSentOffset 0
        ({ s with dataInFlightMap := s.dataInFlightMap.put key (newSendInfo [] nowNano false) },
          some [], key.offset, true)
  else
    let maxData := maxDataFor msgType ack mtu s.bytesSentOffset
    let length := min (toUint64 maxData) s.queuedData.length
    let packetData := s.queuedData.take length
    let key := createPacketKey s.bytesSentOffset (length % 2 ^ 16)
    let sent := s.bytesSentOffset + length
    ({ s with dataInFlightMap := s.dataInFlightMap.put key (newSendInfo packetData nowNano false),
              queuedData := s.queuedData.drop length,
              bytesSentOffset := sent },
      some packetData, key.offset, (s.closeAtOffset.elim false fun closeAt => decide (sent ≥ closeAt)))

/-- The oldest unacknowledged packet, once its timer has expired; it is split
when it no longer fits. -/
def readyToRetransmit (s : StreamBuffer) (ack : Option Ack) (mtu : Int) (expectedRtoNano : Nat)
    (msgType : CryptoMsgType) (nowNano : Nat) : Option (StreamBuffer × Except String Packet) :=
  match s.dataInFlightMap.first with
  | none => some (s, .ok (none, 0, false))
  | some (packetKey, rtoData) =>
    match backoff expectedRtoNano rtoData.sentNr with
    | .error e => some (s, .error e)
    | .ok expectedRtoBackoffNano =>
      if sub64 nowNano rtoData.sentTimeNano ≤ expectedRtoBackoffNano then
        some (s, .ok (none, 0, false))
      else if rtoData.pingRequest then
        some ({ s with dataInFlightMap := s.dataInFlightMap.erase packetKey }, .ok (none, 0, false))
      else
        let data := rtoData.data
        let length := data.length % 2 ^ 16
        let maxData := maxDataFor msgType ack mtu packetKey.offset
        if length ≤ toUint16 maxData then
          let resent := { rtoData with sentTimeNano := nowNano, sentNr := rtoData.sentNr + 1 }
          some ({ s with dataInFlightMap := s.dataInFlightMap.put packetKey resent },
            .ok (some data, packetKey.offset,
              s.closeAtOffset.elim false fun closeAt => decide (packetKey.offset + length ≥ closeAt)))
        else if maxData < 0 then none
        else do
          let leftData ← sliceTo? data maxData.toNat
          let rightData ← sliceFrom? data maxData.toNat
          let leftKey := createPacketKey packetKey.offset (toUint16 maxData)
          let leftInfo : SendInfo := ⟨leftData, nowNano, rtoData.sentNr + 1, false⟩
          let rightKey := createPacketKey (packetKey.offset + maxData.toNat) (rightData.length % 2 ^ 16)
          let rightInfo := { rtoData with data := rightData }
          -- the SendInfo is changed through its pointer before the map renames its key
          let inFlight := (s.dataInFlightMap.put leftKey leftInfo).put packetKey rightInfo
          some ({ s with dataInFlightMap := (inFlight.replace packetKey rightKey rightInfo).1 },
            .ok (some leftData, packetKey.offset, false))

end StreamBuffer

namespace SendBuffer

def new (capacity : Int) : SendBuffer := { capacity := capacity }

def stream (sb : SendBuffer) (streamID : Nat) : StreamBuffer := (sb.streams.get? streamID).getD {}

/-- `getOrCreateStream` followed by a change of the stream. -/
def update (sb : SendBuffer) (streamID : Nat) (f : StreamBuffer → StreamBuffer) : SendBuffer :=
  { sb with streams := sb.streams.put streamID (f (sb.stream streamID)) }

/-- Queues as many bytes as the shared capacity allows and reports how many. -/
def queueData (sb : SendBuffer) (streamID : Nat) (userData : Bytes) :
    Option (SendBuffer × Nat × InsertStatus) :=
  if userData.length = 0 then some (sb, 0, .noData)
  else
    let remaining := sb.capacity - sb.size
    if remaining = 0 then some (sb, 0, .sndFull)
    else if (userData.length : Int) > remaining then
      if remaining < 0 then none
      else
        let chunk := userData.take remaining.toNat
        some ({ sb.update streamID (·.queue chunk) with size := sb.size + chunk.length },
          chunk.length, .sndFull)
    else
      some ({ sb.update streamID (·.queue userData) with size := sb.size + userData.length },
        userData.length, .ok)

def queuePing (sb : SendBuffer) (streamID : Nat) : SendBuffer := sb.update streamID (·.queuePing)

def close (sb : SendBuffer) (streamID : Nat) : SendBuffer := sb.update streamID (·.close)

def readyToSend (sb : SendBuffer) (streamID : Nat) (msgType : CryptoMsgType) (ack : Option Ack)
    (mtu : Int) (nowNano : Nat) : SendBuffer × StreamBuffer.Packet :=
  match sb.streams.get? streamID with
  | none => (sb, none, 0, false)
  | some s =>
    let r := s.readyToSend msgType ack mtu nowNano
    ({ sb with streams := sb.streams.put streamID r.1 }, r.2)

def readyToRetransmit (sb : SendBuffer) (streamID : Nat) (ack : Option Ack) (mtu : Int)
    (expectedRtoNano : Nat) (msgType : CryptoMsgType) (nowNano : Nat) :
    Option (SendBuffer × Except String StreamBuffer.Packet) :=
  match sb.streams.get? streamID with
  | none => some (sb, .ok (none, 0, false))
  | some s => (s.readyToRetransmit ack mtu expectedRtoNano msgType nowNano).map fun r =>
    ({ sb with streams := sb.streams.put streamID r.1 }, r.2)

/-- Removes the entry with exactly the acknowledged key. -/
def acknowledgeRange (sb : SendBuffer) (ack : Ack) : SendBuffer × AckStatus × Nat :=
  match sb.streams.get? ack.streamID with
  | none => (sb, .noStream, 0)
  | some s =>
    let key := createPacketKey ack.offset ack.len
    match s.dataInFlightMap.get? key with
    | none => (sb, .dup, 0)
    | some info =>
      ({ sb with
          streams := sb.streams.put ack.streamID
            { s with dataInFlightMap := s.dataInFlightMap.erase key },
          size := sb.size - info.data.length }, .ok, info.sentTimeNano)

def getOffsetAcked (sb : SendBuffer) (streamID : Nat) : Nat :=
  match sb.streams.get? streamID with
  | none => 0
  | some s =>
    match s.dataInFlightMap.first with
    | some (firstKey, _) => PacketKey.offset firstKey
    | none => s.bytesSentOffset

def getOffsetClosedAt (sb : SendBuffer) (streamID : Nat) : Option Nat :=
  (sb.streams.get? streamID).bind (·.closeAtOffset)

end SendBuffer

end Qotp
