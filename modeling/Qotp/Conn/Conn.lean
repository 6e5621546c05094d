import Qotp.Buffer.Send
import Qotp.Buffer.Receive
import Qotp.Conn.Measurement
import Qotp.Crypto.Messages

namespace Qotp

open Framework

def rcvBufferCapacity : Nat := 16 * 1024 * 1024
def sndBufferCapacity : Nat := 16 * 1024 * 1024

structure Stream where
  streamID : Nat
  closedAtNano : Nat := 0
  deriving DecidableEq, Repr

/-- Sets `closedAtNano` of the stream that the table holds under `key`; a stream that was removed has no entry. -/
def markClosed (streams : InsertionMap Nat Stream) (key nowNano : Nat) : InsertionMap Nat Stream :=
  match streams.get? key with
  | some s => streams.put key { s with closedAtNano := nowNano }
  | none => streams

/-- A connection; the listener it points to is passed to the methods that read it. -/
structure Conn (Prv Pub : Type) where
  connId : Nat
  remoteAddr : Nat
  streams : InsertionMap Nat Stream := .empty
  prvKeyEpSnd : Prv
  pubKeyEpRcv : Option Pub
  pubKeyIdRcv : Option Pub
  sharedSecret : Option Bytes := none
  snd : SendBuffer := .new sndBufferCapacity
  rcv : ReceiveBuffer := .new rcvBufferCapacity
  dataInFlight : Int := 0
  rcvWndSize : Nat := rcvBufferCapacity
  isSenderOnInit : Bool
  isWithCryptoOnInit : Bool
  isHandshakeDoneOnRcv : Bool := false
  isInitSentOnSnd : Bool := false
  nextWriteTime : Nat := 0
  snCrypto : Nat := 0
  epochCryptoSnd : Nat := 0
  epochCryptoRcv : Nat := 0
  measurements : Measurements := .new

/-- What a connection reads of its listener. -/
structure ListenerCfg (Prv : Type) where
  prvKeyId : Prv
  mtu : Int

/-- The outcome a socket write is given by the network. -/
abbrev WriteResult := Except String Unit

namespace Conn

variable {Prv Pub : Type} (P : Primitives Prv Pub) (l : ListenerCfg Prv)

def msgType (c : Conn Prv Pub) : CryptoMsgType :=
  if c.isHandshakeDoneOnRcv then .data
  else if c.isWithCryptoOnInit && c.isSenderOnInit then .initCryptoSnd
  else if c.isWithCryptoOnInit && !c.isSenderOnInit then .initCryptoRcv
  else if c.isSenderOnInit then .initSnd
  else .initRcv

/-- `Conn.Stream`: looks the stream up or creates it. -/
def stream (c : Conn Prv Pub) (streamID : Nat) : Conn Prv Pub × Stream :=
  match c.streams.get? streamID with
  | some s => (c, s)
  | none =>
    let s : Stream := { streamID := streamID }
    ({ c with streams := c.streams.put streamID s }, s)

def setClosedAt (c : Conn Prv Pub) (key nowNano : Nat) : Conn Prv Pub :=
  { c with streams := markClosed c.streams key nowNano }

def exhaustedMsg : String := "exhausted 2^95 sn number, cannot continue, you just " ++
  "sent ~5 billion ZettaBytes.\nNow you need to reconnect manually. This " ++
  "is roughly 28 million times all the data humanity has ever created."

/-- The counter update behind every encoded datagram: the sequence number rolls
over into the epoch, and the last epoch reports exhaustion. -/
def advanceSn (c : Conn Prv Pub) (encData : Bytes) : Conn Prv Pub × Except String Bytes :=
  let sn := add64 c.snCrypto 1
  if sn > 2 ^ 48 - 1 then
    if add64 c.epochCryptoSnd 1 > 2 ^ 47 - 1 then ({ c with snCrypto := sn }, .error exhaustedMsg)
    else ({ c with epochCryptoSnd := add64 c.epochCryptoSnd 1, snCrypto := 0 }, .ok encData)
  else ({ c with snCrypto := sn }, .ok encData)

/-- Marks the handshake message as sent, then advances the counters. -/
def finishInit (c : Conn Prv Pub) (r : Except String Bytes) : Conn Prv Pub × Except String Bytes :=
  match r with
  | .error e => (c, .error e)
  | .ok encData => ({ c with isInitSentOnSnd := true } : Conn Prv Pub).advanceSn encData

def encode (c : Conn Prv Pub) (p : PayloadHeader) (userData : Option Bytes)
    (msgType : CryptoMsgType) : Option (Conn Prv Pub × Except String Bytes) :=
  let packetData := (encodePayload p userData).1
  let idKey := P.publicKey l.prvKeyId
  match msgType with
  | .initSnd =>
    (encryptInitSnd P idKey (P.publicKey c.prvKeyEpSnd) l.mtu).map fun r => c.finishInit (.ok r.2)
  | .initCryptoSnd =>
    (encryptInitCryptoSnd P c.pubKeyIdRcv idKey c.prvKeyEpSnd c.snCrypto l.mtu packetData).map
      fun r => c.finishInit (r.map Prod.snd)
  | .initCryptoRcv =>
    (encryptInitCryptoRcv P c.connId c.pubKeyEpRcv c.prvKeyEpSnd c.snCrypto packetData).map c.finishInit
  | .initRcv =>
    (encryptInitRcv P c.connId idKey c.pubKeyEpRcv c.prvKeyEpSnd c.snCrypto packetData).map c.finishInit
  | .data =>
    (encryptData P c.connId c.isSenderOnInit c.sharedSecret c.snCrypto c.epochCryptoSnd packetData).map
      fun r => match r with
        | .error e => (c, .error e)
        | .ok encData => c.advanceSn encData
  | .unknown _ => some (c, .error "unknown message type")

def checkStreamFullyAcked (c : Conn Prv Pub) (streamID : Nat) : Bool :=
  match c.snd.getOffsetClosedAt streamID with
  | none => false
  | some closeOffset => decide (c.snd.getOffsetAcked streamID ≥ closeOffset)

/-- The acknowledgment half of `decode` but for the measurements. The stream that is checked and marked is the
one the header names, not the one of the ack: `streamID` is its id, `key` the key it is stored under. -/
def applyAck (c : Conn Prv Pub) (key streamID : Nat) (ack : Ack) (rawLen nowNano : Nat) : Conn Prv Pub :=
  let (snd, ackStatus, _) := c.snd.acknowledgeRange ack
  let c := { c with snd := snd }
  let c := match ackStatus with
    | .ok => { c with dataInFlight := c.dataInFlight - rawLen }
    | .dup => { c with measurements := c.measurements.onDuplicateAck }
    | .noStream => c
  let c := { c with rcvWndSize := ack.rcvWnd }
  if c.checkStreamFullyAcked streamID then c.setClosedAt key nowNano else c

def decodeAck (c : Conn Prv Pub) (key streamID : Nat) (ack : Option Ack) (rawLen nowNano : Nat) :
    Option (Conn Prv Pub) :=
  match ack with
  | none => some c
  | some ack =>
    let (_, ackStatus, sentTimeNano) := c.snd.acknowledgeRange ack
    let c := c.applyAck key streamID ack rawLen nowNano
    if nowNano > sentTimeNano ∧ ackStatus = .ok then
      (c.measurements.updateMeasurements (sub64 nowNano sentTimeNano) ack.len nowNano).map
        fun m => { c with measurements := m }
    else some c

/-- The data half: nil user data without CLOSE is a bare ack. -/
def decodeData (c : Conn Prv Pub) (streamID : Nat) (p : PayloadHeader) (userData : Option Bytes) (nowNano : Nat) :
    Option (Conn Prv Pub) :=
  match userData with
  | some (b :: bs) =>
    (c.rcv.insert streamID p.streamOffset nowNano (b :: bs)).map fun r => { c with rcv := r.1 }
  | some [] => some { c with rcv := (c.rcv.emptyInsert streamID p.streamOffset).1 }
  | none =>
    if p.isClose then some { c with rcv := (c.rcv.emptyInsert streamID p.streamOffset).1 } else some c

/-- A CLOSE packet closes both directions: the receive side at the offset the
packet starts at, the send side at its current end. -/
def decodeClose (c : Conn Prv Pub) (streamID : Nat) (p : PayloadHeader) : Conn Prv Pub :=
  if p.isClose then
    { c with rcv := c.rcv.close streamID p.streamOffset, snd := c.snd.close streamID }
  else c

/-- `Conn.decode`. The header names the key of a stream; behind the lookup the buffers are addressed by the id that
the stored stream carries, which is another one once `cleanupStream` has overwritten it. -/
def decode (c : Conn Prv Pub) (p : PayloadHeader) (userData : Option Bytes) (rawLen nowNano : Nat) :
    Option (Conn Prv Pub) :=
  let (c, s) := c.stream p.streamID
  (c.decodeAck p.streamID s.streamID p.ack rawLen nowNano).bind fun c =>
    (c.decodeData s.streamID p userData nowNano).map fun c => c.decodeClose s.streamID p

/-- What `Flush` reports: user bytes sent and the pacing delay. -/
abbrev FlushResult := Except String (Nat × Nat)

/-- One datagram on its way to the socket. -/
structure Outgoing where
  header : PayloadHeader
  userData : Option Bytes
  msgType : CryptoMsgType
  encData : Bytes

def sendPacket (c : Conn Prv Pub) (streamID : Nat) (ack : Option Ack) (splitData : Bytes)
    (offset : Nat) (isClose : Bool) (msgType : CryptoMsgType) (nowNano : Nat)
    (trackInFlight : Bool) (write : WriteResult) :
    Option (Conn Prv Pub × List Outgoing × FlushResult) := do
  let p : PayloadHeader := ⟨isClose, ack, streamID, offset⟩
  let (c, enc) ← c.encode P l p (some splitData) msgType
  match enc with
  | .error e => return (c, [], .error e)
  | .ok encData =>
    match write with
    | .error e => return (c, [], .error e)
    | .ok _ =>
      let packetLen := splitData.length
      let c := if trackInFlight then { c with dataInFlight := c.dataInFlight + packetLen } else c
      let pacingNano := c.measurements.calcPacing (if trackInFlight then encData.length else packetLen)
      return ({ c with nextWriteTime := add64 nowNano pacingNano },
        [⟨p, some splitData, msgType, encData⟩], .ok (packetLen, pacingNano))

def writeAck (c : Conn Prv Pub) (streamID : Nat) (ack : Option Ack) (nowNano : Nat)
    (write : WriteResult) : Option (Conn Prv Pub × List Outgoing × FlushResult) := do
  let p : PayloadHeader := { isClose := c.checkStreamFullyAcked streamID, ack := ack, streamID := streamID }
  let msgType := c.msgType
  let (c, enc) ← c.encode P l p none msgType
  match enc with
  | .error e => return (c, [], .error e)
  | .ok encData =>
    match write with
    | .error e => return (c, [], .error e)
    | .ok _ =>
      let pacingNano := c.measurements.calcPacing encData.length
      return ({ c with nextWriteTime := add64 nowNano pacingNano },
        [⟨p, none, msgType, encData⟩], .ok (0, pacingNano))

/-- The next pending ack, with the window it advertises. -/
def takeAck (c : Conn Prv Pub) : Conn Prv Pub × Option Ack :=
  let r := c.rcv.getSndAck
  let c := { c with rcv := r.1 }
  (c, r.2.map fun ack => { ack with rcvWnd := sub64 (toUint64 c.rcv.capacity) (toUint64 c.rcv.size) })

/-- The part of `Flush` behind the retransmission: a first send, an ack, or nothing. -/
def flushSend (c : Conn Prv Pub) (streamID : Nat) (ack : Option Ack) (nowNano : Nat)
    (write : WriteResult) : Option (Conn Prv Pub × List Outgoing × FlushResult) :=
  let msgType := c.msgType
  if c.isHandshakeDoneOnRcv || !c.isInitSentOnSnd then
    let (snd, splitData, offset, isClose) := c.snd.readyToSend streamID msgType ack l.mtu nowNano
    let c := { c with snd := snd }
    match splitData with
    | some splitData =>
      c.sendPacket P l streamID ack splitData offset isClose msgType nowNano true write
    | none =>
      if ack.isSome || !c.isInitSentOnSnd then c.writeAck P l streamID ack nowNano write
      else some (c, [], .ok (0, minDeadLine))
  else if ack.isSome then c.writeAck P l streamID ack nowNano write
  else some (c, [], .ok (0, minDeadLine))

/-- `Conn.Flush` for one stream: pacing, window, retransmission, first send, ack. -/
def flush (c : Conn Prv Pub) (streamID nowNano : Nat) (write : WriteResult) :
    Option (Conn Prv Pub × List Outgoing × FlushResult) :=
  let (c, ack) := c.takeAck
  if c.nextWriteTime > nowNano then some (c, [], .ok (0, sub64 c.nextWriteTime nowNano))
  else if c.dataInFlight + l.mtu > (c.rcvWndSize : Int) then
    if ack.isSome then c.writeAck P l streamID ack nowNano write
    else some (c, [], .ok (0, minDeadLine))
  else do
    let msgType := c.msgType
    let (snd, r) ← c.snd.readyToRetransmit streamID ack l.mtu c.measurements.rtoNano msgType nowNano
    let c := { c with snd := snd }
    match r with
    | .error e => return (c, [], .error e)
    | .ok (some splitData, offset, isClose) =>
      let c := { c with measurements := c.measurements.onPacketLoss }
      c.sendPacket P l streamID ack splitData offset isClose msgType nowNano false write
    | .ok (none, _, _) => c.flushSend P l streamID ack nowNano write

/-- The errors of io that `Read` and `Write` return. -/
inductive IoError where
  | eof
  | unexpectedEof
  | net (msg : String)
  deriving DecidableEq, Repr

/-- `Stream.Read` on a stream of this connection that was taken from the table under `key`. -/
def read (c : Conn Prv Pub) (key : Nat) (s : Stream) : Conn Prv Pub × Option Bytes × Option IoError :=
  let closeOffset := c.rcv.getOffsetClosedAt s.streamID
  if s.closedAtNano ≠ 0 then (c, none, some .unexpectedEof)
  else
    let (rcv, offset, data, receiveTimeNano) := c.rcv.removeOldestInOrder s.streamID
    let c := { c with rcv := rcv }
    if closeOffset.elim false fun closeAt => decide (offset ≥ closeAt) then
      (c.setClosedAt key receiveTimeNano, data, some .eof)
    else (c, data, none)

/-- `Stream.Write`; `wake` is the outcome of `TimeoutReadNow`. -/
def write (c : Conn Prv Pub) (s : Stream) (userData : Bytes) (wake : WriteResult) :
    Option (Conn Prv Pub × Nat × Option IoError) :=
  if s.closedAtNano ≠ 0 ∨ (c.snd.getOffsetClosedAt s.streamID).isSome then
    some (c, 0, some .unexpectedEof)
  else if userData.length = 0 then some (c, 0, none)
  else do
    let (snd, n, status) ← c.snd.queueData s.streamID userData
    let c := { c with snd := snd }
    if status ≠ .ok then return (c, n, none)
    match wake with
    | .error e => return (c, 0, some (.net e))
    | .ok _ => return (c, n, none)

def ping (c : Conn Prv Pub) (s : Stream) : Conn Prv Pub := { c with snd := c.snd.queuePing s.streamID }

def closeStream (c : Conn Prv Pub) (s : Stream) : Conn Prv Pub := { c with snd := c.snd.close s.streamID }

/-- Drops a stream from the table; its data stays in the buffers. -/
def cleanupStream (c : Conn Prv Pub) (streamID : Nat) : Conn Prv Pub :=
  { c with streams := c.streams.erase streamID }

end Conn

end Qotp
