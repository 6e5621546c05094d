import Qotp.Wire.Proto
import Qotp.Framework.InsertionMap
import Qotp.Framework.SortedAssoc
import Qotp.Framework.Slice
import Qotp.Framework.Word

namespace Qotp

open Framework

inductive RcvInsertStatus where
  | ok
  | duplicate
  | bufferFull
  deriving DecidableEq, Repr

structure RcvValue where
  data : Bytes
  receiveTimeNano : Nat
  deriving DecidableEq, Repr

abbrev Segments := SortedAssoc Nat RcvValue

structure RcvBuffer where
  segments : Segments := .empty
  nextInOrderOffsetToWaitFor : Nat := 0
  closeAtOffset : Option Nat := none

structure ReceiveBuffer where
  streams : InsertionMap Nat RcvBuffer := .empty
  capacity : Int
  size : Int := 0
  ackList : List Ack := []

namespace RcvBuffer

/-- Cuts off what the preceding segment already holds. The inner `none` is the
duplicate that lies completely inside it. -/
def trimPrev (segments : Segments) (offset : Nat) (userData : Bytes) : Option (Option (Nat × Bytes)) :=
  match segments.prev offset with
  | none => some (some (offset, userData))
  | some (prevOffset, prevData) =>
    let prevEnd := prevOffset + prevData.data.length
    if prevEnd > offset then
      let overlapLen := prevEnd - offset
      if overlapLen ≥ userData.length then some none
      else do
        let existingOverlap ← sliceFrom? prevData.data (offset - prevOffset)
        let incomingOverlap ← sliceTo? userData overlapLen
        if existingOverlap ≠ incomingOverlap then none
        else
          let rest ← sliceFrom? userData overlapLen
          some (some (prevEnd, rest))
    else some (some (offset, userData))

/-- Cuts off what the following segment holds, or removes that segment when it
is covered. Returns the segments, the change in size and the bytes to store. -/
def trimNext (segments : Segments) (offset finalOffset : Nat) (finalUserData : Bytes) :
    Option (Segments × Int × Bytes) :=
  match segments.next offset with
  | none => some (segments, 0, finalUserData)
  | some (nextOffset, nextData) =>
    let ourEnd := finalOffset + finalUserData.length
    if ourEnd > nextOffset then
      let nextEnd := nextOffset + nextData.data.length
      let ourOverlapStart := sub64 nextOffset finalOffset
      if ourEnd ≥ nextEnd then do
        let incomingOverlap ← slice? finalUserData ourOverlapStart
          (add64 ourOverlapStart nextData.data.length)
        if nextData.data ≠ incomingOverlap then none
        else some (segments.erase nextOffset, -nextData.data.length, finalUserData)
      else do
        let existingOverlap ← sliceTo? nextData.data (ourEnd - nextOffset)
        let incomingOverlap ← sliceFrom? finalUserData ourOverlapStart
        if existingOverlap ≠ incomingOverlap then none
        else
          let shortened ← sliceTo? finalUserData ourOverlapStart
          some (segments, 0, shortened)
    else some (segments, 0, finalUserData)

/-- The part of `Insert` behind the capacity check: the stream, the change in
size and the status. `none` is one of the panics on overlapping data. -/
def insert (s : RcvBuffer) (offset nowNano : Nat) (userData : Bytes) :
    Option (RcvBuffer × Int × RcvInsertStatus) :=
  if offset + userData.length ≤ s.nextInOrderOffsetToWaitFor then some (s, 0, .duplicate)
  else
    match s.segments.get? offset with
    | some existingData =>
      if userData.length ≤ existingData.data.length then some (s, 0, .duplicate)
      else
        some ({ s with segments := (s.segments.erase offset).put offset ⟨userData, nowNano⟩ },
          (userData.length : Int) - existingData.data.length, .ok)
    | none => do
      match ← trimPrev s.segments offset userData with
      | none => some (s, 0, .duplicate)
      | some (finalOffset, finalUserData) =>
        let (segments, removed, stored) ← trimNext s.segments offset finalOffset finalUserData
        some ({ s with segments := segments.put finalOffset ⟨stored, nowNano⟩ },
          removed + stored.length, .ok)

def close (s : RcvBuffer) (closeOffset : Nat) : RcvBuffer :=
  match s.closeAtOffset with
  | some _ => s
  | none => { s with closeAtOffset := some closeOffset }

/-- The stream, the bytes freed, and what `RemoveOldestInOrder` returns: offset,
data (`none` is nil) and receive time. -/
def removeOldestInOrder (s : RcvBuffer) : RcvBuffer × Nat × (Nat × Option Bytes × Nat) :=
  match s.segments.min? with
  | none => (s, 0, 0, none, 0)
  | some (oldestOffset, oldestValue) =>
    if oldestOffset = s.nextInOrderOffsetToWaitFor then
      let (nextOffset, data) :=
        if oldestOffset < s.nextInOrderOffsetToWaitFor then
          (s.nextInOrderOffsetToWaitFor,
            oldestValue.data.drop (s.nextInOrderOffsetToWaitFor - oldestOffset))
        else (oldestOffset, oldestValue.data)
      ({ s with segments := s.segments.erase oldestOffset,
                nextInOrderOffsetToWaitFor := nextOffset + data.length },
        oldestValue.data.length, oldestOffset, some data, oldestValue.receiveTimeNano)
    else (s, 0, 0, none, 0)

end RcvBuffer

namespace ReceiveBuffer

def new (capacity : Int) : ReceiveBuffer := { capacity := capacity }

def stream (rb : ReceiveBuffer) (streamID : Nat) : RcvBuffer := (rb.streams.get? streamID).getD {}

def emptyInsert (rb : ReceiveBuffer) (streamID offset : Nat) : ReceiveBuffer × RcvInsertStatus :=
  ({ rb with ackList := rb.ackList ++ [⟨streamID, offset, 0, 0⟩] }, .ok)

/-- The stream is created before the capacity check, and the ack is queued
before the duplicate tests. -/
def insert (rb : ReceiveBuffer) (streamID offset nowNano : Nat) (userData : Bytes) :
    Option (ReceiveBuffer × RcvInsertStatus) :=
  let s := rb.stream streamID
  if rb.size + userData.length > rb.capacity then
    some ({ rb with streams := rb.streams.put streamID s }, .bufferFull)
  else do
    let (s', delta, status) ← s.insert offset nowNano userData
    some ({ rb with
      streams := rb.streams.put streamID s',
      size := rb.size + delta,
      ackList := rb.ackList ++ [⟨streamID, offset, userData.length % 2 ^ 16, 0⟩] }, status)

def close (rb : ReceiveBuffer) (streamID closeOffset : Nat) : ReceiveBuffer :=
  { rb with streams := rb.streams.put streamID ((rb.stream streamID).close closeOffset) }

def getOffsetClosedAt (rb : ReceiveBuffer) (streamID : Nat) : Option Nat :=
  (rb.streams.get? streamID).bind (·.closeAtOffset)

def removeOldestInOrder (rb : ReceiveBuffer) (streamID : Nat) :
    ReceiveBuffer × (Nat × Option Bytes × Nat) :=
  match rb.streams.get? streamID with
  | none => (rb, 0, none, 0)
  | some s =>
    let r := s.removeOldestInOrder
    ({ rb with streams := rb.streams.put streamID r.1, size := rb.size - r.2.1 }, r.2.2)

def getSndAck (rb : ReceiveBuffer) : ReceiveBuffer × Option Ack :=
  match rb.ackList with
  | [] => (rb, none)
  | ack :: rest => ({ rb with ackList := rest }, some ack)

end ReceiveBuffer

end Qotp
