import Qotp.Conn.Listener
import Qotp.Framework.InsertionOrder

namespace Qotp

open Framework

/-- What a pointer to an id points into: an object in the tables of the listener, named
by the keys it is stored under, or one that is no longer there, with the id it holds. -/
inductive Pointer (ν : Type) where
  | held (name : ν)
  | dropped (id : Nat)
  deriving DecidableEq, Repr

/-- A listener with its pointers into the connection and the stream served last. -/
structure RoundRobin (Prv Pub : Type) extends Listener Prv Pub where
  currentConnID : Option (Pointer Nat) := none
  currentStreamID : Option (Pointer (Nat × Nat)) := none

/-- The objects `Flush` works on. What it takes out of a table can still be pointed at, so
each object stays under the keys it was stored under and the keys taken out are listed. -/
structure Memory (Prv Pub : Type) extends RoundRobin Prv Pub where
  removedConns : List Nat := []
  removedStreams : List (Nat × Nat) := []

variable {Prv Pub : Type} (P : Primitives Prv Pub)

namespace Listener

def connIdAt (l : Listener Prv Pub) (conn : Nat) : Option Nat := (l.connMap.get? conn).map Conn.connId

def streamAt (l : Listener Prv Pub) (v : Nat × Nat) : Option Stream :=
  (l.connMap.get? v.1).bind fun conn => conn.streams.get? v.2

def streamKeysAt (l : Listener Prv Pub) (conn : Nat) : List Nat :=
  (l.connMap.get? conn).elim [] fun c => c.streams.keys

/-- `Conn.Flush` for one stream of the listener. -/
def visit (nowNano : Nat) (writes : Nat × Nat → WriteResult) (l : Listener Prv Pub) (v : Nat × Nat) :
    Option (Listener Prv Pub × List Conn.Outgoing × Conn.FlushResult) := do
  let conn ← l.connMap.get? v.1
  let stream ← conn.streams.get? v.2
  let (conn, out, r) ← conn.flush P l.cfg stream.streamID nowNano (writes v)
  return (l.setConn v.1 conn, out, r)

/-- A closed stream is marked for closing at once by the sender. The receiver's comparison marks
it during the first 30 seconds and not behind them. -/
def closing (l : Listener Prv Pub) (nowNano : Nat) (v : Nat × Nat) : Bool :=
  (l.connMap.get? v.1).any fun conn => (conn.streams.get? v.2).any fun stream =>
    stream.closedAtNano ≠ 0 &&
      (conn.isSenderOnInit || decide (add64 stream.closedAtNano readDeadLine > nowNano))

def timedOut (l : Listener Prv Pub) (nowNano conn : Nat) : Bool :=
  (l.connMap.get? conn).any fun conn => conn.measurements.lastReadTimeNano ≠ 0 &&
    decide (nowNano > add64 conn.measurements.lastReadTimeNano readDeadLine)

/-- `NestedIterator` over the connections and their streams. -/
def nested (l : Listener Prv Pub) (startKey1 startKey2 : Option Nat) : List (Nat × Nat) :=
  match l.connMap.iterate startKey1 with
  | [] => []
  | (conn, c) :: rest =>
    (c.streams.iterate startKey2).map (fun e => (conn, e.1)) ++
      rest.flatMap fun r => r.2.streams.entries.map fun e => (r.1, e.1)

end Listener

/-- What the loop of `Flush` has gathered: `out` are the datagrams it wrote, each with the
connection it was written for. -/
structure Round (Prv Pub : Type) where
  listener : Listener Prv Pub
  out : List (Nat × Conn.Outgoing) := []
  minPacing : Nat := minDeadLine
  closeConn : List Nat := []
  closeStream : InsertionMap Nat Nat := .empty
  served : Option (Nat × Nat) := none

/-- The loop of `Flush`: it ends at an error, at sent data, or at a connection that timed out. -/
def Round.serve (nowNano : Nat) (writes : Nat × Nat → WriteResult) :
    Round Prv Pub → List (Nat × Nat) → Option (Round Prv Pub)
  | r, [] => some r
  | r, v :: vs =>
    (r.listener.streamAt v).bind fun stream =>
      (r.listener.visit P nowNano writes v).bind fun (l, out, res) =>
        let r := { r with listener := l, out := r.out ++ out.map fun o => (v.1, o) }
        match res with
        | .error _ => some { r with closeConn := r.closeConn ++ [v.1] }
        | .ok (dataSent, pacingNano) =>
          if l.closing nowNano v then
            Round.serve nowNano writes { r with closeStream := r.closeStream.put v.1 stream.streamID } vs
          else if dataSent > 0 then some { r with minPacing := 0, served := some v }
          else if l.timedOut nowNano v.1 then some { r with closeConn := r.closeConn ++ [v.1] }
          else Round.serve nowNano writes
            { r with minPacing := if pacingNano < r.minPacing then pacingNano else r.minPacing } vs

namespace RoundRobin

def connPtr (s : RoundRobin Prv Pub) : Option Nat :=
  s.currentConnID.bind fun p => match p with
    | .held conn => s.connIdAt conn
    | .dropped id => some id

def streamPtr (s : RoundRobin Prv Pub) : Option Nat :=
  s.currentStreamID.bind fun p => match p with
    | .held v => (s.streamAt v).map Stream.streamID
    | .dropped id => some id

def storeConnID (s : RoundRobin Prv Pub) (id : Nat) : RoundRobin Prv Pub :=
  match s.currentConnID with
  | none => s
  | some (.held conn) => { s with connMap := s.connMap.modify conn fun c => { c with connId := id } }
  | some (.dropped _) => { s with currentConnID := some (.dropped id) }

def storeStreamID (s : RoundRobin Prv Pub) (id : Nat) : RoundRobin Prv Pub :=
  match s.currentStreamID with
  | none => s
  | some (.held v) =>
    { s with connMap := s.connMap.modify v.1 fun c =>
        { c with streams := c.streams.modify v.2 fun stream => { stream with streamID := id } } }
  | some (.dropped _) => { s with currentStreamID := some (.dropped id) }

end RoundRobin

namespace Memory

/-- The keys in `connMap`. -/
def connKeys (m : Memory Prv Pub) : List Nat := m.connMap.keys.filter fun k => k ∉ m.removedConns

/-- The keys in the stream table of a connection. -/
def streamKeys (m : Memory Prv Pub) (conn : Nat) : List Nat :=
  (m.streamKeysAt conn).filter fun k => (conn, k) ∉ m.removedStreams

def removeConn (m : Memory Prv Pub) (id : Nat) : Memory Prv Pub :=
  if id ∈ m.connKeys then { m with removedConns := m.removedConns ++ [id] } else m

def removeStream (m : Memory Prv Pub) (conn id : Nat) : Memory Prv Pub :=
  if id ∈ m.streamKeys conn then { m with removedStreams := m.removedStreams ++ [(conn, id)] } else m

/-- `cleanupConn`. The id is read again behind the write, which may have hit this very connection. -/
def cleanupConn (m : Memory Prv Pub) (conn : Nat) : Memory Prv Pub :=
  match m.connIdAt conn with
  | none => m
  | some id =>
    let m := if m.connPtr = some id
      then { m with toRoundRobin := m.storeConnID ((nextKey id m.connKeys).getD 0) } else m
    match m.connIdAt conn with
    | none => m
    | some id => m.removeConn id

def cleanupStream (m : Memory Prv Pub) (conn streamID : Nat) : Memory Prv Pub :=
  let m := if m.streamPtr = some streamID
    then { m with toRoundRobin := m.storeStreamID ((nextKey streamID (m.streamKeys conn)).getD 0) } else m
  m.removeStream conn streamID

/-- The listener without what was taken out of its tables. -/
def tables (m : Memory Prv Pub) : Listener Prv Pub :=
  { m.toListener with
    connMap := m.removedConns.foldl InsertionMap.erase
      (m.removedStreams.foldl (fun t v => t.modify v.1 fun c => c.cleanupStream v.2) m.connMap) }

end Memory

/-- What `Listener.Flush` leaves: the objects before the pointers are reset, the listener,
and what was marked for closing. -/
structure Flushed (Prv Pub : Type) where
  memory : Memory Prv Pub
  listener : RoundRobin Prv Pub
  minPacing : Nat
  out : List (Nat × Conn.Outgoing) := []
  closeConn : List Nat := []
  closeStream : InsertionMap Nat Nat := .empty

namespace RoundRobin

/-- The streams `Flush` goes through. -/
def visits (s : RoundRobin Prv Pub) : List (Nat × Nat) := s.nested s.connPtr s.streamPtr

/-- The objects and pointers behind the loop. -/
def behind (s : RoundRobin Prv Pub) (r : Round Prv Pub) : Memory Prv Pub where
  toListener := r.listener
  currentConnID := match r.served with
    | some v => some (.held v.1)
    | none => s.currentConnID
  currentStreamID := match r.served with
    | some v => some (.held v)
    | none => s.currentStreamID

/-- The entries of `closeStream` in the order a range over the map takes them. -/
def inOrder (rank : Nat → Nat) (closeStream : InsertionMap Nat Nat) : List (Nat × Nat) :=
  closeStream.entries.insertionSort fun a b => rank a.1 ≤ rank b.1

/-- `Listener.Flush`. Go leaves the order of a range over a map open: `rank` fixes it. -/
def flush (s : RoundRobin Prv Pub) (nowNano : Nat) (writes : Nat × Nat → WriteResult) (rank : Nat → Nat) :
    Option (Flushed Prv Pub) :=
  if s.connMap.size = 0 then some { memory := { toRoundRobin := s }, listener := s, minPacing := minDeadLine }
  else (Round.serve P nowNano writes { listener := s.toListener } s.visits).map fun r =>
    let m := r.closeConn.foldl Memory.cleanupConn (s.behind r)
    let m := (inOrder rank r.closeStream).foldl (fun m e => m.cleanupStream e.1 e.2) m
    { memory := m
      listener := { toListener := m.tables }
      minPacing := r.minPacing
      out := r.out
      closeConn := r.closeConn
      closeStream := r.closeStream }

end RoundRobin

end Qotp
