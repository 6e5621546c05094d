import Qotp.Buffer.SendClose
import Qotp.Conn.Effects
import Qotp.Conn.Listener
import Qotp.Framework.Run

namespace Qotp

open Framework

variable {Prv Pub : Type}

/-- A connection in use: the bytes its writers queued and its readers got on each
stream, and the datagrams it wrote to the socket. -/
structure Endpoint (Prv Pub : Type) where
  conn : Conn Prv Pub
  accepted : Nat → Bytes := fun _ => []
  delivered : Nat → Bytes := fun _ => []
  sent : List Conn.Outgoing := []

/-- The calls on a connection. `handshake` stands for what the listener does to it
beside `decode`: anything but to its streams, its buffers and its byte count. -/
inductive ConnOp (Prv Pub : Type) where
  | write (streamID : Nat) (userData : Bytes) (wake : WriteResult)
  | read (streamID : Nat)
  | ping (streamID : Nat)
  | close (streamID : Nat)
  | flush (streamID nowNano : Nat) (write : WriteResult)
  | decode (p : PayloadHeader) (userData : Option Bytes) (rawLen nowNano : Nat)
  | cleanup (streamID : Nat)
  | handshake (c : Conn Prv Pub)

/-- The calls but for those through which the peer speaks. -/
def ConnOp.isLocal : ConnOp Prv Pub → Bool
  | .decode _ _ _ _ | .handshake _ => false
  | .write _ _ _ | .read _ | .ping _ | .close _ | .flush _ _ _ | .cleanup _ => true

namespace Conn

/-- A connection as `newConn` makes it: no streams and empty buffers. -/
structure Fresh (c : Conn Prv Pub) : Prop where
  streams : c.streams = .empty
  snd : c.snd = .new sndBufferCapacity
  rcv : c.rcv = .new rcvBufferCapacity
  dataInFlight : c.dataInFlight = 0

/-- The bytes of `d` that a write has moved to the queue of stream `k`. -/
def queuedBy (c c' : Conn Prv Pub) (k : Nat) (d : Bytes) : Bytes :=
  d.take ((c'.snd.stream k).queuedData.length - (c.snd.stream k).queuedData.length)

/-- Streams are stored under their own id. -/
def StreamsKeyed (c : Conn Prv Pub) : Prop := ∀ k s, c.streams.get? k = some s → s.streamID = k

theorem stream_streamID {c : Conn Prv Pub} (h : c.StreamsKeyed) (k : Nat) :
    (c.stream k).2.streamID = k ∧ (c.stream k).1.StreamsKeyed := by
  unfold stream
  cases hg : c.streams.get? k with
  | some s => exact ⟨h k s hg, h⟩
  | none =>
    refine ⟨rfl, fun j s hj => ?_⟩
    rw [InsertionMap.get?_put] at hj
    split_ifs at hj with hjk
    · cases hj
      exact hjk.symm
    · exact h j s hj

theorem StreamsKeyed.put {c c' : Conn Prv Pub} (h : c.StreamsKeyed) {k now : Nat}
    (hs : c'.streams = c.streams.put k ⟨k, now⟩) : c'.StreamsKeyed := by
  intro j s hj
  rw [hs, InsertionMap.get?_put] at hj
  split_ifs at hj with hjk
  · cases hj
    exact hjk.symm
  · exact h j s hj

theorem StreamsKeyed.congr {c c' : Conn Prv Pub} (h : c.StreamsKeyed) (hs : c'.streams = c.streams) :
    c'.StreamsKeyed := fun k s hk => h k s (hs ▸ hk)

theorem StreamsKeyed.setClosedAt {c : Conn Prv Pub} (h : c.StreamsKeyed) (k now : Nat) : (c.setClosedAt k now).StreamsKeyed := by
  unfold Conn.setClosedAt markClosed
  cases hg : c.streams.get? k with
  | none => exact h
  | some s =>
    obtain rfl := h k s hg
    exact h.put rfl

theorem StreamsKeyed.storedID {c : Conn Prv Pub} (h : c.StreamsKeyed) (k : Nat) : c.storedID k = k :=
  (stream_streamID h k).1

/-- Under its own id the stream of the header is the one whose buffers are touched. -/
theorem StreamsKeyed.decode_effect {c c' : Conn Prv Pub} (h : c.StreamsKeyed) {p : PayloadHeader} {u : Option Bytes}
    {rawLen now : Nat} (hd : c.decode p u rawLen now = some c') : DecodeEffect c p.streamID p u rawLen now c' := by
  have heff := Conn.decode_effect hd
  rw [h.storedID] at heff
  exact heff

theorem StreamsKeyed.cleanupStream {c : Conn Prv Pub} (h : c.StreamsKeyed) (k : Nat) :
    (c.cleanupStream k).StreamsKeyed := by
  intro j s hj
  have hmem := InsertionMap.mem_erase.mp (InsertionMap.get?_eq_some.mp hj)
  exact h j s (InsertionMap.get?_eq_some.mpr hmem.2)

theorem write_cases {c c' : Conn Prv Pub} {s : Stream} {d : Bytes} {wake : WriteResult} {n : Nat}
    {err : Option IoError} (h : c.write s d wake = some (c', n, err)) :
    c' = c ∨ ((c.snd.stream s.streamID).closeAtOffset = none ∧
      ∃ snd n st, c.snd.queueData s.streamID d = some (snd, n, st) ∧ c' = { c with snd := snd }) := by
  have hclosed : c.snd.getOffsetClosedAt s.streamID = (c.snd.stream s.streamID).closeAtOffset :=
    c.snd.getOffsetClosedAt_eq s.streamID
  unfold write at h
  split_ifs at h with hc hd
  · cases h
    exact .inl rfl
  · cases h
    exact .inl rfl
  · obtain ⟨⟨snd, m, st⟩, hq, hw⟩ := Option.bind_eq_some_iff.mp h
    have hopen : (c.snd.stream s.streamID).closeAtOffset = none := by
      rw [← hclosed]
      exact Option.not_isSome_iff_eq_none.mp fun hs => hc (.inr hs)
    refine .inr ⟨hopen, snd, m, st, hq, ?_⟩
    dsimp only at hw
    split_ifs at hw
    · cases hw
      rfl
    · rcases wake with e | u
      · cases hw
        rfl
      · cases hw
        rfl

end Conn

namespace Endpoint

variable (P : Primitives Prv Pub) (l : ListenerCfg Prv)

def step (e : Endpoint Prv Pub) : ConnOp Prv Pub → Option (Endpoint Prv Pub)
  | .write k d wake =>
    let c := (e.conn.stream k).1
    (c.write (e.conn.stream k).2 d wake).map fun r =>
      { e with
        conn := r.1
        accepted := Function.update e.accepted k (e.accepted k ++ c.queuedBy r.1 k d) }
  | .read k =>
    let r := (e.conn.stream k).1.read k (e.conn.stream k).2
    some { e with
      conn := r.1
      delivered := Function.update e.delivered k (e.delivered k ++ r.2.1.getD []) }
  | .ping k => some { e with conn := (e.conn.stream k).1.ping (e.conn.stream k).2 }
  | .close k => some { e with conn := (e.conn.stream k).1.closeStream (e.conn.stream k).2 }
  | .flush k now w => (e.conn.flush P l k now w).map fun r =>
    { e with conn := r.1, sent := e.sent ++ r.2.1 }
  | .decode p u rawLen now => (e.conn.decode p u rawLen now).map fun c => { e with conn := c }
  | .cleanup k => some { e with conn := e.conn.cleanupStream k }
  | .handshake c => some { e with
      conn := { c with
        streams := e.conn.streams
        snd := e.conn.snd
        rcv := e.conn.rcv
        dataInFlight := e.conn.dataInFlight } }

/-- Fewer than 2^48 bytes are sent on each stream. -/
def OffsetsFit (e : Endpoint Prv Pub) : ConnOp Prv Pub → Prop
  | .flush k _ _ => (e.conn.snd.stream k).bytesSentOffset < 2 ^ 48
  | _ => True

/-- The datagram carries accepted bytes at their own offset. -/
abbrev Carries (W : Nat → Bytes) (sb : SendBuffer) (o : Conn.Outgoing) : Prop :=
  Genuine W sb o.header.streamID (o.userData.getD []) o.header.streamOffset o.header.isClose

structure Inv (e : Endpoint Prv Pub) : Prop where
  keyed : e.conn.StreamsKeyed
  snd : SndOk e.accepted e.conn.snd
  sent : ∀ o ∈ e.sent, Carries e.accepted e.conn.snd o

theorem inv_fresh {c : Conn Prv Pub} (h : c.Fresh) : Inv { conn := c } := by
  refine ⟨fun k s hs => ?_, ?_, nofun⟩
  · rw [h.streams] at hs
    cases hs
  · change SndOk _ c.snd
    rw [h.snd]
    exact sndOk_new _

variable {P l} {e e' : Endpoint Prv Pub}

/-- A step that accepts nothing: what it writes carries accepted bytes. -/
theorem Inv.keeps (h : Inv e) (hk : e'.conn.StreamsKeyed) (hacc : e'.accepted = e.accepted)
    (hs : SndKeeps e.accepted e.conn.snd e'.conn.snd)
    (hsent : ∀ o ∈ e'.sent, o ∈ e.sent ∨ Carries e.accepted e'.conn.snd o) : Inv e' := by
  refine ⟨hk, hacc ▸ hs.ok, fun o ho => ?_⟩
  rw [hacc]
  cases hsent o ho with
  | inl hold => exact (h.sent o hold).keeps hs
  | inr hnew => exact hnew

theorem step_write (h : Inv e) {k : Nat} {d : Bytes} {wake : WriteResult}
    (hs : e.step P l (.write k d wake) = some e') : Inv e' := by
  obtain ⟨hid, hkeyed⟩ := Conn.stream_streamID h.keyed k
  have hsnd : (e.conn.stream k).1.snd = e.conn.snd := by rw [Conn.stream_frame]
  obtain ⟨⟨c', n, err⟩, hw, rfl⟩ := Option.map_eq_some_iff.mp hs
  obtain rfl | ⟨hopen, snd, m, st, hq, rfl⟩ := Conn.write_cases hw
  · have hacc : Function.update e.accepted k (e.accepted k ++
        (e.conn.stream k).1.queuedBy (e.conn.stream k).1 k d) = e.accepted := by
      simp [Conn.queuedBy]
    refine h.keeps hkeyed hacc ?_ (fun o ho => .inl ho)
    change SndKeeps _ _ (e.conn.stream k).1.snd
    rw [hsnd]
    exact h.snd.refl
  · rw [hid, hsnd] at hopen hq
    obtain ⟨hok, hlen, hcl⟩ := h.snd.queueData hopen hq
    have hby : (e.conn.stream k).1.queuedBy { (e.conn.stream k).1 with snd := snd } k d = d.take m := by
      unfold Conn.queuedBy
      dsimp only
      rw [hsnd, hlen]
      simp
    dsimp only
    rw [hby]
    refine ⟨hkeyed.congr rfl, hok, fun o ho => ?_⟩
    exact (h.sent o ho).mono (fun j => prefix_update e.accepted k j _) hcl

theorem carries_ackOut {W : Nat → Bytes} {c : Conn Prv Pub} {k : Nat} {ack : Option Ack}
    {out : List Conn.Outgoing} (h : c.AckOut k ack out) : ∀ o ∈ out, Carries W c.snd o := by
  obtain rfl | ⟨m, enc, rfl⟩ := h
  · exact nofun
  · intro o ho
    obtain rfl := List.mem_singleton.mp ho
    exact genuine_ack W c.snd k

theorem flushSend_keeps {W : Nat → Bytes} {c c' : Conn Prv Pub} (hmtu : 119 ≤ l.mtu ∧ l.mtu ≤ 65535)
    (h : SndOk W c.snd) {k now : Nat} {ack : Option Ack} {w : WriteResult} {out : List Conn.Outgoing}
    {r : Conn.FlushResult} (hb : (c.snd.stream k).bytesSentOffset < 2 ^ 48)
    (hf : c.flushSend P l k ack now w = some (c', out, r)) :
    SndKeeps W c.snd c'.snd ∧ ∀ o ∈ out, Carries W c'.snd o := by
  obtain ⟨⟨i, s, e, n, rfl⟩, hout⟩ | ⟨snd, pkt, hr, hcase⟩ := Conn.flushSend_cases P l hf
  · exact ⟨h.refl, carries_ackOut hout⟩
  obtain ⟨hk, hg⟩ := h.readyToSend hb (StreamBuffer.mtuFits_of_range hmtu _ _ _) hr
  obtain ⟨_, ⟨i, s, e, n, rfl⟩, hout⟩ | ⟨d, o, isClose, rfl, hsend⟩ := hcase
  · exact ⟨hk, carries_ackOut hout⟩
  obtain ⟨_, rfl, i, s, e, n, rfl⟩ | ⟨enc, rfl, i, s, e, n, rfl⟩ := hsend
  · exact ⟨hk, nofun⟩
  · refine ⟨hk, fun p hp => ?_⟩
    obtain rfl := List.mem_singleton.mp hp
    exact (hg d o isClose rfl).keeps hk

/-- What `Flush` hands to the socket carries accepted bytes. -/
theorem flush_keeps {W : Nat → Bytes} {c c' : Conn Prv Pub} (hmtu : 119 ≤ l.mtu ∧ l.mtu ≤ 65535)
    (h : SndOk W c.snd) {k now : Nat} {w : WriteResult} {out : List Conn.Outgoing} {r : Conn.FlushResult}
    (hb : (c.snd.stream k).bytesSentOffset < 2 ^ 48) (hf : c.flush P l k now w = some (c', out, r)) :
    SndKeeps W c.snd c'.snd ∧ ∀ o ∈ out, Carries W c'.snd o := by
  have hfits := StreamBuffer.mtuFits_of_range hmtu
  obtain ⟨hfr, hout⟩ | ⟨_, snd, res, hr, hcase⟩ := Conn.flush_cases P l hf
  · obtain ⟨i, s, e, n, rfl⟩ := hfr
    exact ⟨h.refl, carries_ackOut hout⟩
  · obtain ⟨hk₁, hg₁⟩ := h.readyToRetransmit hb (fun _ _ => hfits _ _ _) hr
    obtain ⟨e, rfl, rfl, rfl⟩ | ⟨d, o, isClose, rfl, hfr, hout⟩ | ⟨o, isClose, rfl, hsend⟩ := hcase
    · exact ⟨hk₁, nofun⟩
    · obtain ⟨i, s, e, n, rfl⟩ := hfr
      refine ⟨hk₁, ?_⟩
      obtain rfl | ⟨m, enc, rfl⟩ := hout
      · exact nofun
      · intro p hp
        obtain rfl := List.mem_singleton.mp hp
        exact (hg₁ d o isClose rfl).keeps hk₁
    · have hb₁ : (snd.stream k).bytesSentOffset < 2 ^ 48 := by
        obtain ⟨s', hs, hstr⟩ := SendBuffer.readyToRetransmit_stream hr
        rw [hstr k, if_pos rfl, StreamBuffer.readyToRetransmit_frame hs]
        exact hb
      obtain ⟨hk₂, hg₂⟩ := flushSend_keeps hmtu hk₁.ok hb₁ hsend
      exact ⟨hk₁.trans hk₂, hg₂⟩

/-- What `Flush` leaves alone: the stream table, the received data and the close marks;
and what it writes names its stream. -/
structure FlushFrame (c : Conn Prv Pub) (k : Nat) (c' : Conn Prv Pub) (out : List Conn.Outgoing) : Prop where
  streams : c'.streams = c.streams
  rcv : c'.rcv = c.takeAck.1.rcv
  marks : c.snd.SameMarks c'.snd
  ids : ∀ o ∈ out, o.header.streamID = k

theorem ackOut_ids {c : Conn Prv Pub} {k : Nat} {ack : Option Ack} {out : List Conn.Outgoing}
    (h : c.AckOut k ack out) : ∀ o ∈ out, o.header.streamID = k := by
  obtain rfl | ⟨m, enc, rfl⟩ := h
  · exact nofun
  · intro o ho
    rw [List.mem_singleton.mp ho]

theorem flush_frame {c c' : Conn Prv Pub} {k now : Nat} {w : WriteResult} {out : List Conn.Outgoing}
    {r : Conn.FlushResult} (hf : c.flush P l k now w = some (c', out, r)) : FlushFrame c k c' out := by
  obtain ⟨⟨i, s, e, n, rfl⟩, hout⟩ | ⟨_, snd, res, hr, hcase⟩ := Conn.flush_cases P l hf
  · exact ⟨rfl, rfl, fun _ => rfl, ackOut_ids hout⟩
  have hm := SendBuffer.sameMarks_readyToRetransmit hr
  obtain ⟨e, _, rfl, rfl⟩ | ⟨d, o, isClose, _, ⟨i, s, e, n, rfl⟩, hout⟩ | ⟨o, isClose, _, hsend⟩ := hcase
  · exact ⟨rfl, rfl, hm, nofun⟩
  · refine ⟨rfl, rfl, hm, ?_⟩
    obtain rfl | ⟨m, enc, rfl⟩ := hout
    · exact nofun
    · exact fun o ho => by rw [List.mem_singleton.mp ho]
  obtain ⟨⟨i, s, e, n, rfl⟩, hout⟩ | ⟨snd', pkt, hr', hcase⟩ := Conn.flushSend_cases P l hsend
  · exact ⟨rfl, rfl, hm, ackOut_ids hout⟩
  have hm' := hm.trans (SendBuffer.sameMarks_readyToSend hr')
  obtain ⟨_, ⟨i, s, e, n, rfl⟩, hout⟩ | ⟨d, o, isClose, _, hfirst⟩ := hcase
  · exact ⟨rfl, rfl, hm', ackOut_ids hout⟩
  obtain ⟨_, rfl, i, s, e, n, rfl⟩ | ⟨enc, rfl, i, s, e, n, rfl⟩ := hfirst
  · exact ⟨rfl, rfl, hm', nofun⟩
  · exact ⟨rfl, rfl, hm', fun o ho => by rw [List.mem_singleton.mp ho]⟩

theorem decode_keyed {c c' : Conn Prv Pub} (h : c.StreamsKeyed) {p : PayloadHeader} {u : Option Bytes}
    {rawLen now : Nat} (hd : c.decode p u rawLen now = some c') : c'.StreamsKeyed := by
  have hs := (h.decode_effect hd).streams
  have hk := (Conn.stream_streamID h p.streamID).2
  split_ifs at hs
  · exact hk.put hs
  · exact hk.congr hs

theorem read_keyed {c : Conn Prv Pub} (h : c.StreamsKeyed) (k : Nat) (s : Stream) :
    (c.read k s).1.StreamsKeyed ∧ (c.read k s).1.snd = c.snd := by
  unfold Conn.read
  dsimp only
  split_ifs
  · exact ⟨h, rfl⟩
  · refine ⟨?_, rfl⟩
    apply Conn.StreamsKeyed.setClosedAt
    exact h.congr rfl
  · exact ⟨h.congr rfl, rfl⟩

theorem step_keyed {op : ConnOp Prv Pub} (h : e.conn.StreamsKeyed) (hs : e.step P l op = some e') :
    e'.conn.StreamsKeyed := by
  have hstr := fun k => (Conn.stream_streamID h k).2
  cases op with
  | write k d wake =>
    obtain ⟨⟨c', n, err⟩, hw, rfl⟩ := Option.map_eq_some_iff.mp hs
    obtain rfl | ⟨_, snd, m, st, _, rfl⟩ := Conn.write_cases hw
    · exact hstr k
    · exact (hstr k).congr rfl
  | read k =>
    cases hs
    exact (read_keyed (hstr k) k _).1
  | ping k | close k =>
    cases hs
    exact (hstr k).congr rfl
  | flush k now w =>
    obtain ⟨⟨c', out, r⟩, hf, rfl⟩ := Option.map_eq_some_iff.mp hs
    exact h.congr (flush_frame hf).streams
  | decode p u rawLen now =>
    obtain ⟨c', hd, rfl⟩ := Option.map_eq_some_iff.mp hs
    exact decode_keyed h hd
  | cleanup k =>
    cases hs
    exact h.cleanupStream k
  | handshake c =>
    cases hs
    exact h.congr rfl

/-- Whatever is called on a connection, its send side keeps what was accepted. -/
theorem step_inv (hmtu : 119 ≤ l.mtu ∧ l.mtu ≤ 65535) (e : Endpoint Prv Pub) (op : ConnOp Prv Pub)
    (e' : Endpoint Prv Pub) (h : Inv e) (hfit : e.OffsetsFit op) (hs : e.step P l op = some e') :
    Inv e' := by
  have hkeyed := step_keyed h.keyed hs
  have hsnd : ∀ k, (e.conn.stream k).1.snd = e.conn.snd := fun k => by rw [Conn.stream_frame]
  have hold : ∀ {sb : SendBuffer}, ∀ o ∈ e.sent, o ∈ e.sent ∨ Carries e.accepted sb o :=
    fun o ho => .inl ho
  cases op with
  | write k d wake => exact step_write h hs
  | read k =>
    cases hs
    have hr := (read_keyed (Conn.stream_streamID h.keyed k).2 k (e.conn.stream k).2).2
    refine h.keeps hkeyed rfl ?_ hold
    dsimp only
    rw [hr, hsnd]
    exact h.snd.refl
  | ping k =>
    cases hs
    refine h.keeps hkeyed rfl ?_ hold
    dsimp only [Conn.ping]
    rw [hsnd]
    exact h.snd.queuePing _
  | close k =>
    cases hs
    refine h.keeps hkeyed rfl ?_ hold
    dsimp only [Conn.closeStream]
    rw [hsnd]
    exact h.snd.close _
  | flush k now w =>
    obtain ⟨⟨c', out, r⟩, hf, rfl⟩ := Option.map_eq_some_iff.mp hs
    obtain ⟨hk, hout⟩ := flush_keeps hmtu h.snd hfit hf
    refine h.keeps hkeyed rfl hk fun o ho => ?_
    exact (List.mem_append.mp ho).imp_right (hout o)
  | decode p u rawLen now =>
    obtain ⟨c', hd, rfl⟩ := Option.map_eq_some_iff.mp hs
    have hk := (h.keyed.decode_effect hd).snd
    refine h.keeps hkeyed rfl ?_ hold
    dsimp only
    rw [hk]
    have hack := h.snd.afterAck p.ack
    split_ifs
    · exact hack.trans (hack.ok.close _)
    · exact hack
  | cleanup k | handshake c =>
    cases hs
    exact h.keeps hkeyed rfl h.snd.refl hold

end Endpoint

end Qotp
