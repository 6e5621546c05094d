import Qotp.Buffer.ReceiveSize
import Qotp.Conn.Endpoint
import Qotp.Crypto.Plain
import Mathlib.Data.List.Perm.Subperm

namespace Qotp

open Framework

/-- The ack a written datagram carries; the keys of an InitSnd leave no room for one. -/
def Conn.Outgoing.carriedAck (o : Conn.Outgoing) : Option Ack :=
  if o.msgType = .initSnd then none else o.header.ack

/-- An ack as it was queued: the window is filled in when it leaves. -/
def Ack.queued (a : Ack) : Ack := { a with rcvWnd := 0 }

/-- Each pending ack, counted with repetitions, is still pending, in the same order,
or was sent. -/
def AcksKept (before after sent : List Ack) : Prop :=
  after.Sublist before ∧ (before.map Ack.queued).Subperm ((after ++ sent).map Ack.queued)

instance (before after sent : List Ack) : Decidable (AcksKept before after sent) :=
  inferInstanceAs (Decidable (_ ∧ _))

theorem acksKept_refl (acks sent : List Ack) : AcksKept acks acks sent := by
  refine ⟨List.Sublist.refl _, ?_⟩
  rw [List.map_append]
  exact (List.sublist_append_left _ _).subperm

/-- The first ack may leave if and only if it is sent. -/
theorem acksKept_tail (a : Ack) (rest : List Ack) : ¬ AcksKept (a :: rest) rest [] := by
  intro h
  have hlen := h.2.length_le
  simp only [List.append_nil, List.length_map, List.length_cons] at hlen
  omega

theorem acksKept_sent {a a' : Ack} (rest : List Ack) (h : a'.queued = a.queued) :
    AcksKept (a :: rest) rest [a'] := by
  refine ⟨List.sublist_cons_self a rest, ?_⟩
  rw [List.map_append, List.map_cons, List.map_cons, List.map_nil, h]
  exact (List.perm_append_singleton _ _).symm.subperm

namespace Conn

variable {Prv Pub : Type} (P : Primitives Prv Pub) (l : ListenerCfg Prv) {c c' : Conn Prv Pub}

theorem EncodeFrame.rcv_eq (h : EncodeFrame c c') : c'.rcv = c.rcv := by
  obtain ⟨_, _, _, _, rfl⟩ := h
  rfl

theorem takeAck_nil (h : c.rcv.ackList = []) : c.takeAck = (c, none) := by
  simp only [takeAck, ReceiveBuffer.getSndAck, h, Option.map_none]

theorem takeAck_cons {a : Ack} {rest : List Ack} (h : c.rcv.ackList = a :: rest) :
    c.takeAck.1.rcv.ackList = rest ∧ ∃ a', c.takeAck.2 = some a' ∧ a'.queued = a.queued := by
  simp only [takeAck, ReceiveBuffer.getSndAck, h, Option.map_some, true_and]
  exact ⟨_, rfl, rfl⟩

/-- Behind a call without error one datagram with the given ack is on the wire. -/
def CarriesAck (c : Conn Prv Pub) (ack : Option Ack) (c' : Conn Prv Pub) (out : List Outgoing) : Prop :=
  c'.rcv = c.rcv ∧ ∃ p u enc, out = [⟨p, u, c.msgType, enc⟩] ∧ p.ack = ack

theorem sendPacket_carries {k o now : Nat} {ack : Option Ack} {d : Bytes} {isClose track : Bool}
    {w : WriteResult} {out : List Outgoing} {n : Nat × Nat}
    (h : c.sendPacket P l k ack d o isClose c.msgType now track w = some (c', out, .ok n)) :
    CarriesAck c ack c' out := by
  have hrcv : c'.rcv = c.rcv := by
    obtain ⟨_, _, hf⟩ | ⟨enc, _, hf⟩ := sendPacket_cases P l h
    · exact hf.rcv_eq
    · exact hf.rcv_eq
  obtain ⟨⟨c₁, enc⟩, _, h⟩ := Option.bind_eq_some_iff.mp h
  cases enc with
  | error e => cases h
  | ok enc =>
    cases w with
    | error e => cases h
    | ok _ =>
      cases h
      exact ⟨hrcv, _, _, enc, rfl, rfl⟩

theorem writeAck_carries {k now : Nat} {ack : Option Ack} {w : WriteResult} {out : List Outgoing}
    {n : Nat × Nat} (h : c.writeAck P l k ack now w = some (c', out, .ok n)) : CarriesAck c ack c' out := by
  have hrcv := (writeAck_cases P l h).1.rcv_eq
  obtain ⟨⟨c₁, enc⟩, _, h⟩ := Option.bind_eq_some_iff.mp h
  cases enc with
  | error e => cases h
  | ok enc =>
    cases w with
    | error e => cases h
    | ok _ =>
      cases h
      exact ⟨hrcv, _, _, enc, rfl, rfl⟩

theorem flushSend_carries {k now : Nat} {a : Ack} {w : WriteResult} {out : List Outgoing} {n : Nat × Nat}
    (h : c.flushSend P l k (some a) now w = some (c', out, .ok n)) : CarriesAck c (some a) c' out := by
  unfold flushSend at h
  split_ifs at h with hs
  · rcases hr : c.snd.readyToSend k c.msgType (some a) l.mtu now with ⟨snd, data, o, isClose⟩
    simp only [hr] at h
    cases data with
    | some d => exact sendPacket_carries (c := { c with snd := snd }) P l h
    | none => exact writeAck_carries (c := { c with snd := snd }) P l h
  · exact writeAck_carries P l h
  · exact absurd rfl ‹_›

/-- Outside the pacing time every way through `Flush` that ends without error sends
the ack it has taken. -/
theorem flush_carries {k now : Nat} {a : Ack} {w : WriteResult} {out : List Outgoing} {n : Nat × Nat}
    (ha : c.takeAck.2 = some a) (hp : c.nextWriteTime ≤ now)
    (h : c.flush P l k now w = some (c', out, .ok n)) : CarriesAck c.takeAck.1 (some a) c' out := by
  have hpace : ¬ c.takeAck.1.nextWriteTime > now := not_lt.mpr hp
  unfold flush at h
  simp only [ha, if_neg hpace, Option.isSome_some, if_true] at h
  split_ifs at h with hw
  · exact writeAck_carries P l h
  · obtain ⟨⟨snd, res⟩, _, h⟩ := Option.bind_eq_some_iff.mp h
    rcases res with e | ⟨_ | d, o, isClose⟩
    · cases h
    · exact flushSend_carries (c := { c.takeAck.1 with snd := snd }) P l h
    · exact sendPacket_carries
        (c := { c.takeAck.1 with snd := snd, measurements := c.measurements.onPacketLoss }) P l h

/-- `Flush` keeps the pending acks exactly when there are none, or when it is neither
held back by pacing nor due to send an InitSnd. -/
theorem flush_keeps_acks_iff (c c' : Conn Prv Pub) (k now : Nat) (w : WriteResult) (out : List Outgoing)
    (n : Nat × Nat) (h : c.flush P l k now w = some (c', out, .ok n)) :
    AcksKept c.rcv.ackList c'.rcv.ackList (out.filterMap Outgoing.carriedAck) ↔
      c.rcv.ackList = [] ∨ (c.nextWriteTime ≤ now ∧ c.msgType ≠ .initSnd) := by
  cases hl : c.rcv.ackList with
  | nil =>
    have hrcv : c'.rcv = c.rcv := by
      rw [(Endpoint.flush_frame h).rcv, takeAck_nil hl]
    rw [hrcv, hl]
    simp [acksKept_refl]
  | cons a rest =>
    obtain ⟨hrest, a', ha', hq⟩ := takeAck_cons hl
    simp only [reduceCtorEq, false_or]
    by_cases hp : c.nextWriteTime ≤ now
    · obtain ⟨hrcv, p, u, enc, rfl, hack⟩ := flush_carries P l ha' hp h
      have hm : c.takeAck.1.msgType = c.msgType := rfl
      rw [hrcv, hrest, hm]
      by_cases hi : c.msgType = .initSnd
      · simp [Outgoing.carriedAck, hi, acksKept_tail]
      · simp [Outgoing.carriedAck, hi, hp, hack, acksKept_sent rest hq]
    · have hpace : c.takeAck.1.nextWriteTime > now := not_le.mp hp
      unfold flush at h
      simp only [if_pos hpace] at h
      cases h
      rw [hrest]
      simp [hp, acksKept_tail]

/-- A connection past its handshake with one pending ack and a closed window. -/
def ackPending (nextWriteTime : Nat) : Conn UInt8 UInt8 :=
  { connId := 1, remoteAddr := 0, prvKeyEpSnd := 3, pubKeyEpRcv := some 5, pubKeyIdRcv := none
    sharedSecret := some (List.replicate 32 15), isSenderOnInit := true, isWithCryptoOnInit := false
    isHandshakeDoneOnRcv := true, isInitSentOnSnd := true, rcvWndSize := 0, nextWriteTime := nextWriteTime
    rcv := { ReceiveBuffer.new rcvBufferCapacity with ackList := [⟨0, 0, 5, 0⟩] } }

def ackCfg : ListenerCfg UInt8 := ⟨7, 1400⟩

/-- Flushed inside the pacing time, the ack is neither sent nor pending. -/
theorem paced_flush_drops_ack :
    ∃ c' n, (ackPending 5).flush plain ackCfg 0 0 (.ok ()) = some (c', [], .ok n) ∧
      (ackPending 5).rcv.ackList = [⟨0, 0, 5, 0⟩] ∧ c'.rcv.ackList = [] :=
  ⟨_, _, rfl, rfl, rfl⟩

theorem unpaced_flush_keeps_ack :
    ∃ c' out n, (ackPending 0).flush plain ackCfg 0 0 (.ok ()) = some (c', out, .ok n) ∧
      AcksKept (ackPending 0).rcv.ackList c'.rcv.ackList (out.filterMap Outgoing.carriedAck) := by
  have hok : ∃ c' out n, (ackPending 0).flush plain ackCfg 0 0 (.ok ()) = some (c', out, .ok n) := ⟨_, _, _, rfl⟩
  obtain ⟨c', out, n, hf⟩ := hok
  exact ⟨c', out, n, hf, (flush_keeps_acks_iff plain ackCfg _ _ _ _ _ _ _ hf).mpr
    (.inr ⟨Nat.zero_le _, by decide⟩)⟩

end Conn

end Qotp
