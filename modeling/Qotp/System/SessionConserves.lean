import Qotp.System.Conservation
import Qotp.System.SessionRefine

namespace Qotp

open Framework

variable {Prv Pub : Type}

instance (sb : SendBuffer) (k : Nat) : Decidable (sb.NoDataLeft k) := inferInstanceAs (Decidable (_ ∧ _))

theorem SendBuffer.not_holds_new (capacity : Int) (k i : Nat) (x : UInt8) : ¬ (SendBuffer.new capacity).Holds k i x := by
  intro h
  obtain ⟨_, h⟩ | ⟨v, hv, _⟩ := h
  · cases h
  · cases hv

theorem ReceiveBuffer.not_holds_new (capacity : Int) (k i : Nat) (x : UInt8) :
    ¬ (ReceiveBuffer.new capacity).Holds k i x := by
  intro h
  obtain ⟨v, hv, _⟩ := h
  cases hv

namespace Session

variable (id : Nat)

/-- Where byte `i` of stream `k`, with value `x`, is that was written opposite to side `b`: in the send
buffer there, in the receive buffer here, or with the reader. -/
def Locates (s : Session Prv Pub) (b : Bool) (k i : Nat) (x : UInt8) : Prop :=
  (∃ c, (s.side !b).connMap.get? id = some c ∧ c.snd.Holds k i x) ∨
  (∃ c, (s.side b).connMap.get? id = some c ∧ c.rcv.Holds k i x) ∨ (s.delivered b k)[i]? = some x

/-- On stream `k` there is nothing left to send to side `b` and nothing to read there. -/
def Quiet (s : Session Prv Pub) (b : Bool) (k : Nat) : Prop :=
  (∀ c ∈ (s.side !b).connMap.get? id, c.snd.NoDataLeft k) ∧
  ∀ c ∈ (s.side b).connMap.get? id, (c.rcv.removeOldestInOrder k).2.2.1 = none

instance (s : Session Prv Pub) (b : Bool) (k : Nat) : Decidable (s.Quiet id b k) := inferInstanceAs (Decidable (_ ∧ _))

variable {id} {P : Primitives Prv Pub} {s t : Session Prv Pub} {b : Bool} {e : Endpoint Prv Pub} {k i : Nat} {x : UInt8}

theorem Models.snd_holds (h : s.Models id b e) (hx : e.conn.snd.Holds k i x) :
    ∃ c, (s.side b).connMap.get? id = some c ∧ c.snd.Holds k i x := by
  cases hg : (s.side b).connMap.get? id with
  | some c => exact ⟨c, rfl, h.conn c hg ▸ hx⟩
  | none =>
    rw [(h.fresh hg).snd] at hx
    exact absurd hx (SendBuffer.not_holds_new _ k i x)

theorem Models.rcv_holds (h : s.Models id b e) (hx : e.conn.rcv.Holds k i x) :
    ∃ c, (s.side b).connMap.get? id = some c ∧ c.rcv.Holds k i x := by
  cases hg : (s.side b).connMap.get? id with
  | some c => exact ⟨c, rfl, h.conn c hg ▸ hx⟩
  | none =>
    rw [(h.fresh hg).rcv] at hx
    exact absurd hx (ReceiveBuffer.not_holds_new _ k i x)

theorem Models.snd_drained (h : s.Models id b e) (hd : ∀ c ∈ (s.side b).connMap.get? id, c.snd.NoDataLeft k) :
    e.conn.snd.NoDataLeft k := by
  cases hg : (s.side b).connMap.get? id with
  | some c =>
    rw [h.conn c hg]
    exact hd c hg
  | none =>
    rw [(h.fresh hg).snd]
    exact ⟨rfl, nofun⟩

theorem Models.rcv_read (h : s.Models id b e)
    (hr : ∀ c ∈ (s.side b).connMap.get? id, (c.rcv.removeOldestInOrder k).2.2.1 = none) :
    (e.conn.rcv.removeOldestInOrder k).2.2.1 = none := by
  cases hg : (s.side b).connMap.get? id with
  | some c =>
    rw [h.conn c hg]
    exact hr c hg
  | none =>
    rw [(h.fresh hg).rcv]
    rfl

/-- Behind a run of the session stands a channel that lost no byte. -/
theorem run_conserved (hP : P.Correct) {a : Prv} {d₀ d l : Listener Prv Pub} {c : Conn Prv Pub}
    (hdial : Dialed P d₀ d l a c) (hl : l.connMap.get? c.connId = none) (hd : 119 ≤ d.mtu ∧ d.mtu ≤ 65507)
    (hm : 119 ≤ l.mtu ∧ l.mtu ≤ 65535) {ops : List (HandshakeOp Prv Pub)}
    (hok : Along (step P c.connId) (fun s op => s.Fits c.connId op ∧ s.Safe c.connId op) (start d l) ops)
    (hrun : run (step P c.connId) (start d l) ops = some t) :
    ∃ ch : Channel Prv Pub, ch.Conserved ∧ ∀ b, t.Models c.connId b (ch.side b) := by
  have hok' : Along (step P c.connId) (Meets c.connId True False) (start d l) ops :=
    along_mono (fun _ _ h => ⟨h.1, fun _ => h.2, nofun⟩) hok
  obtain ⟨hfresh, chops, ch, ha, hr, hlink⟩ := run_mirrors hP hdial hl hd.2 hok' hrun
  have hsafe : Along (Channel.step P (settings d l)) (fun s op => s.Fits op ∧ s.Safe op) ⟨fun _ => { conn := c }⟩ chops :=
    along_mono (fun _ _ h => ⟨h.1, h.2.1 trivial⟩) ha
  exact ⟨ch, Channel.run_conserved (settings_mtu hd hm) (Channel.conserved_fresh fun _ => hfresh) hsafe hr, hlink.models⟩

/-- A byte that a write accepted is never lost: at any moment it is queued or in flight at its writer,
stored at the receiver, or read. -/
theorem session_loses_nothing (hP : P.Correct) (a : Prv) (d₀ d l : Listener Prv Pub) (c : Conn Prv Pub)
    (hdial : Dialed P d₀ d l a c) (hl : l.connMap.get? c.connId = none) (hd : 119 ≤ d.mtu ∧ d.mtu ≤ 65507)
    (hm : 119 ≤ l.mtu ∧ l.mtu ≤ 65535) (ops : List (HandshakeOp Prv Pub)) (t : Session Prv Pub)
    (hok : Along (step P c.connId) (fun s op => s.Fits c.connId op ∧ s.Safe c.connId op) (start d l) ops)
    (hrun : run (step P c.connId) (start d l) ops = some t) (b : Bool) (k i : Nat) (x : UInt8)
    (hx : (t.accepted (!b) k)[i]? = some x) : t.Locates c.connId b k i x := by
  obtain ⟨ch, hcons, hmodels⟩ := run_conserved hP hdial hl hd hm hok hrun
  rw [← (hmodels (!b)).accepted] at hx
  obtain h | h | h := hcons.located hx
  · exact .inl ((hmodels (!b)).snd_holds h)
  · exact .inr (.inl ((hmodels b).rcv_holds h))
  · rw [(hmodels b).delivered] at h
    exact .inr (.inr h)

theorem zeroRtt_safe : Along (step plainHonest zeroRttConn.connId)
    (fun s op => s.Fits zeroRttConn.connId op ∧ s.Safe zeroRttConn.connId op)
    (start (zeroRttDialer.setConn zeroRttConn.connId zeroRttConn) zeroRttListener) zeroRttOps := by decide +kernel

theorem zeroRtt_quiet : ∃ t ∈ run (step plainHonest zeroRttConn.connId)
      (start (zeroRttDialer.setConn zeroRttConn.connId zeroRttConn) zeroRttListener) zeroRttOps,
    t.accepted true 0 = [1, 2, 3] ∧ t.accepted false 0 = [4, 5] ∧ t.Quiet zeroRttConn.connId false 0 := by decide +kernel

theorem zeroRtt_loses_nothing : ∃ t, run (step plainHonest zeroRttConn.connId)
      (start (zeroRttDialer.setConn zeroRttConn.connId zeroRttConn) zeroRttListener) zeroRttOps = some t ∧
    t.Locates zeroRttConn.connId true 0 1 5 := by
  obtain ⟨t, ht, _, hacc, _⟩ := zeroRtt_quiet
  exact ⟨t, ht, session_loses_nothing plainHonest_correct _ _ _ _ _ zeroRtt_dialed rfl (by decide) (by decide)
    zeroRttOps t zeroRtt_safe ht true 0 1 5 (by rw [Bool.not_true, hacc]; rfl)⟩

/-- Once a writer has nothing queued and no data in flight, and reading gives nil, the reader has
all that was written. -/
theorem session_completes (hP : P.Correct) (a : Prv) (d₀ d l : Listener Prv Pub) (c : Conn Prv Pub)
    (hdial : Dialed P d₀ d l a c) (hl : l.connMap.get? c.connId = none) (hd : 119 ≤ d.mtu ∧ d.mtu ≤ 65507)
    (hm : 119 ≤ l.mtu ∧ l.mtu ≤ 65535) (ops : List (HandshakeOp Prv Pub)) (t : Session Prv Pub)
    (hok : Along (step P c.connId) (fun s op => s.Fits c.connId op ∧ s.Safe c.connId op) (start d l) ops)
    (hrun : run (step P c.connId) (start d l) ops = some t) (b : Bool) (k : Nat) (hq : t.Quiet c.connId b k) :
    t.delivered b k = t.accepted (!b) k := by
  obtain ⟨ch, hcons, hmodels⟩ := run_conserved hP hdial hl hd hm hok hrun
  rw [← (hmodels (!b)).accepted, ← (hmodels b).delivered]
  exact hcons.drained ((hmodels (!b)).snd_drained hq.1) ((hmodels b).rcv_read hq.2)

theorem zeroRtt_completes : ∃ t, run (step plainHonest zeroRttConn.connId)
      (start (zeroRttDialer.setConn zeroRttConn.connId zeroRttConn) zeroRttListener) zeroRttOps = some t ∧
    t.accepted true 0 = [1, 2, 3] ∧ t.delivered false 0 = t.accepted true 0 := by
  obtain ⟨t, ht, hacc, _, hq⟩ := zeroRtt_quiet
  exact ⟨t, ht, hacc, session_completes plainHonest_correct _ _ _ _ _ zeroRtt_dialed rfl (by decide) (by decide)
    zeroRttOps t zeroRtt_safe ht false 0 hq⟩

end Session

end Qotp
