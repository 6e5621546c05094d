import Qotp.Conn.Effects
import Qotp.Conn.NonceUse

namespace Qotp

open Framework

namespace Conn

variable {Prv Pub : Type} (P : Primitives Prv Pub) (l : ListenerCfg Prv) {c c' c'' : Conn Prv Pub}

theorem SameCrypto.counters (h : SameCrypto c c') : SameCounters c c' := by
  obtain ⟨_, _, _, _, _, _, _, rfl⟩ := h
  exact ⟨rfl, rfl, rfl⟩

theorem takeAck_sameCrypto (c : Conn Prv Pub) : SameCrypto c c.takeAck.1 := ⟨_, _, _, _, _, _, _, rfl⟩

/-- One datagram is encoded between `c` and `c'`. It goes out unless the write fails. -/
def EncodesOne (c c' : Conn Prv Pub) (out : List Outgoing) : Prop :=
  ∃ c₁ p u c₂ res, SameCrypto c c₁ ∧ c₁.encode P l p u c.msgType = some (c₂, res) ∧ SameCrypto c₂ c' ∧
    (out = [] ∨ ∃ enc, res = .ok enc ∧ out = [⟨p, u, c.msgType, enc⟩])

/-- At most one datagram is encoded. -/
def Encodes (c c' : Conn Prv Pub) (out : List Outgoing) : Prop :=
  (out = [] ∧ SameCrypto c c') ∨ EncodesOne P l c c' out

variable {P l}

theorem SameCrypto.msgType_eq (h : SameCrypto c c') : c'.msgType = c.msgType := by
  obtain ⟨_, _, _, _, _, _, _, rfl⟩ := h
  rfl

theorem EncodesOne.after {out : List Outgoing} (hs : SameCrypto c c') (h : EncodesOne P l c' c'' out) :
    EncodesOne P l c c'' out := by
  obtain ⟨c₁, p, u, c₂, res, h₁, he, h₂, hout⟩ := h
  rw [hs.msgType_eq] at he hout
  exact ⟨c₁, p, u, c₂, res, hs.trans h₁, he, h₂, hout⟩

theorem Encodes.after {out : List Outgoing} (hs : SameCrypto c c') (h : Encodes P l c' c'' out) :
    Encodes P l c c'' out := by
  obtain ⟨hout, h⟩ | h := h
  · exact .inl ⟨hout, hs.trans h⟩
  · exact .inr (h.after hs)

variable {k now : Nat} {ack : Option Ack} {w : WriteResult} {out : List Outgoing} {r : FlushResult}

theorem sendPacket_encodes {d : Bytes} {o : Nat} {isClose track : Bool}
    (h : c.sendPacket P l k ack d o isClose c.msgType now track w = some (c', out, r)) : EncodesOne P l c c' out := by
  obtain ⟨⟨c₁, res⟩, he, h⟩ := Option.bind_eq_some_iff.mp h
  refine ⟨c, _, _, c₁, res, SameCrypto.refl c, he, ?_⟩
  cases res with
  | error e =>
    cases h
    exact ⟨SameCrypto.refl _, .inl rfl⟩
  | ok enc =>
    cases w with
    | error e =>
      cases h
      exact ⟨SameCrypto.refl _, .inl rfl⟩
    | ok _ =>
      cases h
      refine ⟨?_, .inr ⟨enc, rfl, rfl⟩⟩
      cases track <;> exact ⟨_, _, _, _, _, _, _, rfl⟩

theorem writeAck_encodes (h : c.writeAck P l k ack now w = some (c', out, r)) : EncodesOne P l c c' out := by
  obtain ⟨⟨c₁, res⟩, he, h⟩ := Option.bind_eq_some_iff.mp h
  refine ⟨c, _, _, c₁, res, SameCrypto.refl c, he, ?_⟩
  cases res with
  | error e =>
    cases h
    exact ⟨SameCrypto.refl _, .inl rfl⟩
  | ok enc =>
    cases w with
    | error e =>
      cases h
      exact ⟨SameCrypto.refl _, .inl rfl⟩
    | ok _ =>
      cases h
      exact ⟨⟨_, _, _, _, _, _, _, rfl⟩, .inr ⟨enc, rfl, rfl⟩⟩

theorem flushSend_encodes (h : c.flushSend P l k ack now w = some (c', out, r)) : Encodes P l c c' out := by
  unfold flushSend at h
  split_ifs at h with hs ha
  · rcases hr : c.snd.readyToSend k c.msgType ack l.mtu now with ⟨snd, data, o, isClose⟩
    have hsnd : SameCrypto c { c with snd := snd } := ⟨_, _, _, _, _, _, _, rfl⟩
    simp only [hr] at h
    cases data with
    | some d => exact .inr (EncodesOne.after hsnd (sendPacket_encodes h))
    | none =>
      dsimp only at h
      split_ifs at h
      · exact .inr (EncodesOne.after hsnd (writeAck_encodes h))
      · cases h
        exact .inl ⟨rfl, hsnd⟩
  · exact .inr (writeAck_encodes h)
  · cases h
    exact .inl ⟨rfl, SameCrypto.refl c⟩

/-- A call of `Flush` encodes at most one datagram, of the type and with the keys and counters
the connection has before the call. -/
theorem flush_encodes (h : c.flush P l k now w = some (c', out, r)) : Encodes P l c c' out := by
  refine Encodes.after (takeAck_sameCrypto c) ?_
  unfold flush at h
  dsimp only at h
  split_ifs at h with hp hw ha
  · cases h
    exact .inl ⟨rfl, SameCrypto.refl _⟩
  · exact .inr (writeAck_encodes h)
  · cases h
    exact .inl ⟨rfl, SameCrypto.refl _⟩
  · obtain ⟨⟨snd, res⟩, _, h⟩ := Option.bind_eq_some_iff.mp h
    rcases res with e | ⟨_ | d, o, isClose⟩
    · cases h
      exact .inl ⟨rfl, _, _, _, _, _, _, _, rfl⟩
    · exact (flushSend_encodes h).after ⟨_, _, _, _, _, _, _, rfl⟩
    · exact .inr ((sendPacket_encodes h).after ⟨_, _, _, _, _, _, _, rfl⟩)

/-- Short of the wrap the counters move by at most one place. -/
theorem flush_position (hc : CountersOk c) (hsn : c.snCrypto + 1 < 2 ^ 64)
    (h : c.flush P l k now w = some (c', out, r)) :
    CountersOk c' ∧ c'.position ≤ c.position + 1 := by
  obtain ⟨_, hs⟩ | ⟨c₁, p, u, c₂, res, h₁, he, h₂, _⟩ := flush_encodes h
  · exact ⟨hs.counters.countersOk hc, hs.counters.position_eq.le.trans (Nat.le_succ _)⟩
  · have hc₁ := h₁.counters.countersOk hc
    have hp₁ := h₁.counters.position_eq
    obtain ⟨e, rfl, _⟩ | ⟨d, enc, hd, hadv⟩ := encode_counters P l he
    · exact ⟨h₂.counters.countersOk hc₁, (h₂.counters.position_eq.trans hp₁).le.trans (Nat.le_succ _)⟩
    · have hsn' : d.snCrypto + 1 < 2 ^ 64 := by
        rw [hd.2.1, h₁.counters.2.1]
        exact hsn
      obtain ⟨hok, hpos⟩ := advanceSn_position (hd.countersOk hc₁) hsn' enc
      rw [← hadv] at hok hpos
      refine ⟨h₂.counters.countersOk hok, ?_⟩
      rw [h₂.counters.position_eq, hpos, hd.position_eq, hp₁]

end Conn

end Qotp
