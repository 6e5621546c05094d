import Qotp.Conn.SessionMsg
import Qotp.Framework.Simulation
import Qotp.System.KeyAgreement
import Qotp.System.Link

namespace Qotp

open Framework

variable {Prv Pub : Type}

namespace Conn

/-- The streams, the buffers and the byte count are as they were. -/
structure SameBuffers (c c' : Conn Prv Pub) : Prop where
  streams : c'.streams = c.streams
  snd : c'.snd = c.snd
  rcv : c'.rcv = c.rcv
  dataInFlight : c'.dataInFlight = c.dataInFlight

theorem sameBuffers_refl (c : Conn Prv Pub) : c.SameBuffers c := ⟨rfl, rfl, rfl, rfl⟩

theorem Fresh.sameBuffers {c c' : Conn Prv Pub} (h : c.Fresh) (h' : c'.Fresh) : c.SameBuffers c' :=
  ⟨h'.streams.trans h.streams.symm, h'.snd.trans h.snd.symm, h'.rcv.trans h.rcv.symm,
    h'.dataInFlight.trans h.dataInFlight.symm⟩

end Conn

namespace Listener

variable {P : Primitives Prv Pub} {l l' : Listener Prv Pub} {d : Bytes} {rAddr now : Nat} {fresh : Except String Prv}

/-- `c` has the buffers of a connection that was there, or those of a new one. -/
def HasBuffersOf (l : Listener Prv Pub) (id : Nat) (c : Conn Prv Pub) : Prop :=
  (∀ c₀, l.connMap.get? id = some c₀ → c₀.SameBuffers c) ∧ (l.connMap.get? id = none → c.Fresh)

theorem hasBuffersOf_get {id : Nat} {c : Conn Prv Pub} (h : l.connMap.get? id = some c) : l.HasBuffersOf id c := by
  refine ⟨fun c₀ h₀ => ?_, fun hn => ?_⟩
  · cases h.symm.trans h₀
    exact Conn.sameBuffers_refl c
  · cases h.symm.trans hn

theorem HasBuffersOf.sameBuffers {id : Nat} {c c' : Conn Prv Pub} (h : l.HasBuffersOf id c) (hs : c.SameBuffers c') :
    l.HasBuffersOf id c' := by
  refine ⟨fun c₀ h₀ => ?_, fun hn => ?_⟩
  · have hc := h.1 c₀ h₀
    exact ⟨hs.streams.trans hc.streams, hs.snd.trans hc.snd, hs.rcv.trans hc.rcv,
      hs.dataInFlight.trans hc.dataInFlight⟩
  · have hc := h.2 hn
    exact ⟨hs.streams.trans hc.streams, hs.snd.trans hc.snd, hs.rcv.trans hc.rcv,
      hs.dataInFlight.trans hc.dataInFlight⟩

theorem Update.sameBuffers {c c' : Conn Prv Pub} (h : Update P l d c c') : c.SameBuffers c' := by
  cases h <;> exact ⟨rfl, rfl, rfl, rfl⟩

theorem openedConn_fresh (id rAddr : Nat) (x : Prv) (idKey ep : Option Pub) (isSender w : Bool) (secret : Option Bytes) :
    ({ openedConn id rAddr x idKey ep isSender w with sharedSecret := secret } : Conn Prv Pub).Fresh :=
  ⟨rfl, rfl, rfl, rfl⟩

/-- Opening a datagram touches keys and epochs only, also where it makes a connection; and
the settings of the listener stay. -/
theorem decode_holds {res : Except String Decoded} (h : l.decode P d rAddr fresh = some (l', res)) :
    (∀ c, l'.connMap.get? (connIdOf d) = some c → l.HasBuffersOf (connIdOf d) c) ∧
    (l'.connMap.get? (connIdOf d) = none → l.connMap.get? (connIdOf d) = none) ∧ l'.cfg = l.cfg := by
  cases hg : l.connMap.get? (connIdOf d) with
  | some c₀ =>
    obtain ⟨rfl, _⟩ | ⟨c', hu, rfl, _⟩ := (decode_effect P h).named c₀ hg
    · exact ⟨fun c hc => hasBuffersOf_get hc, fun hn => hg.symm.trans hn, rfl⟩
    · refine ⟨fun c hc => ?_, fun hn => ?_, rfl⟩
      · rw [get?_setConn, if_pos rfl] at hc
        cases hc
        exact (hasBuffersOf_get hg).sameBuffers hu.sameBuffers
      · rw [get?_setConn, if_pos rfl] at hn
        cases hn
  | none =>
    have hnew : ∀ c : Conn Prv Pub, c.Fresh → ∀ c', some c = some c' → l.HasBuffersOf (connIdOf d) c' := by
      intro c hf c' hc
      cases hc
      exact ⟨fun c₀ h₀ => (by cases hg.symm.trans h₀), fun _ => hf⟩
    cases decode_opening P hg h with
    | refused e => exact ⟨fun c hc => hasBuffersOf_get hc, fun _ => rfl, rfl⟩
    | halfOpen k z e err ht hk hf hq herr =>
      rw [get?_setConn, if_pos rfl]
      exact ⟨hnew _ ⟨rfl, rfl, rfl, rfl⟩, fun _ => rfl, rfl⟩
    | initSnd k z key ht hk hf hkey l₁ hl₁ =>
      rw [hl₁, get?_setConn, if_pos rfl]
      exact ⟨hnew _ (openedConn_fresh ..), fun _ => rfl, rfl⟩
    | initCryptoSnd m z ht hk hf l₁ hl₁ =>
      rw [hl₁, get?_setConn, if_pos rfl]
      exact ⟨hnew _ (openedConn_fresh ..), fun _ => rfl, rfl⟩

theorem markHandshake_sameBuffers (c : Conn Prv Pub) (t : CryptoMsgType) : c.SameBuffers (markHandshake c t) := by
  unfold markHandshake
  split_ifs <;> exact ⟨rfl, rfl, rfl, rfl⟩

/-- A datagram and the connection it names: the buffers are left alone, or they take the
payload of an accepted datagram. -/
theorem listen_holds {r : Except String (Option (Nat × Nat))} {id : Nat} (hid : connIdOf d = id)
    (h : l.listen P (.datagram d rAddr) fresh now = some (l', r)) :
    l'.cfg = l.cfg ∧
    (((∀ c, l'.connMap.get? id = some c → l.HasBuffersOf id c) ∧
      (l'.connMap.get? id = none → l.connMap.get? id = none)) ∨
    ∃ l₁ dec c₁ p u c₂ c', l.decode P d rAddr fresh = some (l₁, .ok dec) ∧ l.HasBuffersOf id c₁ ∧
      payloadOf dec = some (.ok (p, u)) ∧ c₁.decode p u d.length now = some c₂ ∧ c₂.SameBuffers c' ∧
      l'.connMap.get? id = some c') := by
  subst hid
  unfold listen at h
  dsimp only at h
  split_ifs at h
  · cases h
    exact ⟨rfl, .inl ⟨fun c hc => hasBuffersOf_get hc, fun hn => hn⟩⟩
  obtain ⟨⟨l₁, res⟩, hdec, h⟩ := Option.bind_eq_some_iff.mp h
  obtain ⟨hholds, hnone, hcfg⟩ := decode_holds hdec
  rcases res with e | dec
  · cases h
    exact ⟨hcfg, .inl ⟨hholds, hnone⟩⟩
  obtain ⟨hcid, _⟩ := (decode_effect P hdec).result dec rfl
  obtain ⟨c₀, hc₀, h⟩ := Option.bind_eq_some_iff.mp h
  obtain ⟨res, hpay, h⟩ := Option.bind_eq_some_iff.mp h
  rw [hcid] at hc₀ h
  generalize hc₁ : (if now > c₀.measurements.lastReadTimeNano then _ else c₀) = c₁ at h
  have hheld : l.HasBuffersOf (connIdOf d) c₁ := by
    refine (hholds c₀ hc₀).sameBuffers ?_
    rw [← hc₁]
    split_ifs <;> exact ⟨rfl, rfl, rfl, rfl⟩
  rcases res with e | ⟨p, u⟩
  · cases h
    refine ⟨hcfg, .inl ⟨fun c hc => ?_, fun hn => ?_⟩⟩
    · rw [get?_setConn, if_pos rfl] at hc
      cases hc
      exact hheld
    · rw [get?_setConn, if_pos rfl] at hn
      cases hn
  · obtain ⟨c₂, hd, h⟩ := Option.bind_eq_some_iff.mp h
    cases h
    refine ⟨hcfg, .inr ⟨l₁, dec, c₁, p, u, c₂, _, hdec, hheld, hpay, hd, markHandshake_sameBuffers c₂ dec.msgType, ?_⟩⟩
    rw [get?_setConn, if_pos rfl]

end Listener

namespace Endpoint

variable {P : Primitives Prv Pub} {l : ListenerCfg Prv} {e e' f : Endpoint Prv Pub} {op : ConnOp Prv Pub}

/-- What a call does to the connection does not depend on what was recorded before. -/
theorem step_recorded (hc : f.conn = e.conn) (hs : e.step P l op = some e') :
    ∃ f' out, f.step P l op = some f' ∧ f'.conn = e'.conn ∧ e'.sent = e.sent ++ out ∧ f'.sent = f.sent ++ out ∧
      (f.accepted = e.accepted → f'.accepted = e'.accepted) ∧ (f.delivered = e.delivered → f'.delivered = e'.delivered) := by
  cases op with
  | write k d wake =>
    obtain ⟨r, hr, rfl⟩ := Option.map_eq_some_iff.mp hs
    simp only [step, hc, hr, Option.map_some]
    exact ⟨_, [], rfl, rfl, (List.append_nil _).symm, (List.append_nil _).symm, fun h => by rw [h], id⟩
  | flush k now w =>
    obtain ⟨r, hr, rfl⟩ := Option.map_eq_some_iff.mp hs
    simp only [step, hc, hr, Option.map_some]
    exact ⟨_, r.2.1, rfl, rfl, rfl, rfl, id, id⟩
  | decode p u rawLen now =>
    obtain ⟨r, hr, rfl⟩ := Option.map_eq_some_iff.mp hs
    simp only [step, hc, hr, Option.map_some]
    exact ⟨_, [], rfl, rfl, (List.append_nil _).symm, (List.append_nil _).symm, id, id⟩
  | read k =>
    cases hs
    simp only [step, hc]
    exact ⟨_, [], rfl, rfl, (List.append_nil _).symm, (List.append_nil _).symm, id, fun h => by rw [h]⟩
  | ping k | close k | cleanup k | handshake c =>
    cases hs
    simp only [step, hc]
    exact ⟨_, [], rfl, rfl, (List.append_nil _).symm, (List.append_nil _).symm, id, id⟩

/-- The listener's work on a connection, as the one call that stands for it. -/
theorem step_handshake {c : Conn Prv Pub} (h : e.conn.SameBuffers c) :
    e.step P l (.handshake c) = some { e with conn := c } := by
  rw [step, ← h.streams, ← h.snd, ← h.rcv, ← h.dataInFlight]

end Endpoint

/-- A handshake and the session behind it as its users see it: the bytes that the writers of
each side queued and that its readers got. -/
structure Session (Prv Pub : Type) extends Handshake Prv Pub where
  accepted : Bool → Nat → Bytes := fun _ _ => []
  delivered : Bool → Nat → Bytes := fun _ _ => []

namespace Session

variable (P : Primitives Prv Pub) (id : Nat)

/-- A call on side `b`, with what it queues and hands out. -/
def call (s : Session Prv Pub) (b : Bool) (op : ConnOp Prv Pub) : Option (Session Prv Pub) :=
  ((s.side b).connMap.get? id).bind fun c =>
    (({ conn := c, accepted := s.accepted b, delivered := s.delivered b } : Endpoint Prv Pub).step P
        (s.side b).cfg op).map fun e =>
      { side := Function.update s.side b ((s.side b).setConn id e.conn)
        sent := Function.update s.sent b (s.sent b ++ e.sent.map fun o => (c.epochCryptoSnd, o))
        accepted := Function.update s.accepted b e.accepted
        delivered := Function.update s.delivered b e.delivered }

def step (s : Session Prv Pub) : HandshakeOp Prv Pub → Option (Session Prv Pub)
  | .call b op => if op.isLocal then s.call P id b op else none
  | .receive b i rAddr fresh now => (s.toHandshake.step P id (.receive b i rAddr fresh now)).map fun h =>
    { s with toHandshake := h }
  | .others b connMap => (s.toHandshake.step P id (.others b connMap)).map fun h => { s with toHandshake := h }

/-- Stream ids have 32 bits, fewer than 2^48 bytes are sent on each stream, and a datagram fits into the buffer of
one MTU that `Listen` reads it into: a longer one would be cut. -/
def Fits (s : Session Prv Pub) : HandshakeOp Prv Pub → Prop
  | .call b (.flush k _ _) => k < 2 ^ 32 ∧
    ∀ c ∈ (s.side b).connMap.get? id, (c.snd.stream k).bytesSentOffset < 2 ^ 48
  | .receive b i _ _ _ => ∀ x ∈ (s.sent !b)[i]?, (x.2.encData.length : Int) ≤ (s.side b).mtu
  | _ => True

instance (s : Session Prv Pub) : ∀ op, Decidable (s.Fits id op)
  | .call _ (.flush _ _ _) => inferInstanceAs (Decidable (_ ∧ _))
  | .receive b i _ _ _ =>
    inferInstanceAs (Decidable (∀ x ∈ (s.sent !b)[i]?, (x.2.encData.length : Int) ≤ (s.side b).mtu))
  | .call _ (.write _ _ _) | .call _ (.read _) | .call _ (.ping _) | .call _ (.close _) | .call _ (.decode _ _ _ _)
  | .call _ (.cleanup _) | .call _ (.handshake _) | .others _ _ => isTrue trivial

/-- Endpoint `e` is side `b`. A connection that is not there yet stands as a new one. -/
structure Models (s : Session Prv Pub) (b : Bool) (e : Endpoint Prv Pub) : Prop where
  accepted : e.accepted = s.accepted b
  delivered : e.delivered = s.delivered b
  sent : e.sent = (s.sent b).map Prod.snd
  conn : ∀ c, (s.side b).connMap.get? id = some c → e.conn = c
  fresh : (s.side b).connMap.get? id = none → e.conn.Fresh

variable {P id} {s t : Session Prv Pub} {b d : Bool}

/-- Then `Listen` reads the whole datagram. -/
theorem Fits.readFrom {i rAddr now : Nat} {fresh : Except String Prv} (h : s.Fits id (.receive b i rAddr fresh now))
    {x : Nat × Conn.Outgoing} (hx : (s.sent !b)[i]? = some x) :
    (s.side b).readFrom x.2.encData rAddr = .datagram x.2.encData rAddr :=
  Listener.readFrom_of_fits (h x hx) rAddr

/-- What a call on side `b` does to the recorded session. -/
structure Called (P : Primitives Prv Pub) (id : Nat) (s : Session Prv Pub) (b : Bool) (op : ConnOp Prv Pub)
    (t : Session Prv Pub) : Prop where
  isLocal : op.isLocal = true
  handshake : s.toHandshake.step P id (.call b op) = some t.toHandshake
  endpoint : ∀ e, s.Models id b e → ∃ e', e.step P (s.side b).cfg op = some e' ∧ t.Models id b e'
  others : ∀ d ≠ b, ∀ e, s.Models id d e → t.Models id d e

/-- A datagram is no call. -/
theorem Called.not_decode {op : ConnOp Prv Pub} (h : Called P id s b op t) (p : PayloadHeader) (u : Option Bytes)
    (rawLen now : Nat) : op ≠ .decode p u rawLen now := by
  intro hop
  have hlocal := h.isLocal
  rw [hop] at hlocal
  cases hlocal

theorem step_called {op : ConnOp Prv Pub} (h : s.step P id (.call b op) = some t) : Called P id s b op t := by
  simp only [step] at h
  split_ifs at h with hop
  obtain ⟨c, hget, h⟩ := Option.bind_eq_some_iff.mp h
  obtain ⟨e₀, he₀, rfl⟩ := Option.map_eq_some_iff.mp h
  refine ⟨hop, ?_, fun e he => ?_, fun d hd e he => ?_⟩
  · obtain ⟨f, out, hf, hconn, hout, hout', _, _⟩ :=
      Endpoint.step_recorded (f := { conn := c }) (e := { conn := c, accepted := s.accepted b, delivered := s.delivered b }) rfl he₀
    simp only [Handshake.step, if_pos hop, Handshake.call, hget, Option.bind_some, hf, Option.map_some, hconn, hout, hout']
  · obtain ⟨f, out, hf, hconn, hout, hout', hacc, hdel⟩ :=
      Endpoint.step_recorded (f := e) (he.conn c hget) he₀
    refine ⟨f, hf, ?_, ?_, ?_, fun c' hc' => ?_, fun hn => ?_⟩
    · dsimp only
      rw [hacc he.accepted, Function.update_self]
    · dsimp only
      rw [hdel he.delivered, Function.update_self]
    · dsimp only
      rw [hout', he.sent, hout, Function.update_self, List.map_append, List.map_map, List.nil_append]
      exact congrArg _ (List.map_id _).symm
    · rw [Handshake.get?_update, if_pos rfl, Listener.get?_setConn, if_pos rfl] at hc'
      cases hc'
      exact hconn
    · rw [Handshake.get?_update, if_pos rfl, Listener.get?_setConn, if_pos rfl] at hn
      cases hn
  · refine ⟨?_, ?_, ?_, fun c' hc' => ?_, fun hn => ?_⟩
    · dsimp only
      rw [Function.update_of_ne hd]
      exact he.accepted
    · dsimp only
      rw [Function.update_of_ne hd]
      exact he.delivered
    · dsimp only
      rw [Function.update_of_ne hd]
      exact he.sent
    · rw [Handshake.get?_update, if_neg hd] at hc'
      exact he.conn c' hc'
    · rw [Handshake.get?_update, if_neg hd] at hn
      exact he.fresh hn

end Session

end Qotp
