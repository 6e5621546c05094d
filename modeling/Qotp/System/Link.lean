import Qotp.Buffer.ReceiveFaithful
import Qotp.Conn.EndpointFrame
import Qotp.Wire.RoundTrip

namespace Qotp

open Framework

variable {Prv Pub : Type}

/-- The two ends of a connection, and between them a network that keeps every datagram
the peer ever wrote: any of them may arrive any number of times, in any order, or never. -/
structure Link (Prv Pub : Type) where
  peer : Endpoint Prv Pub
  self : Endpoint Prv Pub

/-- The peer is called in any way and receives anything; the local side receives what the
peer wrote. -/
inductive LinkOp (Prv Pub : Type) where
  | peer (op : ConnOp Prv Pub)
  | self (op : ConnOp Prv Pub)
  | arrive (i nowNano : Nat)

/-- What the local side decodes of a datagram that it opens; an InitSnd has no payload. -/
def Conn.Outgoing.payload (o : Conn.Outgoing) : Option (Except String (PayloadHeader × Option Bytes)) :=
  if o.msgType = .initSnd then some (.ok ({}, some []))
  else decodePayload (encodePayload o.header o.userData).1

namespace Link

variable (P : Primitives Prv Pub) (lp ls : ListenerCfg Prv)

/-- The packet in datagram `i`. -/
def received (s : Link Prv Pub) (i : Nat) : Option (PayloadHeader × Option Bytes) :=
  s.peer.sent[i]?.bind fun o => o.payload.bind Except.toOption

def step (s : Link Prv Pub) : LinkOp Prv Pub → Option (Link Prv Pub)
  | .peer op => (s.peer.step P lp op).map fun e => { s with peer := e }
  | .self (.decode _ _ _ _) => none
  | .self op => (s.self.step P ls op).map fun e => { s with self := e }
  | .arrive i now => do
    let o ← s.peer.sent[i]?
    match ← o.payload with
    | .error _ => some s
    | .ok (p, u) => (s.self.step P ls (.decode p u o.encData.length now)).map fun e => { s with self := e }

/-- Stream ids have 32 bits, and fewer than 2^48 bytes are sent on each stream. -/
def Fits (s : Link Prv Pub) : LinkOp Prv Pub → Prop
  | .peer (.flush k _ _) => k < 2 ^ 32 ∧ (s.peer.conn.snd.stream k).bytesSentOffset < 2 ^ 48
  | _ => True

instance (s : Link Prv Pub) : ∀ op, Decidable (s.Fits op)
  | .peer (.flush _ _ _) => inferInstanceAs (Decidable (_ ∧ _))
  | .peer (.write _ _ _) | .peer (.read _) | .peer (.ping _) | .peer (.close _) | .peer (.decode _ _ _ _)
  | .peer (.cleanup _) | .peer (.handshake _) | .self _ | .arrive _ _ => isTrue trivial

/-- The peer has closed the stream, so what it wrote is all there will be. -/
def PeerClosed (s : Link Prv Pub) (k : Nat) : Prop := (s.peer.conn.snd.stream k).closeAtOffset.isSome = true

structure Inv (s : Link Prv Pub) : Prop where
  peer : s.peer.Inv
  ids : ∀ o ∈ s.peer.sent, o.header.streamID < 2 ^ 32
  keyed : s.self.conn.StreamsKeyed
  rcv : RcvFaithful s.peer.accepted s.self.conn.rcv s.self.delivered
  closed : ∀ k c, (s.self.conn.rcv.stream k).closeAtOffset = some c → s.PeerClosed k

theorem inv_fresh {cp cs : Conn Prv Pub} (hp : cp.Fresh) (hs : cs.Fresh) : Inv ⟨{ conn := cp }, { conn := cs }⟩ := by
  refine ⟨Endpoint.inv_fresh hp, nofun, ?_, ?_, fun k c hc => ?_⟩
  · exact (Endpoint.inv_fresh hs).keyed
  · change RcvFaithful _ cs.rcv _
    rw [hs.rcv]
    exact rcvFaithful_new _ _
  · change (cs.rcv.stream k).closeAtOffset = some c at hc
    rw [hs.rcv] at hc
    cases hc

variable {P lp ls} {s t : Link Prv Pub}

/-- What arrives is genuine: no field is cut by its width on the wire. -/
theorem Inv.received_genuine (h : Inv s) {i : Nat} {p : PayloadHeader} {u : Option Bytes}
    (hr : s.received i = some (p, u)) :
    Genuine s.peer.accepted s.peer.conn.snd p.streamID (u.getD []) p.streamOffset p.isClose := by
  have hbare : ∀ k, Genuine s.peer.accepted s.peer.conn.snd k [] 0 false :=
    fun k => ⟨by decide, fun hd => absurd rfl hd, nofun⟩
  obtain ⟨o, ho, hr⟩ := Option.bind_eq_some_iff.mp hr
  obtain ⟨r, hp, hok⟩ := Option.bind_eq_some_iff.mp hr
  have hmem := List.mem_of_getElem? ho
  have hc := h.peer.sent o hmem
  unfold Conn.Outgoing.payload at hp
  split_ifs at hp with hinit
  · cases hp
    cases hok
    exact hbare 0
  · rw [decodePayload_encodePayload, wireImage] at hp
    split_ifs at hp
    · cases hp
      cases hok
      exact hbare 0
    · cases hp
      cases hok
      dsimp only [Option.getD_some]
      rw [Nat.mod_eq_of_lt (h.ids o hmem), Nat.mod_eq_of_lt hc.offset]
      exact hc

/-- What can happen on a link. -/
theorem step_cases {op : LinkOp Prv Pub} (hs : s.step P lp ls op = some t) :
    (∃ op' e, op = .peer op' ∧ s.peer.step P lp op' = some e ∧ t = { s with peer := e }) ∨
    (∃ op' e, op = .self op' ∧ (∀ p u rawLen now, op' ≠ .decode p u rawLen now) ∧
      s.self.step P ls op' = some e ∧ t = { s with self := e }) ∨
    (∃ i now, op = .arrive i now ∧ (t = s ∨ ∃ p u rawLen c, s.received i = some (p, u) ∧
      s.self.conn.decode p u rawLen now = some c ∧ t = { s with self := { s.self with conn := c } })) := by
  cases op with
  | peer op =>
    obtain ⟨e, he, rfl⟩ := Option.map_eq_some_iff.mp hs
    exact .inl ⟨op, e, rfl, he, rfl⟩
  | self op =>
    cases op with
    | decode p u rawLen now => cases hs
    | write | read | ping | close | flush | cleanup | handshake =>
      simp only [step] at hs
      obtain ⟨e, he, rfl⟩ := Option.map_eq_some_iff.mp hs
      exact .inr (.inl ⟨_, e, rfl, nofun, he, rfl⟩)
  | arrive i now =>
    refine .inr (.inr ⟨i, now, rfl, ?_⟩)
    obtain ⟨o, ho, hs⟩ := Option.bind_eq_some_iff.mp hs
    obtain ⟨r, hr, hs⟩ := Option.bind_eq_some_iff.mp hs
    rcases r with err | ⟨p, u⟩
    · cases hs
      exact .inl rfl
    · obtain ⟨e, he, rfl⟩ := Option.map_eq_some_iff.mp hs
      obtain ⟨c, hc, rfl⟩ := Option.map_eq_some_iff.mp he
      have hrec : s.received i = some (p, u) :=
        Option.bind_eq_some_iff.mpr ⟨o, ho, Option.bind_eq_some_iff.mpr ⟨_, hr, rfl⟩⟩
      exact .inr ⟨p, u, _, c, hrec, hc, rfl⟩

theorem Fits.offsetsFit {op : ConnOp Prv Pub} (h : s.Fits (.peer op)) : s.peer.OffsetsFit op := by
  cases op with
  | flush k now w => exact h.2
  | _ => trivial

/-- The peer does not open a stream again. -/
theorem PeerClosed.peer {k : Nat} (h : s.PeerClosed k) (hi : Inv s) {op : ConnOp Prv Pub} {e : Endpoint Prv Pub}
    (hs : s.peer.step P lp op = some e) : ({ s with peer := e } : Link Prv Pub).PeerClosed k := by
  unfold PeerClosed at h ⊢
  obtain hsame | ⟨hnone, _⟩ := Endpoint.step_marks hi.peer.keyed hs k
  · dsimp only
    rwa [hsame]
  · rw [hnone] at h
    cases h

theorem inv_peer (hmtu : 119 ≤ lp.mtu ∧ lp.mtu ≤ 65535) (h : Inv s) {op : ConnOp Prv Pub} {e : Endpoint Prv Pub}
    (hfit : s.Fits (.peer op)) (hs : s.peer.step P lp op = some e) : Inv { s with peer := e } := by
  refine ⟨Endpoint.step_inv hmtu _ op _ h.peer hfit.offsetsFit hs, fun o ho => ?_, h.keyed,
    h.rcv.mono (Endpoint.step_accepted hs), fun k c hc => (h.closed k c hc).peer h hs⟩
  obtain ho | ⟨now, w, rfl⟩ := Endpoint.step_sent hs o ho
  · exact h.ids o ho
  · exact hfit.1

/-- A closed stream accepts nothing more. -/
theorem PeerClosed.accepted {k : Nat} (h : s.PeerClosed k) (hi : Inv s) {op : ConnOp Prv Pub}
    {e : Endpoint Prv Pub} (hs : s.peer.step P lp op = some e) (he : e.Inv) : e.accepted k = s.peer.accepted k := by
  obtain ⟨c, hc⟩ := Option.isSome_iff_exists.mp h
  have hmark : (e.conn.snd.stream k).closeAtOffset = some c := by
    obtain hsame | ⟨hnone, _⟩ := Endpoint.step_marks hi.peer.keyed hs k
    · rw [hsame, hc]
    · rw [hc] at hnone
      cases hnone
  have h₁ := hi.peer.snd.closed k c hc
  have h₂ := he.snd.closed k c hmark
  exact ((Endpoint.step_accepted hs k).eq_of_length (by omega)).symm

theorem inv_self (h : Inv s) {op : ConnOp Prv Pub} {e : Endpoint Prv Pub}
    (hd : ∀ p u rawLen now, op ≠ .decode p u rawLen now) (hs : s.self.step P ls op = some e) :
    Inv { s with self := e } := by
  have hk := Endpoint.step_keyed h.keyed hs
  by_cases hr : ∃ k, op = .read k
  · obtain ⟨k, rfl⟩ := hr
    cases hs
    obtain ⟨hread, hmark⟩ := Endpoint.readOf_rcv h.keyed k
    refine ⟨h.peer, h.ids, hk, ?_, fun j c hc => h.closed j c ((hmark j).symm.trans hc)⟩
    change RcvFaithful _ (s.self.readOf k).1.rcv (Function.update _ k (_ ++ (s.self.readOf k).2.1.getD []))
    obtain ⟨hrcv, hdata⟩ | ⟨hrcv, hdata⟩ := hread
    · rw [hrcv, hdata]
      simpa using h.rcv
    · rw [hrcv, hdata]
      exact h.rcv.remove k
  · obtain ⟨hstr, hdel, _⟩ := Endpoint.step_rcv hs (fun k hk => hr ⟨k, hk⟩) hd
    refine ⟨h.peer, h.ids, hk, ?_, fun k c hc => ?_⟩
    · dsimp only
      rw [hdel]
      exact h.rcv.congr fun j => by rw [hstr j]
    · dsimp only at hc
      rw [hstr k] at hc
      exact h.closed k c hc

theorem inv_decode (h : Inv s) {i rawLen now : Nat} {p : PayloadHeader} {u : Option Bytes} {c : Conn Prv Pub}
    (hr : s.received i = some (p, u)) (hd : s.self.conn.decode p u rawLen now = some c) :
    Inv { s with self := { s.self with conn := c } } := by
  have hg := h.received_genuine hr
  obtain ⟨s₁, hstr, hfr, hs₁⟩ := Conn.decode_rcv h.keyed hd
  have hold := h.rcv.pieces p.streamID
  have hp : s₁.Pieces (s.peer.accepted p.streamID) := by
    obtain ⟨_, rfl⟩ | ⟨hst, delta, st, hins⟩ := hs₁
    · exact hold
    · exact hold.insert hst.1 (hg.data hst.1) hins
  have hnext : s₁.nextInOrderOffsetToWaitFor =
      (s.self.conn.rcv.stream p.streamID).nextInOrderOffsetToWaitFor := by rw [hfr]
  refine ⟨h.peer, h.ids, Endpoint.decode_keyed h.keyed hd, ?_, fun k c' hc => ?_⟩
  · cases hcl : p.isClose with
    | true =>
      simp only [hcl, if_true, RcvBuffer.close_eq] at hstr
      exact h.rcv.put hstr (hp.sub fun _ he => he) hnext
    | false =>
      simp only [hcl, Bool.false_eq_true, if_false] at hstr
      exact h.rcv.put hstr hp hnext
  · dsimp only at hc
    rw [hstr k] at hc
    split_ifs at hc with hk hcl
    · obtain ⟨c, hc, _⟩ := hg.close hcl
      rw [hk]
      exact Option.isSome_iff_exists.mpr ⟨c, hc⟩
    · rw [hfr] at hc
      exact h.closed k c' (hk ▸ hc)
    · exact h.closed k c' hc

theorem step_inv (hmtu : 119 ≤ lp.mtu ∧ lp.mtu ≤ 65535) (s : Link Prv Pub) (op : LinkOp Prv Pub)
    (t : Link Prv Pub) (h : Inv s) (hfit : s.Fits op) (hs : s.step P lp ls op = some t) : Inv t := by
  obtain ⟨op', e, rfl, he, rfl⟩ | ⟨op', e, rfl, hd, he, rfl⟩ | ⟨i, now, rfl, rfl | ⟨p, u, rawLen, c, hr, hc, rfl⟩⟩ :=
    step_cases hs
  · exact inv_peer hmtu h hfit he
  · exact inv_self h hd he
  · exact h
  · exact inv_decode h hr hc

end Link

end Qotp
