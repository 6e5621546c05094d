import Qotp.Buffer.ReceiveSafe
import Qotp.Conn.Unsplit
import Qotp.Framework.Simulation
import Qotp.System.Link

namespace Qotp

open Framework

variable {Prv Pub : Type}

/-- Two ends that hear only each other, over a network that keeps every datagram: any of
them may arrive any number of times, in any order, or never. -/
structure Channel (Prv Pub : Type) where
  side : Bool → Endpoint Prv Pub

/-- A side is called, or a datagram of the other side arrives. -/
inductive ChannelOp (Prv Pub : Type) where
  | call (side : Bool) (op : ConnOp Prv Pub)
  | arrive (side : Bool) (i nowNano : Nat)

namespace Channel

variable (P : Primitives Prv Pub) (cfg : Bool → ListenerCfg Prv)

/-- What one side hears of the other. -/
def link (s : Channel Prv Pub) (b : Bool) : Link Prv Pub := ⟨s.side !b, s.side b⟩

def set (s : Channel Prv Pub) (b : Bool) (e : Endpoint Prv Pub) : Channel Prv Pub := ⟨Function.update s.side b e⟩

def step (s : Channel Prv Pub) : ChannelOp Prv Pub → Option (Channel Prv Pub)
  | .call _ (.decode _ _ _ _) => none
  | .call b op => ((s.side b).step P (cfg b) op).map (s.set b)
  | .arrive b i now => do
    let o ← (s.side !b).sent[i]?
    match ← o.payload with
    | .error _ => some s
    | .ok (p, u) => ((s.side b).step P (cfg b) (.decode p u o.encData.length now)).map (s.set b)

/-- Stream ids have 32 bits, and fewer than 2^48 bytes are sent on each stream. -/
def Fits (s : Channel Prv Pub) : ChannelOp Prv Pub → Prop
  | .call b (.flush k _ _) => k < 2 ^ 32 ∧ ((s.side b).conn.snd.stream k).bytesSentOffset < 2 ^ 48
  | _ => True

/-- A packet that the receive buffer takes breaks no segment there; fewer than 2^63 bytes
are written on its stream. -/
def Safe (s : Channel Prv Pub) : ChannelOp Prv Pub → Prop
  | .arrive b i _ => ∀ q ∈ (s.link b).received i, ((s.side !b).accepted q.1.streamID).length < 2 ^ 63 ∧
    ((s.side b).conn.rcv.Stores q.2 →
      ((s.side b).conn.rcv.stream q.1.streamID).InsertSafe q.1.streamOffset (q.2.getD []).length)
  | _ => True

/-- No packet is split; fewer than 2^63 bytes are written on a stream. -/
def Unsplit (s : Channel Prv Pub) : ChannelOp Prv Pub → Prop
  | .call b op => (s.side b).Unsplit (cfg b).mtu op
  | .arrive b i _ => ∀ q ∈ (s.link b).received i, ((s.side !b).accepted q.1.streamID).length < 2 ^ 63

variable {P cfg} {s t : Channel Prv Pub} {b d : Bool} {e : Endpoint Prv Pub}

theorem side_set (s : Channel Prv Pub) (b d : Bool) (e : Endpoint Prv Pub) :
    (s.set b e).side d = if d = b then e else s.side d := Function.update_apply ..

theorem step_call_eq {op : ConnOp Prv Pub} (hop : ∀ p u rawLen now, op ≠ .decode p u rawLen now)
    (h : (s.side b).step P (cfg b) op = some e) : s.step P cfg (.call b op) = some (s.set b e) := by
  cases op with
  | decode p u rawLen now => exact absurd rfl (hop p u rawLen now)
  | write | read | ping | close | flush | cleanup | handshake => simp only [step, h, Option.map_some]

theorem step_arrive_eq {i now : Nat} {o : Conn.Outgoing} {p : PayloadHeader} {u : Option Bytes} {c : Conn Prv Pub}
    (ho : (s.side !b).sent[i]? = some o) (hp : o.payload = some (.ok (p, u)))
    (hd : (s.side b).conn.decode p u o.encData.length now = some c) :
    s.step P cfg (.arrive b i now) = some (s.set b { s.side b with conn := c }) := by
  simp only [step, ho, hp, Option.bind_eq_bind, Option.bind_some, Endpoint.step, hd, Option.map_some]

/-- What can happen on a channel. -/
theorem step_cases {op : ChannelOp Prv Pub} (hs : s.step P cfg op = some t) :
    (∃ b op' e, op = .call b op' ∧ (∀ p u rawLen now, op' ≠ .decode p u rawLen now) ∧
      (s.side b).step P (cfg b) op' = some e ∧ t = s.set b e) ∨
    (∃ b i now, op = .arrive b i now ∧ (t = s ∨ ∃ p u rawLen c, (s.link b).received i = some (p, u) ∧
      (s.side b).conn.decode p u rawLen now = some c ∧ t = s.set b { s.side b with conn := c })) := by
  cases op with
  | call b op =>
    cases op with
    | decode p u rawLen now => cases hs
    | write | read | ping | close | flush | cleanup | handshake =>
      simp only [step] at hs
      obtain ⟨e, he, rfl⟩ := Option.map_eq_some_iff.mp hs
      exact .inl ⟨b, _, e, rfl, nofun, he, rfl⟩
  | arrive b i now =>
    refine .inr ⟨b, i, now, rfl, ?_⟩
    obtain ⟨o, ho, hs⟩ := Option.bind_eq_some_iff.mp hs
    obtain ⟨r, hr, hs⟩ := Option.bind_eq_some_iff.mp hs
    rcases r with err | ⟨p, u⟩
    · cases hs
      exact .inl rfl
    · obtain ⟨e, he, rfl⟩ := Option.map_eq_some_iff.mp hs
      obtain ⟨c, hc, rfl⟩ := Option.map_eq_some_iff.mp he
      have hrec : (s.link b).received i = some (p, u) :=
        Option.bind_eq_some_iff.mpr ⟨o, ho, Option.bind_eq_some_iff.mpr ⟨_, hr, rfl⟩⟩
      exact .inr ⟨p, u, _, c, hrec, hc, rfl⟩

theorem link_set_self (s : Channel Prv Pub) (b : Bool) (e : Endpoint Prv Pub) :
    (s.set b e).link b = { s.link b with self := e } := by
  rw [link, side_set, side_set, if_pos rfl, if_neg (by simp)]
  rfl

theorem link_set_peer (s : Channel Prv Pub) (b : Bool) (e : Endpoint Prv Pub) :
    (s.set b e).link (!b) = { s.link (!b) with peer := e } := by
  rw [link, side_set, side_set, Bool.not_not, if_pos rfl, if_neg (by simp)]
  rfl

/-- Both directions are links. -/
structure Inv (s : Channel Prv Pub) : Prop where
  link : ∀ b, (s.link b).Inv

theorem inv_fresh {c : Bool → Conn Prv Pub} (hc : ∀ b, (c b).Fresh) : Inv ⟨fun b => { conn := c b }⟩ :=
  ⟨fun b => Link.inv_fresh (hc !b) (hc b)⟩

theorem Inv.side (h : Inv s) (b : Bool) : (s.side b).Inv := by
  have hpeer := (h.link !b).peer
  rwa [Channel.link, Bool.not_not] at hpeer

theorem Fits.offsetsFit {op : ConnOp Prv Pub} (h : s.Fits (.call b op)) : (s.side b).OffsetsFit op := by
  cases op with
  | flush k now w => exact h.2
  | _ => trivial

/-- A change of one side, as both links see it. -/
theorem Inv.set (hself : ({ s.link b with self := e } : Link Prv Pub).Inv)
    (hpeer : ({ s.link (!b) with peer := e } : Link Prv Pub).Inv) : Inv (s.set b e) := by
  refine ⟨fun d => ?_⟩
  by_cases hd : d = b
  · rw [hd, link_set_self]
    exact hself
  · obtain rfl : d = !b := by cases d <;> cases b <;> simp_all
    rw [link_set_peer]
    exact hpeer

theorem step_inv (hmtu : ∀ b, 119 ≤ (cfg b).mtu ∧ (cfg b).mtu ≤ 65535) (s : Channel Prv Pub) (op : ChannelOp Prv Pub)
    (t : Channel Prv Pub) (h : Inv s) (hfit : s.Fits op) (hs : s.step P cfg op = some t) : Inv t := by
  obtain ⟨b, op', e, rfl, hd, he, rfl⟩ | ⟨b, i, now, rfl, rfl | ⟨p, u, rawLen, c, hr, hc, rfl⟩⟩ := step_cases hs
  · have hpe : (s.link (!b)).peer.step P (cfg b) op' = some e := by rw [link, Bool.not_not]; exact he
    refine .set (Link.inv_self (h.link b) hd he) (Link.inv_peer (hmtu b) (h.link (!b)) ?_ hpe)
    cases op' with
    | flush k now w =>
      refine ⟨hfit.1, ?_⟩
      rw [link, Bool.not_not]
      exact hfit.2
    | _ => trivial
  · exact h
  · have hpe : (s.link (!b)).peer.step P (cfg b) (.decode p u rawLen now) =
        some { s.side b with conn := c } := by
      rw [link, Bool.not_not]
      simp only [Endpoint.step, hc, Option.map_some]
    have hfits : (s.link (!b)).Fits (.peer (.decode p u rawLen now)) := trivial
    exact .set (Link.inv_decode (h.link b) hr hc) (Link.inv_peer (hmtu b) (h.link (!b)) hfits hpe)

end Channel

end Qotp
