import Qotp.System.Channel
import Qotp.System.SessionTrust

namespace Qotp

open Framework

variable {Prv Pub : Type}

/-- What is asked of a step: `S` asks for safe packets, `W` for no packet to be split. -/
def Channel.Meets (cfg : Bool → ListenerCfg Prv) (S W : Prop) (s : Channel Prv Pub) (op : ChannelOp Prv Pub) : Prop :=
  s.Fits op ∧ (S → s.Safe op) ∧ (W → s.Unsplit cfg op)

namespace Session

variable {P : Primitives Prv Pub} {id : Nat} {a : Prv} {cfg : Bool → ListenerCfg Prv} {s t : Session Prv Pub} {b : Bool}

/-- The payload of datagram `i` on its way to side `b`. -/
def received (s : Session Prv Pub) (b : Bool) (i : Nat) : Option (PayloadHeader × Option Bytes) :=
  (s.sent !b)[i]?.bind fun x => x.2.payload.bind Except.toOption

/-- A packet that the receive buffer takes breaks no segment there; fewer than 2^63 bytes
are written on its stream. -/
def Safe (id : Nat) (s : Session Prv Pub) : HandshakeOp Prv Pub → Prop
  | .receive b i _ _ _ => ∀ q ∈ s.received b i, (s.accepted (!b) q.1.streamID).length < 2 ^ 63 ∧
    ∀ c ∈ (s.side b).connMap.get? id, c.rcv.Stores q.2 →
      (c.rcv.stream q.1.streamID).InsertSafe q.1.streamOffset (q.2.getD []).length
  | _ => True

instance (s : Session Prv Pub) : ∀ op, Decidable (s.Safe id op)
  | .receive b i _ _ _ => inferInstanceAs (Decidable (∀ q ∈ s.received b i, (s.accepted (!b) q.1.streamID).length < 2 ^ 63 ∧
      ∀ c ∈ (s.side b).connMap.get? id, c.rcv.Stores q.2 →
        (c.rcv.stream q.1.streamID).InsertSafe q.1.streamOffset (q.2.getD []).length))
  | .call _ _ | .others _ _ => isTrue trivial

/-- No packet is split; fewer than 2^63 bytes are written on a stream. -/
def Unsplit (id : Nat) (s : Session Prv Pub) : HandshakeOp Prv Pub → Prop
  | .call b (.flush k now _) => ∀ c ∈ (s.side b).connMap.get? id, c.FlushesWhole (s.side b).mtu k now
  | .receive b i _ _ _ => ∀ q ∈ s.received b i, (s.accepted (!b) q.1.streamID).length < 2 ^ 63
  | _ => True

instance (s : Session Prv Pub) : ∀ op, Decidable (s.Unsplit id op)
  | .call b (.flush k now _) =>
    inferInstanceAs (Decidable (∀ c ∈ (s.side b).connMap.get? id, c.FlushesWhole (s.side b).mtu k now))
  | .receive b i _ _ _ =>
    inferInstanceAs (Decidable (∀ q ∈ s.received b i, (s.accepted (!b) q.1.streamID).length < 2 ^ 63))
  | .call _ (.write _ _ _) | .call _ (.read _) | .call _ (.ping _) | .call _ (.close _) | .call _ (.decode _ _ _ _)
  | .call _ (.cleanup _) | .call _ (.handshake _) | .others _ _ => isTrue trivial

/-- What is asked of a step: `S` asks for safe packets, `W` for no packet to be split. -/
def Meets (id : Nat) (S W : Prop) (s : Session Prv Pub) (op : HandshakeOp Prv Pub) : Prop :=
  s.Fits id op ∧ (S → s.Safe id op) ∧ (W → s.Unsplit id op)

/-- The two sides as a channel; the handshake is behind both. -/
structure Mirrors (P : Primitives Prv Pub) (id : Nat) (a : Prv) (cfg : Bool → ListenerCfg Prv) (s : Session Prv Pub)
    (ch : Channel Prv Pub) : Prop where
  trusted : Handshake.Trusted P id a cfg s.toHandshake
  models : ∀ b, s.Models id b (ch.side b)

/-- A datagram at a side, as calls on the endpoint that models it. -/
theorem Models.receive {d : Bool} {e : Endpoint Prv Pub} (h : s.Models id d e) {l' : Listener Prv Pub} {c : Conn Prv Pub}
    (hc : l'.connMap.get? id = some c) :
    ({ s with side := Function.update s.side d l' } : Session Prv Pub).Models id d { e with conn := c } := by
  refine ⟨h.accepted, h.delivered, h.sent, fun c' hc' => ?_, fun hn => ?_⟩
  · rw [Handshake.get?_update, if_pos rfl, hc] at hc'
    exact Option.some.inj hc'
  · rw [Handshake.get?_update, if_pos rfl, hc] at hn
    cases hn

theorem Models.of_get {d : Bool} {e : Endpoint Prv Pub} (h : s.Models id d e) {side : Bool → Listener Prv Pub}
    (hget : (side d).connMap.get? id = (s.side d).connMap.get? id) :
    ({ s with side := side } : Session Prv Pub).Models id d e :=
  ⟨h.accepted, h.delivered, h.sent, fun c hc => h.conn c (hget.symm.trans hc), fun hn => h.fresh (hget.symm.trans hn)⟩

/-- The endpoint has the buffers that the listener holds. -/
theorem Models.sameBuffers {d : Bool} {e : Endpoint Prv Pub} (h : s.Models id d e) {c : Conn Prv Pub}
    (hc : (s.side d).HasBuffersOf id c) : e.conn.SameBuffers c := by
  cases hg : (s.side d).connMap.get? id with
  | some c₀ =>
    rw [h.conn c₀ hg]
    exact hc.1 c₀ hg
  | none => exact (h.fresh hg).sameBuffers (hc.2 hg)

theorem Mirrors.received_eq {ch : Channel Prv Pub} (h : Mirrors P id a cfg s ch) (b : Bool) (i : Nat) :
    (ch.link b).received i = s.received b i := by
  unfold Link.received received
  change ((ch.side !b).sent[i]?).bind _ = _
  rw [(h.models (!b)).sent, List.getElem?_map, Option.bind_map]
  rfl

/-- The sending side of an endpoint is that of its connection, or empty. -/
theorem Mirrors.fits_call {ch : Channel Prv Pub} (h : Mirrors P id a cfg s ch) {op : ConnOp Prv Pub}
    (hok : s.Fits id (.call b op)) : ch.Fits (.call b op) := by
  cases op with
  | flush k now w =>
    refine ⟨hok.1, ?_⟩
    cases hg : (s.side b).connMap.get? id with
    | some c =>
      rw [(h.models b).conn c hg]
      exact hok.2 c hg
    | none =>
      rw [((h.models b).fresh hg).snd]
      exact (by decide : 0 < 2 ^ 48)
  | _ => trivial

/-- A side becomes another endpoint. -/
theorem models_set {ch : Channel Prv Pub} {d : Bool} {e : Endpoint Prv Pub} (he : t.Models id d e)
    (hother : ∀ x, x ≠ d → t.Models id x (ch.side x)) (x : Bool) : t.Models id x ((ch.set d e).side x) := by
  rw [Channel.side_set]
  split_ifs with hx
  · rw [hx]
    exact he
  · exact hother x hx

/-- An empty buffer takes every packet. -/
theorem insertSafe_fresh {c : Conn Prv Pub} (h : c.Fresh) (k o l : Nat) : (c.rcv.stream k).InsertSafe o l := by
  rw [h.rcv]
  exact .inr ⟨Nat.zero_le _, .inr nofun⟩

section Follow

variable (hP : P.Correct) (hid : id = keyConnId P (P.publicKey a)) (hmtu : (cfg true).mtu ≤ 65507) {ch : Channel Prv Pub}
  {S W : Prop}

include hP hid

theorem Mirrors.call (h : Mirrors P id a cfg s ch) {d : Bool} {op : ConnOp Prv Pub} (hok : s.Meets id S W (.call d op))
    (hs : s.step P id (.call d op) = some t) :
    Follows (Channel.step P cfg) (Channel.Meets cfg S W) (Mirrors P id a cfg) ch t := by
  have hcall := step_called hs
  obtain ⟨e', he', hm⟩ := hcall.endpoint _ (h.models d)
  rw [h.trusted.settings d] at he'
  refine Follows.cons (b := ChannelOp.call d op) ⟨h.fits_call hok.1, fun _ => trivial, fun hW => ?_⟩
    (Channel.step_call_eq hcall.not_decode he')
    (follows_nil ⟨h.trusted.call hP hid hcall.handshake, models_set hm fun x hx => hcall.others x hx _ (h.models x)⟩)
  · cases op with
    | flush k now w =>
      change (ch.side d).conn.FlushesWhole (cfg d).mtu k now
      cases hg : (s.side d).connMap.get? id with
      | some c =>
        rw [(h.models d).conn c hg, ← h.trusted.settings d]
        exact hok.2.2 hW c hg
      | none =>
        unfold Conn.FlushesWhole
        rw [((h.models d).fresh hg).snd]
        exact fun _ => nofun
    | _ => trivial

include hmtu

/-- A datagram is opened by the listener, taken by the connection, and may end the handshake. -/
theorem Mirrors.receive (h : Mirrors P id a cfg s ch) {d : Bool} {i rAddr now : Nat} {fresh : Except String Prv}
    (hmeets : s.Meets id S W (.receive d i rAddr fresh now)) (hs : s.step P id (.receive d i rAddr fresh now) = some t) :
    Follows (Channel.step P cfg) (Channel.Meets cfg S W) (Mirrors P id a cfg) ch t := by
  obtain ⟨h', hstep, rfl⟩ := Option.map_eq_some_iff.mp hs
  have htrust := h.trusted.receive hP hid hstep
  obtain ⟨z, hz, hstep⟩ := Option.bind_eq_some_iff.mp hstep
  obtain ⟨⟨l', r⟩, hl, rfl⟩ := Option.map_eq_some_iff.mp hstep
  rw [hmeets.1.readFrom hz] at hl
  have hmem := List.mem_of_getElem? hz
  have hlt : id < 2 ^ 64 := hid ▸ keyConnId_lt P _
  have hcid := h.trusted.phase.connIdOf_sent hlt hmem
  have hother : ∀ x, x ≠ d → ({ s with side := Function.update s.side d l' } : Session Prv Pub).Models id x (ch.side x) :=
    fun x hx => (h.models x).of_get (by rw [Handshake.get?_update, if_neg hx])
  -- the listener's work on the connection is one call
  have hwork : ∀ {ch : Channel Prv Pub} {c : Conn Prv Pub}, (ch.side d).conn.SameBuffers c →
      ch.step P cfg (.call d (.handshake c)) = some (ch.set d { ch.side d with conn := c }) :=
    fun hc => Channel.step_call_eq nofun (Endpoint.step_handshake hc)
  obtain ⟨_, ⟨hkept, hgone⟩ | ⟨l₁, dec, c₁, p, u, c₂, c', hdec, hheld, hpay, hd, hsame, hget⟩⟩ := Listener.listen_holds hcid hl
  · cases hg : l'.connMap.get? id with
    | none =>
      -- nothing was opened
      refine follows_nil ⟨htrust, fun x => (h.models x).of_get ?_⟩
      rw [Handshake.get?_update]
      split_ifs with hx
      · rw [hx, hg, hgone hg]
      · rfl
    | some c =>
      have hc := (h.models d).sameBuffers (hkept c hg)
      exact Follows.cons (b := ChannelOp.call d (.handshake c)) ⟨trivial, fun _ => trivial, fun _ => trivial⟩ (hwork hc)
        (follows_nil ⟨htrust, models_set ((h.models d).receive hg) hother⟩)
  · have hread : z.2.payload = some (.ok (p, u)) := (h.trusted.payload hP hlt hmtu hmem hdec).symm.trans hpay
    have hc₁ := (h.models d).sameBuffers hheld
    have hrec : s.received d i = some (p, u) := by
      unfold received
      rw [hz, Option.bind_some, hread]
      rfl
    have hside : (ch.set d { ch.side d with conn := c₁ }).side d = { ch.side d with conn := c₁ } := by
      rw [Channel.side_set, if_pos rfl]
    have hlink : ((ch.set d { ch.side d with conn := c₁ }).link d).received i = some (p, u) := by
      rw [Channel.link_set_self]
      exact (h.received_eq d i).trans hrec
    have harr : ((ch.set d { ch.side d with conn := c₁ }).side !d).sent[i]? = some z.2 := by
      rw [Channel.side_set, if_neg (by simp), (h.models (!d)).sent, List.getElem?_map, hz]
      rfl
    have hok : S → (ch.set d { ch.side d with conn := c₁ }).Safe (.arrive d i now) := by
      intro hS q hq
      rw [hlink] at hq
      cases hq
      obtain ⟨hlen, hroom⟩ := hmeets.2.1 hS _ hrec
      rw [Channel.side_set, if_neg (by simp), (h.models (!d)).accepted, hside]
      refine ⟨hlen, ?_⟩
      cases hg : (s.side d).connMap.get? id with
      | some c =>
        rw [(hheld.1 c hg).rcv]
        exact hroom c hg
      | none => exact fun _ => insertSafe_fresh (hheld.2 hg) _ _ _
    have hunsplit : W → (ch.set d { ch.side d with conn := c₁ }).Unsplit cfg (.arrive d i now) := by
      intro hW q hq
      rw [hlink] at hq
      cases hq
      rw [Channel.side_set, if_neg (by simp), (h.models (!d)).accepted]
      exact hmeets.2.2 hW _ hrec
    refine Follows.cons (b := ChannelOp.call d (.handshake c₁)) ⟨trivial, fun _ => trivial, fun _ => trivial⟩ (hwork hc₁) ?_
    refine Follows.cons (b := ChannelOp.arrive d i now) ⟨trivial, hok, hunsplit⟩
      (Channel.step_arrive_eq harr hread (by rw [hside]; exact hd)) ?_
    refine Follows.cons (b := ChannelOp.call d (.handshake c')) ⟨trivial, fun _ => trivial, fun _ => trivial⟩ (hwork ?_) (follows_nil ⟨htrust, ?_⟩)
    · rw [Channel.side_set, if_pos rfl]
      exact hsame
    · refine models_set ?_ fun x hx => ?_
      · rw [Channel.side_set, if_pos rfl, hside]
        exact (h.models d).receive hget
      · rw [Channel.side_set, if_neg hx, Channel.side_set, if_neg hx]
        exact hother x hx

omit hP hid hmtu in
theorem Mirrors.others (h : Mirrors P id a cfg s ch) {d : Bool} {connMap : InsertionMap Nat (Conn Prv Pub)}
    (hs : s.step P id (.others d connMap) = some t) :
    Follows (Channel.step P cfg) (Channel.Meets cfg S W) (Mirrors P id a cfg) ch t := by
  cases hs
  have htrust := h.trusted.others (show s.toHandshake.step P id (.others d connMap) = some _ from rfl)
  refine follows_nil ⟨htrust, fun x => (h.models x).of_get ?_⟩
  rw [Handshake.get?_update]
  split_ifs with hx
  · rw [hx, Handshake.get?_withOthers]
  · rfl

theorem Mirrors.step (s : Session Prv Pub) (op : HandshakeOp Prv Pub) (t : Session Prv Pub) (ch : Channel Prv Pub)
    (h : Mirrors P id a cfg s ch) (hok : s.Meets id S W op) (hs : s.step P id op = some t) :
    Follows (Channel.step P cfg) (Channel.Meets cfg S W) (Mirrors P id a cfg) ch t := by
  cases op with
  | call d op => exact h.call hP hid hok hs
  | receive d i rAddr fresh now => exact h.receive hP hid hmtu hok hs
  | others d connMap => exact h.others hs

end Follow

/-- The two sides when the connection is dialed. -/
def start (d l : Listener Prv Pub) : Session Prv Pub := { toHandshake := Handshake.start d l }

/-- Dialed by `Dial`, or by `DialWithCrypto` to the identity key of the listener. -/
def Dialed (P : Primitives Prv Pub) (d₀ d l : Listener Prv Pub) (a : Prv) (c : Conn Prv Pub) : Prop :=
  ∃ rAddr, d₀.dial P rAddr (.ok a) = some (d, .ok c) ∨
    d₀.dialWithCrypto P rAddr (some (P.publicKey l.prvKeyId)) (.ok a) = some (d, .ok c)

theorem Dialed.conn {d₀ d l : Listener Prv Pub} {c : Conn Prv Pub} (h : Dialed P d₀ d l a c) :
    ∃ rAddr idKey withCrypto, d₀.dialWith P rAddr idKey withCrypto (.ok a) = some (d, .ok c) ∧
      d.connMap.get? c.connId = some c ∧
      c = Listener.openedConn c.connId rAddr a idKey none true withCrypto ∧
      ((withCrypto = false ∧ idKey = none) ∨ idKey = some (P.publicKey l.prvKeyId)) := by
  have hdial : ∀ rAddr idKey withCrypto, d₀.dialWith P rAddr idKey withCrypto (.ok a) = some (d, .ok c) →
      d.connMap.get? c.connId = some c ∧ c = Listener.openedConn c.connId rAddr a idKey none true withCrypto := by
    intro rAddr idKey withCrypto hd
    obtain ⟨n, _, hnew⟩ := Option.bind_eq_some_iff.mp hd
    obtain ⟨_, e, he⟩ | ⟨_, _, rfl, hc⟩ := Listener.newConn_cases P hnew
    · cases he
    · cases hc
      exact ⟨InsertionMap.get?_put_self _ _ _, rfl⟩
  obtain ⟨rAddr, hd | hd⟩ := h
  · exact ⟨rAddr, none, false, hd, (hdial _ _ _ hd).1, (hdial _ _ _ hd).2, .inl ⟨rfl, rfl⟩⟩
  · exact ⟨rAddr, _, true, hd, (hdial _ _ _ hd).1, (hdial _ _ _ hd).2, .inr rfl⟩

/-- The settings of the two sides. -/
def settings (d l : Listener Prv Pub) (b : Bool) : ListenerCfg Prv := if b then d.cfg else l.cfg

theorem settings_mtu {d l : Listener Prv Pub} (hd : 119 ≤ d.mtu ∧ d.mtu ≤ 65507) (hm : 119 ≤ l.mtu ∧ l.mtu ≤ 65535)
    (b : Bool) : 119 ≤ (settings d l b).mtu ∧ (settings d l b).mtu ≤ 65535 := by
  cases b with
  | true => exact ⟨hd.1, hd.2.trans (by decide)⟩
  | false => exact hm

/-- At the start both ends of the channel are new connections. -/
theorem mirrors_start {d₀ d l : Listener Prv Pub} {c : Conn Prv Pub} (h : Dialed P d₀ d l a c)
    (hl : l.connMap.get? c.connId = none) :
    c.connId = keyConnId P (P.publicKey a) ∧ c.Fresh ∧
      Mirrors P c.connId a (settings d l) (start d l) ⟨fun _ => { conn := c }⟩ := by
  obtain ⟨rAddr, idKey, withCrypto, hdial, hget, hc, hpin⟩ := h.conn
  obtain ⟨hid, hphase⟩ := Handshake.phase_start hdial hl
  have hfresh : c.Fresh := by
    rw [hc]
    exact ⟨rfl, rfl, rfl, rfl⟩
  refine ⟨hid, hfresh, ⟨hphase, fun x => ?_, fun x c' hc' => ?_, fun c' hc' => ?_, fun x => nofun⟩, fun x => ?_⟩
  · cases x <;> rfl
  · cases x with
    | true =>
      cases hget.symm.trans hc'
      refine ⟨rfl, ?_, fun _ => ?_, nofun⟩
      · rw [hc]
        rfl
      · rw [hc]
        exact ⟨rfl, hpin.imp_left And.right⟩
    | false => cases hl.symm.trans hc'
  · cases hget.symm.trans hc'
    rw [hc]
    exact .inl rfl
  · refine ⟨rfl, rfl, rfl, fun c' hc' => ?_, fun _ => hfresh⟩
    cases x with
    | true => exact Option.some.inj (hget.symm.trans hc')
    | false => cases hl.symm.trans hc'

/-- A run of the session, followed by the channel. -/
theorem run_mirrors (hP : P.Correct) {d₀ d l : Listener Prv Pub} {c : Conn Prv Pub} (hdial : Dialed P d₀ d l a c)
    (hl : l.connMap.get? c.connId = none) (hmtu : d.mtu ≤ 65507) {S W : Prop} {ops : List (HandshakeOp Prv Pub)}
    {t : Session Prv Pub} (hok : Along (step P c.connId) (Meets c.connId S W) (start d l) ops)
    (hrun : run (step P c.connId) (start d l) ops = some t) :
    c.Fresh ∧ Follows (Channel.step P (settings d l)) (Channel.Meets (settings d l) S W)
      (Mirrors P c.connId a (settings d l)) ⟨fun _ => { conn := c }⟩ t := by
  obtain ⟨hid, hfresh, hstart⟩ := mirrors_start hdial hl
  exact ⟨hfresh, run_follows (Mirrors.step hP hid hmtu) hstart hok hrun⟩

/-- Whatever is lost, repeated, delayed or reordered on the way, a session between a dialer
and its listener is a channel: its handshake, encryption and dispatch show there as
calls that leave the buffers alone, and a datagram arrives as the payload that was
encoded, or not at all. -/
theorem session_refines_channel (hP : P.Correct) (d₀ d l : Listener Prv Pub) (c : Conn Prv Pub)
    (hdial : Dialed P d₀ d l a c) (hl : l.connMap.get? c.connId = none) (hmtu : d.mtu ≤ 65507)
    (ops : List (HandshakeOp Prv Pub)) (t : Session Prv Pub)
    (hfit : Along (step P c.connId) (Fits c.connId) (start d l) ops)
    (hrun : run (step P c.connId) (start d l) ops = some t) :
    ∃ chops ch, Along (Channel.step P (settings d l)) Channel.Fits ⟨fun _ => { conn := c }⟩ chops ∧
      run (Channel.step P (settings d l)) ⟨fun _ => { conn := c }⟩ chops = some ch ∧
      ∀ b, t.Models c.connId b (ch.side b) := by
  have hok : Along (step P c.connId) (Meets c.connId False False) (start d l) ops :=
    along_mono (fun _ _ h => ⟨h, nofun, nofun⟩) hfit
  obtain ⟨_, chops, ch, ha, hr, hlink⟩ := run_mirrors hP hdial hl hmtu hok hrun
  exact ⟨chops, ch, along_mono (fun _ _ h => h.1) ha, hr, hlink.models⟩

/-- Behind the session stands a channel. -/
def Backed (P : Primitives Prv Pub) (id : Nat) (a : Prv) (cfg : Bool → ListenerCfg Prv) (s : Session Prv Pub) : Prop :=
  ∃ ch : Channel Prv Pub, Mirrors P id a cfg s ch ∧ ch.Inv

theorem backed_start {d₀ d l : Listener Prv Pub} {c : Conn Prv Pub} (h : Dialed P d₀ d l a c)
    (hl : l.connMap.get? c.connId = none) :
    c.connId = keyConnId P (P.publicKey a) ∧ Backed P c.connId a (settings d l) (start d l) := by
  obtain ⟨hid, hfresh, hlink⟩ := mirrors_start h hl
  exact ⟨hid, _, hlink, Channel.inv_fresh fun _ => hfresh⟩

theorem Backed.step (hP : P.Correct) (hid : id = keyConnId P (P.publicKey a)) (hmtu : (cfg true).mtu ≤ 65507)
    (hfit : ∀ b, 119 ≤ (cfg b).mtu ∧ (cfg b).mtu ≤ 65535) (s : Session Prv Pub) (op : HandshakeOp Prv Pub)
    (t : Session Prv Pub) (h : Backed P id a cfg s) (hok : s.Fits id op) (hs : s.step P id op = some t) :
    Backed P id a cfg t := by
  obtain ⟨ch, hlink, hinv⟩ := h
  have hmeets : s.Meets id False False op := ⟨hok, nofun, nofun⟩
  obtain ⟨chops, ch', hal, hrun, hlink'⟩ := Mirrors.step hP hid hmtu s op t ch hlink hmeets hs
  exact ⟨ch', hlink', run_inv_along (Channel.step_inv hfit) hinv (along_mono (fun _ _ h => h.1) hal) hrun⟩

theorem Backed.delivers (h : Backed P id a cfg s) (b : Bool) (k : Nat) : s.delivered b k <+: s.accepted (!b) k := by
  obtain ⟨ch, hlink, hinv⟩ := h
  have hpre : IsAt ((ch.side !b).accepted k) 0 ((ch.side b).delivered k) := (hinv.link b).rcv.isPrefix k
  rw [(hlink.models b).delivered, (hlink.models (!b)).accepted] at hpre
  exact hpre

/-- End to end: what the readers of a side got on a stream is the beginning of what the
writers of the other side queued on it, through handshake and encryption, over a network
that loses, repeats and reorders datagrams. -/
theorem session_delivers_prefix (hP : P.Correct) {d₀ d l : Listener Prv Pub} {c : Conn Prv Pub} (hdial : Dialed P d₀ d l a c)
    (hl : l.connMap.get? c.connId = none) (hd : 119 ≤ d.mtu ∧ d.mtu ≤ 65507) (hm : 119 ≤ l.mtu ∧ l.mtu ≤ 65535)
    {ops : List (HandshakeOp Prv Pub)} {t : Session Prv Pub}
    (hfit : Along (step P c.connId) (Fits c.connId) (start d l) ops)
    (hrun : run (step P c.connId) (start d l) ops = some t) (b : Bool) (k : Nat) :
    t.delivered b k <+: t.accepted (!b) k := by
  obtain ⟨hid, hstart⟩ := backed_start hdial hl
  exact (run_inv_along (Backed.step hP hid hd.2 (settings_mtu hd hm)) hstart hfit hrun).delivers b k

section ZeroRtt

/-- A dialer that knows the identity key 29 of the listener. -/
def zeroRttSide (prvKeyId : UInt8) (h : prvKeyId ≠ 0) : Listener { prv : UInt8 // prv ≠ 0 } UInt8 :=
  { prvKeyId := ⟨prvKeyId, h⟩, mtu := 200 }

def zeroRttDialer := zeroRttSide 37 (by decide)
def zeroRttListener := zeroRttSide 29 (by decide)

def zeroRttConn : Conn { prv : UInt8 // prv ≠ 0 } UInt8 :=
  Listener.openedConn (getLE (List.replicate 8 23)) 0 ⟨23, by decide⟩ (some 29) none true true

/-- Three bytes travel with the first request, which arrives twice; the reply carries the
answer of the listener. -/
def zeroRttOps : List (HandshakeOp { prv : UInt8 // prv ≠ 0 } UInt8) :=
  [.call true (.write 0 [1, 2, 3] (.ok ())), .call true (.flush 0 1 (.ok ())),
    .receive false 0 0 (.ok ⟨31, by decide⟩) 2, .call false (.read 0), .call false (.write 0 [4, 5] (.ok ())),
    .call false (.flush 0 3 (.ok ())), .receive false 0 0 (.ok ⟨41, by decide⟩) 4, .receive true 0 0 (.error "") 5,
    .call true (.read 0)]

theorem zeroRtt_dialed : Dialed plainHonest zeroRttDialer (zeroRttDialer.setConn zeroRttConn.connId zeroRttConn)
    zeroRttListener ⟨23, by decide⟩ zeroRttConn := ⟨0, .inr rfl⟩

theorem zeroRtt_fits : Along (step plainHonest zeroRttConn.connId) (Fits zeroRttConn.connId)
    (start (zeroRttDialer.setConn zeroRttConn.connId zeroRttConn) zeroRttListener) zeroRttOps := by decide +kernel

theorem zeroRtt_run : ∃ t ∈ run (step plainHonest zeroRttConn.connId)
      (start (zeroRttDialer.setConn zeroRttConn.connId zeroRttConn) zeroRttListener) zeroRttOps,
    t.delivered false 0 = [1, 2, 3] ∧ t.delivered true 0 = [4, 5] := by decide +kernel

theorem zeroRtt_refines : ∃ t chops ch, run (step plainHonest zeroRttConn.connId)
      (start (zeroRttDialer.setConn zeroRttConn.connId zeroRttConn) zeroRttListener) zeroRttOps = some t ∧
    run (Channel.step plainHonest (settings (zeroRttDialer.setConn zeroRttConn.connId zeroRttConn) zeroRttListener))
      ⟨fun _ => { conn := zeroRttConn }⟩ chops = some ch ∧ (ch.side false).delivered 0 = [1, 2, 3] := by
  obtain ⟨t, ht, hdel, _⟩ := zeroRtt_run
  obtain ⟨chops, ch, _, hr, hmodels⟩ := session_refines_channel plainHonest_correct _ _ _ _ zeroRtt_dialed rfl (by decide)
    zeroRttOps t zeroRtt_fits ht
  exact ⟨t, chops, ch, ht, hr, by rw [(hmodels false).delivered]; exact hdel⟩

end ZeroRtt

end Session

end Qotp
