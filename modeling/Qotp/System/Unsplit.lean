import Qotp.System.SessionConserves

namespace Qotp

open Framework

variable {Prv Pub : Type}

namespace Channel

variable {P : Primitives Prv Pub} {cfg : Bool → ListenerCfg Prv} {s t : Channel Prv Pub} {b : Bool} {e : Endpoint Prv Pub}
  {B : Bool → Nat → Set Nat}

/-- The streams that each side writes are cut once for all: what is in flight, what was ever written
to the network and what is stored on the other side are cells. -/
structure Uncut (B : Bool → Nat → Set Nat) (s : Channel Prv Pub) : Prop where
  snd : ∀ b, SndCut (B b) (s.side b).conn.snd
  sent : ∀ b, ∀ o ∈ (s.side b).sent, o.Celled (B b)
  rcv : ∀ b k, ((s.side b).conn.rcv.stream k).Celled (B (!b) k)

theorem uncut_fresh {c : Bool → Conn Prv Pub} (hc : ∀ b, (c b).Fresh) :
    Uncut (fun _ _ => {0}) ⟨fun b => { conn := c b }⟩ := by
  refine ⟨fun b => ?_, nofun, fun b k => ?_⟩
  · dsimp only
    rw [(hc b).snd]
    exact sndCut_new _
  · dsimp only
    rw [(hc b).rcv]
    exact RcvBuffer.celled_new rfl

/-- One side changes: it may cut its streams behind the last cut. -/
theorem Uncut.set (h : Uncut B s) (hsnd : SndCut (cutBy (B b) e.conn.snd) e.conn.snd)
    (hsent : ∀ o ∈ e.sent, o ∈ (s.side b).sent ∨ o.Celled (cutBy (B b) e.conn.snd))
    (hrcv : ∀ k, (e.conn.rcv.stream k).Celled (B (!b) k)) :
    Uncut (Function.update B b (cutBy (B b) e.conn.snd)) (s.set b e) := by
  have hself : (s.set b e).side b = e := by rw [side_set, if_pos rfl]
  have hpeer : (s.set b e).side (!b) = s.side (!b) := by rw [side_set, if_neg (by simp)]
  have hother : Function.update B b (cutBy (B b) e.conn.snd) (!b) = B !b := Function.update_of_ne (by simp) _ _
  have hbehind : ∀ k, ∀ y ∈ B b k, y ≤ (e.conn.snd.stream k).bytesSentOffset := fun k y hy => (hsnd k).le y (.inr hy)
  refine ⟨(Bool.forall_bool' b).mpr ⟨?_, ?_⟩, (Bool.forall_bool' b).mpr ⟨?_, ?_⟩, (Bool.forall_bool' b).mpr ⟨?_, ?_⟩⟩
  · rw [hself, Function.update_self]
    exact hsnd
  · rw [hpeer, hother]
    exact h.snd _
  · rw [hself, Function.update_self]
    intro o ho
    obtain ho | ho := hsent o ho
    · exact fun hne => (h.sent b o ho hne).insert (hbehind _)
    · exact ho
  · rw [hpeer, hother]
    exact h.sent _
  · rw [hself, hother]
    exact hrcv
  · intro k
    have hk := h.rcv (!b) k
    rw [Bool.not_not] at hk
    rw [hpeer, Bool.not_not, Function.update_self]
    exact hk.grow (hbehind k)

/-- What arrives with data is a cell. -/
theorem Uncut.received (h : Uncut B s) (hi : Inv s) {i : Nat} {p : PayloadHeader} {u : Option Bytes}
    (hr : (s.link b).received i = some (p, u)) (hne : u.getD [] ≠ []) :
    IsCell (B (!b) p.streamID) p.streamOffset (u.getD []).length := by
  obtain ⟨o, ho, hr⟩ := Option.bind_eq_some_iff.mp hr
  obtain ⟨r, hp, hok⟩ := Option.bind_eq_some_iff.mp hr
  have hmem : o ∈ (s.side !b).sent := List.mem_of_getElem? ho
  have hcell := h.sent (!b) o hmem
  unfold Conn.Outgoing.payload at hp
  split_ifs at hp
  · cases hp
    cases hok
    exact absurd rfl hne
  · rw [decodePayload_encodePayload, wireImage] at hp
    split_ifs at hp
    · cases hp
      cases hok
      exact absurd rfl hne
    · cases hp
      cases hok
      dsimp only [Option.getD_some] at hne ⊢
      rw [Nat.mod_eq_of_lt ((hi.link b).ids o hmem), Nat.mod_eq_of_lt ((hi.link b).peer.sent o hmem).offset]
      exact hcell hne

/-- Where no packet is split, every packet that arrives is safe. -/
theorem Uncut.safe (h : Uncut B s) (hi : Inv s) {op : ChannelOp Prv Pub} (hw : s.Unsplit cfg op) : s.Safe op := by
  cases op with
  | call b op => trivial
  | arrive b i now =>
    intro q hq
    refine ⟨hw q hq, fun hst => ?_⟩
    exact (h.rcv b q.1.streamID).insertSafe (h.received hi hq hst.1) (List.length_pos_iff.mpr hst.1)

theorem Uncut.call (hmtu : ∀ b, 119 ≤ (cfg b).mtu ∧ (cfg b).mtu ≤ 65535) (h : Uncut B s) (hi : Inv s) {op : ConnOp Prv Pub}
    (hd : ∀ p u rawLen now, op ≠ .decode p u rawLen now) (hfit : s.Fits (.call b op)) (hw : s.Unsplit cfg (.call b op))
    (he : (s.side b).step P (cfg b) op = some e) : ∃ B', Uncut B' (s.set b e) := by
  have hkeyed : (s.side b).conn.StreamsKeyed := (hi.link b).keyed
  obtain ⟨hsnd, hsent⟩ := Endpoint.step_cut (hmtu b) (h.snd b) hfit.offsetsFit hw hkeyed he
  refine ⟨_, h.set hsnd hsent fun k => ?_⟩
  obtain hr | hr := Endpoint.step_stored hkeyed hd he k
  · rw [hr]
    exact h.rcv b k
  · rw [hr]
    exact (h.rcv b k).remove

theorem Uncut.arrive (P : Primitives Prv Pub) (hmtu : ∀ b, 119 ≤ (cfg b).mtu ∧ (cfg b).mtu ≤ 65535) (h : Uncut B s)
    (hi : Inv s) {i rawLen now : Nat} {p : PayloadHeader} {u : Option Bytes} {c : Conn Prv Pub}
    (hr : (s.link b).received i = some (p, u)) (hc : (s.side b).conn.decode p u rawLen now = some c) :
    ∃ B', Uncut B' (s.set b { s.side b with conn := c }) := by
  have hstep : (s.side b).step P (cfg b) (.decode p u rawLen now) = some { s.side b with conn := c } := by
    simp only [Endpoint.step, hc, Option.map_some]
  have hoff : (s.side b).OffsetsFit (.decode p u rawLen now) := trivial
  have hw : (s.side b).Unsplit (cfg b).mtu (.decode p u rawLen now) := trivial
  obtain ⟨hsnd, hsent⟩ := Endpoint.step_cut (hmtu b) (h.snd b) hoff hw (hi.link b).keyed hstep
  refine ⟨_, h.set hsnd hsent fun k => ?_⟩
  obtain ⟨s₁, hstr, _, hs₁⟩ := Conn.decode_rcv (hi.side b).keyed hc
  have hfirst : s₁.Celled (B (!b) p.streamID) := by
    obtain ⟨_, rfl⟩ | ⟨hst, delta, st, hins⟩ := hs₁
    · exact h.rcv b _
    · exact (h.rcv b _).insert (h.received hi hr hst.1) hst.1 hins
  dsimp only
  rw [hstr k]
  split_ifs with hk hcl
  · rw [hk]
    exact hfirst.close _
  · rw [hk]
    exact hfirst
  · exact h.rcv b k

/-- Both at once: no byte is lost, and every packet is a cell. -/
def Intact (s : Channel Prv Pub) : Prop := s.Conserved ∧ ∃ B, s.Uncut B

theorem step_intact (hmtu : ∀ b, 119 ≤ (cfg b).mtu ∧ (cfg b).mtu ≤ 65535) (s : Channel Prv Pub) (op : ChannelOp Prv Pub)
    (t : Channel Prv Pub) (h : Intact s) (hok : s.Meets cfg False True op) (hs : s.step P cfg op = some t) : Intact t := by
  obtain ⟨hcons, B, hcut⟩ := h
  have hw := hok.2.2 trivial
  refine ⟨step_conserved hmtu s op t hcons ⟨hok.1, hcut.safe hcons.base hw⟩ hs, ?_⟩
  obtain ⟨b, op', e, rfl, hd, he, rfl⟩ | ⟨b, i, now, rfl, rfl | ⟨p, u, rawLen, c, hr, hc, rfl⟩⟩ := step_cases hs
  · exact hcut.call hmtu hcons.base hd hok.1 hw he
  · exact ⟨B, hcut⟩
  · exact hcut.arrive P hmtu hcons.base hr hc

end Channel

namespace Session

variable {P : Primitives Prv Pub} {id : Nat} {a : Prv} {cfg : Bool → ListenerCfg Prv} {s t : Session Prv Pub}

/-- Behind the session stands a channel without split packets. -/
def Intact (P : Primitives Prv Pub) (id : Nat) (a : Prv) (cfg : Bool → ListenerCfg Prv) (s : Session Prv Pub) : Prop :=
  ∃ ch : Channel Prv Pub, Mirrors P id a cfg s ch ∧ ch.Intact

theorem Intact.safe (h : Intact P id a cfg s) {op : HandshakeOp Prv Pub} (hw : s.Unsplit id op) : s.Safe id op := by
  obtain ⟨ch, hlink, hcons, B, hcut⟩ := h
  cases op with
  | call b op | others b connMap => trivial
  | receive b i rAddr fresh now =>
    intro q hq
    refine ⟨hw q hq, fun c hc hst => ?_⟩
    have hr : (ch.link b).received i = some (q.1, q.2) := (hlink.received_eq b i).trans hq
    have hcell := hcut.received hcons.base hr hst.1
    have hbuf := hcut.rcv b q.1.streamID
    rw [(hlink.models b).conn c hc] at hbuf
    exact hbuf.insertSafe hcell (List.length_pos_iff.mpr hst.1)

theorem Intact.step (hP : P.Correct) (hid : id = keyConnId P (P.publicKey a)) (hmtu : (cfg true).mtu ≤ 65507)
    (hfit : ∀ b, 119 ≤ (cfg b).mtu ∧ (cfg b).mtu ≤ 65535) (s : Session Prv Pub) (op : HandshakeOp Prv Pub)
    (t : Session Prv Pub) (h : Intact P id a cfg s) (hok : s.Meets id False True op) (hs : s.step P id op = some t) :
    Intact P id a cfg t := by
  obtain ⟨ch, hlink, hord⟩ := h
  obtain ⟨chops, ch', hal, hrun, hlink'⟩ := Mirrors.step hP hid hmtu s op t ch hlink hok hs
  exact ⟨ch', hlink', run_inv_along (Channel.step_intact hfit) hord hal hrun⟩

/-- Splitting a packet on retransmission is the one thing that can upset a receive buffer: in a session in
which no packet had to be split, every packet that arrives, late, twice or out of order, is safe to
insert, and a quiet stream has been delivered in full. -/
theorem unsplit_session_delivers (hP : P.Correct) (d₀ d l : Listener Prv Pub) (c : Conn Prv Pub)
    (hdial : Dialed P d₀ d l a c) (hl : l.connMap.get? c.connId = none) (hd : 119 ≤ d.mtu ∧ d.mtu ≤ 65507)
    (hm : 119 ≤ l.mtu ∧ l.mtu ≤ 65535) (ops : List (HandshakeOp Prv Pub)) (t : Session Prv Pub)
    (hok : Along (step P c.connId) (fun s op => s.Fits c.connId op ∧ s.Unsplit c.connId op) (start d l) ops)
    (hrun : run (step P c.connId) (start d l) ops = some t) :
    Along (step P c.connId) (Safe c.connId) (start d l) ops ∧
      ∀ b k, t.Quiet c.connId b k → t.delivered b k = t.accepted (!b) k := by
  obtain ⟨hid, hfresh, hstart⟩ := mirrors_start hdial hl
  have hord : Intact P c.connId a (settings d l) (start d l) :=
    ⟨_, hstart, Channel.conserved_fresh fun _ => hfresh, _, Channel.uncut_fresh fun _ => hfresh⟩
  have hmeets : Along (step P c.connId) (Meets c.connId False True) (start d l) ops :=
    along_mono (fun _ _ h => ⟨h.1, nofun, fun _ => h.2⟩) hok
  have hstep := Intact.step (a := a) hP hid hd.2 (settings_mtu hd hm)
  refine ⟨along_inv hstep (fun s op h hmeets => h.safe (hmeets.2.2 trivial)) hord hmeets, fun b k hq => ?_⟩
  obtain ⟨ch, hlink, hcons, _⟩ := run_inv_along hstep hord hmeets hrun
  rw [← (hlink.models (!b)).accepted, ← (hlink.models b).delivered]
  exact hcons.drained ((hlink.models (!b)).snd_drained hq.1) ((hlink.models b).rcv_read hq.2)

/-- The request is sent again when no reply comes; the copy arrives first. -/
def retriedOps : List (HandshakeOp { prv : UInt8 // prv ≠ 0 } UInt8) :=
  [.call true (.write 0 [1, 2, 3] (.ok ())), .call true (.flush 0 1 (.ok ())), .call true (.flush 0 2000000000 (.ok ())),
    .receive false 1 0 (.ok ⟨101, by decide⟩) 2000000001, .call false (.read 0), .receive false 0 0 (.error "") 2000000002,
    .call false (.flush 0 2000000003 (.ok ())), .receive true 0 0 (.error "") 2000000004]

theorem retried_unsplit : Along (step plainHonest zeroRttConn.connId)
    (fun s op => s.Fits zeroRttConn.connId op ∧ s.Unsplit zeroRttConn.connId op)
    (start (zeroRttDialer.setConn zeroRttConn.connId zeroRttConn) zeroRttListener) retriedOps := by decide +kernel

theorem retried_quiet : ∃ t ∈ run (step plainHonest zeroRttConn.connId)
      (start (zeroRttDialer.setConn zeroRttConn.connId zeroRttConn) zeroRttListener) retriedOps,
    (t.sent true).length = 2 ∧ t.accepted true 0 = [1, 2, 3] ∧ t.Quiet zeroRttConn.connId false 0 := by decide +kernel

theorem retried_delivers : ∃ t, run (step plainHonest zeroRttConn.connId)
      (start (zeroRttDialer.setConn zeroRttConn.connId zeroRttConn) zeroRttListener) retriedOps = some t ∧
    (t.sent true).length = 2 ∧ t.delivered false 0 = [1, 2, 3] := by
  obtain ⟨t, ht, hsent, hacc, hq⟩ := retried_quiet
  have hall := (unsplit_session_delivers plainHonest_correct _ _ _ _ zeroRtt_dialed rfl (by decide) (by decide) retriedOps t
    retried_unsplit ht).2 false 0 hq
  exact ⟨t, ht, hsent, hall.trans hacc⟩

end Session

end Qotp
