import Qotp.System.Scheduler

namespace Qotp

open Framework

variable {Prv Pub : Type}

namespace Listener

variable {P : Primitives Prv Pub} {l l' : Listener Prv Pub} {d : Bytes} {rAddr now : Nat} {fresh : Except String Prv}

theorem decode_sameSettings {res : Except String Decoded} (h : l.decode P d rAddr fresh = some (l', res)) :
    l.SameSettings l' := by
  cases hg : l.connMap.get? (connIdOf d) with
  | some c =>
    obtain ⟨rfl, _⟩ | ⟨c', _, rfl, _⟩ := (decode_effect P h).named c hg
    · rfl
    · rfl
  | none =>
    cases decode_opening P hg h with
    | refused e => rfl
    | halfOpen k z e err ht hk hf hq herr => rfl
    | initSnd k z key ht hk hf hkey l₁ hl₁ =>
      rw [hl₁]
      rfl
    | initCryptoSnd m z ht hk hf l₁ hl₁ =>
      rw [hl₁]
      rfl

/-- A datagram concerns the connection it names. -/
theorem listen_others {r : Except String (Option (Nat × Nat))}
    (h : l.listen P (.datagram d rAddr) fresh now = some (l', r)) :
    l.SameSettings l' ∧ ∀ j ≠ connIdOf d, l'.connMap.get? j = l.connMap.get? j := by
  unfold listen at h
  dsimp only at h
  split_ifs at h
  · cases h
    exact ⟨rfl, fun _ _ => rfl⟩
  obtain ⟨⟨l₁, res⟩, hdec, h⟩ := Option.bind_eq_some_iff.mp h
  have hset := decode_sameSettings hdec
  have heff := decode_effect P hdec
  rcases res with e | dec
  · cases h
    exact ⟨hset, heff.others⟩
  obtain ⟨hcid, _⟩ := heff.result dec rfl
  obtain ⟨c₀, hc₀, h⟩ := Option.bind_eq_some_iff.mp h
  obtain ⟨res, hpay, h⟩ := Option.bind_eq_some_iff.mp h
  have hput : ∀ c, l.SameSettings (l₁.setConn dec.connId c) ∧
      ∀ j ≠ connIdOf d, (l₁.setConn dec.connId c).connMap.get? j = l.connMap.get? j := by
    intro c
    refine ⟨hset.trans rfl, fun j hj => ?_⟩
    rw [get?_setConn, if_neg (hcid ▸ hj)]
    exact heff.others j hj
  rcases res with e | ⟨p, u⟩
  · cases h
    exact hput _
  · obtain ⟨c₂, hd, h⟩ := Option.bind_eq_some_iff.mp h
    cases h
    exact hput _

/-- Dialing adds at most the connection of its own key. -/
theorem dialWith_others {idKey : Option Pub} {withCrypto : Bool} {r : Except String (Conn Prv Pub)}
    (h : l.dialWith P rAddr idKey withCrypto fresh = some (l', r)) :
    l.SameSettings l' ∧ ∀ j, (∀ x, fresh = .ok x → j ≠ keyConnId P (P.publicKey x)) →
      l'.connMap.get? j = l.connMap.get? j := by
  rcases fresh with e | x
  · cases h
    exact ⟨rfl, fun _ _ => rfl⟩
  · obtain ⟨n, hn, hnew⟩ := Option.bind_eq_some_iff.mp h
    have hbytes := uint64_bytes (P := P) (P.publicKey x) []
    rw [List.append_nil, hn] at hbytes
    cases hbytes
    obtain ⟨rfl, _⟩ | ⟨_, _, rfl, _⟩ := newConn_cases P hnew
    · exact ⟨rfl, fun _ _ => rfl⟩
    · refine ⟨rfl, fun j hj => ?_⟩
      rw [get?_setConn, if_neg (hj x rfl)]

end Listener

/-- Two hosts, each with any number of connections. What was written, queued and read is
recorded for every connection. -/
structure Network (Prv Pub : Type) where
  host : Bool → Listener Prv Pub
  sent : Bool → Nat → List Conn.Outgoing := fun _ _ => []
  accepted : Bool → Nat → Nat → Bytes := fun _ _ _ => []
  delivered : Bool → Nat → Nat → Bytes := fun _ _ _ => []

/-- A connection of a host is called; a host calls `Listener.Flush`; a datagram arrives, of
the other host or of anyone else; or a host dials. -/
inductive NetworkOp (Prv Pub : Type) where
  | call (host : Bool) (id : Nat) (op : ConnOp Prv Pub)
  | flush (host : Bool) (nowNano : Nat) (writes : Nat × Nat → WriteResult) (rank : Nat → Nat)
  | receive (host : Bool) (data : Bytes) (rAddr : Nat) (fresh : Except String Prv) (nowNano : Nat)
  | dial (host : Bool) (rAddr : Nat) (pubKeyIdRcv : Option Pub) (withCrypto : Bool) (fresh : Except String Prv)

namespace Network

variable (P : Primitives Prv Pub)

/-- The host between two calls of `Listener.Flush`. -/
def scheduler (s : Network Prv Pub) (b : Bool) : RoundRobin Prv Pub := { toListener := s.host b }

/-- A call on connection `id` of a host, with what it writes, queues and hands out. -/
def call (s : Network Prv Pub) (b : Bool) (id : Nat) (op : ConnOp Prv Pub) : Option (Network Prv Pub) :=
  ((s.host b).connMap.get? id).bind fun c =>
    (({ conn := c, accepted := s.accepted b id, delivered := s.delivered b id } : Endpoint Prv Pub).step P
        (s.host b).cfg op).map fun e =>
      { host := Function.update s.host b ((s.host b).setConn id e.conn)
        sent := Function.update s.sent b (Function.update (s.sent b) id (s.sent b id ++ e.sent))
        accepted := Function.update s.accepted b (Function.update (s.accepted b) id e.accepted)
        delivered := Function.update s.delivered b (Function.update (s.delivered b) id e.delivered) }

def step (s : Network Prv Pub) : NetworkOp Prv Pub → Option (Network Prv Pub)
  | .call b id op => if op.isLocal then s.call P b id op else none
  | .flush b now writes rank => ((s.scheduler b).flush P now writes rank).map fun f =>
    { s with
      host := Function.update s.host b f.listener.toListener
      sent := Function.update s.sent b fun id => s.sent b id ++ outFor id f.out }
  | .receive b data rAddr fresh now => ((s.host b).listen P ((s.host b).readFrom data rAddr) fresh now).map fun r =>
    { s with host := Function.update s.host b r.1 }
  | .dial b rAddr idKey withCrypto fresh => ((s.host b).dialWith P rAddr idKey withCrypto fresh).map fun r =>
    { s with host := Function.update s.host b r.1 }

/-- Stream ids have 32 bits, and fewer than 2^48 bytes were written on each stream of connection `id`. -/
def InRange (id : Nat) (s : Network Prv Pub) (b : Bool) : Prop :=
  ∀ k ∈ (s.host b).streamKeysAt id, k < 2 ^ 32 ∧ (s.accepted b id k).length < 2 ^ 48

instance (id : Nat) (s : Network Prv Pub) (b : Bool) : Decidable (s.InRange id b) :=
  inferInstanceAs (Decidable (∀ k ∈ _, _))

/-- What is asked for connection `id`. Nobody but the two ends writes datagrams that name it, and no other connection
gets its id; anything may arrive for the others that a read of one MTU holds. `Listener.Flush` finds everything under
its own id, overwrites no id and does not drop the connection. -/
def Unforged (id : Nat) (s : Network Prv Pub) : NetworkOp Prv Pub → Prop
  | .call b j (.flush k _ _) => j = id → k < 2 ^ 32 ∧
    ∀ c ∈ (s.host b).connMap.get? id, (c.snd.stream k).bytesSentOffset < 2 ^ 48
  | .call _ _ _ => True
  | .flush b now writes rank => (s.host b).Keyed ∧ (s.scheduler b).NoIdClash P now writes ∧ s.InRange id b ∧
    ∀ f ∈ (s.scheduler b).flush P now writes rank, id ∈ (s.host b).connMap.keys → id ∈ f.listener.connMap.keys
  | .receive b data _ _ _ => (data.length : Int) ≤ (s.host b).mtu ∧ (connIdOf data = id → ∃ o ∈ s.sent (!b) id, o.encData = data)
  | .dial _ _ _ _ fresh => ∀ x, fresh = .ok x → id ≠ keyConnId P (P.publicKey x)

/-- Session `u` is what the network does for connection `id`. -/
structure Shows (id : Nat) (s : Network Prv Pub) (u : Session Prv Pub) : Prop where
  side : u.side = s.host
  sent : ∀ b, (u.sent b).map Prod.snd = s.sent b id
  accepted : ∀ b, u.accepted b = s.accepted b id
  delivered : ∀ b, u.delivered b = s.delivered b id

variable {P} {id : Nat} {s t : Network Prv Pub} {u : Session Prv Pub} {op : NetworkOp Prv Pub}

/-- What happens to other connections of a host is nothing but that to the session. -/
theorem Shows.others {b : Bool} {l : Listener Prv Pub} (h : s.Shows id u) (hhost : t.host = Function.update s.host b l)
    (hset : (s.host b).SameSettings l) (hget : l.connMap.get? id = (s.host b).connMap.get? id)
    (hsent : ∀ d, t.sent d id = s.sent d id) (hacc : ∀ d, t.accepted d id = s.accepted d id)
    (hdel : ∀ d, t.delivered d id = s.delivered d id) :
    ∃ v, u.step P id (.others b l.connMap) = some v ∧ t.Shows id v := by
  refine ⟨_, rfl, ?_, fun d => (h.sent d).trans (hsent d).symm, fun d => (h.accepted d).trans (hacc d).symm,
    fun d => (h.delivered d).trans (hdel d).symm⟩
  dsimp only
  rw [h.side, Listener.withOthers_eq hset hget, hhost]

/-- A call on the connection is the same call in the session. -/
theorem Shows.call {b : Bool} {op : ConnOp Prv Pub} (h : s.Shows id u) (hs : s.step P (.call b id op) = some t) :
    ∃ v, u.step P id (.call b op) = some v ∧ t.Shows id v := by
  simp only [step] at hs
  split_ifs at hs with hop
  obtain ⟨c, hget, hs⟩ := Option.bind_eq_some_iff.mp hs
  obtain ⟨e, he, rfl⟩ := Option.map_eq_some_iff.mp hs
  simp only [Session.step, if_pos hop, Session.call, h.side, h.accepted, h.delivered, hget, Option.bind_some, he,
    Option.map_some]
  refine ⟨_, rfl, rfl, fun d => ?_, fun d => ?_, fun d => ?_⟩
  · dsimp only
    rw [Function.update_apply, Function.update_apply]
    split_ifs with hd
    · rw [Function.update_self, List.map_append, List.map_map, h.sent]
      exact congrArg _ (List.map_id e.sent)
    · exact h.sent d
  · dsimp only
    rw [Function.update_apply, Function.update_apply]
    split_ifs with hd
    · rw [Function.update_self]
    · exact h.accepted d
  · dsimp only
    rw [Function.update_apply, Function.update_apply]
    split_ifs with hd
    · rw [Function.update_self]
    · exact h.delivered d

/-- A call on another connection. -/
theorem Shows.call_other {b : Bool} {j : Nat} {op : ConnOp Prv Pub} (h : s.Shows id u) (hj : j ≠ id)
    (hs : s.step P (.call b j op) = some t) :
    ∃ connMap v, u.step P id (.others b connMap) = some v ∧ t.Shows id v := by
  simp only [step] at hs
  split_ifs at hs with hop
  obtain ⟨c, hget, hs⟩ := Option.bind_eq_some_iff.mp hs
  obtain ⟨e, he, rfl⟩ := Option.map_eq_some_iff.mp hs
  have hold : ∀ {β : Type} (g : Bool → Nat → β) (x : β) (d : Bool),
      Function.update g b (Function.update (g b) j x) d id = g d id := by
    intro β g x d
    rw [Function.update_apply]
    split_ifs with hd
    · rw [hd, Function.update_of_ne hj.symm]
    · rfl
  exact ⟨_, h.others (l := (s.host b).setConn j e.conn) rfl rfl
    (by rw [Listener.get?_setConn, if_neg hj.symm]) (hold s.sent _) (hold s.accepted _) (hold s.delivered _)⟩

section Follow

variable {a : Prv} {cfg : Bool → ListenerCfg Prv} (hP : P.Correct) (hid : id = keyConnId P (P.publicKey a))
  (hmtu : (cfg true).mtu ≤ 65507) (hfit : ∀ b, 119 ≤ (cfg b).mtu ∧ (cfg b).mtu ≤ 65535)

include hP hid hmtu hfit

/-- A call of `Listener.Flush` is the row of calls that it makes on the connection. -/
theorem Shows.flush {b : Bool} {now : Nat} {writes : Nat × Nat → WriteResult} {rank : Nat → Nat} (h : s.Shows id u)
    (hback : Session.Backed P id a cfg u) (hok : s.Unforged P id (.flush b now writes rank))
    (hs : s.step P (.flush b now writes rank) = some t) :
    Follows (Session.step P id) (Session.Fits id) (fun t v => t.Shows id v) u t := by
  obtain ⟨hk, hclash, hrange, hstays⟩ := hok
  obtain ⟨f, hf, rfl⟩ := Option.map_eq_some_iff.mp hs
  have hsched : u.scheduler b = s.scheduler b := by rw [Session.scheduler, h.side]; rfl
  have hks : u.InRange ((u.side b).streamKeysAt id) b := by
    rw [h.side, Session.InRange, h.accepted]
    exact hrange
  obtain ⟨done, gone, v, _, _, hal, hv, hserved⟩ := hback.flush_served hP hid hmtu hfit (h.side ▸ hk)
    (hsched ▸ hclash) (hsched ▸ hf) (h.side ▸ hstays f hf) hks
  refine ⟨_, v, hal, hv, ?_, fun d => ?_, fun d => ?_, fun d => ?_⟩
  · rw [hserved.side, h.side]
  · dsimp only
    rw [Function.update_apply]
    split_ifs with hd
    · rw [hd, hserved.sent, h.sent]
    · rw [Bool.eq_not_of_ne hd, hserved.peer, h.sent]
  · rw [hserved.accepted, h.accepted]
  · rw [hserved.delivered, h.delivered]

/-- Whatever the network does is followed by the session of the connection. -/
theorem step_session (s : Network Prv Pub) (op : NetworkOp Prv Pub) (t : Network Prv Pub) (u : Session Prv Pub)
    (h : s.Shows id u ∧ Session.Backed P id a cfg u) (hok : s.Unforged P id op) (hs : s.step P op = some t) :
    Follows (Session.step P id) (Session.Fits id) (fun t u => t.Shows id u ∧ Session.Backed P id a cfg u) u t := by
  obtain ⟨hshows, hback⟩ := h
  refine Follows.with_inv (Session.Backed.step hP hid hmtu hfit) hback ?_
  cases op with
  | call b j op =>
    by_cases hj : j = id
    · subst hj
      refine follows_one (b := HandshakeOp.call b op) ?_ (hshows.call hs)
      cases op with
      | flush k now w =>
        rw [Session.Fits, hshows.side]
        exact hok rfl
      | _ => trivial
    · obtain ⟨connMap, hothers⟩ := hshows.call_other hj hs
      exact follows_one (b := HandshakeOp.others b connMap) trivial hothers
  | flush b now writes rank => exact hshows.flush hP hid hmtu hfit hback hok hs
  | receive b data rAddr fresh now =>
    obtain ⟨⟨l, r⟩, hl, rfl⟩ := Option.map_eq_some_iff.mp hs
    have hread := Listener.readFrom_of_fits hok.1 rAddr
    obtain ⟨hset, hothers⟩ := Listener.listen_others (hread ▸ hl)
    by_cases hdata : connIdOf data = id
    · obtain ⟨o, ho, rfl⟩ := hok.2 hdata
      rw [← hshows.sent, List.mem_map] at ho
      obtain ⟨x, hx, rfl⟩ := ho
      obtain ⟨i, hi⟩ := List.getElem?_of_mem hx
      refine follows_one (b := HandshakeOp.receive b i rAddr fresh now) (fun y hy => ?_)
        ⟨{ u with side := Function.update u.side b l }, ?_, ?_⟩
      · cases hi.symm.trans hy
        rw [hshows.side]
        exact hok.1
      · simp only [Session.step, Handshake.step, hi, hshows.side, hl, Option.bind_some, Option.map_some]
      · exact ⟨by rw [hshows.side], hshows.sent, hshows.accepted, hshows.delivered⟩
    · exact follows_one (b := HandshakeOp.others b l.connMap) trivial
        (hshows.others rfl hset (hothers id (Ne.symm hdata)) (fun _ => rfl) (fun _ => rfl) fun _ => rfl)
  | dial b rAddr idKey withCrypto fresh =>
    obtain ⟨⟨l, r⟩, hl, rfl⟩ := Option.map_eq_some_iff.mp hs
    obtain ⟨hset, hothers⟩ := Listener.dialWith_others hl
    exact follows_one (b := HandshakeOp.others b l.connMap) trivial
      (hshows.others rfl hset (hothers id hok) (fun _ => rfl) (fun _ => rfl) fun _ => rfl)

end Follow

/-- Nothing was written, queued or read under this id. -/
structure Unused (s : Network Prv Pub) (id : Nat) : Prop where
  sent : ∀ b, s.sent b id = []
  accepted : ∀ b k, s.accepted b id k = []
  delivered : ∀ b k, s.delivered b id k = []

theorem Unused.shows (h : s.Unused id) : s.Shows id (Session.start (s.host true) (s.host false)) := by
  refine ⟨?_, fun b => (h.sent b).symm, fun b => funext fun k => (h.accepted b k).symm,
    fun b => funext fun k => (h.delivered b k).symm⟩
  funext b
  cases b <;> rfl

/-- Connections are isolated: between a dialer and its listener the bytes of a stream arrive in
order and unchanged, whatever other connections the two hosts have or open, whatever
anyone sends to those, and however the hosts share `Listener.Flush` among them. -/
theorem connection_isolated (hP : P.Correct) (a : Prv) (d₀ : Listener Prv Pub) (c : Conn Prv Pub) (s t : Network Prv Pub)
    (hdial : Session.Dialed P d₀ (s.host true) (s.host false) a c) (hl : (s.host false).connMap.get? c.connId = none)
    (hnew : s.Unused c.connId) (hd : 119 ≤ (s.host true).mtu ∧ (s.host true).mtu ≤ 65507)
    (hm : 119 ≤ (s.host false).mtu ∧ (s.host false).mtu ≤ 65535) (ops : List (NetworkOp Prv Pub))
    (hok : Along (step P) (Unforged P c.connId) s ops) (hrun : run (step P) s ops = some t) (b : Bool) (k : Nat) :
    t.delivered b c.connId k <+: t.accepted (!b) c.connId k := by
  obtain ⟨hid, hback⟩ := Session.backed_start hdial hl
  obtain ⟨_, u, _, _, hshows, hback⟩ :=
    run_follows (step_session hP hid hd.2 (Session.settings_mtu hd hm)) ⟨hnew.shows, hback⟩ hok hrun
  have hpre := hback.delivers b k
  rwa [hshows.delivered, hshows.accepted] at hpre

section Crowded

open Session

/-- `Unforged` with what can be run of the conditions on `Listener.Flush`. -/
def Checked (P : Primitives Prv Pub) (id : Nat) (s : Network Prv Pub) : NetworkOp Prv Pub → Prop
  | .flush b now writes rank => (s.host b).KeyedEntries ∧ (s.host b).Apart now ∧ s.InRange id b ∧
    ∀ f ∈ (s.scheduler b).flush P now writes rank, id ∈ (s.host b).connMap.keys → id ∈ f.listener.connMap.keys
  | op => s.Unforged P id op

instance (P : Primitives Prv Pub) (id : Nat) (s : Network Prv Pub) : ∀ op, Decidable (s.Checked P id op)
  | .call b j (.flush k _ _) => inferInstanceAs (Decidable (j = id → k < 2 ^ 32 ∧
      ∀ c ∈ (s.host b).connMap.get? id, (c.snd.stream k).bytesSentOffset < 2 ^ 48))
  | .flush _ _ _ _ => inferInstanceAs (Decidable (_ ∧ _ ∧ _ ∧ ∀ f ∈ _, _))
  | .receive b data _ _ _ => inferInstanceAs (Decidable ((data.length : Int) ≤ (s.host b).mtu ∧
      (connIdOf data = id → ∃ o ∈ s.sent (!b) id, o.encData = data)))
  | .dial _ _ _ _ (.ok x) => decidable_of_iff (id ≠ keyConnId P (P.publicKey x)) (by simp [Checked, Unforged])
  | .dial _ _ _ _ (.error _) => isTrue nofun
  | .call _ _ (.write _ _ _) | .call _ _ (.read _) | .call _ _ (.ping _) | .call _ _ (.close _)
  | .call _ _ (.decode _ _ _ _) | .call _ _ (.cleanup _) | .call _ _ (.handshake _) => isTrue trivial

theorem Checked.unforged {op : NetworkOp Prv Pub} (h : s.Checked P id op) : s.Unforged P id op := by
  cases op with
  | flush b now writes rank =>
    obtain ⟨hk, hapart, hrange, hstays⟩ := h
    exact ⟨hk.keyed, RoundRobin.noIdClash_of_apart rfl rfl hapart, hrange, hstays⟩
  | call b j op => exact h
  | receive b data rAddr fresh now => exact h
  | dial b rAddr idKey withCrypto fresh => exact h

/-- The two hosts behind the dial. -/
def crowdedStart : Network { prv : UInt8 // prv ≠ 0 } UInt8 where
  host b := if b then zeroRttDialer.setConn zeroRttConn.connId zeroRttConn else zeroRttListener

/-- The dialer opens a second connection, writes on both, and flushes twice. -/
def crowdedCalls : List (NetworkOp { prv : UInt8 // prv ≠ 0 } UInt8) :=
  [.dial true 0 none false (.ok otherConn.prvKeyEpSnd), .call true zeroRttConn.connId (.write 0 [1, 2, 3] (.ok ())),
    .call true otherConn.connId (.write 7 [4] (.ok ())), .flush true 1 (fun _ => .ok ()) (fun _ => 0),
    .flush true 2 (fun _ => .ok ()) (fun _ => 0)]

/-- The request that the dialer writes. -/
def crowdedRequest : Bytes :=
  (((run (step plainHonest) crowdedStart crowdedCalls).bind fun s => (s.sent true zeroRttConn.connId)[0]?).map
    fun o => o.encData).getD []

/-- A stranger and a broken datagram come before the request; then the listener flushes. -/
def crowdedOps : List (NetworkOp { prv : UInt8 // prv ≠ 0 } UInt8) :=
  let stranger := ((encryptInitSnd plainHonest 47 53 200).map Prod.snd).getD []
  crowdedCalls ++ [.receive false stranger 7 (.ok ⟨59, by decide⟩) 3, .receive false (List.replicate 60 61) 8 (.error "") 4,
    .receive false crowdedRequest 0 (.ok ⟨97, by decide⟩) 5, .flush false 6 (fun _ => .ok ()) (fun _ => 0),
    .call false zeroRttConn.connId (.read 0)]

theorem crowded_checked : Along (step plainHonest) (Checked plainHonest zeroRttConn.connId) crowdedStart crowdedOps := by
  decide +kernel

theorem crowded_run : ∃ t ∈ run (step plainHonest) crowdedStart crowdedOps,
    (t.host true).connMap.keys.length = 2 ∧ (t.host false).connMap.keys.length = 2 ∧
      (t.sent true otherConn.connId).length = 1 ∧ (t.sent false zeroRttConn.connId).length = 1 ∧
      t.delivered false zeroRttConn.connId 0 = [1, 2, 3] := by decide +kernel

theorem crowded_isolated : ∃ t, run (step plainHonest) crowdedStart crowdedOps = some t ∧
    t.delivered false zeroRttConn.connId 0 = [1, 2, 3] ∧
    t.delivered false zeroRttConn.connId 0 <+: t.accepted true zeroRttConn.connId 0 := by
  obtain ⟨t, ht, _, _, _, _, hdel⟩ := crowded_run
  exact ⟨t, ht, hdel, connection_isolated plainHonest_correct _ _ _ crowdedStart t zeroRtt_dialed rfl
    ⟨fun _ => rfl, fun _ _ => rfl, fun _ _ => rfl⟩ (by decide) (by decide) crowdedOps
    (along_mono (fun _ _ h => h.unforged) crowded_checked) ht false 0⟩

end Crowded

end Network

end Qotp
