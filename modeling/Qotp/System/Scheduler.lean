import Qotp.Conn.FlushCalls
import Qotp.Framework.InsertionOrder
import Qotp.System.NeverCut

namespace Qotp

open Framework

variable {Prv Pub : Type} {P : Primitives Prv Pub}

namespace Listener

variable {l l' : Listener Prv Pub}

/-- Only the connections change. -/
def SameSettings (l l' : Listener Prv Pub) : Prop := l' = { l with connMap := l'.connMap }

theorem SameSettings.trans {l₁ : Listener Prv Pub} (h : l.SameSettings l₁) (h' : l₁.SameSettings l') : l.SameSettings l' := by
  rw [SameSettings, h', h]

/-- The listener with other connections, where those of `l'` are taken. -/
theorem withOthers_eq {id : Nat} (h : l.SameSettings l') (hget : l'.connMap.get? id = l.connMap.get? id) :
    l.withOthers id l'.connMap = l' := by
  unfold withOthers
  rw [← hget]
  cases hg : l'.connMap.get? id with
  | none =>
    rw [Option.elim_none, InsertionMap.erase_of_get?_eq_none hg]
    exact h.symm
  | some c =>
    rw [Option.elim_some, InsertionMap.put_of_get? hg]
    exact h.symm

end Listener

namespace Session

variable {id : Nat} {a : Prv} {cfg : Bool → ListenerCfg Prv} {s t u : Session Prv Pub} {b : Bool} {c : Conn Prv Pub}
  {e e' : Endpoint Prv Pub}

/-- Only side `b` has changed, and of its listener only the connections. -/
structure Beside (b : Bool) (s t : Session Prv Pub) : Prop where
  side : t.side = Function.update s.side b { s.side b with connMap := (t.side b).connMap }
  sent : t.sent (!b) = s.sent (!b)
  accepted : t.accepted (!b) = s.accepted (!b)
  delivered : t.delivered (!b) = s.delivered (!b)

theorem beside_refl (b : Bool) (s : Session Prv Pub) : s.Beside b s :=
  ⟨(Function.update_eq_self b s.side).symm, rfl, rfl, rfl⟩

theorem Beside.trans (h : s.Beside b t) (h' : t.Beside b u) : s.Beside b u := by
  refine ⟨?_, h'.sent.trans h.sent, h'.accepted.trans h.accepted, h'.delivered.trans h.delivered⟩
  rw [h'.side, h.side]
  simp

theorem Beside.cfg_eq (h : s.Beside b t) : (t.side b).cfg = (s.side b).cfg := by
  rw [h.side, Function.update_self]
  rfl

/-- A call on the endpoint that models a side is a step of the session. -/
theorem step_of_endpoint {op : ConnOp Prv Pub} (hop : op.isLocal = true) (hget : (s.side b).connMap.get? id = some c)
    (hm : s.Models id b e) (he : e.step P (s.side b).cfg op = some e') :
    ∃ t, s.step P id (.call b op) = some t ∧ t.Models id b e' ∧ s.Beside b t ∧
      (t.side b).connMap.get? id = some e'.conn := by
  obtain ⟨f', out, hf, hconn, _⟩ := Endpoint.step_recorded
    (f := { conn := c, accepted := s.accepted b, delivered := s.delivered b }) (hm.conn c hget).symm he
  obtain ⟨t, ht⟩ : ∃ t, s.step P id (.call b op) = some t := by
    simp only [step, if_pos hop, call, hget, Option.bind_some, hf, Option.map_some]
    exact ⟨_, rfl⟩
  obtain ⟨e'', he'', hm'⟩ := (step_called ht).endpoint e hm
  cases he.symm.trans he''
  refine ⟨t, ht, hm', ?_⟩
  simp only [step, if_pos hop, call, hget, Option.bind_some, hf, Option.map_some] at ht
  cases ht
  refine ⟨⟨?_, ?_, ?_, ?_⟩, ?_⟩
  · dsimp only
    rw [Function.update_self]
    rfl
  · simp
  · simp
  · simp
  · rw [Handshake.get?_update, if_pos rfl, Listener.get?_setConn, if_pos rfl, hconn]

theorem run_of_endpoint {ops : List (ConnOp Prv Pub)} (hlocal : ∀ op ∈ ops, op.isLocal = true)
    (hget : (s.side b).connMap.get? id = some c) (hm : s.Models id b e)
    (hrun : run (Endpoint.step P (s.side b).cfg) e ops = some e') :
    ∃ t, run (step P id) s (ops.map (.call b)) = some t ∧ t.Models id b e' ∧ s.Beside b t ∧
      (t.side b).connMap.get? id = some e'.conn := by
  induction ops generalizing s c e with
  | nil =>
    cases hrun
    exact ⟨s, rfl, hm, beside_refl b s, by rw [hm.conn c hget]; exact hget⟩
  | cons op ops ih =>
    obtain ⟨e₁, he₁, hrun⟩ := (run_cons _ _ _ _ _).mp hrun
    obtain ⟨s₁, hs₁, hm₁, hb₁, hget₁⟩ := step_of_endpoint (hlocal op List.mem_cons_self) hget hm he₁
    rw [← hb₁.cfg_eq] at hrun
    obtain ⟨t, ht, hm', hb', hget'⟩ := ih (fun x hx => hlocal x (List.mem_cons_of_mem op hx)) hget₁ hm₁ hrun
    exact ⟨t, (run_cons _ _ _ _ _).mpr ⟨s₁, hs₁, ht⟩, hm', hb₁.trans hb', hget'⟩

/-- What the scheduler asks of a connection: `Flush` for one of the streams `ks`, or the clean-up of a stream. -/
def Serving (ks : List Nat) (b : Bool) (op : HandshakeOp Prv Pub) : Prop :=
  (∃ k ∈ ks, ∃ now w, op = .call b (.flush k now w)) ∨ ∃ k, op = .call b (.cleanup k)

variable {ks : List Nat}

theorem serving_callsOn (now : Nat) (writes : Nat × Nat → WriteResult) {done : List (Nat × Nat)}
    (hvs : ∀ v ∈ done, v.1 = id → v.2 ∈ ks) (gone : List Nat) :
    ∀ op ∈ (flushCalls now writes id done gone : List (ConnOp Prv Pub)),
      op.isLocal = true ∧ Serving ks b (.call b op) := by
  intro op hop
  obtain hop | hop := List.mem_append.mp hop
  · obtain ⟨v, hv, rfl⟩ := List.mem_map.mp hop
    obtain ⟨hv, hv₁⟩ := List.mem_filter.mp hv
    exact ⟨rfl, .inl ⟨v.2, hvs v hv (of_decide_eq_true hv₁), now, writes v, rfl⟩⟩
  · obtain ⟨k, _, rfl⟩ := List.mem_map.mp hop
    exact ⟨rfl, .inr ⟨k, rfl⟩⟩

/-- Serving a stream queues nothing and reads nothing. -/
theorem step_serving {op : HandshakeOp Prv Pub} (h : Serving ks b op) (hs : s.step P id op = some t) :
    t.accepted = s.accepted ∧ t.delivered = s.delivered := by
  obtain ⟨k, _, now, w, rfl⟩ | ⟨k, rfl⟩ := h
  · obtain ⟨c, _, hs⟩ := Option.bind_eq_some_iff.mp hs
    obtain ⟨e, he, rfl⟩ := Option.map_eq_some_iff.mp hs
    obtain ⟨r, _, rfl⟩ := Option.map_eq_some_iff.mp he
    exact ⟨Function.update_eq_self _ _, Function.update_eq_self _ _⟩
  · obtain ⟨c, _, hs⟩ := Option.bind_eq_some_iff.mp hs
    cases hs
    exact ⟨Function.update_eq_self _ _, Function.update_eq_self _ _⟩

theorem run_serving {ops : List (HandshakeOp Prv Pub)} (hops : ∀ op ∈ ops, Serving ks b op)
    (hrun : run (step P id) s ops = some t) : t.accepted = s.accepted ∧ t.delivered = s.delivered := by
  have hstep : ∀ u op v, (u.accepted = s.accepted ∧ u.delivered = s.delivered) → Serving ks b op →
      Session.step P id u op = some v → v.accepted = s.accepted ∧ v.delivered = s.delivered := by
    intro u op v hu hop hv
    obtain ⟨hacc, hdel⟩ := step_serving hop hv
    exact ⟨hacc.trans hu.1, hdel.trans hu.2⟩
  exact run_inv_along hstep ⟨rfl, rfl⟩ (along_of_forall hops) hrun

/-- The streams have ids of 32 bits, and fewer than 2^48 bytes were written on each. -/
def InRange (ks : List Nat) (b : Bool) (s : Session Prv Pub) : Prop :=
  ∀ k ∈ ks, k < 2 ^ 32 ∧ (s.accepted b k).length < 2 ^ 48

instance (ks : List Nat) (b : Bool) (s : Session Prv Pub) : Decidable (s.InRange ks b) :=
  inferInstanceAs (Decidable (∀ k ∈ ks, _))

/-- No more bytes are sent than were written. -/
theorem Backed.serving_fits (h : Backed P id a cfg s) (hks : s.InRange ks b) {op : HandshakeOp Prv Pub}
    (hop : Serving ks b op) : s.Fits id op := by
  obtain ⟨ch, hlink, hinv⟩ := h
  obtain ⟨k, hk, now, w, rfl⟩ | ⟨k, rfl⟩ := hop
  · refine ⟨(hks k hk).1, fun c hc => ?_⟩
    have hle := ((hinv.side b).snd.conserves k).sent_le
    rw [(hlink.models b).accepted, (hlink.models b).conn c hc] at hle
    exact hle.trans_lt (hks k hk).2
  · trivial

/-- The listener of a side between two calls of `Listener.Flush`. -/
def scheduler (s : Session Prv Pub) (b : Bool) : RoundRobin Prv Pub := { toListener := s.side b }

/-- `Listener.Flush` as steps of the session: the calls of `Conn.Flush` on those of its streams that are among `done`, the
clean-ups of the streams `gone`, and what is left of the other connections. -/
def scheduled (id : Nat) (b : Bool) (now : Nat) (writes : Nat × Nat → WriteResult) (done : List (Nat × Nat))
    (gone : List Nat) (f : Flushed Prv Pub) : List (HandshakeOp Prv Pub) :=
  (flushCalls now writes id done gone).map (.call b) ++ [.others b f.listener.connMap]

/-- The session behind a call of `Listener.Flush` on side `b` that leaves `f`: what the connection has sent are its
datagrams among those that were written. -/
structure Served (id : Nat) (b : Bool) (s : Session Prv Pub) (f : Flushed Prv Pub) (t : Session Prv Pub) : Prop where
  side : t.side = Function.update s.side b f.listener.toListener
  sent : (t.sent b).map Prod.snd = (s.sent b).map Prod.snd ++ outFor id f.out
  peer : t.sent (!b) = s.sent (!b)
  accepted : t.accepted = s.accepted
  delivered : t.delivered = s.delivered

variable {now : Nat} {writes : Nat × Nat → WriteResult} {rank : Nat → Nat} {f : Flushed Prv Pub}

/-- The last step puts the other connections where `Flush` has left them. -/
theorem served_of_calls (hset : f.listener.toListener = { s.side b with connMap := f.listener.connMap })
    (hb : s.Beside b t) (hget : f.listener.connMap.get? id = (t.side b).connMap.get? id)
    (hsent : (t.sent b).map Prod.snd = (s.sent b).map Prod.snd ++ outFor id f.out)
    (hframe : t.accepted = s.accepted ∧ t.delivered = s.delivered) :
    ∃ u, run (step P id) t [.others b f.listener.connMap] = some u ∧ Served id b s f u := by
  have hsame : (t.side b).SameSettings f.listener.toListener := by
    rw [Listener.SameSettings, hset, hb.side, Function.update_self]
  refine ⟨_, rfl, ?_, hsent, hb.sent, hframe.1, hframe.2⟩
  dsimp only
  rw [Listener.withOthers_eq hsame hget, hb.side, Function.update_idem]

/-- The calls that `Listener.Flush` makes on a connection that it keeps. -/
theorem Models.flush_served (hm : s.Models id b e) (hget : (s.side b).connMap.get? id = some c)
    (hk : (s.side b).Keyed) (hclash : (s.scheduler b).NoIdClash P now writes)
    (hf : (s.scheduler b).flush P now writes rank = some f) (hstays : id ∈ f.listener.connMap.keys) :
    ∃ done gone t u, done <+: (s.scheduler b).visits ∧ (∀ k ∈ gone, f.closeStream.get? id = some k) ∧
      (∀ op ∈ ((flushCalls now writes id done gone).map (.call b) : List (HandshakeOp Prv Pub)),
        Serving ((s.side b).streamKeysAt id) b op) ∧
      run (step P id) s ((flushCalls now writes id done gone).map (.call b)) = some t ∧
      run (step P id) t [.others b f.listener.connMap] = some u ∧ Served id b s f u := by
  obtain ⟨hset, _, done, hdone, hperf⟩ := RoundRobin.flush_performs hk hclash hf
  have hheld : f.listener.connMap.get? id ≠ none := by
    obtain ⟨c', hc'⟩ := InsertionMap.mem_keys.mp hstays
    rw [hc']
    exact Option.some_ne_none c'
  have hconn : (s.side b).connMap.get? id = some e.conn := by rw [hm.conn c hget, hget]
  obtain ⟨gone, c₁, hmarked, hcalls, hget₁⟩ := hperf id e hconn hheld
  have hvs : ∀ v ∈ done, v.1 = id → v.2 ∈ (s.side b).streamKeysAt id := by
    intro v hv hid
    rw [← hid]
    exact Listener.mem_streamKeysAt.mpr (Listener.mem_nested_none.mp (hdone.subset hv))
  have hcalled : ∀ op ∈ (flushCalls now writes id done gone : List (ConnOp Prv Pub)),
      op.isLocal = true ∧ Serving ((s.side b).streamKeysAt id) b (.call b op) := serving_callsOn now writes hvs gone
  have hserving : ∀ op ∈ ((flushCalls now writes id done gone).map (.call b) : List (HandshakeOp Prv Pub)),
      Serving ((s.side b).streamKeysAt id) b op := by
    intro op hop
    obtain ⟨x, hx, rfl⟩ := List.mem_map.mp hop
    exact (hcalled x hx).2
  obtain ⟨t, ht, hmt, hbt, hgett⟩ := run_of_endpoint (fun op hop => (hcalled op hop).1) hget hm hcalls
  have hsent : (t.sent b).map Prod.snd = (s.sent b).map Prod.snd ++ outFor id f.out := by
    rw [← hmt.sent, ← hm.sent]
  obtain ⟨u, hu, hserved⟩ := served_of_calls hset hbt (hget₁.trans hgett.symm) hsent (run_serving hserving ht)
  exact ⟨done, gone, t, u, hdone, hmarked, hserving, ht, hu, hserved⟩

section Run

variable (hP : P.Correct) (hid : id = keyConnId P (P.publicKey a)) (hmtu : (cfg true).mtu ≤ 65507)
  (hfit : ∀ b, 119 ≤ (cfg b).mtu ∧ (cfg b).mtu ≤ 65535)

include hP hid hmtu hfit

theorem Backed.along_serving (h : Backed P id a cfg s) (hks : s.InRange ks b) {ops : List (HandshakeOp Prv Pub)}
    (hops : ∀ op ∈ ops, Serving ks b op) : Along (Session.step P id) (Fits id) s ops := by
  have hstep : ∀ s op t, (Backed P id a cfg s ∧ s.InRange ks b) → Serving ks b op → Session.step P id s op = some t →
      Backed P id a cfg t ∧ t.InRange ks b := by
    intro s op t hs hop ht
    refine ⟨Backed.step hP hid hmtu hfit s op t hs.1 (hs.1.serving_fits hs.2 hop) ht, ?_⟩
    rw [InRange, (step_serving hop ht).1]
    exact hs.2
  exact along_inv hstep (fun s op hs hop => hs.1.serving_fits hs.2 hop) ⟨h, hks⟩ (along_of_forall hops)

/-- A call of `Listener.Flush` that keeps the connection is a run of the session. -/
theorem Backed.flush_served (h : Backed P id a cfg s) (hk : (s.side b).Keyed)
    (hclash : (s.scheduler b).NoIdClash P now writes) (hf : (s.scheduler b).flush P now writes rank = some f)
    (hstays : id ∈ (s.side b).connMap.keys → id ∈ f.listener.connMap.keys)
    (hks : s.InRange ((s.side b).streamKeysAt id) b) :
    ∃ done gone t, done <+: (s.scheduler b).visits ∧ (∀ k ∈ gone, f.closeStream.get? id = some k) ∧
      Along (Session.step P id) (Fits id) s (scheduled id b now writes done gone f) ∧
      run (Session.step P id) s (scheduled id b now writes done gone f) = some t ∧ Served id b s f t := by
  have hlast : ∀ t : Session Prv Pub, Along (Session.step P id) (Fits id) t [.others b f.listener.connMap] :=
    fun t => ⟨trivial, fun _ _ => trivial⟩
  cases hget : (s.side b).connMap.get? id with
  | none =>
    obtain ⟨hset, habsent, _⟩ := RoundRobin.flush_performs hk hclash hf
    obtain ⟨hnone, hsilent⟩ := habsent id hget
    obtain ⟨u, hu, hserved⟩ := served_of_calls (P := P) hset (beside_refl b s) (hnone.trans hget.symm)
      (by rw [hsilent, List.append_nil]) ⟨rfl, rfl⟩
    exact ⟨[], [], u, List.nil_prefix, nofun, hlast s, hu, hserved⟩
  | some c =>
    have hthere := hstays (InsertionMap.mem_keys.mpr ⟨c, hget⟩)
    have hback := h
    obtain ⟨ch, hlink, _⟩ := hback
    obtain ⟨done, gone, t, u, hdone, hmarked, hserving, ht, hu, hserved⟩ :=
      (hlink.models b).flush_served hget hk hclash hf hthere
    have halong := h.along_serving hP hid hmtu hfit hks hserving
    refine ⟨done, gone, u, hdone, hmarked, along_append halong ht (hlast t), ?_, hserved⟩
    rw [scheduled, run_append, ht]
    exact hu

end Run

/-- The round-robin scheduler adds nothing to a session. Wherever a run of a session has led, a call of
`Listener.Flush` on one of the two listeners, with any number of other connections in it, is for this session a row of
`Conn.Flush` calls on its own streams and of clean-ups, while the other connections do as they like. So what holds of
every run of a session holds of the loop that the program runs. Asked is that everything is stored under its own id,
that no id is overwritten and that `Flush` does not drop the connection. -/
theorem flush_follows (hP : P.Correct) (d₀ d l : Listener Prv Pub) (c : Conn Prv Pub) (hdial : Dialed P d₀ d l a c)
    (hl : l.connMap.get? c.connId = none) (hd : 119 ≤ d.mtu ∧ d.mtu ≤ 65507) (hm : l.mtu = d.mtu)
    (ops : List (HandshakeOp Prv Pub)) (s : Session Prv Pub)
    (hok : Along (step P c.connId) (CallsFit c.connId) (start d l) ops)
    (hrun : run (step P c.connId) (start d l) ops = some s) (b : Bool) (now : Nat) (writes : Nat × Nat → WriteResult)
    (rank : Nat → Nat) (f : Flushed Prv Pub) (hk : (s.side b).Keyed) (hclash : (s.scheduler b).NoIdClash P now writes)
    (hf : (s.scheduler b).flush P now writes rank = some f)
    (hstays : c.connId ∈ (s.side b).connMap.keys → c.connId ∈ f.listener.connMap.keys)
    (hks : s.InRange ((s.side b).streamKeysAt c.connId) b) :
    ∃ done gone t, done <+: (s.scheduler b).visits ∧ (∀ k ∈ gone, f.closeStream.get? c.connId = some k) ∧
      Along (step P c.connId) (CallsFit c.connId) s (scheduled c.connId b now writes done gone f) ∧
      run (step P c.connId) s (scheduled c.connId b now writes done gone f) = some t ∧ Served c.connId b s f t := by
  obtain ⟨hid, hstart⟩ := fitted_start hdial hl
  obtain ⟨hfit, heq⟩ := settings_one hd hm
  obtain ⟨hback, _⟩ := run_inv_along (Fitted.step hP heq hid hd.2 hfit) hstart hok hrun
  obtain ⟨done, gone, t, hdone, hmarked, hal, ht, hserved⟩ :=
    hback.flush_served hP hid hd.2 hfit hk hclash hf hstays hks
  exact ⟨done, gone, t, hdone, hmarked, along_mono (fun _ _ h => h.callsFit) hal, ht, hserved⟩

section Shared

/-- Another connection of the dialer, with a request to write. -/
def otherConn : Conn { prv : UInt8 // prv ≠ 0 } UInt8 :=
  { Listener.openedConn (getLE (List.replicate 8 43)) 0 ⟨43, by decide⟩ none none true false with
    streams := InsertionMap.empty.put 7 ⟨7, 0⟩
    snd := ((SendBuffer.new sndBufferCapacity).queueData 7 [1]).elim (.new sndBufferCapacity) Prod.fst }

/-- Stream 5 is written, closed and acknowledged behind an answer on it. Then three bytes wait on stream 0, and the
dialer has the other connection. -/
def sharedOps : List (HandshakeOp { prv : UInt8 // prv ≠ 0 } UInt8) :=
  [.call true (.write 5 [9] (.ok ())), .call true (.close 5), .call true (.flush 5 1 (.ok ())),
    .receive false 0 0 (.ok ⟨109, by decide⟩) 2, .call false (.write 5 [7] (.ok ())), .call false (.flush 5 3 (.ok ())),
    .receive true 0 0 (.error "") 4, .call true (.write 0 [1, 2, 3] (.ok ())),
    .others true (InsertionMap.empty.put otherConn.connId otherConn)]

theorem shared_fits : Along (step plainHonest zeroRttConn.connId) (CallsFit zeroRttConn.connId)
    (start (zeroRttDialer.setConn zeroRttConn.connId zeroRttConn) zeroRttListener) sharedOps := by decide +kernel

theorem shared_flushes : ∃ s ∈ run (step plainHonest zeroRttConn.connId)
      (start (zeroRttDialer.setConn zeroRttConn.connId zeroRttConn) zeroRttListener) sharedOps,
    (s.side true).Apart 2000000000 ∧ (s.side true).KeyedEntries ∧
      s.InRange ((s.side true).streamKeysAt zeroRttConn.connId) true ∧
      ∃ f ∈ (s.scheduler true).flush plainHonest 2000000000 (fun _ => .ok ()) (fun _ => 0),
        zeroRttConn.connId ∈ f.listener.connMap.keys ∧ f.out.map Prod.fst = [otherConn.connId, zeroRttConn.connId] ∧
        f.closeStream.get? zeroRttConn.connId = some 5 := by decide +kernel

/-- Both connections write a datagram, and stream 5 goes. -/
theorem shared_served : ∃ s f done gone t, run (step plainHonest zeroRttConn.connId)
      (start (zeroRttDialer.setConn zeroRttConn.connId zeroRttConn) zeroRttListener) sharedOps = some s ∧
    (s.scheduler true).flush plainHonest 2000000000 (fun _ => .ok ()) (fun _ => 0) = some f ∧
    f.out.map Prod.fst = [otherConn.connId, zeroRttConn.connId] ∧ f.closeStream.get? zeroRttConn.connId = some 5 ∧
    run (step plainHonest zeroRttConn.connId) s
      (scheduled zeroRttConn.connId true 2000000000 (fun _ => .ok ()) done gone f) = some t ∧
    Served zeroRttConn.connId true s f t := by
  obtain ⟨s, hs, hapart, hkeyed, hks, f, hf, hstays, hout, hgone⟩ := shared_flushes
  obtain ⟨done, gone, t, _, _, _, ht, hserved⟩ := flush_follows plainHonest_correct _ _ _ _ zeroRtt_dialed rfl (by decide)
    rfl sharedOps s shared_fits hs true 2000000000 _ _ f hkeyed.keyed (RoundRobin.noIdClash_of_apart rfl rfl hapart) hf
    (fun _ => hstays) hks
  exact ⟨s, f, done, gone, t, hs, hf, hout, hgone, ht, hserved⟩

end Shared

end Session

end Qotp
