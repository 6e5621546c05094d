import Qotp.System.Scheduler

namespace Qotp

open Framework

variable {Prv Pub : Type} {P : Primitives Prv Pub}

namespace Conn

/-- `Conn.Close`: every stream in the table is closed. -/
def close (c : Conn Prv Pub) : Conn Prv Pub := c.streams.entries.foldl (fun c e => c.closeStream e.2) c

theorem closeStream_mark (c : Conn Prv Pub) (stream : Stream) {k : Nat}
    (h : k = stream.streamID ∨ (c.snd.stream k).closeAtOffset.isSome = true) :
    ((c.closeStream stream).snd.stream k).closeAtOffset.isSome = true := by
  have hstr : (c.closeStream stream).snd.stream k =
      if k = stream.streamID then (c.snd.stream stream.streamID).close else c.snd.stream k := SendBuffer.stream_put ..
  rw [hstr]
  by_cases hk : k = stream.streamID
  · rw [if_pos hk, StreamBuffer.close]
    cases hm : (c.snd.stream stream.streamID).closeAtOffset <;> simp [hm]
  · rw [if_neg hk]
    exact h.resolve_left hk

/-- A mark that is set stays set while the other streams are closed. -/
theorem closeStreams_mark (c : Conn Prv Pub) (es : List (Nat × Stream)) {k : Nat}
    (h : (∃ x ∈ es, k = x.2.streamID) ∨ (c.snd.stream k).closeAtOffset.isSome = true) :
    ((es.foldl (fun c x => c.closeStream x.2) c).snd.stream k).closeAtOffset.isSome = true := by
  induction es generalizing c with
  | nil => exact h.resolve_left fun ⟨_, hx, _⟩ => absurd hx List.not_mem_nil
  | cons x es ih =>
    apply ih
    obtain ⟨y, hy, hyk⟩ | hmark := h
    · obtain rfl | hy := List.mem_cons.mp hy
      · exact .inr (closeStream_mark c _ (.inl hyk))
      · exact .inl ⟨y, hy, hyk⟩
    · exact .inr (closeStream_mark c _ (.inr hmark))

/-- Behind `Conn.Close` every stream that was in the table has its mark. -/
theorem close_mark {c : Conn Prv Pub} (hk : c.StreamsKeyed) {k : Nat} (h : k ∈ c.streams.keys) :
    (c.close.snd.stream k).closeAtOffset.isSome = true := by
  obtain ⟨stream, hstream⟩ := InsertionMap.mem_keys.mp h
  exact closeStreams_mark c _
    (.inl ⟨(k, stream), InsertionMap.get?_eq_some.mp hstream, (hk k stream hstream).symm⟩)

end Conn

namespace Endpoint

variable {l : ListenerCfg Prv}

theorem run_close {e : Endpoint Prv Pub} {es : List (Nat × Stream)} (hes : ∀ x ∈ es, e.conn.streams.get? x.1 = some x.2) :
    run (Endpoint.step P l) e (es.map fun x => .close x.1) =
      some { e with conn := es.foldl (fun c x => c.closeStream x.2) e.conn } := by
  induction es generalizing e with
  | nil => rfl
  | cons x es ih =>
    have hstream : e.conn.stream x.1 = (e.conn, x.2) := by
      rw [Conn.stream, hes x List.mem_cons_self]
    have hrest := ih (e := { e with conn := e.conn.closeStream x.2 }) fun y hy => hes y (List.mem_cons_of_mem x hy)
    rw [List.map_cons, run_cons]
    refine ⟨_, rfl, ?_⟩
    rw [hstream]
    exact hrest

/-- `Conn.Close` is `Stream.Close` for every stream in the table. -/
theorem run_closes (e : Endpoint Prv Pub) :
    run (Endpoint.step P l) e (e.conn.streams.keys.map .close) = some { e with conn := e.conn.close } := by
  rw [InsertionMap.keys, List.map_map]
  exact run_close fun x hx => InsertionMap.get?_eq_some.mpr hx

end Endpoint

namespace Channel

variable {cfg : Bool → ListenerCfg Prv} {s t : Channel Prv Pub} {b : Bool} {k : Nat} {W : Bytes}

/-- Stream `k` of a side is closed behind the bytes `W`. -/
structure Ended (b : Bool) (k : Nat) (W : Bytes) (s : Channel Prv Pub) : Prop where
  mark : ((s.side b).conn.snd.stream k).closeAtOffset = some W.length
  written : W <+: (s.side b).accepted k

theorem Ended.accepted (h : s.Ended b k W) (hinv : s.Inv) : (s.side b).accepted k = W := by
  have hlen := (hinv.side b).snd.closed k _ h.mark
  exact (h.written.eq_of_length hlen).symm

/-- A side does not open a stream again, whatever is called on it or arrives. -/
theorem Ended.set (hinv : s.Inv) (h : s.Ended b k W) {d : Bool} {op : ConnOp Prv Pub} {e : Endpoint Prv Pub}
    (he : (s.side d).step P (cfg d) op = some e) : (s.set d e).Ended b k W := by
  by_cases hd : b = d
  · subst hd
    constructor
    · rw [side_set, if_pos rfl]
      obtain hsame | ⟨hnone, _⟩ := Endpoint.step_marks (hinv.side b).keyed he k
      · rw [hsame]
        exact h.mark
      · cases h.mark.symm.trans hnone
    · rw [side_set, if_pos rfl]
      exact h.written.trans (Endpoint.step_accepted he k)
  · constructor
    · rw [side_set, if_neg hd]
      exact h.mark
    · rw [side_set, if_neg hd]
      exact h.written

theorem Ended.step (hinv : s.Inv) (h : s.Ended b k W) {op : ChannelOp Prv Pub} (hs : s.step P cfg op = some t) :
    t.Ended b k W := by
  obtain ⟨d, op', e, rfl, _, he, rfl⟩ | ⟨d, i, now, rfl, rfl | ⟨p, u, rawLen, c, _, hc, rfl⟩⟩ := step_cases hs
  · exact h.set hinv he
  · exact h
  · have he : (s.side d).step P (cfg d) (.decode p u rawLen now) = some { s.side d with conn := c } := by
      simp only [Endpoint.step, hc, Option.map_some]
    exact h.set hinv he

end Channel

namespace Session

variable {id : Nat} {a : Prv} {cfg : Bool → ListenerCfg Prv} {s t : Session Prv Pub} {b : Bool} {k : Nat} {W : Bytes}

/-- Behind the session stands a channel in which stream `k` of side `b` is closed behind the bytes `W`. -/
def ClosedBehind (P : Primitives Prv Pub) (id : Nat) (a : Prv) (cfg : Bool → ListenerCfg Prv) (b : Bool) (k : Nat)
    (W : Bytes) (s : Session Prv Pub) : Prop :=
  (∃ ch : Channel Prv Pub, Mirrors P id a cfg s ch ∧ ch.Inv ∧ ch.Ended b k W) ∧ s.Roomy cfg

/-- Nothing was added, and nothing else is read. -/
theorem ClosedBehind.accepted (h : ClosedBehind P id a cfg b k W s) :
    s.accepted b k = W ∧ s.delivered (!b) k <+: W := by
  obtain ⟨⟨ch, hlink, hinv, hended⟩, _⟩ := h
  have hacc : s.accepted b k = W := by
    rw [← (hlink.models b).accepted]
    exact hended.accepted hinv
  have hpre : IsAt ((ch.side !!b).accepted k) 0 ((ch.side !b).delivered k) := (hinv.link (!b)).rcv.isPrefix k
  rw [Bool.not_not, (hlink.models b).accepted, (hlink.models (!b)).delivered, hacc] at hpre
  exact ⟨hacc, hpre⟩

/-- `Close` asks for nothing. -/
theorem closes_fit (ks : List Nat) : Along (step P id) (CallsFit id) s (ks.map fun k => .call b (.close k)) := by
  induction ks generalizing s with
  | nil => trivial
  | cons k ks ih => exact ⟨trivial, fun _ _ => ih⟩

section Run

variable (hP : P.Correct) (heq : ∀ b, (cfg (!b)).mtu = (cfg b).mtu) (hid : id = keyConnId P (P.publicKey a))
  (hmtu : (cfg true).mtu ≤ 65507) (hfit : ∀ b, 119 ≤ (cfg b).mtu ∧ (cfg b).mtu ≤ 65535)

include hP heq hid hmtu hfit

/-- `Conn.Close` shuts every stream in the table behind what was written on it. -/
theorem Fitted.closedBehind (h : Fitted P id a cfg s) {c : Conn Prv Pub} (hget : (s.side b).connMap.get? id = some c) :
    ∃ t, run (Session.step P id) s (c.streams.keys.map fun k => .call b (.close k)) = some t ∧ s.Beside b t ∧
      (t.side b).connMap.get? id = some c.close ∧
      ∀ k ∈ c.streams.keys, ClosedBehind P id a cfg b k (s.accepted b k) t := by
  have hfitted := h
  obtain ⟨⟨ch, hlink, hinv⟩, _⟩ := h
  have hm := hlink.models b
  have hconn : (ch.side b).conn = c := hm.conn c hget
  have hcloses := Endpoint.run_closes (P := P) (l := (s.side b).cfg) (ch.side b)
  rw [hconn] at hcloses
  have hlocal : ∀ op ∈ (c.streams.keys.map .close : List (ConnOp Prv Pub)), op.isLocal = true := by
    intro op hop
    obtain ⟨k, _, rfl⟩ := List.mem_map.mp hop
    rfl
  obtain ⟨t, ht, hmt, hbeside, hgett⟩ := run_of_endpoint hlocal hget hm hcloses
  rw [List.map_map] at ht
  obtain ⟨⟨ch', hlink', hinv'⟩, hroom'⟩ := run_inv_along (Fitted.step hP heq hid hmtu hfit) hfitted
    (closes_fit _) ht
  refine ⟨t, ht, hbeside, hgett, fun k hk => ⟨⟨ch', hlink', hinv', ?_⟩, hroom'⟩⟩
  have hacc : (ch'.side b).accepted = s.accepted b := by
    rw [(hlink'.models b).accepted, ← hmt.accepted, ← hm.accepted]
  obtain ⟨n, hn⟩ := Option.isSome_iff_exists.mp (Conn.close_mark (hconn ▸ (hinv.side b).keyed) hk)
  have hconn' : (ch'.side b).conn = c.close := (hlink'.models b).conn _ hgett
  rw [← hconn'] at hn
  have hlen := (hinv'.side b).snd.closed k n hn
  rw [hacc] at hlen
  exact ⟨hlen ▸ hn, hacc ▸ List.prefix_refl _⟩

theorem ClosedBehind.step (s : Session Prv Pub) (op : HandshakeOp Prv Pub) (t : Session Prv Pub)
    (h : ClosedBehind P id a cfg b k W s) (hok : s.CallsFit id op) (hs : s.step P id op = some t) :
    ClosedBehind P id a cfg b k W t := by
  obtain ⟨⟨ch, hlink, hinv, hended⟩, hroom⟩ := h
  obtain ⟨chops, ch', hal, hrun, hlink', hroom'⟩ :=
    Fitted.step_mirrors hP heq hid hmtu hfit hlink hinv hroom hok hs
  have hstep : ∀ u op v, (u.Inv ∧ u.Ended b k W) → u.Fits op → Channel.step P cfg u op = some v →
      v.Inv ∧ v.Ended b k W :=
    fun u op v hu hok hv => ⟨Channel.step_inv hfit u op v hu.1 hok hv, hu.2.step hu.1 hv⟩
  exact ⟨⟨ch', hlink', run_inv_along hstep ⟨hinv, hended⟩ hal hrun⟩, hroom'⟩

end Run

/-- `Conn.Close` is final. Wherever a run of a session has led, either side can close: the call does not fail, it changes
nothing but the connection it is made on, and from then on, whatever is called on the two connections and however the
network treats the datagrams, nothing is added to a stream that was in the table. Its reader sees the bytes that were
written before the call, in their order, and never another one. -/
theorem close_final (hP : P.Correct) (d₀ d l : Listener Prv Pub) (c : Conn Prv Pub) (hdial : Dialed P d₀ d l a c)
    (hl : l.connMap.get? c.connId = none) (hd : 119 ≤ d.mtu ∧ d.mtu ≤ 65507) (hm : l.mtu = d.mtu)
    (ops : List (HandshakeOp Prv Pub)) (s : Session Prv Pub)
    (hok : Along (step P c.connId) (CallsFit c.connId) (start d l) ops)
    (hrun : run (step P c.connId) (start d l) ops = some s) (b : Bool) (c₀ : Conn Prv Pub)
    (hget : (s.side b).connMap.get? c.connId = some c₀) :
    ∃ s', run (step P c.connId) s (c₀.streams.keys.map fun k => .call b (.close k)) = some s' ∧ s.Beside b s' ∧
      (s'.side b).connMap.get? c.connId = some c₀.close ∧
      ∀ ops' t, Along (step P c.connId) (CallsFit c.connId) s' ops' → run (step P c.connId) s' ops' = some t →
        ∀ k ∈ c₀.streams.keys, t.accepted b k = s.accepted b k ∧ t.delivered (!b) k <+: s.accepted b k := by
  obtain ⟨hid, hstart⟩ := fitted_start hdial hl
  obtain ⟨hfit, heq⟩ := settings_one hd hm
  have hfitted := run_inv_along (Fitted.step hP heq hid hd.2 hfit) hstart hok hrun
  obtain ⟨s', hs', hbeside, hclosed, hbehind⟩ := hfitted.closedBehind hP heq hid hd.2 hfit hget
  refine ⟨s', hs', hbeside, hclosed, fun ops' t hok' hrun' k hk => ?_⟩
  exact (run_inv_along (ClosedBehind.step hP heq hid hd.2 hfit) (hbehind k hk) hok' hrun').accepted

/-- Three bytes wait at the dialer. -/
def waitingOps : List (HandshakeOp { prv : UInt8 // prv ≠ 0 } UInt8) := [.call true (.write 0 [1, 2, 3] (.ok ()))]

theorem waiting_fits : Along (step plainHonest zeroRttConn.connId) (CallsFit zeroRttConn.connId)
    (start (zeroRttDialer.setConn zeroRttConn.connId zeroRttConn) zeroRttListener) waitingOps := by decide +kernel

/-- Two bytes are written behind the `Close`, and the stream is flushed. -/
def lateOps : List (HandshakeOp { prv : UInt8 // prv ≠ 0 } UInt8) :=
  [.call true (.write 0 [4, 5] (.ok ())), .call true (.flush 0 1 (.ok ()))]

theorem late_runs : ∃ s ∈ run (step plainHonest zeroRttConn.connId)
      (start (zeroRttDialer.setConn zeroRttConn.connId zeroRttConn) zeroRttListener) waitingOps,
    s.accepted true 0 = [1, 2, 3] ∧ ∃ c₀ ∈ (s.side true).connMap.get? zeroRttConn.connId, 0 ∈ c₀.streams.keys ∧
      ∃ s' ∈ run (step plainHonest zeroRttConn.connId) s (c₀.streams.keys.map fun k => .call true (.close k)),
        Along (step plainHonest zeroRttConn.connId) (CallsFit zeroRttConn.connId) s' lateOps ∧
        (run (step plainHonest zeroRttConn.connId) s' lateOps).isSome = true := by decide +kernel

theorem late_refused : ∃ s c₀ s' t, run (step plainHonest zeroRttConn.connId)
      (start (zeroRttDialer.setConn zeroRttConn.connId zeroRttConn) zeroRttListener) waitingOps = some s ∧
    (s.side true).connMap.get? zeroRttConn.connId = some c₀ ∧
    run (step plainHonest zeroRttConn.connId) s (c₀.streams.keys.map fun k => .call true (.close k)) = some s' ∧
    run (step plainHonest zeroRttConn.connId) s' lateOps = some t ∧ t.accepted true 0 = [1, 2, 3] := by
  obtain ⟨s, hs, hacc, c₀, hget, hk, s₁, hs₁, hfits, hruns⟩ := late_runs
  obtain ⟨s', hs', _, _, hfinal⟩ := close_final plainHonest_correct _ _ _ _ zeroRtt_dialed rfl (by decide) rfl waitingOps s
    waiting_fits hs true c₀ hget
  cases hs₁.symm.trans hs'
  obtain ⟨t, ht⟩ := Option.isSome_iff_exists.mp hruns
  exact ⟨s, c₀, s₁, t, hs, hget, hs', ht, (hfinal lateOps t hfits ht 0 hk).1.trans hacc⟩

end Session

end Qotp
