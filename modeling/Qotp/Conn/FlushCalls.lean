import Qotp.Conn.ListenerSpec
import Qotp.Conn.StableIds

namespace Qotp

open Framework

variable {Prv Pub : Type} {P : Primitives Prv Pub}

/-- The calls on connection `id` when the streams `vs` are served. -/
def callsOn (now : Nat) (writes : Nat × Nat → WriteResult) (id : Nat) (vs : List (Nat × Nat)) : List (ConnOp Prv Pub) :=
  (vs.filter fun v => v.1 = id).map fun v => .flush v.2 now (writes v)

theorem callsOn_append (now : Nat) (writes : Nat × Nat → WriteResult) (id : Nat) (vs ws : List (Nat × Nat)) :
    (callsOn now writes id (vs ++ ws) : List (ConnOp Prv Pub)) = callsOn now writes id vs ++ callsOn now writes id ws := by
  rw [callsOn, List.filter_append, List.map_append]
  rfl

/-- The calls of `Listener.Flush` on connection `id`: the streams `done` are served, then the streams `gone` are
taken out. -/
def flushCalls (now : Nat) (writes : Nat × Nat → WriteResult) (id : Nat) (done : List (Nat × Nat)) (gone : List Nat) :
    List (ConnOp Prv Pub) := callsOn now writes id done ++ gone.map .cleanup

/-- What was written for connection `id`. -/
def outFor (id : Nat) (out : List (Nat × Conn.Outgoing)) : List Conn.Outgoing :=
  (out.filter fun x => x.1 = id).map Prod.snd

theorem outFor_append (id : Nat) (out out' : List (Nat × Conn.Outgoing)) :
    outFor id (out ++ out') = outFor id out ++ outFor id out' := by
  rw [outFor, List.filter_append, List.map_append]
  rfl

theorem outFor_tagged (id j : Nat) (out : List Conn.Outgoing) :
    outFor id (out.map fun o => (j, o)) = if j = id then out else [] := by
  rw [outFor, List.filter_map, List.map_map]
  split_ifs with h
  · rw [List.filter_eq_self.mpr fun _ _ => by simp [h]]
    exact List.map_id out
  · rw [List.filter_eq_nil_iff.mpr fun _ _ => by simp [h]]
    rfl

namespace Listener

variable {l l' l'' : Listener Prv Pub} {now : Nat} {writes : Nat × Nat → WriteResult} {v : Nat × Nat}
  {out out' : List (Nat × Conn.Outgoing)} {calls calls' : Nat → List (ConnOp Prv Pub)}

/-- From `l` to `l'` each connection has been called as `calls` says and has written its part of `out`. -/
structure Performs (P : Primitives Prv Pub) (calls : Nat → List (ConnOp Prv Pub)) (l l' : Listener Prv Pub)
    (out : List (Nat × Conn.Outgoing)) : Prop where
  settings : l' = { l with connMap := l'.connMap }
  absent : ∀ id, l.connMap.get? id = none → l'.connMap.get? id = none ∧ outFor id out = []
  called : ∀ id (e : Endpoint Prv Pub), l.connMap.get? id = some e.conn → ∃ c,
    run (Endpoint.step P l.cfg) e (calls id) = some { e with conn := c, sent := e.sent ++ outFor id out } ∧
      l'.connMap.get? id = some c

theorem performs_nil (l : Listener Prv Pub) : Performs P (fun _ => []) l l [] := by
  refine ⟨rfl, fun _ h => ⟨h, rfl⟩, fun id e he => ⟨e.conn, ?_, he⟩⟩
  exact congrArg (fun sent => some { e with sent := sent }) (List.append_nil e.sent).symm

theorem Performs.trans (h : Performs P calls l l' out) (h' : Performs P calls' l' l'' out') :
    Performs P (fun id => calls id ++ calls' id) l l'' (out ++ out') := by
  have hcfg : l'.cfg = l.cfg := by rw [h.settings]; rfl
  refine ⟨?_, fun id hid => ?_, fun id e he => ?_⟩
  · rw [h'.settings, h.settings]
  · obtain ⟨hid', hout⟩ := h.absent id hid
    obtain ⟨hid'', hout'⟩ := h'.absent id hid'
    refine ⟨hid'', ?_⟩
    rw [outFor_append, hout, hout', List.append_nil]
  · obtain ⟨c, hrun, hget⟩ := h.called id e he
    obtain ⟨c', hrun', hget'⟩ := h'.called id { e with conn := c, sent := e.sent ++ outFor id out } hget
    refine ⟨c', ?_, hget'⟩
    rw [run_append, hrun, Option.bind_some, ← hcfg, hrun', outFor_append, List.append_assoc]

/-- Serving a stream is one call on its connection, and none on the others. -/
theorem visit_performs (hk : l.Keyed) {out : List Conn.Outgoing} {res : Conn.FlushResult}
    (h : l.visit P now writes v = some (l', out, res)) :
    Performs P (fun id => callsOn now writes id [v]) l l' (out.map fun o => (v.1, o)) := by
  obtain ⟨c, hc, h⟩ := Option.bind_eq_some_iff.mp h
  obtain ⟨stream, hs, h⟩ := Option.bind_eq_some_iff.mp h
  obtain ⟨⟨c', out', r'⟩, hf, h⟩ := Option.bind_eq_some_iff.mp h
  cases h
  rw [(hk v.1 c hc).2 v.2 stream hs] at hf
  refine ⟨rfl, fun id hid => ?_, fun id e he => ?_⟩
  · have hv : v.1 ≠ id := by
      rintro rfl
      cases hc.symm.trans hid
    rw [get?_setConn, if_neg hv.symm, outFor_tagged, if_neg hv]
    exact ⟨hid, rfl⟩
  · rw [outFor_tagged, get?_setConn]
    by_cases hv : v.1 = id
    · subst hv
      cases hc.symm.trans he
      refine ⟨c', ?_, if_pos rfl⟩
      simp [callsOn, run, Endpoint.step, hf]
    · refine ⟨e.conn, ?_, by rw [if_neg (Ne.symm hv)]; exact he⟩
      simp [callsOn, hv, run]

end Listener

namespace Round

open Listener

variable {now : Nat} {writes : Nat × Nat → WriteResult} {r r' : Round Prv Pub} {vs : List (Nat × Nat)}

/-- The loop of `Flush` serves the streams in turn, up to the one at which it ends. -/
theorem serve_performs (hk : r.listener.Keyed) (h : serve P now writes r vs = some r') :
    ∃ done new, done <+: vs ∧ r'.out = r.out ++ new ∧
      Performs P (fun id => callsOn now writes id done) r.listener r'.listener new := by
  induction vs generalizing r with
  | nil =>
    cases h
    exact ⟨[], [], List.prefix_refl _, (List.append_nil _).symm, performs_nil _⟩
  | cons v vs ih =>
    obtain ⟨l', out, res, hv, hturn⟩ := serve_turn P h
    have hone := visit_performs hk hv
    obtain ⟨_, _, _, _, rfl⟩ | ⟨_, rfl⟩ | ⟨_, r₁, _, _, hrest, rfl, hout, _⟩ := hturn
    · exact ⟨[v], _, List.prefix_append [v] vs, rfl, hone⟩
    · exact ⟨[v], _, List.prefix_append [v] vs, rfl, hone⟩
    · obtain ⟨done, new, hpre, hnew, hperf⟩ := ih ((visit_sameIds hv).1.keyed hk) hrest
      refine ⟨v :: done, out.map (fun o => (v.1, o)) ++ new, List.cons_prefix_cons.mpr ⟨rfl, hpre⟩, ?_, ?_⟩
      · rw [hnew, hout, List.append_assoc]
      · have hboth := hone.trans hperf
        simp only [← callsOn_append, List.singleton_append] at hboth
        exact hboth

end Round

/-- Taking streams out of the table, one call after the other. -/
theorem Endpoint.run_cleanup (l : ListenerCfg Prv) (e : Endpoint Prv Pub) (gone : List Nat) :
    run (Endpoint.step P l) e (gone.map .cleanup) = some { e with conn := gone.foldl Conn.cleanupStream e.conn } := by
  induction gone generalizing e with
  | nil => rfl
  | cons k gone ih => exact ih { e with conn := e.conn.cleanupStream k }

namespace Listener

/-- No stream that is due to go has the id of one that stays. -/
def Apart (l : Listener Prv Pub) (now : Nat) : Prop :=
  ∀ v ∈ l.nested none none, ∀ u ∈ l.nested none none, l.closing now v = true → l.closing now u = false → u.2 ≠ v.2

instance (l : Listener Prv Pub) (now : Nat) : Decidable (l.Apart now) := inferInstanceAs (Decidable (∀ v ∈ _, ∀ u ∈ _, _))

/-- `Keyed`, said of the entries of the tables. -/
def KeyedEntries (l : Listener Prv Pub) : Prop :=
  ∀ e ∈ l.connMap.entries, e.2.connId = e.1 ∧ ∀ x ∈ e.2.streams.entries, x.2.streamID = x.1

instance (l : Listener Prv Pub) : Decidable l.KeyedEntries := inferInstanceAs (Decidable (∀ e ∈ _, _ ∧ ∀ x ∈ _, _))

variable {l : Listener Prv Pub}

theorem KeyedEntries.keyed (h : l.KeyedEntries) : l.Keyed := by
  intro k c hc
  obtain ⟨hid, hstreams⟩ := h (k, c) (InsertionMap.get?_eq_some.mp hc)
  exact ⟨hid, fun j stream hj => hstreams (j, stream) (InsertionMap.get?_eq_some.mp hj)⟩

theorem mem_nested_of_closing {now : Nat} {v : Nat × Nat} (h : l.closing now v = true) : v ∈ l.nested none none := by
  rw [mem_nested_none, streamAt]
  unfold closing at h
  cases hc : l.connMap.get? v.1 with
  | none => simp [hc] at h
  | some c =>
    cases hs : c.streams.get? v.2 with
    | none => simp [hc, hs] at h
    | some stream => simp [hs]

end Listener

namespace RoundRobin

open Listener

variable {s : RoundRobin Prv Pub} {now : Nat} {writes : Nat × Nat → WriteResult} {rank : Nat → Nat} {f : Flushed Prv Pub}

/-- Between two calls nothing is pointed at, so only the stream that was served can be hit. -/
theorem noIdClash_of_apart (hconn : s.currentConnID = none) (hstream : s.currentStreamID = none) (h : s.Apart now) :
    s.NoIdClash P now writes := by
  intro pre stop hstop
  have hvisits : s.visits = s.nested none none := by rw [visits, connPtr, streamPtr, hconn, hstream]; rfl
  refine ⟨fun conn _ hptr => ?_, fun conn id hlast hptr => ?_⟩
  · rw [connPtr, hconn] at hptr
    cases hptr
  · have hclosing : s.closing now (conn, id) = true := closing_of_lastClosing hlast
    cases stop with
    | sent v =>
      obtain ⟨post, l₁, l₂, out, res, hvs, hreached, hv, hopen, _⟩ := hstop
      have hsame := hreached.sameIds.trans (visit_sameIds hv).1
      have hmem : v ∈ s.nested none none := by
        rw [← hvisits, hvs]
        exact List.mem_append_right pre List.mem_cons_self
      rw [hsame.closing] at hopen
      exact absurd (Option.some.inj hptr) (h _ (mem_nested_of_closing hclosing) v hmem hclosing hopen)
    | closed v | through =>
      change s.streamPtr = some id at hptr
      rw [streamPtr, hstream] at hptr
      cases hptr

/-- What `Listener.Flush` does to a connection that stays: `Conn.Flush` for some of its streams, and then the clean-up of
those that were marked. -/
theorem flush_performs (hk : s.Keyed) (hclash : s.NoIdClash P now writes) (hf : s.flush P now writes rank = some f) :
    f.listener.toListener = { s.toListener with connMap := f.listener.connMap } ∧
    (∀ id, s.connMap.get? id = none → f.listener.connMap.get? id = none ∧ outFor id f.out = []) ∧
    ∃ done, done <+: s.visits ∧ ∀ id (e : Endpoint Prv Pub), s.connMap.get? id = some e.conn →
      f.listener.connMap.get? id ≠ none → ∃ (gone : List Nat) (c : Conn Prv Pub),
        (∀ k ∈ gone, f.closeStream.get? id = some k) ∧
        run (Endpoint.step P s.cfg) e (flushCalls now writes id done gone) =
          some { e with conn := c, sent := e.sent ++ outFor id f.out } ∧
        f.listener.connMap.get? id = some c := by
  by_cases hsize : s.connMap.size = 0
  · rw [flush, if_pos hsize] at hf
    cases hf
    refine ⟨rfl, fun id h => ⟨h, rfl⟩, [], List.nil_prefix, fun id e he _ =>
      ⟨[], e.conn, fun _ hk => absurd hk List.not_mem_nil, ?_, he⟩⟩
    exact congrArg (fun sent => some { e with sent := sent }) (List.append_nil e.sent).symm
  obtain ⟨r, hr, pre, stop, hstop, hg⟩ := flush_gathered P hsize hk hf
  obtain ⟨f', hf', hm, hl, hfout, _, hclose⟩ := flush_eq P hsize hr rank
  obtain rfl : f = f' := Option.some.inj (hf.symm.trans hf')
  obtain ⟨hobj, _, hmarked⟩ := cleanup_of_noIdClash P hk hstop hg hclash rank hm
  have hmem : f.memory.toListener = r.listener := congrArg RoundRobin.toListener hobj
  obtain ⟨done, new, hpre, hout, hperf⟩ := Round.serve_performs (r := { listener := s.toListener }) hk hr
  rw [List.nil_append] at hout
  rw [hl, hfout, hout, hclose]
  refine ⟨?_, fun id hid => ?_, done, hpre, fun id e he hstays => ?_⟩
  · rw [Memory.tables, hmem, hperf.settings]
  · obtain ⟨hnone, hsilent⟩ := hperf.absent id hid
    rw [Memory.tables_get?, hmem, hnone]
    refine ⟨?_, hsilent⟩
    split_ifs <;> rfl
  · obtain ⟨c, hrun, hget⟩ := hperf.called id e he
    have htab : f.memory.tables.connMap.get? id = some (f.memory.without id c) := by
      rw [Memory.tables_get?] at hstays ⊢
      split_ifs at hstays ⊢ with hgone
      · exact absurd rfl hstays
      · rw [hmem, hget]
        rfl
    refine ⟨(f.memory.removedStreams.filter fun v => v.1 = id).map Prod.snd, f.memory.without id c, fun k hgone => ?_,
      ?_, htab⟩
    · obtain ⟨v, hv, rfl⟩ := List.mem_map.mp hgone
      obtain ⟨hv, hid⟩ := List.mem_filter.mp hv
      rw [← of_decide_eq_true hid]
      exact hmarked v hv
    · rw [flushCalls, run_append, hrun, Option.bind_some, Endpoint.run_cleanup, List.foldl_map]
      rfl

end RoundRobin

end Qotp
