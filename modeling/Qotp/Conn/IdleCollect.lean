import Qotp.Conn.FlowControl
import Qotp.Conn.GracePeriod

namespace Qotp

open Framework

variable {Prv Pub : Type} (P : Primitives Prv Pub)

/-- A connection that has read nothing for longer than `readDeadLine` and has nothing to
send on any of its streams. -/
structure Conn.Idle (c : Conn Prv Pub) (mtu : Int) (now : Nat) : Prop where
  read : c.measurements.lastReadTimeNano ≠ 0
  expired : c.measurements.lastReadTimeNano + readDeadLine < now
  silent : ∀ k stream, c.streams.get? k = some stream → c.Silent mtu now stream.streamID

namespace Listener

variable {l l' : Listener Prv Pub} {now k : Nat} {writes : Nat × Nat → WriteResult} {v : Nat × Nat}
  {vs pre : List (Nat × Nat)}

def Idle (l : Listener Prv Pub) (now : Nat) : Prop := ∀ k c, l.connMap.get? k = some c → c.Idle l.mtu now

/-- The connection has a stream that is not marked for closing. -/
def HasOpen (l : Listener Prv Pub) (now k : Nat) : Prop :=
  ∃ j, (l.streamAt (k, j)).isSome ∧ l.closing now (k, j) = false

variable {P} in
theorem Idle.visit (h : l.Idle now) (hs : (l.streamAt v).isSome) (writes : Nat × Nat → WriteResult) :
    ∃ pacing, l.visit P now writes v = some (l, [], .ok (0, pacing)) := by
  obtain ⟨stream, hs⟩ := Option.isSome_iff_exists.mp hs
  obtain ⟨c, hc, hs⟩ := Option.bind_eq_some_iff.mp hs
  have hsilent : c.Silent l.cfg.mtu now stream.streamID := (h v.1 c hc).silent v.2 stream hs
  obtain ⟨pacing, hflush⟩ := hsilent.flush (P := P) (w := writes v)
  refine ⟨pacing, ?_⟩
  simp only [Listener.visit, hc, hs, hflush, Option.bind_eq_bind, Option.bind_some, setConn, InsertionMap.put_of_get? hc]
  rfl

theorem Idle.timedOut (h : l.Idle now) (hs : (l.streamAt v).isSome) : l.timedOut now v.1 = true := by
  obtain ⟨stream, hs⟩ := Option.isSome_iff_exists.mp hs
  obtain ⟨c, hc, _⟩ := Option.bind_eq_some_iff.mp hs
  have hi := h v.1 c hc
  have hadd : add64 c.measurements.lastReadTimeNano readDeadLine < now :=
    lt_of_le_of_lt (Nat.mod_le _ _) hi.expired
  simp [Listener.timedOut, hc, hi.read, hadd]

variable {P} in
theorem Idle.reached (h : l.Idle now) (hpre : ∀ u ∈ pre, (l.streamAt u).isSome ∧ l.closing now u = true) :
    Reached P now writes l pre l := by
  induction pre with
  | nil => exact (reached_nil P).mpr rfl
  | cons u pre ih =>
    obtain ⟨hs, hc⟩ := hpre u List.mem_cons_self
    obtain ⟨pacing, hv⟩ := h.visit hs writes
    exact (reached_cons P).mpr ⟨l, [], _, hv, .inl hc, ih fun w hw => hpre w (List.mem_cons_of_mem u hw)⟩

variable {P} in
/-- The loop ends at the first stream that is not marked. -/
theorem Idle.endsAt (h : l.Idle now) (writes : Nat × Nat → WriteResult) (hvs : ∀ u ∈ vs, (l.streamAt u).isSome) :
    (∃ pre v, v ∈ vs ∧ l.closing now v = false ∧ LoopEndsAt P now writes l vs pre (.closed v)) ∨
    ((∀ u ∈ vs, l.closing now u = true) ∧ LoopEndsAt P now writes l vs vs .through) := by
  cases hfind : vs.find? fun u => !l.closing now u with
  | none =>
    have hall : ∀ u ∈ vs, l.closing now u = true := fun u hu => by
      simpa using List.find?_eq_none.mp hfind u hu
    exact .inr ⟨hall, rfl, l, h.reached fun u hu => ⟨hvs u hu, hall u hu⟩⟩
  | some v =>
    obtain ⟨hv, pre, post, rfl, hpre⟩ := List.find?_eq_some_iff_append.mp hfind
    have hv' : l.closing now v = false := by simpa using hv
    have hmem : v ∈ pre ++ v :: post := List.mem_append_right pre List.mem_cons_self
    obtain ⟨pacing, hvisit⟩ := h.visit (P := P) (hvs v hmem) writes
    refine .inl ⟨pre, v, hmem, hv', post, l, l, [], _, rfl, h.reached fun u hu => ?_, hvisit, ?_⟩
    · exact ⟨hvs u (List.mem_append_left _ hu), by simpa using hpre u hu⟩
    · rintro _ ⟨rfl⟩
      exact ⟨hv', rfl, h.timedOut (hvs v hmem)⟩

/-- What a call leaves of an idle listener: streams that were marked may be gone, a
connection whose streams are all marked stays, and of the others one goes. -/
structure Swept (l l' : Listener Prv Pub) (now : Nat) : Prop where
  keyed : l'.Keyed
  mtu : l'.mtu = l.mtu
  conns : ∀ k c', l'.connMap.get? k = some c' → ∃ c, l.connMap.get? k = some c ∧
    c' = { c with streams := c'.streams } ∧
    ∀ j, c'.streams.get? j = c.streams.get? j ∨ (c'.streams.get? j = none ∧ l.closing now (k, j) = true)
  stays : ∀ k ∈ l.connMap.keys, ¬ l.HasOpen now k → k ∈ l'.connMap.keys
  shrinks : ∀ k, l.HasOpen now k → l'.connMap.size + 1 = l.connMap.size

namespace Swept

variable (h : Swept l l' now)

include h

theorem idle (hi : l.Idle now) : l'.Idle now := by
  intro k c' hc'
  obtain ⟨c, hc, hframe, hstreams⟩ := h.conns k c' hc'
  obtain ⟨hread, hexpired, hsilent⟩ := hi k c hc
  rw [hframe, h.mtu]
  refine ⟨hread, hexpired, fun j stream hj => ?_⟩
  obtain hkept | ⟨hgone, _⟩ := hstreams j
  · exact hsilent j stream (hkept ▸ hj)
  · rw [hgone] at hj
    cases hj

theorem closing (hs : (l'.streamAt v).isSome) : (l.streamAt v).isSome ∧ l'.closing now v = l.closing now v := by
  obtain ⟨stream, hs⟩ := Option.isSome_iff_exists.mp hs
  obtain ⟨c', hc', hs⟩ := Option.bind_eq_some_iff.mp hs
  obtain ⟨c, hc, hframe, hstreams⟩ := h.conns v.1 c' hc'
  obtain hkept | ⟨hgone, _⟩ := hstreams v.2
  · have hrole : c'.isSenderOnInit = c.isSenderOnInit := by rw [hframe]
    have hs' : c.streams.get? v.2 = some stream := hkept ▸ hs
    rw [streamAt, hc, Listener.closing, Listener.closing, hc, hc']
    simp [hs, hs', hrole]
  · rw [hgone] at hs
    cases hs

theorem hasOpen (hk : k ∈ l'.connMap.keys) : l'.HasOpen now k ↔ l.HasOpen now k := by
  constructor
  · rintro ⟨j, hs, hc⟩
    obtain ⟨hs', hc'⟩ := h.closing hs
    exact ⟨j, hs', hc' ▸ hc⟩
  · rintro ⟨j, hs, hc⟩
    obtain ⟨c', hc'⟩ := InsertionMap.mem_keys.mp hk
    obtain ⟨c, hget, _, hstreams⟩ := h.conns k c' hc'
    have hs' : (l'.streamAt (k, j)).isSome := by
      obtain hkept | ⟨_, hmark⟩ := hstreams j
      · rw [streamAt, hc', Option.bind_some, hkept]
        rwa [streamAt, hget] at hs
      · exact absurd (hc.symm.trans hmark) Bool.false_ne_true
    exact ⟨j, hs', (h.closing hs').2.trans hc⟩

theorem mem_keys (hk : k ∈ l'.connMap.keys) : k ∈ l.connMap.keys := by
  obtain ⟨c', hc'⟩ := InsertionMap.mem_keys.mp hk
  obtain ⟨c, hc, _⟩ := h.conns k c' hc'
  exact InsertionMap.mem_keys.mpr ⟨c, hc⟩

end Swept

end Listener

open Listener in
variable {P} in
/-- Silent visits leave the listener as it is. -/
theorem Round.serve_idle {r r' : Round Prv Pub} {now : Nat} {writes : Nat × Nat → WriteResult}
    {vs : List (Nat × Nat)} (h : r.listener.Idle now) (hvs : ∀ u ∈ vs, (r.listener.streamAt u).isSome)
    (hr : serve P now writes r vs = some r') : r'.listener = r.listener := by
  induction vs generalizing r with
  | nil =>
    cases hr
    rfl
  | cons v vs ih =>
    have hthere := hvs v List.mem_cons_self
    have hrest : ∀ u ∈ vs, (r.listener.streamAt u).isSome := fun u hu => hvs u (List.mem_cons_of_mem v hu)
    obtain ⟨pacing, hv⟩ := h.visit (P := P) hthere writes
    obtain ⟨stream, hs⟩ := Option.isSome_iff_exists.mp hthere
    simp only [serve, hs, hv, Option.bind_some] at hr
    split_ifs at hr with hc h0 ht
    · exact ih (r := { r with out := r.out ++ [], closeStream := r.closeStream.put v.1 stream.streamID }) h hrest hr
    · cases h0
    · cases hr
      rfl
    all_goals exact absurd (h.timedOut hthere) ht

namespace Listener

open RoundRobin Memory

variable {l l' : Listener Prv Pub} {now k : Nat} {calls : List ((Nat × Nat → WriteResult) × (Nat → Nat))}

/-- `Flush` from a state between two calls, where no pointer is set. -/
def flush (now : Nat) (l : Listener Prv Pub) (call : (Nat × Nat → WriteResult) × (Nat → Nat)) :
    Option (Listener Prv Pub) :=
  (({ toListener := l } : RoundRobin Prv Pub).flush P now call.1 call.2).map fun f => f.listener.toListener

variable {P} in
theorem Idle.endsAt_visits (hi : l.Idle now) (writes : Nat × Nat → WriteResult) :
    ∃ pre e, LoopEndsAt P now writes l (l.nested none none) pre e ∧ e.served = none ∧
      ((∃ v, e.closeConn = [v.1] ∧ (l.streamAt v).isSome ∧ l.closing now v = false) ∨
        (e.closeConn = [] ∧ ∀ k, ¬ l.HasOpen now k)) := by
  obtain ⟨pre, v, hv, hc, he⟩ | ⟨hall, he⟩ :=
    hi.endsAt (P := P) writes fun u (hu : u ∈ l.nested none none) => mem_nested_none.mp hu
  · exact ⟨pre, _, he, rfl, .inl ⟨v, rfl, mem_nested_none.mp hv, hc⟩⟩
  · refine ⟨_, _, he, rfl, .inr ⟨rfl, ?_⟩⟩
    rintro k ⟨j, hs, hc⟩
    exact Bool.false_ne_true (hc.symm.trans (hall (k, j) (mem_nested_none.mpr hs)))

variable {P} in
/-- What a call marks, and what it takes out of the tables. -/
theorem Idle.flush_memory {s : RoundRobin Prv Pub} (hi : s.Idle now) (hk : s.Keyed) (hsize : s.connMap.size ≠ 0)
    (hconn : s.currentConnID = none) (hstream : s.currentStreamID = none) (writes : Nat × Nat → WriteResult)
    (rank : Nat → Nat) :
    ∃ f, s.flush P now writes rank = some f ∧ f.listener.toListener = f.memory.tables ∧
      f.memory.toListener = s.toListener ∧ (∀ v ∈ f.memory.removedStreams, s.closing now v = true) ∧
      ((∃ v, f.memory.removedConns = [v.1] ∧ (s.streamAt v).isSome ∧ s.closing now v = false) ∨
        (f.memory.removedConns = [] ∧ ∀ k, ¬ s.HasOpen now k)) := by
  have hptr : s.connPtr = none := by rw [connPtr, hconn]; rfl
  have hptr' : s.streamPtr = none := by rw [streamPtr, hstream]; rfl
  have hvisits : s.visits = s.nested none none := by rw [visits, hptr, hptr']
  obtain ⟨pre, e, he, hserved, hend⟩ := hi.endsAt_visits (P := P) writes
  rw [← hvisits] at he
  obtain ⟨r, hr, hg⟩ := Round.serve_of_endsAt P (r := { listener := s.toListener }) hk he
  have hl : r.listener = s.toListener :=
    Round.serve_idle hi (fun u hu => mem_nested_none.mp (hvisits ▸ hu)) hr
  have hclash : s.NoIdClash P now writes := by
    intro pre' e' hends
    obtain ⟨r', hr', hg'⟩ := Round.serve_of_endsAt P (r := { listener := s.toListener }) hk hends
    obtain rfl : r = r' := Option.some.inj (hr.symm.trans hr')
    rw [hptr, ← behind_served hg', behind_served hg, hserved, Option.elim_none, hptr']
    exact ⟨fun conn _ h => absurd h.symm (Option.some_ne_none conn),
      fun conn id _ h => absurd h.symm (Option.some_ne_none id)⟩
  obtain ⟨f, hf, hmem, hlist, _⟩ := flush_eq P hsize hr rank
  obtain ⟨hobj, hclosed, hmarked⟩ := cleanup_of_noIdClash P hk he hg hclash rank hmem
  rw [gathered_closeConn hg] at hclosed
  refine ⟨f, hf, hlist, (congrArg RoundRobin.toListener hobj).trans hl, fun v hv => ?_, hclosed ▸ hend⟩
  have hmark := hmarked v hv
  rw [hg.closeStream, marks_get?] at hmark
  exact closing_of_lastClosing hmark

variable {P} in
theorem Idle.flush (hi : l.Idle now) (hk : l.Keyed) (call : (Nat × Nat → WriteResult) × (Nat → Nat)) :
    ∃ l', l.flush P now call = some l' ∧ Swept l l' now := by
  by_cases hsize : l.connMap.size = 0
  · refine ⟨l, ?_, hk, rfl, fun k c hc => ⟨c, hc, rfl, fun j => .inl rfl⟩, fun k hk _ => hk, ?_⟩
    · simp only [Listener.flush, RoundRobin.flush, if_pos hsize, Option.map_some]
    · rintro k ⟨j, hs, _⟩
      exact absurd hsize (size_ne_zero (mem_keys_of_streamAt hs))
  obtain ⟨f, hf, hlist, hmemory, hmarked, hend⟩ :=
    Idle.flush_memory (P := P) (s := { toListener := l }) hi hk hsize rfl rfl call.1 call.2
  dsimp only at hmemory hmarked hend
  refine ⟨f.listener.toListener, by rw [Listener.flush, hf]; rfl, ?_⟩
  rw [hlist]
  refine ⟨tables_keyed (hmemory ▸ hk), ?_, fun k c' hc' => ?_, fun k hk' hopen => ?_, fun k hopen => ?_⟩
  · exact (show f.memory.tables.mtu = f.memory.mtu from rfl).trans (congrArg Listener.mtu hmemory)
  · rw [tables_get?, hmemory] at hc'
    split_ifs at hc'
    obtain ⟨c, hc, rfl⟩ := Option.map_eq_some_iff.mp hc'
    refine ⟨c, hc, without_frame .., fun j => ?_⟩
    rw [without_streams]
    split_ifs with hgone
    · exact .inr ⟨rfl, hmarked (k, j) hgone⟩
    · exact .inl rfl
  · rw [tables_keys, connKeys, hmemory]
    refine List.mem_filter.mpr ⟨hk', ?_⟩
    obtain ⟨v, hv, hs, hc⟩ | ⟨hv, _⟩ := hend
    · have hne : k ≠ v.1 := fun h => hopen (h ▸ ⟨v.2, hs, hc⟩)
      simpa [hv] using hne
    · simp [hv]
  · obtain ⟨v, hv, hs, hc⟩ | ⟨_, hnone⟩ := hend
    · have hmem : v.1 ∈ f.memory.connMap.keys := by
        rw [hmemory]
        exact mem_keys_of_streamAt hs
      rw [tables_size hmem hv, hmemory]
    · exact absurd hopen (hnone k)

/-- A connection without an open stream is still there behind any number of calls. -/
theorem Idle.never_collected (hi : l.Idle now) (hk : l.Keyed) (hmem : k ∈ l.connMap.keys)
    (hopen : ¬ l.HasOpen now k) (calls : List ((Nat × Nat → WriteResult) × (Nat → Nat))) :
    ∃ l', run (Listener.flush P now) l calls = some l' ∧ k ∈ l'.connMap.keys := by
  have hstep : ∀ (l : Listener Prv Pub) call,
      l.Idle now ∧ l.Keyed ∧ k ∈ l.connMap.keys ∧ ¬ l.HasOpen now k → True →
      ∃ l', l.flush P now call = some l' ∧
        (l'.Idle now ∧ l'.Keyed ∧ k ∈ l'.connMap.keys ∧ ¬ l'.HasOpen now k) := by
    rintro l call ⟨hi, hk, hmem, hopen⟩ _
    obtain ⟨l', hf, hsw⟩ := hi.flush (P := P) hk call
    have hmem' := hsw.stays k hmem hopen
    exact ⟨l', hf, hsw.idle hi, hsw.keyed, hmem', fun h => hopen ((hsw.hasOpen hmem').mp h)⟩
  obtain ⟨l', hrun, _, _, hmem', _⟩ := run_total_along hstep ⟨hi, hk, hmem, hopen⟩
    (along_of_forall (p := fun _ => True) (s := l) fun _ (_ : _ ∈ calls) => trivial)
  exact ⟨l', hrun, hmem'⟩

theorem Idle.collected (hi : l.Idle now) (hk : l.Keyed) (hopen : ∀ k ∈ l.connMap.keys, l.HasOpen now k)
    (hn : calls.length = l.connMap.size) :
    ∃ l', run (Listener.flush P now) l calls = some l' ∧ l'.connMap.size = 0 := by
  induction calls generalizing l with
  | nil => exact ⟨l, rfl, hn.symm⟩
  | cons call calls ih =>
    obtain ⟨l₁, hf, hsw⟩ := hi.flush (P := P) hk call
    have hsize : l₁.connMap.size + 1 = l.connMap.size := by
      cases hkeys : l.connMap.keys with
      | nil =>
        have h0 := congrArg List.length hkeys
        simp only [InsertionMap.keys, List.length_map, List.length_nil] at h0
        simp only [InsertionMap.size, List.length_cons] at hn
        omega
      | cons k ks => exact hsw.shrinks k (hopen k (hkeys ▸ List.mem_cons_self))
    rw [List.length_cons] at hn
    obtain ⟨l', hrun, h0⟩ := ih (hsw.idle hi) hsw.keyed
      (fun k hk' => (hsw.hasOpen hk').mpr (hopen k (hsw.mem_keys hk'))) (by omega)
    exact ⟨l', (run_cons _ l call calls l').mpr ⟨l₁, hf, hrun⟩, h0⟩

/-- As many calls as there are idle connections remove them all just when every one of
them has a stream that is not marked for closing: `Flush` looks at connections through
their streams alone. -/
theorem idle_collected_iff (l : Listener Prv Pub) (hk : l.Keyed) (now : Nat) (hi : l.Idle now)
    (calls : List ((Nat × Nat → WriteResult) × (Nat → Nat))) (hn : calls.length = l.connMap.size) :
    (∃ l', run (Listener.flush P now) l calls = some l' ∧ l'.connMap.size = 0) ↔
      ∀ k ∈ l.connMap.keys, l.HasOpen now k := by
  constructor
  · rintro ⟨l', hrun, h0⟩ k hmem
    by_contra hopen
    obtain ⟨l'', hrun', hmem'⟩ := hi.never_collected P hk hmem hopen calls
    obtain rfl : l' = l'' := Option.some.inj (hrun.symm.trans hrun')
    exact size_ne_zero hmem' h0
  · exact fun hopen => hi.collected P hk hopen hn

/-- One connection with these streams that read a packet at the time 1. -/
def readAtOne (streams : InsertionMap Nat Stream) : Listener UInt8 UInt8 :=
  { prvKeyId := 7, mtu := 1400
    connMap := InsertionMap.empty.put 1 { oneStream 1 5 0 [] with
      streams := streams, measurements := { lastReadTimeNano := 1 } } }

theorem readAtOne_get? {streams : InsertionMap Nat Stream} {c : Conn UInt8 UInt8}
    (h : (readAtOne streams).connMap.get? k = some c) :
    k = 1 ∧ c = { oneStream 1 5 0 [] with streams := streams, measurements := { lastReadTimeNano := 1 } } := by
  simp only [readAtOne, InsertionMap.get?_put] at h
  split_ifs at h with hk
  · exact ⟨hk, (Option.some.inj h).symm⟩
  · cases h

theorem readAtOne_idle (streams : InsertionMap Nat Stream) (hs : ∀ k s, streams.get? k = some s → s.streamID = k) :
    (readAtOne streams).Keyed ∧ (readAtOne streams).Idle 30000000002 := by
  constructor
  · intro k c hc
    obtain ⟨rfl, rfl⟩ := readAtOne_get? hc
    exact ⟨rfl, hs⟩
  · intro k c hc
    obtain ⟨rfl, rfl⟩ := readAtOne_get? hc
    exact ⟨nofun, (by decide : 1 + readDeadLine < 30000000002), fun _ _ _ => ⟨rfl, .inr (.inr ⟨rfl, rfl, rfl, rfl, rfl⟩)⟩⟩

/-- A connection whose streams were all cleaned up is never removed. -/
theorem noStreams_stays : (readAtOne .empty).Keyed ∧ (readAtOne .empty).Idle 30000000002 ∧
    (readAtOne .empty).connMap.size = 1 ∧
    ¬ ∃ l', run (Listener.flush plain 30000000002) (readAtOne .empty) [(fun _ => .ok (), fun _ => 0)] = some l' ∧
      l'.connMap.size = 0 := by
  obtain ⟨hk, hi⟩ := readAtOne_idle .empty nofun
  refine ⟨hk, hi, rfl, ?_⟩
  rintro ⟨l', hrun, h0⟩
  cases hrun
  cases h0

theorem openStream_collected : (readAtOne (InsertionMap.empty.put 5 ⟨5, 0⟩)).Idle 30000000002 ∧
    ∃ l', run (Listener.flush plain 30000000002) (readAtOne (InsertionMap.empty.put 5 ⟨5, 0⟩))
      [(fun _ => .ok (), fun _ => 0)] = some l' ∧ l'.connMap.size = 0 := by
  have hs : ∀ k s, (InsertionMap.empty.put 5 ⟨5, 0⟩ : InsertionMap Nat Stream).get? k = some s → s.streamID = k := by
    intro k s hk
    rw [InsertionMap.get?_put] at hk
    split_ifs at hk with h5
    · cases hk
      exact h5.symm
    · cases hk
  obtain ⟨hk, hi⟩ := readAtOne_idle _ hs
  refine ⟨hi, (idle_collected_iff plain _ hk 30000000002 hi _ rfl).mpr fun k hmem => ?_⟩
  obtain rfl : k = 1 := List.mem_singleton.mp hmem
  exact ⟨5, rfl, rfl⟩

end Listener

end Qotp
