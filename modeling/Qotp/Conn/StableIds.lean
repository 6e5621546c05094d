import Qotp.Conn.Cleanup
import Qotp.Crypto.Plain

namespace Qotp

open Framework

variable {Prv Pub : Type} (P : Primitives Prv Pub)

namespace RoundRobin

open Listener Memory

variable {s : RoundRobin Prv Pub} {now : Nat} {writes : Nat × Nat → WriteResult} {rank : Nat → Nat}
  {f : Flushed Prv Pub} {pre : List (Nat × Nat)} {e : LoopEnd} {r : Round Prv Pub}

/-- Ids are stable: the tables stay keyed, no connection and no stream has another id,
in the tables or out of them, and only what was marked for closing is taken out. -/
structure Stable (s : RoundRobin Prv Pub) (f : Flushed Prv Pub) : Prop where
  keyed : f.listener.Keyed
  connIds : ∀ conn, f.memory.connIdAt conn = s.connIdAt conn
  streamIDs : ∀ v, (f.memory.streamAt v).map Stream.streamID = (s.streamAt v).map Stream.streamID
  droppedConn : ∀ id id', s.currentConnID = some (.dropped id) →
    f.memory.currentConnID = some (.dropped id') → id' = id
  droppedStream : ∀ id id', s.currentStreamID = some (.dropped id) →
    f.memory.currentStreamID = some (.dropped id') → id' = id
  closedConns : ∀ conn ∈ f.memory.removedConns, conn ∈ f.closeConn
  closedStreams : ∀ v ∈ f.memory.removedStreams, f.closeStream.get? v.1 = some v.2

/-- No id that goes is the one a pointer reads during the cleanup: the id of the stream
that sent data in this call, or the one pointed at before if none did. The id 0 may be if
nothing stands behind it. -/
def NoIdClash (s : RoundRobin Prv Pub) (now : Nat) (writes : Nat × Nat → WriteResult) : Prop :=
  ∀ pre e, s.LoopEndsAt P now writes s.visits pre e →
    (∀ conn ∈ e.closeConn, s.connPtr = some conn → Harmless conn s.connMap.keys) ∧
    ∀ conn id, s.lastClosing now pre conn = some id → (e.served.elim s.streamPtr fun v => some v.2) = some id →
      Harmless id (s.streamKeysAt conn)

theorem StreamWrite.connPtr {s s' : RoundRobin Prv Pub} (h : StreamWrite s s') : s'.connPtr = s.connPtr := by
  simp only [RoundRobin.connPtr, h.other, h.conns]

theorem ConnWrite.streamAt {s s' : RoundRobin Prv Pub} (h : ConnWrite s s') (v : Nat × Nat) :
    s'.streamAt v = s.streamAt v := streamAt_congr (h.streams v.1)

theorem ConnWrite.streamPtr {s s' : RoundRobin Prv Pub} (h : ConnWrite s s') : s'.streamPtr = s.streamPtr := by
  simp only [RoundRobin.streamPtr, h.other, h.streamAt]

theorem ConnWrite.streamKeysAt {s s' : RoundRobin Prv Pub} (h : ConnWrite s s') (k : Nat) :
    s'.streamKeysAt k = s.streamKeysAt k := streamKeysAt_congr (h.streams k)

theorem connIdAt_of_streamAt (hk : s.Keyed) {v : Nat × Nat} {stream : Stream} (h : s.streamAt v = some stream) :
    s.connIdAt v.1 = some v.1 := by
  obtain ⟨c, hc, _⟩ := Option.bind_eq_some_iff.mp h
  rw [connIdAt, hc, Option.map_some, (hk v.1 c hc).1]

/-- Behind the loop a pointer to an object that is not stored is the one there was. -/
theorem behind_dropped {id id' : Nat} :
    (s.currentConnID = some (.dropped id) → (s.behind r).currentConnID = some (.dropped id') → id' = id) ∧
    (s.currentStreamID = some (.dropped id) → (s.behind r).currentStreamID = some (.dropped id') → id' = id) := by
  cases hserved : r.served with
  | none =>
    simp only [behind, hserved]
    constructor
    · intro hs hd
      cases hs.symm.trans hd
      rfl
    · intro hs hd
      cases hs.symm.trans hd
      rfl
  | some v =>
    simp only [behind, hserved]
    exact ⟨fun _ hd => (by cases hd), fun _ hd => (by cases hd)⟩

section Behind

variable (hk : s.Keyed) (he : s.LoopEndsAt P now writes s.visits pre e)
  (hg : Round.Gathered { listener := s.toListener } now pre e r)

include hg in
theorem behind_served : r.served = e.served := hg.served.trans (Option.or_none ..)

include hg in
theorem behind_connPtr (hserved : e.served = none) :
    (s.behind r).currentConnID = s.currentConnID ∧ (s.behind r).connPtr = s.connPtr := by
  have hcur : (s.behind r).currentConnID = s.currentConnID := by
    simp only [behind, behind_served hg, hserved]
  refine ⟨hcur, ?_⟩
  simp only [connPtr, hcur]
  exact congrArg (Option.bind s.currentConnID) (funext fun p => by
    cases p with
    | held conn => exact hg.same.connIdAt conn
    | dropped id => rfl)

include hk he hg in
/-- What `currentStreamID` reads behind the loop. -/
theorem behind_streamPtr : (s.behind r).streamPtr = e.served.elim s.streamPtr fun v => some v.2 := by
  have hcur := behind_served hg
  cases e with
  | sent v =>
    obtain ⟨_, l₁, _, _, _, _, hr, hv, _⟩ := he
    obtain ⟨stream, hs⟩ := (visit_sameIds hv).2
    rw [hr.sameIds.streamAt] at hs
    have hs' : (s.behind r).streamAt v = some stream := (hg.same.streamAt v).trans hs
    simp only [streamPtr, behind, hcur, LoopEnd.served, Option.bind_some, Option.elim_some]
    rw [show r.listener.streamAt v = some stream from hs', Option.map_some, hk.streamAt hs]
  | closed v | through =>
    simp only [streamPtr, behind, hcur, LoopEnd.served, Option.elim_none]
    exact congrArg (Option.bind s.currentStreamID) (funext fun p => by
      cases p with
      | held v => exact congrArg (Option.map _) (hg.same.streamAt v)
      | dropped id => rfl)

end Behind

theorem visits_nil (h : s.connMap.size = 0) : s.visits = [] := by
  have hes : s.connMap.entries = [] := List.length_eq_zero_iff.mp h
  have hit : ∀ start, s.connMap.iterate start = [] := by
    intro start
    cases start <;> simp [InsertionMap.iterate, hes]
  simp [visits, nested, hit]

theorem flush_eq (h : s.connMap.size ≠ 0)
    (hr : Round.serve P now writes { listener := s.toListener } s.visits = some r) (rank : Nat → Nat) :
    ∃ f, s.flush P now writes rank = some f ∧
      f.memory = (inOrder rank r.closeStream).foldl (fun m e => m.cleanupStream e.1 e.2)
        (r.closeConn.foldl cleanupConn (s.behind r)) ∧
      f.listener.toListener = f.memory.tables ∧ f.out = r.out ∧ f.closeConn = r.closeConn ∧
      f.closeStream = r.closeStream := by
  simp only [flush, if_neg h, hr, Option.map_some]
  exact ⟨_, rfl, rfl, rfl, rfl, rfl, rfl⟩

/-- The loop of a call that returned. -/
theorem flush_gathered (h : s.connMap.size ≠ 0) (hk : s.Keyed) (hf : s.flush P now writes rank = some f) :
    ∃ r, Round.serve P now writes { listener := s.toListener } s.visits = some r ∧
      ∃ pre e, s.LoopEndsAt P now writes s.visits pre e ∧
        Round.Gathered { listener := s.toListener } now pre e r := by
  rw [flush, if_neg h] at hf
  obtain ⟨r, hr, _⟩ := Option.map_eq_some_iff.mp hf
  obtain ⟨pre, e, he⟩ := Round.serve_endsAt P hr
  obtain ⟨r', hr', hg⟩ := Round.serve_of_endsAt P (r := { listener := s.toListener }) hk he
  obtain rfl : r = r' := Option.some.inj (hr.symm.trans hr')
  exact ⟨r, hr, pre, e, he, hg⟩

theorem mem_inOrder {t : InsertionMap Nat Nat} {v : Nat × Nat} : v ∈ inOrder rank t ↔ t.get? v.1 = some v.2 := by
  rw [inOrder, List.mem_insertionSort, InsertionMap.get?_eq_some]

theorem inOrder_nodup (rank : Nat → Nat) (t : InsertionMap Nat Nat) : ((inOrder rank t).map Prod.fst).Nodup :=
  ((List.perm_insertionSort _ _).map _).nodup_iff.mpr t.nodup

/-- The range that takes the streams with the id `x` last. -/
theorem inOrder_last (t : InsertionMap Nat Nat) (x : Nat) :
    (inOrder (fun k => if t.get? k = some x then 1 else 0) t).Pairwise fun a b => a.2 = x → b.2 = x := by
  have hsorted := List.pairwise_insertionSort (r := fun a b : Nat × Nat =>
    (if t.get? a.1 = some x then 1 else 0) ≤ if t.get? b.1 = some x then 1 else 0) t.entries
  refine hsorted.imp_of_mem fun {a b} ha hb hle hx => ?_
  rw [mem_inOrder.mp ha, mem_inOrder.mp hb, hx, if_pos rfl] at hle
  by_contra hne
  rw [if_neg fun h => hne (Option.some.inj h)] at hle
  omega

theorem streamKeysAt_nodup (l : Listener Prv Pub) (conn : Nat) : (l.streamKeysAt conn).Nodup := by
  unfold streamKeysAt
  cases l.connMap.get? conn with
  | none => exact List.nodup_nil
  | some c => exact c.streams.nodup

/-- A pointer whose object keeps its id reads what it read before. -/
theorem Stable.connPtr (h : Stable s f)
    (ht : f.memory.currentConnID.map Pointer.target = s.currentConnID.map Pointer.target) :
    f.memory.connPtr = s.connPtr := by
  unfold RoundRobin.connPtr
  rcases hs : s.currentConnID with _ | conn | id <;> rcases hf : f.memory.currentConnID with _ | conn' | id' <;>
    simp [hs, hf, Pointer.target] at ht ⊢
  · rw [ht]
    exact h.connIds conn
  · exact h.droppedConn id id' hs hf

theorem Stable.streamPtr (h : Stable s f)
    (ht : f.memory.currentStreamID.map Pointer.target = s.currentStreamID.map Pointer.target) :
    f.memory.streamPtr = s.streamPtr := by
  unfold RoundRobin.streamPtr
  rcases hs : s.currentStreamID with _ | v | id <;> rcases hf : f.memory.currentStreamID with _ | v' | id' <;>
    simp only [hs, hf, Pointer.target, Option.map_some, Option.map_none, Option.some.injEq, reduceCtorEq,
      Option.bind_some, Option.bind_none] at ht ⊢
  · rw [ht]
    exact h.streamIDs v
  · exact h.droppedStream id id' hs hf

theorem Stable.streamPtr_held (h : Stable s f) {v : Nat × Nat}
    (ht : f.memory.currentStreamID.map Pointer.target = some (some v)) :
    f.memory.streamPtr = (s.streamAt v).map Stream.streamID := by
  unfold RoundRobin.streamPtr
  rcases hf : f.memory.currentStreamID with _ | v' | id' <;> rw [hf] at ht
  · cases ht
  · obtain rfl : v' = v := by simpa [Pointer.target] using ht
    exact h.streamIDs v'
  · cases ht

section Cleanup

variable (hk : s.Keyed) (he : s.LoopEndsAt P now writes s.visits pre e)
  (hg : Round.Gathered { listener := s.toListener } now pre e r)

include hk he hg in
/-- The connection the loop ends at is stored under its id. -/
theorem behind_closed {conn : Nat} (hconn : conn ∈ e.closeConn) : (s.behind r).connIdAt conn = some conn := by
  cases e with
  | sent v | through => cases hconn
  | closed v =>
    obtain rfl := List.mem_singleton.mp hconn
    obtain ⟨_, l₁, _, _, _, _, hr, hv, _⟩ := he
    obtain ⟨stream, hs⟩ := (visit_sameIds hv).2
    rw [hr.sameIds.streamAt] at hs
    exact (hg.same.connIdAt v.1).trans (connIdAt_of_streamAt hk hs)

theorem closeConn_cases (e : LoopEnd) : e.closeConn = [] ∨ ∃ conn, e.closeConn = [conn] ∧ e.served = none := by
  cases e with
  | sent v => exact .inl rfl
  | closed v => exact .inr ⟨v.1, rfl, rfl⟩
  | through => exact .inl rfl

include hg in
theorem gathered_closeConn : r.closeConn = e.closeConn := hg.closeConn.trans (List.nil_append _)

include hg in
theorem behind_connKeys : (s.behind r).connKeys = s.connMap.keys := by
  have hall : (s.behind r).connKeys = r.listener.connMap.keys := List.filter_eq_self.mpr fun k _ => by simp [behind]
  rw [hall, hg.same.keys]

include hg in
/-- The connections are cleaned up by writes to `connId` alone. -/
theorem cleanupConns_connWrite :
    ConnWrite (s.behind r).toRoundRobin (r.closeConn.foldl cleanupConn (s.behind r)).toRoundRobin ∧
      (r.closeConn.foldl cleanupConn (s.behind r)).removedStreams = [] := by
  rw [gathered_closeConn hg]
  obtain hc | ⟨conn, hc, _⟩ := closeConn_cases e
  · rw [hc]
    exact ⟨⟨rfl, rfl, fun _ => rfl, rfl⟩, rfl⟩
  · rw [hc]
    exact cleanupConn_connWrite _ conn

include hk he hg in
theorem closedConn_harmless (hsize : s.connMap.size ≠ 0)
    (hr : Round.serve P now writes { listener := s.toListener } s.visits = some r)
    (hstable : ∀ rank f, s.flush P now writes rank = some f → s.Stable f) {conn : Nat} (hconn : conn ∈ e.closeConn)
    (hptr : s.connPtr = some conn) : Harmless conn s.connMap.keys := by
  obtain hc | ⟨conn', hc, hserved⟩ := closeConn_cases e
  · rw [hc] at hconn
    cases hconn
  have hid := behind_closed P hk he hg hconn
  obtain ⟨hcur, hbehind⟩ := behind_connPtr hg hserved
  obtain ⟨f, hflush, hmem, _⟩ := flush_eq P hsize hr fun _ => 0
  have hwrites := cleanupConns_connWrite hg
  rw [gathered_closeConn hg, hc, List.foldl_cons, List.foldl_nil] at hmem hwrites
  rw [hc, List.mem_singleton] at hconn
  subst hconn
  have hstreams := cleanupStreams_streamWrite ((s.behind r).cleanupConn conn) (inOrder (fun _ => 0) r.closeStream)
  rw [← hmem] at hstreams
  -- the pointer reads the successor of the connection, and its own id by stability
  have hread := hstreams.connPtr.trans (cleanupConn_ptr hid (hbehind.trans hptr))
  have hsame := (hstable _ f hflush).connPtr (by rw [hstreams.other, hwrites.1.target, hcur])
  rw [hsame, hptr, behind_connKeys hg] at hread
  exact (harmless_iff s.connMap.nodup).mp (Option.some.inj hread).symm

include hk he hg in
/-- With stable ids `currentStreamID` reads in the end what it reads behind the loop. -/
theorem Stable.reads_behind (hstab : s.Stable f) (ht : f.memory.currentStreamID.map Pointer.target =
    (s.behind r).currentStreamID.map Pointer.target) :
    f.memory.streamPtr = e.served.elim s.streamPtr fun v => some v.2 := by
  cases hserved : e.served with
  | none =>
    refine hstab.streamPtr (ht.trans ?_)
    simp only [behind, behind_served hg, hserved]
  | some v =>
    have hb := behind_streamPtr P hk he hg
    rw [hserved] at hb
    simp only [behind, behind_served hg, hserved] at ht
    simp only [RoundRobin.streamPtr, behind, behind_served hg, hserved, Option.bind_some] at hb
    rw [hstab.streamPtr_held ht]
    rwa [hg.same.streamAt] at hb

include hk he hg in
theorem closedStream_harmless (hsize : s.connMap.size ≠ 0)
    (hr : Round.serve P now writes { listener := s.toListener } s.visits = some r)
    (hstable : ∀ rank f, s.flush P now writes rank = some f → s.Stable f) {conn id : Nat}
    (hlast : s.lastClosing now pre conn = some id)
    (hptr : (e.served.elim s.streamPtr fun v => some v.2) = some id) : Harmless id (s.streamKeysAt conn) := by
  by_contra hbad
  obtain ⟨hwrites, hnone⟩ := cleanupConns_connWrite hg
  obtain ⟨f, hflush, hmem, _⟩ := flush_eq P hsize hr fun k => if r.closeStream.get? k = some id then 1 else 0
  have hread : f.memory.streamPtr ≠ some id := by
    rw [hmem]
    refine cleanupStreams_ptr_ne (inOrder_nodup _ _) (inOrder_last _ id) ?_ ?_ ?_
    · rw [hwrites.streamPtr, behind_streamPtr P hk he hg, hptr]
    · rw [hnone]
      exact nofun
    · refine ⟨(conn, id), mem_inOrder.mpr ?_, rfl, fun h => hbad ?_⟩
      · rw [hg.closeStream, marks_get?, hlast]
      · rw [hwrites.streamKeysAt, show (s.behind r).streamKeysAt conn = _ from hg.same.streamKeysAt conn] at h
        exact (harmless_iff (streamKeysAt_nodup _ conn)).mp h
  have htarget := (cleanupStreams_streamWrite (r.closeConn.foldl cleanupConn (s.behind r)) (inOrder
    (fun k => if r.closeStream.get? k = some id then 1 else 0) r.closeStream)).target
  rw [← hmem, hwrites.other] at htarget
  exact hread (((hstable _ f hflush).reads_behind P hk he hg htarget).trans hptr)

include hk he hg in
/-- Without a clash the cleanup changes no object. -/
theorem cleanup_of_noIdClash (hclash : s.NoIdClash P now writes) (rank : Nat → Nat) {m : Memory Prv Pub}
    (hm : m = (inOrder rank r.closeStream).foldl (fun m e => m.cleanupStream e.1 e.2)
      (r.closeConn.foldl cleanupConn (s.behind r))) :
    m.toRoundRobin = (s.behind r).toRoundRobin ∧ m.removedConns = r.closeConn ∧
      ∀ v ∈ m.removedStreams, r.closeStream.get? v.1 = some v.2 := by
  obtain ⟨hconns, hstreams⟩ := hclash pre e he
  have hfirst : (r.closeConn.foldl cleanupConn (s.behind r)).toRoundRobin = (s.behind r).toRoundRobin ∧
      (r.closeConn.foldl cleanupConn (s.behind r)).removedConns = r.closeConn := by
    rw [gathered_closeConn hg]
    obtain hc | ⟨conn, hc, hserved⟩ := closeConn_cases e
    · rw [hc]
      exact ⟨rfl, rfl⟩
    · have hmem : conn ∈ e.closeConn := hc ▸ List.mem_singleton_self conn
      have hid := behind_closed P hk he hg hmem
      have hkey : conn ∈ (s.behind r).connKeys := by
        obtain ⟨c, hc', _⟩ := Option.map_eq_some_iff.mp hid
        rw [behind_connKeys hg, ← hg.same.keys]
        exact InsertionMap.mem_keys.mpr ⟨c, hc'⟩
      have hstep : (s.behind r).cleanupConn conn = (s.behind r).removeConn conn := by
        refine cleanupConn_harmless hid fun hptr => ?_
        rw [(behind_connPtr hg hserved).2] at hptr
        rw [behind_connKeys hg]
        exact (harmless_iff s.connMap.nodup).mpr (hconns conn hmem hptr)
      rw [hc, List.foldl_cons, List.foldl_nil, hstep]
      exact ⟨removeConn_toRoundRobin .., removeConn_removedConns hkey⟩
  have hgone := (cleanupConns_connWrite hg).2
  generalize r.closeConn.foldl cleanupConn (s.behind r) = m₁ at hm hfirst hgone
  have hharmless : ∀ v ∈ inOrder rank r.closeStream, m₁.streamPtr = some v.2 →
      Harmless v.2 (m₁.streamKeysAt v.1) := by
    intro v hv hptr
    rw [mem_inOrder, hg.closeStream, marks_get?] at hv
    rw [hfirst.1] at hptr ⊢
    rw [behind_streamPtr P hk he hg] at hptr
    rw [show (s.behind r).streamKeysAt v.1 = _ from hg.same.streamKeysAt v.1]
    exact hstreams v.1 v.2 hv hptr
  rw [hm, cleanupStreams_removedConns]
  refine ⟨(cleanupStreams_harmless hharmless).trans hfirst.1, hfirst.2, fun v hv => ?_⟩
  rw [mem_cleanupStreams, hgone] at hv
  obtain hv | ⟨hv, _⟩ := hv
  · cases hv
  · exact mem_inOrder.mp hv

include hk he hg in
theorem stable_of_noIdClash (hclash : s.NoIdClash P now writes) (hsize : s.connMap.size ≠ 0)
    (hr : Round.serve P now writes { listener := s.toListener } s.visits = some r)
    (hf : s.flush P now writes rank = some f) : s.Stable f := by
  obtain ⟨f', hflush, hmem, hlistener, _, hconns, hstreams⟩ := flush_eq P hsize hr rank
  obtain rfl : f' = f := Option.some.inj (hflush.symm.trans hf)
  obtain ⟨hobj, hclosed, hmarked⟩ := cleanup_of_noIdClash P hk he hg hclash rank hmem
  have hsame : SameIds s.toListener f'.memory.toListener := by
    rw [hobj]
    exact hg.same
  refine ⟨?_, hsame.connIdAt, fun v => by rw [hsame.streamAt], fun id id' => ?_, fun id id' => ?_,
    fun conn hmem => ?_, hstreams ▸ hmarked⟩
  · rw [hlistener]
    exact tables_keyed (hsame.keyed hk)
  · rw [hobj]
    exact behind_dropped.1
  · rw [hobj]
    exact behind_dropped.2
  · rwa [hconns, ← hclosed]

end Cleanup

/-- From a state with every object under its own id `Flush` keeps the ids, whatever
order the range takes, just when no id that goes is one that a pointer reads. -/
theorem flush_stable_iff (s : RoundRobin Prv Pub) (hk : s.Keyed) (now : Nat) (writes : Nat × Nat → WriteResult) :
    (∀ rank f, s.flush P now writes rank = some f → s.Stable f) ↔ s.NoIdClash P now writes := by
  by_cases hsize : s.connMap.size = 0
  · -- an empty listener returns at once
    refine iff_of_true (fun rank f hf => ?_) fun pre e he => ?_
    · rw [flush, if_pos hsize] at hf
      cases hf
      refine ⟨hk, fun _ => rfl, fun _ => rfl, fun id id' hs hd => ?_, fun id id' hs hd => ?_, nofun, nofun⟩
      · cases hs.symm.trans hd
        rfl
      · cases hs.symm.trans hd
        rfl
    · rw [visits_nil hsize] at he
      cases e with
      | sent v | closed v =>
        obtain ⟨post, _, _, _, _, hnil, _⟩ := he
        exact absurd hnil.symm (List.append_ne_nil_of_right_ne_nil pre (List.cons_ne_nil v post))
      | through =>
        obtain ⟨rfl, _⟩ := he
        exact ⟨nofun, fun conn id hlast => absurd hlast nofun⟩
  constructor
  · intro hstable pre e he
    obtain ⟨r, hr, hg⟩ := Round.serve_of_endsAt P (r := { listener := s.toListener }) hk he
    exact ⟨fun conn hconn hptr => closedConn_harmless P hk he hg hsize hr hstable hconn hptr,
      fun conn id hlast hptr => closedStream_harmless P hk he hg hsize hr hstable hlast hptr⟩
  · intro hclash rank f hf
    obtain ⟨r, hr, pre, e, he, hg⟩ := flush_gathered P hsize hk hf
    exact stable_of_noIdClash P hk he hg hclash hsize hr hf

/-- A connection past its handshake with one stream. -/
def oneStream (connId streamID closedAtNano : Nat) (queued : Bytes) : Conn UInt8 UInt8 :=
  { connId := connId, remoteAddr := 0, prvKeyEpSnd := 3, pubKeyEpRcv := some 5, pubKeyIdRcv := none
    sharedSecret := some (List.replicate 32 15), isSenderOnInit := true, isWithCryptoOnInit := false
    isHandshakeDoneOnRcv := true, isInitSentOnSnd := true
    streams := InsertionMap.empty.put streamID ⟨streamID, closedAtNano⟩
    snd := ((SendBuffer.new sndBufferCapacity).queueData streamID queued).elim (.new sndBufferCapacity) Prod.fst }

/-- Stream 5 of connection 1 is closed; stream `id` of connection 2 has data to send. -/
def twoConns (id : Nat) : RoundRobin UInt8 UInt8 :=
  { prvKeyId := 7, mtu := 1400
    connMap := (InsertionMap.empty.put 1 (oneStream 1 5 1 [])).put 2 (oneStream 2 id 0 [1, 2, 3]) }

theorem oneStream_keyed (conn k t : Nat) (queued : Bytes) :
    (oneStream conn k t queued).connId = conn ∧ (oneStream conn k t queued).StreamsKeyed := by
  refine ⟨rfl, fun j stream hj => ?_⟩
  simp only [oneStream, InsertionMap.get?_put] at hj
  split_ifs at hj with hjk
  · cases hj
    exact hjk.symm
  · cases hj

theorem twoConns_keyed (id : Nat) : (twoConns id).Keyed := by
  intro k c hc
  simp only [twoConns, InsertionMap.get?_put] at hc
  split_ifs at hc with h2 h1
  · cases hc
    exact h2 ▸ oneStream_keyed ..
  · cases hc
    exact h1 ▸ oneStream_keyed ..
  · cases hc

/-- The stream of connection 2 that was served is renamed to 0 because a stream of
connection 1 with the same id goes. -/
theorem closing_stream_renames_other : (twoConns 5).Keyed ∧
    ∃ f, (twoConns 5).flush plain 1 (fun _ => .ok ()) (fun _ => 0) = some f ∧
      (twoConns 5).streamAt (2, 5) = some ⟨5, 0⟩ ∧ f.listener.streamAt (2, 5) = some ⟨0, 0⟩ ∧
      f.closeConn = [] ∧ f.closeStream.entries = [(1, 5)] ∧ ¬ (twoConns 5).Stable f := by
  refine ⟨twoConns_keyed 5, _, rfl, rfl, rfl, rfl, rfl, fun h => ?_⟩
  exact absurd (h.streamIDs (2, 5)) nofun

theorem distinct_streams_stable : (twoConns 6).Keyed ∧
    ∀ rank f, (twoConns 6).flush plain 1 (fun _ => .ok ()) rank = some f → (twoConns 6).Stable f := by
  refine ⟨twoConns_keyed 6, (flush_stable_iff plain _ (twoConns_keyed 6) 1 _).mpr fun pre e he => ?_⟩
  obtain ⟨r, hr, hg⟩ := Round.serve_of_endsAt plain (r := { listener := (twoConns 6).toListener }) (twoConns_keyed 6) he
  have hserved : e.served = some (2, 6) := by
    rw [← behind_served hg]
    cases hr
    rfl
  have hconns : e.closeConn = [] := by
    rw [← gathered_closeConn hg]
    cases hr
    rfl
  refine ⟨by rw [hconns]; exact nofun, fun conn id hlast hid => ?_⟩
  rw [← marks_get?, ← hg.closeStream] at hlast
  have hmark : r.closeStream.entries = [(1, 5)] := by
    cases hr
    rfl
  have hmem := InsertionMap.get?_eq_some.mp hlast
  rw [hmark, List.mem_singleton, Prod.mk.injEq] at hmem
  rw [hserved, hmem.2] at hid
  cases hid

end RoundRobin

end Qotp
