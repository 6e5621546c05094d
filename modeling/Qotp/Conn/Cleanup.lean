import Qotp.Conn.FlushLoop

namespace Qotp

open Framework

variable {Prv Pub : Type}

/-- The object a pointer points into, if the listener holds it. -/
def Pointer.target {ν : Type} : Pointer ν → Option ν
  | .held name => some name
  | .dropped _ => none

namespace RoundRobin

variable {s : RoundRobin Prv Pub} {id x : Nat}

theorem storeConnID_of_ptr (h : s.connPtr = some id) : s.storeConnID id = s := by
  unfold storeConnID
  obtain ⟨p, hp, hid⟩ := Option.bind_eq_some_iff.mp h
  rw [hp]
  cases p with
  | held conn =>
    have hfix : s.connMap.modify conn (fun c => { c with connId := id }) = s.connMap := by
      refine InsertionMap.modify_of_fix fun c hc => ?_
      obtain ⟨c', hc', rfl⟩ := Option.map_eq_some_iff.mp hid
      rw [Option.some.inj (hc.symm.trans hc')]
    simp only [hfix, ← hp]
  | dropped old =>
    obtain rfl := Option.some.inj hid
    simp only [← hp]

theorem storeStreamID_of_ptr (h : s.streamPtr = some id) : s.storeStreamID id = s := by
  unfold storeStreamID
  obtain ⟨p, hp, hid⟩ := Option.bind_eq_some_iff.mp h
  rw [hp]
  cases p with
  | held v =>
    have hfix : s.connMap.modify v.1 (fun c => { c with
        streams := c.streams.modify v.2 fun stream => { stream with streamID := id } }) = s.connMap := by
      refine InsertionMap.modify_of_fix fun c hc => ?_
      rw [InsertionMap.modify_of_fix fun stream hs => ?_]
      obtain ⟨stream', hs', rfl⟩ := Option.map_eq_some_iff.mp hid
      rw [Listener.streamAt, hc] at hs'
      rw [Option.some.inj (hs.symm.trans hs')]
    simp only [hfix, ← hp]
  | dropped old =>
    obtain rfl := Option.some.inj hid
    simp only [← hp]

/-- A write through `currentConnID` is read back, and leaves the streams alone. -/
structure ConnWrite (s : RoundRobin Prv Pub) (s' : RoundRobin Prv Pub) : Prop where
  target : s'.currentConnID.map Pointer.target = s.currentConnID.map Pointer.target
  keys : s'.connMap.keys = s.connMap.keys
  streams : ∀ k, (s'.connMap.get? k).map Conn.streams = (s.connMap.get? k).map Conn.streams
  other : s'.currentStreamID = s.currentStreamID

theorem connWrite_storeConnID (s : RoundRobin Prv Pub) (id : Nat) : ConnWrite s (s.storeConnID id) := by
  unfold storeConnID
  cases hp : s.currentConnID with
  | none => exact ⟨rfl, rfl, fun _ => rfl, rfl⟩
  | some p =>
    cases p with
    | held conn =>
      refine ⟨by rw [hp], InsertionMap.keys_modify .., fun k => ?_, rfl⟩
      simp only [InsertionMap.get?_modify]
      split_ifs with hk
      · rw [Option.map_map, hk]
        rfl
      · rfl
    | dropped old => exact ⟨by rw [hp]; rfl, rfl, fun _ => rfl, rfl⟩

theorem connPtr_storeConnID (h : s.connPtr = some x) : (s.storeConnID id).connPtr = some id := by
  obtain ⟨p, hp, hid⟩ := Option.bind_eq_some_iff.mp h
  unfold storeConnID
  rw [hp]
  cases p with
  | held conn =>
    obtain ⟨c, hc, _⟩ := Option.map_eq_some_iff.mp hid
    simp [connPtr, Listener.connIdAt, InsertionMap.get?_modify, hc]
  | dropped old => rfl

/-- A write through `currentStreamID` leaves the connections and the keys of the tables alone. -/
structure StreamWrite (s : RoundRobin Prv Pub) (s' : RoundRobin Prv Pub) : Prop where
  target : s'.currentStreamID.map Pointer.target = s.currentStreamID.map Pointer.target
  conns : ∀ k, s'.connIdAt k = s.connIdAt k
  streamKeys : ∀ k, s'.streamKeysAt k = s.streamKeysAt k
  other : s'.currentConnID = s.currentConnID

theorem streamWrite_storeStreamID (s : RoundRobin Prv Pub) (id : Nat) : StreamWrite s (s.storeStreamID id) := by
  unfold storeStreamID
  cases hp : s.currentStreamID with
  | none => exact ⟨rfl, fun _ => rfl, fun _ => rfl, rfl⟩
  | some p =>
    cases p with
    | held v =>
      refine ⟨by rw [hp], fun k => ?_, fun k => ?_, rfl⟩
      · simp only [Listener.connIdAt, InsertionMap.get?_modify]
        split_ifs with hk
        · rw [Option.map_map, hk]
          rfl
        · rfl
      · simp only [Listener.streamKeysAt, InsertionMap.get?_modify]
        split_ifs with hk
        · rw [hk]
          cases s.connMap.get? v.1 with
          | none => rfl
          | some c => exact InsertionMap.keys_modify ..
        · rfl
    | dropped old => exact ⟨by rw [hp]; rfl, fun _ => rfl, fun _ => rfl, rfl⟩

theorem streamPtr_storeStreamID (h : s.streamPtr = some x) : (s.storeStreamID id).streamPtr = some id := by
  obtain ⟨p, hp, hid⟩ := Option.bind_eq_some_iff.mp h
  unfold storeStreamID
  rw [hp]
  cases p with
  | held v =>
    obtain ⟨stream, hs, _⟩ := Option.map_eq_some_iff.mp hid
    obtain ⟨c, hc, hs⟩ := Option.bind_eq_some_iff.mp hs
    simp [streamPtr, Listener.streamAt, InsertionMap.get?_modify, hc, hs]
  | dropped old => rfl

end RoundRobin

namespace Memory

variable {m : Memory Prv Pub} {conn id x : Nat}

/-- Nothing follows the key 0: writing its successor stores 0 again. -/
def Harmless (id : Nat) (keys : List Nat) : Prop := id = 0 ∧ nextKey id keys = none

theorem harmless_iff {id : Nat} {keys : List Nat} (hn : keys.Nodup) :
    (nextKey id keys).getD 0 = id ↔ Harmless id keys := by
  unfold Harmless
  cases hk : nextKey id keys with
  | none => simp [eq_comm]
  | some k =>
    have hne : k ≠ id := fun h => nextKey_ne hn (h ▸ hk)
    simp [hne]

@[simp] theorem removeConn_toRoundRobin (m : Memory Prv Pub) (id : Nat) :
    (m.removeConn id).toRoundRobin = m.toRoundRobin := by
  unfold removeConn
  split_ifs <;> rfl

@[simp] theorem removeStream_toRoundRobin (m : Memory Prv Pub) (conn id : Nat) :
    (m.removeStream conn id).toRoundRobin = m.toRoundRobin := by
  unfold removeStream
  split_ifs <;> rfl

theorem removeConn_removedConns (h : id ∈ m.connKeys) :
    (m.removeConn id).removedConns = m.removedConns ++ [id] := by
  rw [removeConn, if_pos h]

theorem removeConn_removedStreams (m : Memory Prv Pub) (id : Nat) :
    (m.removeConn id).removedStreams = m.removedStreams := by
  unfold removeConn
  split_ifs <;> rfl

theorem mem_removeStream {v : Nat × Nat} : v ∈ (m.removeStream conn id).removedStreams ↔
    v ∈ m.removedStreams ∨ (v = (conn, id) ∧ id ∈ m.streamKeysAt conn) := by
  unfold removeStream
  by_cases hgone : (conn, id) ∈ m.removedStreams
  · rw [if_neg (by simp [streamKeys, hgone])]
    exact ⟨.inl, fun h => h.elim (fun hv => hv) fun hv => hv.1 ▸ hgone⟩
  · by_cases hin : id ∈ m.streamKeysAt conn
    · rw [if_pos (by simp [streamKeys, hgone, hin])]
      simp [hin]
    · rw [if_neg (by simp [streamKeys, hin])]
      simp [hin]

theorem removeStream_removedConns (m : Memory Prv Pub) (conn id : Nat) :
    (m.removeStream conn id).removedConns = m.removedConns := by
  unfold removeStream
  split_ifs <;> rfl

/-- Where the write stores what is there, only the key goes. -/
theorem cleanupConn_harmless (hid : m.connIdAt conn = some conn)
    (h : m.connPtr = some conn → (nextKey conn m.connKeys).getD 0 = conn) : m.cleanupConn conn = m.removeConn conn := by
  unfold cleanupConn
  rw [hid]
  by_cases hp : m.connPtr = some conn
  · have hstore : m.storeConnID ((nextKey conn m.connKeys).getD 0) = m.toRoundRobin := by
      rw [h hp]
      exact RoundRobin.storeConnID_of_ptr hp
    simp only [if_pos hp, hstore, hid]
  · simp only [if_neg hp, hid]

theorem cleanupStream_harmless (h : m.streamPtr = some id → (nextKey id (m.streamKeys conn)).getD 0 = id) :
    m.cleanupStream conn id = m.removeStream conn id := by
  unfold cleanupStream
  by_cases hp : m.streamPtr = some id
  · have hstore : m.storeStreamID ((nextKey id (m.streamKeys conn)).getD 0) = m.toRoundRobin := by
      rw [h hp]
      exact RoundRobin.storeStreamID_of_ptr hp
    simp only [if_pos hp, hstore]
  · simp only [if_neg hp]

/-- Every stream that goes has an id that no pointer reads, or is harmless. -/
theorem cleanupStreams_harmless {es : List (Nat × Nat)}
    (h : ∀ e ∈ es, m.streamPtr = some e.2 → Harmless e.2 (m.streamKeysAt e.1)) :
    (es.foldl (fun m e => m.cleanupStream e.1 e.2) m).toRoundRobin = m.toRoundRobin := by
  induction es generalizing m with
  | nil => rfl
  | cons e es ih =>
    have hstep : m.cleanupStream e.1 e.2 = m.removeStream e.1 e.2 := by
      refine cleanupStream_harmless fun hp => ?_
      obtain ⟨h0, hnext⟩ := h e List.mem_cons_self hp
      rw [streamKeys, nextKey_filter _ hnext]
      exact h0.symm
    have hrest : ∀ e' ∈ es, (m.removeStream e.1 e.2).streamPtr = some e'.2 →
        Harmless e'.2 ((m.removeStream e.1 e.2).streamKeysAt e'.1) := by
      rw [removeStream_toRoundRobin]
      exact fun e' he' => h e' (List.mem_cons_of_mem e he')
    rw [List.foldl_cons, hstep, ih hrest, removeStream_toRoundRobin]

/-- What `cleanupConn` leaves of a connection stored under its id. -/
theorem cleanupConn_ptr (hid : m.connIdAt conn = some conn) (hp : m.connPtr = some conn) :
    (m.cleanupConn conn).connPtr = some ((nextKey conn m.connKeys).getD 0) := by
  unfold cleanupConn
  rw [hid]
  simp only [if_pos hp]
  split
  · exact RoundRobin.connPtr_storeConnID hp
  · rw [removeConn_toRoundRobin]
    exact RoundRobin.connPtr_storeConnID hp

theorem cleanupConn_connWrite (m : Memory Prv Pub) (conn : Nat) :
    RoundRobin.ConnWrite m.toRoundRobin (m.cleanupConn conn).toRoundRobin ∧
      (m.cleanupConn conn).removedStreams = m.removedStreams := by
  have hrefl : RoundRobin.ConnWrite m.toRoundRobin m.toRoundRobin := ⟨rfl, rfl, fun _ => rfl, rfl⟩
  unfold cleanupConn
  cases hid : m.connIdAt conn with
  | none => exact ⟨hrefl, rfl⟩
  | some id =>
    dsimp only
    split_ifs with hp
    · split
      · exact ⟨RoundRobin.connWrite_storeConnID .., rfl⟩
      · rw [removeConn_toRoundRobin, removeConn_removedStreams]
        exact ⟨RoundRobin.connWrite_storeConnID .., rfl⟩
    · split
      · exact ⟨hrefl, rfl⟩
      · rw [removeConn_toRoundRobin, removeConn_removedStreams]
        exact ⟨hrefl, rfl⟩

theorem cleanupStream_streamWrite (m : Memory Prv Pub) (conn id : Nat) :
    RoundRobin.StreamWrite m.toRoundRobin (m.cleanupStream conn id).toRoundRobin := by
  unfold cleanupStream
  rw [removeStream_toRoundRobin]
  split_ifs with hp
  · exact RoundRobin.streamWrite_storeStreamID ..
  · exact ⟨rfl, fun _ => rfl, fun _ => rfl, rfl⟩

theorem cleanupStream_ptr (m : Memory Prv Pub) (conn id : Nat) :
    (m.cleanupStream conn id).streamPtr =
      if m.streamPtr = some id then some ((nextKey id (m.streamKeys conn)).getD 0) else m.streamPtr := by
  unfold cleanupStream
  rw [removeStream_toRoundRobin]
  split_ifs with hp
  · exact RoundRobin.streamPtr_storeStreamID hp
  · rfl

/-- A stream goes when its key is cleaned up, whatever the pointers read. -/
theorem mem_cleanupStream {v : Nat × Nat} : v ∈ (m.cleanupStream conn id).removedStreams ↔
    v ∈ m.removedStreams ∨ (v = (conn, id) ∧ id ∈ m.streamKeysAt conn) := by
  unfold cleanupStream
  rw [mem_removeStream]
  split_ifs with hp
  · rw [(RoundRobin.streamWrite_storeStreamID m.toRoundRobin _).streamKeys]
  · rfl

theorem cleanupStreams_streamWrite (m : Memory Prv Pub) (es : List (Nat × Nat)) :
    RoundRobin.StreamWrite m.toRoundRobin (es.foldl (fun m e => m.cleanupStream e.1 e.2) m).toRoundRobin := by
  induction es generalizing m with
  | nil => exact ⟨rfl, fun _ => rfl, fun _ => rfl, rfl⟩
  | cons e es ih =>
    have h₁ := cleanupStream_streamWrite m e.1 e.2
    have h₂ := ih (m.cleanupStream e.1 e.2)
    exact ⟨h₂.target.trans h₁.target, fun k => (h₂.conns k).trans (h₁.conns k),
      fun k => (h₂.streamKeys k).trans (h₁.streamKeys k), h₂.other.trans h₁.other⟩

theorem cleanupStreams_ptr_of_ne {es : List (Nat × Nat)} (h : ∀ e ∈ es, m.streamPtr ≠ some e.2) :
    (es.foldl (fun m e => m.cleanupStream e.1 e.2) m).streamPtr = m.streamPtr := by
  induction es generalizing m with
  | nil => rfl
  | cons e es ih =>
    have hptr : (m.cleanupStream e.1 e.2).streamPtr = m.streamPtr := by
      rw [cleanupStream_ptr, if_neg (h e List.mem_cons_self)]
    rw [List.foldl_cons, ih, hptr]
    rw [hptr]
    exact fun e' he' => h e' (List.mem_cons_of_mem e he')

/-- A stream that goes with the id the pointer reads and another id behind it: once the
other streams are gone the pointer reads something else. -/
theorem cleanupStreams_ptr_ne {es : List (Nat × Nat)} (hn : (es.map Prod.fst).Nodup)
    (hlast : es.Pairwise fun a b => a.2 = x → b.2 = x) (hp : m.streamPtr = some x)
    (hgone : ∀ v ∈ m.removedStreams, v.1 ∉ es.map Prod.fst)
    (hbad : ∃ e ∈ es, e.2 = x ∧ (nextKey x (m.streamKeysAt e.1)).getD 0 ≠ x) :
    (es.foldl (fun m e => m.cleanupStream e.1 e.2) m).streamPtr ≠ some x := by
  induction es generalizing m with
  | nil =>
    obtain ⟨e, he, _⟩ := hbad
    cases he
  | cons e es ih =>
    obtain ⟨hnot, hn⟩ := List.nodup_cons.mp hn
    obtain ⟨hx, hlast⟩ := List.pairwise_cons.mp hlast
    have hwrite := cleanupStream_streamWrite m e.1 e.2
    have hgone' : ∀ v ∈ (m.cleanupStream e.1 e.2).removedStreams, v.1 ∉ es.map Prod.fst := by
      intro v hv hmem
      obtain hv | ⟨rfl, _⟩ := mem_cleanupStream.mp hv
      · exact hgone v hv (List.mem_cons_of_mem _ hmem)
      · exact hnot hmem
    have hkeys : m.streamKeys e.1 = m.streamKeysAt e.1 := by
      refine List.filter_eq_self.mpr fun k _ => ?_
      have hk : (e.1, k) ∉ m.removedStreams := fun hmem => hgone _ hmem List.mem_cons_self
      simpa using hk
    have hptr := cleanupStream_ptr m e.1 e.2
    rw [hp, hkeys] at hptr
    rw [List.foldl_cons]
    by_cases hmatch : e.2 = x ∧ (nextKey x (m.streamKeysAt e.1)).getD 0 ≠ x
    · -- the pointer moves away from x, and every later stream has the id x
      obtain ⟨rfl, hne⟩ := hmatch
      rw [if_pos rfl] at hptr
      have hstay : (es.foldl (fun m e => m.cleanupStream e.1 e.2) (m.cleanupStream e.1 e.2)).streamPtr =
          (m.cleanupStream e.1 e.2).streamPtr := by
        refine cleanupStreams_ptr_of_ne fun e' he' => ?_
        rw [hptr, hx e' he' rfl]
        exact fun h => hne (Option.some.inj h)
      rw [hstay, hptr]
      exact fun h => hne (Option.some.inj h)
    · have hsame : (m.cleanupStream e.1 e.2).streamPtr = some x := by
        rw [hptr]
        split_ifs with h
        · obtain rfl := Option.some.inj h
          exact congrArg some (not_not.mp fun hne => hmatch ⟨rfl, hne⟩)
        · rfl
      refine ih hn hlast hsame hgone' ?_
      obtain ⟨e', he', hx', hne⟩ := hbad
      obtain rfl | he' := List.mem_cons.mp he'
      · exact absurd ⟨hx', hne⟩ hmatch
      · exact ⟨e', he', hx', by rwa [hwrite.streamKeys]⟩

/-- A connection without the streams taken out of its table. -/
def without (m : Memory Prv Pub) (conn : Nat) (c : Conn Prv Pub) : Conn Prv Pub :=
  (m.removedStreams.filter fun v => v.1 = conn).foldl (fun c v => c.cleanupStream v.2) c

theorem tables_get? (m : Memory Prv Pub) (k : Nat) :
    m.tables.connMap.get? k = if k ∈ m.removedConns then none else (m.connMap.get? k).map (m.without k) := by
  rw [tables, InsertionMap.get?_foldl_erase, InsertionMap.get?_foldl_modify fun id c => Conn.cleanupStream c id]
  rfl

theorem tables_keys (m : Memory Prv Pub) : m.tables.connMap.keys = m.connKeys := by
  rw [tables, InsertionMap.keys_foldl_erase, InsertionMap.keys_foldl_modify fun id c => Conn.cleanupStream c id]
  rfl

/-- Taking out one connection leaves one less. -/
theorem tables_size {k : Nat} (hk : k ∈ m.connMap.keys) (h : m.removedConns = [k]) :
    m.tables.connMap.size + 1 = m.connMap.size := by
  have hnodup : m.connMap.keys.Nodup := m.connMap.nodup
  have hkeys : m.tables.connMap.keys = m.connMap.keys.erase k := by
    rw [tables_keys, connKeys, h, hnodup.erase_eq_filter]
    refine List.filter_congr fun j _ => ?_
    by_cases hj : j = k <;> simp [hj]
  have hlen := congrArg List.length hkeys
  have hpos := List.length_pos_of_mem hk
  rw [List.length_erase_of_mem hk] at hlen
  simp only [InsertionMap.keys, List.length_map] at hlen hpos
  simp only [InsertionMap.size]
  omega

theorem without_streams (m : Memory Prv Pub) (conn : Nat) (c : Conn Prv Pub) (k : Nat) :
    (m.without conn c).streams.get? k = if (conn, k) ∈ m.removedStreams then none else c.streams.get? k := by
  have hstreams : ∀ vs : List (Nat × Nat), (vs.foldl (fun c v => c.cleanupStream v.2) c).streams =
      (vs.map Prod.snd).foldl InsertionMap.erase c.streams := by
    intro vs
    induction vs generalizing c with
    | nil => rfl
    | cons v vs ih => exact ih (c.cleanupStream v.2)
  rw [without, hstreams, InsertionMap.get?_foldl_erase]
  simp

/-- Only the table of streams changes. -/
theorem without_frame (m : Memory Prv Pub) (conn : Nat) (c : Conn Prv Pub) :
    m.without conn c = { c with streams := (m.without conn c).streams } := by
  unfold without
  induction m.removedStreams.filter (fun v => v.1 = conn) generalizing c with
  | nil => rfl
  | cons v vs ih => exact ih (c.cleanupStream v.2)

theorem tables_streamAt (m : Memory Prv Pub) (v : Nat × Nat) :
    m.tables.streamAt v = if v.1 ∈ m.removedConns ∨ v ∈ m.removedStreams then none else m.streamAt v := by
  rw [Listener.streamAt, tables_get?, Listener.streamAt]
  by_cases hc : v.1 ∈ m.removedConns
  · rw [if_pos hc, if_pos (.inl hc)]
    rfl
  · rw [if_neg hc, Option.bind_map]
    simp only [hc, false_or]
    cases m.connMap.get? v.1 with
    | none => simp
    | some c => exact without_streams m v.1 c v.2

theorem tables_keyed (h : m.Keyed) : m.tables.Keyed := by
  intro k c hc
  rw [tables_get?] at hc
  split_ifs at hc
  obtain ⟨c₀, hc₀, rfl⟩ := Option.map_eq_some_iff.mp hc
  obtain ⟨hid, hstreams⟩ := h k c₀ hc₀
  refine ⟨by rw [without_frame]; exact hid, fun j stream hj => ?_⟩
  rw [without_streams] at hj
  split_ifs at hj
  exact hstreams j stream hj

theorem cleanupStream_removedConns (m : Memory Prv Pub) (conn id : Nat) :
    (m.cleanupStream conn id).removedConns = m.removedConns := by
  unfold cleanupStream
  rw [removeStream_removedConns]
  split_ifs <;> rfl

theorem mem_cleanupStreams {es : List (Nat × Nat)} {v : Nat × Nat} :
    v ∈ (es.foldl (fun m e => m.cleanupStream e.1 e.2) m).removedStreams ↔
      v ∈ m.removedStreams ∨ (v ∈ es ∧ v.2 ∈ m.streamKeysAt v.1) := by
  induction es generalizing m with
  | nil => simp
  | cons e es ih =>
    have hkeys := (cleanupStream_streamWrite m e.1 e.2).streamKeys v.1
    rw [List.foldl_cons, ih, mem_cleanupStream, hkeys, List.mem_cons]
    constructor
    · rintro ((hv | ⟨rfl, hin⟩) | ⟨hv, hin⟩)
      · exact .inl hv
      · exact .inr ⟨.inl rfl, hin⟩
      · exact .inr ⟨.inr hv, hin⟩
    · rintro (hv | ⟨rfl | hv, hin⟩)
      · exact .inl (.inl hv)
      · exact .inl (.inr ⟨rfl, hin⟩)
      · exact .inr ⟨hv, hin⟩

theorem cleanupStreams_removedConns (m : Memory Prv Pub) (es : List (Nat × Nat)) :
    (es.foldl (fun m e => m.cleanupStream e.1 e.2) m).removedConns = m.removedConns := by
  induction es generalizing m with
  | nil => rfl
  | cons e es ih => rw [List.foldl_cons, ih, cleanupStream_removedConns]

end Memory

end Qotp
