import Qotp.Conn.Endpoint
import Qotp.Conn.ListenerFlush
import Qotp.Framework.Run

namespace Qotp

open Framework

variable {Prv Pub : Type} (P : Primitives Prv Pub)

namespace Listener

section SameIds

variable {l l' l'' : Listener Prv Pub}

/-- Every connection is stored under its connId and every stream under its streamID. -/
def Keyed (l : Listener Prv Pub) : Prop := ∀ k c, l.connMap.get? k = some c → c.connId = k ∧ c.StreamsKeyed

/-- What the loop of `Flush` reads of a connection besides what it sends. -/
def identity (c : Conn Prv Pub) : Nat × InsertionMap Nat Stream × Bool := (c.connId, c.streams, c.isSenderOnInit)

/-- The same connections with the same ids, tables of streams and roles. -/
structure SameIds (l l' : Listener Prv Pub) : Prop where
  keys : l'.connMap.keys = l.connMap.keys
  conns : ∀ k, (l'.connMap.get? k).map identity = (l.connMap.get? k).map identity

/-- Streams are looked up in the table of their connection. -/
theorem streamAt_congr {v : Nat × Nat}
    (h : (l'.connMap.get? v.1).map Conn.streams = (l.connMap.get? v.1).map Conn.streams) :
    l'.streamAt v = l.streamAt v := by
  have hv := congrArg (fun o => Option.bind o fun t => t.get? v.2) h
  simp only [Option.bind_map] at hv
  exact hv

theorem streamKeysAt_congr {k : Nat}
    (h : (l'.connMap.get? k).map Conn.streams = (l.connMap.get? k).map Conn.streams) :
    l'.streamKeysAt k = l.streamKeysAt k := by
  have hk := congrArg (fun o => Option.elim o [] InsertionMap.keys) h
  simp only [Option.elim_map] at hk
  exact hk

namespace SameIds

theorem refl (l : Listener Prv Pub) : SameIds l l := ⟨rfl, fun _ => rfl⟩

theorem trans (h : SameIds l l') (h' : SameIds l' l'') : SameIds l l'' :=
  ⟨h'.keys.trans h.keys, fun k => (h'.conns k).trans (h.conns k)⟩

theorem connIdAt (h : SameIds l l') (k : Nat) : l'.connIdAt k = l.connIdAt k := by
  have hk := congrArg (Option.map Prod.fst) (h.conns k)
  rwa [Option.map_map, Option.map_map] at hk

theorem streams (h : SameIds l l') (k : Nat) :
    (l'.connMap.get? k).map Conn.streams = (l.connMap.get? k).map Conn.streams := by
  have hk := congrArg (Option.map fun i => i.2.1) (h.conns k)
  rwa [Option.map_map, Option.map_map] at hk

theorem streamAt (h : SameIds l l') (v : Nat × Nat) : l'.streamAt v = l.streamAt v :=
  streamAt_congr (h.streams v.1)

theorem streamKeysAt (h : SameIds l l') (k : Nat) : l'.streamKeysAt k = l.streamKeysAt k :=
  streamKeysAt_congr (h.streams k)

theorem closing (h : SameIds l l') (now : Nat) (v : Nat × Nat) : l'.closing now v = l.closing now v := by
  have hv := congrArg (Option.any fun i => (i.2.1.get? v.2).any fun stream => stream.closedAtNano ≠ 0 &&
    (i.2.2 || decide (add64 stream.closedAtNano readDeadLine > now))) (h.conns v.1)
  rwa [Option.any_map, Option.any_map] at hv

theorem keyed (h : SameIds l l') (hk : l.Keyed) : l'.Keyed := by
  intro k c hc
  have hi := h.conns k
  rw [hc] at hi
  obtain ⟨c₀, hc₀, hid⟩ := Option.map_eq_some_iff.mp hi.symm
  obtain ⟨hconn, hstreams⟩ := hk k c₀ hc₀
  have hid' : c₀.connId = c.connId := congrArg Prod.fst hid
  have hst : c₀.streams = c.streams := congrArg (fun i => i.2.1) hid
  exact ⟨hid' ▸ hconn, hstreams.congr hst.symm⟩

end SameIds

theorem Keyed.streamAt {v : Nat × Nat} {stream : Stream} (h : l.Keyed) (hs : l.streamAt v = some stream) :
    stream.streamID = v.2 := by
  obtain ⟨c, hc, hs⟩ := Option.bind_eq_some_iff.mp hs
  exact (h v.1 c hc).2 v.2 stream hs

theorem mem_streamKeysAt {v : Nat × Nat} :
    v.2 ∈ l.streamKeysAt v.1 ↔ (l.streamAt v).isSome := by
  unfold streamKeysAt streamAt
  cases l.connMap.get? v.1 with
  | none => simp
  | some c => exact InsertionMap.mem_keys.trans Option.isSome_iff_exists.symm

theorem mem_keys_of_streamAt {v : Nat × Nat} (h : (l.streamAt v).isSome) : v.1 ∈ l.connMap.keys := by
  obtain ⟨stream, hs⟩ := Option.isSome_iff_exists.mp h
  obtain ⟨c, hc, _⟩ := Option.bind_eq_some_iff.mp hs
  exact InsertionMap.mem_keys.mpr ⟨c, hc⟩

theorem size_ne_zero {k : Nat} (h : k ∈ l.connMap.keys) : l.connMap.size ≠ 0 := by
  intro h0
  have hnil : l.connMap.entries = [] := List.length_eq_zero_iff.mp h0
  rw [InsertionMap.keys, hnil] at h
  cases h

theorem nested_none (l : Listener Prv Pub) :
    l.nested none none = l.connMap.keys.flatMap fun k => (l.streamKeysAt k).map fun j => (k, j) := by
  have hall : l.nested none none = l.connMap.entries.flatMap fun e => e.2.streams.entries.map fun s => (e.1, s.1) := by
    unfold nested
    rw [show l.connMap.iterate none = l.connMap.entries from rfl]
    cases l.connMap.entries with
    | nil => rfl
    | cons e es => rfl
  rw [hall, InsertionMap.keys, List.flatMap_map]
  refine List.flatMap_congr fun e he => ?_
  rw [streamKeysAt, InsertionMap.get?_eq_some.mpr he, Option.elim_some, InsertionMap.keys, List.map_map]
  rfl

theorem mem_nested_none {v : Nat × Nat} : v ∈ l.nested none none ↔ (l.streamAt v).isSome := by
  rw [nested_none, List.mem_flatMap, ← mem_streamKeysAt]
  constructor
  · rintro ⟨k, _, hv⟩
    obtain ⟨j, hj, rfl⟩ := List.mem_map.mp hv
    exact hj
  · intro hv
    exact ⟨v.1, mem_keys_of_streamAt (mem_streamKeysAt.mp hv), List.mem_map.mpr ⟨v.2, hv, rfl⟩⟩

theorem nested_sameIds (h : SameIds l l') : l'.nested none none = l.nested none none := by
  simp only [nested_none, h.keys, h.streamKeysAt]

end SameIds

section Loop

variable {l l' l₁ : Listener Prv Pub} {now : Nat} {writes : Nat × Nat → WriteResult} {v : Nat × Nat}
  {pre vs : List (Nat × Nat)} {out : List Conn.Outgoing} {res : Conn.FlushResult}

variable {P} in
theorem visit_sameIds (h : l.visit P now writes v = some (l', out, res)) :
    SameIds l l' ∧ ∃ stream, l.streamAt v = some stream := by
  obtain ⟨c, hc, h⟩ := Option.bind_eq_some_iff.mp h
  obtain ⟨stream, hs, h⟩ := Option.bind_eq_some_iff.mp h
  obtain ⟨⟨c', out', r'⟩, hf, h⟩ := Option.bind_eq_some_iff.mp h
  cases h
  obtain ⟨snd, rcv, inFlight, init, sn, epoch, next, m, rfl⟩ := Conn.flush_fields P l.cfg hf
  refine ⟨⟨InsertionMap.keys_put_of_get? hc, fun k => ?_⟩, stream, ?_⟩
  · simp only [setConn, InsertionMap.get?_put]
    split_ifs with hk
    · rw [hk, hc]
      rfl
    · rfl
  · rw [streamAt, hc]
    exact hs

/-- The loop passes over a stream that it marks for closing, and over one that sends
nothing while its connection is alive. -/
def PassesOver (now : Nat) (writes : Nat × Nat → WriteResult) (l : Listener Prv Pub) (v : Nat × Nat) : Prop :=
  ∃ l' out r, l.visit P now writes v = some (l', out, .ok r) ∧
    (l'.closing now v = true ∨ (r.1 = 0 ∧ l'.timedOut now v.1 = false))

def visitStep (now : Nat) (writes : Nat × Nat → WriteResult) (l : Listener Prv Pub) (v : Nat × Nat) :
    Option (Listener Prv Pub) := (l.visit P now writes v).map Prod.fst

/-- The streams `pre` are passed over, one after the other, and leave `l₁`. -/
def Reached (now : Nat) (writes : Nat × Nat → WriteResult) (l : Listener Prv Pub) (pre : List (Nat × Nat))
    (l₁ : Listener Prv Pub) : Prop :=
  Along (visitStep P now writes) (PassesOver P now writes) l pre ∧ run (visitStep P now writes) l pre = some l₁

theorem reached_nil : Reached P now writes l [] l₁ ↔ l = l₁ := by
  simp [Reached, Along, run]

theorem reached_cons : Reached P now writes l (v :: pre) l₁ ↔
    ∃ l' out r, l.visit P now writes v = some (l', out, .ok r) ∧
      (l'.closing now v = true ∨ (r.1 = 0 ∧ l'.timedOut now v.1 = false)) ∧ Reached P now writes l' pre l₁ := by
  constructor
  · rintro ⟨⟨⟨l', out, r, hv, hq⟩, hrest⟩, hrun⟩
    have hstep : visitStep P now writes l v = some l' := by rw [visitStep, hv]; rfl
    obtain ⟨t, ht, hrun⟩ := (run_cons _ l v pre l₁).mp hrun
    obtain rfl : l' = t := Option.some.inj (hstep.symm.trans ht)
    exact ⟨l', out, r, hv, hq, hrest l' ht, hrun⟩
  · rintro ⟨l', out, r, hv, hq, halong, hrun⟩
    have hstep : visitStep P now writes l v = some l' := by rw [visitStep, hv]; rfl
    exact ⟨along_cons ⟨l', out, r, hv, hq⟩ hstep halong, (run_cons _ l v pre l₁).mpr ⟨l', hstep, hrun⟩⟩

variable {P} in
theorem Reached.sameIds (h : Reached P now writes l pre l₁) : SameIds l l₁ := by
  induction pre generalizing l with
  | nil => exact (reached_nil P).mp h ▸ SameIds.refl l
  | cons v pre ih =>
    obtain ⟨l', out, r, hv, _, hrest⟩ := (reached_cons P).mp h
    exact (visit_sameIds hv).1.trans (ih hrest)

/-- How the loop of `Flush` ends: at a stream that sent data, at a connection to be
closed, or behind the last stream. -/
inductive LoopEnd where
  | sent (v : Nat × Nat)
  | closed (v : Nat × Nat)
  | through

def LoopEnd.closeConn : LoopEnd → List Nat
  | .closed v => [v.1]
  | _ => []

def LoopEnd.served : LoopEnd → Option (Nat × Nat)
  | .sent v => some v
  | _ => none

/-- The loop over `vs` passes over `pre` and ends there, told by what `Conn.Flush`
returns for the streams in turn. -/
def LoopEndsAt (now : Nat) (writes : Nat × Nat → WriteResult) (l : Listener Prv Pub) (vs pre : List (Nat × Nat)) :
    LoopEnd → Prop
  | .sent v => ∃ post l₁ l₂ out r, vs = pre ++ v :: post ∧ Reached P now writes l pre l₁ ∧
      l₁.visit P now writes v = some (l₂, out, .ok r) ∧ l₂.closing now v = false ∧ 0 < r.1
  | .closed v => ∃ post l₁ l₂ out res, vs = pre ++ v :: post ∧ Reached P now writes l pre l₁ ∧
      l₁.visit P now writes v = some (l₂, out, res) ∧
      ∀ r, res = .ok r → l₂.closing now v = false ∧ r.1 = 0 ∧ l₂.timedOut now v.1 = true
  | .through => vs = pre ∧ ∃ l₁, Reached P now writes l pre l₁

/-- The stream of a connection that is the last one marked for closing among `pre`. -/
def lastClosing (l : Listener Prv Pub) (now : Nat) (pre : List (Nat × Nat)) (conn : Nat) : Option Nat :=
  (pre.reverse.find? fun v => v.1 = conn && l.closing now v).map Prod.snd

/-- The marks that the loop leaves behind `pre`. -/
def marks (l : Listener Prv Pub) (now : Nat) (t : InsertionMap Nat Nat) (pre : List (Nat × Nat)) :
    InsertionMap Nat Nat := pre.foldl (fun t v => if l.closing now v then t.put v.1 v.2 else t) t

theorem marks_get? (l : Listener Prv Pub) (now : Nat) (pre : List (Nat × Nat)) (conn : Nat) :
    (l.marks now .empty pre).get? conn = l.lastClosing now pre conn := by
  induction pre using List.reverseRecOn with
  | nil => rfl
  | append_singleton pre v ih =>
    have hmarks : l.marks now .empty (pre ++ [v]) =
        if l.closing now v then (l.marks now .empty pre).put v.1 v.2 else l.marks now .empty pre := by
      rw [marks, List.foldl_append]
      rfl
    rw [hmarks, lastClosing, List.reverse_append, List.reverse_singleton, List.singleton_append, List.find?_cons]
    cases hc : l.closing now v with
    | false => simpa [lastClosing] using ih
    | true =>
      rw [if_pos rfl, InsertionMap.get?_put]
      by_cases hk : conn = v.1
      · simp [hk]
      · have hk' : v.1 ≠ conn := fun h => hk h.symm
        simpa [hk, hk', lastClosing] using ih

theorem closing_of_lastClosing (h : l.lastClosing now pre v.1 = some v.2) : l.closing now v = true := by
  obtain ⟨u, hu, hid⟩ := Option.map_eq_some_iff.mp h
  have hmark := List.find?_some hu
  rw [Bool.and_eq_true, decide_eq_true_eq] at hmark
  rw [← show u = v from Prod.ext hmark.1 hid]
  exact hmark.2

theorem marks_congr (h : SameIds l l') (t : InsertionMap Nat Nat) : l'.marks now t pre = l.marks now t pre := by
  simp only [marks, h.closing]

end Loop

end Listener

namespace Round

open Listener

variable {now : Nat} {writes : Nat × Nat → WriteResult} {r r' : Round Prv Pub} {v : Nat × Nat}
  {pre vs : List (Nat × Nat)} {l' l₁ : Listener Prv Pub} {out : List Conn.Outgoing}

/-- What the loop has gathered behind `pre`. -/
structure Passed (r : Round Prv Pub) (now : Nat) (pre : List (Nat × Nat)) (l₁ : Listener Prv Pub)
    (r₁ : Round Prv Pub) : Prop where
  listener : r₁.listener = l₁
  closeConn : r₁.closeConn = r.closeConn
  served : r₁.served = r.served
  closeStream : r₁.closeStream = r.listener.marks now r.closeStream pre

theorem serve_quiet (hk : r.listener.Keyed) {res : Nat × Nat}
    (hv : r.listener.visit P now writes v = some (l', out, .ok res))
    (hq : l'.closing now v = true ∨ (res.1 = 0 ∧ l'.timedOut now v.1 = false)) (vs : List (Nat × Nat)) :
    ∃ r₁, Passed r now [v] l' r₁ ∧ serve P now writes r (v :: vs) = serve P now writes r₁ vs := by
  obtain ⟨hsame, stream, hs⟩ := visit_sameIds hv
  have hid := hk.streamAt hs
  simp only [serve, hs, hv, Option.bind_some]
  cases hc : l'.closing now v with
  | true =>
    rw [if_pos rfl]
    refine ⟨_, ?_, rfl⟩
    rw [hsame.closing] at hc
    exact ⟨rfl, rfl, rfl, by simp [marks, hc, hid]⟩
  | false =>
    obtain hq | ⟨h0, ht⟩ := hq
    · rw [hc] at hq
      cases hq
    rw [if_neg Bool.false_ne_true, if_neg (Nat.not_lt.mpr h0.le), if_neg (by simp [ht])]
    refine ⟨_, ?_, rfl⟩
    rw [hsame.closing] at hc
    exact ⟨rfl, rfl, rfl, by simp [marks, hc]⟩

theorem serve_reached (hk : r.listener.Keyed) (h : Reached P now writes r.listener pre l₁) (vs : List (Nat × Nat)) :
    ∃ r₁, Passed r now pre l₁ r₁ ∧ serve P now writes r (pre ++ vs) = serve P now writes r₁ vs := by
  induction pre generalizing r with
  | nil => exact ⟨r, ⟨(reached_nil P).mp h, rfl, rfl, rfl⟩, rfl⟩
  | cons v pre ih =>
    obtain ⟨l', out, res, hv, hq, hrest⟩ := (reached_cons P).mp h
    obtain ⟨r₁, h₁, hserve⟩ := serve_quiet P hk hv hq (pre ++ vs)
    have hsame := (visit_sameIds hv).1
    have hl := h₁.listener
    subst hl
    obtain ⟨r₂, h₂, hserve₂⟩ := ih (hsame.keyed hk) hrest
    refine ⟨r₂, ⟨h₂.listener, h₂.closeConn.trans h₁.closeConn, h₂.served.trans h₁.served, ?_⟩, ?_⟩
    · rw [h₂.closeStream, h₁.closeStream, marks_congr hsame]
      rfl
    · exact hserve.trans hserve₂

/-- What the loop hands over to the cleanup. -/
structure Gathered (r : Round Prv Pub) (now : Nat) (pre : List (Nat × Nat)) (e : LoopEnd) (r' : Round Prv Pub) :
    Prop where
  same : SameIds r.listener r'.listener
  closeConn : r'.closeConn = r.closeConn ++ e.closeConn
  served : r'.served = e.served.or r.served
  closeStream : r'.closeStream = r.listener.marks now r.closeStream pre

theorem serve_of_endsAt (hk : r.listener.Keyed) {e : LoopEnd} (h : LoopEndsAt P now writes r.listener vs pre e) :
    ∃ r', serve P now writes r vs = some r' ∧ Gathered r now pre e r' := by
  cases e with
  | sent v =>
    obtain ⟨post, l₁, l₂, out, res, rfl, hr, hv, hc, hpos⟩ := h
    obtain ⟨r₁, h₁, hserve⟩ := serve_reached P hk hr (v :: post)
    obtain ⟨hsame, stream, hs⟩ := visit_sameIds hv
    have hl := h₁.listener
    subst hl
    rw [hserve]
    simp only [serve, hs, hv, Option.bind_some, hc, Bool.false_eq_true, if_false, if_pos hpos]
    exact ⟨_, rfl, hr.sameIds.trans hsame, h₁.closeConn.trans (List.append_nil _).symm, rfl, h₁.closeStream⟩
  | closed v =>
    obtain ⟨post, l₁, l₂, out, res, rfl, hr, hv, hend⟩ := h
    obtain ⟨r₁, h₁, hserve⟩ := serve_reached P hk hr (v :: post)
    obtain ⟨hsame, stream, hs⟩ := visit_sameIds hv
    have hl := h₁.listener
    subst hl
    rw [hserve]
    have hclose : serve P now writes r₁ (v :: post) =
        some { r₁ with listener := l₂, out := r₁.out ++ out.map (fun o => (v.1, o)), closeConn := r₁.closeConn ++ [v.1] } := by
      cases res with
      | error err => simp only [serve, hs, hv, Option.bind_some]
      | ok res =>
        obtain ⟨hc, h0, ht⟩ := hend res rfl
        simp only [serve, hs, hv, Option.bind_some, hc, Bool.false_eq_true, if_false, h0, gt_iff_lt, lt_irrefl, ht,
          if_true]
    rw [hclose]
    refine ⟨_, rfl, hr.sameIds.trans hsame, ?_, h₁.served, h₁.closeStream⟩
    rw [h₁.closeConn]
    rfl
  | through =>
    obtain ⟨rfl, l₁, hr⟩ := h
    obtain ⟨r₁, h₁, hserve⟩ := serve_reached P hk hr []
    have hl := h₁.listener
    subst hl
    rw [List.append_nil] at hserve
    exact ⟨r₁, hserve, hr.sameIds, h₁.closeConn.trans (List.append_nil _).symm, h₁.served, h₁.closeStream⟩

/-- One turn of the loop: data is sent, the connection is to be closed, or the loop goes on
behind the stream. -/
theorem serve_turn (h : serve P now writes r (v :: vs) = some r') :
    ∃ l' out res, r.listener.visit P now writes v = some (l', out, res) ∧
      ((∃ d, res = .ok d ∧ l'.closing now v = false ∧ 0 < d.1 ∧
          r' = { r with listener := l', out := r.out ++ out.map (fun o => (v.1, o)), minPacing := 0, served := some v }) ∨
        ((∀ d, res = .ok d → l'.closing now v = false ∧ d.1 = 0 ∧ l'.timedOut now v.1 = true) ∧
          r' = { r with listener := l', out := r.out ++ out.map (fun o => (v.1, o)), closeConn := r.closeConn ++ [v.1] }) ∨
        ∃ d r₁, res = .ok d ∧ (l'.closing now v = true ∨ (d.1 = 0 ∧ l'.timedOut now v.1 = false)) ∧
          serve P now writes r₁ vs = some r' ∧
          r₁.listener = l' ∧ r₁.out = r.out ++ out.map (fun o => (v.1, o)) ∧ r₁.served = r.served) := by
  obtain ⟨stream, _, h⟩ := Option.bind_eq_some_iff.mp h
  obtain ⟨⟨l', out, res⟩, hv, h⟩ := Option.bind_eq_some_iff.mp h
  refine ⟨l', out, res, hv, ?_⟩
  cases res with
  | error err => exact .inr (.inl ⟨nofun, (Option.some.inj h).symm⟩)
  | ok d =>
    dsimp only at h
    by_cases hc : l'.closing now v = true
    · rw [if_pos hc] at h
      exact .inr (.inr ⟨d, _, rfl, .inl hc, h, rfl, rfl, rfl⟩)
    have hc' : l'.closing now v = false := by simpa using hc
    by_cases hd : d.1 > 0
    · rw [if_neg hc, if_pos hd] at h
      exact .inl ⟨d, rfl, hc', hd, (Option.some.inj h).symm⟩
    have h0 : d.1 = 0 := Nat.eq_zero_of_not_pos hd
    by_cases ht : l'.timedOut now v.1 = true
    · rw [if_neg hc, if_neg hd, if_pos ht] at h
      refine .inr (.inl ⟨?_, (Option.some.inj h).symm⟩)
      rintro _ ⟨rfl⟩
      exact ⟨hc', h0, ht⟩
    · rw [if_neg hc, if_neg hd, if_neg ht] at h
      exact .inr (.inr ⟨d, _, rfl, .inr ⟨h0, by simpa using ht⟩, h, rfl, rfl, rfl⟩)

/-- A loop that returns has ended in one of the three ways. -/
theorem serve_endsAt (h : serve P now writes r vs = some r') :
    ∃ pre e, LoopEndsAt P now writes r.listener vs pre e := by
  induction vs generalizing r with
  | nil => exact ⟨[], .through, rfl, r.listener, (reached_nil P).mpr rfl⟩
  | cons v vs ih =>
    have hnil : Reached P now writes r.listener [] r.listener := (reached_nil P).mpr rfl
    obtain ⟨l', out, res, hv, ⟨d, rfl, hc, hd, _⟩ | ⟨hend, _⟩ | ⟨d, r₁, rfl, hq, hrest, rfl, _, _⟩⟩ := serve_turn P h
    · exact ⟨[], .sent v, vs, _, l', out, d, rfl, hnil, hv, hc, hd⟩
    · exact ⟨[], .closed v, vs, _, l', out, res, rfl, hnil, hv, hend⟩
    · -- the stream stands in front of what the rest of the loop passes over
      obtain ⟨pre, e, he⟩ := ih hrest
      have hstep : ∀ {l₁}, Reached P now writes r₁.listener pre l₁ → Reached P now writes r.listener (v :: pre) l₁ :=
        fun hr => (reached_cons P).mpr ⟨r₁.listener, out, d, hv, hq, hr⟩
      refine ⟨v :: pre, e, ?_⟩
      cases e with
      | sent u =>
        obtain ⟨post, l₁, l₂, out, res, rfl, hr, hu⟩ := he
        exact ⟨post, l₁, l₂, out, res, rfl, hstep hr, hu⟩
      | closed u =>
        obtain ⟨post, l₁, l₂, out, res, rfl, hr, hu⟩ := he
        exact ⟨post, l₁, l₂, out, res, rfl, hstep hr, hu⟩
      | through =>
        obtain ⟨rfl, l₁, hr⟩ := he
        exact ⟨rfl, l₁, hstep hr⟩

end Round

end Qotp
