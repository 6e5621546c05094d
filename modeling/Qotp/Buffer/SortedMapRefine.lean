import Qotp.Buffer.SortedMapRemove
import Qotp.Framework.Run
import Qotp.Framework.SortedAssoc

namespace Qotp

open Framework

namespace SortedMap

variable {K V : Type} {m : SortedMap K V}

theorem contains_eq (m : SortedMap K V) (k : K) : m.contains k = (m.get k).isSome := by
  rw [contains, get, Option.isSome_map]

/-- Reading a pointer that runs into the sentinel at the end of a part of the list. -/
theorem entryUnless_or {s : Nat} {o : Option Nat} (h : o ≠ some s) :
    m.entryUnless s (o.or (some s)) = some (o.map m.entry) := by
  cases o with
  | none => simp [entryUnless]
  | some p => simp [entryUnless, h]

variable [LinearOrder K] {a : SortedAssoc K V} {k : K}

/-- The skip list holds the entries of a sorted map. -/
def Represents (m : SortedMap K V) (a : SortedAssoc K V) : Prop :=
  ∃ ps, Linked m ps ∧ a.entries = ps.map m.entry

theorem linked_new [Inhabited K] [Inhabited V] : Linked (new : SortedMap K V) [] where
  sorted := List.Pairwise.nil
  nodup := (by decide : [0, 1].Nodup)
  bound := (by decide : ∀ p ∈ [0, 1], p < 2)
  heights := nofun
  level_pos := Nat.one_pos
  level_le := (by decide : 1 ≤ maxLevel)
  head_height := List.length_replicate
  chain i hi := by
    have hslot : (List.replicate maxLevel (none : Option Nat))[i]? = some none := by
      rw [List.getElem?_replicate, if_pos hi]
    change ((List.replicate maxLevel (none : Option Nat))[i]?).join = none
    rw [hslot]
    rfl
  after := rfl
  prev := rfl
  items k p := by simp [new]
  size := rfl

theorem represents_new [Inhabited K] [Inhabited V] : Represents (new : SortedMap K V) .empty :=
  ⟨[], linked_new, rfl⟩

/-- A new value for a node changes no link. -/
theorem Linked.setValue {ps : List Nat} (h : Linked m ps) (p : Nat) (v : V) :
    Linked (m.setNode p { m.node p with value := v }) ps := by
  have hnode : ∀ q, ∃ w, (m.setNode p { m.node p with value := v }).node q = { m.node q with value := w } := by
    intro q
    by_cases hq : q = p
    · subst hq
      exact ⟨v, node_setNode_self ..⟩
    · exact ⟨_, node_setNode_of_ne m _ hq⟩
  have hkey : ∀ q, ((m.setNode p { m.node p with value := v }).node q).key = (m.node q).key := fun q => by
    obtain ⟨w, hw⟩ := hnode q
    rw [hw]
  have hheight : ∀ q, (m.setNode p { m.node p with value := v }).height q = m.height q := fun q => by
    obtain ⟨w, hw⟩ := hnode q
    rw [height, hw]
    rfl
  have hnext : ∀ i, (m.setNode p { m.node p with value := v }).nextOf i = m.nextOf i := fun i => by
    funext q
    obtain ⟨w, hw⟩ := hnode q
    rw [nextOf, nextAt, hw]
    rfl
  have hafter : (fun q => ((m.setNode p { m.node p with value := v }).node q).after) = fun q => (m.node q).after := by
    funext q
    obtain ⟨w, hw⟩ := hnode q
    rw [hw]
  have hprev : (fun q => ((m.setNode p { m.node p with value := v }).node q).prev) = fun q => (m.node q).prev := by
    funext q
    obtain ⟨w, hw⟩ := hnode q
    rw [hw]
  have hlevel : ∀ i, (m.setNode p { m.node p with value := v }).onLevel ps i = m.onLevel ps i := fun i =>
    List.filter_congr fun q _ => by rw [hheight]
  exact {
    sorted := h.sorted.imp fun hlt => by rwa [hkey, hkey]
    nodup := h.nodup
    bound := h.bound
    heights := fun q hq => by rw [hheight]; exact h.heights q hq
    level_pos := h.level_pos
    level_le := h.level_le
    head_height := (hheight m.head).trans h.head_height
    chain := fun i hi => by rw [hnext, hlevel]; exact h.chain i hi
    after := by rw [hafter]; exact h.after
    prev := by rw [hprev]; exact h.prev
    items := fun j q => by rw [hkey]; exact h.items j q
    size := h.size }

/-- The entries before and behind a node. -/
theorem Linked.split_at {ps : List Nat} (h : Linked m ps) {p : Nat} (hp : m.items k = some p) :
    ∃ xs ys, ps = xs ++ p :: ys ∧ (m.node p).key = k ∧ p ∉ xs ++ ys := by
  obtain ⟨hmem, hk⟩ := (h.items k p).mp hp
  obtain ⟨xs, ys, rfl⟩ := List.append_of_mem hmem
  exact ⟨xs, ys, rfl, hk, h.not_mem_middle⟩

theorem Represents.put (h : Represents m a) (k : K) (v : V) :
    ∃ m', m.put k v = some m' ∧ Represents m' (a.put k v) := by
  obtain ⟨ps, hl, he⟩ := h
  cases hi : m.items k with
  | some p =>
    obtain ⟨xs, ys, rfl, hk, hnot⟩ := hl.split_at hi
    have hsame : ∀ zs : List Nat, p ∉ zs → zs.map (m.setNode p { m.node p with value := v }).entry = zs.map m.entry := by
      intro zs hz
      refine List.map_congr_left fun q hq => ?_
      have hqp : q ≠ p := by
        rintro rfl
        exact hz hq
      rw [entry, node_setNode_of_ne m _ hqp]
      rfl
    refine ⟨m.setNode p { m.node p with value := v }, by simp only [SortedMap.put, hi], _, hl.setValue p v, ?_⟩
    rw [List.mem_append, not_or] at hnot
    rw [List.map_append, List.map_cons, entry, hk] at he
    rw [SortedAssoc.put_of_append he, List.map_append, List.map_cons, hsame xs hnot.1, hsame ys hnot.2, entry,
      node_setNode_self, hk]
  | none =>
    obtain ⟨xs, ys, rfl, hc⟩ := hl.exists_cut (fun j => decide (j < k))
      fun b c hbc hck => by simpa using hbc.trans (by simpa using hck)
    obtain ⟨m', lv, hput, hpos, hle, hg⟩ := hl.put_grown hc hi v
    have hxk : ∀ p ∈ xs, (m.node p).key < k := fun p hp => by simpa using hc.passed p hp
    have hyk : ∀ p ∈ ys, k < (m.node p).key := fun p hp => by
      have hge : k ≤ (m.node p).key := by simpa using hc.rest p hp
      refine lt_of_le_of_ne hge fun hkp => ?_
      rw [(hl.items k p).mpr ⟨List.mem_append_right xs hp, hkp.symm⟩] at hi
      cases hi
    have hold : ∀ zs : List Nat, (∀ p ∈ zs, p ∈ xs ++ ys) → zs.map m'.entry = zs.map m.entry := by
      intro zs hz
      refine List.map_congr_left fun q hq => (hg.old q ?_).1
      exact hl.fresh q (List.mem_cons_of_mem _ (List.mem_cons_of_mem _ (hz q hq)))
    refine ⟨m', hput, _, hl.grown hxk hyk hpos hle hg, ?_⟩
    rw [List.map_append] at he
    rw [SortedAssoc.put_of_append_new he (List.forall_mem_map.mpr hxk) (List.forall_mem_map.mpr hyk), List.map_append, List.map_cons, hg.new.1, hold xs fun p => List.mem_append_left ys,
      hold ys fun p => List.mem_append_right xs]

theorem Represents.remove (h : Represents m a) (k : K) :
    ∃ m', m.remove k = some (m', a.get? k) ∧ Represents m' (a.erase k) := by
  obtain ⟨ps, hl, he⟩ := h
  cases hi : m.items k with
  | none =>
    have hno : ∀ e ∈ a.entries, e.1 ≠ k := by
      rw [he]
      intro e hmem hek
      obtain ⟨p, hp, rfl⟩ := List.mem_map.mp hmem
      rw [(hl.items k p).mpr ⟨hp, hek⟩] at hi
      cases hi
    refine ⟨m, ?_, ps, hl, ?_⟩
    · simp only [SortedMap.remove, hi, SortedAssoc.get?_eq_none.mpr hno]
    · rw [SortedAssoc.entries_erase, List.filter_eq_self.mpr fun e hmem => by simpa using hno e hmem, he]
  | some t =>
    obtain ⟨xs, ys, rfl, hk, _⟩ := hl.split_at hi
    obtain ⟨m', hrem, hs⟩ := hl.remove_shrunk hk
    have hentry : m'.entry = m.entry := funext fun p => (hs.old p).1
    have hsplit : a.entries = xs.map m.entry ++ (k, (m.node t).value) :: ys.map m.entry := by
      rw [he, List.map_append, List.map_cons, entry, hk]
    refine ⟨m', ?_, xs ++ ys, hl.shrunk hk hs, ?_⟩
    · rw [hrem, SortedAssoc.get?_eq_some.mpr]
      rw [hsplit]
      exact List.mem_append_right _ List.mem_cons_self
    · rw [SortedAssoc.erase_of_append hsplit, hentry, List.map_append]

theorem Represents.size_eq (h : Represents m a) : m.size = a.entries.length := by
  obtain ⟨ps, hl, he⟩ := h
  rw [he, List.length_map, hl.size]

theorem Represents.get_eq (h : Represents m a) (k : K) : m.get k = a.get? k := by
  obtain ⟨ps, hl, he⟩ := h
  apply Option.ext
  intro v
  rw [SortedAssoc.get?_eq_some, he, List.mem_map, get, Option.map_eq_some_iff]
  constructor
  · rintro ⟨p, hp, rfl⟩
    obtain ⟨hmem, hk⟩ := (hl.items k p).mp hp
    exact ⟨p, hmem, by rw [entry, hk]⟩
  · rintro ⟨p, hp, hpe⟩
    obtain ⟨hk, hv⟩ := Prod.mk.inj hpe
    exact ⟨p, (hl.items k p).mpr ⟨hp, hk⟩, hv⟩

theorem Linked.after_entry {xs ys : List Nat} (h : Linked m (xs ++ ys)) :
    m.entryUnless m.tail (m.node (xs.getLastD m.head)).after = some ((ys.map m.entry).head?) := by
  have hne : ys.head? ≠ some m.tail := fun hs =>
    (h.head_ne (List.mem_append_right xs (List.mem_of_mem_head? hs))).2 rfl
  rw [h.after_cut, entryUnless_or hne, List.head?_map]

theorem Linked.before_entry {xs ys : List Nat} (h : Linked m (xs ++ ys)) :
    m.entryUnless m.head (xs.getLast?.or (some m.head)) = some ((xs.map m.entry).getLast?) := by
  have hne : xs.getLast? ≠ some m.head := fun hs =>
    (h.head_ne (List.mem_append_left ys (List.mem_of_mem_getLast? hs))).1 rfl
  rw [entryUnless_or hne, List.getLast?_map]

theorem Represents.min_eq (h : Represents m a) : m.min = some a.min? := by
  obtain ⟨ps, hl, he⟩ := h
  rw [SortedAssoc.min?, he]
  exact (show Linked m ([] ++ ps) from hl).after_entry

/-- Both paths of `Next`: from the node of the key, and by a search. -/
theorem Represents.next_eq (h : Represents m a) (k : K) : m.next k = some (a.next k) := by
  obtain ⟨ps, hl, he⟩ := h
  cases hi : m.items k with
  | some p =>
    obtain ⟨xs, ys, rfl, hk, _⟩ := hl.split_at hi
    obtain ⟨_, htail, hcross⟩ := List.pairwise_append.mp hl.sorted
    have hle : ∀ q ∈ xs ++ [p], (m.node q).key ≤ k := by
      intro q hq
      rw [List.mem_append, List.mem_singleton] at hq
      rcases hq with hq | rfl
      · exact hk ▸ (hcross q hq p List.mem_cons_self).le
      · exact hk.le
    have hgt : ∀ q ∈ ys, k < (m.node q).key := fun q hq => hk ▸ (List.pairwise_cons.mp htail).1 q hq
    rw [List.append_cons] at he hl
    rw [List.map_append] at he
    rw [SortedAssoc.next_of_append he (List.forall_mem_map.mpr hle) (List.forall_mem_map.mpr hgt), ← hl.after_entry]
    simp [SortedMap.next, hi, List.getLastD_eq_getLast?]
  | none =>
    obtain ⟨xs, ys, rfl, hc⟩ := hl.exists_cut (fun j => decide (k ≥ j))
      fun b c hbc hck => by simpa using hbc.le.trans (by simpa using hck)
    have hle : ∀ q ∈ xs, (m.node q).key ≤ k := fun q hq => by simpa using hc.passed q hq
    have hgt : ∀ q ∈ ys, k < (m.node q).key := fun q hq => by simpa using hc.rest q hq
    rw [List.map_append] at he
    rw [SortedAssoc.next_of_append he (List.forall_mem_map.mpr hle) (List.forall_mem_map.mpr hgt), ← hl.after_entry]
    simp only [SortedMap.next, hi, hl.search_eq hc, Option.bind_eq_bind, Option.bind_some]

theorem Represents.prev_eq (h : Represents m a) (k : K) : m.prev k = some (a.prev k) := by
  obtain ⟨ps, hl, he⟩ := h
  cases hi : m.items k with
  | some p =>
    obtain ⟨xs, ys, rfl, hk, _⟩ := hl.split_at hi
    have hc := hl.cut_at hk
    have hlt : ∀ q ∈ xs, (m.node q).key < k := fun q hq => by simpa using hc.passed q hq
    have hge : ∀ q ∈ p :: ys, k ≤ (m.node q).key := fun q hq => by simpa using hc.rest q hq
    rw [List.map_append] at he
    rw [SortedAssoc.prev_of_append he (List.forall_mem_map.mpr hlt) (List.forall_mem_map.mpr hge), ← hl.before_entry,
      ← hl.prev_at]
    simp only [SortedMap.prev, hi]
  | none =>
    obtain ⟨xs, ys, rfl, hc⟩ := hl.exists_cut (fun j => decide (j < k))
      fun b c hbc hck => by simpa using hbc.trans (by simpa using hck)
    have hlt : ∀ q ∈ xs, (m.node q).key < k := fun q hq => by simpa using hc.passed q hq
    have hge : ∀ q ∈ ys, k ≤ (m.node q).key := fun q hq => by simpa using hc.rest q hq
    rw [List.map_append] at he
    rw [SortedAssoc.prev_of_append he (List.forall_mem_map.mpr hlt) (List.forall_mem_map.mpr hge), ← hl.before_entry,
      getLast?_or_some]
    simp only [SortedMap.prev, hi, hl.search_eq hc, Option.bind_eq_bind, Option.bind_some]

end SortedMap

/-- The calls that change a map. -/
inductive SmOp (K V : Type)
  | put (key : K) (value : V)
  | remove (key : K)

namespace SortedMap

variable {K V : Type} [LinearOrder K]

def step (m : SortedMap K V) : SmOp K V → Option (SortedMap K V)
  | .put key value => m.put key value
  | .remove key => (m.remove key).map Prod.fst

/-- The reference map after the calls. -/
def reference (ops : List (SmOp K V)) : K → Option V :=
  ops.foldl (fun ref op => match op with
    | .put key value => Function.update ref key (some value)
    | .remove key => Function.update ref key none) fun _ => none

/-- The entry with the least key in `s`, or none if no key of the map is in `s`. -/
def LeastIn (ref : K → Option V) (s : Set K) : Option (K × V) → Prop
  | none => ∀ j ∈ s, ref j = none
  | some (j, v) => ref j = some v ∧ IsLeast {i | i ∈ s ∧ (ref i).isSome} j

def GreatestIn (ref : K → Option V) (s : Set K) : Option (K × V) → Prop
  | none => ∀ j ∈ s, ref j = none
  | some (j, v) => ref j = some v ∧ IsGreatest {i | i ∈ s ∧ (ref i).isSome} j

/-- What every query of the map answers, in terms of the reference map. -/
structure Agrees (m : SortedMap K V) (ref : K → Option V) : Prop where
  get : ∀ k, m.get k = ref k
  contains : ∀ k, m.contains k = (ref k).isSome
  size : (m.size : ℕ∞) = {k | (ref k).isSome}.encard
  min : ∃ r, m.min = some r ∧ LeastIn ref Set.univ r
  next : ∀ k, ∃ r, m.next k = some r ∧ LeastIn ref (Set.Ioi k) r
  prev : ∀ k, ∃ r, m.prev k = some r ∧ GreatestIn ref (Set.Iio k) r

variable {m : SortedMap K V} {a : SortedAssoc K V}

theorem leastIn_min (a : SortedAssoc K V) : LeastIn a.get? Set.univ a.min? := by
  cases hm : a.min? with
  | none =>
    intro j _
    rw [SortedAssoc.get?_eq_none, SortedAssoc.min?_eq_none.mp hm]
    exact nofun
  | some e =>
    obtain ⟨hmem, hmin⟩ := SortedAssoc.min?_spec hm
    have hget := SortedAssoc.get?_eq_some.mpr hmem
    refine ⟨hget, ⟨trivial, by rw [hget]; rfl⟩, fun i hi => ?_⟩
    obtain ⟨w, hw⟩ := Option.isSome_iff_exists.mp hi.2
    exact hmin _ (SortedAssoc.get?_eq_some.mp hw)

theorem leastIn_next (a : SortedAssoc K V) (k : K) : LeastIn a.get? (Set.Ioi k) (a.next k) := by
  cases hm : a.next k with
  | none =>
    intro j hj
    refine SortedAssoc.get?_eq_none.mpr fun e he hej => ?_
    exact (SortedAssoc.next_eq_none.mp hm e he).not_gt (hej ▸ hj)
  | some e =>
    obtain ⟨hmem, hgt, hmin⟩ := SortedAssoc.next_spec hm
    have hget := SortedAssoc.get?_eq_some.mpr hmem
    refine ⟨hget, ⟨hgt, by rw [hget]; rfl⟩, fun i hi => ?_⟩
    obtain ⟨w, hw⟩ := Option.isSome_iff_exists.mp hi.2
    exact hmin _ (SortedAssoc.get?_eq_some.mp hw) hi.1

theorem greatestIn_prev (a : SortedAssoc K V) (k : K) : GreatestIn a.get? (Set.Iio k) (a.prev k) := by
  cases hm : a.prev k with
  | none =>
    intro j hj
    refine SortedAssoc.get?_eq_none.mpr fun e he hej => ?_
    exact (SortedAssoc.prev_eq_none.mp hm e he).not_gt (hej ▸ hj)
  | some e =>
    obtain ⟨hmem, hlt, hmax⟩ := SortedAssoc.prev_spec hm
    have hget := SortedAssoc.get?_eq_some.mpr hmem
    refine ⟨hget, ⟨hlt, by rw [hget]; rfl⟩, fun i hi => ?_⟩
    obtain ⟨w, hw⟩ := Option.isSome_iff_exists.mp hi.2
    exact hmax _ (SortedAssoc.get?_eq_some.mp hw) hi.1

theorem Represents.agrees (h : Represents m a) : Agrees m a.get? where
  get := h.get_eq
  contains k := by rw [contains_eq, h.get_eq]
  size := by rw [h.size_eq, SortedAssoc.encard_domain]
  min := ⟨_, h.min_eq, leastIn_min a⟩
  next k := ⟨_, h.next_eq k, leastIn_next a k⟩
  prev k := ⟨_, h.prev_eq k, greatestIn_prev a k⟩

/-- Every run of calls keeps the skip list a representation of the reference map. -/
theorem run_represents [Inhabited K] [Inhabited V] (ops : List (SmOp K V)) :
    ∃ m, run step (new : SortedMap K V) ops = some m ∧ ∃ a, Represents m a ∧ a.get? = reference ops := by
  induction ops using List.reverseRecOn with
  | nil => exact ⟨new, rfl, .empty, represents_new, rfl⟩
  | append_singleton ops op ih =>
    obtain ⟨m, hrun, a, hrep, href⟩ := ih
    rw [run_append, hrun, reference, List.foldl_append, ← reference, ← href]
    cases op with
    | put key value =>
      obtain ⟨m', hput, hrep'⟩ := hrep.put key value
      refine ⟨m', ?_, _, hrep', SortedAssoc.get?_put⟩
      simp [run, step, hput]
    | remove key =>
      obtain ⟨m', hrem, hrep'⟩ := hrep.remove key
      refine ⟨m', ?_, _, hrep', SortedAssoc.get?_erase⟩
      simp [run, step, hrem]

/-- After any calls on a new map every query agrees with the reference map, and
`Remove` returns the stored value and changes no other key. -/
theorem refines_reference [Inhabited K] [Inhabited V] (ops : List (SmOp K V)) :
    ∃ m, run step (new : SortedMap K V) ops = some m ∧ Agrees m (reference ops) ∧
      ∀ k, ∃ m', m.remove k = some (m', reference ops k) ∧ Agrees m' (Function.update (reference ops) k none) := by
  obtain ⟨m, hrun, a, hrep, href⟩ := run_represents ops
  refine ⟨m, hrun, href ▸ hrep.agrees, fun k => ?_⟩
  obtain ⟨m', hrem, hrep'⟩ := hrep.remove k
  rw [← href, ← SortedAssoc.get?_erase]
  exact ⟨m', hrem, hrep'.agrees⟩

end SortedMap

end Qotp
