import Qotp.Buffer.LinkedMap
import Qotp.Framework.Chain
import Qotp.Framework.InsertionOrder

namespace Qotp

open Framework

namespace LinkedMap

variable {K V σ : Type} {m m' : LinkedMap K V}

def nextOf (m : LinkedMap K V) (p : Nat) : Option Nat := (m.node p).next

def prevOf (m : LinkedMap K V) (p : Nat) : Option Nat := (m.node p).prev

section Frame

variable (m : LinkedMap K V) (p : Nat)

/-- A write to one node, field by field. -/
theorem nextOf_setNode (n : LmNode K V) : (m.setNode p n).nextOf = Function.update m.nextOf p n.next :=
  Function.comp_update LmNode.next m.node p n

theorem prevOf_setNode (n : LmNode K V) : (m.setNode p n).prevOf = Function.update m.prevOf p n.prev :=
  Function.comp_update LmNode.prev m.node p n

theorem entry_setNode (n : LmNode K V) : (m.setNode p n).entry = Function.update m.entry p (n.key, n.value) :=
  Function.comp_update (fun n : LmNode K V => (n.key, n.value)) m.node p n

variable (x : Option Nat)

@[simp] theorem nextOf_setNext : (m.setNext p x).nextOf = Function.update m.nextOf p x := nextOf_setNode ..

@[simp] theorem prevOf_setNext : (m.setNext p x).prevOf = m.prevOf :=
  (prevOf_setNode ..).trans (Function.update_eq_self p m.prevOf)

@[simp] theorem entry_setNext : (m.setNext p x).entry = m.entry :=
  (entry_setNode ..).trans (Function.update_eq_self p m.entry)

@[simp] theorem nextOf_setPrev : (m.setPrev p x).nextOf = m.nextOf :=
  (nextOf_setNode ..).trans (Function.update_eq_self p m.nextOf)

@[simp] theorem prevOf_setPrev : (m.setPrev p x).prevOf = Function.update m.prevOf p x := prevOf_setNode ..

@[simp] theorem entry_setPrev : (m.setPrev p x).entry = m.entry :=
  (entry_setNode ..).trans (Function.update_eq_self p m.entry)

end Frame

theorem headD_of_or (l : List Nat) (d : Nat) : l.head?.or (some d) = some (l.headD d) := by
  cases l <;> rfl

/-- The nodes `ps` are the list in both directions, and the index finds exactly them. -/
structure Linked (m : LinkedMap K V) (ps : List Nat) : Prop where
  next : Chain m.nextOf m.head ps (some m.tail)
  prev : Chain m.prevOf m.tail ps.reverse (some m.head)
  nodup : (m.head :: m.tail :: ps).Nodup
  below : ∀ p ∈ m.head :: m.tail :: ps, p < m.allocated
  items : ∀ k p, m.items k = some p ↔ p ∈ ps ∧ (m.entry p).1 = k
  size : m.size = ps.length

namespace Linked

variable {ps xs ys : List Nat} {t : Nat} {k : K}

theorem nodup_next (h : Linked m ps) : (m.head :: ps).Nodup :=
  h.nodup.sublist (List.Sublist.cons_cons _ (List.sublist_cons_self _ _))

theorem nodup_prev (h : Linked m ps) : (m.tail :: ps.reverse).Nodup := by
  have hn := (List.nodup_cons.mp h.nodup).2
  rw [List.nodup_cons] at hn ⊢
  exact ⟨fun hm => hn.1 (List.mem_reverse.mp hm), List.nodup_reverse.mpr hn.2⟩

theorem ne_sentinel (h : Linked m ps) {p : Nat} (hp : p ∈ ps) : p ≠ m.head ∧ p ≠ m.tail := by
  refine ⟨fun he => ?_, fun he => ?_⟩
  · exact (List.nodup_cons.mp h.nodup_next).1 (he ▸ hp)
  · exact (List.nodup_cons.mp h.nodup_prev).1 (he ▸ List.mem_reverse.mpr hp)

/-- Two nodes of the list have different keys. -/
theorem key_inj (h : Linked m ps) {p q : Nat} (hp : p ∈ ps) (hq : q ∈ ps) (hk : (m.entry p).1 = (m.entry q).1) :
    p = q :=
  Option.some.inj (((h.items _ p).mpr ⟨hp, rfl⟩).symm.trans ((h.items _ q).mpr ⟨hq, hk.symm⟩))

theorem keys_nodup (h : Linked m ps) : ((ps.map m.entry).map Prod.fst).Nodup := by
  rw [List.map_map]
  have hn := (List.nodup_cons.mp h.nodup_next).2
  exact hn.map_on fun p hp q hq hk => h.key_inj hp hq hk

theorem mem_keys (h : Linked m ps) : k ∈ (ps.map m.entry).map Prod.fst ↔ (m.items k).isSome = true := by
  rw [List.map_map, List.mem_map, Option.isSome_iff_exists]
  exact exists_congr fun p => (h.items k p).symm

theorem notMem_keys (h : Linked m ps) (hit : m.items k = none) : k ∉ (ps.map m.entry).map Prod.fst := by
  rw [h.mem_keys, hit]
  exact Bool.false_ne_true

/-- The neighbours of a node. -/
theorem next_at (h : Linked m (xs ++ t :: ys)) : m.nextOf t = ys.head?.or (some m.tail) := by
  exact (Chain.append_cons.mp h.next).2.first

theorem prev_at (h : Linked m (xs ++ t :: ys)) : m.prevOf t = xs.getLast?.or (some m.head) := by
  have hrev := h.prev
  rw [List.reverse_append, List.reverse_cons, List.append_assoc] at hrev
  rw [← List.head?_reverse]
  exact (Chain.append_cons.mp hrev).2.first

theorem first_at (h : Linked m ps) : m.nextOf m.head = ps.head?.or (some m.tail) := h.next.first

theorem last_at (h : Linked m ps) : m.prevOf m.tail = some (ps.getLastD m.head) := by
  rw [h.prev.first, List.head?_reverse, getLast?_or_some]

/-- What an index hit says about the list. -/
theorem split (h : Linked m ps) (hit : m.items k = some t) :
    ∃ xs ys, ps = xs ++ t :: ys ∧ (m.entry t).1 = k ∧
      k ∉ (xs.map m.entry).map Prod.fst ∧ k ∉ (ys.map m.entry).map Prod.fst := by
  obtain ⟨hmem, hk⟩ := (h.items k t).mp hit
  obtain ⟨xs, ys, rfl⟩ := List.append_of_mem hmem
  have hn := h.keys_nodup
  rw [List.map_append, List.map_append, List.map_cons, List.map_cons, hk, List.nodup_middle, List.nodup_cons,
    List.mem_append, not_or] at hn
  exact ⟨xs, ys, rfl, hk, hn.1⟩

/-- A node is none of the others, and no sentinel. -/
theorem nodup_middle (h : Linked m (xs ++ t :: ys)) :
    t ∉ m.head :: m.tail :: (xs ++ ys) ∧ (m.head :: m.tail :: (xs ++ ys)).Nodup := by
  have hn : ((m.head :: m.tail :: xs) ++ t :: ys).Nodup := h.nodup
  rw [List.nodup_middle, List.nodup_cons] at hn
  exact hn

theorem neighbours_ne (h : Linked m (xs ++ t :: ys)) : t ≠ xs.getLastD m.head ∧ t ≠ ys.headD m.tail := by
  have hno := h.nodup_middle.1
  refine ⟨fun he => hno ?_, fun he => hno ?_⟩
  · have hmem : xs.getLastD m.head ∈ m.head :: xs := List.getLastD_mem_cons
    rw [← he] at hmem
    obtain rfl | hmem := List.mem_cons.mp hmem
    · exact List.mem_cons_self
    · simp [hmem]
  · cases ys with
    | nil => exact he ▸ by simp
    | cons y ys => exact he ▸ by simp

theorem fresh (h : Linked m ps) {p : Nat} (hp : p ∈ m.head :: m.tail :: ps) : p ≠ m.allocated :=
  Nat.ne_of_lt (h.below p hp)

/-- The other nodes have other keys. -/
theorem other_keys (h : Linked m (xs ++ t :: ys)) (hit : m.items k = some t) {p : Nat} (hp : p ∈ xs ++ ys) :
    (m.entry p).1 ≠ k := by
  intro hk
  obtain ⟨ht, hkey⟩ := (h.items k t).mp hit
  have hmem : p ∈ xs ++ t :: ys := ((List.Sublist.refl xs).append (List.sublist_cons_self t ys)).subset hp
  have hpt := h.key_inj hmem ht (hk.trans hkey.symm)
  exact h.nodup_middle.1 (by rw [← hpt]; exact List.mem_cons_of_mem _ (List.mem_cons_of_mem _ hp))

theorem append_next (h : Linked m ps) :
    Chain (Function.update (Function.update m.nextOf m.allocated (some m.tail)) (ps.getLastD m.head) (some m.allocated))
      m.head (ps ++ [m.allocated]) (some m.tail) := by
  have hsub : ∀ p ∈ m.head :: ps, p ≠ m.allocated := fun p hp =>
    h.fresh ((List.Sublist.cons_cons _ (List.sublist_cons_self _ _)).subset hp)
  have hpred : m.allocated ≠ ps.getLastD m.head := Ne.symm (hsub _ List.getLastD_mem_cons)
  have hchain : Chain m.nextOf m.head (ps ++ []) (some m.tail) := by
    rw [List.append_nil]
    exact h.next
  refine hchain.insert (by rw [List.append_nil]; exact h.nodup_next) ?_ (Function.update_self ..) fun p hp hpl => ?_
  · rw [Function.update_of_ne hpred, Function.update_self, h.next.last]
  · rw [List.append_nil] at hp
    rw [Function.update_of_ne hpl, Function.update_of_ne (hsub p hp)]

theorem append_prev (h : Linked m ps) :
    Chain (Function.update (Function.update m.prevOf m.allocated (some (ps.getLastD m.head))) m.tail (some m.allocated))
      m.tail (ps ++ [m.allocated]).reverse (some m.head) := by
  have htail : m.allocated ≠ m.tail := Ne.symm (h.fresh (by simp))
  have hchain : Chain m.prevOf m.tail ([] ++ ps.reverse) (some m.head) := h.prev
  rw [List.reverse_append]
  refine hchain.insert h.nodup_prev ?_ (Function.update_self ..) fun p hp hpl => ?_
  · rw [Function.update_of_ne htail, Function.update_self]
    exact h.last_at.symm
  · have hpa := h.fresh (p := p) (by simpa using List.mem_cons_of_mem m.head hp)
    have hpt : p ≠ m.tail := hpl
    rw [Function.update_of_ne hpt, Function.update_of_ne hpa]

end Linked

section Relabel

variable [DecidableEq K]

/-- A node gets a new key and value in place, and the index follows. -/
def relabel (m : LinkedMap K V) (t : Nat) (old new : K) (v : V) : LinkedMap K V :=
  { m.setNode t { m.node t with key := new, value := v } with
    items := Function.update (Function.update m.items old none) new (some t) }

theorem relabel_frame (m : LinkedMap K V) (t : Nat) (old new : K) (v : V) :
    (m.relabel t old new v).nextOf = m.nextOf ∧ (m.relabel t old new v).prevOf = m.prevOf ∧
    (m.relabel t old new v).entry = Function.update m.entry t (new, v) := by
  refine ⟨?_, ?_, ?_⟩
  · exact (nextOf_setNode ..).trans (Function.update_eq_self t m.nextOf)
  · exact (prevOf_setNode ..).trans (Function.update_eq_self t m.prevOf)
  · exact entry_setNode ..

/-- Storing under a key that is there is a relabelling. -/
theorem Linked.relabel_self {ps : List Nat} (h : Linked m ps) {t : Nat} {k : K} (hit : m.items k = some t) (v : V) :
    m.setNode t { m.node t with value := v } = m.relabel t k k v := by
  have hk : (m.node t).key = k := ((h.items k t).mp hit).2
  unfold relabel
  rw [Function.update_idem, ← hit, Function.update_eq_self, ← hk]
  rfl

/-- A relabelled node keeps its place. -/
theorem Linked.relabel {ps : List Nat} (h : Linked m ps) {t : Nat} {old new : K} (hit : m.items old = some t)
    (hnew : new = old ∨ m.items new = none) (v : V) :
    Linked (m.relabel t old new v) ps ∧
      ps.map (m.relabel t old new v).entry = InsertionMap.renameEntries old new v (ps.map m.entry) := by
  obtain ⟨hnext, hprev, hentry⟩ := m.relabel_frame t old new v
  obtain ⟨ht, hkey⟩ := (h.items old t).mp hit
  have hother : ∀ p ∈ ps, p ≠ t → (m.entry p).1 ≠ old := fun p hp hpt hk => hpt (h.key_inj hp ht (hk.trans hkey.symm))
  refine ⟨⟨hnext ▸ h.next, hprev ▸ h.prev, h.nodup, h.below, fun k p => ?_, h.size⟩, ?_⟩
  · rw [hentry]
    change Function.update (Function.update m.items old none) new (some t) k = some p ↔ _
    by_cases hpt : p = t
    · subst hpt
      rw [Function.update_self]
      by_cases hk : k = new
      · subst hk
        simp [ht]
      · have hne : m.items k = some p → k = old := fun hi => (((h.items k p).mp hi).2.symm.trans hkey)
        simp only [Function.update_of_ne hk, Ne.symm hk, and_false, iff_false, Function.update_apply]
        split_ifs with hko
        · exact nofun
        · exact fun hi => hko (hne hi)
    · rw [Function.update_of_ne hpt]
      by_cases hk : k = new
      · subst hk
        rw [Function.update_self]
        refine ⟨fun hi => absurd (Option.some.inj hi).symm hpt, fun hi => ?_⟩
        obtain rfl | hnone := hnew
        · exact absurd hi.2 (hother p hi.1 hpt)
        · rw [(h.items k p).mpr hi] at hnone
          cases hnone
      · rw [Function.update_of_ne hk]
        by_cases hko : k = old
        · subst hko
          rw [Function.update_self]
          exact ⟨nofun, fun hi => absurd hi.2 (hother p hi.1 hpt)⟩
        · rw [Function.update_of_ne hko]
          exact h.items k p
  · rw [InsertionMap.renameEntries, List.map_map, hentry]
    refine List.map_congr_left fun p hp => ?_
    by_cases hpt : p = t
    · subst hpt
      rw [Function.update_self, Function.comp_apply, if_pos hkey]
    · rw [Function.update_of_ne hpt, Function.comp_apply, if_neg (hother p hp hpt)]

end Relabel

section Put

variable [DecidableEq K] {ps : List Nat}

/-- What `Put` does for a new key. -/
def append (m : LinkedMap K V) (key : K) (value : V) (pred : Nat) : LinkedMap K V :=
  let m₁ := ({ m with allocated := m.allocated + 1 } : LinkedMap K V).setNode m.allocated
    ⟨key, value, some m.tail, some pred⟩
  { (m₁.setNext pred (some m.allocated)).setPrev m.tail (some m.allocated) with
    items := Function.update m.items key (some m.allocated), size := m.size + 1 }

theorem put_of_none {k : K} (h : Linked m ps) (hit : m.items k = none) (v : V) :
    m.put k v = some (m.append k v (ps.getLastD m.head)) := by
  have hlast : (m.node m.tail).prev = some (ps.getLastD m.head) := h.last_at
  unfold put
  rw [hit]
  simp only [hlast, Option.bind_eq_bind, Option.bind_some]
  rfl

theorem append_frame (m : LinkedMap K V) (k : K) (v : V) (pred : Nat) :
    (m.append k v pred).nextOf =
      Function.update (Function.update m.nextOf m.allocated (some m.tail)) pred (some m.allocated) ∧
    (m.append k v pred).prevOf =
      Function.update (Function.update m.prevOf m.allocated (some pred)) m.tail (some m.allocated) ∧
    (m.append k v pred).entry = Function.update m.entry m.allocated (k, v) := by
  refine ⟨?_, ?_, ?_⟩
  · change ((setNext _ _ _).setPrev _ _).nextOf = _
    rw [nextOf_setPrev, nextOf_setNext, nextOf_setNode]
    rfl
  · change ((setNext _ _ _).setPrev _ _).prevOf = _
    rw [prevOf_setPrev, prevOf_setNext, prevOf_setNode]
    rfl
  · change ((setNext _ _ _).setPrev _ _).entry = _
    rw [entry_setPrev, entry_setNext, entry_setNode]
    rfl

theorem Linked.append_items {k : K} (h : Linked m ps) (hit : m.items k = none) (v : V) (j : K) (p : Nat) :
    Function.update m.items k (some m.allocated) j = some p ↔
      p ∈ ps ++ [m.allocated] ∧ (Function.update m.entry m.allocated (k, v) p).1 = j := by
  rw [List.mem_append, List.mem_singleton]
  by_cases hpa : p = m.allocated
  · subst hpa
    rw [Function.update_self, Function.update_apply]
    have hno : m.items j ≠ some m.allocated := fun hi => h.fresh (by simp [((h.items j _).mp hi).1]) rfl
    by_cases hj : j = k
    · simp [hj]
    · simp [hj, hno, Ne.symm hj]
  · rw [Function.update_of_ne hpa, or_iff_left hpa]
    by_cases hj : j = k
    · subst hj
      rw [Function.update_self]
      refine ⟨fun hi => absurd (Option.some.inj hi).symm hpa, fun hi => ?_⟩
      rw [(h.items j p).mpr hi] at hit
      cases hit
    · rw [Function.update_of_ne hj]
      exact h.items j p

/-- The new node comes last. -/
theorem Linked.append {k : K} (h : Linked m ps) (hit : m.items k = none) (v : V) :
    Linked (m.append k v (ps.getLastD m.head)) (ps ++ [m.allocated]) ∧
      (ps ++ [m.allocated]).map (m.append k v (ps.getLastD m.head)).entry = ps.map m.entry ++ [(k, v)] := by
  obtain ⟨hnext, hprev, hentry⟩ := m.append_frame k v (ps.getLastD m.head)
  have hold : ∀ p ∈ ps, Function.update m.entry m.allocated (k, v) p = m.entry p := fun p hp =>
    Function.update_of_ne (h.fresh (by simp [hp])) ..
  refine ⟨⟨hnext ▸ h.append_next, hprev ▸ h.append_prev, ?_, ?_, hentry ▸ h.append_items hit v, ?_⟩, ?_⟩
  · have hn := List.nodup_append.mpr ⟨h.nodup, List.nodup_singleton m.allocated, fun a ha b hb => by
      rw [List.mem_singleton.mp hb]
      exact h.fresh ha⟩
    exact hn
  · intro p hp
    change p < m.allocated + 1
    have hmem : p ∈ (m.head :: m.tail :: ps) ++ [m.allocated] := hp
    obtain hp | hp := List.mem_append.mp hmem
    · exact Nat.lt_succ_of_lt (h.below p hp)
    · rw [List.mem_singleton.mp hp]
      exact Nat.lt_succ_self _
  · change m.size + 1 = _
    rw [h.size, List.length_append]
    rfl
  · rw [hentry, List.map_append, List.map_congr_left hold, List.map_singleton, Function.update_self]

end Put

section Remove

variable [DecidableEq K] {xs ys : List Nat} {t : Nat} {k : K}

/-- What `Remove` does for a stored key. -/
def unlink (m : LinkedMap K V) (k : K) (t pred succ : Nat) : LinkedMap K V :=
  { (m.setNext pred (m.nextOf t)).setPrev succ (m.prevOf t) with
    items := Function.update m.items k none, size := m.size - 1 }

theorem Linked.remove_eq (h : Linked m (xs ++ t :: ys)) (hit : m.items k = some t) :
    m.remove k = some (m.unlink k t (xs.getLastD m.head) (ys.headD m.tail), some (m.entry t).2) := by
  have hprev : (m.node t).prev = some (xs.getLastD m.head) := by
    have := h.prev_at
    rwa [getLast?_or_some] at this
  have hnext : (m.node t).next = some (ys.headD m.tail) := by
    have := h.next_at
    rwa [headD_of_or] at this
  obtain ⟨hpred, hsucc⟩ := h.neighbours_ne
  have hnode₁ : ∀ x, (m.setNext (xs.getLastD m.head) x).node t = m.node t := fun x => Function.update_of_ne hpred ..
  have hnode₂ : ∀ (m' : LinkedMap K V) x, (m'.setPrev (ys.headD m.tail) x).node t = m'.node t := fun m' x =>
    Function.update_of_ne hsucc ..
  unfold remove
  rw [hit]
  simp only [hprev, hnext, hnode₁, hnode₂, Option.bind_eq_bind, Option.bind_some]
  unfold unlink nextOf prevOf
  rw [hprev, hnext]
  rfl

theorem unlink_frame (m : LinkedMap K V) (k : K) (t pred succ : Nat) :
    (m.unlink k t pred succ).nextOf = Function.update m.nextOf pred (m.nextOf t) ∧
    (m.unlink k t pred succ).prevOf = Function.update m.prevOf succ (m.prevOf t) ∧
    (m.unlink k t pred succ).entry = m.entry := by
  refine ⟨(nextOf_setPrev ..).trans (nextOf_setNext ..), ?_, (entry_setPrev ..).trans (entry_setNext ..)⟩
  change (setPrev _ _ _).prevOf = _
  rw [prevOf_setPrev, prevOf_setNext]

theorem Linked.unlink_items (h : Linked m (xs ++ t :: ys)) (hit : m.items k = some t) (j : K) (p : Nat) :
    Function.update m.items k none j = some p ↔ p ∈ xs ++ ys ∧ (m.entry p).1 = j := by
  by_cases hj : j = k
  · subst hj
    rw [Function.update_self]
    exact ⟨nofun, fun hi => absurd hi.2 (h.other_keys hit hi.1)⟩
  · rw [Function.update_of_ne hj, h.items]
    refine and_congr_left fun hk => ?_
    have hpt : p ≠ t := fun he => hj (hk.symm.trans (he ▸ ((h.items k t).mp hit).2))
    simp [hpt]

/-- The other nodes close up. -/
theorem Linked.unlink (h : Linked m (xs ++ t :: ys)) (hit : m.items k = some t) :
    Linked (m.unlink k t (xs.getLastD m.head) (ys.headD m.tail)) (xs ++ ys) ∧
      (xs ++ ys).map (m.unlink k t (xs.getLastD m.head) (ys.headD m.tail)).entry =
        ((xs ++ t :: ys).map m.entry).filter fun e => e.1 ≠ k := by
  obtain ⟨hnext, hprev, hentry⟩ := m.unlink_frame k t (xs.getLastD m.head) (ys.headD m.tail)
  have hsub : (xs ++ ys).Sublist (xs ++ t :: ys) := (List.Sublist.refl xs).append (List.sublist_cons_self t ys)
  have hkept : ∀ zs : List Nat, (∀ p ∈ zs, p ∈ xs ++ ys) → (zs.map m.entry).filter (fun e => e.1 ≠ k) = zs.map m.entry := by
    refine fun zs hzs => List.filter_eq_self.mpr fun e he => ?_
    obtain ⟨p, hp, rfl⟩ := List.mem_map.mp he
    simpa using h.other_keys hit (hzs p hp)
  refine ⟨⟨?_, ?_, h.nodup_middle.2, ?_, hentry ▸ h.unlink_items hit, ?_⟩, ?_⟩
  · rw [hnext]
    refine h.next.remove h.nodup_next (Function.update_self ..) fun p _ hp => ?_
    rw [Function.update_of_ne hp]
  · have hchain := h.prev
    have hn := h.nodup_prev
    rw [List.reverse_append, List.reverse_cons, List.append_assoc, List.singleton_append] at hchain hn
    rw [hprev, List.reverse_append]
    refine hchain.remove hn ?_ fun p _ hp => ?_
    · rw [getLastD_reverse, Function.update_self]
    · rw [getLastD_reverse] at hp
      rw [Function.update_of_ne hp]
  · intro p hp
    exact h.below p ((hsub.cons_cons _).cons_cons _ |>.subset hp)
  · change m.size - 1 = _
    rw [h.size]
    simp only [List.length_append, List.length_cons]
    omega
  · rw [hentry, List.map_append, List.map_append, List.map_cons, List.filter_append,
      List.filter_cons_of_neg (by simp [((h.items k t).mp hit).2]), hkept xs fun p => List.mem_append_left _,
      hkept ys fun p => List.mem_append_right _]

end Remove

end LinkedMap

end Qotp
