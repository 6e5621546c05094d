import Qotp.Buffer.SortedMap
import Qotp.Framework.Chain

namespace Qotp

open Framework

namespace SortedMap

variable {K V : Type} {m m' : SortedMap K V}

@[simp] theorem node_setNode_self (m : SortedMap K V) (p : Nat) (n : SmNode K V) : (m.setNode p n).node p = n :=
  Function.update_self ..

theorem node_setNode_of_ne (m : SortedMap K V) {p q : Nat} (n : SmNode K V) (h : q ≠ p) :
    (m.setNode p n).node q = m.node q := Function.update_of_ne h ..

def height (m : SortedMap K V) (p : Nat) : Nat := (m.node p).next.length

/-- The pointer in slot `i`, read as nil where there is no slot. -/
def nextOf (m : SortedMap K V) (i p : Nat) : Option Nat := (m.nextAt p i).join

theorem nextAt_of_lt {i p : Nat} (h : i < m.height p) : m.nextAt p i = some (m.nextOf i p) := by
  have hget : (m.node p).next[i]? = some (m.node p).next[i] := List.getElem?_eq_getElem h
  simp only [nextOf, nextAt, hget, Option.join_some]

/-- Only pointers in the slices `next` differ. -/
structure NextFrame (m m' : SortedMap K V) : Prop where
  items : m'.items = m.items
  allocated : m'.allocated = m.allocated
  head : m'.head = m.head
  tail : m'.tail = m.tail
  level : m'.level = m.level
  size : m'.size = m.size
  node : ∀ p, ∃ next, m'.node p = { m.node p with next := next } ∧ next.length = (m.node p).next.length

namespace NextFrame

theorem refl (m : SortedMap K V) : NextFrame m m := ⟨rfl, rfl, rfl, rfl, rfl, rfl, fun _ => ⟨_, rfl, rfl⟩⟩

theorem trans {m₁ m₂ m₃ : SortedMap K V} (h : NextFrame m₁ m₂) (h' : NextFrame m₂ m₃) : NextFrame m₁ m₃ := by
  refine ⟨h'.items.trans h.items, h'.allocated.trans h.allocated, h'.head.trans h.head, h'.tail.trans h.tail,
    h'.level.trans h.level, h'.size.trans h.size, fun p => ?_⟩
  obtain ⟨n, hn, hl⟩ := h.node p
  obtain ⟨n', hn', hl'⟩ := h'.node p
  refine ⟨n', by rw [hn', hn], hl'.trans ?_⟩
  rw [hn, hl]

theorem height (h : NextFrame m m') (p : Nat) : m'.height p = m.height p := by
  obtain ⟨n, hn, hl⟩ := h.node p
  rw [SortedMap.height, hn]
  exact hl

theorem entry (h : NextFrame m m') (p : Nat) : m'.entry p = m.entry p := by
  obtain ⟨n, hn, _⟩ := h.node p
  simp only [SortedMap.entry, hn]

theorem after (h : NextFrame m m') (p : Nat) : (m'.node p).after = (m.node p).after := by
  obtain ⟨n, hn, _⟩ := h.node p
  rw [hn]

theorem prev (h : NextFrame m m') (p : Nat) : (m'.node p).prev = (m.node p).prev := by
  obtain ⟨n, hn, _⟩ := h.node p
  rw [hn]

end NextFrame

section Direct

variable (m : SortedMap K V) (q : Nat) (x : Option Nat) (p : Nat)

/-- The writes to the direct lists leave entries and levels alone. -/
theorem setAfter_frame : (m.setAfter q x).entry p = m.entry p ∧ (m.setAfter q x).height p = m.height p ∧
    (∀ i, (m.setAfter q x).nextOf i p = m.nextOf i p) ∧ ((m.setAfter q x).node p).prev = (m.node p).prev ∧
    ((m.setAfter q x).node p).after = Function.update (fun r => (m.node r).after) q x p := by
  by_cases h : p = q
  · subst h
    simp [setAfter, entry, height, nextOf, nextAt]
  · simp [setAfter, entry, height, nextOf, nextAt, node_setNode_of_ne m _ h, h]

theorem setPrev_frame : (m.setPrev q x).entry p = m.entry p ∧ (m.setPrev q x).height p = m.height p ∧
    (∀ i, (m.setPrev q x).nextOf i p = m.nextOf i p) ∧ ((m.setPrev q x).node p).after = (m.node p).after ∧
    ((m.setPrev q x).node p).prev = Function.update (fun r => (m.node r).prev) q x p := by
  by_cases h : p = q
  · subst h
    simp [setPrev, entry, height, nextOf, nextAt]
  · simp [setPrev, entry, height, nextOf, nextAt, node_setNode_of_ne m _ h, h]

/-- The four writes that put the node `q` between two neighbours. -/
def splice (m : SortedMap K V) (q pred succ : Nat) : SortedMap K V :=
  (((m.setAfter q (some succ)).setPrev q (some pred)).setAfter pred (some q)).setPrev succ (some q)

theorem splice_frame (pred succ : Nat) : (m.splice q pred succ).entry p = m.entry p ∧
    (m.splice q pred succ).height p = m.height p ∧ ∀ i, (m.splice q pred succ).nextOf i p = m.nextOf i p := by
  refine ⟨?_, ?_, fun i => ?_⟩
  · rw [splice, (setPrev_frame ..).1, (setAfter_frame ..).1, (setPrev_frame ..).1, (setAfter_frame ..).1]
  · rw [splice, (setPrev_frame ..).2.1, (setAfter_frame ..).2.1, (setPrev_frame ..).2.1, (setAfter_frame ..).2.1]
  · rw [splice, (setPrev_frame ..).2.2.1, (setAfter_frame ..).2.2.1, (setPrev_frame ..).2.2.1,
      (setAfter_frame ..).2.2.1]

theorem splice_after (pred succ : Nat) : (fun p => ((m.splice q pred succ).node p).after) =
    Function.update (Function.update (fun p => (m.node p).after) q (some succ)) pred (some q) := by
  funext p
  simp only [splice, (setPrev_frame ..).2.2.2.1, (setAfter_frame ..).2.2.2.2]

theorem splice_prev (pred succ : Nat) : (fun p => ((m.splice q pred succ).node p).prev) =
    Function.update (Function.update (fun p => (m.node p).prev) q (some pred)) succ (some q) := by
  funext p
  simp only [splice, (setAfter_frame ..).2.2.2.1, (setPrev_frame ..).2.2.2.2]

end Direct

/-- The map with a new node in memory and in no list. -/
def alloc (m : SortedMap K V) (key : K) (value : V) (lv : Nat) : SortedMap K V :=
  ({ m with level := max m.level lv, allocated := m.allocated + 1 } : SortedMap K V).setNode m.allocated
    ⟨key, value, List.replicate lv none, none, none⟩

section Alloc

variable (m : SortedMap K V) (k : K) (v : V) (lv : Nat)

@[simp] theorem alloc_new : (m.alloc k v lv).node m.allocated = ⟨k, v, List.replicate lv none, none, none⟩ :=
  node_setNode_self ..

theorem alloc_old {p : Nat} (h : p ≠ m.allocated) : (m.alloc k v lv).node p = m.node p := node_setNode_of_ne _ _ h

theorem alloc_nextOf {p : Nat} (h : p ≠ m.allocated) (i : Nat) : (m.alloc k v lv).nextOf i p = m.nextOf i p := by
  rw [nextOf, nextAt, alloc_old m k v lv h]
  rfl

end Alloc

theorem setNext_spec {p i : Nat} (h : i < m.height p) (q : Option Nat) :
    ∃ m', m.setNext p i q = some m' ∧ NextFrame m m' ∧
      ∀ j, m'.nextOf j = if j = i then Function.update (m.nextOf i) p q else m.nextOf j := by
  refine ⟨_, if_pos h, ⟨rfl, rfl, rfl, rfl, rfl, rfl, fun r => ?_⟩, fun j => ?_⟩
  · by_cases hr : r = p
    · subst hr
      exact ⟨_, node_setNode_self .., List.length_set⟩
    · exact ⟨_, node_setNode_of_ne m _ hr, rfl⟩
  · funext r
    by_cases hr : r = p
    · subst hr
      simp only [nextOf, nextAt, node_setNode_self, List.getElem?_set]
      by_cases hj : j = i
      · subst hj
        have hlt : j < (m.node r).next.length := h
        simp [hlt]
      · simp [hj, Ne.symm hj, nextOf, nextAt]
    · simp only [nextOf, nextAt, node_setNode_of_ne m _ hr]
      split_ifs with hj
      · rw [hj, Function.update_of_ne hr]
        rfl
      · rfl

/-- A loop over the levels whose step `i` rewrites slot `i` and nothing else. -/
theorem foldSlots {f : SortedMap K V → Nat → Option (SortedMap K V)} {g : Nat → (Nat → Option Nat) → Nat → Option Nat}
    {n : Nat} (hstep : ∀ i < n, ∀ m₁, NextFrame m m₁ → m₁.nextOf i = m.nextOf i → ∃ m₂, f m₁ i = some m₂ ∧
      NextFrame m₁ m₂ ∧ ∀ j, m₂.nextOf j = if j = i then g i (m.nextOf i) else m₁.nextOf j) :
    ∃ m', (List.range n).foldlM f m = some m' ∧ NextFrame m m' ∧
      ∀ j, m'.nextOf j = if j < n then g j (m.nextOf j) else m.nextOf j := by
  induction n with
  | zero => exact ⟨m, rfl, .refl m, fun j => by simp⟩
  | succ n ih =>
    obtain ⟨m₁, hfold, hfr, hnext⟩ := ih fun i hi => hstep i (Nat.lt_succ_of_lt hi)
    obtain ⟨m₂, hf, hfr', hnext'⟩ := hstep n (Nat.lt_succ_self n) m₁ hfr (by rw [hnext n, if_neg (lt_irrefl n)])
    refine ⟨m₂, ?_, hfr.trans hfr', fun j => ?_⟩
    · rw [List.range_succ, List.foldlM_append, hfold]
      simp [hf]
    · rw [hnext' j]
      by_cases hj : j = n
      · subst hj
        simp
      · have hiff : j < n + 1 ↔ j < n := by omega
        simp only [if_neg hj, hnext j, hiff]

theorem linkLevels_spec (m : SortedMap K V) (update : List Nat) (newNode n : Nat) (u : Nat → Nat)
    (hu : ∀ i < n, update[i]? = some (u i)) (hh : ∀ i < n, i < m.height (u i)) (hn : n ≤ m.height newNode) :
    ∃ m', (List.range n).foldlM (linkLevel update newNode) m = some m' ∧ NextFrame m m' ∧
      ∀ j, m'.nextOf j = if j < n then
        Function.update (Function.update (m.nextOf j) newNode (m.nextOf j (u j))) (u j) (some newNode)
        else m.nextOf j := by
  apply foldSlots (g := fun i nx => Function.update (Function.update nx newNode (nx (u i))) (u i) (some newNode))
  intro i hi m₁ hfr hslot
  have h1 : i < m₁.height (u i) := by rw [hfr.height]; exact hh i hi
  have h2 : i < m₁.height newNode := by rw [hfr.height]; omega
  obtain ⟨m₂, hs₂, hfr₂, hn₂⟩ := setNext_spec h2 (m₁.nextOf i (u i))
  have h3 : i < m₂.height (u i) := by rw [hfr₂.height]; exact h1
  obtain ⟨m₃, hs₃, hfr₃, hn₃⟩ := setNext_spec h3 (some newNode)
  refine ⟨m₃, ?_, hfr₂.trans hfr₃, fun j => ?_⟩
  · simp only [linkLevel, hu i hi, nextAt_of_lt h1, hs₂, hs₃, Option.bind_eq_bind, Option.bind_some]
  · rw [hn₃ j]
    split_ifs with hj
    · rw [hn₂ i, if_pos rfl, hslot]
    · rw [hn₂ j, if_neg hj]

theorem unlinkLevels_spec (m : SortedMap K V) (update : List Nat) (target n : Nat) (u : Nat → Nat)
    (hu : ∀ i < n, update[i]? = some (u i)) (hh : ∀ i < n, i < m.height (u i))
    (ht : ∀ i < n, m.nextOf i (u i) = some target → i < m.height target) :
    ∃ m', (List.range n).foldlM (unlinkLevel update target) m = some m' ∧ NextFrame m m' ∧
      ∀ j, m'.nextOf j = if j < n then
        (if m.nextOf j (u j) = some target then Function.update (m.nextOf j) (u j) (m.nextOf j target)
          else m.nextOf j)
        else m.nextOf j := by
  apply foldSlots (g := fun i nx => if nx (u i) = some target then Function.update nx (u i) (nx target) else nx)
  intro i hi m₁ hfr hslot
  have h1 : i < m₁.height (u i) := by rw [hfr.height]; exact hh i hi
  by_cases hq : m.nextOf i (u i) = some target
  · have h2 : i < m₁.height target := by rw [hfr.height]; exact ht i hi hq
    obtain ⟨m₂, hs₂, hfr₂, hn₂⟩ := setNext_spec h1 (m₁.nextOf i target)
    refine ⟨m₂, ?_, hfr₂, fun j => ?_⟩
    · simp only [unlinkLevel, hu i hi, nextAt_of_lt h1, nextAt_of_lt h2, hslot, hq, ne_eq, not_true_eq_false,
        if_false, Option.bind_eq_bind, Option.bind_some]
      rw [← hslot]
      exact hs₂
    · rw [hn₂ j, if_pos hq, hslot]
  · refine ⟨m₁, ?_, .refl m₁, fun j => ?_⟩
    · simp only [unlinkLevel, hu i hi, nextAt_of_lt h1, hslot, ne_eq, hq, not_false_eq_true, if_true,
        Option.bind_eq_bind, Option.bind_some]
    · rw [if_neg hq]
      split_ifs with hj
      · rw [hj, hslot]
      · rfl

/-- The nodes of `ps` that reach level `i`. -/
def onLevel (m : SortedMap K V) (ps : List Nat) (i : Nat) : List Nat := ps.filter fun p => decide (i < m.height p)

theorem mem_onLevel {ps : List Nat} {i p : Nat} : p ∈ m.onLevel ps i ↔ p ∈ ps ∧ i < m.height p := by
  simp [onLevel]

theorem onLevel_append (xs ys : List Nat) (i : Nat) :
    m.onLevel (xs ++ ys) i = m.onLevel xs i ++ m.onLevel ys i := List.filter_append ..

/-- The map is made of the nodes `ps`, in the order of their keys: each level is the
sublist of the nodes that reach it, and the two direct lists hold all of them. -/
structure Linked [LinearOrder K] (m : SortedMap K V) (ps : List Nat) : Prop where
  sorted : ps.Pairwise fun p q => (m.node p).key < (m.node q).key
  nodup : (m.head :: m.tail :: ps).Nodup
  bound : ∀ p ∈ m.head :: m.tail :: ps, p < m.allocated
  heights : ∀ p ∈ ps, 0 < m.height p ∧ m.height p ≤ m.level
  level_pos : 0 < m.level
  level_le : m.level ≤ maxLevel
  head_height : m.height m.head = maxLevel
  chain : ∀ i < maxLevel, Chain (m.nextOf i) m.head (m.onLevel ps i) none
  after : Chain (fun p => (m.node p).after) m.head ps (some m.tail)
  prev : Chain (fun p => (m.node p).prev) m.tail ps.reverse (some m.head)
  items : ∀ k p, m.items k = some p ↔ p ∈ ps ∧ (m.node p).key = k
  size : m.size = ps.length

/-- Along a level the loop stops at the last node that it passes. -/
theorem advance_spec {pass : K → Bool} {i : Nat} {L : List Nat} {a fuel : Nat} (h : Chain (m.nextOf i) a L none)
    (hh : ∀ p ∈ a :: L, i < m.height p) (ht : m.tail ∉ L) (hf : L.length < fuel) :
    m.advance pass i fuel a = some ((L.takeWhile fun p => pass (m.node p).key).getLastD a) := by
  induction L generalizing a fuel with
  | nil =>
    obtain ⟨fuel, rfl⟩ : ∃ n, fuel = n + 1 := ⟨fuel - 1, by simp at hf; omega⟩
    have hnil : m.nextOf i a = none := h
    simp [advance, nextAt_of_lt (hh a List.mem_cons_self), hnil]
  | cons p L ih =>
    obtain ⟨fuel, rfl⟩ : ∃ n, fuel = n + 1 := ⟨fuel - 1, by simp at hf; omega⟩
    have hp : p ≠ m.tail := fun he => ht (he ▸ List.mem_cons_self)
    simp only [advance, nextAt_of_lt (hh a List.mem_cons_self), h.1, Option.bind_eq_bind, Option.bind_some, ne_eq, hp,
      not_false_eq_true, true_and]
    cases hpass : pass (m.node p).key with
    | false => simp [hpass]
    | true =>
      simp only [List.takeWhile_cons, hpass, if_true, List.getLastD_cons]
      exact ih h.2 (fun q hq => hh q (List.mem_cons_of_mem a hq)) (fun hm => ht (List.mem_cons_of_mem p hm))
        (by simpa using hf)

/-- `xs` is what a search passes of the nodes, `ys` the rest. -/
structure Cut (m : SortedMap K V) (pass : K → Bool) (xs ys : List Nat) : Prop where
  passed : ∀ p ∈ xs, pass (m.node p).key = true
  rest : ∀ p ∈ ys, pass (m.node p).key = false

namespace Linked

variable [LinearOrder K] {ps xs ys : List Nat} {pass : K → Bool}

theorem head_ne (h : Linked m ps) {p : Nat} (hp : p ∈ ps) : p ≠ m.head ∧ p ≠ m.tail := by
  have hn := h.nodup
  simp only [List.nodup_cons, List.mem_cons, not_or] at hn
  exact ⟨fun he => hn.1.2 (he ▸ hp), fun he => hn.2.1 (he ▸ hp)⟩

/-- Where the search leaves level `i`. -/
theorem advance_cut (h : Linked m (xs ++ ys)) (hc : Cut m pass xs ys) {i a : Nat} (hi : i < maxLevel)
    (ha : a = m.head ∨ a ∈ m.onLevel xs i) :
    m.advance pass i (m.size + 1) a = some ((m.onLevel xs i).getLastD m.head) := by
  have hchain := h.chain i hi
  have hlen : (m.onLevel (xs ++ ys) i).length < m.size + 1 := by
    have hle := List.length_filter_le (fun p => decide (i < m.height p)) (xs ++ ys)
    rw [h.size]
    exact Nat.lt_succ_of_le hle
  have htail : m.tail ∉ m.onLevel (xs ++ ys) i := fun hm => (h.head_ne (mem_onLevel.mp hm).1).2 rfl
  have hys : (m.onLevel ys i).takeWhile (fun p => pass (m.node p).key) = [] := by
    cases hl : m.onLevel ys i with
    | nil => rfl
    | cons y l =>
      have hy : y ∈ ys := (mem_onLevel.mp (hl ▸ List.mem_cons_self : y ∈ m.onLevel ys i)).1
      rw [List.takeWhile_cons_of_neg]
      simp [hc.rest y hy]
  -- what is passed of a stretch of the level that starts inside `xs`
  have htake : ∀ l : List Nat, (∀ p ∈ l, p ∈ xs) →
      (l ++ m.onLevel ys i).takeWhile (fun p => pass (m.node p).key) = l := by
    intro l hl
    rw [List.takeWhile_append_of_pos fun p hp => hc.passed p (hl p hp), hys, List.append_nil]
  have hxs : ∀ p ∈ m.onLevel xs i, p ∈ xs := fun p hp => (mem_onLevel.mp hp).1
  rw [onLevel_append] at hchain hlen htail
  obtain rfl | ha := ha
  · rw [advance_spec hchain ?_ htail hlen, htake _ hxs]
    intro p hp
    obtain rfl | hp := List.mem_cons.mp hp
    · rw [h.head_height]
      exact hi
    · rw [← onLevel_append] at hp
      exact (mem_onLevel.mp hp).2
  · obtain ⟨lo, hi', hsplit⟩ := List.append_of_mem ha
    rw [hsplit, List.append_assoc, List.cons_append] at hchain hlen htail
    have hfrom := (Chain.append_cons.mp hchain).2
    rw [advance_spec hfrom ?_ ?_ ?_, htake, hsplit, getLastD_append_cons]
    · intro p hp
      exact hxs p (hsplit ▸ List.mem_append_right lo (List.mem_cons_of_mem a hp))
    · intro p hp
      have hmem : p ∈ m.onLevel xs i ++ m.onLevel ys i := by
        rw [hsplit, List.append_assoc, List.cons_append]
        exact List.mem_append_right lo hp
      rw [← onLevel_append] at hmem
      exact (mem_onLevel.mp hmem).2
    · intro hm
      exact htail (List.mem_append_right lo (List.mem_cons_of_mem a hm))
    · rw [List.length_append, List.length_cons] at hlen
      omega

theorem search_cut (h : Linked m (xs ++ ys)) (hc : Cut m pass xs ys) {n a : Nat} (hn : n ≤ maxLevel)
    (ha : a = m.head ∨ (a ∈ xs ∧ n ≤ m.height a)) (update : List Nat) :
    m.search pass n a update = some (if n = 0 then a else (m.onLevel xs 0).getLastD m.head,
      (List.range n).map (fun i => (m.onLevel xs i).getLastD m.head) ++ update) := by
  induction n generalizing a update with
  | zero => rfl
  | succ n ih =>
    have hstart : a = m.head ∨ a ∈ m.onLevel xs n := ha.imp_right fun ⟨hx, hl⟩ => mem_onLevel.mpr ⟨hx, hl⟩
    simp only [search, h.advance_cut hc hn hstart, Option.bind_eq_bind, Option.bind_some]
    have hstop : (m.onLevel xs n).getLastD m.head = m.head ∨
        ((m.onLevel xs n).getLastD m.head ∈ xs ∧ n ≤ m.height ((m.onLevel xs n).getLastD m.head)) := by
      refine (List.mem_cons.mp List.getLastD_mem_cons).imp_right fun hmem => ?_
      exact ⟨(mem_onLevel.mp hmem).1, (mem_onLevel.mp hmem).2.le⟩
    rw [ih (Nat.le_of_succ_le hn) hstop]
    by_cases h0 : n = 0
    · subst h0
      rfl
    · simp [h0, List.range_succ]

theorem onLevel_zero (h : Linked m (xs ++ ys)) : m.onLevel xs 0 = xs := by
  apply List.filter_eq_self.mpr
  intro p hp
  simpa using (h.heights p (List.mem_append_left ys hp)).1

/-- The whole search: the node it ends at, and the node where it leaves each level. -/
theorem search_eq (h : Linked m (xs ++ ys)) (hc : Cut m pass xs ys) :
    m.search pass m.level m.head [] = some (xs.getLastD m.head,
      (List.range m.level).map fun i => (m.onLevel xs i).getLastD m.head) := by
  rw [h.search_cut hc h.level_le (.inl rfl), if_neg h.level_pos.ne', h.onLevel_zero, List.append_nil]

end Linked

end SortedMap

end Qotp
