import Qotp.Buffer.SortedMapInsert

namespace Qotp

open Framework

namespace SortedMap

variable {K V : Type} [LinearOrder K] {m m' : SortedMap K V} {xs ys : List Nat} {k : K}

variable {t pred succ : Nat} {u : Nat → Nat}

/-- What `Remove` leaves behind when it unlinks the node `t`. -/
structure Shrunk (m m' : SortedMap K V) (k : K) (t : Nat) (u : Nat → Nat) (pred succ : Nat) : Prop where
  items : m'.items = Function.update m.items k none
  allocated : m'.allocated = m.allocated
  head : m'.head = m.head
  tail : m'.tail = m.tail
  size : m'.size = m.size - 1
  old : ∀ p, m'.entry p = m.entry p ∧ m'.height p = m.height p
  linked : ∀ i, m.nextOf i (u i) = some t → i < m.level →
    m'.nextOf i = Function.update (m.nextOf i) (u i) (m.nextOf i t)
  unlinked : ∀ i, m.nextOf i (u i) ≠ some t → m'.nextOf i = m.nextOf i
  after : (fun p => (m'.node p).after) = Function.update (fun p => (m.node p).after) pred (m.node t).after
  prev : (fun p => (m'.node p).prev) = Function.update (fun p => (m.node p).prev) succ (m.node t).prev
  level_pos : 0 < m'.level
  level_le : m'.level ≤ m.level
  level_top : ∀ i, m'.level ≤ i → i < m.level → m'.nextOf i m.head = none

/-- A pointer list without one of its cells, the pointer to it rewritten. -/
theorem chain_shrunk {nx : Nat → Option Nat} {a : Nat} {lo hi : List Nat} {e : Option Nat}
    (h : Chain nx a (lo ++ t :: hi) e) (hn : (a :: (lo ++ t :: hi)).Nodup) :
    Chain (Function.update nx (lo.getLastD a) (nx t)) a (lo ++ hi) e := by
  apply h.remove hn
  · rw [Function.update_self]
  · intro p _ hne
    rw [Function.update_of_ne hne]

theorem Shrunk.chain (hs : Shrunk m m' k t (fun i => (m.onLevel xs i).getLastD m.head) pred succ)
    (h : Linked m (xs ++ t :: ys)) {i : Nat} (hi : i < maxLevel) :
    Chain (m'.nextOf i) m.head (m'.onLevel (xs ++ ys) i) none := by
  have hlevel : ∀ zs, m'.onLevel zs i = m.onLevel zs i := fun zs =>
    List.filter_congr fun p _ => by rw [(hs.old p).2]
  have hchain := h.chain i hi
  have hnodup : (m.head :: m.onLevel (xs ++ t :: ys) i).Nodup :=
    h.nodup_head.sublist (List.cons_sublist_cons.mpr List.filter_sublist)
  rw [hlevel, onLevel_append]
  rw [onLevel_append] at hchain hnodup
  by_cases ht : i < m.height t
  · have hcons : m.onLevel (t :: ys) i = t :: m.onLevel ys i := List.filter_cons_of_pos (by simpa using ht)
    rw [hcons] at hchain hnodup
    have hlt : i < m.level := ht.trans_le (h.heights t (List.mem_append_right xs List.mem_cons_self)).2
    rw [hs.linked i hchain.at_cut hlt]
    exact chain_shrunk hchain hnodup
  · have hcons : m.onLevel (t :: ys) i = m.onLevel ys i := List.filter_cons_of_neg (by simpa using ht)
    rw [hcons] at hchain
    rw [hs.unlinked i ?_]
    · exact hchain
    · rw [hchain.at_cut, Option.or_none]
      intro hhead
      exact ht (mem_onLevel.mp (List.mem_of_mem_head? hhead)).2

theorem Shrunk.key_eq {u : Nat → Nat} (hs : Shrunk m m' k t u pred succ) (p : Nat) :
    (m'.node p).key = (m.node p).key := congrArg Prod.fst (hs.old p).1

theorem sublist_middle (xs ys : List Nat) (t : Nat) : (xs ++ ys).Sublist (xs ++ t :: ys) :=
  (List.sublist_cons_self t ys).append_left xs

/-- A node above the new top level would still hang on the head there. -/
theorem Shrunk.heights (hs : Shrunk m m' k t (fun i => (m.onLevel xs i).getLastD m.head) pred succ)
    (h : Linked m (xs ++ t :: ys)) {p : Nat} (hp : p ∈ xs ++ ys) : 0 < m'.height p ∧ m'.height p ≤ m'.level := by
  obtain ⟨hpos, hle⟩ := h.heights p ((sublist_middle xs ys t).mem hp)
  rw [(hs.old p).2]
  refine ⟨hpos, not_lt.mp fun hlt => ?_⟩
  have hnil := hs.level_top m'.level le_rfl (hlt.trans_le hle)
  have hc := hs.chain h ((hlt.trans_le hle).trans_le h.level_le)
  have hmem : p ∈ m'.onLevel (xs ++ ys) m'.level := mem_onLevel.mpr ⟨hp, by rwa [(hs.old p).2]⟩
  cases hl : m'.onLevel (xs ++ ys) m'.level with
  | nil =>
    rw [hl] at hmem
    cases hmem
  | cons q l =>
    rw [hl] at hc
    exact absurd (hnil.symm.trans hc.1) nofun

theorem Shrunk.items_iff {u : Nat → Nat} (hs : Shrunk m m' k t u pred succ) (h : Linked m (xs ++ t :: ys))
    (hk : (m.node t).key = k) (j : K) (p : Nat) :
    m'.items j = some p ↔ p ∈ xs ++ ys ∧ (m'.node p).key = j := by
  have hnot := h.not_mem_middle
  rw [hs.items, hs.key_eq]
  by_cases hj : j = k
  · subst hj
    rw [Function.update_self]
    refine iff_of_false nofun ?_
    rintro ⟨hp, hpk⟩
    have hpt : m.items j = some p := (h.items j p).mpr ⟨(sublist_middle xs ys t).mem hp, hpk⟩
    have htt : m.items j = some t := (h.items j t).mpr ⟨List.mem_append_right xs List.mem_cons_self, hk⟩
    rw [Option.some.inj (htt.symm.trans hpt)] at hnot
    exact hnot hp
  · rw [Function.update_of_ne hj, h.items, mem_middle]
    constructor
    · rintro ⟨rfl | hp, hpk⟩
      · exact absurd (hpk.symm.trans hk) hj
      · exact ⟨hp, hpk⟩
    · rintro ⟨hp, hpk⟩
      exact ⟨.inr hp, hpk⟩

/-- The map without the node is linked again. -/
theorem Linked.shrunk (h : Linked m (xs ++ t :: ys)) (hk : (m.node t).key = k)
    (hs : Shrunk m m' k t (fun i => (m.onLevel xs i).getLastD m.head) (xs.getLastD m.head) (ys.headD m.tail)) :
    Linked m' (xs ++ ys) where
  sorted := (h.sorted.sublist (sublist_middle xs ys t)).imp fun hlt => by rwa [hs.key_eq, hs.key_eq]
  nodup := by
    rw [hs.head, hs.tail]
    exact h.nodup.sublist (List.cons_sublist_cons.mpr (List.cons_sublist_cons.mpr (sublist_middle xs ys t)))
  bound := by
    rw [hs.head, hs.tail, hs.allocated]
    intro p hp
    apply h.bound p
    simp only [List.mem_cons] at hp ⊢
    exact hp.imp_right fun hp => hp.imp_right fun hp => (sublist_middle xs ys t).mem hp
  heights p hp := hs.heights h hp
  level_pos := hs.level_pos
  level_le := hs.level_le.trans h.level_le
  head_height := by
    rw [hs.head, (hs.old m.head).2]
    exact h.head_height
  chain i hi := by
    rw [hs.head]
    exact hs.chain h hi
  after := by
    rw [hs.head, hs.tail, hs.after]
    exact chain_shrunk h.after h.nodup_head
  prev := by
    have hprev := h.prev
    have hn := h.nodup_tail
    rw [List.reverse_append, List.reverse_cons, List.append_assoc, List.singleton_append] at hprev hn
    rw [hs.head, hs.tail, hs.prev, List.reverse_append, ← getLastD_reverse]
    exact chain_shrunk hprev hn
  items := hs.items_iff h hk
  size := by
    rw [hs.size, h.size, List.length_append, List.length_append, List.length_cons]
    omega

omit [LinearOrder K] in
theorem shrinkLevel_spec (m : SortedMap K V) {n : Nat} (hn : 0 < n) (hle : n ≤ m.height m.head) :
    ∃ r, m.shrinkLevel n = some r ∧ 0 < r ∧ r ≤ n ∧ ∀ i, r ≤ i → i < n → m.nextOf i m.head = none := by
  induction n with
  | zero => cases hn
  | succ n ih =>
    cases n with
    | zero => exact ⟨1, rfl, Nat.one_pos, le_rfl, fun i h1 h2 => by omega⟩
    | succ n =>
      have hslot : m.nextAt m.head (n + 1) = some (m.nextOf (n + 1) m.head) := nextAt_of_lt hle
      simp only [shrinkLevel, hslot, Option.bind_eq_bind, Option.bind_some]
      cases hnx : m.nextOf (n + 1) m.head with
      | some q => exact ⟨n + 2, rfl, by omega, le_rfl, fun i h1 h2 => by omega⟩
      | none =>
        obtain ⟨r, hr, hpos, hrle, htop⟩ := ih (Nat.succ_pos n) (Nat.le_of_succ_le hle)
        refine ⟨r, hr, hpos, Nat.le_succ_of_le hrle, fun i h1 h2 => ?_⟩
        by_cases hi : i = n + 1
        · rw [hi, hnx]
        · exact htop i h1 (by omega)

/-- The two writes that take the node `t` out of the direct lists. -/
def unsplice (m : SortedMap K V) (t pred succ : Nat) : SortedMap K V :=
  (m.setAfter pred (m.node t).after).setPrev succ (m.node t).prev

omit [LinearOrder K] in
theorem unsplice_frame (m : SortedMap K V) (t pred succ p : Nat) : (m.unsplice t pred succ).entry p = m.entry p ∧
    (m.unsplice t pred succ).height p = m.height p ∧ ∀ i, (m.unsplice t pred succ).nextOf i p = m.nextOf i p := by
  refine ⟨?_, ?_, fun i => ?_⟩
  · rw [unsplice, (setPrev_frame ..).1, (setAfter_frame ..).1]
  · rw [unsplice, (setPrev_frame ..).2.1, (setAfter_frame ..).2.1]
  · rw [unsplice, (setPrev_frame ..).2.2.1, (setAfter_frame ..).2.2.1]

namespace Linked

/-- A search for the key of `t` passes the nodes before `t`. -/
theorem cut_at (h : Linked m (xs ++ t :: ys)) (hk : (m.node t).key = k) :
    Cut m (fun j => decide (j < k)) xs (t :: ys) := by
  obtain ⟨_, htail, hcross⟩ := List.pairwise_append.mp h.sorted
  refine ⟨fun p hp => ?_, fun p hp => ?_⟩
  · simpa [← hk] using hcross p hp t List.mem_cons_self
  · obtain rfl | hp := List.mem_cons.mp hp
    · simp [hk]
    · simpa [← hk] using ((List.pairwise_cons.mp htail).1 p hp).le

theorem prev_at (h : Linked m (xs ++ t :: ys)) : (m.node t).prev = xs.getLast?.or (some m.head) := h.prev_cut

theorem after_at (h : Linked m (xs ++ t :: ys)) : (m.node t).after = ys.head?.or (some m.tail) :=
  (show Chain _ t ([] ++ ys) _ from (Chain.append_cons.mp h.after).2).at_cut

/-- The search ends right before `t`. -/
theorem first_at (h : Linked m (xs ++ t :: ys)) : m.nextAt (xs.getLastD m.head) 0 = some (some t) := by
  have hheight := h.stop_height (i := 0) (by decide)
  have hchain := h.chain 0 (by decide)
  rw [onLevel_append, h.onLevel_zero] at hchain
  rw [h.onLevel_zero] at hheight
  have htop : m.onLevel (t :: ys) 0 = t :: m.onLevel ys 0 :=
    List.filter_cons_of_pos (by simpa using (h.heights t (List.mem_append_right xs List.mem_cons_self)).1)
  rw [htop] at hchain
  rw [nextAt_of_lt hheight, hchain.at_cut]
  rfl

theorem unlinked (h : Linked m (xs ++ t :: ys)) :
    ∃ m', (List.range m.level).foldlM (unlinkLevel
        ((List.range m.level).map fun i => (m.onLevel xs i).getLastD m.head) t) m = some m' ∧ NextFrame m m' ∧
      ∀ j, m'.nextOf j = if j < m.level then
        (if m.nextOf j ((m.onLevel xs j).getLastD m.head) = some t
          then Function.update (m.nextOf j) ((m.onLevel xs j).getLastD m.head) (m.nextOf j t) else m.nextOf j)
        else m.nextOf j := by
  have hlevel : ∀ i < m.level, i < maxLevel := fun i hi => hi.trans_le h.level_le
  refine unlinkLevels_spec m _ t m.level (fun i => (m.onLevel xs i).getLastD m.head) (fun i hi => by simp [hi])
    (fun i hi => h.stop_height (hlevel i hi)) fun i hi hq => ?_
  have hchain := h.chain i (hlevel i hi)
  rw [onLevel_append] at hchain
  rw [hchain.at_cut, Option.or_none] at hq
  exact (mem_onLevel.mp (List.mem_of_mem_head? hq)).2

end Linked

/-- The node out of its levels, then out of the direct lists. -/
theorem shrunk_unsplice {m₂ : SortedMap K V} {r : Nat} (hfr : NextFrame m m₂)
    (hnext : ∀ j, m₂.nextOf j = if j < m.level then
      (if m.nextOf j (u j) = some t then Function.update (m.nextOf j) (u j) (m.nextOf j t) else m.nextOf j)
      else m.nextOf j)
    (pred succ : Nat) (hpos : 0 < r) (hle : r ≤ m.level)
    (htop : ∀ i, r ≤ i → i < m.level → (m₂.unsplice t pred succ).nextOf i m.head = none) :
    Shrunk m { m₂.unsplice t pred succ with
      level := r, items := Function.update m₂.items k none, size := m₂.size - 1 } k t u pred succ where
  items := by rw [hfr.items]
  allocated := hfr.allocated
  head := hfr.head
  tail := hfr.tail
  size := congrArg (· - 1) hfr.size
  old p := by
    obtain ⟨hentry, hheight, _⟩ := unsplice_frame m₂ t pred succ p
    exact ⟨hentry.trans (hfr.entry p), hheight.trans (hfr.height p)⟩
  linked i hq hi := by
    funext p
    refine ((unsplice_frame m₂ t pred succ p).2.2 i).trans ?_
    rw [hnext i, if_pos hi, if_pos hq]
  unlinked i hq := by
    funext p
    refine ((unsplice_frame m₂ t pred succ p).2.2 i).trans ?_
    rw [hnext i, if_neg hq, ite_self]
  after := by
    funext p
    change ((m₂.unsplice t pred succ).node p).after = _
    rw [unsplice, (setPrev_frame ..).2.2.2.1, (setAfter_frame ..).2.2.2.2, hfr.after t]
    simp only [Function.update_apply, hfr.after]
  prev := by
    funext p
    change ((m₂.unsplice t pred succ).node p).prev = _
    rw [unsplice, (setPrev_frame ..).2.2.2.2, hfr.prev t]
    simp only [Function.update_apply, (setAfter_frame ..).2.2.2.1, hfr.prev]
  level_pos := hpos
  level_le := hle
  level_top := htop

theorem Linked.remove_shrunk (h : Linked m (xs ++ t :: ys)) (hk : (m.node t).key = k) :
    ∃ m', m.remove k = some (m', some (m.node t).value) ∧
      Shrunk m m' k t (fun i => (m.onLevel xs i).getLastD m.head) (xs.getLastD m.head) (ys.headD m.tail) := by
  have hitem : m.items k = some t := (h.items k t).mpr ⟨List.mem_append_right xs List.mem_cons_self, hk⟩
  obtain ⟨m₂, hunlink, hfr, hnext⟩ := h.unlinked
  have hprev : (m₂.node t).prev = some (xs.getLastD m.head) := by
    rw [hfr.prev, h.prev_at, getLast?_or_some]
  have hafter : (m₂.node t).after = some (ys.headD m.tail) := by
    rw [hfr.after, h.after_at]
    cases ys <;> rfl
  have hafter' : ((m₂.setAfter (xs.getLastD m.head) (m₂.node t).after).node t).after = some (ys.headD m.tail) := by
    rw [(setAfter_frame ..).2.2.2.2, Function.update_apply]
    split_ifs
    · exact hafter
    · exact hafter
  have hlast : (m₂.setAfter (xs.getLastD m.head) (m₂.node t).after).setPrev (ys.headD m.tail)
      ((m₂.setAfter (xs.getLastD m.head) (m₂.node t).after).node t).prev =
      m₂.unsplice t (xs.getLastD m.head) (ys.headD m.tail) := by
    rw [(setAfter_frame ..).2.2.2.1]
    rfl
  have hframe := unsplice_frame m₂ t (xs.getLastD m.head) (ys.headD m.tail)
  have hheight : m.level ≤ (m₂.unsplice t (xs.getLastD m.head) (ys.headD m.tail)).height
      (m₂.unsplice t (xs.getLastD m.head) (ys.headD m.tail)).head := by
    rw [(hframe _).2.1, hfr.height]
    exact h.level_le.trans_eq (h.head_height.symm.trans (congrArg m.height hfr.head.symm))
  obtain ⟨r, hr, hpos, hle, htop⟩ := shrinkLevel_spec _ h.level_pos hheight
  have hvalue : ((m₂.unsplice t (xs.getLastD m.head) (ys.headD m.tail)).node t).value = (m.node t).value :=
    congrArg Prod.snd ((hframe t).1.trans (hfr.entry t))
  have hlevel : (m₂.unsplice t (xs.getLastD m.head) (ys.headD m.tail)).level = m.level := hfr.level
  refine ⟨{ m₂.unsplice t (xs.getLastD m.head) (ys.headD m.tail) with
    level := r, items := Function.update m₂.items k none, size := m₂.size - 1 }, ?_, ?_⟩
  · simp only [remove, hitem, h.search_eq (h.cut_at hk), h.first_at, if_true, hunlink, hprev, hafter', hlast, hlevel,
      hr, hvalue, Option.bind_eq_bind, Option.bind_some]
    rfl
  · rw [show (m₂.unsplice t (xs.getLastD m.head) (ys.headD m.tail)).head = m.head from hfr.head] at htop
    exact shrunk_unsplice hfr hnext _ _ hpos hle htop

end SortedMap

end Qotp
