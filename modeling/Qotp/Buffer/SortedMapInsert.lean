import Qotp.Buffer.SortedMapSpec

namespace Qotp

open Framework

namespace SortedMap

variable {K V : Type} [LinearOrder K] {m m' : SortedMap K V} {ps xs ys : List Nat} {k : K} {v : V}

namespace Linked

/-- The nodes a downward closed test passes come first. -/
theorem exists_cut (h : Linked m ps) (pass : K → Bool) (hdown : ∀ a b, a < b → pass b = true → pass a = true) :
    ∃ xs ys, ps = xs ++ ys ∧ Cut m pass xs ys := by
  obtain ⟨_, hsplit⟩ := takeWhile_eq_filter_of_pairwise (p := fun p => pass (m.node p).key)
    (h.sorted.imp fun hlt => hdown _ _ hlt)
  refine ⟨_, _, hsplit.symm, fun p hp => (List.mem_filter.mp hp).2, fun p hp => ?_⟩
  simpa using (List.mem_filter.mp hp).2

/-- The pointer `after` at the end of a front part. -/
theorem after_cut (h : Linked m (xs ++ ys)) :
    (m.node (xs.getLastD m.head)).after = ys.head?.or (some m.tail) := h.after.at_cut

/-- The pointer `prev` at the start of a back part. -/
theorem prev_cut (h : Linked m (xs ++ ys)) :
    (m.node (ys.headD m.tail)).prev = xs.getLast?.or (some m.head) := by
  have hprev := h.prev
  rw [List.reverse_append] at hprev
  have hcut := hprev.at_cut
  rwa [getLastD_reverse, List.head?_reverse] at hcut

end Linked

section Insert

variable {lv pred succ : Nat} {u : Nat → Nat}

/-- What `Put` leaves behind when the key is new: the node `m.allocated`, in the levels
below `lv` behind the nodes `u`, and in the direct lists between `pred` and `succ`. -/
structure Grown (m m' : SortedMap K V) (k : K) (v : V) (lv : Nat) (u : Nat → Nat) (pred succ : Nat) : Prop where
  items : m'.items = Function.update m.items k (some m.allocated)
  allocated : m'.allocated = m.allocated + 1
  head : m'.head = m.head
  tail : m'.tail = m.tail
  level : m'.level = max m.level lv
  size : m'.size = m.size + 1
  old : ∀ p ≠ m.allocated, m'.entry p = m.entry p ∧ m'.height p = m.height p
  new : m'.entry m.allocated = (k, v) ∧ m'.height m.allocated = lv
  below : ∀ i < lv, m'.nextOf i =
    Function.update (Function.update (m.nextOf i) m.allocated (m.nextOf i (u i))) (u i) (some m.allocated)
  above : ∀ i, lv ≤ i → ∀ p ≠ m.allocated, m'.nextOf i p = m.nextOf i p
  after : (fun p => (m'.node p).after) = Function.update (Function.update (fun p => (m.node p).after)
    m.allocated (some succ)) pred (some m.allocated)
  prev : (fun p => (m'.node p).prev) = Function.update (Function.update (fun p => (m.node p).prev)
    m.allocated (some pred)) succ (some m.allocated)

/-- A pointer list with a new cell between two parts of it, both pointers written. -/
theorem chain_grown {nx : Nat → Option Nat} {a q : Nat} {lo hi : List Nat} {e : Option Nat}
    (h : Chain nx a (lo ++ hi) e) (hn : (a :: (lo ++ hi)).Nodup) (hq : ∀ p ∈ a :: (lo ++ hi), p ≠ q) :
    Chain (Function.update (Function.update nx q (nx (lo.getLastD a))) (lo.getLastD a) (some q)) a
      (lo ++ q :: hi) e := by
  have hlast := hq _ (getLastD_mem_append lo hi a)
  apply h.insert hn
  · rw [Function.update_of_ne hlast.symm, Function.update_self]
  · rw [Function.update_self]
  · intro p hp hne
    rw [Function.update_of_ne hne, Function.update_of_ne (hq p hp)]

theorem Linked.fresh (h : Linked m ps) : ∀ p ∈ m.head :: m.tail :: ps, p ≠ m.allocated :=
  fun p hp => (h.bound p hp).ne

theorem Linked.nodup_head (h : Linked m ps) : (m.head :: ps).Nodup :=
  h.nodup.sublist (List.cons_sublist_cons.mpr (List.sublist_cons_self _ _))

theorem Linked.not_mem_middle {t : Nat} (h : Linked m (xs ++ t :: ys)) : t ∉ xs ++ ys :=
  (List.nodup_cons.mp (List.nodup_middle.mp (List.nodup_cons.mp h.nodup_head).2)).1

theorem Linked.nodup_tail (h : Linked m ps) : (m.tail :: ps.reverse).Nodup := by
  have hn := (List.nodup_cons.mp h.nodup).2
  rw [List.nodup_cons] at hn ⊢
  exact ⟨fun hm => hn.1 (List.mem_reverse.mp hm), List.nodup_reverse.mpr hn.2⟩

theorem Grown.onLevel_eq (hg : Grown m m' k v lv u pred succ) (hne : ∀ p ∈ xs ++ ys, p ≠ m.allocated) (i : Nat) :
    m'.onLevel (xs ++ m.allocated :: ys) i =
      m.onLevel xs i ++ (if i < lv then [m.allocated] else []) ++ m.onLevel ys i := by
  have hold : ∀ zs : List Nat, (∀ p ∈ zs, p ∈ xs ++ ys) → m'.onLevel zs i = m.onLevel zs i := fun zs hz =>
    List.filter_congr fun p hp => by rw [(hg.old p (hne p (hz p hp))).2]
  rw [onLevel_append, hold xs fun p => List.mem_append_left ys]
  have hcons : m'.onLevel (m.allocated :: ys) i = (if i < lv then [m.allocated] else []) ++ m'.onLevel ys i := by
    simp only [onLevel, List.filter_cons, hg.new.2, decide_eq_true_eq]
    split_ifs <;> rfl
  rw [hcons, hold ys fun p => List.mem_append_right xs, List.append_assoc]

/-- Every level and both direct lists of the grown map. -/
theorem Grown.chain (hg : Grown m m' k v lv (fun i => (m.onLevel xs i).getLastD m.head) pred succ)
    (h : Linked m (xs ++ ys)) {i : Nat} (hi : i < maxLevel) :
    Chain (m'.nextOf i) m.head (m'.onLevel (xs ++ m.allocated :: ys) i) none := by
  have hfresh : ∀ p ∈ m.head :: (xs ++ ys), p ≠ m.allocated := fun p hp => h.fresh p (by
    obtain rfl | hp := List.mem_cons.mp hp
    · exact List.mem_cons_self
    · exact List.mem_cons_of_mem _ (List.mem_cons_of_mem _ hp))
  have hchain := h.chain i hi
  have hsub : (m.head :: m.onLevel (xs ++ ys) i).Sublist (m.head :: (xs ++ ys)) :=
    List.cons_sublist_cons.mpr List.filter_sublist
  have hnodup := h.nodup_head.sublist hsub
  have hlevel : ∀ p ∈ m.head :: m.onLevel (xs ++ ys) i, p ≠ m.allocated := fun p hp => hfresh p (hsub.mem hp)
  rw [hg.onLevel_eq fun p hp => hfresh p (List.mem_cons_of_mem _ hp)]
  rw [onLevel_append] at hchain hnodup hlevel
  by_cases hl : i < lv
  · rw [if_pos hl, List.append_assoc, List.singleton_append, hg.below i hl]
    exact chain_grown hchain hnodup hlevel
  · rw [if_neg hl, List.append_nil]
    exact hchain.congr fun p hp => hg.above i (not_lt.mp hl) p (hlevel p hp)

theorem Linked.entries_fresh (h : Linked m (xs ++ ys)) : ∀ p ∈ xs ++ ys, p ≠ m.allocated := fun p hp =>
  h.fresh p (List.mem_cons_of_mem _ (List.mem_cons_of_mem _ hp))

theorem Grown.key_old (hg : Grown m m' k v lv u pred succ) (h : Linked m (xs ++ ys)) :
    ∀ p ∈ xs ++ ys, (m'.node p).key = (m.node p).key := fun p hp =>
  congrArg Prod.fst (hg.old p (h.entries_fresh p hp)).1

theorem Grown.key_new (hg : Grown m m' k v lv u pred succ) : (m'.node m.allocated).key = k :=
  congrArg Prod.fst hg.new.1

theorem mem_middle {a p : Nat} : p ∈ xs ++ a :: ys ↔ p = a ∨ p ∈ xs ++ ys := by
  simp only [List.mem_append, List.mem_cons]
  tauto

theorem Grown.sorted (hg : Grown m m' k v lv u pred succ) (h : Linked m (xs ++ ys))
    (hxk : ∀ p ∈ xs, (m.node p).key < k) (hyk : ∀ p ∈ ys, k < (m.node p).key) :
    (xs ++ m.allocated :: ys).Pairwise fun p q => (m'.node p).key < (m'.node q).key := by
  have hkey := hg.key_old h
  obtain ⟨hxs, hys, hcross⟩ := List.pairwise_append.mp h.sorted
  refine List.pairwise_append.mpr ⟨?_, List.pairwise_cons.mpr ⟨?_, ?_⟩, ?_⟩
  · refine hxs.imp_of_mem fun hp hq hlt => ?_
    rwa [hkey _ (List.mem_append_left ys hp), hkey _ (List.mem_append_left ys hq)]
  · intro q hq
    rw [hg.key_new, hkey q (List.mem_append_right xs hq)]
    exact hyk q hq
  · refine hys.imp_of_mem fun hp hq hlt => ?_
    rwa [hkey _ (List.mem_append_right xs hp), hkey _ (List.mem_append_right xs hq)]
  · intro p hp q hq
    rw [hkey p (List.mem_append_left ys hp)]
    obtain rfl | hq := List.mem_cons.mp hq
    · rw [hg.key_new]
      exact hxk p hp
    · rw [hkey q (List.mem_append_right xs hq)]
      exact hcross p hp q hq

theorem Grown.items_iff (hg : Grown m m' k v lv u pred succ) (h : Linked m (xs ++ ys))
    (hxk : ∀ p ∈ xs, (m.node p).key < k) (hyk : ∀ p ∈ ys, k < (m.node p).key) (j : K) (p : Nat) :
    m'.items j = some p ↔ p ∈ xs ++ m.allocated :: ys ∧ (m'.node p).key = j := by
  have hkey := hg.key_old h
  rw [hg.items, mem_middle]
  by_cases hj : j = k
  · subst hj
    rw [Function.update_self, Option.some.injEq]
    constructor
    · rintro rfl
      exact ⟨.inl rfl, hg.key_new⟩
    · rintro ⟨rfl | hp, hpk⟩
      · rfl
      · rw [hkey p hp] at hpk
        obtain hp | hp := List.mem_append.mp hp
        · exact absurd hpk (hxk p hp).ne
        · exact absurd hpk (hyk p hp).ne'
  · rw [Function.update_of_ne hj, h.items]
    constructor
    · rintro ⟨hp, hpk⟩
      exact ⟨.inr hp, (hkey p hp).trans hpk⟩
    · rintro ⟨rfl | hp, hpk⟩
      · exact absurd (hpk.symm.trans hg.key_new) hj
      · exact ⟨hp, (hkey p hp).symm.trans hpk⟩

theorem Grown.after_chain (hg : Grown m m' k v lv u (xs.getLastD m.head) (ys.headD m.tail))
    (h : Linked m (xs ++ ys)) :
    Chain (fun p => (m'.node p).after) m.head (xs ++ m.allocated :: ys) (some m.tail) := by
  have hcell : (fun p => (m.node p).after) (xs.getLastD m.head) = some (ys.headD m.tail) := by
    simp only [h.after_cut]
    cases ys <;> rfl
  rw [hg.after, ← hcell]
  refine chain_grown h.after h.nodup_head fun p hp => h.fresh p ?_
  obtain rfl | hp := List.mem_cons.mp hp
  · exact List.mem_cons_self
  · exact List.mem_cons_of_mem _ (List.mem_cons_of_mem _ hp)

theorem Grown.prev_chain (hg : Grown m m' k v lv u (xs.getLastD m.head) (ys.headD m.tail))
    (h : Linked m (xs ++ ys)) :
    Chain (fun p => (m'.node p).prev) m.tail (xs ++ m.allocated :: ys).reverse (some m.head) := by
  have hprev := h.prev
  have hn := h.nodup_tail
  rw [List.reverse_append] at hprev hn
  have hcell : (fun p => (m.node p).prev) (ys.reverse.getLastD m.tail) = some (xs.getLastD m.head) := by
    rw [getLastD_reverse]
    simp only [h.prev_cut, List.getLastD_eq_getLast?]
    cases xs.getLast? <;> rfl
  rw [hg.prev, List.reverse_append, List.reverse_cons, List.append_assoc, List.singleton_append, ← hcell,
    ← getLastD_reverse]
  refine chain_grown hprev hn fun p hp => h.fresh p ?_
  rw [← List.reverse_append] at hp
  obtain rfl | hp := List.mem_cons.mp hp
  · exact List.mem_cons_of_mem _ List.mem_cons_self
  · exact List.mem_cons_of_mem _ (List.mem_cons_of_mem _ (List.mem_reverse.mp hp))

/-- The grown map is linked again. -/
theorem Linked.grown (h : Linked m (xs ++ ys)) (hxk : ∀ p ∈ xs, (m.node p).key < k)
    (hyk : ∀ p ∈ ys, k < (m.node p).key) (hl : 0 < lv) (hl' : lv ≤ maxLevel)
    (hg : Grown m m' k v lv (fun i => (m.onLevel xs i).getLastD m.head) (xs.getLastD m.head) (ys.headD m.tail)) :
    Linked m' (xs ++ m.allocated :: ys) where
  sorted := hg.sorted h hxk hyk
  nodup := by
    have hmove : (m.head :: m.tail :: xs ++ m.allocated :: ys).Nodup :=
      List.nodup_middle.mpr (List.nodup_cons.mpr ⟨fun hm => h.fresh _ hm rfl, h.nodup⟩)
    rw [hg.head, hg.tail]
    exact hmove
  bound := by
    rw [hg.head, hg.tail, hg.allocated]
    intro p hp
    have hb := h.bound p
    simp only [List.mem_cons, mem_middle] at hp hb
    rcases hp with rfl | rfl | rfl | hp
    · exact Nat.lt_succ_of_lt (hb (.inl rfl))
    · exact Nat.lt_succ_of_lt (hb (.inr (.inl rfl)))
    · exact Nat.lt_succ_self _
    · exact Nat.lt_succ_of_lt (hb (.inr (.inr hp)))
  heights := by
    intro p hp
    rw [hg.level]
    obtain rfl | hp := mem_middle.mp hp
    · rw [hg.new.2]
      exact ⟨hl, le_max_right _ _⟩
    · rw [(hg.old p (h.entries_fresh p hp)).2]
      exact ⟨(h.heights p hp).1, (h.heights p hp).2.trans (le_max_left _ _)⟩
  level_pos := by
    rw [hg.level]
    exact h.level_pos.trans_le (le_max_left _ _)
  level_le := by
    rw [hg.level]
    exact max_le h.level_le hl'
  head_height := by
    rw [hg.head, (hg.old m.head (h.fresh _ List.mem_cons_self)).2]
    exact h.head_height
  chain i hi := by
    rw [hg.head]
    exact hg.chain h hi
  after := by
    rw [hg.head, hg.tail]
    exact hg.after_chain h
  prev := by
    rw [hg.head, hg.tail]
    exact hg.prev_chain h
  items := hg.items_iff h hxk hyk
  size := by
    rw [hg.size, h.size, List.length_append, List.length_append, List.length_cons]
    omega

theorem levelLoop_spec (fuel pos level : Nat) (hpos : 0 < pos) (hf : pos ≤ fuel) :
    ∃ r, levelLoop fuel pos level = some r ∧ level ≤ r := by
  induction fuel generalizing pos level with
  | zero => omega
  | succ fuel ih =>
    unfold levelLoop nodesPerLevel
    by_cases h4 : pos % 4 = 0
    · obtain ⟨r, hr, hle⟩ := ih (pos / 4) (level + 1) (by omega) (by omega)
      rw [if_pos h4]
      exact ⟨r, hr, by omega⟩
    · rw [if_neg h4]
      exact ⟨level, rfl, le_rfl⟩

omit [LinearOrder K] in
theorem getNodeLevel_spec (m : SortedMap K V) :
    ∃ lv, m.getNodeLevel = some lv ∧ 0 < lv ∧ lv ≤ maxLevel := by
  obtain ⟨r, hr, hle⟩ := levelLoop_spec (m.size + 1) (m.size + 1) 1 (by omega) le_rfl
  rw [getNodeLevel, hr, Option.map_some]
  refine ⟨_, rfl, ?_⟩
  split_ifs with h
  · decide
  · omega

/-- The nodes behind which a new node of level `lv` goes. -/
theorem Linked.update_getElem (h : Linked m (xs ++ ys)) {lv i : Nat} (hi : i < lv) :
    ((List.range m.level).map (fun i => (m.onLevel xs i).getLastD m.head) ++
      List.replicate (lv - m.level) m.head)[i]? = some ((m.onLevel xs i).getLastD m.head) := by
  by_cases hl : i < m.level
  · rw [List.getElem?_append_left (by simpa using hl)]
    simp [hl]
  · have hnil : m.onLevel xs i = [] := by
      apply List.filter_eq_nil_iff.mpr
      intro p hp
      have hle := (h.heights p (List.mem_append_left ys hp)).2
      simp only [decide_eq_true_eq]
      omega
    rw [List.getElem?_append_right (by simpa using hl), hnil]
    simp only [List.length_map, List.length_range]
    rw [List.getElem?_replicate, if_pos (by omega)]
    rfl

theorem Linked.stop_fresh (h : Linked m (xs ++ ys)) (i : Nat) :
    (m.onLevel xs i).getLastD m.head ≠ m.allocated := by
  apply h.fresh
  obtain he | hmem := List.mem_cons.mp (List.getLastD_mem_cons (l := m.onLevel xs i) (a := m.head))
  · rw [he]
    exact List.mem_cons_self
  · exact List.mem_cons_of_mem _ (List.mem_cons_of_mem _ (List.mem_append_left ys (mem_onLevel.mp hmem).1))

/-- A node where a level is left has a slot for that level. -/
theorem Linked.stop_height (h : Linked m (xs ++ ys)) {i : Nat} (hi : i < maxLevel) :
    i < m.height ((m.onLevel xs i).getLastD m.head) := by
  obtain he | hmem := List.mem_cons.mp (List.getLastD_mem_cons (l := m.onLevel xs i) (a := m.head))
  · rw [he, h.head_height]
    exact hi
  · exact (mem_onLevel.mp hmem).2

/-- The new node in its levels, then in the direct lists. -/
theorem grown_splice {m₂ : SortedMap K V} (hfr : NextFrame (m.alloc k v lv) m₂)
    (hnext : ∀ j, m₂.nextOf j = if j < lv then
      Function.update (Function.update ((m.alloc k v lv).nextOf j) m.allocated ((m.alloc k v lv).nextOf j (u j)))
        (u j) (some m.allocated)
      else (m.alloc k v lv).nextOf j)
    (hu : ∀ i, u i ≠ m.allocated) (pred succ : Nat) :
    Grown m { m₂.splice m.allocated pred succ with
      items := Function.update m₂.items k (some m.allocated), size := m₂.size + 1 } k v lv u pred succ where
  items := by rw [hfr.items]; rfl
  allocated := hfr.allocated
  head := hfr.head
  tail := hfr.tail
  level := hfr.level
  size := congrArg (· + 1) hfr.size
  old p hp := by
    obtain ⟨hentry, hheight, _⟩ := splice_frame m₂ m.allocated p pred succ
    refine ⟨hentry.trans ?_, hheight.trans ?_⟩
    · rw [hfr.entry, entry, alloc_old m k v lv hp]
      rfl
    · rw [hfr.height, height, alloc_old m k v lv hp]
      rfl
  new := by
    obtain ⟨hentry, hheight, _⟩ := splice_frame m₂ m.allocated m.allocated pred succ
    refine ⟨hentry.trans ?_, hheight.trans ?_⟩
    · rw [hfr.entry, entry, alloc_new]
    · rw [hfr.height, height, alloc_new, List.length_replicate]
  below i hi := by
    funext p
    refine ((splice_frame m₂ m.allocated p pred succ).2.2 i).trans ?_
    rw [hnext i, if_pos hi, alloc_nextOf m k v lv (hu i)]
    by_cases hp : p = m.allocated
    · subst hp
      rw [Function.update_of_ne (hu i).symm, Function.update_of_ne (hu i).symm, Function.update_self,
        Function.update_self]
    · by_cases hpu : p = u i
      · rw [hpu, Function.update_self, Function.update_self]
      · rw [Function.update_of_ne hpu, Function.update_of_ne hpu, Function.update_of_ne hp,
          Function.update_of_ne hp, alloc_nextOf m k v lv hp]
  above i hi p hp := by
    refine ((splice_frame m₂ m.allocated p pred succ).2.2 i).trans ?_
    rw [hnext i, if_neg (not_lt.mpr hi), alloc_nextOf m k v lv hp]
  after := by
    refine (splice_after m₂ m.allocated pred succ).trans ?_
    funext p
    simp only [Function.update_apply, hfr.after]
    split_ifs with h1 h2
    · rfl
    · rfl
    · rw [alloc_old m k v lv h2]
  prev := by
    refine (splice_prev m₂ m.allocated pred succ).trans ?_
    funext p
    simp only [Function.update_apply, hfr.prev]
    split_ifs with h1 h2
    · rfl
    · rfl
    · rw [alloc_old m k v lv h2]

theorem Linked.put_grown (h : Linked m (xs ++ ys)) (hc : Cut m (fun j => decide (j < k)) xs ys)
    (hk : m.items k = none) (v : V) :
    ∃ m' lv, m.put k v = some m' ∧ 0 < lv ∧ lv ≤ maxLevel ∧
      Grown m m' k v lv (fun i => (m.onLevel xs i).getLastD m.head) (xs.getLastD m.head) (ys.headD m.tail) := by
  obtain ⟨lv, hlv, hpos, hle⟩ := getNodeLevel_spec m
  have hstop : ∀ i, (m.onLevel xs i).getLastD m.head ≠ m.allocated := h.stop_fresh
  obtain ⟨m₂, hlink, hfr, hnext⟩ := linkLevels_spec (m.alloc k v lv) _ m.allocated lv
    (fun i => (m.onLevel xs i).getLastD m.head) (fun i hi => h.update_getElem hi) (fun i hi => by
      rw [height, alloc_old m k v lv (hstop i)]
      exact h.stop_height (hi.trans_le hle)) (by rw [height, alloc_new, List.length_replicate])
  have hpred : ((List.range m.level).map (fun i => (m.onLevel xs i).getLastD m.head) ++
      List.replicate (lv - m.level) m.head)[0]? = some (xs.getLastD m.head) := by
    rw [h.update_getElem hpos, h.onLevel_zero]
  have hsucc : (m₂.node (xs.getLastD m.head)).after = some (ys.headD m.tail) := by
    have hne : xs.getLastD m.head ≠ m.allocated := by
      have h0 := hstop 0
      rwa [h.onLevel_zero] at h0
    rw [hfr.after, alloc_old m k v lv hne, h.after_cut]
    cases ys <;> rfl
  refine ⟨{ m₂.splice m.allocated (xs.getLastD m.head) (ys.headD m.tail) with
      items := Function.update m₂.items k (some m.allocated), size := m₂.size + 1 }, lv, ?_, hpos, hle, ?_⟩
  · simp only [put, hk, h.search_eq hc, hlv, Option.bind_eq_bind, Option.bind_some]
    rw [show (SortedMap.setNode _ m.allocated _) = m.alloc k v lv from rfl, hlink]
    simp only [Option.bind_some, hpred, hsucc]
    rfl
  · exact grown_splice hfr hnext hstop _ _

end Insert

end SortedMap

end Qotp
