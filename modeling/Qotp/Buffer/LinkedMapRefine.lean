import Qotp.Buffer.LinkedMapSpec
import Qotp.Framework.Run

namespace Qotp

open Framework

namespace LinkedMap

variable {K V σ : Type} {m m' : LinkedMap K V}

/-- What an iteration over a list of pairs does: each pair is yielded in order, until the caller
says stop. -/
def yieldAll {α β : Type} (yield : σ → α → β → Option (σ × Bool)) : List (α × β) → σ → Option (σ × Bool)
  | [], s => some (s, true)
  | e :: es, s => (yield s e.1 e.2).bind fun r => if r.2 then yieldAll yield es r.1 else some (r.1, false)

theorem yieldAll_append {α β : Type} (yield : σ → α → β → Option (σ × Bool)) (xs ys : List (α × β)) (s : σ) :
    yieldAll yield (xs ++ ys) s =
      (yieldAll yield xs s).bind fun r => if r.2 then yieldAll yield ys r.1 else some (r.1, false) := by
  induction xs generalizing s with
  | nil => rfl
  | cons e xs ih =>
    simp only [List.cons_append, yieldAll, Option.bind_assoc]
    refine Option.bind_congr fun r _ => ?_
    split_ifs with hr
    · exact ih r.1
    · rfl

theorem entryUnless_head (m : LinkedMap K V) {sentinel : Nat} {l : List Nat} (h : sentinel ∉ l) :
    m.entryUnless sentinel (l.head?.or (some sentinel)) = some (l.head?.map m.entry) := by
  cases l with
  | nil => exact if_pos rfl
  | cons p l =>
    have hne : some p ≠ some sentinel := fun he => h (Option.some.inj he ▸ List.mem_cons_self)
    exact if_neg hne

/-- The map is the list of entries `a`. -/
def Represents [DecidableEq K] (m : LinkedMap K V) (a : InsertionMap K V) : Prop :=
  ∃ ps, Linked m ps ∧ a.entries = ps.map m.entry

section Queries

variable [DecidableEq K] {a : InsertionMap K V}

theorem Represents.get?_eq (h : Represents m a) (k : K) : a.get? k = (m.items k).map fun p => (m.entry p).2 := by
  obtain ⟨ps, hl, ha⟩ := h
  cases hit : m.items k with
  | none =>
    rw [Option.map_none, InsertionMap.get?_eq_none, InsertionMap.keys, ha]
    exact hl.notMem_keys hit
  | some t =>
    obtain ⟨hmem, hk⟩ := (hl.items k t).mp hit
    rw [Option.map_some, InsertionMap.get?_eq_some, ha, ← hk]
    exact List.mem_map_of_mem hmem

theorem Represents.first_eq (h : Represents m a) : m.first = some a.first := by
  obtain ⟨ps, hl, ha⟩ := h
  have hno : m.tail ∉ ps := fun hp => (hl.ne_sentinel hp).2 rfl
  unfold first InsertionMap.first
  rw [ha, List.head?_map, ← entryUnless_head m hno, ← hl.first_at]
  rfl

theorem Represents.next_eq (h : Represents m a) (k : K) : m.next k = some (a.entryAfter k) := by
  obtain ⟨ps, hl, ha⟩ := h
  unfold next InsertionMap.entryAfter
  rw [ha]
  cases hit : m.items k with
  | none =>
    rw [InsertionMap.dropWhile_of_notMem (hl.notMem_keys hit)]
    rfl
  | some t =>
    obtain ⟨xs, ys, rfl, hk, hxs, _⟩ := hl.split hit
    have hno : m.tail ∉ ys := fun hp => (hl.ne_sentinel (List.mem_append_right _ (List.mem_cons_of_mem t hp))).2 rfl
    have hcut : (xs ++ t :: ys).map m.entry = xs.map m.entry ++ (k, (m.entry t).2) :: ys.map m.entry := by
      rw [List.map_append, List.map_cons, ← hk]
    rw [hcut, InsertionMap.dropWhile_at hxs, List.tail_cons, List.head?_map, ← entryUnless_head m hno, ← hl.next_at]
    rfl

theorem Represents.previous_eq (h : Represents m a) (k : K) : m.previous k = some (a.entryBefore k) := by
  obtain ⟨ps, hl, ha⟩ := h
  unfold previous InsertionMap.entryBefore
  rw [ha]
  cases hit : m.items k with
  | none =>
    have hno : k ∉ ((ps.map m.entry).reverse).map Prod.fst := by
      rw [List.map_reverse, List.mem_reverse]
      exact hl.notMem_keys hit
    rw [InsertionMap.dropWhile_of_notMem hno]
    rfl
  | some t =>
    obtain ⟨xs, ys, rfl, hk, _, hys⟩ := hl.split hit
    have hno : m.head ∉ xs.reverse := fun hp => (hl.ne_sentinel (List.mem_append_left _ (List.mem_reverse.mp hp))).1 rfl
    have hcut : ((xs ++ t :: ys).map m.entry).reverse =
        (ys.map m.entry).reverse ++ (k, (m.entry t).2) :: (xs.map m.entry).reverse := by
      rw [List.map_append, List.map_cons, ← hk, List.reverse_append, List.reverse_cons, List.append_assoc]
      rfl
    have hys' : k ∉ (ys.map m.entry).reverse.map Prod.fst := by
      rw [List.map_reverse, List.mem_reverse]
      exact hys
    rw [hcut, InsertionMap.dropWhile_at hys', List.tail_cons, ← List.map_reverse, List.head?_map,
      ← entryUnless_head m hno, List.head?_reverse, ← hl.prev_at]
    rfl

end Queries

/-- The loop visits the nodes of a chain that ends at the sentinel. -/
theorem iterLoop_eq (yield : σ → K → V → Option (σ × Bool)) {q fuel : Nat} {qs : List Nat}
    (h : Chain m.nextOf q qs (some m.tail)) (hno : m.tail ∉ qs) (hfuel : qs.length < fuel) (s : σ) :
    m.iterLoop yield fuel (m.nextOf q) s = yieldAll yield (qs.map m.entry) s := by
  induction qs generalizing q fuel s with
  | nil =>
    obtain ⟨n, rfl⟩ := Nat.exists_eq_succ_of_ne_zero (Nat.ne_of_gt hfuel)
    rw [h.first]
    simp [iterLoop, yieldAll]
  | cons p qs ih =>
    obtain ⟨n, rfl⟩ := Nat.exists_eq_succ_of_ne_zero (Nat.ne_of_gt (Nat.lt_of_le_of_lt (Nat.zero_le _) hfuel))
    obtain ⟨hp, hqs⟩ := not_or.mp (List.mem_cons.not.mp hno)
    rw [h.1, iterLoop, List.map_cons, yieldAll]
    simp only [Option.bind_eq_bind, Option.bind_some, if_neg (Ne.symm hp)]
    refine Option.bind_congr fun r _ => ?_
    split_ifs with hr
    · exact ih h.2 hqs (Nat.lt_of_succ_lt_succ hfuel) r.1
    · rfl

section Iteration

variable [DecidableEq K] {a : InsertionMap K V}

/-- `Iterator` yields the entries from the start key on. -/
theorem Represents.iterator_eq (h : Represents m a) (startKey : Option K) (yield : σ → K → V → Option (σ × Bool))
    (s : σ) : m.iterator startKey yield s = yieldAll yield (a.iterate startKey) s := by
  obtain ⟨ps, hl, ha⟩ := h
  have hno : m.tail ∉ ps := fun hp => (hl.ne_sentinel hp).2 rfl
  have hall : m.iterLoop yield (m.size + 1) (m.nextOf m.head) s = yieldAll yield a.entries s := by
    rw [ha]
    exact iterLoop_eq yield hl.next hno (by rw [hl.size]; exact Nat.lt_succ_self _) s
  unfold iterator startNode InsertionMap.iterate
  cases startKey with
  | none => exact hall
  | some k =>
    rw [Option.bind_some]
    cases hit : m.items k with
    | none =>
      rw [ha] at hall ⊢
      dsimp only
      rw [InsertionMap.dropWhile_of_notMem (hl.notMem_keys hit)]
      exact hall
    | some t =>
      obtain ⟨xs, ys, rfl, hk, hxs, _⟩ := hl.split hit
      have hcut : a.entries = xs.map m.entry ++ (k, (m.entry t).2) :: ys.map m.entry := by
        rw [ha, List.map_append, List.map_cons, ← hk]
      have hnext : (m.node t).next = ys.head?.or (some m.tail) := hl.next_at
      dsimp only
      rw [hcut, InsertionMap.dropWhile_at hxs, List.tail_cons, hnext, ← hcut]
      cases ys with
      | nil =>
        rw [List.head?_nil, Option.none_or, if_pos rfl]
        exact hall
      | cons y ys =>
        have hy : some y ≠ some m.tail := fun he => hno (Option.some.inj he ▸ by simp)
        have hnoys : m.tail ∉ y :: ys := fun hp => hno (List.mem_append_right _ (List.mem_cons_of_mem t hp))
        have hlen : (y :: ys).length < m.size + 1 := by
          simp only [hl.size, List.length_append, List.length_cons]
          omega
        have hrest := iterLoop_eq yield (Chain.append_cons.mp hl.next).2 hnoys hlen s
        rw [hl.next_at] at hrest
        rw [List.head?_cons, Option.some_or] at hrest ⊢
        rw [if_neg hy]
        exact hrest

/-- `NestedIterator` without start keys yields the inner lists one behind the other. -/
theorem Represents.nestedIterator_eq {K₂ V₂ : Type} [DecidableEq K₂] (h : Represents m a)
    {getInnerMap : V → LinkedMap K₂ V₂} {inner : V → InsertionMap K₂ V₂}
    (hinner : ∀ v, Represents (getInnerMap v) (inner v)) (yield : σ → V → V₂ → Option (σ × Bool)) (s : σ) :
    m.nestedIterator getInnerMap none none yield s =
      yieldAll yield (a.entries.flatMap fun e => (inner e.2).entries.map fun f => (e.2, f.2)) s := by
  have hmap : ∀ (v : V) (es : List (K₂ × V₂)) s, yieldAll (fun s _ w => yield s v w) es s =
      yieldAll yield (es.map fun f => (v, f.2)) s := by
    intro v es
    induction es with
    | nil => exact fun _ => rfl
    | cons f es ih =>
      intro s
      simp only [List.map_cons, yieldAll, ih]
  unfold nestedIterator
  rw [h.iterator_eq]
  change (yieldAll _ a.entries (s, none)).map _ = _
  generalize a.entries = es
  induction es generalizing s with
  | nil => rfl
  | cons e es ih =>
    rw [List.flatMap_cons, yieldAll_append, yieldAll]
    simp only [(hinner e.2).iterator_eq, hmap]
    change ((yieldAll yield ((inner e.2).entries.map fun f => (e.2, f.2)) s).map _ |>.bind _).map _ = _
    cases yieldAll yield ((inner e.2).entries.map fun f => (e.2, f.2)) s with
    | none => rfl
    | some r =>
      rw [Option.map_some, Option.bind_some, Option.bind_some]
      split_ifs with hr
      · exact ih r.1
      · rfl

end Iteration

end LinkedMap

/-- The calls that change a map. -/
inductive LmOp (K V : Type)
  | put (key : K) (value : V)
  | remove (key : K)
  | replace (oldKey newKey : K) (value : V)

namespace LinkedMap

variable {K V σ : Type} [DecidableEq K] {m m' : LinkedMap K V} {a : InsertionMap K V}

def step (m : LinkedMap K V) : LmOp K V → Option (LinkedMap K V)
  | .put key value => m.put key value
  | .remove key => (m.remove key).map Prod.fst
  | .replace oldKey newKey value => some (m.replace oldKey newKey value).1

/-- The reference list after the calls. -/
def reference (ops : List (LmOp K V)) : InsertionMap K V :=
  ops.foldl (fun a op => match op with
    | .put key value => a.put key value
    | .remove key => a.erase key
    | .replace oldKey newKey value => (a.replace oldKey newKey value).1) .empty

/-- What every query of the map answers, in terms of the reference list. -/
structure Agrees [Inhabited V] (m : LinkedMap K V) (a : InsertionMap K V) : Prop where
  get : ∀ k, m.get k = (a.get? k).getD default
  contains : ∀ k, m.contains k = a.contains k
  size : m.size = a.entries.length
  first : m.first = some a.entries.head?
  next : ∀ k, m.next k = some (a.entryAfter k)
  previous : ∀ k, m.previous k = some (a.entryBefore k)
  iterator : ∀ (σ : Type) startKey yield (s : σ), m.iterator startKey yield s = yieldAll yield (a.iterate startKey) s

theorem Represents.agrees [Inhabited V] (h : Represents m a) : Agrees m a where
  get k := by
    rw [h.get?_eq, get]
    cases m.items k <;> rfl
  contains k := by
    rw [InsertionMap.contains, h.get?_eq, contains]
    cases m.items k <;> rfl
  size := by
    obtain ⟨ps, hl, ha⟩ := h
    rw [hl.size, ha, List.length_map]
  first := h.first_eq
  next := h.next_eq
  previous := h.previous_eq
  iterator _ := h.iterator_eq

theorem represents_new [Inhabited K] [Inhabited V] : Represents (new : LinkedMap K V) .empty :=
  ⟨[], ⟨rfl, rfl, show [0, 1].Nodup by decide, show ∀ p ∈ [0, 1], p < 2 by decide,
    fun _ _ => ⟨nofun, fun h => nomatch h.1⟩, rfl⟩, rfl⟩

/-- Storing under a key that is there. -/
theorem Linked.represents_relabel {ps : List Nat} (h : Linked m ps) (ha : a.entries = ps.map m.entry) {k : K} {t : Nat}
    (hit : m.items k = some t) (v : V) : Represents (m.setNode t { m.node t with value := v }) (a.put k v) := by
  obtain ⟨hl, hmap⟩ := h.relabel hit (.inl rfl) v
  have hk : k ∈ (ps.map m.entry).map Prod.fst := by
    rw [h.mem_keys, hit]
    rfl
  have hput : (a.put k v).entries = InsertionMap.putEntries k v (ps.map m.entry) := congrArg _ ha
  rw [h.relabel_self hit]
  exact ⟨ps, hl, by rw [hmap, hput, InsertionMap.putEntries_of_mem h.keys_nodup hk]⟩

theorem Represents.put (h : Represents m a) (k : K) (v : V) : ∃ m', m.put k v = some m' ∧ Represents m' (a.put k v) := by
  obtain ⟨ps, hl, ha⟩ := h
  cases hit : m.items k with
  | none =>
    obtain ⟨hl', hmap⟩ := hl.append hit v
    have hput : (a.put k v).entries = InsertionMap.putEntries k v (ps.map m.entry) := congrArg _ ha
    exact ⟨_, put_of_none hl hit v, _, hl', by rw [hmap, hput, InsertionMap.putEntries_of_notMem (hl.notMem_keys hit)]⟩
  | some t =>
    refine ⟨_, ?_, hl.represents_relabel ha hit v⟩
    unfold LinkedMap.put
    rw [hit]

theorem Represents.remove (h : Represents m a) (k : K) :
    ∃ m', m.remove k = some (m', a.get? k) ∧ Represents m' (a.erase k) := by
  have hget := h.get?_eq k
  rw [hget]
  cases hit : m.items k with
  | none =>
    refine ⟨m, ?_, ?_⟩
    · unfold LinkedMap.remove
      rw [hit]
      rfl
    · rw [hit, Option.map_none] at hget
      rw [InsertionMap.erase_of_get?_eq_none hget]
      exact h
  | some t =>
    obtain ⟨ps, hl, ha⟩ := h
    obtain ⟨xs, ys, rfl, _⟩ := hl.split hit
    obtain ⟨hl', hmap⟩ := hl.unlink hit
    refine ⟨_, hl.remove_eq hit, _, hl', ?_⟩
    rw [hmap, ← ha]
    rfl

theorem Represents.replace (h : Represents m a) (old new : K) (v : V) :
    (m.replace old new v).2 = (a.replace old new v).2 ∧ Represents (m.replace old new v).1 (a.replace old new v).1 := by
  obtain ⟨ps, hl, ha⟩ := h
  have hmem : ∀ k, k ∈ a.keys ↔ (m.items k).isSome = true := fun k => by
    rw [InsertionMap.keys, ha, hl.mem_keys]
  unfold LinkedMap.replace InsertionMap.replace
  cases hit : m.items old with
  | none =>
    rw [if_neg (by rw [hmem, hit]; exact Bool.false_ne_true)]
    exact ⟨rfl, ps, hl, ha⟩
  | some t =>
    rw [if_pos (by rw [hmem, hit]; rfl)]
    dsimp only
    by_cases heq : old = new
    · subst heq
      rw [if_pos rfl, if_pos rfl]
      exact ⟨rfl, hl.represents_relabel ha hit v⟩
    · rw [if_neg heq, if_neg heq]
      by_cases hnew : (m.items new).isSome = true
      · rw [if_pos hnew, dif_pos ((hmem new).mpr hnew)]
        exact ⟨rfl, ps, hl, ha⟩
      · rw [if_neg hnew, dif_neg (fun hn => hnew ((hmem new).mp hn))]
        obtain ⟨hl', hmap⟩ := hl.relabel hit (.inr (by simpa using hnew)) v
        rw [← ha] at hmap
        exact ⟨rfl, ps, hl', hmap.symm⟩

/-- A `Replace` that fails changes nothing. -/
theorem replace_of_false {old new : K} {v : V} (h : (m.replace old new v).2 = false) :
    (m.replace old new v).1 = m := by
  unfold LinkedMap.replace at h ⊢
  cases hit : m.items old with
  | none => rfl
  | some t =>
    rw [hit] at h
    dsimp only at h ⊢
    split_ifs at h ⊢
    rfl

/-- Every run of calls keeps the linked map a representation of the reference list. -/
theorem run_represents [Inhabited K] [Inhabited V] (ops : List (LmOp K V)) :
    ∃ m, run step (new : LinkedMap K V) ops = some m ∧ Represents m (reference ops) := by
  induction ops using List.reverseRecOn with
  | nil => exact ⟨new, rfl, represents_new⟩
  | append_singleton ops op ih =>
    obtain ⟨m, hrun, hrep⟩ := ih
    rw [run_append, hrun, reference, List.foldl_append, ← reference]
    cases op with
    | put key value =>
      obtain ⟨m', hput, hrep'⟩ := hrep.put key value
      exact ⟨m', by simp [run, step, hput], hrep'⟩
    | remove key =>
      obtain ⟨m', hrem, hrep'⟩ := hrep.remove key
      exact ⟨m', by simp [run, step, hrem], hrep'⟩
    | replace oldKey newKey value => exact ⟨_, rfl, (hrep.replace oldKey newKey value).2⟩

/-- After any calls on a new map every query agrees with the reference list. `Remove` returns the
stored value, `Replace` succeeds if the old key is stored and the new one is not, or is the
same, and changes nothing otherwise. `NestedIterator` over such maps yields the inner lists
in the order of the outer one, until its caller stops. -/
theorem refines_list [Inhabited K] [Inhabited V] (ops : List (LmOp K V)) :
    ∃ m, run step (new : LinkedMap K V) ops = some m ∧ Agrees m (reference ops) ∧
      (∀ k, ∃ m', m.remove k = some (m', (reference ops).get? k) ∧ Agrees m' ((reference ops).erase k)) ∧
      (∀ old new v, ((m.replace old new v).2 = true ↔
          old ∈ (reference ops).keys ∧ (new = old ∨ new ∉ (reference ops).keys)) ∧
        ((m.replace old new v).2 = false → (m.replace old new v).1 = m) ∧
        Agrees (m.replace old new v).1 ((reference ops).replace old new v).1) ∧
      ∀ (K₂ V₂ σ : Type) [DecidableEq K₂] [Inhabited K₂] [Inhabited V₂] (innerOps : V → List (LmOp K₂ V₂)),
        ∃ getInnerMap, (∀ v, run step new (innerOps v) = some (getInnerMap v)) ∧
          ∀ yield (s : σ), m.nestedIterator getInnerMap none none yield s = yieldAll yield
            ((reference ops).entries.flatMap fun e => (reference (innerOps e.2)).entries.map fun f => (e.2, f.2)) s := by
  obtain ⟨m, hrun, hrep⟩ := run_represents ops
  refine ⟨m, hrun, hrep.agrees, fun k => ?_, fun old new v => ⟨?_, replace_of_false, (hrep.replace old new v).2.agrees⟩,
    fun K₂ V₂ σ _ _ _ innerOps => ?_⟩
  · obtain ⟨m', hrem, hrep'⟩ := hrep.remove k
    exact ⟨m', hrem, hrep'.agrees⟩
  · rw [(hrep.replace old new v).1, InsertionMap.replace]
    split_ifs with hold heq hnew
    · subst heq
      simp [hold]
    · simp [hold, Ne.symm heq, hnew]
    · simp [hold, hnew]
    · simp [hold]
  · choose getInnerMap hinner hreps using fun v => run_represents (innerOps v)
    exact ⟨getInnerMap, hinner, fun yield s => hrep.nestedIterator_eq hreps yield s⟩

end LinkedMap

end Qotp
