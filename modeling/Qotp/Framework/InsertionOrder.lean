import Qotp.Framework.InsertionMap

namespace Qotp.Framework

variable {K V : Type*} [DecidableEq K]

/-- The key right behind `k` in a list of keys. -/
def nextKey (k : K) (ks : List K) : Option K := (ks.dropWhile fun j => j ≠ k).tail.head?

theorem nextKey_cons (k j : K) (ks : List K) : nextKey k (j :: ks) = if j = k then ks.head? else nextKey k ks := by
  by_cases h : j = k <;> simp [nextKey, h]

theorem nextKey_ne {k : K} {ks : List K} (hn : ks.Nodup) : nextKey k ks ≠ some k := by
  induction ks with
  | nil => exact nofun
  | cons j ks ih =>
    obtain ⟨hj, hks⟩ := List.nodup_cons.mp hn
    rw [nextKey_cons]
    split_ifs with hjk
    · intro hk
      exact hj (hjk ▸ List.mem_of_mem_head? hk)
    · exact ih hks

/-- A last key stays last when other keys go. -/
theorem nextKey_filter {k : K} {ks : List K} (p : K → Bool) (h : nextKey k ks = none) :
    nextKey k (ks.filter p) = none := by
  induction ks with
  | nil => exact h
  | cons j ks ih =>
    rw [nextKey_cons] at h
    by_cases hjk : j = k
    · rw [if_pos hjk, List.head?_eq_none_iff] at h
      subst h
      cases hp : p j
      · rw [List.filter_cons_of_neg (by simp [hp])]
        rfl
      · rw [List.filter_cons_of_pos hp, nextKey_cons, if_pos hjk]
        rfl
    · rw [if_neg hjk] at h
      cases hp : p j
      · rw [List.filter_cons_of_neg (by simp [hp])]
        exact ih h
      · rw [List.filter_cons_of_pos hp, nextKey_cons, if_neg hjk]
        exact ih h

namespace InsertionMap

variable {m : InsertionMap K V} {k j : K} {f : V → V}

/-- The entries in order, from the one behind `start` if there is one. -/
def iterate (m : InsertionMap K V) (start : Option K) : List (K × V) :=
  match start with
  | none => m.entries
  | some k =>
    match (m.entries.dropWhile fun e => e.1 ≠ k).tail with
    | [] => m.entries
    | es => es

/-- The neighbours of a key. -/
def entryAfter (m : InsertionMap K V) (k : K) : Option (K × V) := (m.entries.dropWhile fun e => e.1 ≠ k).tail.head?

def entryBefore (m : InsertionMap K V) (k : K) : Option (K × V) :=
  (m.entries.reverse.dropWhile fun e => e.1 ≠ k).tail.head?

/-- Changes the value under a key, if there is one. -/
def modify (m : InsertionMap K V) (k : K) (f : V → V) : InsertionMap K V :=
  match m.get? k with
  | none => m
  | some v => m.put k (f v)

theorem putEntries_of_notMem {es : List (K × V)} {v : V} (h : k ∉ es.map Prod.fst) :
    putEntries k v es = es ++ [(k, v)] := by
  induction es with
  | nil => rfl
  | cons e es ih =>
    rw [List.map_cons, List.mem_cons, not_or] at h
    rw [putEntries, if_neg (Ne.symm h.1), ih h.2, List.cons_append]

/-- Storing under a key that is there renames its entry to itself. -/
theorem putEntries_of_mem {es : List (K × V)} {v : V} (hn : (es.map Prod.fst).Nodup) (h : k ∈ es.map Prod.fst) :
    putEntries k v es = renameEntries k k v es := by
  induction es with
  | nil => cases h
  | cons e es ih =>
    obtain ⟨he, hes⟩ := List.nodup_cons.mp hn
    rw [putEntries, renameEntries, List.map_cons]
    split_ifs with hk
    · refine congrArg _ ?_
      conv_lhs => rw [← List.map_id es]
      refine List.map_congr_left fun a ha => ?_
      have hne : a.1 ≠ k := fun hak => he (hk ▸ hak ▸ List.mem_map_of_mem ha)
      rw [if_neg hne, id]
    · rw [ih hes ((List.mem_cons.mp h).resolve_left (Ne.symm hk))]
      rfl

section Neighbours

variable {xs ys : List (K × V)} {v : V}

theorem dropWhile_at (h : k ∉ xs.map Prod.fst) : ((xs ++ (k, v) :: ys).dropWhile fun e => e.1 ≠ k) = (k, v) :: ys := by
  induction xs with
  | nil => simp
  | cons e xs ih =>
    rw [List.map_cons, List.mem_cons, not_or] at h
    rw [List.cons_append, List.dropWhile_cons_of_pos (by simpa using Ne.symm h.1), ih h.2]

theorem dropWhile_of_notMem {es : List (K × V)} (h : k ∉ es.map Prod.fst) : (es.dropWhile fun e => e.1 ≠ k) = [] := by
  rw [List.dropWhile_eq_nil_iff]
  intro e he
  have hne : e.1 ≠ k := fun hk => h (hk ▸ List.mem_map_of_mem he)
  simpa using hne

end Neighbours

theorem mem_keys : k ∈ m.keys ↔ ∃ v, m.get? k = some v := by
  rw [← not_iff_not, ← get?_eq_none, Option.eq_none_iff_forall_ne_some]
  simp

theorem keys_put_of_get? {v w : V} (h : m.get? k = some v) : (m.put k w).keys = m.keys :=
  (keys_putEntries k w m.entries).trans (if_pos (mem_keys.mpr ⟨v, h⟩))

theorem get?_modify (m : InsertionMap K V) (k j : K) (f : V → V) :
    (m.modify k f).get? j = if j = k then (m.get? k).map f else m.get? j := by
  unfold modify
  cases hg : m.get? k with
  | none =>
    split_ifs with h
    · rw [h, hg]
      rfl
    · rfl
  | some v => rw [get?_put]; rfl

theorem keys_modify (m : InsertionMap K V) (k : K) (f : V → V) : (m.modify k f).keys = m.keys := by
  unfold modify
  cases hg : m.get? k with
  | none => rfl
  | some v => exact keys_put_of_get? hg

theorem put_of_get? {v : V} (h : m.get? k = some v) : m.put k v = m := by
  have hes : ∀ es : List (K × V), lookupEntries k es = some v → putEntries k v es = es := by
    intro es
    induction es with
    | nil => exact nofun
    | cons e es ih =>
      intro hl
      rw [lookupEntries] at hl
      rw [putEntries]
      split_ifs at hl ⊢ with hk
      · rw [← Option.some.inj hl, ← hk]
      · rw [ih hl]
  cases m with
  | mk es hn => simp only [put, hes es h]

/-- Storing what is there already changes nothing. -/
theorem modify_of_fix (h : ∀ v, m.get? k = some v → f v = v) : m.modify k f = m := by
  unfold modify
  cases hg : m.get? k with
  | none => rfl
  | some v =>
    simp only [h v hg]
    exact put_of_get? hg

theorem get?_foldl_erase (ks : List K) (m : InsertionMap K V) (j : K) :
    (ks.foldl erase m).get? j = if j ∈ ks then none else m.get? j := by
  induction ks generalizing m with
  | nil => simp
  | cons k ks ih =>
    rw [List.foldl_cons, ih, get?_erase]
    by_cases hj : j ∈ ks
    · rw [if_pos hj, if_pos (List.mem_cons_of_mem k hj)]
    · rw [if_neg hj]
      simp only [List.mem_cons, hj, or_false]

theorem keys_erase (m : InsertionMap K V) (k : K) : (m.erase k).keys = m.keys.filter fun j => j ≠ k := by
  rw [keys, keys, List.filter_map]
  rfl

theorem keys_foldl_erase (ks : List K) (m : InsertionMap K V) :
    (ks.foldl erase m).keys = m.keys.filter fun k => k ∉ ks := by
  induction ks generalizing m with
  | nil => simp
  | cons k ks ih =>
    rw [List.foldl_cons, ih, keys_erase, List.filter_filter]
    refine List.filter_congr fun j _ => ?_
    simp [Bool.and_comm]

section Sum

variable (f : V → Nat)

/-- The sum splits into that over the given keys and the rest. -/
theorem sum_keys_add_sumBy {ks : List K} (hn : ks.Nodup) (m : InsertionMap K V) :
    (ks.map fun k => ((m.get? k).map f).getD 0).sum + (ks.foldl erase m).sumBy f = m.sumBy f := by
  induction ks generalizing m with
  | nil => simp
  | cons k ks ih =>
    obtain ⟨hk, hks⟩ := List.nodup_cons.mp hn
    have hsame : (ks.map fun j => (((m.erase k).get? j).map f).getD 0) = ks.map fun j => ((m.get? j).map f).getD 0 := by
      refine List.map_congr_left fun j hj => ?_
      rw [get?_erase, if_neg (ne_of_mem_of_not_mem hj hk)]
    have hrest := ih hks (m.erase k)
    have hone := sumBy_erase f m k
    rw [hsame] at hrest
    rw [List.map_cons, List.sum_cons, List.foldl_cons]
    omega

theorem sumBy_eq_zero {m : InsertionMap K V} : m.sumBy f = 0 ↔ ∀ k, ((m.get? k).map f).getD 0 = 0 := by
  simp only [sumBy, List.sum_eq_zero_iff, List.mem_map, forall_exists_index, and_imp, forall_apply_eq_imp_iff₂]
  constructor
  · intro h k
    cases hg : m.get? k with
    | none => rfl
    | some v => exact h (k, v) (get?_eq_some.mp hg)
  · intro h e he
    have hk := h e.1
    rwa [get?_eq_some.mpr he] at hk

/-- The given keys have all of the sum just when the others have nothing. -/
theorem sum_keys_eq_iff {ks : List K} (hn : ks.Nodup) (m : InsertionMap K V) :
    (ks.map fun k => ((m.get? k).map f).getD 0).sum = m.sumBy f ↔ ∀ k ∉ ks, ((m.get? k).map f).getD 0 = 0 := by
  have hsplit := sum_keys_add_sumBy f hn m
  have hrest : (ks.foldl erase m).sumBy f = 0 ↔ ∀ k ∉ ks, ((m.get? k).map f).getD 0 = 0 := by
    rw [sumBy_eq_zero]
    refine forall_congr' fun k => ?_
    rw [get?_foldl_erase]
    by_cases hk : k ∈ ks
    · rw [if_pos hk]
      exact iff_of_true rfl fun h => absurd hk h
    · rw [if_neg hk]
      exact ⟨fun h _ => h, fun h => h hk⟩
  rw [← hrest]
  omega

end Sum

/-- Updates meet in an entry those that name its key. -/
theorem get?_foldl_modify {A : Type} (f : A → V → V) (us : List (K × A)) (m : InsertionMap K V) (j : K) :
    (us.foldl (fun m u => m.modify u.1 (f u.2)) m).get? j =
      (m.get? j).map fun v => (us.filter fun u => u.1 = j).foldl (fun v u => f u.2 v) v := by
  induction us generalizing m with
  | nil => simp
  | cons u us ih =>
    rw [List.foldl_cons, ih, get?_modify]
    by_cases hj : u.1 = j
    · rw [if_pos hj.symm, hj, List.filter_cons_of_pos (by simpa using hj), Option.map_map]
      rfl
    · rw [if_neg fun h => hj h.symm, List.filter_cons_of_neg (by simpa using hj)]

theorem keys_foldl_modify {A : Type} (f : A → V → V) (us : List (K × A)) (m : InsertionMap K V) :
    (us.foldl (fun m u => m.modify u.1 (f u.2)) m).keys = m.keys := by
  induction us generalizing m with
  | nil => rfl
  | cons u us ih => rw [List.foldl_cons, ih, keys_modify]

/-- An order of the entries stays when a key is appended behind them all, or gets a value
that stands to the others as the one before did. -/
theorem pairwise_put {R : K × V → K × V → Prop} {m : InsertionMap K V} {k : K} {v : V} (h : m.entries.Pairwise R)
    (hnew : m.get? k = none → ∀ e ∈ m.entries, R e (k, v))
    (hold : ∀ w, (k, w) ∈ m.entries → ∀ e ∈ m.entries, (R e (k, w) → R e (k, v)) ∧ (R (k, w) e → R (k, v) e)) :
    (m.put k v).entries.Pairwise R := by
  by_cases hk : k ∈ m.keys
  · have hput : (m.put k v).entries = renameEntries k k v m.entries := putEntries_of_mem m.nodup hk
    rw [hput, renameEntries, List.pairwise_map]
    refine (h.and (List.pairwise_map.mp m.nodup)).imp_of_mem fun {a b} ha hb hab => ?_
    by_cases hak : a.1 = k
    · rw [if_pos hak, if_neg fun hbk => hab.2 (hak.trans hbk.symm)]
      exact (hold a.2 (hak ▸ ha) b hb).2 (hak ▸ hab.1)
    · rw [if_neg hak]
      split_ifs with hbk
      · exact (hold b.2 (hbk ▸ hb) a ha).1 (hbk ▸ hab.1)
      · exact hab.1
  · have hput : (m.put k v).entries = m.entries ++ [(k, v)] := putEntries_of_notMem hk
    rw [hput]
    refine List.pairwise_append.mpr ⟨h, List.pairwise_singleton R _, fun a ha b hb => ?_⟩
    rw [List.mem_singleton.mp hb]
    exact hnew (get?_eq_none.mpr hk) a ha

end InsertionMap

end Qotp.Framework
