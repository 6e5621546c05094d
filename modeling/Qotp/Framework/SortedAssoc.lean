import Mathlib

namespace Qotp.Framework

/-- A finite map kept in strictly increasing key order. -/
structure SortedAssoc (K V : Type*) [LinearOrder K] where
  entries : List (K × V)
  sorted : entries.Pairwise fun a b => a.1 < b.1

namespace SortedAssoc

variable {K V : Type*} [LinearOrder K]

def empty : SortedAssoc K V := ⟨[], List.Pairwise.nil⟩

def get? (m : SortedAssoc K V) (k : K) : Option V :=
  (m.entries.find? fun e => e.1 = k).map Prod.snd

def min? (m : SortedAssoc K V) : Option (K × V) := m.entries.head?

/-- The entry with the least key above `k`. -/
def next (m : SortedAssoc K V) (k : K) : Option (K × V) := m.entries.find? fun e => k < e.1

/-- The entry with the greatest key below `k`. -/
def prev (m : SortedAssoc K V) (k : K) : Option (K × V) :=
  m.entries.reverse.find? fun e => e.1 < k

def putEntries (k : K) (v : V) : List (K × V) → List (K × V)
  | [] => [(k, v)]
  | e :: es => if e.1 < k then e :: putEntries k v es
    else if e.1 = k then (k, v) :: es else (k, v) :: e :: es

theorem mem_putEntries {k : K} {v : V} {es : List (K × V)} {e : K × V}
    (hs : es.Pairwise fun a b => a.1 < b.1) :
    e ∈ putEntries k v es ↔ e = (k, v) ∨ (e.1 ≠ k ∧ e ∈ es) := by
  induction es with
  | nil => simp [putEntries]
  | cons a as ih =>
    obtain ⟨ha, has⟩ := List.pairwise_cons.mp hs
    simp only [putEntries]
    split_ifs with h1 h2
    · have hne : a.1 ≠ k := h1.ne
      simp only [List.mem_cons, ih has]
      constructor
      · rintro (rfl | h | h)
        · exact .inr ⟨hne, .inl rfl⟩
        · exact .inl h
        · exact .inr ⟨h.1, .inr h.2⟩
      · rintro (h | ⟨h, rfl | h'⟩)
        · exact .inr (.inl h)
        · exact .inl rfl
        · exact .inr (.inr ⟨h, h'⟩)
    · have hlt : e ∈ as → e.1 ≠ k := fun he => h2 ▸ (ha e he).ne'
      simp only [List.mem_cons]
      constructor
      · rintro (h | h)
        · exact .inl h
        · exact .inr ⟨hlt h, .inr h⟩
      · rintro (h | ⟨h, rfl | h'⟩)
        · exact .inl h
        · exact absurd h2 h
        · exact .inr h'
    · have hlt : e ∈ a :: as → e.1 ≠ k := by
        intro he
        have hka : k < a.1 := lt_of_le_of_ne (not_lt.mp h1) (Ne.symm h2)
        rcases List.mem_cons.mp he with rfl | he
        · exact hka.ne'
        · exact (hka.trans (ha e he)).ne'
      rw [List.mem_cons]
      exact or_congr_right ⟨fun h => ⟨hlt h, h⟩, fun h => h.2⟩

theorem putEntries_sorted (k : K) (v : V) {es : List (K × V)}
    (hs : es.Pairwise fun a b => a.1 < b.1) :
    (putEntries k v es).Pairwise fun a b => a.1 < b.1 := by
  induction es with
  | nil => simp [putEntries]
  | cons a as ih =>
    obtain ⟨ha, has⟩ := List.pairwise_cons.mp hs
    simp only [putEntries]
    split_ifs with h1 h2
    · refine List.pairwise_cons.mpr ⟨fun e he => ?_, ih has⟩
      rcases (mem_putEntries has).mp he with rfl | ⟨_, he⟩
      · exact h1
      · exact ha e he
    · exact List.pairwise_cons.mpr ⟨fun e he => h2 ▸ ha e he, has⟩
    · have hka : k < a.1 := lt_of_le_of_ne (not_lt.mp h1) (Ne.symm h2)
      refine List.pairwise_cons.mpr ⟨fun e he => ?_, hs⟩
      rcases List.mem_cons.mp he with rfl | he
      · exact hka
      · exact hka.trans (ha e he)

def put (m : SortedAssoc K V) (k : K) (v : V) : SortedAssoc K V :=
  ⟨putEntries k v m.entries, putEntries_sorted k v m.sorted⟩

def erase (m : SortedAssoc K V) (k : K) : SortedAssoc K V :=
  ⟨m.entries.filter fun e => e.1 ≠ k, m.sorted.filter _⟩

variable {m : SortedAssoc K V} {k : K} {v : V} {e : K × V}

@[simp] theorem entries_empty : (empty : SortedAssoc K V).entries = [] := rfl

theorem entries_put : (m.put k v).entries = putEntries k v m.entries := rfl

theorem entries_erase : (m.erase k).entries = m.entries.filter fun e => e.1 ≠ k := rfl

theorem mem_put : e ∈ (m.put k v).entries ↔ e = (k, v) ∨ (e.1 ≠ k ∧ e ∈ m.entries) :=
  mem_putEntries m.sorted

theorem forall_put {Q : K × V → Prop} (hnew : Q (k, v)) (hold : ∀ e ∈ m.entries, e.1 ≠ k → Q e) :
    ∀ e ∈ (m.put k v).entries, Q e := by
  intro e he
  obtain rfl | ⟨hek, he⟩ := mem_put.mp he
  · exact hnew
  · exact hold e he hek

theorem mem_erase : e ∈ (m.erase k).entries ↔ e.1 ≠ k ∧ e ∈ m.entries := by
  simp [erase, and_comm]

theorem keys_nodup (m : SortedAssoc K V) : (m.entries.map Prod.fst).Nodup :=
  List.pairwise_map.mpr (m.sorted.imp fun h => h.ne)

theorem eq_of_mem {w : V} (hv : (k, v) ∈ m.entries) (hw : (k, w) ∈ m.entries) : v = w :=
  congrArg Prod.snd (List.inj_on_of_nodup_map m.keys_nodup hv hw rfl)

theorem get?_eq_some : m.get? k = some v ↔ (k, v) ∈ m.entries := by
  unfold get?
  constructor
  · intro h
    obtain ⟨⟨j, w⟩, hf, rfl⟩ := Option.map_eq_some_iff.mp h
    have hj : j = k := by simpa using List.find?_some hf
    exact hj ▸ List.mem_of_find?_eq_some hf
  · intro h
    cases hf : m.entries.find? fun e => e.1 = k with
    | none => exact absurd (List.find?_eq_none.mp hf _ h) (by simp)
    | some e =>
      have hj : e.1 = k := by simpa using List.find?_some hf
      have he : (k, e.2) ∈ m.entries := hj ▸ List.mem_of_find?_eq_some hf
      simp [eq_of_mem he h]

theorem get?_eq_none : m.get? k = none ↔ ∀ e ∈ m.entries, e.1 ≠ k := by
  simp [get?, List.find?_eq_none]

theorem get?_put : (m.put k v).get? = Function.update m.get? k (some v) := by
  funext j
  by_cases hj : j = k
  · rw [hj, Function.update_self, get?_eq_some, mem_put]
    exact .inl rfl
  · rw [Function.update_of_ne hj]
    apply Option.ext
    intro w
    rw [get?_eq_some, get?_eq_some, mem_put]
    simp [hj]

theorem get?_erase : (m.erase k).get? = Function.update m.get? k none := by
  funext j
  by_cases hj : j = k
  · rw [hj, Function.update_self, get?_eq_none]
    intro e he
    exact (mem_erase.mp he).1
  · rw [Function.update_of_ne hj]
    apply Option.ext
    intro w
    rw [get?_eq_some, get?_eq_some, mem_erase]
    simp [hj]

theorem encard_domain : {k | (m.get? k).isSome}.encard = m.entries.length := by
  have hdom : {k | (m.get? k).isSome} = ((m.entries.map Prod.fst).toFinset : Set K) := by
    ext k
    simp [Option.isSome_iff_exists, get?_eq_some]
  rw [hdom, Set.encard_coe_eq_coe_finsetCard, List.toFinset_card_of_nodup m.keys_nodup, List.length_map]

theorem min?_spec {e : K × V} (h : m.min? = some e) :
    e ∈ m.entries ∧ ∀ a ∈ m.entries, e.1 ≤ a.1 := by
  unfold min? at h
  have hs := m.sorted
  cases hes : m.entries with
  | nil => simp [hes] at h
  | cons a as =>
    rw [hes] at h hs
    obtain rfl : a = e := by simpa using h
    refine ⟨List.mem_cons_self, fun b hb => ?_⟩
    rcases List.mem_cons.mp hb with rfl | hb
    · exact le_rfl
    · exact ((List.pairwise_cons.mp hs).1 b hb).le

theorem min?_eq_none : m.min? = none ↔ m.entries = [] := List.head?_eq_none_iff

theorem min?_eq_some (hv : (k, v) ∈ m.entries) (hle : ∀ a ∈ m.entries, k ≤ a.1) : m.min? = some (k, v) := by
  cases hm : m.min? with
  | none =>
    rw [min?_eq_none.mp hm] at hv
    cases hv
  | some e =>
    obtain ⟨j, w⟩ := e
    obtain ⟨hw, hmin⟩ := min?_spec hm
    obtain rfl : j = k := le_antisymm (hmin _ hv) (hle _ hw)
    rw [eq_of_mem hv hw]

theorem next_spec {e : K × V} (h : m.next k = some e) :
    e ∈ m.entries ∧ k < e.1 ∧ ∀ a ∈ m.entries, k < a.1 → e.1 ≤ a.1 := by
  obtain ⟨hp, as, bs, hl, has⟩ := List.find?_eq_some_iff_append.mp h
  refine ⟨List.mem_of_find?_eq_some h, by simpa using hp, fun a ha hka => ?_⟩
  have hs := m.sorted
  rw [hl] at ha hs
  rcases List.mem_append.mp ha with ha | ha
  · exact absurd hka (by simpa using has a ha)
  · rcases List.mem_cons.mp ha with rfl | ha
    · exact le_rfl
    · exact ((List.pairwise_cons.mp (List.pairwise_append.mp hs).2.1).1 a ha).le

theorem next_eq_none : m.next k = none ↔ ∀ a ∈ m.entries, a.1 ≤ k := by
  simp [next, List.find?_eq_none]

theorem prev_spec {e : K × V} (h : m.prev k = some e) :
    e ∈ m.entries ∧ e.1 < k ∧ ∀ a ∈ m.entries, a.1 < k → a.1 ≤ e.1 := by
  obtain ⟨hp, as, bs, hl, has⟩ := List.find?_eq_some_iff_append.mp h
  refine ⟨List.mem_reverse.mp (List.mem_of_find?_eq_some h), by simpa using hp,
    fun a ha hka => ?_⟩
  have hs := List.pairwise_reverse.mpr m.sorted
  rw [← List.mem_reverse, hl] at ha
  rw [hl] at hs
  rcases List.mem_append.mp ha with ha | ha
  · exact absurd hka (by simpa using has a ha)
  · rcases List.mem_cons.mp ha with rfl | ha
    · exact le_rfl
    · exact ((List.pairwise_cons.mp (List.pairwise_append.mp hs).2.1).1 a ha).le

theorem prev_eq_none : m.prev k = none ↔ ∀ a ∈ m.entries, k ≤ a.1 := by
  simp [prev, List.find?_eq_none]

section Split

variable {xs ys : List (K × V)} {w : V}

theorem next_of_append (h : m.entries = xs ++ ys) (hx : ∀ e ∈ xs, e.1 ≤ k) (hy : ∀ e ∈ ys, k < e.1) :
    m.next k = ys.head? := by
  have hnone : xs.find? (fun e => k < e.1) = none := by
    simpa [List.find?_eq_none] using hx
  rw [next, h, List.find?_append, hnone, Option.none_or]
  cases ys with
  | nil => rfl
  | cons y ys => simp [hy y List.mem_cons_self]

theorem prev_of_append (h : m.entries = xs ++ ys) (hx : ∀ e ∈ xs, e.1 < k) (hy : ∀ e ∈ ys, k ≤ e.1) :
    m.prev k = xs.getLast? := by
  have hnone : ys.reverse.find? (fun e => e.1 < k) = none := by
    simpa [List.find?_eq_none] using hy
  rw [prev, h, List.reverse_append, List.find?_append, hnone, Option.none_or, ← List.head?_reverse]
  cases hr : xs.reverse with
  | nil => rfl
  | cons x l =>
    have hmem : x ∈ xs := List.mem_reverse.mp (hr ▸ List.mem_cons_self)
    simp [hx x hmem]

theorem putEntries_append (hx : ∀ e ∈ xs, e.1 < k) : putEntries k v (xs ++ ys) = xs ++ putEntries k v ys := by
  induction xs with
  | nil => rfl
  | cons x xs ih =>
    rw [List.cons_append, putEntries, if_pos (hx x List.mem_cons_self),
      ih fun e he => hx e (List.mem_cons_of_mem x he), List.cons_append]

theorem put_of_append_new (h : m.entries = xs ++ ys) (hx : ∀ e ∈ xs, e.1 < k) (hy : ∀ e ∈ ys, k < e.1) :
    (m.put k v).entries = xs ++ (k, v) :: ys := by
  rw [entries_put, h, putEntries_append hx]
  cases ys with
  | nil => rfl
  | cons y ys =>
    have hky := hy y List.mem_cons_self
    rw [putEntries, if_neg hky.not_gt, if_neg hky.ne']

theorem put_of_append (h : m.entries = xs ++ (k, w) :: ys) : (m.put k v).entries = xs ++ (k, v) :: ys := by
  have hs := m.sorted
  rw [h] at hs
  have hx : ∀ e ∈ xs, e.1 < k := fun e he => (List.pairwise_append.mp hs).2.2 e he (k, w) List.mem_cons_self
  rw [entries_put, h, putEntries_append hx, putEntries, if_neg (lt_irrefl k), if_pos rfl]

theorem erase_of_append (h : m.entries = xs ++ (k, w) :: ys) : (m.erase k).entries = xs ++ ys := by
  have hs := m.sorted
  rw [h] at hs
  obtain ⟨_, hcons, hcross⟩ := List.pairwise_append.mp hs
  have hx : ∀ e ∈ xs, e.1 ≠ k := fun e he => (hcross e he (k, w) List.mem_cons_self).ne
  have hy : ∀ e ∈ ys, e.1 ≠ k := fun e he => ((List.pairwise_cons.mp hcons).1 e he).ne'
  rw [entries_erase, h, List.filter_append, List.filter_cons_of_neg (by simp),
    List.filter_eq_self.mpr fun e he => by simpa using hx e he,
    List.filter_eq_self.mpr fun e he => by simpa using hy e he]

end Split

section Sum

variable (f : V → Nat)

/-- The sum of a measure over the values. -/
def sumBy (m : SortedAssoc K V) : Nat := (m.entries.map fun e => f e.2).sum

theorem entries_nodup (m : SortedAssoc K V) : m.entries.Nodup := m.keys_nodup.of_map

theorem put_perm (m : SortedAssoc K V) (k : K) (v : V) :
    (m.put k v).entries.Perm ((k, v) :: (m.erase k).entries) := by
  refine (List.perm_ext_iff_of_nodup (m.put k v).entries_nodup ?_).mpr fun e => ?_
  · exact List.nodup_cons.mpr ⟨fun h => (mem_erase.mp h).1 rfl, (m.erase k).entries_nodup⟩
  · rw [mem_put, List.mem_cons, mem_erase]

theorem sumBy_erase (m : SortedAssoc K V) (k : K) :
    (m.erase k).sumBy f + ((m.get? k).map f).getD 0 = m.sumBy f := by
  cases h : m.get? k with
  | none =>
    have hall : (m.erase k).entries = m.entries :=
      List.filter_eq_self.mpr fun e he => by simpa using get?_eq_none.mp h e he
    simp [sumBy, hall]
  | some v =>
    have hmem := get?_eq_some.mp h
    have hperm : m.entries.Perm ((k, v) :: (m.erase k).entries) := by
      refine (List.perm_ext_iff_of_nodup m.entries_nodup ?_).mpr fun e => ?_
      · exact List.nodup_cons.mpr ⟨fun h => (mem_erase.mp h).1 rfl, (m.erase k).entries_nodup⟩
      · rw [List.mem_cons, mem_erase]
        constructor
        · intro he
          by_cases hk : e.1 = k
          · exact .inl (Prod.ext hk (eq_of_mem (hk ▸ he) hmem))
          · exact .inr ⟨hk, he⟩
        · rintro (rfl | ⟨_, he⟩)
          · exact hmem
          · exact he
    have hsum := (hperm.map fun e => f e.2).sum_eq
    simp only [List.map_cons, List.sum_cons] at hsum
    simp only [sumBy, Option.map_some, Option.getD_some, hsum]
    omega

theorem sumBy_put (m : SortedAssoc K V) (k : K) (v : V) :
    (m.put k v).sumBy f + ((m.get? k).map f).getD 0 = m.sumBy f + f v := by
  have hsum := ((m.put_perm k v).map fun e => f e.2).sum_eq
  simp only [List.map_cons, List.sum_cons] at hsum
  have herase := sumBy_erase f m k
  simp only [sumBy] at herase ⊢
  omega

end Sum

end SortedAssoc

end Qotp.Framework
