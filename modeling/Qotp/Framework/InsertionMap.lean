import Mathlib

namespace Qotp.Framework

/-- A finite map that remembers the order in which its keys arrived. -/
structure InsertionMap (K V : Type*) where
  entries : List (K × V)
  nodup : (entries.map Prod.fst).Nodup

namespace InsertionMap

variable {K V : Type*}

def empty : InsertionMap K V := ⟨[], List.nodup_nil⟩

def keys (m : InsertionMap K V) : List K := m.entries.map Prod.fst

def size (m : InsertionMap K V) : Nat := m.entries.length

def first (m : InsertionMap K V) : Option (K × V) := m.entries.head?

/-- The sum of a measure over the stored values. -/
def sumBy (f : V → Nat) (m : InsertionMap K V) : Nat := (m.entries.map fun e => f e.2).sum

@[simp] theorem entries_empty : (empty : InsertionMap K V).entries = [] := rfl

theorem first_mem {m : InsertionMap K V} {e : K × V} (h : m.first = some e) : e ∈ m.entries :=
  List.mem_of_mem_head? h

theorem eq_of_mem {m : InsertionMap K V} {k : K} {v w : V} (hv : (k, v) ∈ m.entries)
    (hw : (k, w) ∈ m.entries) : v = w :=
  congrArg Prod.snd (List.inj_on_of_nodup_map m.nodup hv hw rfl)

variable [DecidableEq K]

def lookupEntries (k : K) : List (K × V) → Option V
  | [] => none
  | e :: es => if e.1 = k then some e.2 else lookupEntries k es

/-- Update in place, or append when the key is new. -/
def putEntries (k : K) (v : V) : List (K × V) → List (K × V)
  | [] => [(k, v)]
  | e :: es => if e.1 = k then (k, v) :: es else e :: putEntries k v es

theorem keys_putEntries (k : K) (v : V) (es : List (K × V)) :
    (putEntries k v es).map Prod.fst =
      if k ∈ es.map Prod.fst then es.map Prod.fst else es.map Prod.fst ++ [k] := by
  induction es with
  | nil => simp [putEntries]
  | cons e es ih =>
    by_cases h : e.1 = k
    · simp [putEntries, h]
    · have hk : k ≠ e.1 := Ne.symm h
      simp only [putEntries, h, if_false, List.map_cons, ih, List.mem_cons, hk, false_or]
      split_ifs <;> rfl

def get? (m : InsertionMap K V) (k : K) : Option V := lookupEntries k m.entries

def contains (m : InsertionMap K V) (k : K) : Bool := (m.get? k).isSome

def put (m : InsertionMap K V) (k : K) (v : V) : InsertionMap K V where
  entries := putEntries k v m.entries
  nodup := by
    rw [keys_putEntries]
    split_ifs with h
    · exact m.nodup
    · exact List.nodup_append.mpr ⟨m.nodup, List.nodup_singleton k, by
        intro a ha b hb
        obtain rfl := List.mem_singleton.mp hb
        exact fun he => h (he ▸ ha)⟩

theorem mem_keys_put {m : InsertionMap K V} {k j : K} {v : V} : j ∈ (m.put k v).keys ↔ j = k ∨ j ∈ m.keys := by
  change j ∈ (putEntries k v m.entries).map Prod.fst ↔ _
  rw [keys_putEntries]
  split_ifs with h
  · refine ⟨.inr, fun hj => ?_⟩
    obtain rfl | hj := hj
    · exact h
    · exact hj
  · rw [List.mem_append, List.mem_singleton]
    exact or_comm

def erase (m : InsertionMap K V) (k : K) : InsertionMap K V where
  entries := m.entries.filter fun e => e.1 ≠ k
  nodup := m.nodup.sublist (List.filter_sublist.map Prod.fst)

/-- Gives the entry of `old` the key `new` in place; the caller checks that `new` is free. -/
def renameEntries (old new : K) (v : V) (es : List (K × V)) : List (K × V) :=
  es.map fun e => if e.1 = old then (new, v) else e

theorem keys_renameEntries (old new : K) (v : V) (es : List (K × V)) :
    (renameEntries old new v es).map Prod.fst =
      (es.map Prod.fst).map fun k => if k = old then new else k := by
  simp only [renameEntries, List.map_map]
  apply List.map_congr_left
  intro e _
  by_cases h : e.1 = old <;> simp [h]

def rename (m : InsertionMap K V) (old new : K) (v : V) (h : new ∉ m.keys) :
    InsertionMap K V where
  entries := renameEntries old new v m.entries
  nodup := by
    rw [keys_renameEntries]
    apply m.nodup.map_on
    intro a ha b hb hab
    have hna : a ≠ new := fun e => h (e ▸ ha)
    have hnb : b ≠ new := fun e => h (e ▸ hb)
    by_cases ea : a = old <;> by_cases eb : b = old <;> simp_all

theorem lookupEntries_eq_some {k : K} {v : V} {es : List (K × V)}
    (hn : (es.map Prod.fst).Nodup) : lookupEntries k es = some v ↔ (k, v) ∈ es := by
  induction es with
  | nil => simp [lookupEntries]
  | cons e es ih =>
    obtain ⟨hk, hes⟩ := List.nodup_cons.mp hn
    by_cases h : e.1 = k
    · subst h
      have hno : (e.1, v) ∉ es := fun hm => hk (List.mem_map.mpr ⟨_, hm, rfl⟩)
      simp only [lookupEntries, if_true, Option.some.injEq, List.mem_cons, hno, or_false]
      exact ⟨fun hv => hv ▸ rfl, fun he => (congrArg Prod.snd he).symm⟩
    · have hne : (k, v) ≠ e := fun he => h (he ▸ rfl)
      simp [lookupEntries, h, ih hes, hne]

theorem get?_eq_some {m : InsertionMap K V} {k : K} {v : V} :
    m.get? k = some v ↔ (k, v) ∈ m.entries := lookupEntries_eq_some m.nodup

theorem get?_eq_none {m : InsertionMap K V} {k : K} : m.get? k = none ↔ k ∉ m.keys := by
  constructor
  · intro h hk
    obtain ⟨⟨a, v⟩, he, rfl⟩ := List.mem_map.mp hk
    rw [get?_eq_some.mpr he] at h
    cases h
  · intro h
    cases hg : m.get? k with
    | none => rfl
    | some v => exact absurd (List.mem_map_of_mem (get?_eq_some.mp hg)) h

theorem get?_put (m : InsertionMap K V) (k j : K) (v : V) :
    (m.put k v).get? j = if j = k then some v else m.get? j := by
  change lookupEntries j (putEntries k v m.entries) = if j = k then some v else lookupEntries j m.entries
  induction m.entries with
  | nil => simp [putEntries, lookupEntries, eq_comm]
  | cons e es ih =>
    by_cases he : e.1 = k
    · by_cases h : j = k
      · simp [putEntries, lookupEntries, he, h]
      · have hk : k ≠ j := Ne.symm h
        simp [putEntries, lookupEntries, he, h, hk]
    · by_cases h : e.1 = j
      · have hj : j ≠ k := fun c => he (h.trans c)
        simp [putEntries, lookupEntries, h, hj]
      · simp [putEntries, lookupEntries, he, h, ih]

@[simp] theorem get?_put_self (m : InsertionMap K V) (k : K) (v : V) :
    (m.put k v).get? k = some v := by simp [get?_put]

theorem get?_put_ne (m : InsertionMap K V) {k j : K} (v : V) (h : j ≠ k) :
    (m.put k v).get? j = m.get? j := by simp [get?_put, h]

theorem mem_put {m : InsertionMap K V} {k : K} {v : V} {e : K × V} :
    e ∈ (m.put k v).entries ↔ e = (k, v) ∨ (e.1 ≠ k ∧ e ∈ m.entries) := by
  obtain ⟨j, w⟩ := e
  rw [← get?_eq_some, get?_put, ← get?_eq_some (m := m)]
  by_cases h : j = k
  · subst h
    simp [eq_comm]
  · simp [h]

theorem forall_put {m : InsertionMap K V} {k : K} {v : V} {Q : K × V → Prop} (hnew : Q (k, v))
    (hold : ∀ e ∈ m.entries, e.1 ≠ k → Q e) : ∀ e ∈ (m.put k v).entries, Q e := by
  intro e he
  obtain rfl | ⟨hek, he⟩ := mem_put.mp he
  · exact hnew
  · exact hold e he hek

/-- A symmetric relation between entries under different keys, behind a `put`. -/
theorem forall_pair_put {m : InsertionMap K V} {k : K} {v : V} {R : K × V → K × V → Prop}
    (hsymm : ∀ e f, R e f → R f e) (hnew : ∀ e ∈ m.entries, e.1 ≠ k → R e (k, v))
    (hold : ∀ e ∈ m.entries, e.1 ≠ k → ∀ f ∈ m.entries, f.1 ≠ k → e.1 ≠ f.1 → R e f) :
    ∀ e ∈ (m.put k v).entries, ∀ f ∈ (m.put k v).entries, e.1 ≠ f.1 → R e f := by
  intro e he f hf hne
  obtain rfl | ⟨hek, he⟩ := mem_put.mp he
  · obtain rfl | ⟨hfk, hf⟩ := mem_put.mp hf
    · exact absurd rfl hne
    · exact hsymm _ _ (hnew f hf hfk)
  · obtain rfl | ⟨hfk, hf⟩ := mem_put.mp hf
    · exact hnew e he hek
    · exact hold e he hek f hf hfk hne

theorem mem_erase {m : InsertionMap K V} {k : K} {e : K × V} :
    e ∈ (m.erase k).entries ↔ e.1 ≠ k ∧ e ∈ m.entries := by
  simp [erase, and_comm]

theorem get?_erase (m : InsertionMap K V) (k j : K) :
    (m.erase k).get? j = if j = k then none else m.get? j := by
  split_ifs with h
  · subst h
    refine get?_eq_none.mpr fun hk => ?_
    obtain ⟨e, he, rfl⟩ := List.mem_map.mp hk
    exact (mem_erase.mp he).1 rfl
  · refine Option.ext fun v => ?_
    rw [get?_eq_some, mem_erase, get?_eq_some]
    simp [h]

theorem erase_of_get?_eq_none {m : InsertionMap K V} {k : K} (h : m.get? k = none) : m.erase k = m := by
  have hes : (m.erase k).entries = m.entries := List.filter_eq_self.mpr fun e he => by
    simpa using fun hk : e.1 = k => get?_eq_none.mp h (List.mem_map.mpr ⟨e, he, hk⟩)
  cases m
  simpa [erase] using hes

/-- A new key that leaves again. -/
theorem erase_put_of_get?_eq_none {m : InsertionMap K V} {k : K} (h : m.get? k = none) (v : V) :
    (m.put k v).erase k = m := by
  have hes : ∀ es : List (K × V), k ∉ es.map Prod.fst → (putEntries k v es).filter (fun e => e.1 ≠ k) = es := by
    intro es
    induction es with
    | nil => simp [putEntries]
    | cons e es ih =>
      intro hk
      rw [List.map_cons, List.mem_cons, not_or] at hk
      rw [putEntries, if_neg (Ne.symm hk.1), List.filter_cons_of_pos (by simpa using Ne.symm hk.1), ih hk.2]
  have hm := hes m.entries (get?_eq_none.mp h)
  cases m
  simpa [erase, put] using hm

theorem mem_rename {m : InsertionMap K V} {old new : K} {v w : V} {h : new ∉ m.keys}
    (hold : (old, w) ∈ m.entries) {e : K × V} :
    e ∈ (m.rename old new v h).entries ↔ e = (new, v) ∨ (e.1 ≠ old ∧ e ∈ m.entries) := by
  simp only [rename, renameEntries, List.mem_map]
  constructor
  · rintro ⟨a, ha, rfl⟩
    by_cases hk : a.1 = old
    · simp [hk]
    · simp [hk, ha]
  · rintro (rfl | ⟨hk, he⟩)
    · exact ⟨(old, w), hold, by simp⟩
    · exact ⟨e, he, by simp [hk]⟩

/-- Renames in place; refuses when `old` is absent or `new` is another stored key. -/
def replace (m : InsertionMap K V) (old new : K) (v : V) : InsertionMap K V × Bool :=
  if old ∈ m.keys then
    if old = new then (m.put old v, true)
    else if h : new ∈ m.keys then (m, false)
    else (m.rename old new v h, true)
  else (m, false)

theorem mem_replace {m : InsertionMap K V} {old new : K} {v w : V}
    (hold : (old, w) ∈ m.entries) (hnew : old = new ∨ new ∉ m.keys) {e : K × V} :
    e ∈ (m.replace old new v).1.entries ↔ e = (new, v) ∨ (e.1 ≠ old ∧ e ∈ m.entries) := by
  have hk : old ∈ m.keys := List.mem_map_of_mem hold
  unfold replace
  rw [if_pos hk]
  split_ifs with he hn
  · subst he
    exact mem_put
  · rcases hnew with h | h
    · exact absurd h he
    · exact absurd hn h
  · exact mem_rename (h := hn) hold

section Sum

variable (f : V → Nat)

theorem sumBy_put (m : InsertionMap K V) (k : K) (v : V) :
    (m.put k v).sumBy f + ((m.get? k).map f).getD 0 = m.sumBy f + f v := by
  change ((putEntries k v m.entries).map fun e => f e.2).sum +
    ((lookupEntries k m.entries).map f).getD 0 = (m.entries.map fun e => f e.2).sum + f v
  induction m.entries with
  | nil => simp [putEntries, lookupEntries]
  | cons e es ih =>
    by_cases h : e.1 = k
    · simp [putEntries, lookupEntries, h]
      omega
    · simp only [putEntries, lookupEntries, h, if_false, List.map_cons, List.sum_cons]
      omega

theorem sumBy_put_none {m : InsertionMap K V} {k : K} (h : m.get? k = none) (v : V) :
    (m.put k v).sumBy f = m.sumBy f + f v := by
  simpa [h] using sumBy_put f m k v

theorem sumBy_put_some {m : InsertionMap K V} {k : K} {w : V} (h : m.get? k = some w) (v : V) :
    (m.put k v).sumBy f + f w = m.sumBy f + f v := by
  simpa [h] using sumBy_put f m k v

theorem sum_filter_key {k : K} {es : List (K × V)} (hn : (es.map Prod.fst).Nodup) :
    ((es.filter fun e => e.1 ≠ k).map fun e => f e.2).sum +
      ((lookupEntries k es).map f).getD 0 = (es.map fun e => f e.2).sum := by
  induction es with
  | nil => simp [lookupEntries]
  | cons e es ih =>
    obtain ⟨hk, hes⟩ := List.nodup_cons.mp hn
    by_cases h : e.1 = k
    · have hf : es.filter (fun a => a.1 ≠ k) = es := List.filter_eq_self.mpr fun a ha => by
        simpa using fun ha' : a.1 = k => hk (List.mem_map.mpr ⟨a, ha, ha'.trans h.symm⟩)
      simp only [lookupEntries, h, List.filter_cons, ne_eq, not_true_eq_false, decide_false,
        Bool.false_eq_true, if_false, if_true, Option.map_some, Option.getD_some] at hf ⊢
      rw [hf, List.map_cons, List.sum_cons, Nat.add_comm]
    · have := ih hes
      simp only [lookupEntries, h, List.filter_cons, ne_eq, not_false_eq_true, decide_true,
        if_false, if_true, List.map_cons, List.sum_cons] at this ⊢
      omega

theorem sumBy_erase (m : InsertionMap K V) (k : K) :
    (m.erase k).sumBy f + ((m.get? k).map f).getD 0 = m.sumBy f := sum_filter_key f m.nodup

theorem sum_renameEntries {old new : K} {v w : V} {es : List (K × V)}
    (hn : (es.map Prod.fst).Nodup) (hold : lookupEntries old es = some w) :
    ((renameEntries old new v es).map fun e => f e.2).sum + f w =
      (es.map fun e => f e.2).sum + f v := by
  induction es with
  | nil => simp [lookupEntries] at hold
  | cons e es ih =>
    obtain ⟨hk, hes⟩ := List.nodup_cons.mp hn
    by_cases he : e.1 = old
    · have hw : e.2 = w := by simpa [lookupEntries, he] using hold
      have hid : renameEntries old new v es = es := by
        conv_rhs => rw [← List.map_id es]
        refine List.map_congr_left fun a ha => ?_
        have hne : a.1 ≠ old := fun hh => hk (List.mem_map.mpr ⟨a, ha, hh.trans he.symm⟩)
        simp [hne]
      simp only [renameEntries, List.map_cons, he, if_true, List.sum_cons] at hid ⊢
      rw [hid, hw]
      omega
    · have hl : lookupEntries old es = some w := by simpa [lookupEntries, he] using hold
      have := ih hes hl
      simp only [renameEntries, List.map_cons, he, if_false, List.sum_cons] at this ⊢
      omega

theorem sumBy_replace {m : InsertionMap K V} {old new : K} {v w : V}
    (hold : m.get? old = some w) (hnew : old = new ∨ new ∉ m.keys) :
    (m.replace old new v).1.sumBy f + f w = m.sumBy f + f v := by
  have hk : old ∈ m.keys := List.mem_map_of_mem (get?_eq_some.mp hold)
  unfold replace
  rw [if_pos hk]
  split_ifs with he hn
  · exact sumBy_put_some f hold v
  · exact absurd hn (hnew.resolve_left he)
  · exact sum_renameEntries f m.nodup hold

end Sum

end InsertionMap

end Qotp.Framework
