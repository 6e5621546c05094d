import Mathlib

namespace Qotp.Framework

variable {ι : Type*}

/-- Following `nx` from the cell `a` visits the cells `ps` and then reads `e`. -/
def Chain (nx : ι → Option ι) : ι → List ι → Option ι → Prop
  | a, [], e => nx a = e
  | a, p :: ps, e => nx a = some p ∧ Chain nx p ps e

section Sorted

/-- Where `p` holds of everything before an element it holds of, the elements it holds
of come first. -/
theorem takeWhile_eq_filter_of_pairwise {p : ι → Bool} {l : List ι}
    (h : l.Pairwise fun a b => p b = true → p a = true) :
    l.takeWhile p = l.filter p ∧ l.filter p ++ l.filter (fun a => !p a) = l := by
  induction l with
  | nil => exact ⟨rfl, rfl⟩
  | cons a l ih =>
    obtain ⟨ha, hl⟩ := List.pairwise_cons.mp h
    obtain ⟨htake, hsplit⟩ := ih hl
    cases hp : p a with
    | true => simp [hp, htake, hsplit]
    | false =>
      have hnone : ∀ b ∈ l, p b = false := by
        intro b hb
        rw [← Bool.not_eq_true]
        intro hpb
        rw [ha b hb hpb] at hp
        cases hp
      have hlo : l.filter p = [] := List.filter_eq_nil_iff.mpr fun b hb => by simp [hnone b hb]
      have hhi : l.filter (fun b => !p b) = l := List.filter_eq_self.mpr fun b hb => by simp [hnone b hb]
      simp [hp, hlo, hhi]

theorem getLastD_append_cons (xs : List ι) (a : ι) (ys : List ι) (d : ι) :
    (xs ++ a :: ys).getLastD d = ys.getLastD a := by
  induction xs generalizing d with
  | nil => exact List.getLastD_cons
  | cons x xs ih =>
    rw [List.cons_append, List.getLastD_cons]
    exact ih x

theorem getLastD_mem_append (xs ys : List ι) (d : ι) : xs.getLastD d ∈ d :: (xs ++ ys) := by
  have hmem := List.mem_append_left ys (List.getLastD_mem_cons (l := xs) (a := d))
  rwa [List.cons_append] at hmem

theorem getLast?_or_some (l : List ι) (d : ι) : l.getLast?.or (some d) = some (l.getLastD d) := by
  rw [List.getLastD_eq_getLast?]
  cases l.getLast? <;> rfl

theorem getLastD_reverse (l : List ι) (d : ι) : l.reverse.getLastD d = l.headD d := by
  cases l with
  | nil => rfl
  | cons a l => rw [List.reverse_cons, getLastD_append_cons]; rfl

end Sorted

namespace Chain

variable {nx nx' : ι → Option ι} {a q : ι} {ps lo hi : List ι} {e : Option ι}

theorem append_cons : Chain nx a (lo ++ q :: hi) e ↔ Chain nx a lo (some q) ∧ Chain nx q hi e := by
  induction lo generalizing a with
  | nil => rfl
  | cons p lo ih =>
    simp only [List.cons_append, Chain, ih]
    exact and_assoc.symm

/-- A chain depends only on the cells it visits. -/
theorem congr (h : Chain nx a ps e) (heq : ∀ p ∈ a :: ps, nx' p = nx p) : Chain nx' a ps e := by
  induction ps generalizing a with
  | nil => exact (heq a List.mem_cons_self).trans h
  | cons p ps ih =>
    refine ⟨(heq a List.mem_cons_self).trans h.1, ih h.2 fun b hb => heq b (List.mem_cons_of_mem a hb)⟩

/-- What the cell at the start holds. -/
theorem first (h : Chain nx a ps e) : nx a = ps.head?.or e := by
  cases ps with
  | nil => exact h
  | cons p ps => exact h.1

/-- What the last visited cell holds. -/
theorem last (h : Chain nx a ps e) : nx (ps.getLastD a) = e := by
  induction ps generalizing a with
  | nil => exact h
  | cons p ps ih =>
    rw [List.getLastD_cons]
    exact ih h.2

/-- What the last cell of a front part holds. -/
theorem at_cut (h : Chain nx a (lo ++ hi) e) : nx (lo.getLastD a) = hi.head?.or e := by
  cases hi with
  | nil =>
    rw [List.append_nil] at h
    exact h.last
  | cons q hi => exact (append_cons.mp h).1.last

/-- A new cell takes over the pointer of the cell before it, which is set to it. -/
theorem insert (h : Chain nx a (lo ++ hi) e) (hn : (a :: (lo ++ hi)).Nodup)
    (hq : nx' q = nx (lo.getLastD a)) (hb : nx' (lo.getLastD a) = some q)
    (hother : ∀ p ∈ a :: (lo ++ hi), p ≠ lo.getLastD a → nx' p = nx p) : Chain nx' a (lo ++ q :: hi) e := by
  induction lo generalizing a with
  | nil =>
    refine ⟨hb, ?_⟩
    cases hi with
    | nil => exact hq.trans h
    | cons p hi =>
      refine ⟨hq.trans h.1, h.2.congr fun b hb => hother b (List.mem_cons_of_mem a hb) ?_⟩
      intro hba
      rw [hba] at hb
      exact (List.nodup_cons.mp hn).1 hb
  | cons p lo ih =>
    rw [List.getLastD_cons] at hq hb hother
    obtain ⟨ha, hn'⟩ := List.nodup_cons.mp hn
    have hne : a ≠ lo.getLastD p := by
      intro hlast
      apply ha
      rw [hlast]
      exact getLastD_mem_append lo hi p
    exact ⟨(hother a List.mem_cons_self hne).trans h.1,
      ih h.2 hn' hq hb fun b hb' => hother b (List.mem_cons_of_mem a hb')⟩

/-- The cell before a removed one takes over its pointer. -/
theorem remove (h : Chain nx a (lo ++ q :: hi) e) (hn : (a :: (lo ++ q :: hi)).Nodup)
    (hb : nx' (lo.getLastD a) = nx q)
    (hother : ∀ p ∈ a :: (lo ++ hi), p ≠ lo.getLastD a → nx' p = nx p) : Chain nx' a (lo ++ hi) e := by
  induction lo generalizing a with
  | nil =>
    obtain ⟨_, hq⟩ := h
    cases hi with
    | nil => exact hb.trans hq
    | cons p hi =>
      refine ⟨hb.trans hq.1, hq.2.congr fun b hb => hother b (List.mem_cons_of_mem a hb) ?_⟩
      intro hba
      rw [hba] at hb
      exact (List.nodup_cons.mp hn).1 (List.mem_cons_of_mem q hb)
  | cons p lo ih =>
    rw [List.getLastD_cons] at hb hother
    obtain ⟨ha, hn'⟩ := List.nodup_cons.mp hn
    have hne : a ≠ lo.getLastD p := by
      intro hlast
      apply ha
      rw [hlast]
      exact getLastD_mem_append lo (q :: hi) p
    exact ⟨(hother a List.mem_cons_self hne).trans h.1,
      ih h.2 hn' hb fun b hb' => hother b (List.mem_cons_of_mem a hb')⟩

end Chain

end Qotp.Framework
