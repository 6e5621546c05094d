import Mathlib.Data.List.Basic

namespace Qotp.Framework

variable {σ α : Type*}

/-- Runs a partial step over a list of operations. A refused or panicking step
ends the run, so a run that returns has taken every step. -/
def run (step : σ → α → Option σ) : σ → List α → Option σ
  | s, [] => some s
  | s, a :: as => (step s a).bind fun t => run step t as

/-- Every operation is taken in a state that meets `ok`. -/
def Along (step : σ → α → Option σ) (ok : σ → α → Prop) : σ → List α → Prop
  | _, [] => True
  | s, a :: as => ok s a ∧ ∀ t, step s a = some t → Along step ok t as

instance decidableAlong {step : σ → α → Option σ} {ok : σ → α → Prop} [∀ s a, Decidable (ok s a)] :
    ∀ s as, Decidable (Along step ok s as)
  | _, [] => isTrue trivial
  | s, a :: as =>
    have : ∀ t, Decidable (Along step ok t as) := fun t => decidableAlong t as
    inferInstanceAs (Decidable (ok s a ∧ ∀ t ∈ step s a, Along step ok t as))

theorem run_cons (step : σ → α → Option σ) (s : σ) (a : α) (as : List α) (u : σ) :
    run step s (a :: as) = some u ↔ ∃ t, step s a = some t ∧ run step t as = some u := by
  simp [run, Option.bind_eq_some_iff]

theorem run_append (step : σ → α → Option σ) (s : σ) (as bs : List α) :
    run step s (as ++ bs) = (run step s as).bind fun t => run step t bs := by
  induction as generalizing s with
  | nil => rfl
  | cons a as ih =>
    simp only [List.cons_append, run]
    cases h : step s a with
    | none => rfl
    | some t => simpa using ih t

theorem along_cons {step : σ → α → Option σ} {ok : σ → α → Prop} {s t : σ} {a : α} {as : List α}
    (hok : ok s a) (ht : step s a = some t) (ha : Along step ok t as) : Along step ok s (a :: as) := by
  refine ⟨hok, fun u hu => ?_⟩
  obtain rfl : t = u := Option.some.inj (ht.symm.trans hu)
  exact ha

theorem along_append {step : σ → α → Option σ} {ok : σ → α → Prop} {s t : σ} {as bs : List α}
    (ha : Along step ok s as) (ht : run step s as = some t) (hb : Along step ok t bs) : Along step ok s (as ++ bs) := by
  induction as generalizing s with
  | nil =>
    obtain rfl : s = t := by simpa [run] using ht
    exact hb
  | cons a as ih =>
    obtain ⟨u, hu, ht⟩ := (run_cons step s a as t).mp ht
    exact along_cons ha.1 hu (ih (ha.2 u hu) ht)

theorem along_of_forall {step : σ → α → Option σ} {p : α → Prop} {s : σ} {as : List α} (hp : ∀ a ∈ as, p a) :
    Along step (fun _ a => p a) s as := by
  induction as generalizing s with
  | nil => trivial
  | cons a as ih =>
    exact ⟨hp a List.mem_cons_self, fun _ _ => ih fun b hb => hp b (List.mem_cons_of_mem a hb)⟩

/-- Two conditions along a run, taken together. -/
theorem along_and {step : σ → α → Option σ} {ok ok' : σ → α → Prop} {s : σ} {as : List α}
    (ha : Along step ok s as) (ha' : Along step ok' s as) : Along step (fun s a => ok s a ∧ ok' s a) s as := by
  induction as generalizing s with
  | nil => trivial
  | cons a as ih => exact ⟨⟨ha.1, ha'.1⟩, fun t ht => ih (ha.2 t ht) (ha'.2 t ht)⟩

/-- The invariant rule under a condition on each step. -/
theorem run_inv_along {step : σ → α → Option σ} {ok : σ → α → Prop} {Inv : σ → Prop}
    (hstep : ∀ s a t, Inv s → ok s a → step s a = some t → Inv t) {s u : σ} {as : List α}
    (hs : Inv s) (ha : Along step ok s as) (hr : run step s as = some u) : Inv u := by
  induction as generalizing s with
  | nil =>
    obtain rfl : s = u := by simpa [run] using hr
    exact hs
  | cons a as ih =>
    obtain ⟨t, ht, hu⟩ := (run_cons step s a as u).mp hr
    exact ih (hstep s a t hs ha.1 ht) (ha.2 t ht) hu

/-- The invariant rule. -/
theorem run_inv {step : σ → α → Option σ} {Inv : σ → Prop} (hstep : ∀ s a t, Inv s → step s a = some t → Inv t)
    {s u : σ} {as : List α} (hs : Inv s) (hr : run step s as = some u) : Inv u :=
  run_inv_along (fun s a t hi _ => hstep s a t hi) hs (along_of_forall (p := fun _ => True) fun _ _ => trivial) hr

/-- The total rule: under the condition no step is refused, so the run returns. -/
theorem run_total_along {step : σ → α → Option σ} {ok : σ → α → Prop} {Inv : σ → Prop}
    (hstep : ∀ s a, Inv s → ok s a → ∃ t, step s a = some t ∧ Inv t) {s : σ} {as : List α}
    (hs : Inv s) (ha : Along step ok s as) : ∃ u, run step s as = some u ∧ Inv u := by
  induction as generalizing s with
  | nil => exact ⟨s, rfl, hs⟩
  | cons a as ih =>
    obtain ⟨t, ht, hi⟩ := hstep s a hs ha.1
    obtain ⟨u, hu, hj⟩ := ih hi (ha.2 t ht)
    exact ⟨u, (run_cons step s a as u).mpr ⟨t, ht, hu⟩, hj⟩

/-- The exact form: where `ok` says which steps are taken, it says which runs return. -/
theorem run_returns_iff {step : σ → α → Option σ} {ok : σ → α → Prop} {Inv : σ → Prop} {p : α → Prop}
    (hok : ∀ s a, Inv s → p a → ((∃ t, step s a = some t) ↔ ok s a))
    (hinv : ∀ s a t, Inv s → p a → step s a = some t → Inv t) {s : σ} {as : List α}
    (hs : Inv s) (hp : ∀ a ∈ as, p a) : (∃ u, run step s as = some u) ↔ Along step ok s as := by
  induction as generalizing s with
  | nil => exact iff_of_true ⟨s, rfl⟩ trivial
  | cons a as ih =>
    have hpa := hp a List.mem_cons_self
    have hrest : ∀ t, step s a = some t → ((∃ u, run step t as = some u) ↔ Along step ok t as) := by
      intro t ht
      exact ih (hinv s a t hs hpa ht) fun b hb => hp b (List.mem_cons_of_mem a hb)
    constructor
    · rintro ⟨u, hu⟩
      obtain ⟨t, ht, hu⟩ := (run_cons step s a as u).mp hu
      exact along_cons ((hok s a hs hpa).mp ⟨t, ht⟩) ht ((hrest t ht).mp ⟨u, hu⟩)
    · intro ha
      obtain ⟨t, ht⟩ := (hok s a hs hpa).mpr ha.1
      obtain ⟨u, hu⟩ := (hrest t ht).mpr (ha.2 t ht)
      exact ⟨u, (run_cons step s a as u).mpr ⟨t, ht, hu⟩⟩

/-- A measure that no step lowers, and that the steps that meet `ok` keep: it is the
same behind a run just when every step of the run met `ok`. -/
theorem run_measure_along {step : σ → α → Option σ} {ok : σ → α → Prop} {Inv : σ → Prop} {p : α → Prop} {f : σ → Int}
    (hstep : ∀ s a t, Inv s → p a → step s a = some t → Inv t ∧ f s ≤ f t ∧ (f t = f s ↔ ok s a))
    {s u : σ} {as : List α} (hs : Inv s) (hp : ∀ a ∈ as, p a) (hr : run step s as = some u) :
    f s ≤ f u ∧ (f u = f s ↔ Along step ok s as) := by
  induction as generalizing s with
  | nil =>
    obtain rfl : s = u := by simpa [run] using hr
    exact ⟨Int.le_refl _, iff_of_true rfl trivial⟩
  | cons a as ih =>
    obtain ⟨t, ht, hu⟩ := (run_cons step s a as u).mp hr
    obtain ⟨hi, hle, hok⟩ := hstep s a t hs (hp a List.mem_cons_self) ht
    obtain ⟨hle', hrest⟩ := ih hi (fun b hb => hp b (List.mem_cons_of_mem a hb)) hu
    refine ⟨Int.le_trans hle hle', fun heq => ?_, fun ha => ?_⟩
    · exact along_cons (hok.mp (by omega)) ht (hrest.mp (by omega))
    · exact (hrest.mpr (ha.2 t ht)).trans (hok.mpr ha.1)

/-- A property of states that a step keeps just when it meets `ok` holds in all states of a run just
when every step of the run met `ok`. -/
theorem run_all_iff {step : σ → α → Option σ} {dom ok : σ → α → Prop} {Inv Good : σ → Prop}
    (hstep : ∀ s a t, Inv s → dom s a → step s a = some t → Inv t ∧ (Good s → (Good t ↔ ok s a)))
    {s u : σ} {as : List α} (hs : Inv s) (hg : Good s) (hd : Along step dom s as) (hr : run step s as = some u) :
    (∀ pre, pre <+: as → ∀ t, run step s pre = some t → Good t) ↔ Along step ok s as := by
  induction as generalizing s with
  | nil =>
    refine iff_of_true (fun pre hpre t ht => ?_) trivial
    obtain rfl := List.prefix_nil.mp hpre
    cases ht
    exact hg
  | cons a as ih =>
    obtain ⟨t, ht, hu⟩ := (run_cons step s a as u).mp hr
    obtain ⟨hi, hok⟩ := hstep s a t hs hd.1 ht
    have hok := hok hg
    constructor
    · intro h
      have hgt : Good t := h [a] (List.cons_prefix_cons.mpr ⟨rfl, List.nil_prefix⟩) t ((run_cons ..).mpr ⟨t, ht, rfl⟩)
      refine along_cons (hok.mp hgt) ht ((ih hi hgt (hd.2 t ht) hu).mp fun pre hpre v hv => ?_)
      exact h (a :: pre) (List.cons_prefix_cons.mpr ⟨rfl, hpre⟩) v ((run_cons ..).mpr ⟨t, ht, hv⟩)
    · intro ha pre hpre v hv
      have hgt := hok.mpr ha.1
      cases pre with
      | nil =>
        cases hv
        exact hg
      | cons b pre =>
        obtain ⟨rfl, hrest⟩ := List.cons_prefix_cons.mp hpre
        obtain ⟨t', ht', hv⟩ := (run_cons ..).mp hv
        cases ht.symm.trans ht'
        exact (ih hi hgt (hd.2 t ht) hu).mpr (ha.2 t ht) pre hrest v hv

end Qotp.Framework
