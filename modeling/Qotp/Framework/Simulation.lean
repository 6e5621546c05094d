import Qotp.Framework.Run

namespace Qotp.Framework

variable {σ τ α β : Type*}

/-- A weaker condition along the same run. -/
theorem along_mono {step : σ → α → Option σ} {ok ok' : σ → α → Prop} (h : ∀ s a, ok s a → ok' s a) {s : σ} {as : List α}
    (ha : Along step ok s as) : Along step ok' s as := by
  induction as generalizing s with
  | nil => trivial
  | cons a as ih => exact ⟨h s a ha.1, fun t ht => ih (ha.2 t ht)⟩

/-- What an invariant gives at each state holds along the run. -/
theorem along_inv {step : σ → α → Option σ} {ok ok' : σ → α → Prop} {Inv : σ → Prop}
    (hstep : ∀ s a t, Inv s → ok s a → step s a = some t → Inv t) (h : ∀ s a, Inv s → ok s a → ok' s a) {s : σ}
    {as : List α} (hs : Inv s) (ha : Along step ok s as) : Along step ok' s as := by
  induction as generalizing s with
  | nil => trivial
  | cons a as ih => exact ⟨h s a hs ha.1, fun t ht => ih (hstep s a t hs ha.1 ht) (ha.2 t ht)⟩

/-- The upper system can follow: from `u` it runs to a state that is related to `t`, every
step of it inside its own domain. -/
def Follows (step : τ → β → Option τ) (ok : τ → β → Prop) (R : σ → τ → Prop) (u : τ) (t : σ) : Prop :=
  ∃ bs v, Along step ok u bs ∧ run step u bs = some v ∧ R t v

section

variable {step : σ → α → Option σ} {dom : σ → α → Prop} {up : τ → β → Option τ} {ok : τ → β → Prop} {R : σ → τ → Prop}

/-- The steps that the upper system takes, one after the other. -/
theorem follows_nil {u : τ} {t : σ} (h : R t u) : Follows up ok R u t := ⟨[], u, trivial, rfl, h⟩

theorem Follows.cons {u v : τ} {b : β} {t : σ} (hok : ok u b) (hv : up u b = some v) (h : Follows up ok R v t) :
    Follows up ok R u t := by
  obtain ⟨bs, w, ha, hw, hR⟩ := h
  exact ⟨b :: bs, w, along_cons hok hv ha, (run_cons up u b bs w).mpr ⟨v, hv, hw⟩, hR⟩

theorem follows_one {u : τ} {b : β} {t : σ} (hok : ok u b) (h : ∃ v, up u b = some v ∧ R t v) : Follows up ok R u t := by
  obtain ⟨v, hv, hR⟩ := h
  exact .cons hok hv (follows_nil hR)

/-- The upper system brings its own invariant along. -/
theorem Follows.with_inv {Inv : τ → Prop} (hinv : ∀ u b v, Inv u → ok u b → up u b = some v → Inv v) {u : τ} {t : σ}
    (hu : Inv u) (h : Follows up ok R u t) : Follows up ok (fun t v => R t v ∧ Inv v) u t := by
  obtain ⟨bs, v, ha, hv, hR⟩ := h
  exact ⟨bs, v, ha, hv, hR, run_inv_along hinv hu ha hv⟩

/-- The simulation rule: where one step can be followed, a whole run can. -/
theorem run_follows (hstep : ∀ s a t u, R s u → dom s a → step s a = some t → Follows up ok R u t) {s t : σ} {u : τ}
    {as : List α} (hR : R s u) (hd : Along step dom s as) (hr : run step s as = some t) : Follows up ok R u t := by
  induction as generalizing s u with
  | nil =>
    cases hr
    exact follows_nil hR
  | cons a as ih =>
    obtain ⟨s', hs, hr⟩ := (run_cons step s a as t).mp hr
    obtain ⟨bs, v, ha, hv, hR'⟩ := hstep s a s' u hR hd.1 hs
    obtain ⟨cs, w, ha', hw, hRw⟩ := ih hR' (hd.2 s' hs) hr
    refine ⟨bs ++ cs, w, along_append ha hv ha', ?_, hRw⟩
    rw [run_append, hv]
    exact hw

end

end Qotp.Framework
