import Mathlib

/-! # Runs of a labelled transition system

`Run step s es s'`: the events `es`, each of them a step, lead from `s` to `s'`.  A property of
every reachable state is proved with `Run.invariant`: it holds at the start and every step keeps
it.  `Guarded ok step` allows only the steps that satisfy a condition on the state before. -/

/-- The events `es` lead from the first state to the last. -/
inductive Run {σ ε : Type*} (step : σ → ε → σ → Prop) : σ → List ε → σ → Prop
  | nil (s : σ) : Run step s [] s
  | cons {s s₁ s₂ : σ} {e : ε} {es : List ε} :
      step s e s₁ → Run step s₁ es s₂ → Run step s (e :: es) s₂

/-- The steps of a system that satisfy a condition on the state before. -/
def Guarded {σ ε : Type*} (ok : σ → ε → Prop) (step : σ → ε → σ → Prop) (s : σ) (e : ε) (s' : σ) :
    Prop := ok s e ∧ step s e s'

namespace Run

variable {σ τ ε : Type*} {step step' : σ → ε → σ → Prop} {s s₁ s₂ : σ} {e : ε} {es : List ε}

theorem single (h : step s e s₁) : Run step s [e] s₁ := .cons h (.nil s₁)

theorem append {es' : List ε} (h : Run step s es s₁) (h' : Run step s₁ es' s₂) :
    Run step s (es ++ es') s₂ := by
  induction h with
  | nil => exact h'
  | cons hs _ ih => exact .cons hs (ih h')

/-- **Invariant rule**: what every step keeps holds at the end of a run if it holds at its
start. -/
theorem invariant {I : σ → Prop} (hstep : ∀ s e s', I s → step s e s' → I s')
    (h : Run step s es s₁) (h0 : I s) : I s₁ := by
  induction h with
  | nil => exact h0
  | cons hs _ ih => exact ih (hstep _ _ _ h0 hs)

/-- A step that one system can do and another one can do as well. -/
theorem mono (hstep : ∀ s e s', step s e s' → step' s e s') (h : Run step s es s₁) :
    Run step' s es s₁ := by
  induction h with
  | nil => exact .nil _
  | cons hs _ ih => exact .cons (hstep _ _ _ hs) ih

/-- Run a partial step function over a list of events. -/
def exec (f : σ → ε → Option σ) : σ → List ε → Option σ
  | s, [] => some s
  | s, e :: es => (f s e).bind (fun s' => exec f s' es)

/-- A step function that only does steps of the system only does runs of it. -/
theorem of_exec {f : σ → ε → Option σ} (hf : ∀ s e s', f s e = some s' → step s e s') :
    exec f s es = some s₁ → Run step s es s₁ := by
  intro h
  induction es generalizing s with
  | nil =>
      obtain rfl := Option.some.inj h
      exact .nil _
  | cons e es ih =>
      obtain ⟨s', hs, h⟩ := Option.bind_eq_some_iff.mp h
      exact .cons (hf _ _ _ hs) (ih h)

/-- A test of the state after a computed run. -/
theorem of_exec_any {f : σ → ε → Option σ} (hf : ∀ s e s', f s e = some s' → step s e s')
    {p : σ → Bool} (h : (exec f s es).any p = true) : ∃ s', Run step s es s' ∧ p s' = true := by
  cases hs : exec f s es with
  | none =>
      rw [hs] at h
      cases h
  | some s' =>
      rw [hs] at h
      exact ⟨s', of_exec hf hs, h⟩

/-- A step function restricted by a condition. -/
def guardOnce (ok : σ → ε → Prop) [∀ s e, Decidable (ok s e)] (f : σ → ε → Option σ) (s : σ)
    (e : ε) : Option σ := if ok s e then f s e else none

theorem of_guardOnce {ok : σ → ε → Prop} [∀ s e, Decidable (ok s e)] {f : σ → ε → Option σ}
    (hf : ∀ s e s', f s e = some s' → step s e s') :
    ∀ s e s', guardOnce ok f s e = some s' → Guarded ok step s e s' := by
  intro s e s' h
  unfold guardOnce at h
  split_ifs at h with hok
  exact ⟨hok, hf _ _ _ h⟩

/-! ### Systems with a step function -/

section visits

variable {f : σ → ε → σ}

/-- The steps of a run: each event with the state before it. -/
def visits (f : σ → ε → σ) : σ → List ε → List (σ × ε)
  | _, [] => []
  | s, e :: es => (s, e) :: visits f (f s e) es

/-- An invariant holds before every step of a run. -/
theorem visits_invariant {I : σ → Prop} (hstep : ∀ s e, I s → I (f s e)) (h0 : I s) :
    ∀ v ∈ visits f s es, I v.1 := by
  induction es generalizing s with
  | nil => simp [visits]
  | cons e es ih =>
      intro v hv
      rcases List.mem_cons.mp hv with rfl | hv
      · exact h0
      · exact ih (hstep s e h0) v hv

/-- **Exact guards**: if a step keeps `P` exactly when `ok` holds of it, then `P` holds throughout a
run exactly when `ok` holds of all its steps. -/
theorem visits_iff {I P : σ → Prop} {ok : σ → ε → Prop} (hstep : ∀ s e, I s → I (f s e))
    (hkeep : ∀ s e, I s → P s → (P (f s e) ↔ ok s e)) (hI : I s) (hP : P s) :
    (∀ v ∈ visits f s es, P (f v.1 v.2)) ↔ ∀ v ∈ visits f s es, ok v.1 v.2 := by
  induction es generalizing s with
  | nil => simp [visits]
  | cons e es ih =>
      simp only [visits, List.forall_mem_cons]
      constructor
      · rintro ⟨h, hrest⟩
        exact ⟨(hkeep s e hI hP).mp h, (ih (hstep s e hI) h).mp hrest⟩
      · rintro ⟨hok, hrest⟩
        have h : P (f s e) := (hkeep s e hI hP).mpr hok
        exact ⟨h, (ih (hstep s e hI) h).mpr hrest⟩

/-- **Guarded steps**: a step that satisfies its guard keeps the invariant and gives `P`. -/
theorem visits_guarded {I : σ → Prop} {G P : σ → ε → Prop}
    (hstep : ∀ s e, I s → G s e → P s e ∧ I (f s e)) (h0 : I s)
    (hG : ∀ v ∈ visits f s es, G v.1 v.2) : ∀ v ∈ visits f s es, P v.1 v.2 := by
  induction es generalizing s with
  | nil => simp [visits]
  | cons e es ih =>
      obtain ⟨hfirst, hrest⟩ := List.forall_mem_cons.mp hG
      obtain ⟨hp, hI⟩ := hstep s e h0 hfirst
      exact List.forall_mem_cons.mpr ⟨hp, ih hI hrest⟩

/-- **Exact guards, with a condition on the run**: if `P` holds of a step exactly when `ok` does, and
such a step keeps the invariant, then `P` holds of all steps exactly when `ok` does. -/
theorem visits_exact {I : σ → Prop} {G P ok : σ → ε → Prop}
    (hstep : ∀ s e, I s → G s e → (P s e ↔ ok s e) ∧ (ok s e → I (f s e))) (h0 : I s)
    (hG : ∀ v ∈ visits f s es, G v.1 v.2) :
    (∀ v ∈ visits f s es, P v.1 v.2) ↔ ∀ v ∈ visits f s es, ok v.1 v.2 := by
  induction es generalizing s with
  | nil => simp [visits]
  | cons e es ih =>
      simp only [visits, List.forall_mem_cons] at hG ⊢
      obtain ⟨hiff, hkeep⟩ := hstep s e h0 hG.1
      rw [hiff]
      exact and_congr_right fun hok => ih (hkeep hok) hG.2

/-- A system with a log: the marks of its steps, the latest first. -/
def logged {α : Type*} (f : σ → ε → σ) (mark : σ → ε → Option α) (p : σ × List α) (e : ε) :
    σ × List α := (f p.1 e, (mark p.1 e).toList ++ p.2)

/-- The log does not change the run. -/
theorem visits_logged {α : Type*} (mark : σ → ε → Option α) (l : List α) (Q : σ → ε → Prop) :
    (∀ v ∈ visits (logged f mark) (s, l) es, Q v.1.1 v.2) ↔ ∀ v ∈ visits f s es, Q v.1 v.2 := by
  induction es generalizing s l with
  | nil => simp [visits]
  | cons e es ih =>
      simp only [visits, List.forall_mem_cons]
      exact and_congr_right fun _ => ih _

/-- The last step of a run. -/
theorem visits_last (es : List ε) (s : σ) (e : ε) : (es.foldl f s, e) ∈ visits f s (es ++ [e]) := by
  induction es generalizing s with
  | nil => exact List.mem_cons_self
  | cons e' es ih => exact List.mem_cons_of_mem _ (ih (f s e'))

theorem visits_mem {v : σ × ε} (hv : v ∈ visits f s es) : v.2 ∈ es := by
  induction es generalizing s with
  | nil => cases hv
  | cons e es ih =>
      rcases List.mem_cons.mp hv with rfl | hv
      · exact List.mem_cons_self
      · exact List.mem_cons_of_mem e (ih hv)

/-- If the state holds the label of the last event, then labels that do not decrease are never below
the one of the state. -/
theorem visits_pairwise {α : Type*} [LE α] {last : σ → α} {label : ε → α}
    (hlast : ∀ s e, last (f s e) = label e) (hes : (es.map label).Pairwise (· ≤ ·))
    (h0 : ∀ e ∈ es, last s ≤ label e) : ∀ v ∈ visits f s es, last v.1 ≤ label v.2 := by
  induction es generalizing s with
  | nil => simp [visits]
  | cons e es ih =>
      rw [List.map_cons, List.pairwise_cons] at hes
      refine List.forall_mem_cons.mpr ⟨h0 e List.mem_cons_self, ih hes.2 fun e' he' => ?_⟩
      rw [hlast]
      exact hes.1 _ (List.mem_map_of_mem he')

/-- **Two steps of a run**: if a step leaves a bound behind that later steps keep, and a step under the
bound is related to the one that left it, then the steps of a run are related in order. -/
theorem visits_related {I : σ → Prop} {G : σ → ε → Prop} {B : σ × ε → σ → Prop}
    {R : σ × ε → σ × ε → Prop} (hstep : ∀ s e, I s → G s e → I (f s e) ∧ B (s, e) (f s e))
    (hkeep : ∀ v s e, I s → G s e → B v s → R v (s, e) ∧ B v (f s e)) (h0 : I s)
    (hG : ∀ v ∈ visits f s es, G v.1 v.2) : (visits f s es).Pairwise R := by
  have hlater : ∀ (es : List ε) (v : σ × ε) (s : σ), I s → B v s →
      (∀ w ∈ visits f s es, G w.1 w.2) → ∀ w ∈ visits f s es, R v w := by
    intro es v s hI hB hG
    refine visits_guarded (I := fun s => I s ∧ B v s) (P := fun s e => R v (s, e))
      (fun s e hs hg => ?_) ⟨hI, hB⟩ hG
    obtain ⟨hR, hB'⟩ := hkeep v s e hs.1 hg hs.2
    exact ⟨hR, (hstep s e hs.1 hg).1, hB'⟩
  induction es generalizing s with
  | nil => exact List.Pairwise.nil
  | cons e es ih =>
      obtain ⟨hg, hrest⟩ := List.forall_mem_cons.mp hG
      obtain ⟨hI, hB⟩ := hstep s e h0 hg
      exact List.Pairwise.cons (hlater es (s, e) (f s e) hI hB hrest) (ih hI hrest)

end visits

end Run
