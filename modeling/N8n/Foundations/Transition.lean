import Mathlib.Order.WellFounded
import Mathlib.Tactic.Common

/-!
# Labelled transition relations: finite runs and what their steps preserve

A system is a relation `step : σ → α → σ → Prop` between a state, the label of a step and
a successor state. `Run step s t` is the type of finite runs from `s` to `t`; it carries
the labels and the intermediate states, so that a property of *every state reached*
(`Run.Visits`) and a property of *every step taken* (`Run.Takes`) are both functions of
the run.

The rules are the two directions of one argument. If a condition on the steps keeps an
invariant, then a run whose steps all meet it visits only invariant states
(`Run.visits_of_takes`). If moreover a step that misses the condition always leaves a
state in which the target property fails, the condition is *exact*: the run visits only
good states if and only if all its steps meet it (`Run.visits_iff_takes`).
-/

namespace Transition

universe u v

variable {σ : Type u} {α : Type v}

/-- The finite runs of a labelled transition relation, as data. -/
inductive Run (step : σ → α → σ → Prop) : σ → σ → Type (max u v)
  | refl (s : σ) : Run step s s
  | head {s t u : σ} (a : α) (h : step s a t) (r : Run step t u) : Run step s u

namespace Run

variable {step : σ → α → σ → Prop}

/-- Every state of the run, its first and its last one included, satisfies `P`. -/
def Visits (P : σ → Prop) : {s t : σ} → Run step s t → Prop
  | s, _, refl _ => P s
  | s, _, head _ _ r => P s ∧ r.Visits P

/-- Every step of the run is taken from a state and with a label that satisfy `C`. -/
def Takes (C : σ → α → Prop) : {s t : σ} → Run step s t → Prop
  | _, _, refl _ => True
  | s, _, head a _ r => C s a ∧ r.Takes C

/-- The labels of the run, in order. -/
def labels : {s t : σ} → Run step s t → List α
  | _, _, refl _ => []
  | _, _, head a _ r => a :: r.labels

variable {I P : σ → Prop} {C : σ → α → Prop} {s t : σ}

theorem Visits.first {r : Run step s t} (h : r.Visits P) : P s := by
  cases r with
  | refl => exact h
  | head a hs r => exact h.1

theorem Visits.last {r : Run step s t} (h : r.Visits P) : P t := by
  induction r with
  | refl => exact h
  | head a hs r ih => exact ih h.2

theorem Visits.mono {Q : σ → Prop} (hPQ : ∀ s, P s → Q s) {r : Run step s t}
    (h : r.Visits P) : r.Visits Q := by
  induction r with
  | refl => exact hPQ _ h
  | head a hs r ih => exact ⟨hPQ _ h.1, ih h.2⟩

theorem Takes.and {D : σ → α → Prop} {r : Run step s t} (h : r.Takes C) (h' : r.Takes D) :
    r.Takes fun s a => C s a ∧ D s a := by
  induction r with
  | refl => trivial
  | head a hs r ih => exact ⟨⟨h.1, h'.1⟩, ih h.2 h'.2⟩

theorem Takes.mono {D : σ → α → Prop} (hCD : ∀ s a, C s a → D s a) {r : Run step s t}
    (h : r.Takes C) : r.Takes D := by
  induction r with
  | refl => trivial
  | head a hs r ih => exact ⟨hCD _ _ h.1, ih h.2⟩

/-- Conditions that agree on the steps that can be taken. -/
theorem takes_congr {D : σ → α → Prop} (hCD : ∀ s a t, step s a t → (C s a ↔ D s a))
    {r : Run step s t} : r.Takes C ↔ r.Takes D := by
  induction r with
  | refl => exact Iff.rfl
  | head a hs r ih => exact and_congr (hCD _ _ _ hs) ih

/-- A condition on the labels alone. -/
theorem takes_of_labels {Q : α → Prop} {r : Run step s t} (h : ∀ a ∈ r.labels, Q a) :
    r.Takes fun _ a => Q a := by
  induction r with
  | refl => trivial
  | head a hs r ih =>
    exact ⟨h a List.mem_cons_self, ih fun b hb => h b (List.mem_cons_of_mem _ hb)⟩

/-- What every state reached guarantees of its steps. -/
theorem takes_of_visits (hPC : ∀ s a, P s → C s a) {r : Run step s t} (h : r.Visits P) :
    r.Takes C := by
  induction r with
  | refl => trivial
  | head a hs r ih => exact ⟨hPC _ a h.1, ih h.2⟩

/-- **Invariant rule.** A condition on the steps that keeps `I` makes every run whose
steps meet it visit only states of `I`. -/
theorem visits_of_takes (hkeep : ∀ s a t, I s → C s a → step s a t → I t) (hs : I s)
    (r : Run step s t) (h : r.Takes C) : r.Visits I := by
  induction r with
  | refl => exact hs
  | head a hstep r ih => exact ⟨hs, ih (hkeep _ _ _ hs h.1 hstep) h.2⟩

/-- What every step keeps holds of every state reached. -/
theorem visits_of_step (hkeep : ∀ s a t, I s → step s a t → I t) (hs : I s) (r : Run step s t) :
    r.Visits I := by
  induction r with
  | refl => exact hs
  | head a hstep r ih => exact ⟨hs, ih (hkeep _ _ _ hs hstep)⟩

/-- **Exactness rule.** When a step that misses the condition leaves a state outside `P`,
a run from an invariant state visits only states of `P` if and only if all its steps meet
the condition. -/
theorem visits_iff_takes (hIP : ∀ s, I s → P s)
    (hkeep : ∀ s a t, I s → C s a → step s a t → I t)
    (hbreak : ∀ s a t, I s → ¬C s a → step s a t → ¬P t) (hs : I s) (r : Run step s t) :
    r.Visits P ↔ r.Takes C := by
  refine ⟨fun h => ?_, fun h => (visits_of_takes hkeep hs r h).mono hIP⟩
  induction r with
  | refl => trivial
  | @head s₀ _ _ a hstep r ih =>
    have hC : C s₀ a := by
      by_contra hC
      exact hbreak _ _ _ hs hC hstep h.2.first
    exact ⟨hC, ih (hkeep _ _ _ hs hC hstep) h.2⟩

/-- The run that a list of labels makes when the steps are a partial function. -/
theorem exists_labels_eq {next : σ → α → Option σ} {l : List α} (h : l.foldlM next s = some t) :
    ∃ r : Run (fun s a t => next s a = some t) s t, r.labels = l := by
  induction l generalizing s with
  | nil =>
    obtain rfl := Option.some.inj h
    exact ⟨.refl _, rfl⟩
  | cons a l ih =>
    rw [List.foldlM_cons] at h
    obtain ⟨u, hu, hl⟩ := Option.bind_eq_some_iff.mp h
    obtain ⟨r, hr⟩ := ih hl
    exact ⟨.head a hu r, congrArg (a :: ·) hr⟩

/-- A run whose labels satisfy `Q` is one of the steps with such labels. -/
theorem exists_restrict {Q : α → Prop} (r : Run step s t) (h : ∀ a ∈ r.labels, Q a) :
    ∃ r' : Run (fun s a t => step s a t ∧ Q a) s t, ∀ P, r.Visits P → r'.Visits P := by
  induction r with
  | refl => exact ⟨.refl _, fun _ hP => hP⟩
  | head a hs r ih =>
    obtain ⟨r', hr'⟩ := ih fun b hb => h b (List.mem_cons_of_mem _ hb)
    exact ⟨.head a ⟨hs, h a List.mem_cons_self⟩ r', fun P hP => ⟨hP.1, hr' P hP.2⟩⟩

/-- The run of a list of labels that pass a test before each step, when the test is enough for the
condition on states of the invariant. -/
theorem exists_takes_eq (next : σ → α → Option σ) (check : σ → α → Bool)
    (hkeep : ∀ s a t, I s → C s a → next s a = some t → I t)
    (hcheck : ∀ s a, I s → check s a = true → C s a) (hs : I s) {l : List α}
    (h : l.foldlM (fun s a => if check s a then next s a else none) s = some t) :
    ∃ r : Run (fun s a t => next s a = some t) s t, r.labels = l ∧ r.Takes C := by
  induction l generalizing s with
  | nil =>
    obtain rfl := Option.some.inj h
    exact ⟨.refl _, rfl, trivial⟩
  | cons a l ih =>
    rw [List.foldlM_cons] at h
    obtain ⟨u, hu, hl⟩ := Option.bind_eq_some_iff.mp h
    obtain ⟨htest, hu⟩ := Option.ite_none_right_eq_some.mp hu
    have hC := hcheck s a hs htest
    obtain ⟨r, hr, htakes⟩ := ih (hkeep s a u hs hC hu) hl
    exact ⟨.head a hu r, congrArg (a :: ·) hr, hC, htakes⟩

/-- What a run guarantees of a step, found by the labels before it. -/
theorem Takes.of_labels {next : σ → α → Option σ} {C : σ → α → Prop} {s t u : σ}
    {r : Run (fun s a t => next s a = some t) s t} {l l' : List α} {a : α} (h : r.Takes C)
    (hlabels : r.labels = l ++ a :: l') (hl : l.foldlM next s = some u) : C u a := by
  induction l generalizing s with
  | nil =>
    obtain rfl := Option.some.inj hl
    cases r with
    | refl => cases hlabels
    | head b hb r =>
      obtain ⟨rfl, _⟩ := List.cons.inj hlabels
      exact h.1
  | cons b l ih =>
    rw [List.foldlM_cons] at hl
    obtain ⟨v, hv, hl⟩ := Option.bind_eq_some_iff.mp hl
    cases r with
    | refl => cases hlabels
    | head c hc r =>
      obtain ⟨rfl, hrest⟩ := List.cons.inj hlabels
      obtain rfl := Option.some.inj (hc.symm.trans hv)
      exact ih h.2 hrest hl

end Run

end Transition
