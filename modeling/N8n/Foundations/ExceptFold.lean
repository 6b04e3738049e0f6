import Mathlib.Data.List.Basic
import Mathlib.Tactic.Common

/-!
# Folds that may fail

A loop over a list that stops at the first failure is `List.foldlM` in `Except ε`. Two
rules: when no step can fail from a state of an invariant, the loop is a plain fold; and
when it succeeds, every prefix of it did. Where the state that the loop had reached survives
the failure, the loop is `foldUntilError`.
-/

universe u v w u'

namespace ExceptFold

variable {ε : Type w} {α : Type u} {β : Type v}

/-- A loop whose steps all succeed is a plain fold. -/
theorem foldlM_eq_ok {f : β → α → Except ε β} {g : β → α → β} (I : β → Prop) (l : List α)
    (hstep : ∀ b, ∀ a ∈ l, I b → f b a = .ok (g b a) ∧ I (g b a)) (b : β) (hb : I b) :
    l.foldlM f b = .ok (l.foldl g b) ∧ I (l.foldl g b) := by
  induction l generalizing b with
  | nil => exact ⟨rfl, hb⟩
  | cons a l ih =>
    obtain ⟨hf, hI⟩ := hstep b a List.mem_cons_self hb
    obtain ⟨hfold, hI'⟩ := ih (fun b a ha => hstep b a (List.mem_cons_of_mem _ ha)) _ hI
    refine ⟨?_, hI'⟩
    rw [List.foldlM_cons, hf]
    exact hfold

/-- A loop that succeeds on a longer list succeeds on the shorter one first. -/
theorem foldlM_concat_eq_ok_iff {f : β → α → Except ε β} {l : List α} {a : α} {b r : β} :
    (l ++ [a]).foldlM f b = .ok r ↔ ∃ r', l.foldlM f b = .ok r' ∧ f r' a = .ok r := by
  rw [List.foldlM_append]
  rcases l.foldlM f b with e | r'
  · exact iff_of_false (fun h => by cases h) fun ⟨_, h, _⟩ => by cases h
  · rw [show ((.ok r' : Except ε β) >>= fun s' => [a].foldlM f s') = f r' a from by
      simp only [List.foldlM_cons, List.foldlM_nil, bind_pure]; rfl]
    simp

variable {f : β → α → Except ε β} {l : List α} {b r : β}

/-- **Invariant rule.** What every step keeps holds after a loop that succeeds. -/
theorem foldlM_induct {P : β → Prop} (hstep : ∀ b, ∀ a ∈ l, ∀ b', P b → f b a = .ok b' → P b')
    (hb : P b) (h : l.foldlM f b = .ok r) : P r := by
  induction l generalizing b with
  | nil => exact Except.ok.inj h ▸ hb
  | cons x l ih =>
    rw [List.foldlM_cons] at h
    rcases hx : f b x with e | b'
    · rw [hx] at h
      cases h
    · rw [hx] at h
      exact ih (fun b a ha => hstep b a (List.mem_cons_of_mem _ ha))
        (hstep b x List.mem_cons_self b' hb hx) h

/-- **Totality rule.** A loop succeeds when every step does from a state of the
invariant. -/
theorem foldlM_exists_ok {P : β → Prop}
    (hstep : ∀ b, ∀ a ∈ l, P b → ∃ b', f b a = .ok b' ∧ P b') (hb : P b) :
    ∃ r, l.foldlM f b = .ok r ∧ P r := by
  induction l generalizing b with
  | nil => exact ⟨b, rfl, hb⟩
  | cons x l ih =>
    obtain ⟨b', hb', hP⟩ := hstep b x List.mem_cons_self hb
    obtain ⟨r, hr, hPr⟩ := ih (fun b a ha => hstep b a (List.mem_cons_of_mem _ ha)) hP
    refine ⟨r, ?_, hPr⟩
    rw [List.foldlM_cons, hb']
    exact hr

/-- **Simulation rule.** A loop whose steps succeed as those of a plain one do succeeds as the plain
one does. -/
theorem foldlM_simulates {γ : Type u'} {R : β → γ → Prop} {k : γ → α → γ} {c : γ}
    (hstep : ∀ b c, ∀ a ∈ l, R b c → ∃ b', f b a = .ok b' ∧ R b' (k c a)) (hb : R b c) :
    ∃ r, l.foldlM f b = .ok r ∧ R r (l.foldl k c) := by
  induction l generalizing b c with
  | nil => exact ⟨b, rfl, hb⟩
  | cons x l ih =>
    obtain ⟨b', hb', hR⟩ := hstep b c x List.mem_cons_self hb
    obtain ⟨r, hr, hRr⟩ := ih (fun b c a ha => hstep b c a (List.mem_cons_of_mem _ ha)) hR
    refine ⟨r, ?_, hRr⟩
    rw [List.foldlM_cons, hb']
    exact hr

/-- When a loop succeeds, so did its step at every element, from a state of the invariant;
and what every step keeps from there on holds in the end. -/
theorem exists_step_of_foldlM_eq_ok {P : β → Prop}
    (hstep : ∀ b, ∀ a ∈ l, ∀ b', P b → f b a = .ok b' → P b') (hb : P b)
    (h : l.foldlM f b = .ok r) {a : α} (ha : a ∈ l) : ∃ b b', P b ∧ f b a = .ok b' ∧
      ∀ Q : β → Prop, (∀ b, ∀ a ∈ l, ∀ b', Q b → f b a = .ok b' → Q b') → Q b' → Q r := by
  induction l generalizing b with
  | nil => exact absurd ha List.not_mem_nil
  | cons x l ih =>
    rw [List.foldlM_cons] at h
    rcases hx : f b x with e | b'
    · rw [hx] at h
      cases h
    · rw [hx] at h
      have htail : ∀ Q : β → Prop, (∀ b, ∀ a ∈ x :: l, ∀ b', Q b → f b a = .ok b' → Q b') →
          ∀ b, ∀ a ∈ l, ∀ b', Q b → f b a = .ok b' → Q b' := fun Q hQ b a ha =>
        hQ b a (List.mem_cons_of_mem _ ha)
      rcases List.mem_cons.mp ha with rfl | ha
      · exact ⟨b, b', hb, hx, fun Q hQ hb' => foldlM_induct (htail Q hQ) hb' h⟩
      · obtain ⟨c, c', hc, hcc, hrest⟩ := ih (htail P hstep)
          (hstep b x List.mem_cons_self b' hb hx) h ha
        exact ⟨c, c', hc, hcc, fun Q hQ => hrest Q (htail Q hQ)⟩

/-- What holds of the result of a computation is decided by running it. -/
instance decidableExistsOk (x : Except ε β) (P : β → Prop) [DecidablePred P] :
    Decidable (∃ r, x = .ok r ∧ P r) :=
  match x with
  | .error _ => isFalse fun ⟨_, h, _⟩ => by cases h
  | .ok r => decidable_of_iff (P r) ⟨fun h => ⟨r, rfl, h⟩, fun ⟨_, h, hP⟩ => Except.ok.inj h ▸ hP⟩

/-! ### Searches -/

variable {γ : Type w} {q : α → Except ε (Option γ)} {o : Option γ}

/-- A search that succeeds found its result at an element, or nothing at any. -/
theorem findSomeM?_eq_ok (h : l.findSomeM? q = .ok o) :
    (∃ a ∈ l, ∃ c, o = some c ∧ q a = .ok (some c)) ∨ (o = none ∧ ∀ a ∈ l, q a = .ok none) := by
  induction l with
  | nil => exact Or.inr ⟨(Except.ok.inj h).symm, fun a ha => absurd ha List.not_mem_nil⟩
  | cons x l ih =>
    rw [List.findSomeM?_cons] at h
    rcases hx : q x with e | _ | c
    · rw [hx] at h
      cases h
    · rw [hx] at h
      rcases ih h with ⟨a, ha, c, hc⟩ | ⟨ho, hall⟩
      · exact Or.inl ⟨a, List.mem_cons_of_mem _ ha, c, hc⟩
      · exact Or.inr ⟨ho, List.forall_mem_cons.mpr ⟨hx, hall⟩⟩
    · rw [hx] at h
      exact Or.inl ⟨x, List.mem_cons_self, c, (Except.ok.inj h).symm, hx⟩

/-- What a search found stands behind elements at which there is nothing. -/
theorem findSomeM?_eq_ok_some {c : γ} (h : l.findSomeM? q = .ok (some c)) :
    ∃ l₁ a l₂, l = l₁ ++ a :: l₂ ∧ q a = .ok (some c) ∧ ∀ b ∈ l₁, q b = .ok none := by
  induction l with
  | nil => cases Except.ok.inj h
  | cons x l ih =>
    rw [List.findSomeM?_cons] at h
    rcases hx : q x with e | _ | c'
    · rw [hx] at h
      cases h
    · rw [hx] at h
      obtain ⟨l₁, a, l₂, rfl, ha, hbefore⟩ := ih h
      exact ⟨x :: l₁, a, l₂, rfl, ha, List.forall_mem_cons.mpr ⟨hx, hbefore⟩⟩
    · rw [hx] at h
      obtain rfl := Option.some.inj (Except.ok.inj h)
      exact ⟨[], x, l, rfl, hx, by simp⟩

/-- A search finds something when it does at an element and succeeds at all those before. -/
theorem exists_findSomeM?_eq_ok_some {l₁ l₂ : List α} {a : α} {c : γ}
    (hbefore : ∀ b ∈ l₁, ∃ o, q b = .ok o) (ha : q a = .ok (some c)) :
    ∃ c', (l₁ ++ a :: l₂).findSomeM? q = .ok (some c') := by
  induction l₁ with
  | nil =>
    refine ⟨c, ?_⟩
    rw [List.nil_append, List.findSomeM?_cons, ha]
    rfl
  | cons x l₁ ih =>
    obtain ⟨o, ho⟩ := hbefore x List.mem_cons_self
    rw [List.cons_append, List.findSomeM?_cons, ho]
    rcases o with _ | c'
    · exact ih fun b hb => hbefore b (List.mem_cons_of_mem _ hb)
    · exact ⟨c', rfl⟩

/-- A search whose tests all succeed does. -/
theorem findSomeM?_exists_ok (h : ∀ a ∈ l, ∃ o, q a = .ok o) : ∃ o, l.findSomeM? q = .ok o := by
  induction l with
  | nil => exact ⟨none, rfl⟩
  | cons x l ih =>
    obtain ⟨o, ho⟩ := h x List.mem_cons_self
    rw [List.findSomeM?_cons, ho]
    rcases o with _ | c
    · exact ih fun a ha => h a (List.mem_cons_of_mem _ ha)
    · exact ⟨some c, rfl⟩

/-! ### Loops whose state survives a failure -/

/-- A loop whose steps update a state and may fail, which ends it. -/
def foldUntilError (step : β → α → β × Except ε Unit) : β → List α → β × Except ε Unit
  | b, [] => (b, .ok ())
  | b, a :: l =>
    match step b a with
    | (b', .ok ()) => foldUntilError step b' l
    | (b', .error e) => (b', .error e)

/-- What every step keeps holds after the loop, also when it failed. -/
theorem foldUntilError_induct {step : β → α → β × Except ε Unit} {P : β → Prop}
    (hstep : ∀ b, ∀ a ∈ l, P b → P (step b a).1) (hb : P b) :
    P (foldUntilError step b l).1 := by
  induction l generalizing b with
  | nil => exact hb
  | cons x l ih =>
    have hx := hstep b x List.mem_cons_self hb
    rw [foldUntilError]
    rcases hs : step b x with ⟨b', e | u⟩
    · rw [hs] at hx
      exact hx
    · rw [hs] at hx
      exact ih (fun b a ha => hstep b a (List.mem_cons_of_mem _ ha)) hx

end ExceptFold
