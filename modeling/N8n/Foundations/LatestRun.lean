import Mathlib.Data.List.Basic
import Mathlib.Tactic.Common

/-!
# The latest run of a log

The events of a log start a run, continue it, end it, or have nothing to do with it. The latest run
is what has happened since the last start or end, the start included. A reader that takes some of
the ends for other events sees too much; `latestRun_eq_iff` says exactly when it does not.
-/

universe u

variable {α : Type u}

/-- What an event is to a run. -/
inductive RunRole where
  | starts
  | continues
  | ends
  | other
  deriving DecidableEq, Repr

/-- The latest run of a log that is given with the newest event first. -/
def latestRun (role : α → RunRole) : List α → List α
  | [] => []
  | x :: earlier =>
    match role x with
    | .starts => [x]
    | .continues => latestRun role earlier ++ [x]
    | .ends => []
    | .other => latestRun role earlier

section Cases

variable {role : α → RunRole} {x : α} (earlier : List α)

theorem latestRun_of_starts (h : role x = .starts) : latestRun role (x :: earlier) = [x] := by
  rw [latestRun, h]

theorem latestRun_of_continues (h : role x = .continues) :
    latestRun role (x :: earlier) = latestRun role earlier ++ [x] := by
  rw [latestRun, h]

theorem latestRun_of_ends (h : role x = .ends) : latestRun role (x :: earlier) = [] := by
  rw [latestRun, h]

theorem latestRun_of_other (h : role x = .other) :
    latestRun role (x :: earlier) = latestRun role earlier := by
  rw [latestRun, h]

end Cases

/-- `role'` takes some of the ends of `role` for other events. -/
def MissesEnds (role role' : α → RunRole) (x : α) : Prop :=
  role' x = role x ∨ role x = .ends ∧ role' x = .other

/-- Who misses ends sees no less. -/
theorem latestRun_suffix {role role' : α → RunRole} {log : List α}
    (h : ∀ x ∈ log, MissesEnds role role' x) : latestRun role log <:+ latestRun role' log := by
  induction log with
  | nil => exact List.suffix_rfl
  | cons x earlier ih =>
    have ih := ih fun y hy => h y (List.mem_cons_of_mem _ hy)
    obtain heq | ⟨hends, hother⟩ := h x List.mem_cons_self
    · rw [latestRun, latestRun, heq]
      cases role x with
      | starts | ends => exact List.suffix_rfl
      | continues =>
        obtain ⟨more, hmore⟩ := ih
        exact ⟨more, by rw [← List.append_assoc, hmore]⟩
      | other => exact ih
    · rw [latestRun_of_ends _ hends]
      exact List.nil_suffix

/-- Each end that is missed is of no run, or something that is seen to start or to end a run has
come later. -/
def MissesHarmlessly (role role' : α → RunRole) (log : List α) : Prop :=
  ∀ later x earlier, log = later ++ x :: earlier → role x = .ends → role' x = .other →
    latestRun role earlier = [] ∨ ∃ y ∈ later, role' y = .starts ∨ role' y = .ends

theorem missesHarmlessly_cons_of_reset {role role' : α → RunRole} {x : α} {earlier : List α}
    (hx : role' x = .starts ∨ role' x = .ends) : MissesHarmlessly role role' (x :: earlier) := by
  intro later y e heq _ hother
  obtain ⟨rfl, h⟩ | ⟨later', rfl, -⟩ := List.cons_eq_append_iff.mp heq
  · obtain rfl := (List.cons.inj h).1
    rw [hother] at hx
    obtain hx | hx := hx <;> cases hx
  · exact .inr ⟨x, List.mem_cons_self, hx⟩

theorem missesHarmlessly_cons {role role' : α → RunRole} {x : α} {earlier : List α}
    (hx : ¬ (role' x = .starts ∨ role' x = .ends)) :
    MissesHarmlessly role role' (x :: earlier) ↔
      (role x = .ends → role' x = .other → latestRun role earlier = []) ∧
        MissesHarmlessly role role' earlier := by
  constructor
  · intro h
    refine ⟨fun hends hother => ?_, fun later y e heq hends hother => ?_⟩
    · simpa using h [] x earlier rfl hends hother
    · obtain hnil | ⟨z, hz, hreset⟩ := h (x :: later) y e (by rw [heq]; rfl) hends hother
      · exact .inl hnil
      · obtain rfl | hz := List.mem_cons.mp hz
        · exact absurd hreset hx
        · exact .inr ⟨z, hz, hreset⟩
  · intro ⟨hnow, h⟩ later y e heq hends hother
    obtain ⟨rfl, hcons⟩ | ⟨later', rfl, hearlier⟩ := List.cons_eq_append_iff.mp heq
    · obtain ⟨rfl, rfl⟩ := List.cons.inj hcons
      exact .inl (hnow hends hother)
    · obtain hnil | ⟨z, hz, hreset⟩ := h later' y e hearlier hends hother
      · exact .inl hnil
      · exact .inr ⟨z, List.mem_cons_of_mem _ hz, hreset⟩

/-- **When missing ends does no harm.** -/
theorem latestRun_eq_iff {role role' : α → RunRole} {log : List α}
    (h : ∀ x ∈ log, MissesEnds role role' x) :
    latestRun role' log = latestRun role log ↔ MissesHarmlessly role role' log := by
  induction log with
  | nil => simp [latestRun, MissesHarmlessly]
  | cons x earlier ih =>
    have hearlier : ∀ y ∈ earlier, MissesEnds role role' y :=
      fun y hy => h y (List.mem_cons_of_mem _ hy)
    have ih := ih hearlier
    obtain heq | ⟨hends, hother⟩ := h x List.mem_cons_self
    · cases hrole : role' x with
      | starts =>
        rw [latestRun_of_starts _ hrole, latestRun_of_starts _ (heq ▸ hrole)]
        exact iff_of_true rfl (missesHarmlessly_cons_of_reset (.inl hrole))
      | ends =>
        rw [latestRun_of_ends _ hrole, latestRun_of_ends _ (heq ▸ hrole)]
        exact iff_of_true rfl (missesHarmlessly_cons_of_reset (.inr hrole))
      | continues =>
        rw [latestRun_of_continues _ hrole, latestRun_of_continues _ (heq ▸ hrole),
          List.append_left_inj, ih, missesHarmlessly_cons (by simp [hrole])]
        simp [hrole]
      | other =>
        rw [latestRun_of_other _ hrole, latestRun_of_other _ (heq ▸ hrole), ih,
          missesHarmlessly_cons (by simp [hrole])]
        simp [← heq, hrole]
    · rw [latestRun_of_other _ hother, latestRun_of_ends _ hends,
        missesHarmlessly_cons (by simp [hother]), ← ih]
      constructor
      · intro hnil
        have hnil' : latestRun role earlier = [] := by
          have hsuffix := latestRun_suffix hearlier
          rw [hnil] at hsuffix
          exact List.suffix_nil.mp hsuffix
        exact ⟨fun _ _ => hnil', hnil.trans hnil'.symm⟩
      · intro ⟨hnil, hsame⟩
        rw [hsame]
        exact hnil hends hother
