import Mathlib.Data.List.Nodup
import N8n.Executions.ActiveExecutions
import N8n.Foundations.Transition

/-!
# Each run accounts for itself

A run that comes to its `finalizeExecution` settles the promise of whatever run is current
under its execution id, and what is chained to its own promise removes whatever entry is
there. So the accounting of runs is right as long as runs of one execution are separate: a
run is registered only when no earlier run of the execution can still touch the entry, and
`stopExecution` removes no waiting entry whose run goes on. A step that misses this can be
followed by one that settles the wrong promise or removes the wrong entry.
-/

namespace N8n.ActiveExecutions

open Transition

variable {st st' : ActiveExecutions} {r k : RunId} {executionId id : String}

/-- Capacity is released once for each run, after the run has ended, and what a run that has
ended still holds is about to be released; a run settles its own promise only; and an entry
is removed only after its run has ended. -/
structure Accounted (st : ActiveExecutions) : Prop where
  released_nodup : (st.released.map Prod.fst).Nodup
  released_ended : ∀ p ∈ st.released, (st.runs p.1).ended = true
  held : ∀ r, (st.runs r).reserved = true → (st.runs r).ended = true →
    (st.runs r).settled = true ∧ (st.runs r).cleanedUp = false
  finalized_own : ∀ p ∈ st.finalized, p.1 = p.2
  removed_ended : ∀ p ∈ st.removed, p.2 = true

/-- A run can still touch the entry of its execution: it has not come to its
`finalizeExecution`, or what is chained to its promise will remove the entry. -/
def Run.LiveFor (executionId : String) (run : Run) : Prop :=
  run.phase = .added executionId ∧
    (run.running = true ∨ run.cleanedUp = false ∧ run.status ≠ .waiting)

/-- No run can touch the entry of an execution. -/
def Separate (executionId : String) (st : ActiveExecutions) : Prop :=
  ∀ k, ¬(st.runs k).LiveFor executionId

/-- The condition on a step. -/
def Separates (st : ActiveExecutions) : Event → Prop
  | .reserved _ executionId false true => st.isRegularMode = false → st.Separate executionId
  | .setRunning _ executionId true => st.Separate executionId
  | .updated _ executionId (some true) => st.Separate executionId
  | .stop executionId => ∀ r, st.activeExecutions.get? executionId = some r →
      (st.runs r).status = .waiting → (st.runs r).ended = true
  | _ => True

/-! ### The invariant -/

/-- What holds of each run, by its phase. -/
def Run.Ok (run : Run) : Prop :=
  match run.phase with
  | .added _ => run.settled = run.ended ∧
      (run.cleanedUp = true → run.settled = true ∧ run.reserved = false)
  | .failed => run.settled = false ∧ run.cleanedUp = false ∧ run.cancelled = false ∧
      run.reserved = false
  | _ => run.settled = false ∧ run.cleanedUp = false ∧ run.running = true ∧ run.cancelled = false

/-- A call of `add` is under way. -/
def Phase.Pending (phase : Phase) : Prop :=
  phase ≠ .idle ∧ phase ≠ .failed ∧ ∀ executionId, phase ≠ .added executionId

structure Sound (st : ActiveExecutions) : Prop where
  ok : ∀ r, (st.runs r).Ok
  current : ∀ id r, st.activeExecutions.get? id = some r → (st.runs r).phase = .added id
  live : ∀ id r, (st.runs r).LiveFor id → st.activeExecutions.get? id = some r ∨
    st.activeExecutions.get? id = none ∧ (st.runs r).ended = true
  fresh : ∀ r, st.nextRun ≤ r → (st.runs r).phase = .idle
  released_nodup : (st.released.map Prod.fst).Nodup
  released_ended : ∀ p ∈ st.released, (st.runs p.1).ended = true
  released_done : ∀ p ∈ st.released, (st.runs p.1).reserved = false ∧
    ((st.runs p.1).phase = .failed ∨ (st.runs p.1).cleanedUp = true)
  finalized_own : ∀ p ∈ st.finalized, p.1 = p.2
  removed_ended : ∀ p ∈ st.removed, p.2 = true

/-- A run whose call of `add` is under way. -/
theorem Run.Ok.of_pending {run : Run} (h : run.Ok) (hphase : run.phase.Pending) :
    run.settled = false ∧ run.cleanedUp = false ∧ run.running = true ∧ run.cancelled = false := by
  obtain ⟨-, hfailed, hadded⟩ := hphase
  rw [Ok] at h
  split at h
  next heq => exact absurd heq (hadded _)
  next heq => exact absurd heq hfailed
  · exact h

theorem Run.Ok.of_added {run : Run} (h : run.Ok) (hphase : run.phase = .added id) :
    run.settled = run.ended ∧
      (run.cleanedUp = true → run.settled = true ∧ run.reserved = false) := by
  rw [Ok, hphase] at h
  exact h

theorem Run.ok_of_added {run : Run} (hphase : run.phase = .added id)
    (hsettled : run.settled = run.ended)
    (hcleaned : run.cleanedUp = true → run.settled = true ∧ run.reserved = false) : run.Ok := by
  rw [Ok, hphase]
  exact ⟨hsettled, hcleaned⟩

theorem Run.ended_of_pending {run : Run} (h : run.Ok) (hphase : run.phase.Pending) :
    run.ended = false := by
  obtain ⟨-, -, hrunning, hcancelled⟩ := h.of_pending hphase
  rw [ended, hrunning, hcancelled]
  rfl

theorem Sound.accounted (h : Sound st) : Accounted st where
  released_nodup := h.released_nodup
  released_ended := h.released_ended
  held r hreserved hended := by
    have hok := h.ok r
    rw [Run.Ok] at hok
    split at hok
    · refine ⟨hok.1.trans hended, Bool.eq_false_iff.mpr fun hcleaned => ?_⟩
      cases hreserved.symm.trans (hok.2 hcleaned).2
    · cases hreserved.symm.trans hok.2.2.2
    · rw [Run.ended, hok.2.2.1, hok.2.2.2] at hended
      cases hended
  finalized_own := h.finalized_own
  removed_ended := h.removed_ended

theorem sound_new (isRegularMode : Bool) : Sound { isRegularMode } where
  ok _ := ⟨rfl, rfl, rfl, rfl⟩
  current := nofun
  live _ _ h := nomatch h.1
  fresh _ _ := rfl
  released_nodup := List.nodup_nil
  released_ended := nofun
  released_done := nofun
  finalized_own := nofun
  removed_ended := nofun

/-- A run whose call of `add` is under way is not released, and not a new one. -/
theorem Sound.of_pending (h : Sound st) (hphase : (st.runs r).phase.Pending) :
    r < st.nextRun ∧ ∀ p ∈ st.released, p.1 ≠ r := by
  constructor
  · by_contra hle
    exact hphase.1 (h.fresh r (Nat.le_of_not_lt hle))
  · rintro p hp rfl
    obtain hfailed | hcleaned := (h.released_done p hp).2
    · exact hphase.2.1 hfailed
    · cases hcleaned.symm.trans ((h.ok p.1).of_pending hphase).2.1

@[simp] theorem runs_update_self (r : RunId) (f : Run → Run) (st : ActiveExecutions) :
    (st.update r f).runs r = f (st.runs r) := if_pos rfl

theorem runs_update_of_ne (f : Run → Run) (st : ActiveExecutions) (hne : k ≠ r) :
    (st.update r f).runs k = st.runs k := if_neg hne

/-- What happens to one run, when the entries stay. -/
theorem Sound.update (h : Sound st) {f : Run → Run} (hok : (f (st.runs r)).Ok)
    (hlt : r < st.nextRun)
    (hadded : ∀ id, (st.runs r).phase = .added id → (f (st.runs r)).phase = .added id)
    (hlive : ∀ id, (f (st.runs r)).LiveFor id → st.activeExecutions.get? id = some r ∨
      st.activeExecutions.get? id = none ∧ (f (st.runs r)).ended = true)
    (hended : (st.runs r).ended = true → (f (st.runs r)).ended = true)
    (hdone : ∀ p ∈ st.released, p.1 = r → (f (st.runs r)).reserved = false ∧
      ((f (st.runs r)).phase = .failed ∨ (f (st.runs r)).cleanedUp = true)) :
    Sound (st.update r f) := by
  have hcases : ∀ (P : Run → Prop) k, (k = r → P (f (st.runs r))) → (k ≠ r → P (st.runs k)) →
      P ((st.update r f).runs k) := by
    intro P k hself hother
    by_cases hk : k = r
    · subst hk
      rw [runs_update_self]
      exact hself rfl
    · rw [runs_update_of_ne f st hk]
      exact hother hk
  exact {
    ok := fun k => hcases _ k (fun _ => hok) fun _ => h.ok k
    current := fun id k hk => hcases (·.phase = .added id) k
      (fun heq => hadded id (h.current id r (heq ▸ hk))) fun _ => h.current id k hk
    live := fun id k => hcases (fun run => run.LiveFor id → _ ∨ _ ∧ run.ended = true) k
      (fun heq hk => heq ▸ hlive id hk) fun _ => h.live id k
    fresh := fun k hk => hcases (·.phase = .idle) k
      (fun heq => absurd hlt (Nat.not_lt.mpr (heq ▸ hk))) fun _ => h.fresh k hk
    released_nodup := h.released_nodup
    released_ended := fun p hp => hcases (·.ended = true) p.1
      (fun heq => hended (heq ▸ h.released_ended p hp)) fun _ => h.released_ended p hp
    released_done := fun p hp => hcases
      (fun run => run.reserved = false ∧ (run.phase = .failed ∨ run.cleanedUp = true)) p.1
      (fun heq => hdone p hp heq) fun _ => h.released_done p hp
    finalized_own := h.finalized_own
    removed_ended := h.removed_ended }

/-! ### `add` -/

/-- What is released when a run gives its capacity back and something else happens to it. -/
theorem update_release (g : Run → Run) (st : ActiveExecutions) :
    (st.release r).update r g =
      { st.update r fun run => g { run with reserved := false } with
        released := if (st.runs r).reserved = true then st.released ++ [(r, (st.runs r).mode)]
          else st.released } := by
  rw [release]
  by_cases hreserved : (st.runs r).reserved = true
  · rw [if_pos hreserved, if_pos hreserved]
    simp only [update]
    congr 1
    funext k
    by_cases hk : k = r
    · simp only [hk]
      rfl
    · simp only [if_neg hk]
  · rw [if_neg hreserved, if_neg hreserved]
    simp only [update]
    congr 1
    funext k
    by_cases hk : k = r
    · -- a run without capacity does not change when it gives it back
      have hsame : st.runs k = { st.runs k with reserved := false } := by
        rw [hk, ← Bool.eq_false_iff.mpr hreserved]
      simp only [if_pos hk]
      rw [← hsame]
    · simp only [if_neg hk]

/-- A run that has ended gives its capacity back. -/
theorem Sound.releaseUpdate {g : Run → Run}
    (h : Sound (st.update r fun run => g { run with reserved := false }))
    (hnot : ∀ p ∈ st.released, p.1 ≠ r)
    (hended : (g { st.runs r with reserved := false }).ended = true)
    (hreserved : (g { st.runs r with reserved := false }).reserved = false)
    (hdone : (g { st.runs r with reserved := false }).phase = .failed ∨
      (g { st.runs r with reserved := false }).cleanedUp = true) :
    Sound ((st.release r).update r g) := by
  rw [update_release]
  split
  · have hmem : ∀ p ∈ st.released ++ [(r, (st.runs r).mode)], p ∈ st.released ∨ p.1 = r := by
      intro p hp
      exact (List.mem_append.mp hp).imp_right fun hp => congrArg Prod.fst (List.mem_singleton.mp hp)
    refine { h with released_nodup := ?_, released_ended := fun p hp => ?_,
                    released_done := fun p hp => ?_ }
    · rw [List.map_append]
      refine h.released_nodup.append (List.nodup_singleton r) (List.disjoint_singleton.mpr ?_)
      intro hr
      obtain ⟨p, hp, heq⟩ := List.mem_map.mp hr
      exact hnot p hp heq
    · obtain hp | heq := hmem p hp
      · exact h.released_ended p hp
      · rw [heq]
        simp only [runs_update_self]
        exact hended
    · obtain hp | heq := hmem p hp
      · exact h.released_done p hp
      · rw [heq]
        simp only [runs_update_self]
        exact ⟨hreserved, hdone⟩
  · exact h

/-- `add` throws. -/
theorem Sound.fail (h : Sound st) (hphase : (st.runs r).phase.Pending) : Sound (st.fail r) := by
  obtain ⟨hlt, hnot⟩ := h.of_pending hphase
  obtain ⟨hsettled, hcleaned, -, hcancelled⟩ := (h.ok r).of_pending hphase
  refine Sound.releaseUpdate ?_ hnot (Bool.true_or _) rfl (Or.inl rfl)
  exact h.update ⟨hsettled, hcleaned, hcancelled, rfl⟩ hlt
    (fun id heq => absurd heq (hphase.2.2 id))
    (fun id hlive => nomatch hlive.1) (fun _ => Bool.true_or _)
    fun p hp heq => absurd heq (hnot p hp)

/-- `add` goes on to its next `await`. -/
theorem Sound.await (h : Sound st) (hphase : (st.runs r).phase.Pending) {f : Run → Run}
    (hnext : (f (st.runs r)).phase.Pending)
    (hsame : (f (st.runs r)).settled = false ∧ (f (st.runs r)).cleanedUp = false ∧
      (f (st.runs r)).running = true ∧ (f (st.runs r)).cancelled = false) :
    Sound (st.update r f) := by
  obtain ⟨hlt, hnot⟩ := h.of_pending hphase
  have hok : (f (st.runs r)).Ok := by
    rw [Run.Ok]
    split
    next heq => exact absurd heq (hnext.2.2 _)
    next heq => exact absurd heq hnext.2.1
    · exact hsame
  have hended := Run.ended_of_pending (h.ok r) hphase
  exact h.update hok hlt (fun id heq => absurd heq (hphase.2.2 id))
    (fun id hlive => absurd hlive.1 (hnext.2.2 id)) (fun heq => nomatch hended.symm.trans heq)
    fun p hp heq => absurd heq (hnot p hp)

/-- A run is registered, and no other run can touch the entry. -/
theorem Sound.register (h : Sound st) (hphase : (st.runs r).phase.Pending)
    (halone : st.Separate executionId) (status : ExecutionStatus) :
    Sound (st.register r executionId status) := by
  obtain ⟨hlt, hnot⟩ := h.of_pending hphase
  obtain ⟨hsettled, hcleaned, hrunning, hcancelled⟩ := (h.ok r).of_pending hphase
  have hself : (st.register r executionId status).runs r =
      { st.runs r with phase := .added executionId, status } := by
    simp only [ActiveExecutions.register, runs_update_self]
  have hother : ∀ k, k ≠ r → (st.register r executionId status).runs k = st.runs k :=
    fun k hk => by
    simp only [ActiveExecutions.register]
    exact runs_update_of_ne _ st hk
  have hget : ∀ id, (st.register r executionId status).activeExecutions.get? id =
      if id = executionId then some r else st.activeExecutions.get? id := fun id =>
    InsertionMap.get?_set _ _ _ _
  have hended : ({ st.runs r with phase := .added executionId, status } : Run).ended = false := by
    rw [Run.ended, hrunning, hcancelled]
    rfl
  refine ⟨fun k => ?_, fun id k hk => ?_, fun id k hlive => ?_, fun k hk => ?_, h.released_nodup,
    fun p hp => ?_, fun p hp => ?_, h.finalized_own, h.removed_ended⟩
  · by_cases hk : k = r
    · rw [hk, hself]
      exact ⟨hsettled.trans hended.symm, fun heq => nomatch hcleaned.symm.trans heq⟩
    · rw [hother k hk]
      exact h.ok k
  · rw [hget] at hk
    split at hk
    next heq =>
      obtain rfl := Option.some.inj hk
      rw [hself, heq]
    · have hne : k ≠ r := fun heq => hphase.2.2 id (heq ▸ h.current id k hk)
      rw [hother k hne]
      exact h.current id k hk
  · rw [hget]
    by_cases hk : k = r
    · subst hk
      rw [hself] at hlive
      rw [if_pos (Phase.added.inj hlive.1).symm]
      exact Or.inl rfl
    · rw [hother k hk] at hlive ⊢
      have hne : id ≠ executionId := fun heq => halone k (heq ▸ hlive)
      rw [if_neg hne]
      exact h.live id k hlive
  · have hne : k ≠ r := Nat.ne_of_gt (Nat.lt_of_lt_of_le hlt hk)
    rw [hother k hne]
    exact h.fresh k hk
  · rw [hother p.1 (hnot p hp)]
    exact h.released_ended p hp
  · rw [hother p.1 (hnot p hp)]
    exact h.released_done p hp

/-- A call of `add` begins. -/
theorem Sound.add (h : Sound st) (mode : WorkflowExecuteMode) (maybeExecutionId : Option String) :
    Sound (st.add mode maybeExecutionId) := by
  have hidle := h.fresh st.nextRun (Nat.le_refl _)
  have hok := h.ok st.nextRun
  simp only [Run.Ok, hidle] at hok
  obtain ⟨phase, hpending, heq⟩ : ∃ phase : Phase, phase.Pending ∧ st.add mode maybeExecutionId =
      { st.update st.nextRun fun run => { run with mode, phase } with
        nextRun := st.nextRun + 1 } := by
    cases maybeExecutionId with
    | none => exact ⟨.creating, ⟨nofun, nofun, nofun⟩, rfl⟩
    | some executionId => exact ⟨.reserving executionId true, ⟨nofun, nofun, nofun⟩, rfl⟩
  rw [heq]
  have hself : (st.update st.nextRun fun run => { run with mode, phase }).runs st.nextRun =
      { st.runs st.nextRun with mode, phase } := runs_update_self _ _ st
  have hother : ∀ k, k ≠ st.nextRun →
      (st.update st.nextRun fun run => { run with mode, phase }).runs k = st.runs k :=
    fun k hk => runs_update_of_ne _ st hk
  have hnot : ∀ p ∈ st.released, p.1 ≠ st.nextRun := by
    rintro p hp heq
    obtain hfailed | hcleaned := (h.released_done p hp).2
    · cases hidle.symm.trans (heq ▸ hfailed)
    · cases hok.2.1.symm.trans (heq ▸ hcleaned)
  refine ⟨fun k => ?_, fun id k hk => ?_, fun id k hlive => ?_, fun k hk => ?_, h.released_nodup,
    fun p hp => ?_, fun p hp => ?_, h.finalized_own, h.removed_ended⟩
  · by_cases hk : k = st.nextRun
    · rw [hk]
      simp only [hself]
      rw [Run.Ok]
      split
      next heq => exact absurd heq (hpending.2.2 _)
      next heq => exact absurd heq hpending.2.1
      · exact hok
    · simp only [hother k hk]
      exact h.ok k
  · have hne : k ≠ st.nextRun := by
      rintro rfl
      cases hidle.symm.trans (h.current id _ hk)
    simp only [hother k hne]
    exact h.current id k hk
  · by_cases hk : k = st.nextRun
    · subst hk
      simp only [hself] at hlive
      exact absurd hlive.1 (hpending.2.2 id)
    · simp only [hother k hk] at hlive ⊢
      exact h.live id k hlive
  · have hne : k ≠ st.nextRun := Nat.ne_of_gt hk
    simp only [hother k hne]
    exact h.fresh k (Nat.le_of_succ_le hk)
  · simp only [hother p.1 (hnot p hp)]
    exact h.released_ended p hp
  · simp only [hother p.1 (hnot p hp)]
    exact h.released_done p hp

/-! ### The other methods -/

/-- The entry of a run that has ended goes. -/
theorem Sound.deleteExecution (h : Sound st) (hended : ∀ r,
      st.activeExecutions.get? executionId = some r → (st.runs r).ended = true) :
    Sound (st.deleteExecution executionId) := by
  have hget : ∀ id, (st.deleteExecution executionId).activeExecutions.get? id =
      if id = executionId then none else st.activeExecutions.get? id := fun id =>
    InsertionMap.get?_erase _ _ _
  refine { h with current := fun id k hk => ?_, live := fun id k hlive => ?_,
                  removed_ended := fun p hp => ?_ }
  · rw [hget] at hk
    exact h.current id k (Option.ite_none_left_eq_some.mp hk).2
  · rw [hget]
    by_cases hid : id = executionId
    · rw [if_pos hid]
      refine Or.inr ⟨rfl, ?_⟩
      obtain hcurrent | ⟨-, hk⟩ := h.live id k hlive
      · exact hended k (hid ▸ hcurrent)
      · exact hk
    · rw [if_neg hid]
      exact h.live id k hlive
  · obtain hp | hp := List.mem_append.mp hp
    · exact h.removed_ended p hp
    · obtain ⟨k, hk, rfl⟩ := List.mem_map.mp hp
      exact hended k (Option.mem_toList.mp hk)

/-- A run that was added is not a new one. -/
theorem Sound.lt_of_added (h : Sound st) (hphase : (st.runs r).phase = .added id) :
    r < st.nextRun := by
  by_contra hle
  cases hphase.symm.trans (h.fresh r (Nat.le_of_not_lt hle))

theorem Sound.setStatus (h : Sound st) (executionId : String) (status : ExecutionStatus) :
    Sound (st.setStatus executionId status) := by
  rw [ActiveExecutions.setStatus]
  split
  · exact h
  next r hcurrent =>
    have hphase := h.current _ _ hcurrent
    have hok := (h.ok r).of_added hphase
    refine h.update (Run.ok_of_added hphase hok.1 hok.2) (h.lt_of_added hphase)
      (fun _ heq => heq) (fun id hlive => ?_) id fun p hp heq => heq ▸ h.released_done p hp
    · obtain rfl := Phase.added.inj (hphase.symm.trans hlive.1)
      exact Or.inl hcurrent

/-- A run that was added comes to its end, with its promise settled. -/
theorem Sound.endRun (h : Sound st) {f : Run → Run}
    (hphase : (st.runs r).phase = .added executionId)
    (hcurrent : st.activeExecutions.get? executionId = some r ∨
      st.activeExecutions.get? executionId = none)
    (hsettled : (f (st.runs r)).settled = true) (hended : (f (st.runs r)).ended = true)
    (hsame : (f (st.runs r)).phase = (st.runs r).phase ∧
      (f (st.runs r)).reserved = (st.runs r).reserved ∧
      (f (st.runs r)).cleanedUp = (st.runs r).cleanedUp) :
    Sound (st.update r f) := by
  have hok := (h.ok r).of_added hphase
  obtain ⟨hphase', hreserved, hcleaned⟩ := hsame
  refine h.update (Run.ok_of_added (hphase'.trans hphase) (hsettled.trans hended.symm) ?_)
    (h.lt_of_added hphase) (fun _ heq => hphase'.trans heq) (fun id hlive => ?_) (fun _ => hended)
    fun p hp heq => ?_
  · rw [hreserved, hcleaned]
    exact fun heq => ⟨hsettled, (hok.2 heq).2⟩
  · obtain rfl := Phase.added.inj (hphase.symm.trans (hphase'.symm.trans hlive.1))
    exact hcurrent.imp_right fun hnone => ⟨hnone, hended⟩
  · rw [hreserved, hphase', hcleaned]
    exact heq ▸ h.released_done p hp

theorem update_update (f g : Run → Run) (st : ActiveExecutions) :
    (st.update r f).update r g = st.update r fun run => g (f run) := by
  simp only [update]
  congr 1
  funext k
  by_cases hk : k = r
  · simp only [if_pos hk]
  · simp only [if_neg hk]

theorem finalizeExecution_of_none (caller : RunId)
    (hget : st.activeExecutions.get? executionId = none) :
    st.finalizeExecution caller executionId = st := by
  rw [finalizeExecution, hget]

theorem finalizeExecution_of_some (caller : RunId)
    (hget : st.activeExecutions.get? executionId = some r) :
    st.finalizeExecution caller executionId = { st.settle r with finalized :=
      if (st.runs r).settled = true then st.finalized else st.finalized ++ [(caller, r)] } := by
  rw [finalizeExecution, hget]

/-- A run comes to its `finalizeExecution`: the promise is its own. -/
theorem Sound.finalize (h : Sound st) (hphase : (st.runs r).phase = .added executionId)
    (hrunning : (st.runs r).running = true) :
    Sound ((st.update r fun run => { run with running := false }).finalizeExecution r
      executionId) := by
  set st₁ := st.update r fun run => { run with running := false } with hst₁
  obtain hcurrent | ⟨hnone, hended⟩ := h.live executionId r ⟨hphase, Or.inl hrunning⟩
  · have hget : st₁.activeExecutions.get? executionId = some r := hcurrent
    have hend : Sound (st₁.settle r) := by
      rw [settle, hst₁, update_update]
      exact h.endRun hphase (Or.inl hcurrent) rfl rfl ⟨rfl, rfl, rfl⟩
    rw [finalizeExecution_of_some r hget]
    refine { hend with finalized_own := fun p hp => ?_ }
    split at hp
    · exact h.finalized_own p hp
    · obtain hp | hp := List.mem_append.mp hp
      · exact h.finalized_own p hp
      · rw [List.mem_singleton.mp hp]
  · -- its entry has gone before, so it was cancelled and its promise is settled
    have hget : st₁.activeExecutions.get? executionId = none := hnone
    have hsettled := ((h.ok r).of_added hphase).1.trans hended
    rw [finalizeExecution_of_none r hget]
    exact h.endRun hphase (Or.inr hnone) hsettled rfl ⟨rfl, rfl, rfl⟩

/-- A run that was cancelled ends. -/
theorem Sound.quit (h : Sound st) (hcancelled : (st.runs r).cancelled = true)
    (hrunning : (st.runs r).running = true) :
    Sound (st.update r fun run => { run with running := false }) := by
  have hended : (st.runs r).ended = true := by
    rw [Run.ended, hcancelled, Bool.or_true]
  obtain ⟨id, hphase⟩ : ∃ id, (st.runs r).phase = .added id := by
    have hok := h.ok r
    rw [Run.Ok] at hok
    split at hok
    next id heq => exact ⟨id, heq⟩
    · cases hcancelled.symm.trans hok.2.2.1
    · cases hcancelled.symm.trans hok.2.2.2
  have hcurrent := h.live id r ⟨hphase, Or.inl hrunning⟩
  exact h.endRun hphase (hcurrent.imp_right And.left)
    (((h.ok r).of_added hphase).1.trans hended) rfl ⟨rfl, rfl, rfl⟩

/-- `stopExecution` removes no waiting entry whose run goes on. -/
theorem Sound.stopExecution (h : Sound st) (hwaiting : ∀ r,
      st.activeExecutions.get? executionId = some r → (st.runs r).status = .waiting →
        (st.runs r).ended = true) :
    Sound (st.stopExecution executionId) := by
  rw [ActiveExecutions.stopExecution]
  split
  · exact h
  next r hcurrent =>
    split
    next hstatus =>
      refine h.deleteExecution fun k hk => ?_
      obtain rfl := Option.some.inj (hcurrent.symm.trans hk)
      exact hwaiting r hcurrent hstatus
    · rw [settle, update_update]
      exact h.endRun (h.current _ _ hcurrent) (Or.inl hcurrent) rfl (Bool.or_true _)
        ⟨rfl, rfl, rfl⟩

/-- What is chained to the promise of a run removes its own entry, if any. -/
theorem Sound.cleanUp (h : Sound st) (hphase : (st.runs r).phase = .added executionId)
    (hsettled : (st.runs r).settled = true) (hcleaned : (st.runs r).cleanedUp = false) :
    Sound (st.cleanUp r executionId) := by
  have hended := ((h.ok r).of_added hphase).1.symm.trans hsettled
  have hlive := h.live executionId r
  have hnot : ∀ p ∈ st.released, p.1 ≠ r := by
    rintro p hp rfl
    obtain hfailed | hdone := (h.released_done p hp).2
    · cases hphase.symm.trans hfailed
    · cases hcleaned.symm.trans hdone
  have hrelease : Sound ((st.release r).update r fun run => { run with cleanedUp := true }) := by
    refine Sound.releaseUpdate ?_ hnot hended rfl (Or.inr rfl)
    refine h.update (Run.ok_of_added hphase (hsettled.trans hended.symm) fun _ => ⟨hsettled, rfl⟩)
      (h.lt_of_added hphase) (fun _ heq => heq) (fun id hlive' => ?_) (fun _ => hended)
      fun p hp heq => absurd heq (hnot p hp)
    have hrunning := hlive'.2.resolve_right fun hbad => nomatch hbad.1
    exact h.live id r ⟨hlive'.1, Or.inl hrunning⟩
  have hself : ((st.release r).update r fun run => { run with cleanedUp := true }).runs r =
      { st.runs r with reserved := false, cleanedUp := true } := by
    rw [update_release]
    simp only [runs_update_self]
  have hentries : ((st.release r).update r fun run =>
      { run with cleanedUp := true }).activeExecutions = st.activeExecutions := by
    rw [update_release]
    rfl
  simp only [ActiveExecutions.cleanUp]
  split
  · exact hrelease
  next hstatus =>
    rw [hself] at hstatus
    refine hrelease.deleteExecution fun k hk => ?_
    rw [hentries] at hk
    -- the run can still touch its entry, so the entry is its own
    have hcurrent := (hlive ⟨hphase, Or.inr ⟨hcleaned, hstatus⟩⟩).resolve_right fun hnone =>
      nomatch hnone.1.symm.trans hk
    obtain rfl := Option.some.inj (hcurrent.symm.trans hk)
    rw [hself]
    exact hended

/-! ### One step -/

/-- **Step lemma**: a step that keeps runs separate keeps the accounting sound. -/
theorem Sound.step {e : Event} (h : Sound st) (hsep : st.Separates e) (hstep : st.Step e st') :
    Sound st' := by
  cases e with
  | add mode maybeExecutionId =>
    obtain rfl := Option.some.inj hstep
    exact h.add mode maybeExecutionId
  | created r executionId =>
    obtain ⟨hphase, heq⟩ := Option.ite_none_right_eq_some.mp hstep
    obtain rfl := Option.some.inj heq
    have hpending : (st.runs r).phase.Pending := hphase ▸ ⟨nofun, nofun, nofun⟩
    cases executionId with
    | none => exact h.fail hpending
    | some executionId =>
      simp only [ActiveExecutions.created, ActiveExecutions.await]
      exact h.await hpending ⟨nofun, nofun, nofun⟩ ((h.ok r).of_pending hpending)
  | reserved r executionId resumes ok =>
    obtain ⟨hphase, heq⟩ := Option.ite_none_right_eq_some.mp hstep
    obtain rfl := Option.some.inj heq
    have hpending : (st.runs r).phase.Pending := hphase ▸ ⟨nofun, nofun, nofun⟩
    cases ok with
    | false => exact h.fail hpending
    | true =>
      have hok := (h.ok r).of_pending hpending
      simp only [if_true, ActiveExecutions.reserved, ActiveExecutions.await, update_update]
      split
      · exact h.await hpending ⟨nofun, nofun, nofun⟩ hok
      next hresumes =>
        split
        · exact h.await hpending ⟨nofun, nofun, nofun⟩ hok
        next hregular =>
          have hreserved : Sound (st.update r fun run => { run with reserved := true }) :=
            h.await hpending hpending hok
          refine hreserved.register ?_ ?_ .running
          · rw [runs_update_self]
            exact hpending
          · cases resumes with
            | true => exact absurd rfl hresumes
            | false =>
              intro k hk
              by_cases hkr : k = r
              · rw [hkr, runs_update_self] at hk
                exact hpending.2.2 _ hk.1
              · rw [runs_update_of_ne _ st hkr] at hk
                exact hsep (Bool.eq_false_iff.mpr hregular) k hk
  | setRunning r executionId ok =>
    obtain ⟨hphase, heq⟩ := Option.ite_none_right_eq_some.mp hstep
    obtain rfl := Option.some.inj heq
    have hpending : (st.runs r).phase.Pending := hphase ▸ ⟨nofun, nofun, nofun⟩
    cases ok with
    | false => exact h.fail hpending
    | true => exact h.register hpending hsep .running
  | updated r executionId updateSucceeded =>
    obtain ⟨hphase, heq⟩ := Option.ite_none_right_eq_some.mp hstep
    obtain rfl := Option.some.inj heq
    have hpending : (st.runs r).phase.Pending := hphase ▸ ⟨nofun, nofun, nofun⟩
    obtain _ | _ | _ := updateSucceeded
    · exact h.fail hpending
    · exact h.fail hpending
    · exact h.register hpending hsep _
  | setStatus executionId status =>
    obtain rfl := Option.some.inj hstep
    exact h.setStatus executionId status
  | finalize r executionId =>
    obtain ⟨⟨hphase, hrunning⟩, heq⟩ := Option.ite_none_right_eq_some.mp hstep
    obtain rfl := Option.some.inj heq
    exact h.finalize hphase hrunning
  | quit r =>
    obtain ⟨⟨hcancelled, hrunning⟩, heq⟩ := Option.ite_none_right_eq_some.mp hstep
    obtain rfl := Option.some.inj heq
    exact h.quit hcancelled hrunning
  | stop executionId =>
    obtain rfl := Option.some.inj hstep
    exact h.stopExecution hsep
  | cleanUp r executionId =>
    obtain ⟨⟨hphase, hsettled, hcleaned⟩, heq⟩ := Option.ite_none_right_eq_some.mp hstep
    obtain rfl := Option.some.inj heq
    exact h.cleanUp hphase hsettled (Bool.eq_false_iff.mpr hcleaned)

/-! ### A step that misses the condition -/

/-- What is chained to the promise of a run, when it removes an entry. -/
theorem removed_cleanUp (hphase : (st.runs k).status ≠ .waiting) (hne : r ≠ k)
    (hcurrent : st.activeExecutions.get? executionId = some r) :
    (r, (st.runs r).ended) ∈ (st.cleanUp k executionId).removed := by
  have hstatus : ((st.release k).update k fun run => { run with cleanedUp := true }).runs k =
      { st.runs k with reserved := false, cleanedUp := true } := by
    rw [update_release]
    simp only [runs_update_self]
  have hother : ((st.release k).update k fun run => { run with cleanedUp := true }).runs r =
      st.runs r := by
    rw [update_release]
    exact if_neg hne
  have hentries : ((st.release k).update k fun run =>
      { run with cleanedUp := true }).activeExecutions.get? executionId = some r := by
    rw [update_release]
    exact hcurrent
  have hnot : ¬(((st.release k).update k fun run => { run with cleanedUp := true }).runs k).status =
      .waiting := hstatus ▸ hphase
  simp only [cleanUp, if_neg hnot, deleteExecution, hentries]
  refine List.mem_append_right _ (List.mem_map.mpr ⟨r, List.mem_singleton_self r, ?_⟩)
  rw [hother]

/-- A run is registered while another one can touch the entry: the next step can go wrong. -/
theorem Sound.exists_step_of_not_separate (h : Sound st) (hphase : (st.runs r).phase.Pending)
    (hbad : ¬st.Separate executionId) (status : ExecutionStatus) :
    ∃ e st', (st.register r executionId status).Step e st' ∧ ¬Accounted st' := by
  simp only [Separate, not_forall, not_not] at hbad
  obtain ⟨k, hadded, hlive⟩ := hbad
  have hne : k ≠ r := by
    rintro rfl
    exact hphase.2.2 _ hadded
  obtain ⟨hsettled, -, hrunning, hcancelled⟩ := (h.ok r).of_pending hphase
  have hself : (st.register r executionId status).runs r =
      { st.runs r with phase := .added executionId, status } := by
    simp only [ActiveExecutions.register, runs_update_self]
  have hother : (st.register r executionId status).runs k = st.runs k := by
    simp only [ActiveExecutions.register]
    exact runs_update_of_ne _ st hne
  have hcurrent : (st.register r executionId status).activeExecutions.get? executionId = some r :=
    InsertionMap.get?_set_self _ _ _
  have hended : ((st.register r executionId status).runs r).ended = false := by
    rw [hself, Run.ended, hrunning, hcancelled]
    rfl
  by_cases hk : (st.runs k).running = true
  · -- the earlier run settles the promise of the new one
    refine ⟨.finalize k executionId, _, if_pos ⟨hother.symm ▸ hadded, hother.symm ▸ hk⟩, ?_⟩
    intro haccounted
    set st₁ := (st.register r executionId status).update k fun run => { run with running := false }
      with hst₁
    have hget : st₁.activeExecutions.get? executionId = some r := hcurrent
    have hunsettled : ¬(st₁.runs r).settled = true := by
      rw [hst₁, runs_update_of_ne _ _ hne.symm, hself]
      exact fun heq => nomatch hsettled.symm.trans heq
    have hmem : (k, r) ∈ (st₁.finalizeExecution k executionId).finalized := by
      rw [finalizeExecution_of_some k hget, if_neg hunsettled]
      exact List.mem_append_right _ (List.mem_singleton_self _)
    exact hne (haccounted.finalized_own _ hmem)
  · -- what is chained to the promise of the earlier run removes the entry of the new one
    obtain ⟨hcleaned, hstatus⟩ := hlive.resolve_left hk
    have hsettledk : (st.runs k).settled = true := by
      rw [((h.ok k).of_added hadded).1, Run.ended, Bool.eq_false_iff.mpr hk]
      rfl
    refine ⟨.cleanUp k executionId, _, if_pos ⟨hother.symm ▸ hadded, hother.symm ▸ hsettledk,
      hother.symm ▸ Bool.eq_false_iff.mp hcleaned⟩, fun haccounted => ?_⟩
    have hmem := removed_cleanUp (hother.symm ▸ hstatus) hne.symm hcurrent
    exact nomatch hended.symm.trans (haccounted.removed_ended _ hmem)

/-- After a step that misses the condition a run can go on so that the accounting is wrong. -/
theorem Sound.exists_run_of_not_separates {e : Event} (h : Sound st) (hstep : st.Step e st')
    (hbad : ¬st.Separates e) : ∃ (st'' : ActiveExecutions) (run : Transition.Run Step st' st''),
      ¬run.Visits Accounted := by
  have hregister : ∀ {st₁ : ActiveExecutions} {r executionId status}, Sound st₁ →
      (st₁.runs r).phase.Pending → ¬st₁.Separate executionId →
      ∃ (st'' : ActiveExecutions)
        (run : Transition.Run Step (st₁.register r executionId status) st''),
          ¬run.Visits Accounted := fun hsound hpending hbad => by
    obtain ⟨e, st'', hstep, hnot⟩ := hsound.exists_step_of_not_separate hpending hbad _
    exact ⟨st'', .head e hstep (.refl st''), fun hvisits => hnot hvisits.last⟩
  cases e with
  | reserved r executionId resumes ok =>
    obtain ⟨hphase, heq⟩ := Option.ite_none_right_eq_some.mp hstep
    obtain rfl := Option.some.inj heq
    have hpending : (st.runs r).phase.Pending := hphase ▸ ⟨nofun, nofun, nofun⟩
    obtain _ | _ := resumes
    · obtain _ | _ := ok
      · exact absurd trivial hbad
      · simp only [Separates, not_forall] at hbad
        obtain ⟨hregular, hbad⟩ := hbad
        have hreserved : Sound (st.update r fun run => { run with reserved := true }) :=
          h.await hpending hpending ((h.ok r).of_pending hpending)
        have hnot :
            ¬(st.update r fun run => { run with reserved := true }).Separate executionId := by
          intro halone
          refine hbad fun k hk => halone k ?_
          by_cases hkr : k = r
          · exact absurd hk.1 (hkr ▸ hpending.2.2 _)
          · rw [runs_update_of_ne _ st hkr]
            exact hk
        have hstate : st.reserved r executionId false =
            (st.update r fun run => { run with reserved := true }).register r executionId
              .running := by
          simp only [ActiveExecutions.reserved]
          rw [if_neg nofun, if_neg]
          exact Bool.eq_false_iff.mp hregular
        rw [if_pos rfl, hstate]
        refine hregister hreserved ?_ hnot
        rw [runs_update_self]
        exact hpending
    · exact absurd trivial hbad
  | setRunning r executionId ok =>
    obtain ⟨hphase, heq⟩ := Option.ite_none_right_eq_some.mp hstep
    obtain rfl := Option.some.inj heq
    obtain _ | _ := ok
    · exact absurd trivial hbad
    · exact hregister h (hphase ▸ ⟨nofun, nofun, nofun⟩) hbad
  | updated r executionId updateSucceeded =>
    obtain ⟨hphase, heq⟩ := Option.ite_none_right_eq_some.mp hstep
    obtain rfl := Option.some.inj heq
    obtain _ | _ | _ := updateSucceeded
    · exact absurd trivial hbad
    · exact absurd trivial hbad
    · exact hregister h (hphase ▸ ⟨nofun, nofun, nofun⟩) hbad
  | stop executionId =>
    obtain rfl := Option.some.inj hstep
    simp only [Separates, not_forall] at hbad
    obtain ⟨r, hcurrent, hwaiting, hended⟩ := hbad
    refine ⟨_, .refl _, fun haccounted => hended ?_⟩
    have hmem : (r, (st.runs r).ended) ∈ (st.stopExecution executionId).removed := by
      rw [ActiveExecutions.stopExecution, hcurrent]
      simp only [if_pos hwaiting, ActiveExecutions.deleteExecution, hcurrent]
      exact List.mem_append_right _ (List.mem_singleton_self _)
    exact haccounted.removed_ended _ hmem
  | _ => exact absurd trivial hbad

/-- **Each run accounts for itself.** For every interleaving of calls of `add`, which may fail
or wait at each `await`, `setStatus`, `finalizeExecution`, `stopExecution` and settled
promises: if every run is registered only when no earlier run can touch the entry of its
execution, and `stopExecution` removes no waiting entry whose run goes on, the accounting is
right in every state. After the first step that misses this, a run can go on so that it is
wrong. -/
theorem runs_accounted (isRegularMode : Bool) (st : ActiveExecutions)
    (run : Transition.Run Step { isRegularMode } st) :
    (run.Takes Separates → run.Visits Accounted) ∧
      (run.Takes Separates → ∀ (e : Event) (st' : ActiveExecutions), st.Step e st' →
        ¬st.Separates e →
          ∃ (st'' : ActiveExecutions) (run' : Transition.Run Step st' st''),
            ¬run'.Visits Accounted) := by
  have hvisits (hsep : run.Takes Separates) : run.Visits Sound :=
    run.visits_of_takes (fun _ _ _ h hsep hstep => h.step hsep hstep) (sound_new isRegularMode) hsep
  constructor
  · intro hsep
    exact (hvisits hsep).mono fun _ h => h.accounted
  · intro hsep e st' hstep hbad
    exact (hvisits hsep).last.exists_run_of_not_separates hstep hbad

/-- An execution waits and is resumed before its first run comes to `finalizeExecution`. -/
def resumedBeforeFinalized : List Event :=
  [.add .webhook none, .created 0 (some "1"), .reserved 0 "1" false true,
    .setRunning 0 "1" true, .setStatus "1" .waiting, .add .webhook (some "1"),
    .reserved 1 "1" true true, .updated 1 "1" (some true), .finalize 0 "1", .cleanUp 1 "1"]

/-- The first run settles the promise of the second, the entry of the second is removed while
it goes on, and the first run keeps its capacity. -/
theorem not_accounted_resumedBeforeFinalized :
    ∃ (st : ActiveExecutions) (run : Transition.Run Step { isRegularMode := true } st),
      run.labels = resumedBeforeFinalized ∧ st.finalized = [(0, 1)] ∧
        st.removed = [(1, false)] ∧ st.released = [(1, .webhook)] ∧
        ((st.runs 0).ended = true ∧ (st.runs 0).reserved = true) ∧ ¬run.Visits Accounted := by
  have hstate : (resumedBeforeFinalized.foldlM step? { isRegularMode := true }).map (fun st =>
      (st.finalized, st.removed, st.released, (st.runs 0).ended, (st.runs 0).reserved)) =
        some ([(0, 1)], [(1, false)], [(1, .webhook)], true, true) := by rfl
  obtain ⟨st, hst, heq⟩ := Option.map_eq_some_iff.mp hstate
  simp only [Prod.mk.injEq] at heq
  obtain ⟨hfinalized, hremoved, hreleased, hended, hreserved⟩ := heq
  obtain ⟨run, hlabels⟩ := Transition.Run.exists_labels_eq hst
  refine ⟨st, run, hlabels, hfinalized, hremoved, hreleased, ⟨hended, hreserved⟩, ?_⟩
  intro hvisits
  have hown := hvisits.last.finalized_own (0, 1) (hfinalized ▸ List.mem_singleton_self _)
  exact Nat.zero_ne_one hown

end N8n.ActiveExecutions
