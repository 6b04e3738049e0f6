import Mathlib.Data.List.Nodup
import Mathlib.Order.Bounds.Defs
import N8n.Foundations.Transition

/-!
# The scheduled time of a cron

`registerCron` keeps the time of the upcoming firing in `scheduledTime` and passes it to `onTick`.
On an instance that is not the leader a tick ends before this is advanced. So a firing as leader
that comes after a skipped one is passed the slot of a skipped firing, and the others are passed
their own (`visits_identified_iff`).
-/

namespace N8n

/-- The slots of a cron expression in a time zone. The library's `sendAt()` is the next of them. -/
structure CronTime (τ : Type*) [LinearOrder τ] where
  slots : Set τ
  sendAt : τ → τ
  isLeast_sendAt : ∀ now, IsLeast {slot | slot ∈ slots ∧ now < slot} (sendAt now)

namespace CronTime

variable {τ : Type*} [LinearOrder τ] (cronTime : CronTime τ)

theorem sendAt_mem (now : τ) : cronTime.sendAt now ∈ cronTime.slots :=
  (cronTime.isLeast_sendAt now).1.1

theorem lt_sendAt (now : τ) : now < cronTime.sendAt now := (cronTime.isLeast_sendAt now).1.2

end CronTime

namespace CronFirings

/-! ### Firings -/

/-- A firing of the job of a cron. -/
structure Firing (τ : Type*) where
  slot : τ
  time : τ
  /-- What `onTick` was called with, unless the firing was skipped. -/
  firedFor : Option τ
  deriving DecidableEq, Repr

/-- A registered cron on an instance. -/
structure RegisteredCron (τ : Type*) where
  isLeader : Bool
  scheduledTime : τ
  /-- The slot that the job waits for. -/
  due : τ
  /-- The firings so far, the last one first. -/
  firings : List (Firing τ) := []
  deriving DecidableEq, Repr

inductive Event (τ : Type*)
  | fires (now : τ)
  | changesRole (isLeader : Bool)
  deriving DecidableEq, Repr

section Steps

variable {τ : Type*} [LinearOrder τ] (cronTime : CronTime τ)

/-- `registerCron` at some time. -/
def registerCron (now : τ) (isLeader : Bool) : RegisteredCron τ where
  isLeader := isLeader
  scheduledTime := cronTime.sendAt now
  due := cronTime.sendAt now

/-- What `onTick` is called with. -/
def handleTick (now : τ) (cron : RegisteredCron τ) : Option τ × RegisteredCron τ :=
  if cron.isLeader then
    let firedFor := cron.scheduledTime
    (some firedFor, { cron with scheduledTime := cronTime.sendAt now })
  else (none, cron)

/-- A job fires at its slot or later, and waits for the next slot from then on. -/
def step? (cron : RegisteredCron τ) : Event τ → Option (RegisteredCron τ)
  | .fires now =>
    if cron.due ≤ now then
      let slot := cron.due
      let (firedFor, cron) := handleTick cronTime now { cron with due := cronTime.sendAt now }
      some { cron with firings := { slot, time := now, firedFor } :: cron.firings }
    else none
  | .changesRole isLeader => some { cron with isLeader }

/-! ### The property -/

/-- The firings, the last one first, are identified by slots. -/
structure Identified (firings : List (Firing τ)) : Prop where
  isSlot : ∀ firing ∈ firings, ∀ slot ∈ firing.firedFor,
    slot ∈ cronTime.slots ∧ slot ≤ firing.time
  increasing : (firings.filterMap Firing.firedFor).Pairwise (· > ·)
  notSkipped : ∀ firing ∈ firings, ∀ slot ∈ firing.firedFor,
    ∀ skipped ∈ firings, skipped.firedFor = none → slot ≠ skipped.slot

end Steps

namespace RegisteredCron

variable {τ : Type*}

/-- The last firing was skipped. -/
def LastSkipped (cron : RegisteredCron τ) : Prop :=
  ∃ firing ∈ cron.firings.head?, firing.firedFor = none

/-- The job fires on the leader after a firing that was skipped. -/
def FiresAfterSkipped (cron : RegisteredCron τ) : Event τ → Prop
  | .fires _ => cron.isLeader = true ∧ cron.LastSkipped
  | .changesRole _ => False

end RegisteredCron

/-! ### The invariant -/

section Invariant

variable {τ : Type*} [LinearOrder τ] {cronTime : CronTime τ} {cron cron' : RegisteredCron τ}

structure Inv (cronTime : CronTime τ) (cron : RegisteredCron τ) : Prop where
  dueSlot : cron.due ∈ cronTime.slots
  own : ∀ firing ∈ cron.firings, firing.slot ∈ cronTime.slots ∧ firing.slot ≤ firing.time ∧
    firing.time < cron.due ∧ ∀ slot ∈ firing.firedFor, slot = firing.slot
  increasing : (cron.firings.map Firing.slot).Pairwise (· > ·)
  scheduled : ¬ cron.LastSkipped → cron.scheduledTime = cron.due
  stale : cron.LastSkipped →
    ∃ firing ∈ cron.firings, firing.firedFor = none ∧ cron.scheduledTime = firing.slot

/-- Firings that are passed their own slots are identified by them. -/
theorem Inv.identified (h : Inv cronTime cron) : Identified cronTime cron.firings := by
  refine ⟨fun firing hmem slot hslot => ?_, ?_, fun firing hmem slot hslot skipped hskipped hnone
    heq => ?_⟩
  · obtain ⟨hslots, hle, -, hown⟩ := h.own firing hmem
    rw [hown slot hslot]
    exact ⟨hslots, hle⟩
  · have hslots := List.pairwise_map.mp h.increasing
    refine List.pairwise_filterMap.mpr (hslots.imp_of_mem ?_)
    intro a b ha hb hgt slot hslot slot' hslot'
    rw [(h.own _ ha).2.2.2 slot hslot, (h.own _ hb).2.2.2 slot' hslot']
    exact hgt
  · -- firings with the same slot are the same
    have hnodup : (cron.firings.map Firing.slot).Nodup := h.increasing.imp fun hgt => hgt.ne'
    have hsame : firing.slot = skipped.slot := by
      rw [← heq, (h.own firing hmem).2.2.2 slot hslot]
    rw [List.inj_on_of_nodup_map hnodup hmem hskipped hsame, hnone] at hslot
    cases hslot

theorem inv_registerCron (now : τ) (isLeader : Bool) :
    Inv cronTime (registerCron cronTime now isLeader) where
  dueSlot := cronTime.sendAt_mem now
  own _ hmem := absurd hmem List.not_mem_nil
  increasing := .nil
  scheduled _ := rfl
  stale := fun ⟨_, hmem, _⟩ => nomatch hmem

/-- What a firing does. -/
theorem step?_fires {now : τ} (h : step? cronTime cron (.fires now) = some cron') :
    cron.due ≤ now ∧ cron'.due = cronTime.sendAt now ∧
      (cron.isLeader = true ∧ cron'.scheduledTime = cronTime.sendAt now ∧
          cron'.firings = ⟨cron.due, now, some cron.scheduledTime⟩ :: cron.firings ∨
        cron.isLeader = false ∧ cron'.scheduledTime = cron.scheduledTime ∧
          cron'.firings = ⟨cron.due, now, none⟩ :: cron.firings) := by
  simp only [step?, Option.ite_none_right_eq_some, Option.some.injEq] at h
  obtain ⟨hdue, rfl⟩ := h
  refine ⟨hdue, ?_⟩
  cases hleader : cron.isLeader with
  | true => exact ⟨by simp [handleTick], .inl ⟨rfl, by simp [handleTick]⟩⟩
  | false => exact ⟨by simp [handleTick], .inr ⟨rfl, by simp [handleTick]⟩⟩

/-- A firing that is passed nothing but its own slot. -/
theorem Inv.fires (h : Inv cronTime cron) {now : τ} {firedFor : Option τ} (hdue : cron.due ≤ now)
    (hown : ∀ slot ∈ firedFor, slot = cron.due) (hdue' : cron'.due = cronTime.sendAt now)
    (hfirings : cron'.firings = ⟨cron.due, now, firedFor⟩ :: cron.firings)
    (hscheduled : firedFor ≠ none → cron'.scheduledTime = cron'.due)
    (hstale : firedFor = none →
      ∃ firing ∈ cron'.firings, firing.firedFor = none ∧ cron'.scheduledTime = firing.slot) :
    Inv cronTime cron' := by
  have hlast : cron'.LastSkipped ↔ firedFor = none := by
    rw [RegisteredCron.LastSkipped, hfirings]
    simp
  have hlater : cron.due < cron'.due := by
    rw [hdue']
    exact hdue.trans_lt (cronTime.lt_sendAt now)
  refine ⟨?_, fun firing hmem => ?_, ?_, fun hnot => hscheduled (hlast.not.mp hnot),
    fun hskipped => hstale (hlast.mp hskipped)⟩
  · rw [hdue']
    exact cronTime.sendAt_mem now
  · rw [hfirings] at hmem
    obtain rfl | hold := List.mem_cons.mp hmem
    · exact ⟨h.dueSlot, hdue, hdue' ▸ cronTime.lt_sendAt now, hown⟩
    · obtain ⟨hslot, hle, hlt, hfired⟩ := h.own firing hold
      exact ⟨hslot, hle, hlt.trans hlater, hfired⟩
  · rw [hfirings, List.map_cons, List.pairwise_cons]
    refine ⟨fun slot hslot => ?_, h.increasing⟩
    obtain ⟨firing, hmem, rfl⟩ := List.mem_map.mp hslot
    obtain ⟨-, hle, hlt, -⟩ := h.own firing hmem
    exact hle.trans_lt hlt

/-- A step keeps the invariant, unless the job fires on the leader after a skipped firing. -/
theorem Inv.step (h : Inv cronTime cron) {event : Event τ}
    (hnot : ¬ cron.FiresAfterSkipped event) (hstep : step? cronTime cron event = some cron') :
    Inv cronTime cron' := by
  cases event with
  | changesRole isLeader =>
    obtain rfl := Option.some.inj hstep
    exact ⟨h.dueSlot, h.own, h.increasing, h.scheduled, h.stale⟩
  | fires now =>
    obtain ⟨hdue, hdue', ⟨hleader, hscheduled, hfirings⟩ | ⟨-, hscheduled, hfirings⟩⟩ :=
      step?_fires hstep
    · have hlast : ¬ cron.LastSkipped := fun hskipped => hnot ⟨hleader, hskipped⟩
      refine h.fires hdue (fun slot hslot => ?_) hdue' hfirings (fun _ => ?_) fun hnone => ?_
      · rw [← Option.some.inj hslot, h.scheduled hlast]
      · rw [hscheduled, hdue']
      · cases hnone
    · refine h.fires hdue (fun slot hslot => ?_) hdue' hfirings (fun hne => ?_) fun _ => ?_
      · cases hslot
      · exact absurd rfl hne
      · rw [hscheduled, hfirings]
        by_cases hlast : cron.LastSkipped
        · obtain ⟨firing, hmem, hnone, heq⟩ := h.stale hlast
          exact ⟨firing, List.mem_cons_of_mem _ hmem, hnone, heq⟩
        · -- the first that is skipped, and `scheduledTime` stays at its slot
          exact ⟨_, List.mem_cons_self, rfl, h.scheduled hlast⟩

/-- A firing on the leader after a skipped one is passed the slot of a skipped firing. -/
theorem Inv.not_identified (h : Inv cronTime cron) {event : Event τ}
    (hafter : cron.FiresAfterSkipped event) (hstep : step? cronTime cron event = some cron') :
    ¬ Identified cronTime cron'.firings := by
  intro hidentified
  cases event with
  | changesRole isLeader => exact hafter
  | fires now =>
    obtain ⟨hleader, hlast⟩ := hafter
    obtain ⟨-, -, ⟨-, -, hfirings⟩ | ⟨hnot, -, -⟩⟩ := step?_fires hstep
    · obtain ⟨skipped, hmem, hnone, heq⟩ := h.stale hlast
      rw [hfirings] at hidentified
      exact hidentified.notSkipped _ List.mem_cons_self _ rfl skipped
        (List.mem_cons_of_mem _ hmem) hnone heq
    · rw [hleader] at hnot
      cases hnot

end Invariant

/-! ### The result -/

/-- **The firings of a cron are identified by slots that are later and later, and were not skipped,
unless the job fires on the leader after a firing that was skipped.** -/
theorem visits_identified_iff {τ : Type*} [LinearOrder τ] (cronTime : CronTime τ) (now : τ)
    (isLeader : Bool) {cron : RegisteredCron τ}
    (r : Transition.Run (fun cron event cron' => step? cronTime cron event = some cron')
      (registerCron cronTime now isLeader) cron) :
    r.Visits (fun cron => Identified cronTime cron.firings) ↔
      r.Takes fun cron event => ¬ cron.FiresAfterSkipped event :=
  r.visits_iff_takes (fun _ h => h.identified) (fun _ _ _ h hnot hstep => h.step hnot hstep)
    (fun _ _ _ h hafter hstep => h.not_identified (not_not.mp hafter) hstep)
    (inv_registerCron now isLeader)

/-- Every second. -/
private def everySecond : CronTime ℕ where
  slots := Set.univ
  sendAt now := now + 1
  isLeast_sendAt now := ⟨⟨trivial, Nat.lt_succ_self now⟩, fun _ hslot => hslot.2⟩

/-- The firing at 1 is skipped, and the one at 2 is passed the time 1. -/
theorem not_identified_afterTakeover : ∃ (cron : RegisteredCron ℕ) (r : Transition.Run
    (fun cron event cron' => step? everySecond cron event = some cron')
    (registerCron everySecond 0 false) cron),
    ¬ r.Visits (fun cron => Identified everySecond cron.firings) := by
  let r : Transition.Run (fun cron event cron' => step? everySecond cron event = some cron')
      (registerCron everySecond 0 false) _ :=
    .head (.fires 1) rfl <| .head (.changesRole true) rfl <| .head (.fires 2) rfl <| .refl _
  refine ⟨_, r, fun hvisits => ?_⟩
  exact hvisits.last.notSkipped ⟨2, 2, some 1⟩ List.mem_cons_self 1 rfl ⟨1, 1, none⟩
    (List.mem_cons_of_mem _ List.mem_cons_self) rfl rfl

end CronFirings

end N8n
