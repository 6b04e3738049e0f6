import N8n.Foundations.Transition
import N8n.Scaling.MultiMainSetup

/-!
# Who deletes the leader key

A main extends the life of the leader key only while the key has its own host id: the script
looks at the key in the same step. A main that shuts down does not look at the key: it
deletes whatever is there when its command reaches Redis. `Guarded` says what has to hold of
the steps of a run so that nobody deletes the key of another main: no main shuts down as the
leader while another one has the key, and no main claims the key while another one is about
to delete it. A step that misses the condition leaves a state in which the very next step can
delete the key of another main.
-/

namespace N8n.LeaderElection

open MultiMainSetup LeaderElectionClient Transition

variable {st st' : LeaderElection} {hostId h : String}

/-- The leader key was deleted and its life was extended only by the main that had it. -/
def UnseatsNobody (st : LeaderElection) : Prop :=
  (∀ d ∈ st.deleted, d.2 = d.1) ∧ ∀ r ∈ st.refreshed, r.2 = r.1

/-- A main has sent the command to delete the leader key, and Redis has not executed it. -/
def Deleting (hostId : String) (st : LeaderElection) : Prop :=
  (.shuttingDown, .sent) ∈ (st.mains hostId).awaiting ∨ (hostId, .clearLeader) ∈ st.abandoned

/-- A command claims the key, when it does, while nobody else is about to delete it. -/
def ClaimsSafely (hostId : String) (command : Command) (st : LeaderElection) : Prop :=
  command = .setLeaderIfNotExists → st.leaderKey = none → ∀ h, st.Deleting h → h = hostId

/-- The condition on a step. -/
def Guarded (st : LeaderElection) : Event → Prop
  | .shutdown hostId => (st.mains hostId).isLeader = true → (st.mains hostId).destroyed = false →
      ∀ value, st.leaderKey = some value → value = hostId
  | .execute hostId routine => st.ClaimsSafely hostId routine.command
  | .executeAbandoned hostId command => st.ClaimsSafely hostId command
  | _ => True

/-- Who is about to delete the key has it, if anybody has. -/
structure Safe (st : LeaderElection) : Prop where
  unseatsNobody : UnseatsNobody st
  deleting : ∀ h, st.Deleting h → ∀ value, st.leaderKey = some value → value = h

/-! ### What a routine sends -/

/-- A routine that goes on does not delete the key. -/
theorem shuttingDown_mem_resume {routine : Suspended} {reply : Option Reply}
    {main : MultiMainSetup}
    (hmem : (.shuttingDown, .sent) ∈ (main.resume hostId routine reply).awaiting) :
    (.shuttingDown, .sent) ∈ main.awaiting := by
  have hawait : ∀ r, r ≠ .shuttingDown → ∀ main : MultiMainSetup,
      (.shuttingDown, .sent) ∈ (main.await r).awaiting →
        (.shuttingDown, .sent) ∈ main.awaiting := by
    intro r hr main hmem
    refine (List.mem_append.mp hmem).resolve_right fun h => hr ?_
    exact (congrArg Prod.fst (List.mem_singleton.mp h)).symm
  cases routine with
  | init =>
    simp only [resume, initAnswered] at hmem
    split at hmem <;> exact hmem
  | renewing =>
    simp only [resume, renewalAnswered] at hmem
    split at hmem
    · exact hmem
    · exact hawait .reclaiming nofun main hmem
    · exact hmem
  | reclaiming =>
    simp only [resume, reclaimAnswered] at hmem
    split at hmem <;> exact hmem
  | looking =>
    simp only [resume, leaderAnswered] at hmem
    split at hmem
    · split at hmem
      · split at hmem <;> exact hmem
      · exact hawait .claiming nofun main hmem
    · exact hmem
  | claiming =>
    simp only [resume, claimAnswered] at hmem
    split at hmem <;> exact hmem
  | shuttingDown => exact hmem

/-- What happens to one main sends no command to delete the key. -/
theorem deleting_of_update {f : MultiMainSetup → MultiMainSetup}
    (hf : (.shuttingDown, .sent) ∈ (f (st.mains hostId)).awaiting →
      (.shuttingDown, .sent) ∈ (st.mains hostId).awaiting)
    (hdel : (st.update hostId f).Deleting h) : st.Deleting h := by
  refine hdel.imp_left fun hmem => ?_
  simp only [update] at hmem
  split at hmem
  next heq =>
    subst heq
    exact hf hmem
  · exact hmem

/-- Something happens to one main that does not delete the key. -/
theorem Safe.update (hsafe : Safe st) {f : MultiMainSetup → MultiMainSetup}
    (hf : (.shuttingDown, .sent) ∈ (f (st.mains hostId)).awaiting →
      (.shuttingDown, .sent) ∈ (st.mains hostId).awaiting) : Safe (st.update hostId f) where
  unseatsNobody := hsafe.unseatsNobody
  deleting h hdel := hsafe.deleting h (deleting_of_update hf hdel)

/-! ### Commands -/

theorem mains_execute (hostId : String) (command : Command) (st : LeaderElection) :
    (st.execute hostId command).1.mains = st.mains := by
  cases command with
  | getLeader => rfl
  | setLeaderIfNotExists =>
    rw [execute, LeaderElection.setLeaderIfNotExists]
    split <;> rfl
  | tryRenewLeaderTtl =>
    rw [execute, LeaderElection.tryRenewLeaderTtl]
    split
    · rfl
    · split <;> rfl
  | clearLeader => rfl

theorem abandoned_execute (hostId : String) (command : Command) (st : LeaderElection) :
    (st.execute hostId command).1.abandoned = st.abandoned := by
  cases command with
  | getLeader => rfl
  | setLeaderIfNotExists =>
    rw [execute, LeaderElection.setLeaderIfNotExists]
    split <;> rfl
  | tryRenewLeaderTtl =>
    rw [execute, LeaderElection.tryRenewLeaderTtl]
    split
    · rfl
    · split <;> rfl
  | clearLeader => rfl

theorem deleting_execute_iff {command : Command} :
    (st.execute hostId command).1.Deleting h ↔ st.Deleting h := by
  rw [Deleting, Deleting, mains_execute, abandoned_execute]

/-- Redis executes a command: the key is deleted by who has it. -/
theorem Safe.execute {command : Command} (hsafe : Safe st)
    (hguard : st.ClaimsSafely hostId command)
    (hdel : command = .clearLeader → ∀ value, st.leaderKey = some value → value = hostId) :
    Safe (st.execute hostId command).1 := by
  obtain ⟨hdeleted, hrefreshed⟩ := hsafe.unseatsNobody
  cases command with
  | getLeader => exact hsafe
  | setLeaderIfNotExists =>
    rcases hkey : st.leaderKey with _ | value
    · have heq : (st.execute hostId .setLeaderIfNotExists).1 =
          { st with leaderKey := some hostId } := by
        rw [LeaderElection.execute, LeaderElection.setLeaderIfNotExists, hkey]
      rw [heq]
      refine ⟨⟨hdeleted, hrefreshed⟩, fun h hh value hvalue => ?_⟩
      obtain rfl := Option.some.inj hvalue
      exact (hguard rfl hkey h hh).symm
    · have heq : (st.execute hostId .setLeaderIfNotExists).1 = st := by
        rw [LeaderElection.execute, LeaderElection.setLeaderIfNotExists, hkey]
      rw [heq]
      exact hsafe
  | tryRenewLeaderTtl =>
    rw [LeaderElection.execute, LeaderElection.tryRenewLeaderTtl]
    split
    · exact hsafe
    next value hkey =>
      split
      · exact hsafe
      next heq =>
        refine ⟨⟨hdeleted, fun r hr => ?_⟩, hsafe.deleting⟩
        obtain hr | hr := List.mem_append.mp hr
        · exact hrefreshed r hr
        · obtain rfl := List.mem_singleton.mp hr
          exact not_not.mp heq
  | clearLeader =>
    refine ⟨⟨fun d hd => ?_, hrefreshed⟩, fun h _ value hvalue => nomatch hvalue⟩
    obtain hd | hd := List.mem_append.mp hd
    · exact hdeleted d hd
    · obtain ⟨value, hvalue, rfl⟩ := List.mem_map.mp hd
      exact hdel rfl value (Option.mem_toList.mp hvalue)

/-! ### One step -/

/-- **Step lemma**: a step that meets the condition unseats nobody. -/
theorem Safe.step {e : Event} (hsafe : Safe st) (hguard : st.Guarded e) (hstep : st.Step e st') :
    Safe st' := by
  cases e with
  | init hostId =>
    obtain rfl := Option.some.inj hstep
    refine hsafe.update fun hmem => (List.mem_append.mp hmem).resolve_right fun heq => ?_
    exact nomatch congrArg Prod.fst (List.mem_singleton.mp heq)
  | interval hostId =>
    obtain ⟨-, heq⟩ := Option.ite_none_right_eq_some.mp hstep
    obtain rfl := Option.some.inj heq
    refine hsafe.update fun hmem => ?_
    simp only [checkLeader] at hmem
    split at hmem
    · exact hmem
    · split at hmem
      all_goals
        refine (List.mem_append.mp hmem).resolve_right fun heq => ?_
        exact nomatch congrArg Prod.fst (List.mem_singleton.mp heq)
  | shutdown hostId =>
    obtain rfl := Option.some.inj hstep
    refine ⟨hsafe.unseatsNobody, fun h hdel value hvalue => ?_⟩
    by_cases hdeleting : st.Deleting h
    · exact hsafe.deleting h hdeleting value hvalue
    · -- the command is new: the main that shuts down has sent it
      have hmem := hdel.resolve_right fun hmem => hdeleting (Or.inr hmem)
      simp only [LeaderElection.update] at hmem
      split at hmem
      next heq =>
        subst heq
        simp only [MultiMainSetup.shutdown] at hmem
        split at hmem
        next hleader =>
          obtain hmem | hmem := List.mem_append.mp hmem
          · exact absurd (Or.inl hmem) hdeleting
          · have hsent := congrArg Prod.snd (List.mem_singleton.mp hmem)
            rcases hdestroyed : (st.mains h).destroyed with _ | _
            · exact hguard hleader hdestroyed value hvalue
            · simp [hdestroyed] at hsent
        · exact absurd (Or.inl hmem) hdeleting
      · exact absurd (Or.inl hmem) hdeleting
  | execute hostId routine =>
    obtain ⟨hmem, heq⟩ := Option.ite_none_right_eq_some.mp hstep
    obtain rfl := Option.some.inj heq
    have hexec := hsafe.execute hguard fun hcommand => by
      refine hsafe.deleting hostId (Or.inl ?_)
      cases routine <;> first | exact hmem | cases hcommand
    refine hexec.update fun hmem => ?_
    rw [mains_execute] at hmem ⊢
    obtain hmem | hmem := List.mem_append.mp hmem
    · exact List.mem_of_mem_erase hmem
    · exact nomatch congrArg Prod.snd (List.mem_singleton.mp hmem)
  | executeAbandoned hostId command =>
    obtain ⟨hmem, heq⟩ := Option.ite_none_right_eq_some.mp hstep
    obtain rfl := Option.some.inj heq
    have hsub : ∀ h, Deleting h { st with abandoned := st.abandoned.erase (hostId, command) } →
        st.Deleting h := fun h hdel => hdel.imp_right List.mem_of_mem_erase
    have htake : Safe { st with abandoned := st.abandoned.erase (hostId, command) } :=
      ⟨hsafe.unseatsNobody, fun h hdel => hsafe.deleting h (hsub h hdel)⟩
    refine htake.execute (fun hcommand hkey h hdel => hguard hcommand hkey h (hsub h hdel)) ?_
    rintro rfl
    exact hsafe.deleting hostId (Or.inr hmem)
  | resume hostId routine reply =>
    obtain ⟨-, heq⟩ := Option.ite_none_right_eq_some.mp hstep
    obtain rfl := Option.some.inj heq
    exact hsafe.update fun hmem => List.mem_of_mem_erase (shuttingDown_mem_resume hmem)
  | fail hostId routine command =>
    obtain ⟨hmem, heq⟩ := Option.ite_none_right_eq_some.mp hstep
    obtain rfl := Option.some.inj heq
    -- a command to delete the key is abandoned only by a main that was about to delete it
    have habandon : Safe (st.abandon hostId routine command) := by
      refine ⟨hsafe.unseatsNobody, fun h hdel => hsafe.deleting h ?_⟩
      refine hdel.elim Or.inl fun hin => ?_
      simp only [abandon] at hin
      split at hin
      next hsent =>
        obtain hin | hin := List.mem_append.mp hin
        · exact Or.inr hin
        · obtain ⟨rfl, hcommand⟩ := Prod.mk.inj (List.mem_singleton.mp hin)
          subst hsent
          refine Or.inl ?_
          cases routine <;> first | exact hmem | cases hcommand
      · exact Or.inr hin
    exact habandon.update fun hmem => List.mem_of_mem_erase (shuttingDown_mem_resume hmem)
  | expire =>
    obtain rfl := Option.some.inj hstep
    exact ⟨hsafe.unseatsNobody, fun h _ value hvalue => nomatch hvalue⟩

/-! ### A step that misses the condition -/

/-- Who is about to delete the key deletes it in the next step. -/
theorem exists_step_of_deleting {value : String} (hdel : st.Deleting h)
    (hkey : st.leaderKey = some value) :
    ∃ e st', st.Step e st' ∧ (h, value) ∈ st'.deleted := by
  have hmem : (h, value) ∈ (st.clearLeader h).1.deleted := by
    rw [clearLeader, hkey]
    exact List.mem_append_right _ (List.mem_singleton_self _)
  obtain hsent | habandoned := hdel
  · exact ⟨.execute h .shuttingDown, _, if_pos hsent, hmem⟩
  · refine ⟨.executeAbandoned h .clearLeader, _, if_pos habandoned, ?_⟩
    exact hmem

theorem not_unseatsNobody_of_mem {value : String} (hmem : (h, value) ∈ st.deleted)
    (hne : value ≠ h) : ¬UnseatsNobody st := fun hst => hne (hst.1 _ hmem)

/-- The key is claimed while another main is about to delete it. -/
theorem exists_claims_of_not_claimsSafely {command : Command}
    (h : ¬st.ClaimsSafely hostId command) :
    ∃ k, st.Deleting k ∧ k ≠ hostId ∧
      (st.execute hostId command).1.leaderKey = some hostId := by
  simp only [ClaimsSafely, not_forall] at h
  obtain ⟨rfl, hkey, k, hdel, hne⟩ := h
  refine ⟨k, hdel, hne, ?_⟩
  rw [execute, LeaderElection.setLeaderIfNotExists, hkey]

/-- After a step that misses the condition the next step can unseat another main. -/
theorem exists_step_of_not_guarded {e : Event} (hstep : st.Step e st') (hbad : ¬st.Guarded e) :
    ∃ e' st'', st'.Step e' st'' ∧ ¬UnseatsNobody st'' := by
  cases e with
  | shutdown hostId =>
    obtain rfl := Option.some.inj hstep
    simp only [Guarded, not_forall] at hbad
    obtain ⟨hleader, hdestroyed, value, hkey, hne⟩ := hbad
    have hdel : (st.update hostId MultiMainSetup.shutdown).Deleting hostId := by
      refine Or.inl ?_
      simp only [update, if_true, MultiMainSetup.shutdown, hleader, await, hdestroyed]
      exact List.mem_append_right _ (List.mem_singleton_self _)
    obtain ⟨e', st'', hstep', hmem⟩ := exists_step_of_deleting hdel hkey
    exact ⟨e', st'', hstep', not_unseatsNobody_of_mem hmem hne⟩
  | execute hostId routine =>
    obtain ⟨-, heq⟩ := Option.ite_none_right_eq_some.mp hstep
    obtain rfl := Option.some.inj heq
    obtain ⟨k, hdel, hne, hkey⟩ := exists_claims_of_not_claimsSafely hbad
    have hdel' : ((st.execute hostId routine.command).1.update hostId
        (answer routine (st.execute hostId routine.command).2)).Deleting k := by
      refine (deleting_execute_iff.mpr hdel).imp_left fun hmem => ?_
      simpa only [update, if_neg hne] using hmem
    obtain ⟨e', st'', hstep', hmem⟩ := exists_step_of_deleting hdel' hkey
    exact ⟨e', st'', hstep', not_unseatsNobody_of_mem hmem hne.symm⟩
  | executeAbandoned hostId command =>
    obtain ⟨-, heq⟩ := Option.ite_none_right_eq_some.mp hstep
    obtain rfl := Option.some.inj heq
    obtain ⟨k, hdel, hne, -⟩ := exists_claims_of_not_claimsSafely hbad
    have htake : Deleting k { st with abandoned := st.abandoned.erase (hostId, command) } :=
      hdel.imp_right fun hmem =>
        (List.mem_erase_of_ne fun heq => hne (congrArg Prod.fst heq)).mpr hmem
    have hbad' : ¬ClaimsSafely hostId command
        { st with abandoned := st.abandoned.erase (hostId, command) } := fun hsafe =>
      hbad fun hcommand hkey => absurd (hsafe hcommand hkey k htake) hne
    obtain ⟨-, -, -, hkey⟩ := exists_claims_of_not_claimsSafely hbad'
    obtain ⟨e', st'', hstep', hmem⟩ :=
      exists_step_of_deleting (deleting_execute_iff.mpr htake) hkey
    exact ⟨e', st'', hstep', not_unseatsNobody_of_mem hmem hne.symm⟩
  | init hostId => exact absurd trivial hbad
  | interval hostId => exact absurd trivial hbad
  | resume hostId routine reply => exact absurd trivial hbad
  | fail hostId routine command => exact absurd trivial hbad
  | expire => exact absurd trivial hbad

/-- **The leader key is deleted by who has it.** Let any number of mains start, check,
take over and shut down, with their commands executed in any order and the key expiring at
any moment. In a run whose steps all meet the condition, nobody deletes the key of another
main, or extends its life; and after a step that misses the condition, the next step can
delete the key of another main. -/
theorem unseatsNobody_of_guarded (leaderKey : Option String) (st : LeaderElection)
    (run : Run Step { leaderKey } st) :
    (run.Takes Guarded → run.Visits UnseatsNobody) ∧
      ∀ (s : LeaderElection) (e : Event) (s' : LeaderElection), s.Step e s' → ¬s.Guarded e →
        ∃ e' s'', s'.Step e' s'' ∧ ¬UnseatsNobody s'' := by
  refine ⟨fun h => ?_, fun _ _ _ hstep hbad => exists_step_of_not_guarded hstep hbad⟩
  have hnew : Safe { leaderKey } :=
    ⟨⟨nofun, nofun⟩, fun h hdel => nomatch hdel⟩
  have hvisits : run.Visits Safe :=
    run.visits_of_takes (fun _ _ _ hsafe hguard hstep => hsafe.step hguard hstep) hnew h
  exact hvisits.mono fun _ hsafe => hsafe.unseatsNobody

/-- The leader's key expires, another main becomes leader, and then the first one shuts down. -/
def expiredThenShutdown : List Event :=
  [.init "main-a", .execute "main-a" .init, .resume "main-a" .init (.claimed true), .expire,
    .init "main-b", .execute "main-b" .init, .resume "main-b" .init (.claimed true),
    .shutdown "main-a", .execute "main-a" .shuttingDown]

/-- The first main deletes the key of the second one. -/
theorem not_unseatsNobody_expiredThenShutdown :
    ∃ (st : LeaderElection) (run : Run Step { leaderKey := none } st),
      run.labels = expiredThenShutdown ∧ st.deleted = [("main-a", "main-b")] ∧
        ¬run.Visits UnseatsNobody := by
  have hdeleted : (expiredThenShutdown.foldlM step? { leaderKey := none }).map
      LeaderElection.deleted = some [("main-a", "main-b")] := by decide
  obtain ⟨st, hst, heq⟩ := Option.map_eq_some_iff.mp hdeleted
  obtain ⟨run, hlabels⟩ := Run.exists_labels_eq hst
  refine ⟨st, run, hlabels, heq, fun hvisits => ?_⟩
  have hmem : ("main-a", "main-b") ∈ st.deleted := heq ▸ List.mem_singleton_self _
  exact not_unseatsNobody_of_mem hmem (by decide) hvisits.last

end N8n.LeaderElection
