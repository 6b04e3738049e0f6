import N8n.Foundations.Transition
import N8n.Services.Resolution

/-!
# Sequences of calls

Calls of `get` one after the other, each of which may construct services, find a circular dependency
or end because a constructor throws. A call in which no constructor throws fails with a circular
dependency exactly when parameters lead back, and of every call nothing remains but the instances of
what it constructed (`gets_memoised`).
-/

namespace N8n

namespace Container

open Relation

variable {κ ν ε : Type} [DecidableEq κ]

/-! ### Sequences of calls -/

/-- A call, and how it ended. -/
structure Call (κ ν ε : Type) where
  type : κ
  result : Except (Failure κ ε) ν

variable {services : Services κ ν ε} {registrations : InsertionMap κ (Option (Constructor ν ε))}
  {c c' : Container κ ν ε} {type : κ}

def Gets (services : Services κ ν ε) (c : Container κ ν ε) (call : Call κ ν ε)
    (c' : Container κ ν ε) : Prop :=
  get services call.type c = some (call.result, c')

/-- What a call throws. -/
structure Outcome (services : Services κ ν ε) (c : Container κ ν ε) (call : Call κ ν ε)
    (c' : Container κ ν ε) : Prop where
  circular : c'.thrown = c.thrown → ((∃ path, call.result = .error (.circular path)) ↔
    c.LeadsBack services call.type)
  thrown : c'.thrown ≠ c.thrown → ∃ culprit error, c'.thrown = c.thrown ++ [(culprit, error)] ∧
    call.result = .error (if services.isAbstractError error then .abstractClass culprit
      else .thrown error)

/-- The factory of a service, if it has one, returns no falsy values. -/
def AlwaysTruthy (services : Services κ ν ε)
    (registrations : InsertionMap κ (Option (Constructor ν ε))) (type : κ) : Prop :=
  ∀ factory, registrations.get? type = some (some factory) →
    ∀ call dependencies value, factory call dependencies = .ok value →
      services.truthy value = true

/-- What has become of the container after some calls. -/
structure Memoised (services : Services κ ν ε)
    (registrations : InsertionMap κ (Option (Constructor ν ε))) (calls : List (Call κ ν ε))
    (c : Container κ ν ε) : Prop where
  stack : c.resolutionStack = []
  instances : c.instances = c.constructed.foldl store (ofRegistrations registrations).instances
  ordered : EachAfter (fun earlier k => List.Forall₂ (Given services registrations.keys earlier)
    (services.paramTypes k.type) k.dependencies) c.constructed
  once : ∀ type, AlwaysTruthy services registrations type →
    (c.constructed.filter (·.type = type)).length ≤ 1
  returned : ∀ call ∈ calls, ∀ value, call.result = .ok value →
    ∃ k ∈ c.constructed, k.type = call.type ∧ k.value = value
  same : ∀ call ∈ calls, ∀ call' ∈ calls, call.type = call'.type →
    AlwaysTruthy services registrations call.type → ∀ value value', call.result = .ok value →
      call'.result = .ok value' → value = value'

/-- What a service constructs is truthy, unless it has a factory that returns something else. -/
theorem Inv.truthy (h : Inv services registrations c)
    (htruthy : AlwaysTruthy services registrations type) {k : Construction κ ν}
    (hk : k ∈ c.constructed) (htype : k.type = type) : services.truthy k.value = true := by
  obtain ⟨factory?, call, hget, hmade⟩ := h.made k hk
  cases factory? with
  | none => exact services.truthy_construct _ _ _ _ hmade
  | some factory => exact htruthy factory (htype ▸ hget) _ _ _ hmade

theorem Inv.length_filter_le (h : Inv services registrations c)
    (htruthy : AlwaysTruthy services registrations type) :
    (c.constructed.filter (·.type = type)).length ≤ 1 := by
  have honce : (c.constructed.filter (·.type = type)).Pairwise fun _ _ => False := by
    refine (h.once.filter _).imp_of_mem fun hk hk' hfalsy => ?_
    obtain ⟨hk, htype⟩ := List.mem_filter.mp hk
    obtain ⟨-, htype'⟩ := List.mem_filter.mp hk'
    have hfalse := hfalsy ((of_decide_eq_true htype).trans (of_decide_eq_true htype').symm)
    rw [h.truthy htruthy hk (of_decide_eq_true htype)] at hfalse
    cases hfalse
  generalize c.constructed.filter (·.type = type) = l at honce
  match l with
  | [] => exact Nat.zero_le 1
  | [_] => exact Nat.le_refl 1
  | k :: k' :: rest => exact ((List.pairwise_cons.mp honce).1 k' List.mem_cons_self).elim

theorem LeadsBack.mem_keys (h : c.LeadsBack services type) : type ∈ c.instances.keys := by
  obtain ⟨back, hreach, hcycle⟩ := h
  obtain rfl | ⟨next, hnext, -⟩ := ReflTransGen.cases_head hreach
  · obtain ⟨next, hnext, -⟩ := TransGen.head'_iff.mp hcycle
    exact hnext.1.mem_keys
  · exact hnext.1.mem_keys

/-- How a call for a registered service ends. -/
theorem outcome_of_ends {call : Call κ ν ε}
    (h : Ends services c call.type c c' (Resolved services registrations c c' (some call.type))
      call.result) : Outcome services c call c' := by
  have hne : ∀ entry : κ × ε, c.thrown ++ [entry] ≠ c.thrown := fun entry heq => by
    simp at heq
  obtain ⟨type, result⟩ := call
  cases result with
  | ok value =>
    obtain ⟨hthrown, -, haccessible⟩ := h
    refine ⟨fun _ => iff_of_false (fun ⟨_, hpath⟩ => nomatch hpath) ?_,
      fun hchanged => absurd hthrown hchanged⟩
    exact not_leadsBack_of_acc (haccessible type rfl)
  | error failure =>
    cases failure with
    | circular path =>
      obtain ⟨hthrown, hback⟩ := h
      exact ⟨fun _ => iff_of_true ⟨path, rfl⟩ hback, fun hchanged => absurd hthrown hchanged⟩
    | notDecorated type => exact absurd h id
    | abstractClass culprit =>
      obtain ⟨error, habstract, hthrown⟩ := h
      refine ⟨fun hsame => absurd (hthrown ▸ hsame) (hne _), fun _ => ⟨culprit, error, hthrown, ?_⟩⟩
      rw [if_pos habstract]
    | thrown error =>
      obtain ⟨hnot, culprit, hthrown⟩ := h
      refine ⟨fun hsame => absurd (hthrown ▸ hsame) (hne _), fun _ => ⟨culprit, error, hthrown, ?_⟩⟩
      rw [if_neg (Bool.eq_false_iff.mp hnot)]

theorem outcome_of_gets (h : Inv services registrations c) (hstack : c.resolutionStack = [])
    {call : Call κ ν ε} (hgets : Gets services c call c') : Outcome services c call c' := by
  obtain ⟨result, c'', heq, -, hends, hunregistered⟩ := exists_get h hstack call.type
  obtain ⟨hresult, rfl⟩ := Prod.ext_iff.mp (Option.some.inj (hgets.symm.trans heq))
  dsimp only at hresult
  subst hresult
  by_cases hmem : call.type ∈ c.instances.keys
  · exact outcome_of_ends (hends hmem)
  · obtain ⟨hresult, hsame⟩ := hunregistered hmem
    refine ⟨fun _ => iff_of_false (fun ⟨path, hpath⟩ => ?_) fun hback => hmem hback.mem_keys,
      fun hchanged => absurd (congrArg Container.thrown hsame) hchanged⟩
    rw [hresult] at hpath
    cases hpath

/-- What a call returns has been constructed. -/
theorem exists_construction_of_gets (h : Inv services registrations c)
    (hstack : c.resolutionStack = []) {call : Call κ ν ε} (hgets : Gets services c call c')
    {value : ν} (hresult : call.result = .ok value) :
    ∃ k ∈ c'.constructed, k.type = call.type ∧ k.value = value := by
  obtain ⟨result, c'', heq, hleaves, hends, hunregistered⟩ := exists_get h hstack call.type
  obtain ⟨hsame, rfl⟩ := Prod.ext_iff.mp (Option.some.inj (hgets.symm.trans heq))
  dsimp only at hsame
  rw [← hsame, hresult] at hends hunregistered
  by_cases hmem : call.type ∈ c.instances.keys
  · obtain ⟨-, hgiven, -⟩ := hends hmem
    rw [Given, if_pos (h.keys ▸ hmem)] at hgiven
    exact hgiven
  · obtain ⟨hnot, -⟩ := hunregistered hmem
    cases hnot

/-- What a call leaves when none is going on. -/
theorem leaves_of_gets (h : Inv services registrations c) (hstack : c.resolutionStack = [])
    {call : Call κ ν ε} (hgets : Gets services c call c') :
    Inv services registrations c' ∧ c'.resolutionStack = [] ∧
      c.constructed <+: c'.constructed := by
  obtain ⟨result, c'', heq, hleaves, -⟩ := exists_get h hstack call.type
  obtain ⟨-, rfl⟩ := Prod.ext_iff.mp (Option.some.inj (hgets.symm.trans heq))
  exact ⟨hleaves.inv, hleaves.continues.stack.trans hstack, hleaves.continues.constructed⟩

/-- A sequence of calls from any container on. -/
theorem gets_of_inv {start : Container κ ν ε} (h : Inv services registrations start)
    (hstack : start.resolutionStack = []) (r : Transition.Run (Gets services) start c) :
    (r.Takes fun c call => ∀ c', Gets services c call c' → Outcome services c call c') ∧
      Inv services registrations c ∧ c.resolutionStack = [] ∧
      start.constructed <+: c.constructed ∧
      ∀ call ∈ r.labels, ∀ value, call.result = .ok value →
        ∃ k ∈ c.constructed, k.type = call.type ∧ k.value = value := by
  induction r with
  | refl => exact ⟨trivial, h, hstack, List.prefix_rfl, fun _ hmem => nomatch hmem⟩
  | head call hgets r ih =>
    obtain ⟨hinv, hstack', hprefix⟩ := leaves_of_gets h hstack hgets
    obtain ⟨htakes, hlast, hempty, hprefix', hreturned⟩ := ih hinv hstack'
    refine ⟨⟨fun _ hgets' => outcome_of_gets h hstack hgets', htakes⟩, hlast, hempty,
      hprefix.trans hprefix', fun call' hmem value hresult => ?_⟩
    obtain rfl | hmem := List.mem_cons.mp hmem
    · obtain ⟨k, hk, hlogged⟩ := exists_construction_of_gets h hstack hgets hresult
      exact ⟨k, hprefix'.subset hk, hlogged⟩
    · exact hreturned call' hmem value hresult

/-- **Sequences of calls.** Every call ends, with a circular dependency exactly when parameters lead
back, unless a constructor throws, and services are constructed once and after their parameters. -/
theorem gets_memoised (r : Transition.Run (Gets services) (ofRegistrations registrations) c) :
    (r.Takes fun c call => ∀ c', Gets services c call c' → Outcome services c call c') ∧
      (∀ type, ∃ result c', Gets services c ⟨type, result⟩ c') ∧
      Memoised services registrations r.labels c := by
  obtain ⟨htakes, hinv, hstack, -, hreturned⟩ := gets_of_inv inv_ofRegistrations rfl r
  refine ⟨htakes, fun type => ?_, hstack, hinv.instances, hinv.ordered,
    fun type htruthy => hinv.length_filter_le htruthy, hreturned, ?_⟩
  · obtain ⟨result, c', heq, -⟩ := exists_get hinv hstack type
    exact ⟨result, c', heq⟩
  · intro call hcall call' hcall' htype htruthy value value' hvalue hvalue'
    obtain ⟨k, hk, hktype, rfl⟩ := hreturned call hcall value hvalue
    obtain ⟨k', hk', hktype', rfl⟩ := hreturned call' hcall' value' hvalue'
    have hfilter : ∀ k ∈ c.constructed, k.type = call.type →
        k ∈ c.constructed.filter (·.type = call.type) := fun k hk heq =>
      List.mem_filter.mpr ⟨hk, decide_eq_true heq⟩
    have hlength := hinv.length_filter_le htruthy
    have hin := hfilter k hk hktype
    have hin' := hfilter k' hk' (hktype'.trans htype.symm)
    generalize c.constructed.filter (·.type = call.type) = l at hlength hin hin'
    match l with
    | [] => cases hin
    | [_] => rw [List.mem_singleton.mp hin, List.mem_singleton.mp hin']
    | _ :: _ :: _ => simp at hlength

/-- A service with another one and itself as parameters, and the constructor of the other throws. -/
private def refusing : Services String Bool String where
  paramTypes type := if type = "Runner" then [some "Client", some "Runner"] else []
  construct type _ _ := if type = "Client" then .error "refused" else .ok true
  undefined := false
  truthy value := value
  truthy_construct type _ _ value h := by
    split_ifs at h
    exact (Except.ok.inj h).symm
  isAbstractError _ := false

private def refusingContainer : Container String Bool String :=
  ofRegistrations ((InsertionMap.empty.set "Runner" none).set "Client" none)

/-- The constructor throws before the circular dependency is found. -/
theorem not_circular_refusing : ∃ c' : Container String Bool String,
    Gets refusing refusingContainer ⟨"Runner", .error (.thrown "refused")⟩ c' ∧
      refusingContainer.LeadsBack refusing "Runner" := by
  have hfollows : refusingContainer.Follows refusing "Runner" "Runner" :=
    ⟨⟨{}, rfl, rfl⟩, List.mem_cons_of_mem _ List.mem_cons_self⟩
  exact ⟨_, rfl, "Runner", .refl, .single hfollows⟩

end Container

end N8n
