import Mathlib.Data.List.Forall2
import Mathlib.Logic.Relation
import N8n.Foundations.History
import N8n.Services.Container

/-!
# The resolution of services

A parameter of a service that has no instance yet is resolved by a nested call. A circular
dependency is found only where parameters lead back (`Fails`), and what is returned leads nowhere
back: it is accessible (`Yields`). What remains of a call is the instances of the services that it
constructed, and each service with an instance was constructed once, after its parameters.
-/

namespace N8n

namespace Container

open Relation

variable {κ ν ε : Type} [DecidableEq κ]

/-! ### What parameters lead to -/

section Relations

variable (services : Services κ ν ε) (c : Container κ ν ε)

/-- A service has an instance that `get` returns. -/
def HasInstance (type : κ) (value : ν) : Prop :=
  ∃ metadata, c.instances.get? type = some metadata ∧
    metadata.instance?.filter services.truthy = some value

/-- A registered service without one. -/
def Missing (type : κ) : Prop :=
  ∃ metadata, c.instances.get? type = some metadata ∧
    metadata.instance?.filter services.truthy = none

/-- A service that has no instance yet has the other as a parameter. -/
def Follows (type paramType : κ) : Prop :=
  c.Missing services type ∧ some paramType ∈ services.paramTypes type

/-- Following parameters from a service leads back to a service that is being resolved. -/
def LeadsBack (type : κ) : Prop :=
  ∃ back, ReflTransGen (c.Follows services) type back ∧ TransGen (c.Follows services) back back

/-- What a parameter is resolved to. -/
def Given (registered : List κ) (earlier : List (Construction κ ν)) :
    Option κ → ν → Prop
  | none, value => value = services.undefined
  | some paramType, value =>
    if paramType ∈ registered then ∃ k ∈ earlier, k.type = paramType ∧ k.value = value
    else value = services.undefined

/-- `instances.set(type, { ...metadata, instance })`. -/
def store (instances : InsertionMap κ (Metadata ν ε)) (k : Construction κ ν) :
    InsertionMap κ (Metadata ν ε) :=
  match instances.get? k.type with
  | none => instances
  | some metadata => instances.set k.type { metadata with instance? := some k.value }

end Relations

/-! ### The invariant -/

variable {services : Services κ ν ε} {registrations : InsertionMap κ (Option (Constructor ν ε))}
  {c₀ c c' c'' : Container κ ν ε} {type root : κ}

theorem HasInstance.not_missing {value : ν} (h : c.HasInstance services type value) :
    ¬ c.Missing services type := by
  rintro ⟨metadata, hget, hnone⟩
  obtain ⟨metadata', hget', hsome⟩ := h
  obtain rfl := Option.some.inj (hget.symm.trans hget')
  rw [hnone] at hsome
  cases hsome

/-- What the constructions so far have made of the container. -/
structure Inv (services : Services κ ν ε)
    (registrations : InsertionMap κ (Option (Constructor ν ε))) (c : Container κ ν ε) : Prop where
  instances : c.instances = c.constructed.foldl store (ofRegistrations registrations).instances
  keys : c.instances.keys = registrations.keys
  factories : ∀ type metadata, c.instances.get? type = some metadata →
    registrations.get? type = some metadata.factory?
  made : ∀ k ∈ c.constructed, ∃ factory? call, registrations.get? k.type = some factory? ∧
    factory?.getD (services.construct k.type) call k.dependencies = .ok k.value
  logged : ∀ type value, c.HasInstance services type value →
    ∃ k ∈ c.constructed, k.type = type ∧ k.value = value
  kept : ∀ k ∈ c.constructed, services.truthy k.value = true →
    c.HasInstance services k.type k.value
  once : c.constructed.Pairwise fun k k' => k.type = k'.type → services.truthy k.value = false
  ordered : EachAfter (fun earlier k => List.Forall₂ (Given services registrations.keys earlier)
    (services.paramTypes k.type) k.dependencies) c.constructed

theorem Inv.setStack (h : Inv services registrations c) (stack : List κ) :
    Inv services registrations { c with resolutionStack := stack } :=
  ⟨h.instances, h.keys, h.factories, h.made, h.logged, h.kept, h.once, h.ordered⟩

theorem inv_ofRegistrations : Inv services registrations (ofRegistrations registrations) := by
  have hnone : ∀ type value,
      ¬ (ofRegistrations (κ := κ) registrations).HasInstance services type value := by
    rintro type value ⟨metadata, hget, hvalue⟩
    rw [ofRegistrations, InsertionMap.get?_map, Option.map_eq_some_iff] at hget
    obtain ⟨factory?, -, rfl⟩ := hget
    cases hvalue
  refine ⟨rfl, ?_, fun type metadata hget => ?_, fun k hk => ?_,
    fun type value h => absurd h (hnone type value), fun k hk => ?_, .nil, .nil⟩
  · rw [ofRegistrations, InsertionMap.keys_map]
  · rw [ofRegistrations, InsertionMap.get?_map, Option.map_eq_some_iff] at hget
    obtain ⟨factory?, hfactory, rfl⟩ := hget
    exact hfactory
  · cases hk
  · cases hk

/-- What a call leaves to the next. -/
structure Extends (services : Services κ ν ε) (c c' : Container κ ν ε) : Prop where
  constructed : c.constructed <+: c'.constructed
  kept : ∀ type value, c.HasInstance services type value → c'.HasInstance services type value
  keys : c'.instances.keys = c.instances.keys
  stack : c'.resolutionStack = c.resolutionStack
  untouched : ∀ type ∈ c.resolutionStack, c'.instances.get? type = c.instances.get? type

theorem Extends.refl (c : Container κ ν ε) : Extends services c c :=
  ⟨List.prefix_rfl, fun _ _ h => h, rfl, rfl, fun _ _ => rfl⟩

theorem Extends.trans (h : Extends services c c') (h' : Extends services c' c'') :
    Extends services c c'' := by
  refine ⟨h.constructed.trans h'.constructed, fun type value hvalue => ?_,
    h'.keys.trans h.keys, h'.stack.trans h.stack, fun type hmem => ?_⟩
  · exact h'.kept type value (h.kept type value hvalue)
  · rw [h'.untouched type (h.stack.symm ▸ hmem), h.untouched type hmem]

theorem Given.mono {registered : List κ} {earlier later : List (Construction κ ν)}
    (hinit : earlier <+: later) {param : Option κ} {value : ν}
    (h : Given services registered earlier param value) :
    Given services registered later param value := by
  cases param with
  | none => exact h
  | some paramType =>
    simp only [Given] at h ⊢
    split_ifs at h ⊢ with hregistered
    · obtain ⟨k, hk, heq⟩ := h
      exact ⟨k, hinit.subset hk, heq⟩
    · exact h

/-- The container during a call of `get(root)`, compared with the container before. -/
structure Within (services : Services κ ν ε) (c₀ c : Container κ ν ε) : Prop where
  keys : c.instances.keys = c₀.instances.keys
  kept : ∀ type value, c₀.HasInstance services type value → c.HasInstance services type value
  accessible : ∀ type value, c.HasInstance services type value →
    Acc (fun b a => c₀.Follows services a b) type

theorem hasInstance_or_missing (h : type ∈ c.instances.keys) :
    (∃ value, c.HasInstance services type value) ∨ c.Missing services type := by
  obtain ⟨metadata, hmem⟩ := InsertionMap.mem_keys.mp h
  have hget := InsertionMap.get?_eq_some_iff.mpr hmem
  cases hvalue : metadata.instance?.filter services.truthy with
  | none => exact .inr ⟨metadata, hget, hvalue⟩
  | some value => exact .inl ⟨value, metadata, hget, hvalue⟩

theorem Missing.mem_keys (h : c.Missing services type) : type ∈ c.instances.keys := by
  obtain ⟨metadata, hget, -⟩ := h
  exact InsertionMap.mem_keys.mpr ⟨metadata, InsertionMap.get?_eq_some_iff.mp hget⟩

theorem Within.setStack (h : Within services c₀ c) (stack : List κ) :
    Within services c₀ { c with resolutionStack := stack } :=
  ⟨h.keys, h.kept, h.accessible⟩

/-- A service that is missing has been missing before. -/
theorem Within.missing (h : Within services c₀ c) (hmissing : c.Missing services type) :
    c₀.Missing services type := by
  have hkey : type ∈ c₀.instances.keys := h.keys ▸ hmissing.mem_keys
  obtain ⟨value, hvalue⟩ | hmissing₀ : (∃ value, c₀.HasInstance services type value) ∨
      c₀.Missing services type := hasInstance_or_missing hkey
  · exact absurd hmissing (h.kept type value hvalue).not_missing
  · exact hmissing₀

/-- A service that is not missing leads nowhere. -/
theorem accessible_of_not_missing (h : ¬ c₀.Missing services type) :
    Acc (fun b a => c₀.Follows services a b) type :=
  .intro type fun _ hfollows => absurd hfollows.1 h

theorem within_self : Within services c c where
  keys := rfl
  kept _ _ h := h
  accessible _ _ h := accessible_of_not_missing h.not_missing

/-! ### The recursion -/

/-- How a nested call gets to a service. -/
structure Searching (services : Services κ ν ε) (c₀ : Container κ ν ε) (root : κ) (stack : List κ)
    (type : κ) : Prop where
  nodup : stack.Nodup
  registered : ∀ s ∈ stack, s ∈ c₀.instances.keys
  leads : ∀ s ∈ stack, TransGen (c₀.Follows services) s type
  reached : ReflTransGen (c₀.Follows services) root type

/-- The reason for a failure: either parameters lead back, and no constructor has thrown, or a
constructor has. -/
def Fails (services : Services κ ν ε) (c₀ : Container κ ν ε) (root : κ) (c c' : Container κ ν ε) :
    Failure κ ε → Prop
  | .circular _ => c'.thrown = c.thrown ∧ c₀.LeadsBack services root
  | .notDecorated _ => False
  | .abstractClass culprit => ∃ error, services.isAbstractError error = true ∧
      c'.thrown = c.thrown ++ [(culprit, error)]
  | .thrown error => services.isAbstractError error = false ∧
      ∃ culprit, c'.thrown = c.thrown ++ [(culprit, error)]

/-- How a call ends. -/
def Ends (services : Services κ ν ε) (c₀ : Container κ ν ε) (root : κ) (c c' : Container κ ν ε)
    {α : Type} (P : α → Prop) : Except (Failure κ ε) α → Prop
  | .ok a => c'.thrown = c.thrown ∧ P a
  | .error failure => Fails services c₀ root c c' failure

/-- What a call leaves, however it ends. -/
structure Leaves (services : Services κ ν ε)
    (registrations : InsertionMap κ (Option (Constructor ν ε))) (c₀ c c' : Container κ ν ε) :
    Prop where
  inv : Inv services registrations c'
  within : Within services c₀ c'
  continues : Extends services c c'

theorem Leaves.trans (h : Leaves services registrations c₀ c c')
    (h' : Leaves services registrations c₀ c' c'') : Leaves services registrations c₀ c c'' :=
  ⟨h'.inv, h'.within, h.continues.trans h'.continues⟩

/-- A failure from inside is thrown again as it is. -/
theorem Fails.rethrow_eq {failure : Failure κ ε} (h : Fails services c₀ root c c' failure) :
    rethrow services type failure = failure := by
  cases failure with
  | thrown error =>
    obtain ⟨hnot, -⟩ := h
    simp [rethrow, hnot]
  | circular path => rfl
  | notDecorated type => rfl
  | abstractClass type => rfl

theorem Fails.of_eq {failure : Failure κ ε} (h : Fails services c₀ root c' c'' failure)
    (heq : c'.thrown = c.thrown) : Fails services c₀ root c c'' failure := by
  cases failure with
  | circular path => exact ⟨h.1.trans heq, h.2⟩
  | notDecorated type => exact h
  | abstractClass culprit =>
    obtain ⟨error, habstract, hthrown⟩ := h
    exact ⟨error, habstract, heq ▸ hthrown⟩
  | thrown error =>
    obtain ⟨hnot, culprit, hthrown⟩ := h
    exact ⟨hnot, culprit, heq ▸ hthrown⟩

theorem Ends.mono {α β : Type} {P : α → Prop} {Q : β → Prop} {f : α → β}
    {result : Except (Failure κ ε) α} (h : Ends services c₀ root c' c'' P result)
    (heq : c'.thrown = c.thrown) (hPQ : ∀ a, P a → Q (f a)) :
    Ends services c₀ root c c'' Q (result.map f) := by
  cases result with
  | ok a => exact ⟨h.1.trans heq, hPQ a h.2⟩
  | error failure => exact Fails.of_eq h heq

/-- What is known of a service that has been resolved. -/
def Resolved (services : Services κ ν ε)
    (registrations : InsertionMap κ (Option (Constructor ν ε))) (c₀ c' : Container κ ν ε)
    (param : Option κ) (value : ν) : Prop :=
  Given services registrations.keys c'.constructed param value ∧
    ∀ type ∈ param, Acc (fun b a => c₀.Follows services a b) type

/-- The parameters of a service that is being resolved. -/
theorem exists_resolve
    {get : κ → Container κ ν ε → Option (Except (Failure κ ε) ν × Container κ ν ε)}
    {stack : List κ} (params : List (Option κ))
    (hget : ∀ c type, Inv services registrations c → Within services c₀ c →
      c.resolutionStack = stack → some type ∈ params → ∃ result c', get type c = some (result, c') ∧
        Leaves services registrations c₀ c c' ∧ Ends services c₀ root c c'
          (Resolved services registrations c₀ c' (some type)) result)
    (h : Inv services registrations c) (hwithin : Within services c₀ c)
    (hstack : c.resolutionStack = stack) :
    ∃ result c', resolve services get params c = some (result, c') ∧
      Leaves services registrations c₀ c c' ∧ Ends services c₀ root c c'
        (List.Forall₂ (Resolved services registrations c₀ c') params) result := by
  induction params generalizing c with
  | nil => exact ⟨.ok [], c, rfl, ⟨h, hwithin, .refl c⟩, rfl, .nil⟩
  | cons param params ih =>
    have hrest := fun c type h hwithin hstack hmem =>
      hget c type h hwithin hstack (List.mem_cons_of_mem param hmem)
    cases param with
    | none =>
      obtain ⟨result, c', heq, hleaves, hends⟩ := ih hrest h hwithin hstack
      refine ⟨result.map (services.undefined :: ·), c', by rw [resolve, heq, Option.map_some],
        hleaves, hends.mono rfl ?_⟩
      intro dependencies hall
      exact .cons ⟨rfl, fun _ hmem => nomatch hmem⟩ hall
    | some type =>
      obtain ⟨result₁, c₁, heq₁, hleaves₁, hends₁⟩ :=
        hget c type h hwithin hstack List.mem_cons_self
      cases result₁ with
      | error failure =>
        exact ⟨.error failure, c₁, by rw [resolve, heq₁], hleaves₁, hends₁⟩
      | ok value =>
        obtain ⟨hthrown, hgiven, haccessible⟩ := hends₁
        obtain ⟨result, c', heq, hleaves, hends⟩ := ih hrest hleaves₁.inv hleaves₁.within
          (hleaves₁.continues.stack.trans hstack)
        refine ⟨result.map (value :: ·), c', by simp only [resolve, heq₁, heq, Option.map_some],
          hleaves₁.trans hleaves, hends.mono hthrown ?_⟩
        intro dependencies hall
        exact .cons ⟨hgiven.mono hleaves.continues.constructed, haccessible⟩ hall

/-! ### Constructing -/

/-- The container with a new instance. -/
def construct (c : Container κ ν ε) (type : κ) (metadata : Metadata ν ε) (dependencies : List ν)
    (value : ν) : Container κ ν ε :=
  { c with
    calls := c.calls + 1
    instances := c.instances.set type { metadata with instance? := some value }
    constructed := c.constructed ++ [⟨type, dependencies, value⟩] }

section Construct

variable {metadata : Metadata ν ε} {dependencies : List ν} {value : ν}

theorem hasInstance_construct_self (htruthy : services.truthy value = true) :
    (c.construct type metadata dependencies value).HasInstance services type value :=
  ⟨{ metadata with instance? := some value }, InsertionMap.get?_set_self _ _ _, by
    simp [Option.filter, htruthy]⟩

theorem hasInstance_construct_of_ne {type' : κ} (hne : type' ≠ type) (value' : ν) :
    (c.construct type metadata dependencies value).HasInstance services type' value' ↔
      c.HasInstance services type' value' := by
  simp only [HasInstance, construct, InsertionMap.get?_set_of_ne _ hne]

theorem eq_of_hasInstance_construct {value' : ν}
    (h : (c.construct type metadata dependencies value).HasInstance services type value') :
    value' = value := by
  obtain ⟨metadata', hget, hvalue⟩ := h
  rw [construct, InsertionMap.get?_set_self] at hget
  obtain rfl := Option.some.inj hget
  obtain ⟨hsome, -⟩ := Option.filter_eq_some_iff.mp hvalue
  exact (Option.some.inj hsome).symm

/-- A service that was missing is constructed after its parameters. -/
theorem Inv.construct (h : Inv services registrations c)
    (hget : c.instances.get? type = some metadata) (hmissing : c.Missing services type)
    (hmade : metadata.factory?.getD (services.construct type) c.calls dependencies = .ok value)
    (hdependencies : List.Forall₂ (Given services registrations.keys c.constructed)
      (services.paramTypes type) dependencies) :
    Inv services registrations (c.construct type metadata dependencies value) := by
  have hmem := hmissing.mem_keys
  refine ⟨?_, ?_, fun type' metadata' hget' => ?_, fun k hk => ?_, fun type' value' hvalue => ?_,
    fun k hk htruthy => ?_, ?_, h.ordered.concat ?_⟩
  · rw [Container.construct, List.foldl_append, ← h.instances, List.foldl_cons, List.foldl_nil,
      store, hget]
  · rw [Container.construct, InsertionMap.keys_set_of_mem hmem, h.keys]
  · rw [Container.construct, InsertionMap.get?_set] at hget'
    split_ifs at hget' with heq
    · subst heq
      obtain rfl := Option.some.inj hget'
      exact h.factories _ metadata hget
    · exact h.factories type' metadata' hget'
  · obtain hold | hnew := List.mem_append.mp hk
    · exact h.made k hold
    · obtain rfl := List.mem_singleton.mp hnew
      exact ⟨metadata.factory?, c.calls, h.factories type metadata hget, hmade⟩
  · by_cases heq : type' = type
    · subst heq
      obtain rfl := eq_of_hasInstance_construct hvalue
      exact ⟨_, List.mem_append_right _ (List.mem_singleton_self _), rfl, rfl⟩
    · obtain ⟨k, hk, hlogged⟩ :=
        h.logged type' value' ((hasInstance_construct_of_ne heq _).mp hvalue)
      exact ⟨k, List.mem_append_left _ hk, hlogged⟩
  · obtain hold | hnew := List.mem_append.mp hk
    · have hkept := h.kept k hold htruthy
      have hne : k.type ≠ type := fun heq => (heq ▸ hkept).not_missing hmissing
      exact (hasInstance_construct_of_ne hne _).mpr hkept
    · obtain rfl := List.mem_singleton.mp hnew
      exact hasInstance_construct_self htruthy
  · refine List.pairwise_append.mpr ⟨h.once, List.pairwise_singleton _ _, fun k hk k' hk' heq => ?_⟩
    obtain rfl := List.mem_singleton.mp hk'
    -- an instance that is truthy would have been returned
    by_contra htrue
    have hkept := h.kept k hk (eq_true_of_ne_false htrue)
    exact (heq ▸ hkept).not_missing hmissing
  · exact hdependencies

theorem Within.construct (h : Within services c₀ c) (hmissing : c.Missing services type)
    (haccessible : Acc (fun b a => c₀.Follows services a b) type) :
    Within services c₀ (c.construct type metadata dependencies value) := by
  refine ⟨?_, fun type' value' hvalue => ?_, fun type' value' hvalue => ?_⟩
  · rw [Container.construct, InsertionMap.keys_set_of_mem hmissing.mem_keys, h.keys]
  · have hkept := h.kept type' value' hvalue
    have hne : type' ≠ type := fun heq => (heq ▸ hkept).not_missing hmissing
    exact (hasInstance_construct_of_ne hne _).mpr hkept
  · by_cases heq : type' = type
    · exact heq ▸ haccessible
    · exact h.accessible type' value' ((hasInstance_construct_of_ne heq _).mp hvalue)

end Construct

/-! ### A call -/

theorem exists_of_forall₂ {α β : Type} {R : α → β → Prop} {l : List α} {l' : List β}
    (h : List.Forall₂ R l l') {a : α} (ha : a ∈ l) : ∃ b, R a b := by
  induction h with
  | nil => cases ha
  | cons hab _ ih =>
    obtain rfl | ha := List.mem_cons.mp ha
    · exact ⟨_, hab⟩
    · exact ih ha

/-- When the parameters have been resolved. -/
theorem exists_build {metadata : Metadata ν ε} {dependencies : List ν}
    (h : Inv services registrations c) (hwithin : Within services c₀ c)
    (hget : c.instances.get? type = some metadata) (hmissing : c.Missing services type)
    (hdependencies : List.Forall₂ (Resolved services registrations c₀ c)
      (services.paramTypes type) dependencies) :
    ∃ result c', build services type metadata dependencies c = (result, c') ∧
      Inv services registrations c' ∧ Within services c₀ c' ∧
      c'.resolutionStack = c.resolutionStack ∧
      (∀ stack, type ∉ stack →
        Extends services { c with resolutionStack := stack }
          { c' with resolutionStack := stack }) ∧
      Ends services c₀ root c c' (Resolved services registrations c₀ c' (some type)) result := by
  unfold build
  cases hcall : metadata.factory?.getD (services.construct type) c.calls dependencies with
  | error error =>
    refine ⟨_, _, rfl, ⟨h.instances, h.keys, h.factories, h.made, h.logged, h.kept, h.once,
      h.ordered⟩, ⟨hwithin.keys, hwithin.kept, hwithin.accessible⟩, rfl, fun stack _ => ?_, ?_⟩
    · exact ⟨List.prefix_rfl, fun _ _ hvalue => hvalue, rfl, rfl, fun _ _ => rfl⟩
    · cases habstract : services.isAbstractError error with
      | true =>
        simp only [rethrow, habstract, if_true]
        exact ⟨error, habstract, rfl⟩
      | false =>
        simp only [rethrow, habstract]
        exact ⟨habstract, type, rfl⟩
  | ok value =>
    have haccessible : Acc (fun b a => c₀.Follows services a b) type := by
      refine .intro type fun paramType hfollows => ?_
      obtain ⟨_, -, hparam⟩ := exists_of_forall₂ hdependencies hfollows.2
      exact hparam paramType rfl
    have hinv : Inv services registrations (c.construct type metadata dependencies value) :=
      h.construct hget hmissing hcall (hdependencies.imp fun _ _ hresolved => hresolved.1)
    refine ⟨_, c.construct type metadata dependencies value, rfl, hinv,
      hwithin.construct hmissing haccessible, rfl, fun stack hnot => ?_, rfl, ?_, ?_⟩
    · refine ⟨List.prefix_append _ _, fun type' value' hvalue => ?_,
        InsertionMap.keys_set_of_mem hmissing.mem_keys _, rfl, fun type' hmem => ?_⟩
      · have hne : type' ≠ type := fun heq =>
          HasInstance.not_missing (heq ▸ hvalue : c.HasInstance services type value') hmissing
        have hkept : (c.construct type metadata dependencies value).HasInstance services type'
            value' := (hasInstance_construct_of_ne hne value').mpr hvalue
        exact hkept
      · refine InsertionMap.get?_set_of_ne _ ?_ _
        rintro rfl
        exact hnot hmem
    · rw [Given, if_pos (h.keys ▸ hmissing.mem_keys)]
      exact ⟨_, List.mem_append_right _ (List.mem_singleton_self _), rfl, rfl⟩
    · rintro type' hmem
      obtain rfl := Option.some.inj hmem
      exact haccessible

/-- What is resolved while a service is on the stack. -/
theorem Extends.pop (h : Extends services
    { c with resolutionStack := c.resolutionStack ++ [type] } c') :
    Extends services c { c' with resolutionStack := c.resolutionStack } :=
  ⟨h.constructed, h.kept, h.keys, rfl, fun type' hmem =>
    h.untouched type' (List.mem_append_left _ hmem)⟩

omit [DecidableEq κ] in
theorem leave_eq {stack : List κ} (h : c.resolutionStack = stack ++ [type]) :
    leave c = { c with resolutionStack := stack } := by
  rw [leave, h, List.dropLast_concat]

/-- The parameters of a service are resolved while it is on the stack. -/
theorem Searching.next {stack : List κ} {paramType : κ}
    (h : Searching services c₀ root stack type) (hnot : type ∉ stack)
    (hfollows : c₀.Follows services type paramType) :
    Searching services c₀ root (stack ++ [type]) paramType := by
  refine ⟨?_, fun s hs => ?_, fun s hs => ?_, h.reached.tail hfollows⟩
  · refine List.nodup_append.mpr ⟨h.nodup, List.nodup_singleton _, fun a ha b hb heq => hnot ?_⟩
    rw [← List.mem_singleton.mp hb, ← heq]
    exact ha
  · obtain hs | hs := List.mem_append.mp hs
    · exact h.registered s hs
    · rw [List.mem_singleton.mp hs]
      exact hfollows.1.mem_keys
  · obtain hs | hs := List.mem_append.mp hs
    · exact (h.leads s hs).tail hfollows
    · rw [List.mem_singleton.mp hs]
      exact .single hfollows

/-- The call for a service that is missing. -/
theorem exists_finish {metadata : Metadata ν ε} {dependencies : Except (Failure κ ε) (List ν)}
    {c₁ : Container κ ν ε} (hget : c.instances.get? type = some metadata)
    (hmissing : c.Missing services type) (hnot : type ∉ c.resolutionStack)
    (hleaves : Leaves services registrations c₀
      { c with resolutionStack := c.resolutionStack ++ [type] } c₁)
    (hends : Ends services c₀ root { c with resolutionStack := c.resolutionStack ++ [type] } c₁
      (List.Forall₂ (Resolved services registrations c₀ c₁) (services.paramTypes type))
      dependencies) :
    ∃ result c', finish services type metadata c₁ dependencies = (result, c') ∧
      Leaves services registrations c₀ c (leave c') ∧ Ends services c₀ root c c'
        (Resolved services registrations c₀ c' (some type)) result := by
  obtain ⟨hinv, hwithin, hcontinues⟩ := hleaves
  have hstack : c₁.resolutionStack = c.resolutionStack ++ [type] := hcontinues.stack
  cases dependencies with
  | error failure =>
    have hfails : Fails services c₀ root c c₁ failure := hends
    refine ⟨_, c₁, rfl, ?_, ?_⟩
    · rw [leave_eq hstack]
      exact ⟨hinv.setStack _, hwithin.setStack _, hcontinues.pop⟩
    · rw [hfails.rethrow_eq]
      exact hfails
  | ok dependencies =>
    obtain ⟨hthrown, hall⟩ := hends
    have hmem : type ∈ c.resolutionStack ++ [type] :=
      List.mem_append_right _ (List.mem_singleton_self type)
    have hget₁ : c₁.instances.get? type = some metadata :=
      (hcontinues.untouched type hmem).trans hget
    have hmissing₁ : c₁.Missing services type := by
      obtain ⟨metadata', hget', hnone⟩ := hmissing
      exact ⟨metadata', (hcontinues.untouched type hmem).trans hget', hnone⟩
    obtain ⟨result, c', heq, hinv', hwithin', hstack', hextends, hends'⟩ :=
      exists_build hinv hwithin hget₁ hmissing₁ hall
    refine ⟨result, c', heq, ?_, ?_⟩
    · rw [leave_eq (hstack'.trans hstack)]
      exact ⟨hinv'.setStack _, hwithin'.setStack _, hcontinues.pop.trans (hextends _ hnot)⟩
    · cases result with
      | ok value => exact ⟨hends'.1.trans hthrown, hends'.2⟩
      | error failure => exact Fails.of_eq hends' hthrown

/-- A call, while others are being resolved. -/
theorem exists_getWithin (depth : ℕ) (h : Inv services registrations c)
    (hwithin : Within services c₀ c)
    (hsearching : Searching services c₀ root c.resolutionStack type)
    (hdepth : c₀.instances.size < depth + c.resolutionStack.length)
    (hnested : c.resolutionStack = [] → type ∈ c₀.instances.keys) :
    ∃ result c', getWithin services depth type c = some (result, c') ∧
      Leaves services registrations c₀ c c' ∧ Ends services c₀ root c c'
        (Resolved services registrations c₀ c' (some type)) result := by
  induction depth generalizing c type with
  | zero =>
    have hle : c.resolutionStack.length ≤ c₀.instances.keys.length :=
      (List.subperm_of_subset hsearching.nodup hsearching.registered).length_le
    rw [InsertionMap.keys, List.length_map] at hle
    rw [Nat.zero_add] at hdepth
    exact absurd hdepth (Nat.not_lt.mpr hle)
  | succ depth ih =>
    unfold getWithin
    by_cases hstack : type ∈ c.resolutionStack
    · rw [if_pos hstack]
      refine ⟨_, c, rfl, ⟨h, hwithin, .refl c⟩, rfl, type, hsearching.reached, ?_⟩
      exact hsearching.leads type hstack
    · rw [if_neg hstack]
      cases hget : c.instances.get? type with
      | none =>
        have hnot : type ∉ c.instances.keys := InsertionMap.get?_eq_none_iff.mp hget
        have hpos : c.resolutionStack.length > 0 := by
          refine List.length_pos_of_ne_nil fun hnil => hnot ?_
          rw [hwithin.keys]
          exact hnested hnil
        simp only [if_pos hpos]
        refine ⟨_, c, rfl, ⟨h, hwithin, .refl c⟩, rfl, ?_, ?_⟩
        · rw [Given, if_neg (h.keys ▸ hnot)]
        · rintro type' hmem
          obtain rfl := Option.some.inj hmem
          refine accessible_of_not_missing fun hmissing => hnot ?_
          rw [hwithin.keys]
          exact hmissing.mem_keys
      | some metadata =>
        simp only
        cases hvalue : metadata.instance?.filter services.truthy with
        | some value =>
          have hinstance : c.HasInstance services type value := ⟨metadata, hget, hvalue⟩
          refine ⟨_, c, rfl, ⟨h, hwithin, .refl c⟩, rfl, ?_, ?_⟩
          · have hmem : type ∈ c.instances.keys :=
              InsertionMap.mem_keys.mpr ⟨metadata, InsertionMap.get?_eq_some_iff.mp hget⟩
            rw [Given, if_pos (h.keys ▸ hmem)]
            exact h.logged type value hinstance
          · rintro type' heq
            obtain rfl := Option.some.inj heq
            exact hwithin.accessible type value hinstance
        | none =>
          have hmissing : c.Missing services type := ⟨metadata, hget, hvalue⟩
          obtain ⟨dependencies, c₁, heq, hleaves, hends⟩ := exists_resolve
            (services.paramTypes type) (fun c₁ paramType h₁ hwithin₁ hstack₁ hparam => by
              have hnext := hsearching.next hstack ⟨hwithin.missing hmissing, hparam⟩
              refine ih h₁ hwithin₁ (hstack₁ ▸ hnext) ?_ fun hnil => ?_
              · rw [hstack₁, List.length_append, List.length_singleton]
                omega
              · rw [hstack₁] at hnil
                exact absurd hnil (List.append_ne_nil_of_right_ne_nil _ (List.cons_ne_nil _ _)))
            (h.setStack (c.resolutionStack ++ [type])) (hwithin.setStack _) rfl
          obtain ⟨result, c', hfinish, hleaves', hends'⟩ :=
            exists_finish hget hmissing hstack hleaves hends
          refine ⟨result, leave c', ?_, hleaves', ?_⟩
          · simp only [heq, Option.map_some, hfinish]
          · cases result with
            | ok value => exact hends'
            | error failure => cases failure <;> exact hends'

/-- A service that has been resolved does not lead back. -/
theorem not_leadsBack_of_acc (h : Acc (fun b a => c.Follows services a b) type) :
    ¬ c.LeadsBack services type := by
  induction h with
  | intro type _ ih =>
    rintro ⟨back, hreach, hcycle⟩
    obtain rfl | ⟨next, hnext, hrest⟩ := ReflTransGen.cases_head hreach
    · obtain ⟨next, hnext, hrest⟩ := TransGen.head'_iff.mp hcycle
      exact ih next hnext ⟨type, hrest, hcycle⟩
    · exact ih next hnext ⟨back, hrest, hcycle⟩

/-- A call of `get` from outside. -/
theorem exists_get (h : Inv services registrations c) (hstack : c.resolutionStack = [])
    (type : κ) :
    ∃ result c', get services type c = some (result, c') ∧
      Leaves services registrations c c c' ∧
      (type ∈ c.instances.keys → Ends services c type c c'
        (Resolved services registrations c c' (some type)) result) ∧
      (type ∉ c.instances.keys → result = .error (.notDecorated type) ∧ c' = c) := by
  by_cases hmem : type ∈ c.instances.keys
  · have hsearching : Searching services c type c.resolutionStack type := by
      rw [hstack]
      exact ⟨.nil, fun _ hs => (nomatch hs), fun _ hs => (nomatch hs), .refl⟩
    obtain ⟨result, c', heq, hleaves, hends⟩ := exists_getWithin (c.instances.size + 1) h
      within_self hsearching (by omega) fun _ => hmem
    exact ⟨result, c', heq, hleaves, fun _ => hends, fun hnot => absurd hmem hnot⟩
  · refine ⟨.error (.notDecorated type), c, ?_, ⟨h, within_self, .refl c⟩,
      fun hin => absurd hin hmem, fun _ => ⟨rfl, rfl⟩⟩
    rw [get, getWithin, if_neg (hstack ▸ List.not_mem_nil),
      InsertionMap.get?_eq_none_iff.mpr hmem]
    simp [hstack]

end Container

end N8n
