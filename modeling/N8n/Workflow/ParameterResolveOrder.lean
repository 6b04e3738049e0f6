import Mathlib.Data.List.Range
import Mathlib.Data.List.Perm.Basic
import Mathlib.Data.Prod.Lex
import Mathlib.Logic.Function.Basic
import Mathlib.Logic.Relation
import N8n.Foundations.PlainObject

/-!
# The order in which parameters are resolved

`getParameterResolveOrder` works through a queue of indexes. A property that waits for another one
is queued again, but it is taken for resolved as well. So each property is resolved in the first
pass over the queue, in the order of the list, and once more for every name that it waited for.
The lists of names are kept in a plain object, so a property with the name of a member that all
objects inherit has that member in the place of its list.

What is returned, or whether an error is thrown, is computed from the list (`returns_iff`);
`ordersByDependencies_iff` says for which lists this is an order that respects the dependencies.
-/

namespace N8n

namespace ResolveOrder

/-! ### Dependencies -/

/-- A property, with the names of the parameters in each of its display rules. -/
structure INodeProperties where
  name : String
  displayOptions : Option (List (List String))

def INodeProperties.ruleNames (nodeProperties : INodeProperties) : List String :=
  (nodeProperties.displayOptions.getD []).flatten

inductive ResolveError
  | typeError
  | applicationError (message : String)
  deriving DecidableEq

def addDependency (dependencies : List String) (parameterName : String) : List String :=
  if parameterName ∈ dependencies then dependencies
  else if parameterName.toList.head? = some '@' then dependencies
  else dependencies ++ [parameterName]

def addDependencies (dependencies : String → List String) (nodeProperties : INodeProperties) :
    String → List String :=
  Function.update dependencies nodeProperties.name
    (nodeProperties.ruleNames.foldl addDependency (dependencies nodeProperties.name))

/-- The lists in a map in which nothing is inherited. -/
def dependenciesOf (props : List INodeProperties) : String → List String :=
  props.foldl addDependencies fun _ => []

/-- The member that stands in the place of the list has no `includes`. -/
def HidesList (nodeProperties : INodeProperties) : Prop :=
  nodeProperties.name ∈ InsertionMap.inheritedKeys ∧ nodeProperties.ruleNames ≠ []

instance (nodeProperties : INodeProperties) : Decidable (HidesList nodeProperties) :=
  inferInstanceAs (Decidable (_ ∧ _))

def getParameterDependencies (props : List INodeProperties) :
    Except ResolveError (String → List String) :=
  props.foldlM
    (fun dependencies nodeProperties =>
      if HidesList nodeProperties then .error .typeError
      else .ok (addDependencies dependencies nodeProperties))
    fun _ => []

theorem getParameterDependencies_eq (props : List INodeProperties) :
    getParameterDependencies props =
      if ∃ nodeProperties ∈ props, HidesList nodeProperties then .error .typeError
      else .ok (dependenciesOf props) := by
  have hfold (dependencies : String → List String) : props.foldlM
      (fun dependencies nodeProperties =>
        if HidesList nodeProperties then Except.error ResolveError.typeError
        else .ok (addDependencies dependencies nodeProperties)) dependencies =
      if ∃ nodeProperties ∈ props, HidesList nodeProperties then .error .typeError
      else .ok (props.foldl addDependencies dependencies) := by
    induction props generalizing dependencies with
    | nil => exact (if_neg nofun).symm
    | cons nodeProperties props ih =>
      rw [List.foldlM_cons]
      simp only [List.exists_mem_cons_iff]
      by_cases hhides : HidesList nodeProperties
      · rw [if_pos hhides, if_pos (.inl hhides)]
        rfl
      · rw [if_neg hhides]
        refine (ih (addDependencies dependencies nodeProperties)).trans ?_
        rw [List.foldl_cons]
        simp only [hhides, false_or]
  exact hfold _

/-- Members of `Object.prototype` that are functions without parameters: their `length` is that of
an empty list. -/
def functionsWithoutParameters : List String := ["toString", "valueOf", "toLocaleString"]

/-- The code finds something under the name that is not empty and cannot be gone through. -/
def isUnreadable (name : String) : Bool :=
  name ∈ InsertionMap.inheritedKeys ∧ name ∉ functionsWithoutParameters

/-- Names at the root are taken for resolved. -/
def isRootName (name : String) : Bool := name.toList.head? = some '/'

/-! ### The queue -/

structure ResolveState where
  executionOrder : List ℕ
  indexToResolve : List ℕ
  resolvedParameters : List String
  lastIndexLength : ℕ
  lastIndexReduction : ℤ
  iterations : ℕ

variable (props : List INodeProperties)

/-- The name at an index; all indexes in the queue are ones of the list. -/
def propertyName (index : ℕ) : String :=
  (props[index]?.map INodeProperties.name).getD ""

def dependenciesAt (index : ℕ) : List String :=
  dependenciesOf props (propertyName props index)

def maxIterationsError : ResolveError := .applicationError <|
  "Could not resolve parameter dependencies. Max iterations reached! Hint: If `displayOptions` " ++
    "are specified in any child parameter of a parent `collection` or `fixedCollection`, remove " ++
    "the `displayOptions` from the child parameter."

/-- The loop body, with the first index taken from the queue. The `continue` for a missing
dependency goes on with the next dependency only. -/
def resolveStep (s : ResolveState) (index : ℕ) (indexToResolve : List ℕ) :
    Except ResolveError ResolveState :=
  let iterations := s.iterations + 1
  let name := propertyName props index
  let dependencies := dependenciesAt props index
  let executionOrder := s.executionOrder ++ [index]
  let resolvedParameters := s.resolvedParameters ++ [name]
  if isUnreadable name then .error .typeError
  else if dependencies = [] then
    .ok { s with executionOrder, indexToResolve, resolvedParameters, iterations }
  else
    let indexToResolve := dependencies.foldl
      (fun queue dependency =>
        if dependency ∈ s.resolvedParameters then queue
        else if isRootName dependency then queue
        else queue ++ [index])
      indexToResolve
    let lastIndexReduction : ℤ :=
      if indexToResolve.length < s.lastIndexLength then iterations else s.lastIndexReduction
    if lastIndexReduction + props.length < iterations then
      .error maxIterationsError
    else
      .ok { executionOrder, indexToResolve, resolvedParameters, lastIndexReduction, iterations
            lastIndexLength := indexToResolve.length }

def resolveLoop : ℕ → ResolveState → Option (Except ResolveError (List ℕ))
  | 0, _ => none
  | fuel + 1, s =>
    match s.indexToResolve with
    | [] => some (.ok s.executionOrder)
    | index :: indexToResolve =>
      match resolveStep props s index indexToResolve with
      | .error error => some (.error error)
      | .ok s => resolveLoop fuel s

def initialState : ResolveState :=
  { executionOrder := []
    indexToResolve := List.range props.length
    resolvedParameters := []
    lastIndexLength := props.length
    lastIndexReduction := -1
    iterations := 0 }

/-- What `getParameterResolveOrder` returns or throws for the lists of `getParameterDependencies`,
which are those of `dependenciesOf`. -/
def Returns (result : Except ResolveError (List ℕ)) : Prop :=
  match getParameterDependencies props with
  | .error error => result = .error error
  | .ok _ => ∃ fuel, resolveLoop props fuel (initialState props) = some result

/-! ### Orders -/

/-- The property has a dependency with the name of another one, or its own. -/
def DependsOn (i j : ℕ) : Prop :=
  i < props.length ∧ j < props.length ∧
    propertyName props j ∈ dependenciesAt props i ∧
    isRootName (propertyName props j) = false

def Acyclic : Prop := ∀ i, ¬ Relation.TransGen (DependsOn props) i i

structure IsResolveOrder (order : List ℕ) : Prop where
  perm : order.Perm (List.range props.length)
  lt : ∀ i j, DependsOn props i j → order.idxOf j < order.idxOf i

/-- An order is returned where there is one, an error is thrown where there is none. -/
structure OrdersByDependencies : Prop where
  terminates : ∃ result, Returns props result
  order : Acyclic props →
    ∃ order, Returns props (.ok order) ∧ IsResolveOrder props order
  throws_iff : (∃ error, Returns props (.error error)) ↔ ¬ Acyclic props

/-! ### What the list says about the run -/

/-- The dependencies that no property before this one has the name of. -/
def missing (i : ℕ) : List String :=
  (dependenciesAt props i).filter fun dependency =>
    dependency ∉ (List.range i).map (propertyName props) ∧
      isRootName dependency = false

/-- How many properties directly before this one have no dependencies. -/
def idle : ℕ → ℕ
  | 0 => 0
  | i + 1 => if dependenciesAt props i = [] then idle i + 1 else 0

/-- All properties come after the ones that they depend on. -/
def Listed : Prop :=
  ∀ i < props.length, ∀ dependency ∈ dependenciesAt props i,
    isRootName dependency = false →
      (∃ j < props.length, propertyName props j = dependency) ∧
        ∀ j < props.length, propertyName props j = dependency → j < i

/-- A dependency of the property is the name of no property. -/
def IsStuck (i : ℕ) : Prop :=
  ∃ dependency ∈ dependenciesAt props i, isRootName dependency = false ∧
    ∀ j < props.length, propertyName props j ≠ dependency

/-- In the first pass the queue never gets shorter, up to its last property. -/
def AllWait : Prop :=
  ∃ last, props.length = last + 1 ∧ dependenciesAt props last ≠ [] ∧
    ∀ i ≤ last, dependenciesAt props i ≠ [] →
      idle props i < (missing props i).length

/-- The list of dependencies makes the loop throw. -/
def Fails : Prop :=
  (∃ i < props.length, IsStuck props i) ∨ AllWait props

/-- Nothing inherited hides a list of names, or is taken for one that is not empty. -/
def Readable : Prop :=
  ∀ nodeProperties ∈ props, ¬ HidesList nodeProperties ∧ isUnreadable nodeProperties.name = false

/-- What is left in the queue after the first pass up to an index. -/
def pending (t : ℕ) : List ℕ :=
  (List.range t).flatMap fun i => List.replicate (missing props i).length i

variable {props}

/-! ### One step of the loop -/

theorem foldl_requeue (resolved : List String) (index : ℕ) (dependencies : List String)
    (queue : List ℕ) :
    dependencies.foldl
        (fun queue dependency =>
          if dependency ∈ resolved then queue
          else if isRootName dependency then queue
          else queue ++ [index]) queue =
      queue ++ List.replicate (dependencies.filter fun dependency =>
        dependency ∉ resolved ∧ isRootName dependency = false).length index := by
  induction dependencies generalizing queue with
  | nil => exact (List.append_nil queue).symm
  | cons dependency dependencies ih =>
    rw [List.foldl_cons, ih, List.filter_cons]
    split_ifs with hresolved hskip hroot hskip hskip
    · exact absurd hresolved (of_decide_eq_true hskip).1
    · rfl
    · exact absurd (hroot.symm.trans (of_decide_eq_true hskip).2) Bool.noConfusion
    · rfl
    · rw [List.length_cons, Nat.add_comm, List.replicate_add, List.append_assoc]
      rfl
    · exact absurd (decide_eq_true ⟨hresolved, Bool.not_eq_true _ |>.mp hroot⟩) hskip

/-- The dependencies that are missing in a state. -/
def missingIn (props : List INodeProperties) (s : ResolveState) (index : ℕ) : List String :=
  (dependenciesAt props index).filter fun dependency =>
    dependency ∉ s.resolvedParameters ∧ isRootName dependency = false

/-- The state behind a step, with the reduction that it has found. -/
def resolved (props : List INodeProperties) (s : ResolveState) (index : ℕ)
    (indexToResolve : List ℕ) (lastIndexReduction : ℤ) : ResolveState :=
  { executionOrder := s.executionOrder ++ [index]
    indexToResolve := indexToResolve ++ List.replicate (missingIn props s index).length index
    resolvedParameters := s.resolvedParameters ++ [propertyName props index]
    lastIndexLength := indexToResolve.length + (missingIn props s index).length
    lastIndexReduction
    iterations := s.iterations + 1 }

theorem resolveStep_of_reduces {s : ResolveState} {index : ℕ} {indexToResolve : List ℕ}
    (hread : isUnreadable (propertyName props index) = false)
    (hne : dependenciesAt props index ≠ [])
    (hlt : indexToResolve.length + (missingIn props s index).length < s.lastIndexLength) :
    resolveStep props s index indexToResolve =
      .ok (resolved props s index indexToResolve (s.iterations + 1)) := by
  have hlength : (indexToResolve ++ List.replicate (missingIn props s index).length index).length =
      indexToResolve.length + (missingIn props s index).length := by
    rw [List.length_append, List.length_replicate]
  rw [resolveStep]
  dsimp only
  rw [hread, if_neg Bool.false_ne_true, if_neg hne, foldl_requeue, ← missingIn, hlength, if_pos hlt,
    if_neg (by omega)]
  rfl

theorem resolveStep_of_not_reduces {s : ResolveState} {index : ℕ} {indexToResolve : List ℕ}
    (hread : isUnreadable (propertyName props index) = false)
    (hne : dependenciesAt props index ≠ [])
    (hle : s.lastIndexLength ≤ indexToResolve.length + (missingIn props s index).length) :
    resolveStep props s index indexToResolve =
      if s.lastIndexReduction + props.length < s.iterations + 1 then .error maxIterationsError
      else .ok (resolved props s index indexToResolve s.lastIndexReduction) := by
  have hlength : (indexToResolve ++ List.replicate (missingIn props s index).length index).length =
      indexToResolve.length + (missingIn props s index).length := by
    rw [List.length_append, List.length_replicate]
  rw [resolveStep]
  dsimp only
  rw [hread, if_neg Bool.false_ne_true, if_neg hne, foldl_requeue, ← missingIn, hlength,
    if_neg (Nat.not_lt.mpr hle)]
  rfl

/-! ### Runs of the loop -/

/-- The loop ends from a state. -/
def Ends (props : List INodeProperties) (s : ResolveState) (result : Except ResolveError (List ℕ)) :
    Prop := ∃ fuel, resolveLoop props fuel s = some result

theorem ends_nil {s : ResolveState} (h : s.indexToResolve = []) :
    Ends props s (.ok s.executionOrder) := by
  refine ⟨1, ?_⟩
  rw [resolveLoop, h]

theorem ends_error {s : ResolveState} {index : ℕ} {indexToResolve : List ℕ} {error : ResolveError}
    (h : s.indexToResolve = index :: indexToResolve)
    (hstep : resolveStep props s index indexToResolve = .error error) :
    Ends props s (.error error) := by
  refine ⟨1, ?_⟩
  rw [resolveLoop, h]
  dsimp only
  rw [hstep]

theorem Ends.step {s s' : ResolveState} {index : ℕ} {indexToResolve : List ℕ}
    {result : Except ResolveError (List ℕ)} (hends : Ends props s' result)
    (h : s.indexToResolve = index :: indexToResolve)
    (hstep : resolveStep props s index indexToResolve = .ok s') : Ends props s result := by
  obtain ⟨fuel, hfuel⟩ := hends
  refine ⟨fuel + 1, ?_⟩
  rw [resolveLoop, h]
  dsimp only
  rw [hstep]
  exact hfuel

theorem resolveLoop_succ {fuel : ℕ} {s : ResolveState} {result : Except ResolveError (List ℕ)}
    (h : resolveLoop props fuel s = some result) :
    resolveLoop props (fuel + 1) s = some result := by
  induction fuel generalizing s with
  | zero => exact nomatch h
  | succ fuel ih =>
    rw [resolveLoop] at h ⊢
    cases hqueue : s.indexToResolve with
    | nil =>
      rw [hqueue] at h
      exact h
    | cons index indexToResolve =>
      rw [hqueue] at h
      dsimp only at h ⊢
      cases hstep : resolveStep props s index indexToResolve with
      | error error =>
        rw [hstep] at h
        exact h
      | ok s' =>
        rw [hstep] at h
        exact ih h

theorem Ends.unique {s : ResolveState} {result result' : Except ResolveError (List ℕ)}
    (h : Ends props s result) (h' : Ends props s result') : result = result' := by
  have hle {fuel fuel' : ℕ} (hle : fuel ≤ fuel') {result : Except ResolveError (List ℕ)}
      (h : resolveLoop props fuel s = some result) : resolveLoop props fuel' s = some result := by
    induction hle with
    | refl => exact h
    | step _ ih => exact resolveLoop_succ ih
  obtain ⟨fuel, hfuel⟩ := h
  obtain ⟨fuel', hfuel'⟩ := h'
  exact Option.some.inj ((hle (Nat.le_max_left fuel fuel') hfuel).symm.trans
    (hle (Nat.le_max_right fuel fuel') hfuel'))

/-! ### The first pass -/

/-- The state in which the first indexes have been taken from the queue. -/
structure FirstPass (props : List INodeProperties) (t : ℕ) (s : ResolveState) : Prop where
  order : s.executionOrder = List.range t
  queue : s.indexToResolve = List.range' t (props.length - t) ++ pending props t
  resolved : s.resolvedParameters = (List.range t).map (propertyName props)
  iterations : s.iterations = t
  length : s.lastIndexLength = s.indexToResolve.length + idle props t
  reduction : s.lastIndexReduction = -1 ∧ (∀ i < t, dependenciesAt props i ≠ [] →
      idle props i < (missing props i).length) ∨
    1 ≤ s.lastIndexReduction ∧ ∃ i < t, dependenciesAt props i ≠ [] ∧
      (missing props i).length ≤ idle props i

theorem firstPass_initialState : FirstPass props 0 (initialState props) where
  order := rfl
  queue := by
    rw [initialState, List.range_eq_range', pending, Nat.sub_zero]
    exact (List.append_nil _).symm
  resolved := rfl
  iterations := rfl
  length := List.length_range.symm
  reduction := .inl ⟨rfl, nofun⟩

theorem FirstPass.missingIn {t : ℕ} {s : ResolveState} (h : FirstPass props t s) :
    missingIn props s t = missing props t := by
  rw [ResolveOrder.missingIn, h.resolved, missing]

theorem pending_succ (t : ℕ) :
    pending props (t + 1) = pending props t ++ List.replicate (missing props t).length t := by
  rw [pending, List.range_succ, List.flatMap_append, List.flatMap_singleton, pending]

theorem idle_succ_of_ne {t : ℕ} (h : dependenciesAt props t ≠ []) : idle props (t + 1) = 0 :=
  if_neg h

/-- The next index in the first pass: the loop goes on, or it throws at the last one. -/
theorem FirstPass.step {t : ℕ} {s : ResolveState} (h : FirstPass props t s)
    (ht : t < props.length) (hread : isUnreadable (propertyName props t) = false) :
    ∃ indexToResolve, s.indexToResolve = t :: indexToResolve ∧
      (resolveStep props s t indexToResolve = .error maxIterationsError ∧ AllWait props ∨
        ∃ s', resolveStep props s t indexToResolve = .ok s' ∧ FirstPass props (t + 1) s' ∧
          (t + 1 = props.length → ¬ AllWait props)) := by
  have hrange : List.range' t (props.length - t) =
      t :: List.range' (t + 1) (props.length - (t + 1)) := by
    obtain ⟨k, hk⟩ : ∃ k, props.length - t = k + 1 := ⟨props.length - (t + 1), by omega⟩
    rw [hk, List.range'_succ]
    congr
    omega
  have hqueue : s.indexToResolve =
      t :: (List.range' (t + 1) (props.length - (t + 1)) ++ pending props t) := by
    rw [h.queue, hrange]
    rfl
  refine ⟨_, hqueue, ?_⟩
  have hlength := congrArg List.length hqueue
  rw [List.length_cons] at hlength
  have horder : s.executionOrder ++ [t] = List.range (t + 1) := by
    rw [h.order, List.range_succ]
  have hresolved : s.resolvedParameters ++ [propertyName props t] =
      (List.range (t + 1)).map (propertyName props) := by
    rw [h.resolved, List.range_succ, List.map_append]
    rfl
  have hiterations : s.iterations + 1 = t + 1 := congrArg (· + 1) h.iterations
  have hlast := h.length
  by_cases hne : dependenciesAt props t = []
  · -- nothing to wait for
    have hmissing : missing props t = [] := by rw [missing, hne]; rfl
    refine .inr ⟨_, (if_neg (hread ▸ Bool.false_ne_true)).trans (if_pos hne),
      ⟨horder, ?_, hresolved, hiterations, ?_, ?_⟩, ?_⟩
    · rw [pending_succ, hmissing]
      exact congrArg _ (List.append_nil _).symm
    · have hidle : idle props (t + 1) = idle props t + 1 := if_pos hne
      rw [hidle]
      dsimp only
      omega
    · refine h.reduction.imp (And.imp_right fun hall i hi hdep => ?_)
        (And.imp_right fun ⟨i, hi, hdep⟩ => ⟨i, Nat.lt_succ_of_lt hi, hdep⟩)
      obtain hlt | rfl := Nat.lt_succ_iff_lt_or_eq.mp hi
      · exact hall i hlt hdep
      · exact absurd hne hdep
    · rintro hlength ⟨last, hlast, hdep, -⟩
      obtain rfl : last = t := by omega
      exact hdep hne
  have hpass (lastIndexReduction : ℤ) (hreduction : lastIndexReduction = -1 ∧ (∀ i < t + 1,
      dependenciesAt props i ≠ [] → idle props i < (missing props i).length) ∨
      1 ≤ lastIndexReduction ∧ ∃ i < t + 1, dependenciesAt props i ≠ [] ∧
        (missing props i).length ≤ idle props i) :
      FirstPass props (t + 1) (ResolveOrder.resolved props s t
        (List.range' (t + 1) (props.length - (t + 1)) ++ pending props t) lastIndexReduction) := by
    refine ⟨horder, ?_, hresolved, hiterations, ?_, hreduction⟩
    · rw [ResolveOrder.resolved, h.missingIn, pending_succ, List.append_assoc]
    · rw [idle_succ_of_ne hne, ResolveOrder.resolved]
      dsimp only
      rw [List.length_append, List.length_append, List.length_replicate, List.length_append]
      rfl
  by_cases hreduces : (missing props t).length ≤ idle props t
  · refine .inr ⟨_, resolveStep_of_reduces hread hne ?_,
      hpass _ (.inr ⟨by omega, t, Nat.lt_succ_self t, hne, hreduces⟩), ?_⟩
    · rw [h.missingIn]
      omega
    · rintro hlength ⟨last, hlast, hdep, hall⟩
      obtain rfl : last = t := by omega
      exact absurd (hall last (Nat.le_refl last) hdep) (Nat.not_lt.mpr hreduces)
  rw [resolveStep_of_not_reduces hread hne (by rw [h.missingIn]; omega)]
  split_ifs with hguard
  · -- the queue has never got shorter, and this is the last property
    refine .inl ⟨rfl, t, ?_, hne, ?_⟩
    · obtain ⟨hnone, -⟩ | ⟨hone, -⟩ := h.reduction <;> omega
    · obtain ⟨-, hall⟩ | ⟨hone, -⟩ := h.reduction
      · intro i hi hdep
        obtain hlt | rfl := Nat.lt_or_eq_of_le hi
        · exact hall i hlt hdep
        · exact Nat.lt_of_not_le hreduces
      · omega
  · refine .inr ⟨_, rfl, hpass _ (h.reduction.imp (And.imp_right fun hall i hi hdep => ?_)
      (And.imp_right fun ⟨i, hi, hdep⟩ => ⟨i, Nat.lt_succ_of_lt hi, hdep⟩)), ?_⟩
    · obtain hlt | rfl := Nat.lt_succ_iff_lt_or_eq.mp hi
      · exact hall i hlt hdep
      · exact Nat.lt_of_not_le hreduces
    · rintro hlength ⟨last, hlast, hdep, hall⟩
      obtain rfl : last = t := by omega
      obtain ⟨hnone, -⟩ | ⟨-, i, hi, hdep', hle⟩ := h.reduction
      · omega
      · exact absurd (hall i (Nat.le_of_lt hi) hdep') (Nat.not_lt.mpr hle)

theorem ends_of_firstPass (hread : ∀ i < props.length, isUnreadable (propertyName props i) = false)
    {t : ℕ} {s : ResolveState} (h : FirstPass props t s) (ht : t < props.length) :
    (AllWait props → Ends props s (.error maxIterationsError)) ∧
      (¬ AllWait props → ∀ result, (∀ s', FirstPass props props.length s' → Ends props s' result) →
        Ends props s result) := by
  induction hk : props.length - (t + 1) generalizing t s with
  | zero =>
    have hlast : t + 1 = props.length := by omega
    obtain ⟨indexToResolve, hqueue, ⟨hstep, hwait⟩ | ⟨s', hstep, hpass, hnot⟩⟩ :=
      h.step ht (hread t ht)
    · exact ⟨fun _ => ends_error hqueue hstep, fun hnot => absurd hwait hnot⟩
    · refine ⟨fun hwait => absurd hwait (hnot hlast), fun _ result hends => ?_⟩
      exact (hends s' (hlast ▸ hpass)).step hqueue hstep
  | succ k ih =>
    obtain ⟨indexToResolve, hqueue, ⟨hstep, hwait⟩ | ⟨s', hstep, hpass, -⟩⟩ :=
      h.step ht (hread t ht)
    · exact ⟨fun _ => ends_error hqueue hstep, fun hnot => absurd hwait hnot⟩
    · obtain ⟨herror, hok⟩ := ih hpass (by omega) (by omega)
      exact ⟨fun hwait => (herror hwait).step hqueue hstep,
        fun hnot result hends => (hok hnot result hends).step hqueue hstep⟩

/-! ### The passes after the first one -/

/-- All names are taken for resolved, and what is left in the queue has dependencies. -/
structure SecondPass (props : List INodeProperties) (s : ResolveState) : Prop where
  names : ∀ name, name ∈ s.resolvedParameters ↔
    ∃ j < props.length, propertyName props j = name
  queue : ∀ i ∈ s.indexToResolve, i < props.length ∧ dependenciesAt props i ≠ []
  readable : ∀ i < props.length, isUnreadable (propertyName props i) = false
  length : s.indexToResolve.length ≤ s.lastIndexLength

theorem SecondPass.missingIn_ne_nil_iff {s : ResolveState} (h : SecondPass props s) (i : ℕ) :
    missingIn props s i ≠ [] ↔ IsStuck props i := by
  rw [missingIn, ne_eq, List.filter_eq_nil_iff, IsStuck]
  push Not
  simp only [h.names, decide_eq_true_eq]
  refine exists_congr fun dependency => and_congr_right fun _ => ?_
  rw [and_comm]
  refine and_congr_right fun _ => ?_
  push Not
  rfl

/-- What a step leaves behind in these passes. -/
theorem SecondPass.resolved {s : ResolveState} (h : SecondPass props s) {i : ℕ}
    {indexToResolve : List ℕ} (hqueue : s.indexToResolve = i :: indexToResolve)
    (lastIndexReduction : ℤ) :
    SecondPass props (ResolveOrder.resolved props s i indexToResolve lastIndexReduction) where
  names name := by
    rw [ResolveOrder.resolved]
    dsimp only
    rw [List.mem_append, List.mem_singleton, h.names]
    have hi := (h.queue i (hqueue ▸ List.mem_cons_self)).1
    exact ⟨fun hname => hname.elim id fun heq => ⟨i, hi, heq.symm⟩, .inl⟩
  readable := h.readable
  queue j hj := by
    rw [ResolveOrder.resolved] at hj
    obtain hj | hj := List.mem_append.mp hj
    · exact h.queue j (hqueue ▸ List.mem_cons_of_mem i hj)
    · exact (List.eq_of_mem_replicate hj) ▸ h.queue i (hqueue ▸ List.mem_cons_self)
  length := by
    rw [ResolveOrder.resolved]
    dsimp only
    rw [List.length_append, List.length_replicate]

/-- Where nothing is stuck, each index in the queue is resolved once more. -/
theorem SecondPass.ends_ok {s : ResolveState} (h : SecondPass props s)
    (hstuck : ∀ i ∈ s.indexToResolve, ¬ IsStuck props i) :
    Ends props s (.ok (s.executionOrder ++ s.indexToResolve)) := by
  induction hqueue : s.indexToResolve generalizing s with
  | nil =>
    rw [List.append_nil]
    exact ends_nil hqueue
  | cons i indexToResolve ih =>
    have hmissing : missingIn props s i = [] := by
      by_contra hne
      exact hstuck i (hqueue ▸ List.mem_cons_self) ((h.missingIn_ne_nil_iff i).mp hne)
    have hlength := h.length
    rw [hqueue, List.length_cons] at hlength
    have hlt : indexToResolve.length + (missingIn props s i).length < s.lastIndexLength := by
      rw [hmissing]
      exact hlength
    obtain ⟨hi, hdep⟩ := h.queue i (hqueue ▸ List.mem_cons_self)
    have hstep := resolveStep_of_reduces (h.readable i hi) hdep hlt
    have hrest : (ResolveOrder.resolved props s i indexToResolve
        (s.iterations + 1)).indexToResolve = indexToResolve := by
      rw [ResolveOrder.resolved, hmissing]
      exact List.append_nil indexToResolve
    have hends := ih (h.resolved hqueue _)
      (fun j hj => hstuck j (hqueue ▸ List.mem_cons_of_mem i (hrest ▸ hj))) hrest
    rw [ResolveOrder.resolved, List.append_assoc] at hends
    exact Ends.step hends hqueue hstep

open Classical in
/-- How many indexes in the queue are not stuck. -/
noncomputable def free (props : List INodeProperties) (queue : List ℕ) : ℕ :=
  queue.countP fun i => ¬ IsStuck props i

theorem free_requeue {i : ℕ} (h : IsStuck props i) (queue : List ℕ) (k : ℕ) :
    free props (queue ++ List.replicate k i) = free props (i :: queue) := by
  classical
  have hnone : List.countP (fun i => decide (¬ IsStuck props i)) (List.replicate k i) = 0 :=
    List.countP_eq_zero.mpr fun j hj => by
      rw [List.eq_of_mem_replicate hj, decide_eq_true_eq]
      exact not_not.mpr h
  rw [free, List.countP_append, hnone, free,
    List.countP_cons_of_neg (by rw [decide_eq_true_eq]; exact not_not.mpr h)]
  rfl

theorem free_lt {i : ℕ} (h : ¬ IsStuck props i) (queue : List ℕ) :
    free props queue < free props (i :: queue) := by
  classical
  rw [free, free, List.countP_cons_of_pos (by rw [decide_eq_true_eq]; exact h)]
  exact Nat.lt_succ_self _

/-- The indexes in the queue that are not stuck run out; then the steps that find the queue shorter
than it was; then the iterations that are left. -/
noncomputable def rank (props : List INodeProperties) (s : ResolveState) : ℕ ×ₗ (ℕ ×ₗ ℕ) :=
  toLex (free props s.indexToResolve,
    toLex (s.lastIndexLength - s.indexToResolve.length,
      (s.lastIndexReduction + props.length + 1 - s.iterations).toNat))

/-- An index that is stuck stays in the queue. -/
theorem SecondPass.step_of_stuck {s : ResolveState} (h : SecondPass props s)
    (hstuck : ∃ i ∈ s.indexToResolve, IsStuck props i) :
    ∃ j indexToResolve, s.indexToResolve = j :: indexToResolve ∧
      (resolveStep props s j indexToResolve = .error maxIterationsError ∨
        ∃ s', resolveStep props s j indexToResolve = .ok s' ∧ SecondPass props s' ∧
          (∃ i ∈ s'.indexToResolve, IsStuck props i) ∧ rank props s' < rank props s) := by
  obtain ⟨i, hi, hstuck⟩ := hstuck
  obtain ⟨j, indexToResolve, hqueue⟩ := List.exists_cons_of_ne_nil (List.ne_nil_of_mem hi)
  refine ⟨j, indexToResolve, hqueue, ?_⟩
  obtain ⟨hlt, hdep⟩ := h.queue j (hqueue ▸ List.mem_cons_self)
  have hread := h.readable j hlt
  have hlength := h.length
  rw [hqueue, List.length_cons] at hlength
  by_cases hj : IsStuck props j
  -- a stuck index goes back into the queue: the gap or the iterations that are left get less
  · have hpos := List.length_pos_iff.mpr ((h.missingIn_ne_nil_iff j).mpr hj)
    have hmem (lastIndexReduction : ℤ) : ∃ i ∈ (ResolveOrder.resolved props s j indexToResolve
        lastIndexReduction).indexToResolve, IsStuck props i :=
      ⟨j, List.mem_append_right _ (List.mem_replicate.mpr ⟨hpos.ne', rfl⟩), hj⟩
    have hrank (lastIndexReduction : ℤ) (hlt : s.indexToResolve.length < s.lastIndexLength ∨
        (lastIndexReduction + props.length + 1 - (s.iterations + 1)).toNat <
          (s.lastIndexReduction + props.length + 1 - s.iterations).toNat) :
        rank props (ResolveOrder.resolved props s j indexToResolve lastIndexReduction) <
          rank props s := by
      have hgap : indexToResolve.length + (missingIn props s j).length -
          (indexToResolve ++ List.replicate (missingIn props s j).length j).length = 0 := by
        rw [List.length_append, List.length_replicate, Nat.sub_self]
      rw [rank, rank, Prod.Lex.toLex_lt_toLex]
      refine .inr ⟨?_, ?_⟩
      · rw [hqueue]
        exact free_requeue hj indexToResolve _
      · rw [Prod.Lex.toLex_lt_toLex]
        dsimp only [ResolveOrder.resolved]
        rw [hgap]
        push_cast
        omega
    by_cases hlt : indexToResolve.length + (missingIn props s j).length < s.lastIndexLength
    · refine .inr ⟨_, resolveStep_of_reduces hread hdep hlt, h.resolved hqueue _, hmem _,
        hrank _ (.inl ?_)⟩
      rw [hqueue, List.length_cons]
      omega
    · rw [resolveStep_of_not_reduces hread hdep (Nat.not_lt.mp hlt)]
      split_ifs with hguard
      · exact .inl rfl
      · exact .inr ⟨_, rfl, h.resolved hqueue _, hmem _, hrank _ (.inr (by omega))⟩
  -- the index is not stuck and leaves the queue for good
  · have hmissing : missingIn props s j = [] := by
      by_contra hne
      exact hj ((h.missingIn_ne_nil_iff j).mp hne)
    have hrest : (ResolveOrder.resolved props s j indexToResolve
        (s.iterations + 1)).indexToResolve = indexToResolve := by
      rw [ResolveOrder.resolved, hmissing]
      exact List.append_nil indexToResolve
    refine .inr ⟨_, resolveStep_of_reduces hread hdep (by rw [hmissing]; exact hlength),
      h.resolved hqueue _, ⟨i, ?_, hstuck⟩, ?_⟩
    · rw [hrest]
      rw [hqueue] at hi
      obtain rfl | hi := List.mem_cons.mp hi
      · exact absurd hstuck hj
      · exact hi
    · rw [rank, rank, Prod.Lex.toLex_lt_toLex, hrest, hqueue]
      exact .inl (free_lt hj indexToResolve)

theorem SecondPass.ends_error {s : ResolveState} (h : SecondPass props s)
    (hstuck : ∃ i ∈ s.indexToResolve, IsStuck props i) :
    Ends props s (.error maxIterationsError) := by
  induction hr : rank props s using WellFoundedLT.induction generalizing s with
  | _ r ih =>
    subst hr
    obtain ⟨j, indexToResolve, hqueue, hstep | ⟨s', hstep, hpass, hstuck', hlt⟩⟩ :=
      h.step_of_stuck hstuck
    · exact ResolveOrder.ends_error hqueue hstep
    · exact (ih _ hlt hpass hstuck' rfl).step hqueue hstep

/-! ### What is returned -/

theorem mem_pending_iff {t i : ℕ} : i ∈ pending props t ↔ i < t ∧ missing props i ≠ [] := by
  rw [pending, List.mem_flatMap]
  constructor
  · rintro ⟨j, hj, hi⟩
    obtain ⟨hne, rfl⟩ := List.mem_replicate.mp hi
    exact ⟨List.mem_range.mp hj, fun hnil => hne (congrArg List.length hnil)⟩
  · rintro ⟨hi, hne⟩
    exact ⟨i, List.mem_range.mpr hi,
      List.mem_replicate.mpr ⟨fun hzero => hne (List.length_eq_zero_iff.mp hzero), rfl⟩⟩

theorem FirstPass.secondPass {s : ResolveState} (h : FirstPass props props.length s)
    (hread : ∀ i < props.length, isUnreadable (propertyName props i) = false) :
    s.executionOrder = List.range props.length ∧
      s.indexToResolve = pending props props.length ∧ SecondPass props s := by
  have hqueue : s.indexToResolve = pending props props.length := by
    rw [h.queue, Nat.sub_self]
    rfl
  refine ⟨h.order, hqueue, fun name => ?_, fun i hi => ?_, hread, ?_⟩
  · rw [h.resolved, List.mem_map]
    simp only [List.mem_range]
  · obtain ⟨hlt, hne⟩ := mem_pending_iff.mp (hqueue ▸ hi)
    refine ⟨hlt, fun hdep => hne ?_⟩
    rw [missing, hdep]
    rfl
  · rw [h.length]
    exact Nat.le_add_right _ _

theorem missing_ne_nil_of_isStuck {i : ℕ} (hi : i < props.length) (h : IsStuck props i) :
    missing props i ≠ [] := by
  obtain ⟨dependency, hmem, hroot, hnone⟩ := h
  have hmissing : dependency ∉ (List.range i).map (propertyName props) → missing props i ≠ [] :=
    fun hnot => List.ne_nil_of_mem (List.mem_filter.mpr ⟨hmem, decide_eq_true ⟨hnot, hroot⟩⟩)
  refine hmissing ?_
  rw [List.mem_map]
  rintro ⟨j, hj, hname⟩
  exact hnone j ((List.mem_range.mp hj).trans hi) hname

theorem Readable.propertyName (h : Readable props) :
    ∀ i < props.length, isUnreadable (propertyName props i) = false := by
  intro i hi
  rw [ResolveOrder.propertyName, List.getElem?_eq_getElem hi]
  exact (h _ (List.getElem_mem hi)).2

theorem Readable.returns_iff_ends (h : Readable props) (result : Except ResolveError (List ℕ)) :
    Returns props result ↔ Ends props (initialState props) result := by
  have hnone : ¬ ∃ nodeProperties ∈ props, HidesList nodeProperties :=
    fun ⟨nodeProperties, hmem, hhides⟩ => (h nodeProperties hmem).1 hhides
  rw [Returns, getParameterDependencies_eq, if_neg hnone]
  rfl

theorem Returns.unique {result result' : Except ResolveError (List ℕ)} (h : Returns props result)
    (h' : Returns props result') : result = result' := by
  rw [Returns] at h h'
  cases hdependencies : getParameterDependencies props with
  | error error =>
    rw [hdependencies] at h h'
    exact Eq.trans h h'.symm
  | ok dependencies =>
    rw [hdependencies] at h h'
    exact Ends.unique h h'

/-- The first pass comes to the first property that cannot be read, and throws there, if not
before. -/
theorem FirstPass.ends_error_of_unreadable {t i : ℕ} {s : ResolveState} (h : FirstPass props t s)
    (hle : t ≤ i) (hi : i < props.length) (hread : isUnreadable (propertyName props i) = true)
    (hbefore : ∀ j < i, isUnreadable (propertyName props j) = false) :
    ∃ error, Ends props s (.error error) := by
  induction hk : i - t generalizing t s with
  | zero =>
    obtain rfl : t = i := by omega
    obtain ⟨k, hk⟩ : ∃ k, props.length - t = k + 1 := ⟨props.length - (t + 1), by omega⟩
    have hqueue := h.queue
    rw [hk, List.range'_succ] at hqueue
    exact ⟨_, ends_error hqueue (if_pos hread)⟩
  | succ k ih =>
    obtain ⟨indexToResolve, hqueue, ⟨hstep, -⟩ | ⟨s', hstep, hpass, -⟩⟩ :=
      h.step (by omega) (hbefore t (by omega))
    · exact ⟨_, ends_error hqueue hstep⟩
    · obtain ⟨error, hends⟩ := ih hpass (by omega) (by omega)
      exact ⟨error, hends.step hqueue hstep⟩

theorem exists_error_of_not_readable (h : ¬ Readable props) :
    ∃ error, Returns props (.error error) := by
  by_cases hhides : ∃ nodeProperties ∈ props, HidesList nodeProperties
  · refine ⟨.typeError, ?_⟩
    rw [Returns, getParameterDependencies_eq, if_pos hhides]
  have hsome : ∃ i < props.length, isUnreadable (propertyName props i) = true := by
    by_contra hnone
    refine h fun nodeProperties hmem => ⟨fun hhide => hhides ⟨_, hmem, hhide⟩, ?_⟩
    obtain ⟨i, hi, rfl⟩ := List.getElem_of_mem hmem
    have hname : propertyName props i = props[i].name := by
      rw [propertyName, List.getElem?_eq_getElem hi]
      rfl
    exact Bool.eq_false_iff.mpr fun hread => hnone ⟨i, hi, hname.symm ▸ hread⟩
  have hfirst := Nat.find_spec hsome
  obtain ⟨error, hends⟩ := firstPass_initialState.ends_error_of_unreadable (Nat.zero_le _)
    hfirst.1 hfirst.2 fun j hj => Bool.eq_false_iff.mpr fun hread =>
      Nat.find_min hsome hj ⟨hj.trans hfirst.1, hread⟩
  refine ⟨error, ?_⟩
  rw [Returns, getParameterDependencies_eq, if_neg hhides]
  exact hends

/-- An error is thrown where the list makes the loop fail. Elsewhere each index stands in what is
returned once for the first pass, and once for each dependency that it waited for. -/
theorem returns_iff (hreadable : Readable props) (result : Except ResolveError (List ℕ)) :
    Returns props result ↔ Fails props ∧ result = .error maxIterationsError ∨
      ¬ Fails props ∧ result = .ok (List.range props.length ++ pending props props.length) := by
  have hread := hreadable.propertyName
  have hreturns : (Fails props → Ends props (initialState props) (.error maxIterationsError)) ∧
      (¬ Fails props → Ends props (initialState props)
        (.ok (List.range props.length ++ pending props props.length))) := by
    -- behind the first pass the queue holds what was missing in it
    have hlast (s : ResolveState) (h : FirstPass props props.length s) :
        ((∃ i < props.length, IsStuck props i) → Ends props s (.error maxIterationsError)) ∧
          (¬ Fails props →
            Ends props s (.ok (List.range props.length ++ pending props props.length))) := by
      obtain ⟨horder, hqueue, hpass⟩ := h.secondPass hread
      constructor
      · rintro ⟨i, hi, hstuck⟩
        refine hpass.ends_error ⟨i, ?_, hstuck⟩
        rw [hqueue, mem_pending_iff]
        exact ⟨hi, missing_ne_nil_of_isStuck hi hstuck⟩
      · intro hnot
        rw [← horder, ← hqueue]
        exact hpass.ends_ok fun i hi hstuck => hnot (.inl ⟨i, (hpass.queue i hi).1, hstuck⟩)
    -- an empty list has no last index at which the first pass could end
    by_cases hempty : props.length = 0
    · have hpass : FirstPass props props.length (initialState props) :=
        hempty.symm ▸ firstPass_initialState
      refine ⟨?_, (hlast _ hpass).2⟩
      rintro (⟨i, hi, -⟩ | ⟨last, hlength, -⟩)
      · omega
      · omega
    obtain ⟨hwait, hgoes⟩ := ends_of_firstPass hread firstPass_initialState
      (Nat.pos_of_ne_zero hempty)
    constructor
    · intro hfails
      by_cases hall : AllWait props
      · exact hwait hall
      · exact hgoes hall _ fun s h => (hlast s h).1 (hfails.resolve_right hall)
    · intro hnot
      exact hgoes (fun hall => hnot (.inr hall)) _ fun s h => (hlast s h).2 hnot
  rw [hreadable.returns_iff_ends]
  by_cases hfails : Fails props
  · rw [and_iff_right hfails, or_iff_left fun h => h.1 hfails]
    exact ⟨fun h => Ends.unique h (hreturns.1 hfails), fun h => h ▸ hreturns.1 hfails⟩
  · rw [and_iff_right hfails, or_iff_right fun h => hfails h.1]
    exact ⟨fun h => Ends.unique h (hreturns.2 hfails), fun h => h ▸ hreturns.2 hfails⟩

/-! ### An order that respects the dependencies -/

theorem Listed.lt (h : Listed props) {i j : ℕ} (hdepends : DependsOn props i j) : j < i :=
  (h i hdepends.1 _ hdepends.2.2.1 hdepends.2.2.2).2 j hdepends.2.1 rfl

theorem Listed.acyclic (h : Listed props) : Acyclic props := by
  have hlt {i j : ℕ} (hij : Relation.TransGen (DependsOn props) i j) : j < i := by
    induction hij with
    | single hij => exact h.lt hij
    | tail _ hjk ih => exact (h.lt hjk).trans ih
  exact fun i hi => Nat.lt_irrefl i (hlt hi)

theorem Listed.missing_eq_nil (h : Listed props) {i : ℕ} (hi : i < props.length) :
    missing props i = [] := by
  rw [missing, List.filter_eq_nil_iff]
  intro dependency hmem hnot
  obtain ⟨hnone, hroot⟩ := of_decide_eq_true hnot
  obtain ⟨⟨j, hj, hname⟩, hall⟩ := h i hi dependency hmem hroot
  exact hnone (List.mem_map.mpr ⟨j, List.mem_range.mpr (hall j hj hname), hname⟩)

theorem Listed.not_fails (h : Listed props) : ¬ Fails props := by
  rintro (⟨i, hi, hstuck⟩ | ⟨last, hlength, hdep, hall⟩)
  · exact missing_ne_nil_of_isStuck hi hstuck (h.missing_eq_nil hi)
  · have hlt := hall last (Nat.le_refl last) hdep
    rw [h.missing_eq_nil (by omega)] at hlt
    exact absurd hlt (Nat.not_lt_zero _)

theorem pending_eq_nil_iff {t : ℕ} : pending props t = [] ↔ ∀ i < t, missing props i = [] := by
  rw [List.eq_nil_iff_forall_not_mem]
  simp only [mem_pending_iff, not_and, not_not]

theorem idxOf_range {n i : ℕ} (h : i < n) : (List.range n).idxOf i = i := by
  have hmem : i ∈ List.range n := List.mem_range.mpr h
  have hlt := List.idxOf_lt_length_iff.mpr hmem
  have hget := List.getElem_idxOf hlt
  rwa [List.getElem_range] at hget

theorem OrdersByDependencies.readable (h : OrdersByDependencies props) (hacyclic : Acyclic props) :
    Readable props := by
  by_contra hnot
  exact h.throws_iff.mp (exists_error_of_not_readable hnot) hacyclic

theorem OrdersByDependencies.listed (h : OrdersByDependencies props) (hacyclic : Acyclic props) :
    Listed props := by
  intro i hi dependency hmem hroot
  obtain ⟨order, hreturns, hperm, hlt⟩ := h.order hacyclic
  obtain ⟨-, herror⟩ | ⟨-, hok⟩ := (returns_iff (h.readable hacyclic) _).mp hreturns
  · exact nomatch herror
  obtain rfl := Except.ok.inj hok
  have hlength := hperm.length_eq
  rw [List.length_append] at hlength
  have hnil : pending props props.length = [] := List.length_eq_zero_iff.mp (by omega)
  have hbefore : ∃ j < i, propertyName props j = dependency := by
    have hmissing := List.filter_eq_nil_iff.mp (pending_eq_nil_iff.mp hnil i hi) dependency hmem
    by_contra hnone
    refine hmissing (decide_eq_true ⟨fun hname => hnone ?_, hroot⟩)
    obtain ⟨j, hj, hname⟩ := List.mem_map.mp hname
    exact ⟨j, List.mem_range.mp hj, hname⟩
  obtain ⟨j, hj, hname⟩ := hbefore
  refine ⟨⟨j, hj.trans hi, hname⟩, fun k hk hname => ?_⟩
  have hklt := hlt i k ⟨hi, hk, hname ▸ hmem, hname ▸ hroot⟩
  rwa [hnil, List.append_nil, idxOf_range hk, idxOf_range hi] at hklt

/-- **For which lists the order is right**: those that can be read and whose properties stand behind
all that they depend on, and those with a cycle that cannot be read, or that have a dependency on no
property, or in which all have to wait. -/
theorem ordersByDependencies_iff (props : List INodeProperties) :
    OrdersByDependencies props ↔ Readable props ∧ Listed props ∨
      ¬ Acyclic props ∧ (Readable props → Fails props) := by
  constructor
  · intro h
    by_cases hacyclic : Acyclic props
    · exact .inl ⟨h.readable hacyclic, h.listed hacyclic⟩
    · refine .inr ⟨hacyclic, fun hreadable => ?_⟩
      obtain ⟨error, hreturns⟩ := h.throws_iff.mpr hacyclic
      obtain ⟨hfails, -⟩ | ⟨-, hok⟩ := (returns_iff hreadable _).mp hreturns
      · exact hfails
      · exact nomatch hok
  -- in a listed order nothing waits, so the first pass is all
  · rintro (⟨hreadable, hlisted⟩ | ⟨hcyclic, hfails⟩)
    · have hnil : pending props props.length = [] :=
        pending_eq_nil_iff.mpr fun i hi => hlisted.missing_eq_nil hi
      have hreturns : Returns props (.ok (List.range props.length)) :=
        (returns_iff hreadable _).mpr (.inr ⟨hlisted.not_fails, by rw [hnil, List.append_nil]⟩)
      refine ⟨⟨_, hreturns⟩, fun _ => ⟨_, hreturns, List.Perm.refl _, fun i j hdepends => ?_⟩, ?_⟩
      · rw [idxOf_range hdepends.1, idxOf_range hdepends.2.1]
        exact hlisted.lt hdepends
      · refine iff_of_false ?_ (not_not.mpr hlisted.acyclic)
        rintro ⟨error, herror⟩
        exact nomatch Returns.unique herror hreturns
    · obtain ⟨error, hreturns⟩ : ∃ error, Returns props (.error error) := by
        by_cases hreadable : Readable props
        · exact ⟨_, (returns_iff hreadable _).mpr (.inl ⟨hfails hreadable, rfl⟩)⟩
        · exact exists_error_of_not_readable hreadable
      exact ⟨⟨_, hreturns⟩, fun hacyclic => absurd hacyclic hcyclic,
        iff_of_true ⟨_, hreturns⟩ hcyclic⟩

/-- A property in front of the one that it depends on is resolved before it, and once more after
it. -/
theorem not_ordersByDependencies_dependent_first :
    ¬ OrdersByDependencies [⟨"a", some [["b"]]⟩, ⟨"b", none⟩] := by
  have hreturns : Returns [⟨"a", some [["b"]]⟩, ⟨"b", none⟩] (.ok [0, 1, 0]) := ⟨4, by decide⟩
  have hdepends : ∀ i j, DependsOn [⟨"a", some [["b"]]⟩, ⟨"b", none⟩] i j → i = 0 ∧ j = 1 := by
    rintro i j ⟨hi, hj, hmem, -⟩
    have hi : i < 2 := hi
    have hj : j < 2 := hj
    obtain rfl | rfl : i = 0 ∨ i = 1 := by omega
    · obtain rfl | rfl : j = 0 ∨ j = 1 := by omega
      · exact absurd hmem (by decide)
      · exact ⟨rfl, rfl⟩
    · exact absurd hmem (List.not_mem_nil)
  have hacyclic : Acyclic [⟨"a", some [["b"]]⟩, ⟨"b", none⟩] := by
    intro i hi
    obtain ⟨j, hij, -⟩ := Relation.TransGen.head'_iff.mp hi
    obtain ⟨k, -, hki⟩ := Relation.TransGen.tail'_iff.mp hi
    exact absurd ((hdepends i j hij).1.symm.trans (hdepends k i hki).2) (by decide)
  intro h
  obtain ⟨order, hreturns', hperm, -⟩ := h.order hacyclic
  obtain rfl := Except.ok.inj (Returns.unique hreturns hreturns')
  exact absurd hperm.length_eq (by decide)

end ResolveOrder

end N8n
