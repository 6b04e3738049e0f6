import Mathlib.Algebra.Order.Ring.Int
import Mathlib.Data.List.InsertIdx
import Mathlib.Data.List.Pairwise
import Mathlib.Data.List.Perm.Basic
import Mathlib.Data.List.Sort
import N8n.Foundations.Transition

/-!
# The order of the role-mapping rules

`RoleMappingRuleService` keeps one ordered list of rules for each of the two mapping types. A
call saves its rule first and renumbers the rules of the type afterwards: `applyOrder` moves
them, one statement each, to `offset`, `offset + 1`, … and from there to `0`, `1`, …, in one
transaction. The offset is the number of rules plus 1000, and the orders from it on are taken
to be free.

After a `create`, a `move` or a `delete` they are. A `patch` however saves any integer as the
order of its rule before it renumbers. With `n` rules of the type, an order from `n + 1000` to
`2 * n + 998` is one that an earlier rule of the list is moved to: the statement violates the
unique constraint on the type and the order, the transaction is rolled back, the call fails and
the saved order stays. These patches are the only calls that break the order of the rules
(`staysDense_iff`).

Timestamps, `list` and `deleteAllOfType` are left out, and an order is any integer.
-/

namespace N8n.RoleMapping

open scoped List
open Transition (Run)

/-- The types of roles (`roleType` of the entity `Role`). -/
inductive RoleType
  | global
  | project
  | workflow
  | credential
  | secretsProviderConnection
deriving DecidableEq

/-- The columns of `Role` that the service reads. -/
structure Role where
  slug : String
  roleType : RoleType
deriving DecidableEq

/-- `'instance' | 'project'`. -/
inductive RuleType
  | ofInstance
  | ofProject
deriving DecidableEq

/-- The text of a mapping type. -/
def RuleType.text : RuleType → String
  | ofInstance => "instance"
  | ofProject => "project"

/-- The entity `RoleMappingRule` with its relations, the projects by their ids. -/
structure RoleMappingRule where
  id : String
  expression : String
  role : Role
  type : RuleType
  order : ℤ
  projects : List String
deriving DecidableEq

/-- The errors that the checks of a call throw. -/
inductive Refusal
  | badRequest (message : String)
  | notFound (message : String)
  | conflict (message : String)
deriving DecidableEq

/-- How a call fails; `uniqueConstraint` is the failure of a statement. -/
inductive Failure
  | refused (refusal : Refusal)
  | uniqueConstraint
  | entityNotFound
  | typeError
deriving DecidableEq

/-! ### The table -/

/-- Two rows that the primary key and `@Unique(['type', 'order'])` admit side by side. -/
def Distinct (r r' : RoleMappingRule) : Prop :=
  r.id ≠ r'.id ∧ ¬(r.type = r'.type ∧ r.order = r'.order)

instance (r r' : RoleMappingRule) : Decidable (Distinct r r') :=
  inferInstanceAs (Decidable (_ ∧ _))

instance : Std.Symm Distinct where
  symm _ _ h := ⟨h.1.symm, fun hsame => h.2 ⟨hsame.1.symm, hsame.2.symm⟩⟩

/-- A row after the order of the rule with an id is set. -/
def withOrder (id : String) (order : ℤ) (r : RoleMappingRule) : RoleMappingRule :=
  if r.id = id then { r with order := order } else r

/-- The table of the rules, whose constraints hold. -/
structure Table where
  rows : List RoleMappingRule
  distinct : rows.Pairwise Distinct

namespace Table

/-- The empty table. -/
def empty : Table := ⟨[], .nil⟩

/-- What a statement leaves: its constraints are checked after it. -/
def written (rows : List RoleMappingRule) : Option Table :=
  if h : rows.Pairwise Distinct then some ⟨rows, h⟩ else none

/-- `repository.save` of a new rule. -/
def insert (t : Table) (rule : RoleMappingRule) : Option Table :=
  written (t.rows ++ [rule])

/-- `repository.save` of a rule of the table. -/
def save (t : Table) (rule : RoleMappingRule) : Option Table :=
  written (t.rows.map fun r => if r.id = rule.id then rule else r)

/-- `tx.update(RoleMappingRule, { id }, { order })`. -/
def update (t : Table) (id : String) (order : ℤ) : Option Table :=
  written (t.rows.map (withOrder id order))

/-- `repository.remove` of the rule with an id. -/
def remove (t : Table) (id : String) : Table where
  rows := t.rows.filter fun r => r.id ≠ id
  distinct := t.distinct.filter _

/-- `repository.find` of the rules of a type, ordered by `order`. -/
def find (t : Table) (type : RuleType) : List RoleMappingRule :=
  (t.rows.filter fun r => r.type = type).insertionSort fun r r' => r.order ≤ r'.order

/-- `repository.findOne` by the id. -/
def findOne (t : Table) (id : String) : Option RoleMappingRule :=
  t.rows.find? fun r => r.id = id

/-- The ids of the rules of a type, in their order. -/
def idsOf (t : Table) (type : RuleType) : List String :=
  (t.find type).map (·.id)

/-! ### Renumbering -/

/-- One phase of `applyOrder`: the rules get the orders from `order` on. -/
def numberFrom (order : ℤ) : List String → Table → Option Table
  | [], t => some t
  | id :: orderedIds, t => (t.update id order).bind (numberFrom (order + 1) orderedIds)

/-- `applyOrder`: nothing is left of the transaction when a statement of it fails. -/
def applyOrder (t : Table) (orderedIds : List String) : Option Table :=
  if orderedIds.length = 0 then some t
  else
    let offset : ℤ := orderedIds.length + 1000
    (numberFrom offset orderedIds t).bind (numberFrom 0 orderedIds)

/-- `normalizeOrderForType`. -/
def normalizeOrderForType (t : Table) (type : RuleType) : Option Table :=
  let rules := t.find type
  if rules.length = 0 then some t
  else if rules.zipIdx.all fun (r, i) => r.order = i then some t
  else t.applyOrder (rules.map (·.id))

end Table

/-! ### The checks of a call -/

/-- `if (…) throw …`. -/
def throwIf (condition : Bool) (refusal : Refusal) : Except Refusal Unit :=
  if condition then .error refusal else .ok ()

/-- `if (!…) throw …`, with the value from there on. -/
def orThrow {α : Type} (value : Option α) (refusal : Refusal) : Except Refusal α :=
  match value with
  | some a => .ok a
  | none => .error refusal

/-- What a call reads of the roles and of the projects. -/
structure Lookups where
  role : String → Option Role
  project : String → Bool

/-- `projectRepository.findBy({ id: In(uniqueProjectIds) })`: all of them, or the call fails. -/
def Lookups.findProjects (env : Lookups) (uniqueProjectIds : List String) :
    Except Refusal (List String) :=
  let projects := uniqueProjectIds.filter env.project
  if projects.length ≠ uniqueProjectIds.length then
    .error (.badRequest "One or more projects were not found")
  else .ok projects

/-- `assertRoleCompatibleWithMappingType`. -/
def assertRoleCompatibleWithMappingType (role : Role) (type : RuleType) : Except Refusal Unit :=
  if type = .ofInstance ∧ role.roleType ≠ .global then
    .error (.badRequest "Instance mapping rules must use a global role")
  else if type = .ofProject ∧ role.roleType ≠ .project then
    .error (.badRequest "Project mapping rules must use a project role")
  else .ok ()

/-- `assertAndNormalizeProjectIdsForRuleType`. -/
def assertAndNormalizeProjectIdsForRuleType (type : RuleType)
    (explicitProjectIds : Option (List String)) (fallbackWhenOmitted : List String) :
    Except Refusal (List String) :=
  match type with
  | .ofInstance =>
    if (explicitProjectIds.getD []).length > 0 then
      .error (.badRequest "projectIds must be omitted or empty when type is instance")
    else .ok []
  | .ofProject =>
    let ids := (explicitProjectIds.getD fallbackWhenOmitted).eraseDups
    if ids.length = 0 then .error (.badRequest "projectIds is required when type is project")
    else .ok ids

/-- `Could not find role with slug …`. -/
def roleNotFound (slug : String) : Refusal :=
  .notFound ("Could not find role with slug \"" ++ slug ++ "\"")

/-- `assertOrderAvailable`. -/
def assertOrderAvailable (t : Table) (type : RuleType) (order : ℤ) (excludeRuleId : String) :
    Except Refusal Unit :=
  match t.rows.find? fun r => r.type = type ∧ r.order = order with
  | some existingAtOrder =>
    if existingAtOrder.id ≠ excludeRuleId then
      .error (.conflict ("A role mapping rule already exists with type \"" ++ type.text ++
        "\" and order " ++ toString order ++ ". Use a different order value."))
    else .ok ()
  | none => .ok ()

/-- `CreateRoleMappingRuleDto`, whose order is not negative. -/
structure CreateRoleMappingRuleDto where
  expression : String
  role : String
  type : RuleType
  order : Option ℕ
  projectIds : Option (List String)

/-- `PatchRoleMappingRuleDto`, whose order is any integer. -/
structure PatchRoleMappingRuleDto where
  expression : Option String
  role : Option String
  type : Option RuleType
  order : Option ℤ
  projectIds : Option (List String)
deriving DecidableEq

/-- The role and the projects of a new rule. -/
def checkedCreate (env : Lookups) (dto : CreateRoleMappingRuleDto) :
    Except Refusal (Role × List String) := do
  let uniqueProjectIds ← assertAndNormalizeProjectIdsForRuleType dto.type dto.projectIds []
  let role ← orThrow (env.role dto.role) (roleNotFound dto.role)
  assertRoleCompatibleWithMappingType role dto.type
  let projects ← env.findProjects uniqueProjectIds
  return (role, projects)

/-- The rule that `patch` finds, and what it becomes. -/
def checkedPatch (t : Table) (env : Lookups) (id : String) (dto : PatchRoleMappingRuleDto) :
    Except Refusal (RoleMappingRule × RoleMappingRule) := do
  throwIf (id.length = 0) (.badRequest "Rule id is required")
  throwIf (dto = ⟨none, none, none, none, none⟩) (.badRequest "At least one field is required")
  let rule ← orThrow (t.findOne id) (.notFound "Could not find role mapping rule")
  let mergedType := dto.type.getD rule.type
  let mergedOrder := dto.order.getD rule.order
  let mergedExpression := dto.expression.getD rule.expression
  let mergedRoleSlug := dto.role.getD rule.role.slug
  let uniqueProjectIds ←
    assertAndNormalizeProjectIdsForRuleType mergedType dto.projectIds rule.projects
  let role ← orThrow
    (if mergedRoleSlug = rule.role.slug then some rule.role else env.role mergedRoleSlug)
    (roleNotFound mergedRoleSlug)
  assertRoleCompatibleWithMappingType role mergedType
  assertOrderAvailable t mergedType mergedOrder id
  let projects ← env.findProjects uniqueProjectIds
  return (rule, { rule with expression := mergedExpression, role, type := mergedType,
                            order := mergedOrder, projects })

/-- The rule of an id, as `delete` and `move` ask for it. -/
def checkedRule (t : Table) (id : String) : Except Refusal RoleMappingRule := do
  throwIf (id.length = 0) (.badRequest "Rule id is required")
  orThrow (t.findOne id) (.notFound "Could not find role mapping rule")

/-! ### The calls -/

/-- What a call answers. -/
inductive Reply
  | rule (loaded : RoleMappingRule)
  | deleted (ruleType : RuleType)

/-- `findOneOrFail`, after everything is written. -/
def loaded (t : Table) (id : String) : Except Failure Reply × Table :=
  match t.findOne id with
  | some rule => (.ok (.rule rule), t)
  | none => (.error .entityNotFound, t)

/-- A statement or a transaction of a call: where it fails, the call fails with it and the table
is as it was before. -/
def attempt (t : Table) (result : Option Table) (rest : Table → Except Failure Reply × Table) :
    Except Failure Reply × Table :=
  match result with
  | some t' => rest t'
  | none => (.error .uniqueConstraint, t)

/-- `create`; `newId` is the id that the entity generates for itself. -/
def create (t : Table) (env : Lookups) (newId : String) (dto : CreateRoleMappingRuleDto) :
    Except Failure Reply × Table :=
  match checkedCreate env dto with
  | .error refusal => (.error (.refused refusal), t)
  | .ok (role, projects) =>
    let existingRules := t.find dto.type
    let requestedOrder := dto.order.getD existingRules.length
    let targetIndex := min (max requestedOrder 0) existingRules.length
    let maxOrder := (existingRules.getLast?.map (·.order)).getD (-1)
    let tempOrder := max maxOrder (existingRules.length - 1) + 1
    attempt t (t.insert ⟨newId, dto.expression, role, dto.type, tempOrder, projects⟩) fun saved =>
      let reorderedIds := (existingRules.map (·.id)).insertIdx targetIndex newId
      attempt saved (saved.applyOrder reorderedIds) fun applied => loaded applied newId

/-- `patch`. -/
def patch (t : Table) (env : Lookups) (id : String) (dto : PatchRoleMappingRuleDto) :
    Except Failure Reply × Table :=
  match checkedPatch t env id dto with
  | .error refusal => (.error (.refused refusal), t)
  | .ok (original, rule) =>
    attempt t (t.save rule) fun saved =>
      attempt saved (saved.normalizeOrderForType rule.type) fun normalized =>
        if original.type ≠ rule.type then
          attempt normalized (normalized.normalizeOrderForType original.type) fun both =>
            loaded both rule.id
        else loaded normalized rule.id

/-- `delete`. -/
def delete (t : Table) (id : String) : Except Failure Reply × Table :=
  match checkedRule t id with
  | .error refusal => (.error (.refused refusal), t)
  | .ok rule =>
    attempt (t.remove rule.id) ((t.remove rule.id).normalizeOrderForType rule.type)
      fun normalized => (.ok (.deleted rule.type), normalized)

/-- `move`. -/
def move (t : Table) (id : String) (targetIndex : ℕ) : Except Failure Reply × Table :=
  match checkedRule t id with
  | .error refusal => (.error (.refused refusal), t)
  | .ok rule =>
    let all := t.find rule.type
    let clampedIndex := min targetIndex (all.length - 1)
    let currentIndex := all.findIdx fun r => r.id = id
    match all[currentIndex]? with
    | none => (.error .typeError, t)
    | some current =>
      let reordered := (all.eraseIdx currentIndex).insertIdx clampedIndex current
      attempt t (t.applyOrder (reordered.map (·.id))) fun applied => loaded applied id

/-- The calls of the service, with what they read of the other tables. -/
inductive Call
  | create (env : Lookups) (newId : String) (dto : CreateRoleMappingRuleDto)
  | patch (env : Lookups) (id : String) (dto : PatchRoleMappingRuleDto)
  | move (id : String) (targetIndex : ℕ)
  | delete (id : String)

/-- The rule that a call is about. -/
def Call.ruleId : Call → String
  | create _ newId _ => newId
  | patch _ id _ => id
  | move id _ => id
  | delete id => id

/-- The service answers a call. -/
def serve (t : Table) : Call → Except Failure Reply × Table
  | .create env newId dto => create t env newId dto
  | .patch env id dto => patch t env id dto
  | .move id targetIndex => move t id targetIndex
  | .delete id => delete t id

/-- The generated id of a new rule is not in use. -/
def Call.Fresh (t : Table) : Call → Prop
  | create _ newId _ => ∀ r ∈ t.rows, r.id ≠ newId
  | _ => True

/-- One call, from one table to the next. -/
def Step (t : Table) (c : Call) (t' : Table) : Prop :=
  c.Fresh t ∧ (serve t c).2 = t'

/-! ### What a run keeps, and on which condition -/

/-- The `i`-th rule of the list has the order `i`. -/
def DenseList (rules : List RoleMappingRule) : Prop :=
  ∀ (i : ℕ) (h : i < rules.length), (rules[i]).order = i

/-- The orders of the rules of each type are exactly `0`, …, `n - 1`. -/
def Dense (t : Table) : Prop :=
  ∀ type, DenseList (t.find type)

/-- A call that succeeds placed its rule at the requested index, clamped to the list; a rule
without a requested index comes last. -/
def Placed (t t' : Table) : Call → Prop
  | .create _ newId dto =>
    (t'.idsOf dto.type)[min (dto.order.getD (t.idsOf dto.type).length)
      (t.idsOf dto.type).length]? = some newId
  | .move id targetIndex =>
    ∀ rule, t.findOne id = some rule →
      (t'.idsOf rule.type)[min targetIndex ((t.idsOf rule.type).length - 1)]? = some id
  | _ => True

/-- The call does not fail because of the constraint, it places its rule, and the other rules
of each type keep their relative order. -/
def StepOk (t : Table) (c : Call) : Prop :=
  (serve t c).1 ≠ .error .uniqueConstraint ∧
    ((serve t c).1.isOk → Placed t (serve t c).2 c) ∧
    ∀ type, ((serve t c).2.idsOf type).filter (· ≠ c.ruleId) =
      (t.idsOf type).filter (· ≠ c.ruleId)

/-- The rules stay densely ordered along a run. -/
def StaysDense {t t' : Table} (run : Run Step t t') : Prop :=
  run.Visits Dense ∧ run.Takes StepOk

/-- A patch that passes its checks does not give its rule an order that the renumbering of the
`n` rules of its type passes through. -/
def Condition (t : Table) : Call → Prop
  | .patch env id dto =>
    ∀ original rule, checkedPatch t env id dto = .ok (original, rule) →
      let n := ((t.find (dto.type.getD original.type)).filter (·.id ≠ id)).length + 1
      let order := dto.order.getD original.order
      ¬((n : ℤ) + 1000 ≤ order ∧ order ≤ 2 * n + 998)
  | _ => True

/-! ### Reading the table -/

section WithOrder

variable {id : String} {order : ℤ} {r : RoleMappingRule}

@[simp]
theorem withOrder_self (r : RoleMappingRule) (order : ℤ) :
    withOrder r.id order r = { r with order := order } :=
  if_pos rfl

theorem withOrder_of_ne (h : r.id ≠ id) : withOrder id order r = r :=
  if_neg h

@[simp]
theorem withOrder_type : (withOrder id order r).type = r.type := by
  unfold withOrder
  split
  · rfl
  · rfl

@[simp]
theorem withOrder_id : (withOrder id order r).id = r.id := by
  unfold withOrder
  split
  · rfl
  · rfl

end WithOrder

namespace Table

theorem written_eq_some {rows : List RoleMappingRule} {t : Table} :
    written rows = some t ↔ t.rows = rows := by
  unfold written
  constructor
  · intro h
    split at h
    · exact (Option.some.inj h) ▸ rfl
    · exact absurd h (by simp)
  · rintro rfl
    exact dif_pos t.distinct

theorem exists_written {rows : List RoleMappingRule} (h : rows.Pairwise Distinct) :
    ∃ t, written rows = some t :=
  ⟨⟨rows, h⟩, dif_pos h⟩

variable {t t' : Table} {r r' : RoleMappingRule} {T U : RuleType} {l : List RoleMappingRule}

theorem eq_of_id (hr : r ∈ t.rows) (hr' : r' ∈ t.rows) (h : r.id = r'.id) : r = r' := by
  by_contra hne
  exact (t.distinct.forall hr hr' hne).1 h

theorem eq_of_order (hr : r ∈ t.rows) (hr' : r' ∈ t.rows) (htype : r.type = r'.type)
    (horder : r.order = r'.order) : r = r' := by
  by_contra hne
  exact (t.distinct.forall hr hr' hne).2 ⟨htype, horder⟩

theorem find_perm (t : Table) (T : RuleType) :
    t.find T ~ t.rows.filter fun r => r.type = T :=
  List.perm_insertionSort _ _

theorem mem_find : r ∈ t.find T ↔ r ∈ t.rows ∧ r.type = T := by
  rw [(t.find_perm T).mem_iff, List.mem_filter, decide_eq_true_iff]

theorem sorted_find (t : Table) (T : RuleType) :
    (t.find T).Pairwise fun r r' => r.order ≤ r'.order := by
  have : Std.Total fun r r' : RoleMappingRule => r.order ≤ r'.order :=
    ⟨fun r r' => le_total r.order r'.order⟩
  have : IsTrans RoleMappingRule fun r r' => r.order ≤ r'.order :=
    ⟨fun _ _ _ h h' => le_trans h h'⟩
  exact List.pairwise_insertionSort _ _

/-- Two sorted lists of one set of rows are the same list. -/
theorem eq_of_sorted {l' : List RoleMappingRule} (hperm : l ~ l')
    (hl : l.Pairwise fun r r' => r.order ≤ r'.order)
    (hl' : l'.Pairwise fun r r' => r.order ≤ r'.order)
    (hrows : ∀ r ∈ l, r ∈ t.rows ∧ r.type = T) : l = l' := by
  refine List.Perm.eq_of_pairwise (fun a b ha hb hab hba => ?_) hl hl' hperm
  obtain ⟨har, haT⟩ := hrows a ha
  obtain ⟨hbr, hbT⟩ := hrows b (hperm.mem_iff.mpr hb)
  exact eq_of_order har hbr (haT.trans hbT.symm) (le_antisymm hab hba)

theorem find_eq_of_perm (hperm : l ~ t.rows.filter fun r => r.type = T)
    (hsorted : l.Pairwise fun r r' => r.order ≤ r'.order) : t.find T = l :=
  eq_of_sorted ((t.find_perm T).trans hperm.symm) (t.sorted_find T) hsorted
    fun _ hr => mem_find.mp hr

theorem nodup_ids (hperm : l ~ t.rows.filter fun r => r.type = T) : (l.map (·.id)).Nodup := by
  have hdistinct : l.Pairwise Distinct :=
    (t.distinct.filter _).perm hperm.symm fun h => Std.Symm.symm _ _ h
  exact List.pairwise_map.mpr (hdistinct.imp fun h => h.1)

theorem nodup_idsOf (t : Table) (T : RuleType) : (t.idsOf T).Nodup :=
  nodup_ids (t.find_perm T)

/-- A statement that changes the rule with the id `p` succeeds when no other rule has the type
and the order that it gets. -/
theorem exists_changed {p : String} {f : RoleMappingRule → RoleMappingRule}
    (hid : ∀ r, (f r).id = r.id) (hother : ∀ r, r.id ≠ p → f r = r)
    (hclear : ∀ r ∈ t.rows, r.id = p → ∀ r' ∈ t.rows, r'.id ≠ p →
      ¬(r'.type = (f r).type ∧ r'.order = (f r).order)) :
    ∃ t', written (t.rows.map f) = some t' := by
  refine exists_written (List.pairwise_map.mpr (t.distinct.imp_of_mem fun {a b} ha hb hab => ?_))
  refine ⟨by rw [hid, hid]; exact hab.1, ?_⟩
  rintro ⟨htype, horder⟩
  by_cases hap : a.id = p
  · have hbp : b.id ≠ p := fun h => hab.1 (hap.trans h.symm)
    rw [hother b hbp] at htype horder
    exact hclear a ha hap b hb hbp ⟨htype.symm, horder.symm⟩
  · rw [hother a hap] at htype horder
    by_cases hbp : b.id = p
    · exact hclear b hb hbp a ha hap ⟨htype, horder⟩
    · rw [hother b hbp] at htype horder
      exact hab.2 ⟨htype, horder⟩

/-- The rules that two tables agree on stand in the same order in both. -/
theorem find_filter_congr {p : RoleMappingRule → Bool} (h : t'.rows.filter p = t.rows.filter p)
    (T : RuleType) : (t'.find T).filter p = (t.find T).filter p := by
  have hperm : (t'.find T).filter p ~ (t.find T).filter p := by
    refine ((t'.find_perm T).filter p).trans (List.Perm.trans ?_ ((t.find_perm T).filter p).symm)
    rw [List.filter_comm, h, List.filter_comm]
  exact eq_of_sorted hperm ((t'.sorted_find T).filter p) ((t.sorted_find T).filter p)
    fun r hr => mem_find.mp (List.mem_of_mem_filter hr)

theorem find_congr
    (h : (t'.rows.filter fun r => r.type = T) = t.rows.filter fun r => r.type = T) :
    t'.find T = t.find T := by
  rw [find, find, h]

theorem findOne_eq_some {id : String} :
    t.findOne id = some r ↔ r ∈ t.rows ∧ r.id = id := by
  constructor
  · intro h
    exact ⟨List.mem_of_find?_eq_some h, by simpa using List.find?_some h⟩
  · rintro ⟨hr, rfl⟩
    cases hfind : t.findOne r.id with
    | none => exact absurd (List.find?_eq_none.mp hfind r hr) (by simp)
    | some r' =>
      have hid : r'.id = r.id := by simpa using List.find?_some hfind
      rw [eq_of_id (List.mem_of_find?_eq_some hfind) hr hid]

end Table

/-! ### Consecutive orders -/

/-- The rules with the orders from `order` on. -/
def numbered (order : ℤ) : List RoleMappingRule → List RoleMappingRule
  | [] => []
  | r :: l => { r with order := order } :: numbered (order + 1) l

/-- No rule of the list has the order that an earlier one is given. -/
def Free (order : ℤ) : List RoleMappingRule → Prop
  | [] => True
  | _ :: l => (∀ r ∈ l, r.order ≠ order) ∧ Free (order + 1) l

section Numbered

variable {l : List RoleMappingRule} {order : ℤ}

@[simp]
theorem length_numbered (order : ℤ) (l : List RoleMappingRule) :
    (numbered order l).length = l.length := by
  induction l generalizing order with
  | nil => rfl
  | cons r l ih => rw [numbered, List.length_cons, List.length_cons, ih]

@[simp]
theorem map_id_numbered (order : ℤ) (l : List RoleMappingRule) :
    (numbered order l).map (·.id) = l.map (·.id) := by
  induction l generalizing order with
  | nil => rfl
  | cons r l ih => rw [numbered, List.map_cons, List.map_cons, ih]

@[simp]
theorem numbered_numbered (order order' : ℤ) (l : List RoleMappingRule) :
    numbered order (numbered order' l) = numbered order l := by
  induction l generalizing order order' with
  | nil => rfl
  | cons r l ih => rw [numbered, numbered, numbered, ih]

theorem order_getElem_numbered {i : ℕ} (h : i < (numbered order l).length) :
    ((numbered order l)[i]).order = order + i := by
  induction l generalizing order i with
  | nil => exact absurd h (Nat.not_lt_zero i)
  | cons r l ih =>
    cases i with
    | zero => simp [numbered]
    | succ i =>
      have hi : i < (numbered (order + 1) l).length := by simpa [numbered] using h
      calc ((numbered order (r :: l))[i + 1]).order = ((numbered (order + 1) l)[i]).order := rfl
        _ = order + 1 + i := ih hi
        _ = order + (i + 1 : ℕ) := by omega

theorem denseList_numbered (l : List RoleMappingRule) : DenseList (numbered 0 l) := by
  intro i hi
  rw [order_getElem_numbered hi, zero_add]

theorem le_order_of_mem_numbered {r : RoleMappingRule} (h : r ∈ numbered order l) :
    order ≤ r.order := by
  obtain ⟨i, hi, rfl⟩ := List.mem_iff_getElem.mp h
  rw [order_getElem_numbered hi]
  omega

theorem sorted_numbered (order : ℤ) (l : List RoleMappingRule) :
    (numbered order l).Pairwise fun r r' => r.order ≤ r'.order := by
  induction l generalizing order with
  | nil => exact .nil
  | cons r l ih =>
    refine List.pairwise_cons.mpr ⟨fun r' hr' => ?_, ih (order + 1)⟩
    have := le_order_of_mem_numbered hr'
    show order ≤ r'.order
    omega

/-- The early exit of `normalizeOrderForType`: there is nothing to renumber. -/
theorem numbered_eq_self {k : ℕ}
    (h : ((l.zipIdx k).all fun (r, i) => r.order = i) = true) : numbered k l = l := by
  induction l generalizing k with
  | nil => rfl
  | cons r l ih =>
    simp only [List.zipIdx_cons, List.all_cons, Bool.and_eq_true, decide_eq_true_eq] at h
    have htail := ih h.2
    push_cast at htail
    rw [numbered, htail, ← h.1]

theorem free_iff_getElem :
    Free order l ↔ ∀ (i j : ℕ) (hj : j < l.length), i < j → (l[j]).order ≠ order + i := by
  induction l generalizing order with
  | nil => exact ⟨fun _ _ j hj => absurd hj (Nat.not_lt_zero j), fun _ => trivial⟩
  | cons r l ih =>
    rw [Free, ih]
    constructor
    · rintro ⟨hfirst, hrest⟩ i j hj hij
      obtain ⟨j, rfl⟩ := Nat.exists_eq_succ_of_ne_zero (by omega : j ≠ 0)
      have hj' : j < l.length := by simpa using hj
      cases i with
      | zero => simpa using hfirst _ (List.getElem_mem hj')
      | succ i =>
        have := hrest i j hj' (by omega)
        rw [List.getElem_cons_succ]
        push_cast
        omega
    · intro h
      refine ⟨fun r' hr' => ?_, fun i j hj hij => ?_⟩
      · obtain ⟨j, hj, rfl⟩ := List.mem_iff_getElem.mp hr'
        have := h 0 (j + 1) (by simpa using hj) (by omega)
        rwa [List.getElem_cons_succ, Nat.cast_zero, add_zero] at this
      · have := h (i + 1) (j + 1) (by simpa using hj) (by omega)
        rw [List.getElem_cons_succ] at this
        push_cast at this
        omega

theorem free_of_lt (h : ∀ r ∈ l, r.order < order) : Free order l := by
  refine free_iff_getElem.mpr fun i j hj hij => ?_
  have := h _ (List.getElem_mem hj)
  omega

theorem free_of_le (h : ∀ r ∈ l, order + l.length ≤ r.order) : Free order l := by
  refine free_iff_getElem.mpr fun i j hj hij => ?_
  have := h _ (List.getElem_mem hj)
  omega

end Numbered

/-! ### What renumbering does -/

/-- What the statements of one phase make of a row. -/
def renumbered (order : ℤ) : List String → RoleMappingRule → RoleMappingRule
  | [], r => r
  | id :: orderedIds, r =>
    renumbered (order + 1) orderedIds (withOrder id order r)

theorem renumbered_type (order : ℤ) (ids : List String) (r : RoleMappingRule) :
    (renumbered order ids r).type = r.type := by
  induction ids generalizing order r with
  | nil => rfl
  | cons id ids ih =>
    rw [renumbered, ih, withOrder_type]

theorem renumbered_of_notMem {order : ℤ} {ids : List String} {r : RoleMappingRule}
    (h : r.id ∉ ids) : renumbered order ids r = r := by
  induction ids generalizing order with
  | nil => rfl
  | cons id ids ih =>
    rw [List.mem_cons, not_or] at h
    rw [renumbered, withOrder_of_ne h.1, ih h.2]

theorem map_renumbered {order : ℤ} {l : List RoleMappingRule} (hids : (l.map (·.id)).Nodup) :
    l.map (renumbered order (l.map (·.id))) = numbered order l := by
  induction l generalizing order with
  | nil => rfl
  | cons r l ih =>
    obtain ⟨hr, hl⟩ := List.nodup_cons.mp hids
    rw [numbered, List.map_cons, ← ih hl]
    refine congrArg₂ List.cons ?_ (List.map_congr_left fun r' hr' => ?_)
    · rw [List.map_cons, renumbered, withOrder_self]
      exact renumbered_of_notMem hr
    · have hne : r'.id ≠ r.id := fun h => hr (List.mem_map.mpr ⟨r', hr', h⟩)
      rw [List.map_cons, renumbered, withOrder_of_ne hne]

namespace Table

variable {t t' : Table} {T : RuleType} {l : List RoleMappingRule} {order : ℤ}

theorem rows_of_numberFrom {ids : List String} (h : numberFrom order ids t = some t') :
    t'.rows = t.rows.map (renumbered order ids) := by
  induction ids generalizing order t with
  | nil =>
    obtain rfl := Option.some.inj h
    exact (List.map_id _).symm
  | cons id ids ih =>
    obtain ⟨t₁, hupdate, hrest⟩ := Option.bind_eq_some_iff.mp h
    rw [ih hrest, written_eq_some.mp hupdate, List.map_map]
    rfl

/-- The rules of the type `T` are the list `l`, numbered from `order` on, and the lists of the
other types are as they were. -/
structure Reordered (T : RuleType) (order : ℤ) (l : List RoleMappingRule) (t t' : Table) :
    Prop where
  find_eq : t'.find T = numbered order l
  others : ∀ U, U ≠ T → t'.find U = t.find U

theorem reordered_of_numberFrom (hl : l ~ t.rows.filter fun r => r.type = T)
    (h : numberFrom order (l.map (·.id)) t = some t') : Reordered T order l t t' := by
  have hrows := rows_of_numberFrom h
  have hfilter : ∀ U : RuleType, (t'.rows.filter fun r => r.type = U) =
      (t.rows.filter fun r => r.type = U).map (renumbered order (l.map (·.id))) := by
    intro U
    rw [hrows, List.filter_map]
    refine congrArg _ (List.filter_congr fun r _ => ?_)
    rw [Function.comp_apply, renumbered_type]
  constructor
  · refine find_eq_of_perm ?_ (sorted_numbered order l)
    rw [hfilter, ← map_renumbered (nodup_ids hl)]
    exact hl.map _
  · intro U hU
    refine find_congr ?_
    rw [hfilter]
    refine (List.map_congr_left fun r hr => renumbered_of_notMem fun hmem => ?_).trans
      (List.map_id _)
    -- A rule of another type has none of the ids.
    obtain ⟨r', hr', hid⟩ := List.mem_map.mp hmem
    have hr' := List.mem_filter.mp (hl.mem_iff.mp hr')
    have hr := List.mem_filter.mp hr
    obtain rfl := eq_of_id hr'.1 hr.1 hid
    exact hU ((of_decide_eq_true hr.2).symm.trans (of_decide_eq_true hr'.2))

/-- A statement fails exactly at an order that another rule of the type has. -/
theorem update_isSome {r : RoleMappingRule} (hr : r ∈ t.rows) :
    (t.update r.id order).isSome ↔
      ∀ r' ∈ t.rows, r'.id ≠ r.id → ¬(r'.type = r.type ∧ r'.order = order) := by
  constructor
  · rintro hsome r' hr' hid ⟨htype, horder⟩
    obtain ⟨t₁, hupdate⟩ := Option.isSome_iff_exists.mp hsome
    have hmem : ∀ a ∈ t.rows, withOrder r.id order a ∈ t₁.rows := fun a ha =>
      written_eq_some.mp hupdate ▸ List.mem_map_of_mem ha
    have hsame : withOrder r.id order r' = withOrder r.id order r := by
      refine eq_of_order (hmem r' hr') (hmem r hr) ?_ ?_
      · rw [withOrder_type, withOrder_type, htype]
      · rw [withOrder_of_ne hid, withOrder_self, horder]
    exact hid (by simpa using congrArg RoleMappingRule.id hsame)
  · intro hclear
    refine Option.isSome_iff_exists.mpr
      (exists_changed (fun _ => withOrder_id) (fun _ => withOrder_of_ne) ?_)
    intro a ha hid r' hr' hne
    obtain rfl := eq_of_id ha hr hid
    rw [withOrder_self]
    exact hclear r' hr' hne

/-- Each statement succeeds exactly when no later rule has the order that it gives. -/
theorem numberFrom_isSome (hids : (l.map (·.id)).Nodup)
    (hl : ∀ r ∈ l, r ∈ t.rows ∧ r.type = T)
    (hrows : ∀ r ∈ t.rows, r.type = T → r ∈ l ∨ r.order < order) :
    (numberFrom order (l.map (·.id)) t).isSome ↔ Free order l := by
  induction l generalizing order t with
  | nil => exact ⟨fun _ => trivial, fun _ => rfl⟩
  | cons r l ih =>
    obtain ⟨hr, hids⟩ := List.nodup_cons.mp hids
    have hne : ∀ r' ∈ l, r'.id ≠ r.id := fun r' hr' h => hr (List.mem_map.mpr ⟨r', hr', h⟩)
    obtain ⟨hrt, hrT⟩ := hl r List.mem_cons_self
    have hclear : (t.update r.id order).isSome ↔ ∀ r' ∈ l, r'.order ≠ order := by
      rw [update_isSome hrt]
      constructor
      · intro h r' hr' horder
        obtain ⟨hr't, hr'T⟩ := hl r' (List.mem_cons_of_mem _ hr')
        exact h r' hr't (hne r' hr') ⟨hr'T.trans hrT.symm, horder⟩
      · rintro h r' hr' hid ⟨htype, horder⟩
        rcases hrows r' hr' (htype.trans hrT) with hmem | hlt
        · rcases List.mem_cons.mp hmem with rfl | hmem
          · exact hid rfl
          · exact h r' hmem horder
        · omega
    rw [List.map_cons, numberFrom, Free, ← hclear]
    cases hupdate : t.update r.id order with
    | none => simp
    | some t₁ =>
      have hrows₁ : t₁.rows = t.rows.map (withOrder r.id order) := written_eq_some.mp hupdate
      have hl₁ : ∀ r' ∈ l, r' ∈ t₁.rows ∧ r'.type = T := fun r' hr' => by
        obtain ⟨hr't, hr'T⟩ := hl r' (List.mem_cons_of_mem _ hr')
        have hsame : withOrder r.id order r' = r' := withOrder_of_ne (hne r' hr')
        refine ⟨?_, hr'T⟩
        rw [hrows₁, ← hsame]
        exact List.mem_map_of_mem hr't
      have hbelow : ∀ r' ∈ t₁.rows, r'.type = T → r' ∈ l ∨ r'.order < order + 1 := by
        intro r' hr' htype
        rw [hrows₁] at hr'
        obtain ⟨r₀, hr₀, rfl⟩ := List.mem_map.mp hr'
        by_cases hid : r₀.id = r.id
        · right
          rw [← hid, withOrder_self]
          exact Int.lt_succ order
        · rw [withOrder_of_ne hid] at htype ⊢
          rcases hrows r₀ hr₀ htype with hmem | hlt
          · left
            exact (List.mem_cons.mp hmem).resolve_left fun h => hid (h ▸ rfl)
          · right
            omega
      rw [Option.bind_some, ih hids hl₁ hbelow]
      simp

theorem numberFrom_isSome_of_perm (hl : l ~ t.rows.filter fun r => r.type = T) :
    (numberFrom order (l.map (·.id)) t).isSome ↔ Free order l := by
  have hmem : ∀ r, r ∈ l ↔ r ∈ t.rows ∧ r.type = T := fun r => by
    rw [hl.mem_iff, List.mem_filter, decide_eq_true_iff]
  exact numberFrom_isSome (nodup_ids hl) (fun r hr => (hmem r).mp hr)
    fun r hr hT => .inl ((hmem r).mpr ⟨hr, hT⟩)

theorem reordered_of_applyOrder (hl : l ~ t.rows.filter fun r => r.type = T)
    (h : t.applyOrder (l.map (·.id)) = some t') : Reordered T 0 l t t' := by
  unfold applyOrder at h
  split at h
  next hlength =>
    obtain rfl := Option.some.inj h
    obtain rfl : l = [] := List.length_eq_zero_iff.mp (by simpa using hlength)
    exact ⟨find_eq_of_perm hl .nil, fun _ _ => rfl⟩
  next =>
    obtain ⟨t₁, hfirst, hsecond⟩ := Option.bind_eq_some_iff.mp h
    have h₁ := reordered_of_numberFrom hl hfirst
    have hperm := h₁.find_eq ▸ t₁.find_perm T
    rw [← map_id_numbered] at hsecond
    have h₂ := reordered_of_numberFrom hperm hsecond
    exact ⟨h₂.find_eq.trans (numbered_numbered _ _ l),
      fun U hU => (h₂.others U hU).trans (h₁.others U hU)⟩

/-- The second phase never fails, the first one exactly at an order that is not free. -/
theorem applyOrder_isSome (hl : l ~ t.rows.filter fun r => r.type = T) :
    (t.applyOrder (l.map (·.id))).isSome ↔ Free (l.length + 1000) l := by
  unfold applyOrder
  dsimp only
  rw [List.length_map]
  split
  next hlength =>
    obtain rfl := List.length_eq_zero_iff.mp hlength
    exact iff_of_true rfl trivial
  next =>
    rw [← numberFrom_isSome_of_perm hl]
    cases hfirst : numberFrom (l.length + 1000) (l.map (·.id)) t with
    | none => exact Iff.rfl
    | some t₁ =>
      have hperm := (reordered_of_numberFrom hl hfirst).find_eq ▸ t₁.find_perm T
      have hfree : Free 0 (numbered (l.length + 1000) l) := by
        refine free_of_le fun r hr => ?_
        have := le_order_of_mem_numbered hr
        rw [length_numbered]
        omega
      have hsecond := (numberFrom_isSome_of_perm hperm).mpr hfree
      rw [map_id_numbered] at hsecond
      exact iff_of_true hsecond rfl

theorem exists_applyOrder (hl : l ~ t.rows.filter fun r => r.type = T)
    (hfree : Free (l.length + 1000) l) :
    ∃ t', t.applyOrder (l.map (·.id)) = some t' ∧ Reordered T 0 l t t' := by
  obtain ⟨t', ht'⟩ := Option.isSome_iff_exists.mp ((applyOrder_isSome hl).mpr hfree)
  exact ⟨t', ht', reordered_of_applyOrder hl ht'⟩

theorem exists_normalizeOrderForType (hfree : Free ((t.find T).length + 1000) (t.find T)) :
    ∃ t', t.normalizeOrderForType T = some t' ∧ Reordered T 0 (t.find T) t t' := by
  unfold normalizeOrderForType
  dsimp only
  split
  next hlength =>
    rw [List.length_eq_zero_iff.mp hlength]
    exact ⟨t, rfl, List.length_eq_zero_iff.mp hlength, fun _ _ => rfl⟩
  next =>
    split
    next hdense => exact ⟨t, rfl, (numbered_eq_self hdense).symm, fun _ _ => rfl⟩
    next => exact exists_applyOrder (t.find_perm T) hfree

/-- A list that is not dense and not free to be renumbered makes the call fail. -/
theorem normalizeOrderForType_eq_none {i : ℕ} (hi : i < (t.find T).length)
    (hdense : ((t.find T)[i]).order ≠ i)
    (hfree : ¬Free ((t.find T).length + 1000) (t.find T)) :
    t.normalizeOrderForType T = none := by
  unfold normalizeOrderForType
  dsimp only
  rw [if_neg (by omega), if_neg, ← Option.not_isSome_iff_eq_none, applyOrder_isSome (t.find_perm T)]
  · exact hfree
  · intro hall
    have heq := numbered_eq_self hall
    have horder := denseList_numbered (t.find T) i (by rwa [length_numbered])
    simp only [Nat.cast_zero] at heq
    simp only [heq] at horder
    exact hdense horder

end Table

/-! ### Dense lists -/

section Lists

variable {α : Type*} {p : α → Bool} {a : α}

theorem filter_insertIdx (l : List α) (i : ℕ) (ha : p a = false) :
    (l.insertIdx i a).filter p = l.filter p := by
  induction l generalizing i with
  | nil => cases i <;> simp [ha]
  | cons b l ih =>
    cases i with
    | zero => simp [ha]
    | succ i => simp [List.filter_cons, ih]

theorem filter_eraseIdx {l : List α} {i : ℕ} (hi : i < l.length) (ha : p l[i] = false) :
    (l.eraseIdx i).filter p = l.filter p := by
  rw [← filter_insertIdx (l.eraseIdx i) i ha, List.insertIdx_eraseIdx_getElem hi]

end Lists

theorem DenseList.order_lt {l : List RoleMappingRule} (h : DenseList l) {r : RoleMappingRule}
    (hr : r ∈ l) : r.order < l.length := by
  obtain ⟨i, hi, rfl⟩ := List.mem_iff_getElem.mp hr
  rw [h i hi]
  exact Int.ofNat_lt.mpr hi

theorem length_filter_id {l : List RoleMappingRule} (hids : (l.map (·.id)).Nodup) (p : String) :
    (l.filter (·.id ≠ p)).length =
      if p ∈ l.map (·.id) then l.length - 1 else l.length := by
  have hmap : (l.filter (·.id ≠ p)).map (·.id) = (l.map (·.id)).erase p := by
    rw [hids.erase_eq_filter, List.filter_map]
    refine congrArg _ (List.filter_congr fun r _ => ?_)
    rw [Function.comp_apply, bne, beq_eq_decide, decide_not]
  rw [← List.length_map (·.id), hmap, List.length_erase, List.length_map]

namespace Table

variable {t t' : Table} {T : RuleType} {l : List RoleMappingRule} {order : ℤ}

theorem Reordered.idsOf_eq (h : Reordered T order l t t') : t'.idsOf T = l.map (·.id) := by
  rw [idsOf, h.find_eq, map_id_numbered]

theorem Reordered.idsOf_others (h : Reordered T order l t t') {U : RuleType} (hU : U ≠ T) :
    t'.idsOf U = t.idsOf U := by
  rw [idsOf, h.others U hU, idsOf]

/-- Renumbering a list as it stands keeps the ids of every type. -/
theorem Reordered.idsOf_same (h : Reordered T order (t.find T) t t') (U : RuleType) :
    t'.idsOf U = t.idsOf U := by
  by_cases hU : U = T
  · subst hU
    exact h.idsOf_eq
  · exact h.idsOf_others hU

theorem Reordered.dense (h : Reordered T 0 l t t')
    (hothers : ∀ U, U ≠ T → DenseList (t.find U)) : Dense t' := by
  intro U
  by_cases hU : U = T
  · subst hU
    rw [h.find_eq]
    exact denseList_numbered l
  · rw [h.others U hU]
    exact hothers U hU

theorem filter_idsOf (t : Table) (T : RuleType) (p : String) :
    (t.idsOf T).filter (· ≠ p) = ((t.find T).filter (·.id ≠ p)).map (·.id) := by
  rw [idsOf, List.filter_map]
  rfl

/-- A change of one rule takes at most that rule out of a list. -/
theorem le_length_find_of_filter {p : String}
    (h : (t'.rows.filter (·.id ≠ p)) = t.rows.filter (·.id ≠ p)) (T : RuleType) :
    (t.find T).length ≤ (t'.find T).length + 1 := by
  have hlength := congrArg List.length (find_filter_congr h T)
  rw [length_filter_id (t.nodup_idsOf T)] at hlength
  have hle := List.length_filter_le (fun r : RoleMappingRule => r.id ≠ p) (t'.find T)
  split at hlength
  · omega
  · omega

/-- A type without the rule `p` is not touched by what changes that rule only. -/
theorem find_eq_of_filter {p : String}
    (h : (t'.rows.filter (·.id ≠ p)) = t.rows.filter (·.id ≠ p))
    (ht : ∀ r ∈ t.rows, r.id = p → r.type ≠ T) (ht' : ∀ r ∈ t'.rows, r.id = p → r.type ≠ T) :
    t'.find T = t.find T := by
  have hall : ∀ u : Table, (∀ r ∈ u.rows, r.id = p → r.type ≠ T) →
      (u.find T).filter (·.id ≠ p) = u.find T := by
    intro u hu
    refine List.filter_eq_self.mpr fun r hr => ?_
    obtain ⟨hrow, htype⟩ := mem_find.mp hr
    exact decide_eq_true fun hid => hu r hrow hid htype
  rw [← hall t' ht', find_filter_congr h, hall t ht]

end Table

/-! ### Each call -/

section Calls

open Table

variable {t : Table}

theorem loaded_snd (t : Table) (id : String) : (loaded t id).2 = t := by
  unfold loaded
  split
  · rfl
  · rfl

theorem loaded_fst (t : Table) (id : String) :
    (loaded t id).1 ≠ .error .uniqueConstraint := by
  unfold loaded
  split
  · exact fun h => nomatch h
  · exact fun h => nomatch h

/-- A new rule is saved behind all others and moved to its index. -/
theorem create_eq {env : Lookups} {newId : String} {dto : CreateRoleMappingRuleDto}
    {role : Role} {projects : List String} (hdense : Dense t)
    (hfresh : ∀ r ∈ t.rows, r.id ≠ newId)
    (hchecked : checkedCreate env dto = .ok (role, projects)) :
    ∃ t', create t env newId dto = loaded t' newId ∧ Dense t' ∧
      t'.idsOf dto.type = (t.idsOf dto.type).insertIdx
        (min (dto.order.getD (t.idsOf dto.type).length) (t.idsOf dto.type).length) newId ∧
      ∀ U, U ≠ dto.type → t'.idsOf U = t.idsOf U := by
  set rules := t.find dto.type with hrules
  have hlength : (t.idsOf dto.type).length = rules.length := List.length_map _
  set maxOrder := (rules.getLast?.map (·.order)).getD (-1) with hmax
  have hmaxlt : maxOrder < rules.length := by
    cases hlast : rules.getLast? with
    | none =>
      rw [hmax, hlast]
      show (-1 : ℤ) < _
      omega
    | some r =>
      rw [hmax, hlast]
      exact (hdense dto.type).order_lt (List.mem_of_getLast? hlast)
  set rule : RoleMappingRule := ⟨newId, dto.expression, role, dto.type,
    max maxOrder (rules.length - 1) + 1, projects⟩ with hrule
  have hinsert : ∃ saved, t.insert rule = some saved := by
    refine exists_written (List.pairwise_append.mpr
      ⟨t.distinct, List.pairwise_singleton _ _, fun r hr r' hr' => ?_⟩)
    obtain rfl := List.mem_singleton.mp hr'
    refine ⟨hfresh r hr, fun h => ?_⟩
    have hlt : r.order < rules.length := (hdense dto.type).order_lt (mem_find.mpr ⟨hr, h.1⟩)
    have hle : (rules.length : ℤ) - 1 ≤ max maxOrder (rules.length - 1) := le_max_right _ _
    have horder : r.order = max maxOrder (rules.length - 1) + 1 := h.2
    omega
  obtain ⟨saved, hsaved⟩ := hinsert
  have hrows : saved.rows = t.rows ++ [rule] := written_eq_some.mp hsaved
  set index := min (max (dto.order.getD rules.length) 0) rules.length with hindex
  have hperm : rules.insertIdx index rule ~ saved.rows.filter fun r => r.type = dto.type := by
    refine (List.perm_insertIdx rule rules (Nat.min_le_right _ _)).trans ?_
    rw [hrows, List.filter_append, List.filter_singleton, decide_eq_true rfl]
    exact (List.perm_append_singleton rule _).symm.trans
      ((t.find_perm dto.type).symm.append_right _).symm
  have hfree : Free ((rules.insertIdx index rule).length + 1000) (rules.insertIdx index rule) := by
    refine free_of_lt fun r hr => ?_
    rw [List.length_insertIdx_of_le_length (Nat.min_le_right _ _)]
    push_cast
    rcases (List.mem_insertIdx (Nat.min_le_right _ _)).mp hr with rfl | hr
    · show max maxOrder (rules.length - 1) + 1 < _
      omega
    · have hlt : r.order < rules.length := (hdense dto.type).order_lt hr
      omega
  obtain ⟨t', happly, hreordered⟩ := exists_applyOrder hperm hfree
  have hothers : ∀ U, U ≠ dto.type → saved.find U = t.find U := by
    intro U hU
    refine find_congr ?_
    rw [hrows, List.filter_append, List.filter_singleton,
      decide_eq_false fun h : rule.type = U => hU h.symm]
    exact List.append_nil _
  refine ⟨t', ?_, hreordered.dense fun U hU => hothers U hU ▸ hdense U, ?_, fun U hU => ?_⟩
  · rw [List.map_insertIdx] at happly
    rw [create, hchecked]
    dsimp only
    rw [← hrules, ← hmax, ← hrule, hsaved, attempt, ← hindex, happly, attempt]
  · rw [hreordered.idsOf_eq, List.map_insertIdx, hindex, Nat.max_zero, hlength]
    rfl
  · rw [hreordered.idsOf_others hU, idsOf, hothers U hU, idsOf]

theorem bind_eq_ok {ε α β : Type} {x : Except ε α} {f : α → Except ε β} {b : β} :
    x >>= f = .ok b ↔ ∃ a, x = .ok a ∧ f a = .ok b := by
  cases x with
  | error e => exact ⟨fun h => (nomatch h), fun ⟨_, h, _⟩ => nomatch h⟩
  | ok a => exact ⟨fun h => ⟨a, rfl, h⟩, fun ⟨_, h, h'⟩ => Except.ok.inj h ▸ h'⟩

theorem orThrow_eq_ok {α : Type} {value : Option α} {refusal : Refusal} {a : α} :
    orThrow value refusal = .ok a ↔ value = some a := by
  cases value <;> simp [orThrow]

theorem checkedRule_spec {id : String} {rule : RoleMappingRule}
    (h : checkedRule t id = .ok rule) : rule ∈ t.rows ∧ rule.id = id := by
  obtain ⟨_, -, hfound⟩ := bind_eq_ok.mp h
  exact findOne_eq_some.mp (orThrow_eq_ok.mp hfound)

/-- A rule is taken out of its list and put in again at its index. -/
theorem move_eq {id : String} {rule : RoleMappingRule} (targetIndex : ℕ) (hdense : Dense t)
    (hchecked : checkedRule t id = .ok rule) :
    ∃ t', move t id targetIndex = loaded t' id ∧ Dense t' ∧
      (t'.idsOf rule.type)[min targetIndex ((t.idsOf rule.type).length - 1)]? = some id ∧
      ∀ U, (t'.idsOf U).filter (· ≠ id) = (t.idsOf U).filter (· ≠ id) := by
  obtain ⟨hrow, hid⟩ := checkedRule_spec hchecked
  set all := t.find rule.type with hall
  have hlength : (t.idsOf rule.type).length = all.length := List.length_map _
  have hmem : ∃ r ∈ all, decide (r.id = id) = true :=
    ⟨rule, mem_find.mpr ⟨hrow, rfl⟩, decide_eq_true hid⟩
  set currentIndex := all.findIdx fun r => r.id = id with hcurrent
  have hlt : currentIndex < all.length := List.findIdx_lt_length_of_exists hmem
  have hcurrentId : (all[currentIndex]).id = id :=
    of_decide_eq_true
      (List.findIdx_getElem (p := fun r : RoleMappingRule => decide (r.id = id)) (w := hlt))
  set index := min targetIndex (all.length - 1) with hindex
  have herase : (all.eraseIdx currentIndex).length = all.length - 1 :=
    List.length_eraseIdx_of_lt hlt
  have hle : index ≤ (all.eraseIdx currentIndex).length := herase ▸ Nat.min_le_right _ _
  set reordered := (all.eraseIdx currentIndex).insertIdx index all[currentIndex] with hreorderedDef
  have hperm : reordered ~ t.rows.filter fun r => r.type = rule.type :=
    ((List.perm_insertIdx _ _ hle).trans (List.getElem_cons_eraseIdx_perm hlt)).trans
      (t.find_perm rule.type)
  have hfree : Free (reordered.length + 1000) reordered := by
    refine free_of_lt fun r hr => ?_
    have hr' : r ∈ all := (t.find_perm rule.type).mem_iff.mpr (hperm.mem_iff.mp hr)
    have hlen : reordered.length = all.length :=
      (hperm.trans (t.find_perm rule.type).symm).length_eq
    have hlt' : r.order < all.length := (hdense rule.type).order_lt hr'
    omega
  obtain ⟨t', happly, hreordered⟩ := exists_applyOrder hperm hfree
  refine ⟨t', ?_, hreordered.dense fun U _ => hdense U, ?_, fun U => ?_⟩
  · rw [move, hchecked]
    dsimp only
    rw [← hall, ← hcurrent, List.getElem?_eq_getElem hlt]
    dsimp only
    rw [← hindex, ← hreorderedDef, happly, attempt]
  · rw [hreordered.idsOf_eq, List.map_insertIdx, hcurrentId, hlength, ← hindex,
      List.getElem?_insertIdx_self, List.length_map, if_pos hle]
  · by_cases hU : U = rule.type
    · subst hU
      rw [hreordered.idsOf_eq, filter_idsOf, List.filter_map]
      refine congrArg _ ?_
      exact (filter_insertIdx _ _ (by simp [hcurrentId])).trans
        (filter_eraseIdx hlt (by simp [hcurrentId]))
    · rw [hreordered.idsOf_others hU]

/-- The list that is left when a rule is removed is free to be renumbered. -/
theorem delete_eq {id : String} {rule : RoleMappingRule} (hdense : Dense t)
    (hchecked : checkedRule t id = .ok rule) :
    ∃ t', delete t id = (.ok (.deleted rule.type), t') ∧ Dense t' ∧
      ∀ U, (t'.idsOf U).filter (· ≠ id) = (t.idsOf U).filter (· ≠ id) := by
  obtain ⟨hrow, rfl⟩ := checkedRule_spec hchecked
  set removed := t.remove rule.id with hremoved
  have hrows : (removed.rows.filter (·.id ≠ rule.id)) = t.rows.filter (·.id ≠ rule.id) :=
    List.filter_filter.trans (congrArg (List.filter · t.rows) (funext fun r => Bool.and_self _))
  have hfree : Free ((removed.find rule.type).length + 1000) (removed.find rule.type) := by
    refine free_of_lt fun r hr => ?_
    have hmem := mem_find.mp hr
    have hr' : r ∈ t.find rule.type :=
      mem_find.mpr ⟨List.mem_of_mem_filter hmem.1, hmem.2⟩
    have := (hdense rule.type).order_lt hr'
    have := le_length_find_of_filter hrows rule.type
    omega
  obtain ⟨t', hnormalize, hreordered⟩ := exists_normalizeOrderForType hfree
  have hothers : ∀ U, U ≠ rule.type → removed.find U = t.find U := by
    intro U hU
    refine find_eq_of_filter hrows (fun r hr hid h => hU ?_) fun r hr hid => ?_
    · rw [← h, eq_of_id hr hrow hid]
    · have hne : r.id ≠ rule.id := by simpa using (List.mem_filter.mp hr).2
      exact absurd hid hne
  refine ⟨t', ?_, hreordered.dense fun U hU => hothers U hU ▸ hdense U, fun U => ?_⟩
  · rw [delete, hchecked]
    dsimp only
    rw [← hremoved, hnormalize, attempt]
  · rw [hreordered.idsOf_same, filter_idsOf, filter_idsOf, find_filter_congr hrows]

/-- What the checks of `patch` guarantee. -/
structure Checked (t : Table) (id : String) (dto : PatchRoleMappingRuleDto)
    (original rule : RoleMappingRule) : Prop where
  row : original ∈ t.rows
  original_id : original.id = id
  rule_id : rule.id = id
  type_eq : rule.type = dto.type.getD original.type
  order_eq : rule.order = dto.order.getD original.order
  available : ∀ r ∈ t.rows, r.id ≠ id → ¬(r.type = rule.type ∧ r.order = rule.order)

theorem assertOrderAvailable_spec {type : RuleType} {order : ℤ} {id : String}
    (h : assertOrderAvailable t type order id = .ok ()) :
    ∀ r ∈ t.rows, r.id ≠ id → ¬(r.type = type ∧ r.order = order) := by
  rintro r hr hid hsame
  unfold assertOrderAvailable at h
  split at h
  next existing hfind =>
    split at h
    next => exact nomatch h
    next hexisting =>
      have hmem := List.mem_of_find?_eq_some hfind
      obtain ⟨htype, horder⟩ : existing.type = type ∧ existing.order = order := by
        simpa using List.find?_some hfind
      obtain rfl := eq_of_order hmem hr (htype.trans hsame.1.symm) (horder.trans hsame.2.symm)
      exact hexisting hid
  next hfind => exact List.find?_eq_none.mp hfind r hr (decide_eq_true hsame)

theorem checkedPatch_spec {env : Lookups} {id : String} {dto : PatchRoleMappingRuleDto}
    {original rule : RoleMappingRule} (h : checkedPatch t env id dto = .ok (original, rule)) :
    Checked t id dto original rule := by
  obtain ⟨_, -, h⟩ := bind_eq_ok.mp h
  obtain ⟨_, -, h⟩ := bind_eq_ok.mp h
  obtain ⟨found, hfound, h⟩ := bind_eq_ok.mp h
  obtain ⟨projectIds, -, h⟩ := bind_eq_ok.mp h
  obtain ⟨role, -, h⟩ := bind_eq_ok.mp h
  obtain ⟨_, -, h⟩ := bind_eq_ok.mp h
  obtain ⟨_, havailable, h⟩ := bind_eq_ok.mp h
  obtain ⟨projects, -, h⟩ := bind_eq_ok.mp h
  obtain ⟨rfl, rfl⟩ := Prod.mk.inj (Except.ok.inj h)
  obtain ⟨hrow, hid⟩ := findOne_eq_some.mp (orThrow_eq_ok.mp hfound)
  exact ⟨hrow, hid, hid, rfl, rfl, assertOrderAvailable_spec havailable⟩

/-- `save` of a checked rule violates no constraint, and changes that rule only. -/
theorem exists_save {id : String} {dto : PatchRoleMappingRuleDto}
    {original rule : RoleMappingRule} (h : Checked t id dto original rule) :
    ∃ saved, t.save rule = some saved ∧ rule ∈ saved.rows ∧
      (saved.rows.filter (·.id ≠ id)) = t.rows.filter (·.id ≠ id) := by
  set change : RoleMappingRule → RoleMappingRule := fun r => if r.id = rule.id then rule else r
    with hchange
  have hself : ∀ r, r.id = id → change r = rule := fun r hr => if_pos (hr.trans h.rule_id.symm)
  have hother : ∀ r, r.id ≠ id → change r = r := fun r hr =>
    if_neg fun hr' => hr (hr'.trans h.rule_id)
  have hid : ∀ r, (change r).id = r.id := by
    intro r
    by_cases hr : r.id = id
    · rw [hself r hr, h.rule_id, hr]
    · rw [hother r hr]
  obtain ⟨saved, hsaved⟩ : ∃ saved, written (t.rows.map change) = some saved := by
    refine exists_changed hid hother fun r _ hr r' hr' hne => ?_
    rw [hself r hr]
    exact h.available r' hr' hne
  have hrows : saved.rows = t.rows.map change := written_eq_some.mp hsaved
  refine ⟨saved, hsaved, ?_, ?_⟩
  · rw [hrows, ← hself original h.original_id]
    exact List.mem_map_of_mem h.row
  · rw [hrows, List.filter_map]
    have hfilter : t.rows.filter ((fun r => decide (r.id ≠ id)) ∘ change) =
        t.rows.filter (·.id ≠ id) := by
      refine List.filter_congr fun r _ => ?_
      rw [Function.comp_apply, hid]
    rw [hfilter]
    refine (List.map_congr_left fun r hr => hother r ?_).trans (List.map_id _)
    simpa using (List.mem_filter.mp hr).2

section Patch

variable {saved : Table} {id : String} {dto : PatchRoleMappingRuleDto}
  {original rule : RoleMappingRule}

/-- The list of the patched rule has one rule more than its other rules. -/
theorem length_find_saved (h : Checked t id dto original rule) (hrule : rule ∈ saved.rows)
    (hrows : (saved.rows.filter (·.id ≠ id)) = t.rows.filter (·.id ≠ id)) :
    (saved.find rule.type).length = ((t.find rule.type).filter (·.id ≠ id)).length + 1 := by
  have hmem : id ∈ saved.idsOf rule.type :=
    List.mem_map.mpr ⟨rule, mem_find.mpr ⟨hrule, rfl⟩, h.rule_id⟩
  have hpos : 0 < (saved.find rule.type).length :=
    List.length_pos_of_mem (mem_find.mpr ⟨hrule, rfl⟩)
  rw [← find_filter_congr hrows, length_filter_id (saved.nodup_idsOf rule.type) id]
  rw [idsOf] at hmem
  rw [if_pos hmem]
  omega

/-- In the list of the patched rule, every other rule has the order of a dense list. -/
theorem order_lt_of_saved (hdense : Dense t) (h : Checked t id dto original rule)
    (hrule : rule ∈ saved.rows)
    (hrows : (saved.rows.filter (·.id ≠ id)) = t.rows.filter (·.id ≠ id))
    {r : RoleMappingRule} (hr : r ∈ saved.find rule.type) :
    r = rule ∨ r.order < (saved.find rule.type).length := by
  by_cases hid : r.id = id
  · left
    exact eq_of_id (mem_find.mp hr).1 hrule (hid.trans h.rule_id.symm)
  · right
    have hmem : r ∈ (saved.find rule.type).filter (·.id ≠ id) :=
      List.mem_filter.mpr ⟨hr, decide_eq_true hid⟩
    rw [find_filter_congr hrows] at hmem
    have hlt := (hdense rule.type).order_lt (List.mem_of_mem_filter hmem)
    have hlength := length_find_saved h hrule hrows
    rw [length_filter_id (t.nodup_idsOf rule.type)] at hlength
    split at hlength
    · omega
    · omega

/-- The list of the patched rule is free to be renumbered unless its order is one that the
renumbering passes through. -/
theorem free_saved_iff (hdense : Dense t) (h : Checked t id dto original rule)
    (hrule : rule ∈ saved.rows)
    (hrows : (saved.rows.filter (·.id ≠ id)) = t.rows.filter (·.id ≠ id)) :
    Free ((saved.find rule.type).length + 1000) (saved.find rule.type) ↔
      ¬((saved.find rule.type).length + 1000 ≤ rule.order ∧
        rule.order ≤ 2 * (saved.find rule.type).length + 998) := by
  have hmem : rule ∈ saved.find rule.type := mem_find.mpr ⟨hrule, rfl⟩
  have hsorted := List.pairwise_iff_getElem.mp (saved.sorted_find rule.type)
  have hnodup : (saved.find rule.type).Nodup := List.Nodup.of_map _ (saved.nodup_idsOf rule.type)
  have hlow := fun r hr => order_lt_of_saved (r := r) hdense h hrule hrows hr
  generalize saved.find rule.type = rules at hmem hsorted hnodup hlow ⊢
  constructor
  · rintro hfree ⟨hge, hle⟩
    obtain ⟨j, hj, rfl⟩ := List.mem_iff_getElem.mp hmem
    -- The order is above all others, so the rule is the last of its list.
    have hlast : j = rules.length - 1 := by
      by_contra hne
      have hlt : j < rules.length - 1 := by omega
      have hle' := hsorted j (rules.length - 1) hj (by omega) hlt
      rcases hlow _ (List.getElem_mem (by omega : rules.length - 1 < rules.length)) with heq | hless
      · have := hnodup.getElem_inj_iff.mp heq
        omega
      · omega
    refine free_iff_getElem.mp hfree ((rules[j]).order - rules.length - 1000).toNat j hj
      (by omega) ?_
    omega
  · intro hout
    refine free_iff_getElem.mpr fun i j hj hij horder => ?_
    rcases hlow _ (List.getElem_mem hj) with heq | hless
    · rw [heq] at horder
      exact hout ⟨by omega, by omega⟩
    · omega

/-- The type that the rule leaves can always be renumbered. -/
theorem exists_normalize_original {normalized : Table} (hdense : Dense t)
    (hfind : ∀ r ∈ normalized.find original.type, r ∈ t.find original.type)
    (hlength : (t.find original.type).length ≤ (normalized.find original.type).length + 1) :
    ∃ t', normalized.normalizeOrderForType original.type = some t' ∧
      Reordered original.type 0 (normalized.find original.type) normalized t' := by
  refine exists_normalizeOrderForType (free_of_lt fun r hr => ?_)
  have := (hdense original.type).order_lt (hfind r hr)
  omega

/-- A patch outside the temporary range keeps the lists dense and the other rules in order. -/
theorem patch_eq {env : Lookups} (hdense : Dense t)
    (hchecked : checkedPatch t env id dto = .ok (original, rule))
    (hcondition : Condition t (.patch env id dto)) :
    ∃ t', patch t env id dto = loaded t' rule.id ∧ Dense t' ∧
      ∀ U, (t'.idsOf U).filter (· ≠ id) = (t.idsOf U).filter (· ≠ id) := by
  have h := checkedPatch_spec hchecked
  obtain ⟨saved, hsave, hrule, hrows⟩ := exists_save h
  have hfree : Free ((saved.find rule.type).length + 1000) (saved.find rule.type) := by
    refine (free_saved_iff hdense h hrule hrows).mpr ?_
    rw [length_find_saved h hrule hrows, h.type_eq, h.order_eq]
    exact hcondition original rule hchecked
  obtain ⟨normalized, hnormalize, hreordered⟩ := exists_normalizeOrderForType hfree
  have hothers : ∀ U, U ≠ rule.type → U ≠ original.type → saved.find U = t.find U := by
    intro U hU hU'
    refine find_eq_of_filter hrows (fun r hr hid htype => hU' ?_) fun r hr hid htype => hU ?_
    · rw [← htype, eq_of_id hr h.row (hid.trans h.original_id.symm)]
    · rw [← htype, eq_of_id hr hrule (hid.trans h.rule_id.symm)]
  have hids : ∀ U, (saved.idsOf U).filter (· ≠ id) = (t.idsOf U).filter (· ≠ id) := by
    intro U
    rw [filter_idsOf, filter_idsOf, find_filter_congr hrows]
  have hpatch : patch t env id dto =
      if original.type ≠ rule.type then
        attempt normalized (normalized.normalizeOrderForType original.type) fun both =>
          loaded both rule.id
      else loaded normalized rule.id := by
    rw [patch, hchecked]
    dsimp only
    rw [hsave, attempt, hnormalize, attempt]
  by_cases hsame : original.type = rule.type
  · refine ⟨normalized, ?_, hreordered.dense fun U hU => ?_, fun U => ?_⟩
    · rw [hpatch, if_neg (not_not.mpr hsame)]
    · rw [hothers U hU (hsame ▸ hU)]
      exact hdense U
    · rw [hreordered.idsOf_same, hids]
  · have hfind : ∀ r ∈ normalized.find original.type, r ∈ t.find original.type := by
      intro r hr
      rw [hreordered.others _ hsame] at hr
      have hne : r.id ≠ id := fun hid => hsame <| by
        rw [← (mem_find.mp hr).2, eq_of_id (mem_find.mp hr).1 hrule (hid.trans h.rule_id.symm)]
      have hmem : r ∈ (saved.find original.type).filter (·.id ≠ id) :=
        List.mem_filter.mpr ⟨hr, decide_eq_true hne⟩
      rw [find_filter_congr hrows] at hmem
      exact List.mem_of_mem_filter hmem
    have hlength : (t.find original.type).length ≤ (normalized.find original.type).length + 1 := by
      rw [hreordered.others _ hsame]
      exact le_length_find_of_filter hrows original.type
    obtain ⟨both, hboth, hreordered'⟩ := exists_normalize_original hdense hfind hlength
    refine ⟨both, ?_, hreordered'.dense fun U hU => ?_, fun U => ?_⟩
    · rw [hpatch, if_pos hsame, hboth, attempt]
    · by_cases hUT : U = rule.type
      · subst hUT
        rw [hreordered.find_eq]
        exact denseList_numbered _
      · rw [hreordered.others U hUT, hothers U hUT hU]
        exact hdense U
    · rw [hreordered'.idsOf_same, hreordered.idsOf_same, hids]

/-- A patch into the temporary range fails, and leaves the order that it saved. -/
theorem not_dense_patch {env : Lookups} (hdense : Dense t)
    (hchecked : checkedPatch t env id dto = .ok (original, rule))
    (hcondition : ¬Condition t (.patch env id dto)) : ¬Dense (patch t env id dto).2 := by
  have h := checkedPatch_spec hchecked
  obtain ⟨saved, hsave, hrule, hrows⟩ := exists_save h
  have hrange : (saved.find rule.type).length + 1000 ≤ rule.order ∧
      rule.order ≤ 2 * (saved.find rule.type).length + 998 := by
    by_contra hout
    refine hcondition fun original' rule' hchecked' => ?_
    obtain ⟨rfl, rfl⟩ := Prod.mk.inj (Except.ok.inj (hchecked.symm.trans hchecked'))
    rw [length_find_saved h hrule hrows, h.type_eq, h.order_eq] at hout
    exact hout
  obtain ⟨j, hj, hrulej⟩ := List.mem_iff_getElem.mp (mem_find.mpr ⟨hrule, rfl⟩)
  have hgap : ((saved.find rule.type)[j]).order ≠ j := by
    rw [hrulej]
    omega
  have hnone := normalizeOrderForType_eq_none hj hgap
    fun hfree => (free_saved_iff hdense h hrule hrows).mp hfree hrange
  have hpatch : patch t env id dto = (.error .uniqueConstraint, saved) := by
    rw [patch, hchecked]
    dsimp only
    rw [hsave, attempt, hnone, attempt]
  rw [hpatch]
  exact fun hdense' => hgap (hdense' rule.type j hj)

end Patch

/-! ### Runs -/

theorem empty_dense : Dense Table.empty :=
  fun _ i hi => absurd hi (Nat.not_lt_zero i)

theorem filter_insertIdx_idsOf {newId : String} {dto : CreateRoleMappingRuleDto} {t' : Table}
    {index : ℕ} (hT : t'.idsOf dto.type = (t.idsOf dto.type).insertIdx index newId)
    (hothers : ∀ U, U ≠ dto.type → t'.idsOf U = t.idsOf U) (U : RuleType) :
    (t'.idsOf U).filter (· ≠ newId) = (t.idsOf U).filter (· ≠ newId) := by
  by_cases hU : U = dto.type
  · subst hU
    rw [hT, filter_insertIdx _ _ (by simp)]
  · rw [hothers U hU]

/-- Every call that meets the condition keeps the lists dense and does what it should. -/
theorem step_spec {c : Call} (hdense : Dense t) (hfresh : c.Fresh t) (hcondition : Condition t c) :
    StepOk t c ∧ Dense (serve t c).2 := by
  have hrefused : ∀ refusal, serve t c = (.error (.refused refusal), t) →
      StepOk t c ∧ Dense (serve t c).2 := by
    intro refusal hserve
    rw [StepOk, hserve]
    exact ⟨⟨fun h => (nomatch h), fun h => (nomatch h), fun _ => rfl⟩, hdense⟩
  cases c with
  | create env newId dto =>
    cases hchecked : checkedCreate env dto with
    | error refusal => exact hrefused refusal (by rw [serve, create, hchecked])
    | ok checked =>
      obtain ⟨t', hserve, hdense', hplace, hothers⟩ := create_eq hdense hfresh hchecked
      rw [StepOk, serve, hserve, loaded_snd]
      refine ⟨⟨loaded_fst t' newId, fun _ => ?_, filter_insertIdx_idsOf hplace hothers⟩, hdense'⟩
      rw [Placed, hplace, List.getElem?_insertIdx_self, if_pos (Nat.min_le_right _ _)]
  | patch env id dto =>
    cases hchecked : checkedPatch t env id dto with
    | error refusal => exact hrefused refusal (by rw [serve, patch, hchecked])
    | ok checked =>
      obtain ⟨t', hserve, hdense', hids⟩ := patch_eq hdense hchecked hcondition
      rw [StepOk, serve, hserve, loaded_snd]
      exact ⟨⟨loaded_fst t' _, fun _ => trivial, hids⟩, hdense'⟩
  | move id targetIndex =>
    cases hchecked : checkedRule t id with
    | error refusal => exact hrefused refusal (by rw [serve, move, hchecked])
    | ok rule =>
      obtain ⟨t', hserve, hdense', hplace, hids⟩ := move_eq targetIndex hdense hchecked
      rw [StepOk, serve, hserve, loaded_snd]
      refine ⟨⟨loaded_fst t' id, fun _ rule' hrule' => ?_, hids⟩, hdense'⟩
      obtain rfl := Option.some.inj ((findOne_eq_some.mpr (checkedRule_spec hchecked)).symm.trans
        hrule')
      exact hplace
  | delete id =>
    cases hchecked : checkedRule t id with
    | error refusal => exact hrefused refusal (by rw [serve, delete, hchecked])
    | ok rule =>
      obtain ⟨t', hserve, hdense', hids⟩ := delete_eq hdense hchecked
      rw [StepOk, serve, hserve]
      exact ⟨⟨fun h => (nomatch h), fun _ => trivial, hids⟩, hdense'⟩

theorem not_dense_of_not_condition {c : Call} (hdense : Dense t) (hcondition : ¬Condition t c) :
    ¬Dense (serve t c).2 := by
  cases c with
  | create env newId dto => exact absurd trivial hcondition
  | move id targetIndex => exact absurd trivial hcondition
  | delete id => exact absurd trivial hcondition
  | patch env id dto =>
    cases hchecked : checkedPatch t env id dto with
    | error refusal =>
      exact absurd (fun _ _ h => nomatch hchecked.symm.trans h) hcondition
    | ok checked => exact not_dense_patch hdense hchecked hcondition

end Calls

/-- **The rules stay densely ordered exactly along the runs whose patches stay out of the
temporary range.** -/
theorem staysDense_iff {t : Table} (run : Run Step Table.empty t) :
    StaysDense run ↔ run.Takes Condition := by
  have hvisits : run.Visits Dense ↔ run.Takes Condition := by
    refine Run.visits_iff_takes (fun _ h => h) ?_ ?_ empty_dense run
    · rintro s c t hdense hcondition ⟨hfresh, rfl⟩
      exact (step_spec hdense hfresh hcondition).2
    · rintro s c t hdense hcondition ⟨-, rfl⟩
      exact not_dense_of_not_condition hdense hcondition
  constructor
  · intro h
    exact hvisits.mp h.1
  · intro h
    have hdense := hvisits.mpr h
    refine ⟨hdense, ?_⟩
    have hboth := (Run.takes_of_visits (C := fun s _ => Dense s) (fun _ _ hs => hs) hdense).and h
    have hok : run.Takes fun s c => (Dense s ∧ Condition s c) ∧ StepOk s c := by
      refine (Run.takes_congr fun s c t hstep => ?_).mp hboth
      exact ⟨fun hs => ⟨hs, (step_spec hs.1 hstep.1 hs.2).1⟩, fun hs => hs.1⟩
    exact hok.mono fun _ _ hs => hs.2

/-! ### A patch into the temporary range -/

/-- Every role exists and is a global one, and there is no project. -/
def globalRoles : Lookups := ⟨fun slug => some ⟨slug, .global⟩, fun _ => false⟩

/-- A new instance rule, appended to the list. -/
def instanceRule : CreateRoleMappingRuleDto := ⟨"true", "global:member", .ofInstance, none, none⟩

/-- The table with the rule `a`. -/
def oneRule : Table := (serve .empty (.create globalRoles "a" instanceRule)).2

/-- The table with the rules `a` and `b`. -/
def twoRules : Table := (serve oneRule (.create globalRoles "b" instanceRule)).2

/-- The rule `a` gets the order that the renumbering gives `b` for the time being. -/
def toTemporary : Call := .patch globalRoles "a" ⟨none, none, none, some 1002, none⟩

/-- Of two rules the first is given the order 1002, and the call fails at the constraint. -/
theorem not_staysDense_temporary :
    ¬∀ (t : Table) (run : Run Step Table.empty t), StaysDense run := by
  intro hclaim
  have hfirst : Step Table.empty (.create globalRoles "a" instanceRule) oneRule :=
    ⟨fun _ h => (nomatch h), rfl⟩
  have hfresh : ∀ r ∈ oneRule.rows, r.id ≠ "b" := by decide
  have hsecond : Step oneRule (.create globalRoles "b" instanceRule) twoRules := ⟨hfresh, rfl⟩
  have hpatch : Step twoRules toTemporary (serve twoRules toTemporary).2 := ⟨trivial, rfl⟩
  have hmeets := hclaim _ (.head _ hfirst (.head _ hsecond (.head _ hpatch (.refl _))))
  have hok : StepOk twoRules toTemporary := hmeets.2.2.2.1
  exact hok.1 rfl

end N8n.RoleMapping
