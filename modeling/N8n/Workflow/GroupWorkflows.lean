import N8n.Foundations.SurvivorGroups
import N8n.Workflow.ConnectionsDiff

/-!
# Grouping the versions of a workflow

`groupWorkflows` goes through the versions from the last one back, and removes a version where some
rule merges it with the version behind it, unless a skip rule keeps the two apart. The list shrinks
while the loop runs: the version behind is the next one that remains.

`groupsVersions_groupWorkflows` is that the versions fall into groups that end with the version that
remains, and that the removed ones are listed from the last one back.
-/

namespace N8n

open SurvivorGroup

/-! ### Versions -/

/-- A node, by its properties that are not missing. -/
structure DiffableNode where
  id : String
  name : String
  parameters : JsonValue
  others : List (String × JsonValue) := []
  deriving DecidableEq

/-- A version, the `object` that it is included: one version can stand in a list twice. -/
structure WorkflowVersion where
  object : ℕ
  nodes : List DiffableNode
  connections : ConnectionsDiff.ObjectConnections
  createdAt : ℤ
  authors : Option String := none

/-! ### The differences of two versions -/

inductive NodeDiffStatus where
  | eq
  | modified
  | added
  | deleted
  deriving DecidableEq, Repr

structure NodeDiff where
  status : NodeDiffStatus
  node : DiffableNode
  deriving DecidableEq

abbrev WorkflowDiff := InsertionMap String NodeDiff

/-- `lodash/pick`. -/
def DiffableNode.pick (node : DiffableNode) (props : List String) : List (String × JsonValue) :=
  let fields :=
    ("id", .str node.id) :: ("name", .str node.name) :: ("parameters", node.parameters) ::
      node.others
  props.filterMap fun prop => fields.find? fun field => field.1 = prop

def compareNodes (isEqual : JsonValue → JsonValue → Bool) (base target : DiffableNode) : Bool :=
  let propsToCompare := ["name", "type", "typeVersion", "webhookId", "credentials", "parameters"]
  isEqual (.obj (base.pick propsToCompare)) (.obj (target.pick propsToCompare))

/-- The nodes under their ids; the last one of an id counts. -/
def nodesById (nodes : List DiffableNode) : InsertionMap String DiffableNode :=
  nodes.foldl (fun acc node => acc.set node.id node) .empty

def compareWorkflowsNodes (base target : List DiffableNode)
    (nodesEqual : DiffableNode → DiffableNode → Bool) : WorkflowDiff :=
  let baseNodes := nodesById base
  let targetNodes := nodesById target
  let diff := baseNodes.entries.foldl (fun (diff : WorkflowDiff) (id, node) =>
    match targetNodes.get? id with
    | none => diff.set id ⟨.deleted, node⟩
    | some targetNode =>
      if nodesEqual node targetNode then diff.set id ⟨.eq, node⟩
      else diff.set id ⟨.modified, node⟩) .empty
  targetNodes.entries.foldl (fun diff (id, node) =>
    if baseNodes.has id then diff else diff.set id ⟨.added, node⟩) diff

structure WorkflowChangeSet where
  nodes : WorkflowDiff
  connections : ConnectionsDiff
  deriving DecidableEq

/-- The constructor of `WorkflowChangeSet`. -/
def WorkflowChangeSet.new (isEqual : JsonValue → JsonValue → Bool)
    (prev next : WorkflowVersion) : WorkflowChangeSet :=
  if prev.object = next.object then
    { nodes := prev.nodes.foldl (fun nodes node => nodes.set node.id ⟨.eq, node⟩) .empty
      connections := ⟨.empty, .empty⟩ }
  else
    { nodes := compareWorkflowsNodes prev.nodes next.nodes (compareNodes isEqual)
      connections := compareConnections prev.connections next.connections }

/-! ### The size of a workflow -/

/-- The length of a string, in UTF-16 code units. -/
def utf16Length (s : String) : ℕ := (s.toList.map fun c => if c.toNat < 0x10000 then 1 else 2).sum

mutual

/-- `determineNodeSize`. -/
def determineNodeSize : JsonValue → ℕ
  | .null | .bool _ | .num _ => 1
  | .str s => if s = "" then 1 else utf16Length s
  | .arr items => 1 + itemsSize items
  | .obj fields => 1 + fieldsSize fields

def itemsSize : List JsonValue → ℕ
  | [] => 0
  | item :: items => determineNodeSize item + itemsSize items

def fieldsSize : List (String × JsonValue) → ℕ
  | [] => 0
  | (_, value) :: fields => determineNodeSize value + fieldsSize fields

end

def determineNodeParametersSize (workflow : WorkflowVersion) : ℕ :=
  (workflow.nodes.map fun node => determineNodeSize node.parameters).sum

/-! ### The function -/

structure DiffMetaData where
  workflowSizeScore : Option ℕ

/-- A rule says whether two versions are to be merged, or to be kept apart. -/
abbrev DiffRule := WorkflowVersion → WorkflowVersion → WorkflowChangeSet → DiffMetaData → Bool

structure GroupedWorkflows where
  removed : List WorkflowVersion
  remaining : List WorkflowVersion

section

variable (isEqual : JsonValue → JsonValue → Bool) (rules skipRules : List DiffRule)

/-- The loop down from `i`; `none` stands for an error where there is no version at an index. -/
def diffLoop (metaData : DiffMetaData) : ℕ → GroupedWorkflows → Option GroupedWorkflows
  | 0, grouped => some grouped
  | i + 1, grouped =>
    match grouped.remaining[i]?, grouped.remaining[i + 1]? with
    | some prev, some next =>
      let wcs := WorkflowChangeSet.new isEqual prev next
      if skipRules.any fun shouldSkip => shouldSkip prev next wcs metaData then
        diffLoop metaData i grouped
      else if rules.any fun rule => rule prev next wcs metaData then
        diffLoop metaData i ⟨grouped.removed ++ [prev], grouped.remaining.eraseIdx i⟩
      else diffLoop metaData i grouped
    | _, _ => none

/-- The `metaData` of the versions: the size of the larger one of the last and the middle version,
where it is asked for. -/
def metaDataOf (sizeScore : Bool) (workflows : List WorkflowVersion) : DiffMetaData where
  workflowSizeScore :=
    if sizeScore then
      some (max ((workflows[workflows.length / 2]?.map determineNodeParametersSize).getD 0)
        ((workflows.getLast?.map determineNodeParametersSize).getD 0))
    else none

def groupWorkflows (workflows : List WorkflowVersion) (sizeScore : Bool) :
    Option GroupedWorkflows :=
  if workflows.length = 0 then some ⟨[], []⟩
  else if workflows.length = 1 then some ⟨[], workflows⟩
  else
    diffLoop isEqual rules skipRules (metaDataOf sizeScore workflows) (workflows.length - 1)
      ⟨[], workflows⟩

end

/-! ### What is grouped -/

section

variable (isEqual : JsonValue → JsonValue → Bool) (rules skipRules : List DiffRule)
  (metaData : DiffMetaData)

/-- No skip rule keeps the two versions apart and some rule merges them, by the differences between
them. -/
def Merges (prev next : WorkflowVersion) : Prop :=
  (∀ shouldSkip ∈ skipRules,
    shouldSkip prev next (WorkflowChangeSet.new isEqual prev next) metaData = false) ∧
  ∃ rule ∈ rules, rule prev next (WorkflowChangeSet.new isEqual prev next) metaData = true

instance (prev next : WorkflowVersion) :
    Decidable (Merges isEqual rules skipRules metaData prev next) :=
  inferInstanceAs (Decidable (_ ∧ _))

/-- The groups of the versions. -/
def versionGroups (workflows : List WorkflowVersion) : List (SurvivorGroup WorkflowVersion) :=
  survivorGroups (fun prev next => decide (Merges isEqual rules skipRules metaData prev next))
    workflows

/-- What is grouped when the versions were looked at from the last one on. -/
def groupedFrom (workflows : List WorkflowVersion) : GroupedWorkflows :=
  let groups := versionGroups isEqual rules skipRules metaData workflows
  ⟨(groups.flatMap merged).reverse, groups.map survivor⟩

variable {isEqual rules skipRules metaData} {prev : WorkflowVersion}
  {front back : List WorkflowVersion}

/-- One version more: it is compared with the first one that remains behind it. -/
theorem groupedFrom_cons (prev : WorkflowVersion) (hback : back ≠ []) : ∃ next rest,
    (groupedFrom isEqual rules skipRules metaData back).remaining = next :: rest ∧
      groupedFrom isEqual rules skipRules metaData (prev :: back) =
        if Merges isEqual rules skipRules metaData prev next then
          ⟨(groupedFrom isEqual rules skipRules metaData back).removed ++ [prev], next :: rest⟩
        else
          ⟨(groupedFrom isEqual rules skipRules metaData back).removed, prev :: next :: rest⟩ := by
  rw [groupedFrom, groupedFrom, versionGroups, versionGroups, survivorGroups_cons]
  cases hgroups : survivorGroups (fun prev next =>
      decide (Merges isEqual rules skipRules metaData prev next)) back with
  | nil => exact absurd hgroups (survivorGroups_ne_nil hback)
  | cons g groups =>
    refine ⟨g.survivor, groups.map survivor, rfl, ?_⟩
    by_cases hmerges : Merges isEqual rules skipRules metaData prev g.survivor
    · simp [place, hmerges]
    · simp [place, hmerges]

/-- The step of the loop at two versions that stand behind `front`. -/
theorem diffLoop_step {removed rest : List WorkflowVersion} {next : WorkflowVersion} :
    diffLoop isEqual rules skipRules metaData (front.length + 1)
        ⟨removed, front ++ prev :: next :: rest⟩ =
      diffLoop isEqual rules skipRules metaData front.length
        (if Merges isEqual rules skipRules metaData prev next then
          ⟨removed ++ [prev], front ++ next :: rest⟩
        else ⟨removed, front ++ prev :: next :: rest⟩) := by
  have hprev : (front ++ prev :: next :: rest)[front.length]? = some prev := by simp
  have hnext : (front ++ prev :: next :: rest)[front.length + 1]? = some next := by
    simp
  have herase : (front ++ prev :: next :: rest).eraseIdx front.length =
      front ++ next :: rest := by
    rw [List.eraseIdx_append_of_length_le (Nat.le_refl _), Nat.sub_self]
    rfl
  rw [diffLoop, hprev, hnext]
  dsimp only
  rw [herase]
  by_cases hskip : skipRules.any (fun shouldSkip =>
      shouldSkip prev next (WorkflowChangeSet.new isEqual prev next) metaData) = true
  · have hnot : ¬ Merges isEqual rules skipRules metaData prev next := by
      rintro ⟨hkeep, -⟩
      obtain ⟨shouldSkip, hmem, hyes⟩ := List.any_eq_true.mp hskip
      exact Bool.false_ne_true ((hkeep shouldSkip hmem).symm.trans hyes)
    rw [if_pos hskip, if_neg hnot]
  · rw [if_neg hskip]
    have hkeep : ∀ shouldSkip ∈ skipRules,
        shouldSkip prev next (WorkflowChangeSet.new isEqual prev next) metaData = false := by
      simpa using hskip
    by_cases hrule : rules.any (fun rule =>
        rule prev next (WorkflowChangeSet.new isEqual prev next) metaData) = true
    · rw [if_pos hrule, if_pos ⟨hkeep, List.any_eq_true.mp hrule⟩]
    · rw [if_neg hrule, if_neg fun hmerges => hrule (List.any_eq_true.mpr hmerges.2)]

/-- Where the loop stands before the versions of `back`, they are grouped, and in the end all
are. -/
theorem diffLoop_eq (hback : back ≠ []) :
    diffLoop isEqual rules skipRules metaData front.length
        ⟨(groupedFrom isEqual rules skipRules metaData back).removed,
          front ++ (groupedFrom isEqual rules skipRules metaData back).remaining⟩ =
      some (groupedFrom isEqual rules skipRules metaData (front ++ back)) := by
  induction front using List.reverseRecOn generalizing back with
  | nil => rfl
  | append_singleton front prev ih =>
    obtain ⟨next, rest, hremaining, hcons⟩ := groupedFrom_cons prev hback
    have hrest := ih (List.cons_ne_nil prev back)
    rw [hcons] at hrest
    rw [List.length_append, List.length_singleton, List.append_assoc, hremaining,
      List.singleton_append, diffLoop_step, List.append_assoc, List.singleton_append, ← hrest]
    split_ifs
    · rfl
    · rfl

/-- The loop groups the versions. -/
theorem groupWorkflows_eq (workflows : List WorkflowVersion) (sizeScore : Bool) :
    groupWorkflows isEqual rules skipRules workflows sizeScore =
      some (groupedFrom isEqual rules skipRules (metaDataOf sizeScore workflows) workflows) := by
  obtain rfl | ⟨front, last, rfl⟩ := workflows.eq_nil_or_concat
  · rfl
  · rw [List.concat_eq_append, groupWorkflows, if_neg (by simp)]
    split_ifs with hone
    · obtain rfl : front = [] := by
        rw [List.length_append, List.length_singleton, Nat.add_eq_right] at hone
        exact List.length_eq_zero_iff.mp hone
      rfl
    · have hlength : (front ++ [last]).length - 1 = front.length := by simp
      rw [hlength]
      exact diffLoop_eq (List.cons_ne_nil last [])

/-! ### Groups of versions -/

variable (isEqual rules skipRules) in
/-- The versions are grouped: they fall into groups that end with the version that remains, each
removed one merges with the version that remains behind it, and no version that remains merges with
the next one. -/
structure GroupsVersions (metaData : DiffMetaData) (workflows : List WorkflowVersion)
    (grouped : GroupedWorkflows) : Prop where
  perm : (grouped.removed ++ grouped.remaining).Perm workflows
  removed_sublist : grouped.removed.reverse.Sublist workflows
  remaining_sublist : grouped.remaining.Sublist workflows
  last : grouped.remaining.getLast? = workflows.getLast?
  groups : ∃ groups : List (SurvivorGroup WorkflowVersion),
    groups.flatMap elements = workflows ∧
    groups.map survivor = grouped.remaining ∧
    groups.flatMap merged = grouped.removed.reverse ∧
    (∀ g ∈ groups, ∀ prev ∈ g.merged,
      Merges isEqual rules skipRules metaData prev g.survivor) ∧
    groups.IsChain fun g g' =>
      ¬ Merges isEqual rules skipRules metaData g.survivor g'.survivor

theorem groupsVersions_groupedFrom (workflows : List WorkflowVersion) :
    GroupsVersions isEqual rules skipRules metaData workflows
      (groupedFrom isEqual rules skipRules metaData workflows) := by
  have helements : (versionGroups isEqual rules skipRules metaData workflows).flatMap elements =
      workflows := flatMap_elements workflows
  refine ⟨?_, ?_, ?_, ?_, versionGroups isEqual rules skipRules metaData workflows, helements,
    rfl, (List.reverse_reverse _).symm, fun g hg prev hprev => ?_, ?_⟩
  · have hperm := flatMap_merged_append_perm
      (versionGroups isEqual rules skipRules metaData workflows)
    rw [helements] at hperm
    exact ((List.reverse_perm _).append_right _).trans hperm
  · have hsublist := flatMap_merged_sublist
      (versionGroups isEqual rules skipRules metaData workflows)
    rw [helements] at hsublist
    rwa [groupedFrom, List.reverse_reverse]
  · have hsublist := map_survivor_sublist
      (versionGroups isEqual rules skipRules metaData workflows)
    rwa [helements] at hsublist
  · have hlast := getLast?_map_survivor
      (versionGroups isEqual rules skipRules metaData workflows)
    rwa [helements] at hlast
  · exact of_decide_eq_true (merges_of_mem_merged hg hprev)
  · have hchain : (versionGroups isEqual rules skipRules metaData workflows).IsChain _ :=
      isChain_survivorGroups workflows
    exact hchain.imp fun _ _ hnot => of_decide_eq_false hnot

/-- **`groupWorkflows` groups the versions**, and lists the removed ones from the last one back. -/
theorem groupsVersions_groupWorkflows (workflows : List WorkflowVersion) (sizeScore : Bool) :
    ∃ grouped, groupWorkflows isEqual rules skipRules workflows sizeScore = some grouped ∧
      GroupsVersions isEqual rules skipRules (metaDataOf sizeScore workflows) workflows grouped :=
  ⟨_, groupWorkflows_eq workflows sizeScore, groupsVersions_groupedFrom workflows⟩

/-- Three versions of a workflow without nodes. -/
private def emptyVersions : List WorkflowVersion :=
  [⟨0, [], .empty, 0, none⟩, ⟨1, [], .empty, 1, none⟩, ⟨2, [], .empty, 2, none⟩]

/-- Where all of three versions are merged, the second one is listed in front of the first one. -/
theorem not_removed_sublist_emptyVersions :
    ∃ grouped, groupWorkflows (fun a b => decide (a = b)) [fun _ _ _ _ => true] [] emptyVersions
      false = some grouped ∧ ¬ grouped.removed.Sublist emptyVersions := by
  refine ⟨_, groupWorkflows_eq emptyVersions false, fun hsublist => ?_⟩
  have hobjects := hsublist.map WorkflowVersion.object
  revert hobjects
  decide
end

end N8n
