import N8n.Foundations.Distance
import N8n.Foundations.ExceptFold
import N8n.Foundations.InsertionSet
import N8n.Workflow.ReachableNodes

/-!
# The nodes by depth

`searchNodesBFS` goes along the `main` connections level by level. A node gets its record when it
is met first; when it is met again, at whatever depth, the indexes of the connections that led to
it are added to the record.

So the search finds the nodes besides its start that are reachable within the maximal depth, each
once and with its distance, and of each the indexes of all connections to it from nodes that are
less deep than the maximum (`findsByDepth_searchNodesBFS`). Deeper nodes than the node itself count
as well.
-/

namespace N8n

open Distance

structure IConnectedNode where
  name : String
  indicies : List ℕ
  depth : ℕ
  deriving DecidableEq, Repr

inductive SearchError where
  | typeError
  deriving DecidableEq, Repr

def dedupe (arr : List ℕ) : List ℕ := (InsertionSet.ofList arr).elements

/-- The variables of the search. The array `returnConns` holds the records of `visited`, of which it
has the names here. -/
structure DepthSearch where
  returnConns : List String := []
  queue : List IConnectedNode
  visited : InsertionMap String IConnectedNode := .empty
  deriving DecidableEq, Repr

/-- The connections of type `main`, as records of the nodes at their ends. -/
def connectedRecords (connections : IConnections) (name : String) (depth : ℕ) :
    List IConnectedNode :=
  (selectedConnections connections (.only .main) name).map fun connection =>
    ⟨connection.node, [connection.index], depth⟩

/-- A node that was met before: its record in `visited` gets the new indexes. -/
def DepthSearch.meetAgain (st : DepthSearch) (node curr : IConnectedNode) : DepthSearch :=
  { st with
    visited := st.visited.set curr.name
      { node with indicies := dedupe (node.indicies ++ curr.indicies) } }

/-- A node that is met for the first time. -/
def DepthSearch.meet (connections : IConnections) (sourceNode : String) (depth : ℕ)
    (st : DepthSearch) (curr : IConnectedNode) : DepthSearch where
  returnConns := if curr.name ≠ sourceNode then st.returnConns ++ [curr.name] else st.returnConns
  queue := st.queue ++ connectedRecords connections curr.name depth
  visited := st.visited.set curr.name curr

/-- One entry of the queue. The lookup in `visited` finds the members of `Object.prototype`, which
have no `indicies`, and a node of the name `hasOwnProperty` hides the method of `connections`. -/
def DepthSearch.visit (connections : IConnections) (sourceNode : String) (depth : ℕ)
    (st : DepthSearch) (curr : IConnectedNode) : Except SearchError DepthSearch :=
  match st.visited.get? curr.name with
  | some node => .ok (st.meetAgain node curr)
  | none =>
    if curr.name ∈ InsertionMap.inheritedKeys then .error .typeError
    else if connections.has "hasOwnProperty" then .error .typeError
    else .ok (st.meet connections sourceNode depth curr)

/-- The loop over the levels, with a bound on their number. -/
def searchLoop (connections : IConnections) (sourceNode : String) (maxDepth : ℤ) :
    ℕ → ℕ → DepthSearch → Option (Except SearchError DepthSearch)
  | fuel, depth, st =>
    if st.queue = [] then some (.ok st)
    else if maxDepth ≠ -1 ∧ maxDepth < depth then some (.ok st)
    else
      match fuel with
      | 0 => none
      | fuel + 1 =>
        match st.queue.foldlM (DepthSearch.visit connections sourceNode (depth + 1))
          { st with queue := [] } with
        | .error e => some (.error e)
        | .ok st => searchLoop connections sourceNode maxDepth fuel (depth + 1) st

def searchNodesBFS (connections : IConnections) (sourceNode : String) (maxDepth : ℤ := -1) :
    Option (Except SearchError (List IConnectedNode)) :=
  (searchLoop connections sourceNode maxDepth (connections.keys.length + 1) 0
    { queue := [⟨sourceNode, [], 0⟩] }).map fun result =>
      result.map fun st => st.returnConns.filterMap st.visited.get?

/-- All the nodes before a node, with their depth. -/
def Workflow.getParentNodesByDepth (w : Workflow) (nodeName : String) (maxDepth : ℤ := -1) :
    Option (Except SearchError (List IConnectedNode)) :=
  searchNodesBFS w.connectionsByDestinationNode nodeName maxDepth

/-! ### Names -/

/-- No node that the start leads to has the name of a member of `Object.prototype`, and the
connections have no entry that hides `hasOwnProperty`. -/
structure PlainNames (connections : IConnections) (sourceNode : String) : Prop where
  names : ∀ v, Relation.ReflTransGen (ConnectedTo connections (.only .main)) sourceNode v →
    v ∉ InsertionMap.inheritedKeys
  keys : "hasOwnProperty" ∉ connections.keys

/-- `visit` on plain names. -/
def DepthSearch.visitPlain (connections : IConnections) (sourceNode : String) (depth : ℕ)
    (st : DepthSearch) (curr : IConnectedNode) : DepthSearch :=
  match st.visited.get? curr.name with
  | some node => st.meetAgain node curr
  | none => st.meet connections sourceNode depth curr

variable {connections : IConnections} {sourceNode : String} {maxDepth : ℤ} {depth d : ℕ}
  {st base : DepthSearch} {done : List IConnectedNode} {curr : IConnectedNode}

theorem DepthSearch.visit_eq_ok (hname : curr.name ∉ InsertionMap.inheritedKeys)
    (hkeys : "hasOwnProperty" ∉ connections.keys) :
    st.visit connections sourceNode depth curr =
      .ok (st.visitPlain connections sourceNode depth curr) := by
  have hhas : ¬ connections.has "hasOwnProperty" = true :=
    fun h => hkeys (InsertionMap.has_eq_true_iff.mp h)
  rw [DepthSearch.visit, DepthSearch.visitPlain]
  cases st.visited.get? curr.name with
  | some node => rfl
  | none =>
    dsimp only
    rw [if_neg hname, if_neg hhas]

/-! ### One level -/

theorem mem_dedupe {arr : List ℕ} {i : ℕ} : i ∈ dedupe arr ↔ i ∈ arr := InsertionSet.mem_ofList

theorem nodup_dedupe (arr : List ℕ) : (dedupe arr).Nodup := (InsertionSet.ofList arr).nodup

/-- The indexes in the record of a node. -/
def DepthSearch.indiciesOf (st : DepthSearch) (v : String) : List ℕ :=
  ((st.visited.get? v).map IConnectedNode.indicies).getD []

/-- What the search makes of `base` when it has gone through the records `done` of one level. -/
structure LevelDone (connections : IConnections) (sourceNode : String) (d : ℕ) (base : DepthSearch)
    (done : List IConnectedNode) (st : DepthSearch) : Prop where
  mem_keys : ∀ v, v ∈ st.visited.keys ↔
    v ∈ base.visited.keys ∨ ∃ curr ∈ done, curr.name = v
  mem_indicies : ∀ v i, i ∈ st.indiciesOf v ↔
    i ∈ base.indiciesOf v ∨ ∃ curr ∈ done, curr.name = v ∧ i ∈ curr.indicies
  nodup : ∀ v, (st.indiciesOf v).Nodup
  record : ∀ v node, st.visited.get? v = some node → node.name = v ∧
    (node.depth = d ∧ v ∉ base.visited.keys ∨
      ∃ old, base.visited.get? v = some old ∧ old.depth = node.depth)
  mem_queue : ∀ next, next ∈ st.queue ↔ ∃ v, v ∉ base.visited.keys ∧
    (∃ curr ∈ done, curr.name = v) ∧ next ∈ connectedRecords connections v (d + 1)
  returnConns : st.returnConns = st.visited.keys.filter (· ≠ sourceNode)

theorem DepthSearch.mem_keys_of_get? {node : IConnectedNode} {v : String}
    (h : st.visited.get? v = some node) : v ∈ st.visited.keys :=
  InsertionMap.mem_keys.mpr ⟨node, InsertionMap.get?_eq_some_iff.mp h⟩

theorem exists_mem_concat {P : IConnectedNode → Prop} :
    (∃ c ∈ done ++ [curr], P c) ↔ (∃ c ∈ done, P c) ∨ P curr := by
  simp only [List.mem_append, List.mem_singleton, or_and_right, exists_or, exists_eq_left]

/-- A node that was met before gets the new indexes, and nothing else changes. -/
theorem LevelDone.meetAgain (h : LevelDone connections sourceNode d base done st)
    {node : IConnectedNode} (hget : st.visited.get? curr.name = some node) :
    LevelDone connections sourceNode d base (done ++ [curr]) (st.meetAgain node curr) := by
  have hmem := DepthSearch.mem_keys_of_get? hget
  have hkeys : (st.meetAgain node curr).visited.keys = st.visited.keys :=
    InsertionMap.keys_set_of_mem hmem _
  have hvisited (v : String) : (st.meetAgain node curr).visited.get? v =
      if v = curr.name then some { node with indicies := dedupe (node.indicies ++ curr.indicies) }
      else st.visited.get? v := InsertionMap.get?_set _ _ _ _
  have hindicies (v : String) : (st.meetAgain node curr).indiciesOf v =
      if v = curr.name then dedupe (st.indiciesOf v ++ curr.indicies) else st.indiciesOf v := by
    rw [DepthSearch.indiciesOf, hvisited]
    split_ifs with hv
    · rw [hv, DepthSearch.indiciesOf, hget]
      rfl
    · rfl
  -- the node is one of `base` or one of this level
  have hseen : curr.name ∈ base.visited.keys ∨ ∃ c ∈ done, c.name = curr.name :=
    (h.mem_keys curr.name).mp hmem
  refine ⟨fun v => ?_, fun v i => ?_, fun v => ?_, fun v node' hnode' => ?_, fun next => ?_, ?_⟩
  · rw [hkeys, h.mem_keys, exists_mem_concat, ← or_assoc]
    exact ⟨.inl, fun hv => hv.elim id fun heq => heq ▸ hseen⟩
  · rw [hindicies, exists_mem_concat, ← or_assoc, ← h.mem_indicies]
    split_ifs with hv
    · rw [mem_dedupe, List.mem_append, hv]
      simp only [true_and]
    · exact ⟨.inl, fun hi => hi.resolve_right fun ⟨hname, _⟩ => hv hname.symm⟩
  · rw [hindicies]
    split_ifs
    · exact nodup_dedupe _
    · exact h.nodup v
  · rw [hvisited] at hnode'
    split_ifs at hnode' with hv
    · obtain rfl := Option.some.inj hnode'
      exact hv ▸ h.record curr.name node hget
    · exact h.record v node' hnode'
  · refine (h.mem_queue next).trans (exists_congr fun v => and_congr_right fun hnew =>
      and_congr_left fun _ => ?_)
    rw [exists_mem_concat]
    refine ⟨.inl, fun hv => hv.elim id ?_⟩
    rintro rfl
    exact hseen.resolve_left hnew
  · rw [hkeys]
    exact h.returnConns

/-- A node that is met for the first time gets its record, and its connections are queued. -/
theorem LevelDone.meet (h : LevelDone connections sourceNode d base done st)
    (hget : st.visited.get? curr.name = none) (hdepth : curr.depth = d)
    (hnodup : curr.indicies.Nodup) :
    LevelDone connections sourceNode d base (done ++ [curr])
      (st.meet connections sourceNode (d + 1) curr) := by
  have hnot : curr.name ∉ st.visited.keys := InsertionMap.get?_eq_none_iff.mp hget
  have hkeys : (st.meet connections sourceNode (d + 1) curr).visited.keys =
      st.visited.keys ++ [curr.name] := InsertionMap.keys_set_of_not_mem hnot _
  have hvisited (v : String) : (st.meet connections sourceNode (d + 1) curr).visited.get? v =
      if v = curr.name then some curr else st.visited.get? v := InsertionMap.get?_set _ _ _ _
  have hindicies (v : String) : (st.meet connections sourceNode (d + 1) curr).indiciesOf v =
      if v = curr.name then curr.indicies else st.indiciesOf v := by
    rw [DepthSearch.indiciesOf, hvisited]
    split_ifs
    · rfl
    · rfl
  have hnew : curr.name ∉ base.visited.keys ∧ ∀ c ∈ done, c.name ≠ curr.name := by
    rw [h.mem_keys, not_or, not_exists] at hnot
    exact ⟨hnot.1, fun c hc heq => hnot.2 c ⟨hc, heq⟩⟩
  have hempty : st.indiciesOf curr.name = [] := by
    rw [DepthSearch.indiciesOf, hget]
    rfl
  refine ⟨fun v => ?_, fun v i => ?_, fun v => ?_, fun v node' hnode' => ?_, fun next => ?_, ?_⟩
  · rw [hkeys, List.mem_append, List.mem_singleton, h.mem_keys, exists_mem_concat, or_assoc,
      eq_comm (a := v)]
  · rw [hindicies, exists_mem_concat, ← or_assoc, ← h.mem_indicies]
    split_ifs with hv
    · rw [hv, hempty]
      simp only [List.not_mem_nil, true_and, false_or]
    · exact ⟨.inl, fun hi => hi.resolve_right fun ⟨hname, _⟩ => hv hname.symm⟩
  · rw [hindicies]
    split_ifs
    · exact hnodup
    · exact h.nodup v
  · rw [hvisited] at hnode'
    split_ifs at hnode' with hv
    · obtain rfl := Option.some.inj hnode'
      exact ⟨hv.symm, .inl ⟨hdepth, hv ▸ hnew.1⟩⟩
    · exact h.record v node' hnode'
  · rw [DepthSearch.meet, List.mem_append, h.mem_queue]
    constructor
    · rintro (⟨v, hv, ⟨c, hc, hname⟩, hnext⟩ | hnext)
      · exact ⟨v, hv, ⟨c, List.mem_append_left _ hc, hname⟩, hnext⟩
      · exact ⟨curr.name, hnew.1, ⟨curr, List.mem_append_right _ List.mem_cons_self, rfl⟩, hnext⟩
    · rintro ⟨v, hv, hmet, hnext⟩
      obtain hmet | rfl := exists_mem_concat.mp hmet
      · exact .inl ⟨v, hv, hmet, hnext⟩
      · exact .inr hnext
  · rw [hkeys, List.filter_append, ← h.returnConns, DepthSearch.meet]
    by_cases hsource : curr.name = sourceNode
    · simp [hsource]
    · simp [hsource]

theorem LevelDone.visit (h : LevelDone connections sourceNode d base done st)
    (hdepth : curr.depth = d) (hnodup : curr.indicies.Nodup) :
    LevelDone connections sourceNode d base (done ++ [curr])
      (st.visitPlain connections sourceNode (d + 1) curr) := by
  rw [DepthSearch.visitPlain]
  cases hget : st.visited.get? curr.name with
  | some node => exact h.meetAgain hget
  | none => exact h.meet hget hdepth hnodup

/-- A whole level. -/
theorem LevelDone.foldl (h : LevelDone connections sourceNode d base done st)
    {queue : List IConnectedNode}
    (hqueue : ∀ curr ∈ queue, curr.depth = d ∧ curr.indicies.Nodup) :
    LevelDone connections sourceNode d base (done ++ queue)
      (queue.foldl (DepthSearch.visitPlain connections sourceNode (d + 1)) st) := by
  induction queue generalizing done st with
  | nil => simpa using h
  | cons curr queue ih =>
    obtain ⟨⟨hdepth, hnodup⟩, hrest⟩ := List.forall_mem_cons.mp hqueue
    have hdone := ih (h.visit hdepth hnodup) hrest
    rwa [List.append_assoc, List.singleton_append] at hdone

/-! ### The levels -/

/-- A connection of type `main` leads from `u` to the input `i` of `v`. -/
def EdgeTo (connections : IConnections) (u v : String) (i : ℕ) : Prop :=
  ∃ connection ∈ selectedConnections connections (.only .main) u,
    connection.node = v ∧ connection.index = i

/-- The least number of connections of type `main` that lead from the start to the node. -/
def IsDepth (connections : IConnections) (sourceNode : String) : ℕ → String → Prop :=
  IsDistance (ConnectedTo connections (.only .main)) sourceNode

theorem exists_edgeTo_iff {u v : String} :
    (∃ i, EdgeTo connections u v i) ↔ ConnectedTo connections (.only .main) u v := by
  constructor
  · rintro ⟨_, connection, hmem, hnode, -⟩
    exact ⟨connection, hmem, hnode⟩
  · rintro ⟨connection, hmem, hnode⟩
    exact ⟨connection.index, connection, hmem, hnode, rfl⟩

theorem mem_connectedRecords {next : IConnectedNode} {u : String} :
    next ∈ connectedRecords connections u depth ↔
      ∃ i, EdgeTo connections u next.name i ∧ next.indicies = [i] ∧ next.depth = depth := by
  rw [connectedRecords, List.mem_map]
  constructor
  · rintro ⟨connection, hmem, rfl⟩
    exact ⟨connection.index, ⟨connection, hmem, rfl, rfl⟩, rfl, rfl⟩
  · rintro ⟨i, ⟨connection, hmem, hnode, rfl⟩, hindicies, hdepth⟩
    refine ⟨connection, hmem, ?_⟩
    obtain ⟨name, indicies, depth'⟩ := next
    obtain rfl : connection.node = name := hnode
    obtain rfl : indicies = [connection.index] := hindicies
    obtain rfl : depth' = depth := hdepth
    rfl

/-- The state of the search before level `d`. -/
structure Searched (connections : IConnections) (sourceNode : String) (d : ℕ) (st : DepthSearch) :
    Prop where
  mem_keys : ∀ v, v ∈ st.visited.keys ↔ ∃ n < d, IsDepth connections sourceNode n v
  mem_indicies : ∀ v i, i ∈ st.indiciesOf v ↔
    ∃ u n, n + 1 < d ∧ IsDepth connections sourceNode n u ∧ EdgeTo connections u v i
  nodup : ∀ v, (st.indiciesOf v).Nodup
  record : ∀ v node, st.visited.get? v = some node →
    node.name = v ∧ IsDepth connections sourceNode node.depth v
  queue : ∀ curr ∈ st.queue, curr.depth = d ∧ curr.indicies.Nodup
  queued : ∀ v, (∃ curr ∈ st.queue, curr.name = v) ↔ d = 0 ∧ v = sourceNode ∨
    ∃ u n, n + 1 = d ∧ IsDepth connections sourceNode n u ∧
      ConnectedTo connections (.only .main) u v
  queued_indicies : ∀ v i, (∃ curr ∈ st.queue, curr.name = v ∧ i ∈ curr.indicies) ↔
    ∃ u n, n + 1 = d ∧ IsDepth connections sourceNode n u ∧ EdgeTo connections u v i
  returnConns : st.returnConns = st.visited.keys.filter (· ≠ sourceNode)

theorem searched_start (connections : IConnections) (sourceNode : String) :
    Searched connections sourceNode 0 { queue := [⟨sourceNode, [], 0⟩] } where
  mem_keys v := by simp [InsertionMap.keys]
  mem_indicies v i := by simp [DepthSearch.indiciesOf]
  nodup v := List.nodup_nil
  record v node hnode := by simp at hnode
  queue curr hcurr := by
    rw [List.mem_singleton] at hcurr
    exact hcurr ▸ ⟨rfl, List.nodup_nil⟩
  queued v := by simp [eq_comm]
  queued_indicies v i := by simp
  returnConns := rfl

/-- The nodes of the level are those that are queued and have not been met. -/
theorem Searched.isDepth_iff (h : Searched connections sourceNode d st) {v : String} :
    IsDepth connections sourceNode d v ↔
      v ∉ st.visited.keys ∧ ∃ curr ∈ st.queue, curr.name = v := by
  rw [h.mem_keys, h.queued, not_exists]
  cases d with
  | zero =>
    rw [IsDepth, isDistance_zero_iff]
    simp
  | succ d =>
    rw [IsDepth, isDistance_succ_iff, and_comm]
    refine and_congr ?_ ?_
    · simp only [not_and, Nat.lt_succ_iff]
    · simp only [Nat.add_right_cancel_iff, Nat.add_one_ne_zero, false_and, false_or]
      refine exists_congr fun u => ?_
      exact ⟨fun hu => ⟨d, rfl, hu⟩, fun ⟨n, hn, hu⟩ => hn ▸ hu⟩

theorem Searched.levelDone (h : Searched connections sourceNode d st) :
    LevelDone connections sourceNode d { st with queue := [] } st.queue
      (st.queue.foldl (DepthSearch.visitPlain connections sourceNode (d + 1))
        { st with queue := [] }) := by
  have hstart : LevelDone connections sourceNode d { st with queue := [] } []
      { st with queue := [] } := by
    refine ⟨fun v => by simp, fun v i => by simp, h.nodup, fun v node hnode => ?_,
      fun next => by simp, h.returnConns⟩
    exact ⟨(h.record v node hnode).1, .inr ⟨node, hnode, rfl⟩⟩
  exact hstart.foldl h.queue

/-- **One level**. -/
theorem Searched.level (h : Searched connections sourceNode d st) :
    Searched connections sourceNode (d + 1)
      (st.queue.foldl (DepthSearch.visitPlain connections sourceNode (d + 1))
        { st with queue := [] }) := by
  have hlevel := h.levelDone
  have hkeys (v : String) :
      v ∈ (st.queue.foldl (DepthSearch.visitPlain connections sourceNode (d + 1))
        { st with queue := [] }).visited.keys ↔
      v ∈ st.visited.keys ∨ IsDepth connections sourceNode d v := by
    rw [hlevel.mem_keys, h.isDepth_iff]
    by_cases hv : v ∈ st.visited.keys
    · simp only [hv, true_or]
    · simp only [hv, not_false_eq_true, true_and, false_or]
  have hqueue (next : IConnectedNode) : next ∈ (st.queue.foldl
        (DepthSearch.visitPlain connections sourceNode (d + 1)) { st with queue := [] }).queue ↔
      ∃ v, IsDepth connections sourceNode d v ∧
        next ∈ connectedRecords connections v (d + 1) := by
    rw [hlevel.mem_queue]
    refine exists_congr fun v => ?_
    rw [h.isDepth_iff, and_assoc]
  refine ⟨fun v => ?_, fun v i => ?_, hlevel.nodup, fun v node hnode => ?_, fun next hnext => ?_,
    fun w => ?_, fun w i => ?_, hlevel.returnConns⟩
  · rw [hkeys, h.mem_keys]
    constructor
    · rintro (⟨n, hn, hdepth⟩ | hdepth)
      · exact ⟨n, Nat.lt_succ_of_lt hn, hdepth⟩
      · exact ⟨d, Nat.lt_succ_self d, hdepth⟩
    · rintro ⟨n, hn, hdepth⟩
      obtain hlt | rfl := Nat.lt_succ_iff_lt_or_eq.mp hn
      · exact .inl ⟨n, hlt, hdepth⟩
      · exact .inr hdepth
  · have hold : ({ st with queue := [] } : DepthSearch).indiciesOf v = st.indiciesOf v := rfl
    rw [hlevel.mem_indicies, hold, h.mem_indicies, h.queued_indicies, ← exists_or]
    refine exists_congr fun u => ?_
    rw [← exists_or]
    refine exists_congr fun n => ?_
    rw [← or_and_right, Nat.lt_succ_iff, Nat.le_iff_lt_or_eq]
  · obtain ⟨hname, ⟨hdepth, hnew⟩ | ⟨old, hold, hdepth⟩⟩ := hlevel.record v node hnode
    · have hmem := (hkeys v).mp (DepthSearch.mem_keys_of_get? hnode)
      exact ⟨hname, hdepth ▸ hmem.resolve_left hnew⟩
    · exact ⟨hname, hdepth ▸ (h.record v old hold).2⟩
  · obtain ⟨v, -, hrecord⟩ := (hqueue next).mp hnext
    obtain ⟨i, -, hindicies, hdepth⟩ := mem_connectedRecords.mp hrecord
    exact ⟨hdepth, hindicies ▸ List.nodup_singleton i⟩
  · simp only [Nat.add_one_ne_zero, false_and, false_or, Nat.add_right_cancel_iff]
    constructor
    · rintro ⟨next, hnext, rfl⟩
      obtain ⟨v, hv, hrecord⟩ := (hqueue next).mp hnext
      obtain ⟨i, hedge, -⟩ := mem_connectedRecords.mp hrecord
      exact ⟨v, d, rfl, hv, exists_edgeTo_iff.mp ⟨i, hedge⟩⟩
    · rintro ⟨v, n, rfl, hv, hconnected⟩
      obtain ⟨i, hedge⟩ := exists_edgeTo_iff.mpr hconnected
      exact ⟨⟨w, [i], n + 1⟩,
        (hqueue _).mpr ⟨v, hv, mem_connectedRecords.mpr ⟨i, hedge, rfl, rfl⟩⟩, rfl⟩
  · simp only [Nat.add_right_cancel_iff]
    constructor
    · rintro ⟨next, hnext, rfl, hi⟩
      obtain ⟨v, hv, hrecord⟩ := (hqueue next).mp hnext
      obtain ⟨j, hedge, hindicies, -⟩ := mem_connectedRecords.mp hrecord
      rw [hindicies, List.mem_singleton] at hi
      exact ⟨v, d, rfl, hv, hi ▸ hedge⟩
    · rintro ⟨v, n, rfl, hv, hedge⟩
      exact ⟨⟨w, [i], n + 1⟩,
        (hqueue _).mpr ⟨v, hv, mem_connectedRecords.mpr ⟨i, hedge, rfl, rfl⟩⟩, rfl,
        List.mem_cons_self⟩

/-! ### The whole search -/

/-- The search goes down to this depth. -/
def WithinDepth (maxDepth : ℤ) (n : ℕ) : Prop := maxDepth = -1 ∨ (n : ℤ) ≤ maxDepth

/-- What the search finds: besides the start the nodes within the maximal depth, each once, with its
depth and without repetition the indexes of the connections that come to it from nodes that are less
deep than the maximum. -/
structure FindsByDepth (connections : IConnections) (sourceNode : String) (maxDepth : ℤ)
    (found : List IConnectedNode) : Prop where
  nodup : (found.map IConnectedNode.name).Nodup
  names : ∀ v, v ∈ found.map IConnectedNode.name ↔ v ≠ sourceNode ∧
    ∃ n, WithinDepth maxDepth n ∧ ReachesIn (ConnectedTo connections (.only .main)) sourceNode n v
  depth : ∀ node ∈ found, IsDepth connections sourceNode node.depth node.name
  indicies : ∀ node ∈ found, node.indicies.Nodup ∧ ∀ i, i ∈ node.indicies ↔
    ∃ u n, WithinDepth maxDepth (n + 1) ∧ IsDepth connections sourceNode n u ∧
      EdgeTo connections u node.name i

theorem WithinDepth.mono {m n : ℕ} (h : WithinDepth maxDepth n) (hmn : m ≤ n) :
    WithinDepth maxDepth m :=
  h.imp id fun hle => (Int.ofNat_le.mpr hmn).trans hle

/-- All levels within the maximal depth have been gone through. -/
structure Exhausted (connections : IConnections) (sourceNode : String) (maxDepth : ℤ) (d : ℕ) :
    Prop where
  within : ∀ n < d, WithinDepth maxDepth n
  nodes : ∀ n v, WithinDepth maxDepth n → IsDepth connections sourceNode n v → n < d
  edges : ∀ n u v, WithinDepth maxDepth (n + 1) → IsDepth connections sourceNode n u →
    ConnectedTo connections (.only .main) u v → n + 1 < d

theorem Searched.findsByDepth (h : Searched connections sourceNode d st)
    (hall : Exhausted connections sourceNode maxDepth d) :
    FindsByDepth connections sourceNode maxDepth (st.returnConns.filterMap st.visited.get?) := by
  have hnode {node : IConnectedNode}
      (hmem : node ∈ st.returnConns.filterMap st.visited.get?) :
      st.visited.get? node.name = some node := by
    obtain ⟨v, -, hget⟩ := List.mem_filterMap.mp hmem
    rw [(h.record v node hget).1]
    exact hget
  have hnames : (st.returnConns.filterMap st.visited.get?).map IConnectedNode.name =
      st.returnConns := by
    rw [List.map_filterMap]
    refine (List.filterMap_congr fun v hv => ?_).trans (List.filterMap_some (l := st.returnConns))
    rw [h.returnConns, List.mem_filter] at hv
    obtain ⟨node, hmem⟩ := InsertionMap.mem_keys.mp hv.1
    have hget := InsertionMap.get?_eq_some_iff.mpr hmem
    rw [hget, Option.map_some, (h.record v node hget).1]
  refine ⟨?_, fun v => ?_, fun node hmem => ?_, fun node hmem => ⟨?_, fun i => ?_⟩⟩
  · rw [hnames, h.returnConns]
    exact st.visited.keys_nodup.filter _
  · rw [hnames, h.returnConns, List.mem_filter, h.mem_keys, decide_eq_true_eq, and_comm]
    refine and_congr_right fun _ => ?_
    constructor
    · rintro ⟨n, hn, hdepth⟩
      exact ⟨n, hall.within n hn, hdepth.1⟩
    · rintro ⟨n, hn, hreaches⟩
      obtain ⟨m, hm, hdepth⟩ := exists_isDistance hreaches
      exact ⟨m, hall.nodes m v (hn.mono hm) hdepth, hdepth⟩
  · exact (h.record node.name node (hnode hmem)).2
  · have hnodup := h.nodup node.name
    rw [DepthSearch.indiciesOf, hnode hmem] at hnodup
    exact hnodup
  · have hmem_indicies := h.mem_indicies node.name i
    rw [DepthSearch.indiciesOf, hnode hmem, Option.map_some, Option.getD_some] at hmem_indicies
    rw [hmem_indicies]
    refine exists_congr fun u => exists_congr fun n => and_congr_left fun ⟨hdepth, hedge⟩ => ?_
    exact ⟨hall.within (n + 1),
      fun hn => hall.edges n u node.name hn hdepth (exists_edgeTo_iff.mp ⟨i, hedge⟩)⟩

theorem Searched.exhausted_of_queue_eq_nil (h : Searched connections sourceNode d st)
    (hwithin : ∀ n < d, WithinDepth maxDepth n) (hqueue : st.queue = []) :
    Exhausted connections sourceNode maxDepth d := by
  have hempty (v : String) : ¬ ∃ curr ∈ st.queue, curr.name = v := by
    rw [hqueue]
    rintro ⟨_, hcurr, -⟩
    exact List.not_mem_nil hcurr
  have hnodes : ∀ n v, IsDepth connections sourceNode n v → n < d := by
    intro n v hdepth
    by_contra hle
    obtain ⟨u, hu⟩ := hdepth.exists_of_le (Nat.not_lt.mp hle)
    exact hempty u (h.isDepth_iff.mp hu).2
  refine ⟨hwithin, fun n v _ => hnodes n v, fun n u v _ hu hconnected => ?_⟩
  obtain hlt | heq := Nat.lt_or_eq_of_le (Nat.succ_le_of_lt (hnodes n u hu))
  · exact hlt
  · exact absurd ((h.queued v).mpr (.inr ⟨u, n, heq, hu, hconnected⟩)) (hempty v)

theorem exhausted_of_lt (hwithin : ∀ n < d, WithinDepth maxDepth n) (hmax : maxDepth ≠ -1)
    (hlt : maxDepth < d) : Exhausted connections sourceNode maxDepth d := by
  have hbound {n : ℕ} (hn : WithinDepth maxDepth n) : n < d :=
    Int.ofNat_lt.mp ((hn.resolve_left hmax).trans_lt hlt)
  exact ⟨hwithin, fun _ _ hn _ => hbound hn, fun _ _ _ hn _ _ => hbound hn⟩

theorem PlainNames.of_queued (hplain : PlainNames connections sourceNode)
    (h : Searched connections sourceNode d st) (hcurr : curr ∈ st.queue) :
    curr.name ∉ InsertionMap.inheritedKeys := by
  obtain ⟨-, hname⟩ | ⟨u, n, -, hu, hconnected⟩ := (h.queued curr.name).mp ⟨curr, hcurr, rfl⟩
  · exact hname ▸ hplain.names sourceNode .refl
  · exact hplain.names _ (hu.reaches.tail hconnected)

/-- The connections of a level lead on from a node that has not been met before. -/
theorem Searched.exists_new_key (h : Searched connections sourceNode d st)
    (hqueue : (st.queue.foldl (DepthSearch.visitPlain connections sourceNode (d + 1))
      { st with queue := [] }).queue ≠ []) :
    ∃ v ∈ connections.keys, v ∉ st.visited.keys ∧
      v ∈ (st.queue.foldl (DepthSearch.visitPlain connections sourceNode (d + 1))
        { st with queue := [] }).visited.keys := by
  obtain ⟨next, hnext⟩ := List.exists_mem_of_ne_nil _ hqueue
  obtain ⟨v, hnew, hmet, hrecord⟩ := (h.levelDone.mem_queue next).mp hnext
  suffices hfollows : connectedTo connections (.only .main) v ≠ [] from
    ⟨v, mem_keys_of_connectedTo_ne_nil hfollows, hnew, (h.levelDone.mem_keys v).mpr (.inr hmet)⟩
  rw [connectedTo, Ne, List.map_eq_nil_iff]
  intro hnone
  rw [connectedRecords, hnone] at hrecord
  exact List.not_mem_nil hrecord

/-- **The loop ends**, with all levels gone through. -/
theorem exists_searchLoop_eq (hplain : PlainNames connections sourceNode) (fuel : ℕ)
    (h : Searched connections sourceNode d st) (hwithin : ∀ n < d, WithinDepth maxDepth n)
    (hfuel : st.queue ≠ [] →
      (connections.keys.filter (· ∉ st.visited.keys)).length < fuel) :
    ∃ st' d', searchLoop connections sourceNode maxDepth fuel d st = some (.ok st') ∧
      Searched connections sourceNode d' st' ∧
      Exhausted connections sourceNode maxDepth d' := by
  induction fuel generalizing d st with
  | zero =>
    have hqueue : st.queue = [] := by
      by_contra hne
      exact Nat.not_lt_zero _ (hfuel hne)
    exact ⟨st, d, if_pos hqueue, h, h.exhausted_of_queue_eq_nil hwithin hqueue⟩
  | succ fuel ih =>
    rw [searchLoop]
    by_cases hqueue : st.queue = []
    · exact ⟨st, d, if_pos hqueue, h, h.exhausted_of_queue_eq_nil hwithin hqueue⟩
    · rw [if_neg hqueue]
      by_cases hmax : maxDepth ≠ -1 ∧ maxDepth < d
      · exact ⟨st, d, if_pos hmax, h, exhausted_of_lt hwithin hmax.1 hmax.2⟩
      · have hlevel := (ExceptFold.foldlM_eq_ok (fun _ => True) st.queue
          (f := DepthSearch.visit connections sourceNode (d + 1))
          (fun _ curr hcurr _ =>
            ⟨DepthSearch.visit_eq_ok (hplain.of_queued h hcurr) hplain.keys, trivial⟩)
          { st with queue := [] } trivial).1
        have hwithin' : ∀ n < d + 1, WithinDepth maxDepth n := by
          intro n hn
          obtain hlt | rfl := Nat.lt_succ_iff_lt_or_eq.mp hn
          · exact hwithin n hlt
          · rw [not_and_or, not_not, not_lt] at hmax
            exact hmax
        rw [if_neg hmax, hlevel]
        refine ih h.level hwithin' fun hne => ?_
        obtain ⟨v, hv, hnew, hmet⟩ := h.exists_new_key hne
        have hsubset : st.visited.keys ⊆ (st.queue.foldl
            (DepthSearch.visitPlain connections sourceNode (d + 1))
            { st with queue := [] }).visited.keys :=
          fun w hw => (h.levelDone.mem_keys w).mpr (.inl hw)
        have hlt := Paths.length_filter_notMem_lt hsubset hv hnew hmet
        have hle := hfuel hqueue
        omega

/-- **What `searchNodesBFS` finds**. The search ends on every graph. -/
theorem findsByDepth_searchNodesBFS (hplain : PlainNames connections sourceNode) (maxDepth : ℤ) :
    ∃ found, searchNodesBFS connections sourceNode maxDepth = some (.ok found) ∧
      FindsByDepth connections sourceNode maxDepth found := by
  obtain ⟨st, d, hloop, hsearched, hexhausted⟩ := exists_searchLoop_eq hplain
    (connections.keys.length + 1) (searched_start connections sourceNode)
    (fun n hn => absurd hn (Nat.not_lt_zero n))
    fun _ => Nat.lt_succ_of_le (List.length_filter_le _ _)
  refine ⟨st.returnConns.filterMap st.visited.get?, ?_, hsearched.findsByDepth hexhausted⟩
  rw [searchNodesBFS, hloop]
  rfl

/-- A start that leads into a loop of two nodes. -/
private def loopBehindStart : IConnections :=
  ((InsertionMap.empty.set "start" (InsertionMap.empty.set .main [some [⟨"merge", .main, 0⟩]])).set
    "merge" (InsertionMap.empty.set .main [some [⟨"wait", .main, 0⟩]])).set
    "wait" (InsertionMap.empty.set .main [some [⟨"merge", .main, 1⟩]])

private def loopNodes : List IConnectedNode := [⟨"merge", [0, 1], 1⟩, ⟨"wait", [0], 2⟩]

private theorem searchNodesBFS_loopBehindStart :
    searchNodesBFS loopBehindStart "start" = some (.ok loopNodes) := by decide +kernel

private theorem connectedTo_loopBehindStart {u v : String}
    (h : ConnectedTo loopBehindStart (.only .main) u v) :
    u = "start" ∧ v = "merge" ∨ u = "merge" ∧ v = "wait" ∨ u = "wait" ∧ v = "merge" := by
  have hmem := mem_connectedTo.mpr h
  have hkey := mem_keys_of_connectedTo_ne_nil (List.ne_nil_of_mem hmem)
  have hkeys : loopBehindStart.keys = ["start", "merge", "wait"] := by decide +kernel
  have hends : ["start", "merge", "wait"].map (connectedTo loopBehindStart (.only .main)) =
      [["merge"], ["wait"], ["merge"]] := by decide +kernel
  simp only [List.map_cons, List.map_nil, List.cons.injEq, and_true] at hends
  rw [hkeys] at hkey
  simp only [List.mem_cons, List.not_mem_nil, or_false] at hkey
  obtain rfl | rfl | rfl := hkey
  · rw [hends.1, List.mem_singleton] at hmem
    exact .inl ⟨rfl, hmem⟩
  · rw [hends.2.1, List.mem_singleton] at hmem
    exact .inr (.inl ⟨rfl, hmem⟩)
  · rw [hends.2.2, List.mem_singleton] at hmem
    exact .inr (.inr ⟨rfl, hmem⟩)

private theorem plainNames_loopBehindStart : PlainNames loopBehindStart "start" := by
  refine ⟨fun v hv => ?_, by decide +kernel⟩
  have hmem : v = "start" ∨ v = "merge" ∨ v = "wait" := by
    induction hv with
    | refl => exact .inl rfl
    | tail _ hstep _ =>
      obtain ⟨-, rfl⟩ | ⟨-, rfl⟩ | ⟨-, rfl⟩ := connectedTo_loopBehindStart hstep
      · exact .inr (.inl rfl)
      · exact .inr (.inr rfl)
      · exact .inr (.inl rfl)
  obtain rfl | rfl | rfl := hmem <;> decide

theorem findsByDepth_loopBehindStart :
    PlainNames loopBehindStart "start" ∧
      ∃ found, searchNodesBFS loopBehindStart "start" (-1) = some (.ok found) ∧
        FindsByDepth loopBehindStart "start" (-1) found :=
  ⟨plainNames_loopBehindStart, findsByDepth_searchNodesBFS plainNames_loopBehindStart (-1)⟩

/-- The indexes of a node are those of the connections from nodes that are no deeper than it. -/
def IndiciesFromNoDeeper (connections : IConnections) (sourceNode : String) (maxDepth : ℤ)
    (found : List IConnectedNode) : Prop :=
  ∀ node ∈ found, ∀ i, i ∈ node.indicies ↔ ∃ u n, n ≤ node.depth ∧
    WithinDepth maxDepth (n + 1) ∧ IsDepth connections sourceNode n u ∧
      EdgeTo connections u node.name i

/-- The way back from a deeper node counts. -/
theorem not_indiciesFromNoDeeper_loopBehindStart :
    ¬ ∃ found, searchNodesBFS loopBehindStart "start" (-1) = some (.ok found) ∧
      IndiciesFromNoDeeper loopBehindStart "start" (-1) found := by
  rintro ⟨found, hfound, hindicies⟩
  rw [searchNodesBFS_loopBehindStart] at hfound
  obtain rfl : loopNodes = found := Except.ok.inj (Option.some.inj hfound)
  have hback : 1 ∈ (⟨"merge", [0, 1], 1⟩ : IConnectedNode).indicies := by decide
  obtain ⟨u, n, hn, -, hdepth, connection, hmem, hname, hindex⟩ :=
    (hindicies ⟨"merge", [0, 1], 1⟩ (by decide) 1).mp hback
  obtain ⟨rfl, -⟩ | ⟨rfl, hv⟩ | ⟨rfl, -⟩ :=
    connectedTo_loopBehindStart ⟨connection, hmem, hname⟩
  · have hstart : selectedConnections loopBehindStart (.only .main) "start" =
        [⟨"merge", .main, 0⟩] := by decide +kernel
    rw [hstart, List.mem_singleton] at hmem
    subst hmem
    cases hindex
  · exact absurd hv (by decide)
  · have hle : n = 0 ∨ n = 1 := Nat.le_one_iff_eq_zero_or_eq_one.mp hn
    obtain rfl | rfl := hle
    · exact absurd (isDistance_zero_iff.mp hdepth) (by decide)
    · obtain ⟨w, rfl, hstep⟩ := hdepth.1
      obtain ⟨-, hv⟩ | ⟨hw, -⟩ | ⟨hw, -⟩ := connectedTo_loopBehindStart hstep
      · exact absurd hv (by decide)
      · exact absurd hw (by decide)
      · exact absurd hw (by decide)

end N8n
