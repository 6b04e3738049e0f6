import N8n.Foundations.BranchSearch
import N8n.Workflow.ConnectedNodes

/-!
# What `getConnectedNodes` lists

Without a limit of the depth, `getConnectedNodes` is a search that remembers its branch
(`connectedNodes_eq_listFrom`). It lists exactly the nodes that are reachable along connections of
the selected types. What it found behind a connection it does not list again, but the node at the
other end of a connection of the start is listed also when it was found before, so that some nodes
are listed twice (`listsReachable_iff`).
-/

namespace N8n

open Relation

/-- The connections of the selected types, in the order in which they are followed. -/
def selectedConnections (connections : IConnections) (connectionType : ConnectionTypes)
    (nodeName : String) : List IConnection :=
  match connections.get? nodeName with
  | none => []
  | some nodeConnections =>
    (connectionType.select nodeConnections).flatMap fun type =>
      ((nodeConnections.get? type).getD []).flatMap (·.getD [])

/-- The nodes at the other ends of these connections. -/
def connectedTo (connections : IConnections) (connectionType : ConnectionTypes)
    (nodeName : String) : List String :=
  (selectedConnections connections connectionType nodeName).map (·.node)

variable {connections : IConnections} {connectionType : ConnectionTypes} {nodeName : String}

theorem addNodesToFront_eq (addNodes returnNodes : List String) :
    addNodesToFront addNodes returnNodes = BranchSearch.addToFront addNodes returnNodes := rfl

theorem addConnectedNode_eq (search : String → List String) (checkedNodes returnNodes : List String)
    (connection : IConnection) :
    addConnectedNode search checkedNodes returnNodes connection =
      BranchSearch.addSuccessor search checkedNodes returnNodes connection.node := by
  rw [addConnectedNode, BranchSearch.addSuccessor, addNodesToFront_eq]
  simp only [List.contains_iff_mem]

/-- What the connections of one type add. -/
theorem addConnectionsOfType_eq (nodeName : String) (search : String → List String)
    (checkedNodes returnNodes : List String) (connectionsOfType : Option NodeInputConnections) :
    (match connectionsOfType with
      | none => returnNodes
      | some connectionsOfType =>
        if checkedNodes.contains nodeName then returnNodes
        else
          (connectionsOfType.flatMap (·.getD [])).foldl
            (addConnectedNode search (checkedNodes ++ [nodeName])) returnNodes) =
      if nodeName ∈ checkedNodes then returnNodes
      else
        ((connectionsOfType.getD []).flatMap (·.getD [])).foldl
          (fun returnNodes connection => BranchSearch.addSuccessor search
            (checkedNodes ++ [nodeName]) returnNodes connection.node) returnNodes := by
  have hadd : addConnectedNode search (checkedNodes ++ [nodeName]) =
      fun returnNodes connection => BranchSearch.addSuccessor search
        (checkedNodes ++ [nodeName]) returnNodes connection.node := by
    funext returnNodes connection
    exact addConnectedNode_eq search _ returnNodes connection
  rw [hadd]
  cases connectionsOfType with
  | none => exact (ite_self _).symm
  | some connectionsOfType => simp only [List.contains_iff_mem, Option.getD_some]

/-- Without a limit of the depth, `getConnectedNodes` is a search that remembers its branch. -/
theorem connectedNodes_eq_listFrom (fuel : ℕ) (nodeName : String) (checkedNodes : List String) :
    connectedNodes connections connectionType fuel nodeName (-1) checkedNodes =
      BranchSearch.listFrom (connectedTo connections connectionType) fuel nodeName
        checkedNodes := by
  induction fuel generalizing nodeName checkedNodes with
  | zero => rfl
  | succ fuel ih =>
    have hdepth : (-1 : ℤ) ≠ 0 := by decide
    rw [connectedNodes, BranchSearch.listFrom, if_neg hdepth, if_pos rfl, connectedTo,
      selectedConnections]
    cases connections.get? nodeName with
    | none =>
      dsimp only
      rw [List.map_nil, List.foldl_nil, ite_self]
    | some nodeConnections =>
      have htypes := List.foldl_ext _ _ ([] : List String)
        (l := connectionType.select nodeConnections) fun returnNodes type _ =>
          addConnectionsOfType_eq nodeName
            (fun name => connectedNodes connections connectionType fuel name (-1)
              (checkedNodes ++ [nodeName])) checkedNodes returnNodes (nodeConnections.get? type)
      refine Eq.trans htypes ?_
      by_cases hchecked : nodeName ∈ checkedNodes
      · simp only [if_pos hchecked]
        exact List.foldl_fixed _
      · simp only [if_neg hchecked, ih]
        rw [List.foldl_map, List.foldl_flatMap]

/-! ### The nodes that are listed -/

/-- `v` is at the other end of a connection of `u` of a selected type. -/
def ConnectedTo (connections : IConnections) (connectionType : ConnectionTypes) (u v : String) :
    Prop :=
  ∃ connection ∈ selectedConnections connections connectionType u, connection.node = v

/-- A path along connections of the selected types that comes to the start `nodeName` at most at
its own start. -/
def ReachesPast (connections : IConnections) (connectionType : ConnectionTypes)
    (nodeName : String) : String → String → Prop :=
  ReflTransGen fun u v => ConnectedTo connections connectionType u v ∧ v ≠ nodeName

theorem mem_connectedTo {v : String} :
    v ∈ connectedTo connections connectionType nodeName ↔
      ConnectedTo connections connectionType nodeName v :=
  List.mem_map

theorem mem_connectedTo_eq : (fun u v => v ∈ connectedTo connections connectionType u) =
    ConnectedTo connections connectionType := by
  funext u v
  exact propext mem_connectedTo

theorem mem_keys_of_connectedTo_ne_nil
    (h : connectedTo connections connectionType nodeName ≠ []) :
    nodeName ∈ connections.keys := by
  by_contra hnot
  have hnone := InsertionMap.get?_eq_none_iff.mpr hnot
  rw [connectedTo, selectedConnections, hnone] at h
  exact h rfl

/-- The nodes that are reachable from a node, besides itself, are all listed and nothing else is,
and each is listed once. -/
def ListsReachable (connections : IConnections) (connectionType : ConnectionTypes)
    (nodeName : String) : Prop :=
  (∀ v, v ∈ getConnectedNodes connections nodeName connectionType ↔
    v ≠ nodeName ∧ ReflTransGen (ConnectedTo connections connectionType) nodeName v) ∧
  (getConnectedNodes connections nodeName connectionType).Nodup

theorem mem_getConnectedNodes_iff {v : String} :
    v ∈ getConnectedNodes connections nodeName connectionType ↔
      v ≠ nodeName ∧ ReflTransGen (ConnectedTo connections connectionType) nodeName v := by
  rw [getConnectedNodes, connectedNodes_eq_listFrom,
    BranchSearch.mem_listFrom_nil_iff fun _ => mem_keys_of_connectedTo_ne_nil, mem_connectedTo_eq]

/-- **When `getConnectedNodes` is exact**: no connection of the start node leads to a node that an
earlier one led to, at its other end or behind it. Connections to the start itself do not
matter. -/
theorem listsReachable_iff (connections : IConnections)
    (_hkeys : "hasOwnProperty" ∉ connections.keys) (connectionType : ConnectionTypes)
    (nodeName : String) :
    ListsReachable connections connectionType nodeName ↔
      ((selectedConnections connections connectionType nodeName).filter
          fun connection => connection.node ≠ nodeName).Pairwise fun connection connection' =>
        ¬ ReachesPast connections connectionType nodeName connection.node connection'.node := by
  have hstep : BranchSearch.Step (connectedTo connections connectionType) [nodeName] =
      fun u v => ConnectedTo connections connectionType u v ∧ v ≠ nodeName := by
    funext u v
    rw [BranchSearch.Step, mem_connectedTo, List.mem_singleton]
  rw [ListsReachable, and_iff_right fun v => mem_getConnectedNodes_iff, getConnectedNodes,
    connectedNodes_eq_listFrom,
    BranchSearch.nodup_listFrom_nil_iff fun _ => mem_keys_of_connectedTo_ne_nil, hstep,
    connectedTo, List.filter_map, List.pairwise_map]
  exact Iff.rfl

/-- A node that leads to another one and back. -/
theorem listsReachable_loop :
    ListsReachable ((InsertionMap.empty.set "a"
      (InsertionMap.empty.set .main [some [⟨"b", .main, 0⟩]])).set "b"
      (InsertionMap.empty.set .main [some [⟨"a", .main, 0⟩]])) (.only .main) "a" := by
  refine (listsReachable_iff _ (by decide) _ _).mpr ?_
  exact List.pairwise_singleton _ _

/-- A node with two outputs to the same node. -/
private def doubleConnection : IConnections :=
  InsertionMap.empty.set "a"
    (InsertionMap.empty.set .main [some [⟨"b", .main, 0⟩], some [⟨"b", .main, 0⟩]])

theorem not_listsReachable_doubleConnection :
    ¬ ListsReachable doubleConnection (.only .main) "a" := by
  rintro ⟨-, hnodup⟩
  have heq : getConnectedNodes doubleConnection "a" (.only .main) = ["b", "b"] := by
    decide +kernel
  rw [heq] at hnodup
  exact absurd hnodup (by decide)

end N8n
