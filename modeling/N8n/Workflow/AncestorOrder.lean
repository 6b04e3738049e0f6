import N8n.Workflow.ReachableNodes

/-!
# The order in which `getConnectedNodes` lists

On connections without a cycle, `getConnectedNodes` lists a node behind every node that it reaches
(`upstreamFirst_getConnectedNodes`). On the connections by destination these are its ancestors, so
that `getParentNodes` lists the first nodes of a workflow first.

A node that is listed twice counts where it is listed first.
-/

namespace N8n

open Relation

variable {connections : IConnections} {connectionType : ConnectionTypes}

/-- No node can be reached from itself along connections of the selected types. -/
def Acyclic (connections : IConnections) (connectionType : ConnectionTypes) : Prop :=
  ∀ v, ¬ TransGen (ConnectedTo connections connectionType) v v

/-- Of two nodes that are listed, the one that can be reached from the other is listed first. -/
def UpstreamFirst (connections : IConnections) (connectionType : ConnectionTypes)
    (nodeName : String) : Prop :=
  let returnNodes := getConnectedNodes connections nodeName connectionType
  ∀ a ∈ returnNodes, ∀ b ∈ returnNodes, a ≠ b →
    ReflTransGen (ConnectedTo connections connectionType) a b →
      returnNodes.idxOf b < returnNodes.idxOf a

/-- What the nodes that are listed lead to is listed, and listed first. -/
theorem successorsFirst_getConnectedNodes (hacyclic : Acyclic connections connectionType)
    (nodeName : String) :
    BranchSearch.SuccessorsFirst (connectedTo connections connectionType)
      (getConnectedNodes connections nodeName connectionType) := by
  rw [Acyclic, ← mem_connectedTo_eq] at hacyclic
  rw [getConnectedNodes, connectedNodes_eq_listFrom]
  exact BranchSearch.successorsFirst_listFrom_nil (fun _ => mem_keys_of_connectedTo_ne_nil) hacyclic

/-- **The order of `getConnectedNodes`** on connections without a cycle. -/
theorem upstreamFirst_getConnectedNodes (hacyclic : Acyclic connections connectionType)
    (nodeName : String) : UpstreamFirst connections connectionType nodeName := by
  intro a ha b _ hne hreaches
  have hpath : TransGen (ConnectedTo connections connectionType) a b :=
    (reflTransGen_iff_eq_or_transGen.mp hreaches).resolve_left hne.symm
  rw [← mem_connectedTo_eq] at hpath
  exact (successorsFirst_getConnectedNodes hacyclic nodeName).idxOf_lt ha hpath

/-- Connections along which a rank falls have no cycle. -/
theorem acyclic_of_rank (rank : String → ℕ)
    (h : ∀ u v, ConnectedTo connections connectionType u v → rank v < rank u) :
    Acyclic connections connectionType := by
  intro v hcycle
  have hfalls : ∀ w, TransGen (ConnectedTo connections connectionType) v w → rank w < rank v := by
    intro w hpath
    induction hpath with
    | single hstep => exact h _ _ hstep
    | tail _ hstep ih => exact (h _ _ hstep).trans ih
  exact Nat.lt_irrefl _ (hfalls v hcycle)

/-- A node whose input comes both from another node and past it. -/
private def shortcutByDestination : IConnections :=
  (InsertionMap.empty.set "publish"
      (InsertionMap.empty.set .main [some [⟨"draft", .main, 0⟩, ⟨"review", .main, 0⟩]])).set
    "review" (InsertionMap.empty.set .main [some [⟨"draft", .main, 0⟩]])

private def shortcutRank (name : String) : ℕ :=
  if name = "publish" then 2 else if name = "review" then 1 else 0

private theorem acyclic_shortcut : Acyclic shortcutByDestination (.only .main) := by
  refine acyclic_of_rank shortcutRank fun u v hstep => ?_
  have hmem := mem_connectedTo.mpr hstep
  have hkey : u ∈ shortcutByDestination.keys :=
    mem_keys_of_connectedTo_ne_nil (List.ne_nil_of_mem hmem)
  have hkeys : shortcutByDestination.keys = ["publish", "review"] := by decide +kernel
  rw [hkeys, List.mem_cons, List.mem_singleton] at hkey
  obtain rfl | rfl := hkey
  · have hends : connectedTo shortcutByDestination (.only .main) "publish" =
        ["draft", "review"] := by decide +kernel
    rw [hends, List.mem_cons, List.mem_singleton] at hmem
    obtain rfl | rfl := hmem <;> decide
  · have hends : connectedTo shortcutByDestination (.only .main) "review" = ["draft"] := by
      decide +kernel
    rw [hends, List.mem_singleton] at hmem
    subst hmem
    decide

theorem upstreamFirst_shortcut :
    Acyclic shortcutByDestination (.only .main) ∧
      getConnectedNodes shortcutByDestination "publish" = ["draft", "review"] ∧
      UpstreamFirst shortcutByDestination (.only .main) "publish" :=
  ⟨acyclic_shortcut, by decide +kernel, upstreamFirst_getConnectedNodes acyclic_shortcut "publish"⟩

end N8n
