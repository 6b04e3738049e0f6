import N8n.PartialExecution.GraphTraversal

/-!
# Executing a tool on its own

A tool cannot be run without an agent. `rewireGraph` puts a virtual tool executor in the place of
the agent at the root of the tool: the tool and all sources of the agent are connected to the
executor, and the agent is removed.

For the root it takes the last child of the tool that `getChildren` lists, which is a node behind
the agent where there is one; and it connects the sources of the agent without the indexes of
their connections. When that makes no difference is said in `replacesAgent_iff`.
-/

namespace N8n

/-- What an agent is asked to do with a tool. -/
structure AiAgentRequest where
  query : JsonValue
  toolName : String

/-- The parameters of the virtual tool executor. -/
structure ToolExecutorParameters where
  query : String
  toolName : String
  node : String
  deriving DecidableEq, Repr

namespace DirectedGraph

open Relation

/-! ### The function -/

/-- The virtual tool executor. Its parameters are not part of the node here. -/
def toolExecutor : INode where
  name := "PartialExecutionToolExecutor"
  disabled := some false
  type := "@n8n/n8n-nodes-langchain.toolExecutor"
  position := (0, 0)

/-- The graph with the executor and its parameters, if there is one, and the `rewireOutputLogTo` of
the nodes. -/
structure RewiredGraph where
  graph : DirectedGraph
  rewireOutputLogTo : InsertionMap String NodeConnectionType
  parameters : Option ToolExecutorParameters

/-- The connection of the executor that takes the place of one of the agent. -/
def executorConnection (cn : GraphConnection) : GraphConnection :=
  { fromNode := cn.fromNode, toNode := toolExecutor, type := cn.type }

/-- The connection of the tool to the executor. -/
def toolConnection (tool : INode) : GraphConnection :=
  { fromNode := tool, toNode := toolExecutor, type := .aiTool }

/-- The `parameters` of the executor. `JSON.stringify` is a parameter of the model. -/
def executorParameters (stringify : JsonValue → String) (tool : INode)
    (agentRequest : Option AiAgentRequest) : ToolExecutorParameters where
  query := stringify ((agentRequest.map (·.query)).getD (.obj []))
  toolName := (agentRequest.map (·.toolName)).getD ""
  node := tool.name

def rewireGraph (stringify : JsonValue → String) (tool : INode) (graph : DirectedGraph)
    (agentRequest : Option AiAgentRequest)
    (rewireOutputLogTo : InsertionMap String NodeConnectionType) :
    Except GraphError RewiredGraph := do
  let modifiedGraph ← graph.clone
  let children ← modifiedGraph.getChildren tool
  match children.elements.getLast? with
  | none => return { graph, rewireOutputLogTo, parameters := none }
  | some rootNode =>
    let parentConnections ← modifiedGraph.getDirectParentConnections rootNode
    let allIncomingConnection := parentConnections.filter fun cn => cn.type = .main
    let modifiedGraph := modifiedGraph.addNode toolExecutor
    let modifiedGraph ← modifiedGraph.addConnection (toolConnection tool)
    let modifiedGraph ← modifiedGraph.addConnections (allIncomingConnection.map executorConnection)
    let (modifiedGraph, _) ← modifiedGraph.removeNode rootNode
    return {
      graph := modifiedGraph
      rewireOutputLogTo := rewireOutputLogTo.set tool.name .aiTool
      parameters := some (executorParameters stringify tool agentRequest) }

/-! ### What it is for -/

/-- The executor stands in the place of the agent `root`: it is a new node, every main connection
into the agent leads to it, with the same indexes, the tool is attached to it, and what has nothing
to do with the agent and the tool is as before. -/
structure IsRewired (g : DirectedGraph) (tool root : INode) (g' : DirectedGraph) : Prop where
  fresh : toolExecutor ∉ g.getNodes
  executor : toolExecutor ∈ g'.getNodes
  incoming : ∀ c ∈ g.getConnections, c.type = .main → c.toNode = root →
    { c with toNode := toolExecutor } ∈ g'.getConnections
  attached : toolConnection tool ∈ g'.getConnections
  connections : ∀ c : GraphConnection,
    (∀ n ∈ [root, tool, toolExecutor], c.fromNode ≠ n ∧ c.toNode ≠ n) →
      (c ∈ g'.getConnections ↔ c ∈ g.getConnections)
  nodes : ∀ n : INode, n ≠ root → n ≠ toolExecutor → (n ∈ g'.getNodes ↔ n ∈ g.getNodes)

/-- `rewireGraph` puts the executor in the place of the agent `root`. -/
def ReplacesAgent (stringify : JsonValue → String) (agentRequest : Option AiAgentRequest)
    (rewireOutputLogTo : InsertionMap String NodeConnectionType) (g : DirectedGraph)
    (tool root : INode) : Prop :=
  ∃ rewired, rewireGraph stringify tool g agentRequest rewireOutputLogTo = .ok rewired ∧
    g.IsRewired tool root rewired.graph

/-- The main connections into a node. -/
def mainConnectionsInto (g : DirectedGraph) (root : INode) : List GraphConnection :=
  (g.parentConnections root).filter fun cn => cn.type = .main

/-- The connections that are added. -/
def addedConnections (g : DirectedGraph) (tool root : INode) : List GraphConnection :=
  toolConnection tool :: (g.mainConnectionsInto root).map executorConnection

/-- The last child of the tool that is listed. -/
def lastChild (g : DirectedGraph) (tool : INode) : Option INode :=
  (g.getChildren tool).toOption.bind (·.elements.getLast?)

variable {g : DirectedGraph} {tool root : INode} {stringify : JsonValue → String}
  {agentRequest : Option AiAgentRequest}
  {rewireOutputLogTo : InsertionMap String NodeConnectionType} {rewired : RewiredGraph}

/-! ### Keys -/

/-- The key of a connection into the executor, without indexes, is the name of its source and its
type in front of a text that is always the same. -/
private theorem toList_makeKey_executor (fromNode : INode) (type : NodeConnectionType) :
    (makeKey { fromNode, toNode := toolExecutor, type }).toList
      = (fromNode.name.toList ++ '-' :: type.toString.toList) ++
        "-0-0-PartialExecutionToolExecutor".toList := by
  have hrest : '-' :: (Nat.toDigits 10 0 ++ '-' :: ((0 : ℤ).repr.toList ++
      '-' :: toolExecutor.name.toList)) = "-0-0-PartialExecutionToolExecutor".toList := by decide
  rw [toList_makeKey, List.append_assoc, List.cons_append, ← hrest]

private theorem name_eq_of_makeKey_eq {n n' : INode} {t : NodeConnectionType}
    (h : makeKey { fromNode := n, toNode := toolExecutor, type := t }
      = makeKey { fromNode := n', toNode := toolExecutor, type := t }) : n.name = n'.name := by
  have hlist := congrArg String.toList h
  rw [toList_makeKey_executor, toList_makeKey_executor] at hlist
  exact String.toList_inj.mp (List.append_cancel_right (List.append_cancel_right hlist))

/-- The tool is not connected under the key of another source: the types end differently. -/
private theorem makeKey_toolConnection_ne (n n' : INode) :
    makeKey (toolConnection n)
      ≠ makeKey { fromNode := n', toNode := toolExecutor, type := .main } := by
  intro h
  have hlist := congrArg String.toList h
  rw [toolConnection, toList_makeKey_executor, toList_makeKey_executor] at hlist
  have hlast := congrArg List.getLast? (List.append_cancel_right hlist)
  simp [NodeConnectionType.toString, List.getLast?_cons] at hlast

theorem mem_mainConnectionsInto {c : GraphConnection} :
    c ∈ g.mainConnectionsInto root ↔
      c ∈ g.getConnections ∧ c.toNode = root ∧ c.type = .main := by
  rw [mainConnectionsInto, List.mem_filter, mem_parentConnections, decide_eq_true_eq, and_assoc]

theorem mem_addedConnections {c : GraphConnection} :
    c ∈ g.addedConnections tool root ↔ c = toolConnection tool ∨
      ∃ cn ∈ g.mainConnectionsInto root, executorConnection cn = c := by
  rw [addedConnections, List.mem_cons, List.mem_map]

/-- The connections that are added have different keys. -/
theorem makeKey_injOn_addedConnections (hg : g.Closed) :
    Set.InjOn makeKey {c | c ∈ g.addedConnections tool root} := by
  intro a ha b hb hkey
  obtain rfl | ⟨c, hc, rfl⟩ := mem_addedConnections.mp ha <;>
    obtain rfl | ⟨d, hd, rfl⟩ := mem_addedConnections.mp hb
  · rfl
  · have htype := (mem_mainConnectionsInto.mp hd).2.2
    rw [executorConnection, htype] at hkey
    exact absurd hkey (makeKey_toolConnection_ne _ _)
  · have htype := (mem_mainConnectionsInto.mp hc).2.2
    rw [executorConnection, htype] at hkey
    exact absurd hkey.symm (makeKey_toolConnection_ne _ _)
  · obtain ⟨hc, -, hctype⟩ := mem_mainConnectionsInto.mp hc
    obtain ⟨hd, -, hdtype⟩ := mem_mainConnectionsInto.mp hd
    rw [executorConnection, executorConnection, hctype, hdtype] at hkey
    have hfrom := eq_of_name_eq (hg c hc).1 (hg d hd).1 (name_eq_of_makeKey_eq hkey)
    rw [executorConnection, executorConnection, hctype, hdtype, hfrom]

/-! ### Connections that are set one after another -/

/-- A connection that is set later takes the place of the one under its key. -/
theorem mem_getConnections_foldl_setConnection_iff {l : List GraphConnection}
    (hl : Set.InjOn makeKey {c | c ∈ l}) {c : GraphConnection} :
    c ∈ (l.foldl setConnection g).getConnections ↔
      c ∈ l ∨ (c ∈ g.getConnections ∧ ∀ a ∈ l, makeKey a ≠ makeKey c) := by
  induction l generalizing g with
  | nil => simp
  | cons a l ih =>
    have htail : Set.InjOn makeKey {c | c ∈ l} :=
      hl.mono fun c hc => List.mem_cons_of_mem a hc
    rw [List.foldl_cons, ih htail, mem_getConnections_setConnection]
    constructor
    · rintro (hc | ⟨rfl | ⟨hne, hc⟩, hkeys⟩)
      · exact .inl (List.mem_cons_of_mem a hc)
      · exact .inl List.mem_cons_self
      · exact .inr ⟨hc, List.forall_mem_cons.mpr ⟨hne.symm, hkeys⟩⟩
    · rintro (hc | ⟨hc, hkeys⟩)
      · -- The connection is set first, or later.
        by_cases hmem : c ∈ l
        · exact .inl hmem
        · obtain rfl := (List.mem_cons.mp hc).resolve_right hmem
          refine .inr ⟨.inl rfl, fun a' ha' hkey => hmem ?_⟩
          rwa [← hl (List.mem_cons_of_mem c ha') List.mem_cons_self hkey]
      · obtain ⟨hne, hkeys⟩ := List.forall_mem_cons.mp hkeys
        exact .inr ⟨.inr ⟨hne.symm, hc⟩, hkeys⟩

/-- Connections between nodes of the graph can be added one after another. -/
private theorem addConnections_of_mem {l : List GraphConnection}
    (hl : ∀ c ∈ l, c.fromNode ∈ g.getNodes ∧ c.toNode ∈ g.getNodes) :
    g.addConnections l = .ok (l.foldl setConnection g) := by
  induction l generalizing g with
  | nil => rfl
  | cons c l ih =>
    obtain ⟨⟨hf, ht⟩, hl⟩ := List.forall_mem_cons.mp hl
    rw [addConnections, List.foldlM_cons, addConnection_of_mem hf ht]
    exact ih hl

/-- What is returned when every assertion holds. -/
private theorem eq_foldl_of_addConnections {l : List GraphConnection} {g' : DirectedGraph}
    (h : g.addConnections l = .ok g') : g' = l.foldl setConnection g := by
  induction l generalizing g with
  | nil => exact (Except.ok.inj h).symm
  | cons c l ih =>
    rw [addConnections, List.foldlM_cons] at h
    by_cases hc : g.nodeExists c.fromNode ∧ g.nodeExists c.toNode
    · rw [addConnection, if_pos hc] at h
      exact ih h
    · rw [addConnection, if_neg hc] at h
      cases h

/-! ### The graph that is returned -/

/-- The executor and its connections are added, and the node is removed. -/
def withExecutor (g : DirectedGraph) (tool last : INode) : DirectedGraph :=
  (((g.addedConnections tool last).foldl setConnection
    (g.addNode toolExecutor)).deleteConnections last).deleteNode last

theorem mem_getNodes_withExecutor {last n : INode} :
    n ∈ (g.withExecutor tool last).getNodes ↔
      (n = toolExecutor ∨ (n.name ≠ toolExecutor.name ∧ n ∈ g.getNodes)) ∧
        n.name ≠ last.name := by
  rw [withExecutor, mem_getNodes_deleteNode, getNodes_deleteConnections,
    getNodes_foldl_setConnection, mem_getNodes_addNode]

theorem mem_getConnections_withExecutor (hg : g.Closed) {last : INode} {c : GraphConnection} :
    c ∈ (g.withExecutor tool last).getConnections ↔
      (c ∈ g.addedConnections tool last ∨
        (c ∈ g.getConnections ∧ ∀ a ∈ g.addedConnections tool last, makeKey a ≠ makeKey c)) ∧
        c.fromNode ≠ last ∧ c.toNode ≠ last := by
  rw [withExecutor, getConnections_deleteNode, mem_getConnections_deleteConnections,
    mem_getConnections_foldl_setConnection_iff (makeKey_injOn_addedConnections hg),
    getConnections_addNode]

theorem lastChild_eq_some (hg : g.Closed) (htool : tool ∈ g.getNodes) {last : INode} :
    g.lastChild tool = some last ↔
      ∃ children, g.getChildren tool = .ok children ∧ children.elements.getLast? = some last := by
  obtain ⟨children, hchildren, -⟩ := exists_getChildren_eq_ok hg htool
  rw [lastChild, hchildren]
  simp [Except.toOption]

/-- The last child is one of the nodes that are reachable from the tool. -/
theorem transGen_of_lastChild (hg : g.Closed) (htool : tool ∈ g.getNodes) {last : INode}
    (h : g.lastChild tool = some last) : TransGen g.Step tool last := by
  obtain ⟨children, hchildren, hlast⟩ := (lastChild_eq_some hg htool).mp h
  obtain ⟨s, hs, hmem⟩ := exists_getChildren_eq_ok hg htool
  rw [hs, Except.ok.injEq] at hchildren
  exact (hmem last).mp (hchildren ▸ List.mem_of_getLast? hlast)

/-- With a last child, all connections are added before that child is removed. -/
theorem rewireGraph_of_lastChild (hg : g.Closed) (htool : tool ∈ g.getNodes) {last : INode}
    (hlast : g.lastChild tool = some last) :
    rewireGraph stringify tool g agentRequest rewireOutputLogTo
      = ((g.addNode toolExecutor).addConnections (g.addedConnections tool last)).map fun g' => {
          graph := (g'.deleteConnections last).deleteNode last
          rewireOutputLogTo := rewireOutputLogTo.set tool.name .aiTool
          parameters := some (executorParameters stringify tool agentRequest) } := by
  obtain ⟨children, hchildren, hlast'⟩ := (lastChild_eq_some hg htool).mp hlast
  obtain ⟨_, -, hstep⟩ := TransGen.tail'_iff.mp (transGen_of_lastChild hg htool hlast)
  have hmem : last ∈ g.getNodes := (mem_getNodes_of_step hg hstep).2
  rw [rewireGraph, clone_of_closed hg, addConnections, addedConnections, List.foldlM_cons]
  simp only [hchildren, hlast', bind, Except.bind, getDirectParentConnections_of_mem hmem]
  -- The graph is the same after each step, up to the first assertion that fails.
  obtain _ | g₁ := (g.addNode toolExecutor).addConnection (toolConnection tool)
  · rfl
  dsimp only [mainConnectionsInto, addConnections]
  obtain _ | g₂ := (((g.parentConnections last).filter fun cn => cn.type = .main).map
    executorConnection).foldlM addConnection g₁
  · rfl
  · rfl

/-- What is returned, if anything is, has the executor in the place of the last child. -/
theorem graph_of_rewireGraph (hg : g.Closed) (htool : tool ∈ g.getNodes) {last : INode}
    (hlast : g.lastChild tool = some last)
    (h : rewireGraph stringify tool g agentRequest rewireOutputLogTo = .ok rewired) :
    rewired.graph = g.withExecutor tool last := by
  rw [rewireGraph_of_lastChild hg htool hlast] at h
  cases hadd : (g.addNode toolExecutor).addConnections (g.addedConnections tool last) with
  | error e =>
    rw [hadd] at h
    cases h
  | ok g' =>
    rw [hadd] at h
    cases h
    rw [withExecutor, ← eq_foldl_of_addConnections hadd]

theorem exists_rewireGraph_eq_ok (hg : g.Closed) (htool : tool ∈ g.getNodes)
    (hname : g.hasNode toolExecutor.name = false) {last : INode}
    (hlast : g.lastChild tool = some last) :
    ∃ rewired, rewireGraph stringify tool g agentRequest rewireOutputLogTo = .ok rewired ∧
      rewired.graph = g.withExecutor tool last := by
  have hkept : ∀ n ∈ g.getNodes, n ∈ (g.addNode toolExecutor).getNodes := by
    intro n hn
    refine mem_getNodes_addNode.mpr (.inr ⟨fun heq => ?_, hn⟩)
    exact Bool.false_ne_true (hname.symm.trans (hasNode_iff.mpr ⟨n, hn, heq⟩))
  have hends : ∀ c ∈ g.addedConnections tool last,
      c.fromNode ∈ (g.addNode toolExecutor).getNodes ∧
        c.toNode ∈ (g.addNode toolExecutor).getNodes := by
    intro c hc
    obtain rfl | ⟨cn, hcn, rfl⟩ := mem_addedConnections.mp hc
    · exact ⟨hkept tool htool, mem_getNodes_addNode.mpr (.inl rfl)⟩
    · have hfrom := (hg cn (mem_mainConnectionsInto.mp hcn).1).1
      exact ⟨hkept _ hfrom, mem_getNodes_addNode.mpr (.inl rfl)⟩
  rw [rewireGraph_of_lastChild hg htool hlast, addConnections_of_mem hends]
  exact ⟨_, rfl, rfl⟩

/-! ### When the executor stands in the place of the agent -/

theorem IsRewired.last_eq {last : INode} (hmem : last ∈ g.getNodes)
    (h : g.IsRewired tool root (g.withExecutor tool last)) : last = root := by
  by_contra hne
  have hexec : last ≠ toolExecutor := fun heq => h.fresh (heq ▸ hmem)
  exact (mem_getNodes_withExecutor.mp ((h.nodes last hne hexec).mpr hmem)).2 rfl

/-- The name of the executor is not used in the graph. -/
theorem IsRewired.hasNode_eq_false
    (h : g.IsRewired tool root (g.withExecutor tool root)) :
    g.hasNode toolExecutor.name = false := by
  rw [Bool.eq_false_iff]
  intro hhas
  obtain ⟨n, hn, hname⟩ := hasNode_iff.mp hhas
  have hexec := mem_getNodes_withExecutor.mp h.executor
  have hne : n ≠ root := fun heq => hexec.2 (heq ▸ hname.symm)
  have hnew : n ≠ toolExecutor := fun heq => h.fresh (heq ▸ hn)
  have hkept := mem_getNodes_withExecutor.mp ((h.nodes n hne hnew).mpr hn)
  exact hkept.1.elim hnew fun hother => hother.1 hname

theorem isRewired_withExecutor_iff (hg : g.Closed)
    (hroot : root ∈ g.getNodes) (hne : tool ≠ root) :
    g.IsRewired tool root (g.withExecutor tool root) ↔
      g.hasNode toolExecutor.name = false ∧
      (∀ c ∈ g.mainConnectionsInto root,
        c.outputIndex = 0 ∧ c.inputIndex = 0 ∧ c.fromNode ≠ root) ∧
      ∀ a ∈ g.addedConnections tool root, ∀ c ∈ g.getConnections,
        (∀ n ∈ [root, tool], c.fromNode ≠ n ∧ c.toNode ≠ n) → makeKey a ≠ makeKey c := by
  have hto : ∀ a ∈ g.addedConnections tool root, a.toNode = toolExecutor := by
    intro a ha
    obtain rfl | ⟨cn, -, rfl⟩ := mem_addedConnections.mp ha <;> rfl
  constructor
  · intro h
    have hold : ∀ c ∈ g.getConnections, c.fromNode ≠ toolExecutor ∧ c.toNode ≠ toolExecutor :=
      fun c hc => ⟨fun heq => h.fresh (heq ▸ (hg c hc).1), fun heq => h.fresh (heq ▸ (hg c hc).2)⟩
    refine ⟨h.hasNode_eq_false, fun c hc => ?_, fun a ha c hc hends hkey => ?_⟩
    · -- The connection with its indexes is one of those that were added.
      obtain ⟨hc, hroot, hmain⟩ := mem_mainConnectionsInto.mp hc
      obtain ⟨hadded | ⟨hmem, -⟩, hfrom, -⟩ :=
        (mem_getConnections_withExecutor hg).mp (h.incoming c hc hmain hroot)
      · obtain heq | ⟨cn, -, heq⟩ := mem_addedConnections.mp hadded
        · have htype := congrArg GraphConnection.type heq
          rw [toolConnection, hmain] at htype
          cases htype
        · have hout := congrArg GraphConnection.outputIndex heq
          have hin := congrArg GraphConnection.inputIndex heq
          exact ⟨hout.symm, hin.symm, hfrom⟩
      · exact absurd rfl (hold _ hmem).2
    · -- A connection of the graph is still there, so no other one was set under its key.
      have hkept := (h.connections c (by simpa [hold c hc] using hends)).mpr hc
      obtain ⟨hadded | ⟨-, hkeys⟩, -⟩ := (mem_getConnections_withExecutor hg).mp hkept
      · exact (hold c hc).2 (hto c hadded)
      · exact hkeys a ha hkey
  · rintro ⟨hname, hindexes, hkeys⟩
    have hother : ∀ n ∈ g.getNodes, n.name ≠ toolExecutor.name := fun n hn heq =>
      Bool.false_ne_true (hname.symm.trans (hasNode_iff.mpr ⟨n, hn, heq⟩))
    have hexec : toolExecutor ≠ root := fun heq => hother root hroot (heq ▸ rfl)
    exact {
      fresh := fun hmem => hother _ hmem rfl
      executor := mem_getNodes_withExecutor.mpr ⟨.inl rfl, fun heq => hother root hroot heq.symm⟩
      incoming := by
        intro c hc hmain hinto
        have hcn := mem_mainConnectionsInto.mpr ⟨hc, hinto, hmain⟩
        obtain ⟨hout, hin, hfrom⟩ := hindexes c hcn
        have hsame : { c with toNode := toolExecutor } = executorConnection c := by
          rw [executorConnection, hout, hin]
        refine (mem_getConnections_withExecutor hg).mpr ⟨.inl ?_, hfrom, hexec⟩
        exact mem_addedConnections.mpr (.inr ⟨c, hcn, hsame.symm⟩)
      attached := (mem_getConnections_withExecutor hg).mpr
        ⟨.inl (mem_addedConnections.mpr (.inl rfl)), hne, hexec⟩
      connections := by
        intro c hends
        have hnew : c ∉ g.addedConnections tool root := fun ha =>
          (hends toolExecutor (by simp)).2 (hto c ha)
        rw [mem_getConnections_withExecutor hg]
        constructor
        · rintro ⟨ha | ⟨hc, -⟩, -⟩
          · exact absurd ha hnew
          · exact hc
        · intro hc
          refine ⟨.inr ⟨hc, fun a ha => hkeys a ha c hc fun n hn => hends n ?_⟩, ?_⟩
          · simp only [List.mem_cons, List.not_mem_nil, or_false] at hn ⊢
            tauto
          · exact hends root List.mem_cons_self
      nodes := by
        intro n hn hnew
        rw [mem_getNodes_withExecutor]
        constructor
        · rintro ⟨heq | ⟨-, hmem⟩, -⟩
          · exact absurd heq hnew
          · exact hmem
        · intro hmem
          exact ⟨.inr ⟨hother n hmem, hmem⟩, fun heq => hn (eq_of_name_eq hmem hroot heq)⟩ }

/-- The executor stands in the place of the agent exactly if the agent is the last child of the tool
that is listed, the name of the executor is not in use, every main connection into the agent comes
from another node and has the indexes `0`, and no connection between other nodes has the key of one
that is added. -/
theorem replacesAgent_iff (hg : g.Closed) (htool : TransGen g.SubNodeStep tool root)
    (hagent : ∀ c ∈ g.getConnections, c.fromNode = root → c.type = .main) :
    ReplacesAgent stringify agentRequest rewireOutputLogTo g tool root ↔
      g.lastChild tool = some root ∧ g.hasNode toolExecutor.name = false ∧
      (∀ c ∈ g.mainConnectionsInto root,
        c.outputIndex = 0 ∧ c.inputIndex = 0 ∧ c.fromNode ≠ root) ∧
      ∀ a ∈ g.addedConnections tool root, ∀ c ∈ g.getConnections,
        (∀ n ∈ [root, tool], c.fromNode ≠ n ∧ c.toNode ≠ n) → makeKey a ≠ makeKey c := by
  have hpath : TransGen g.Step tool root := 
    TransGen.mono (fun _ _ => SubNodeStep.step) _ _ htool
  obtain ⟨_, ⟨c, hc, htype, hfrom, -⟩, -⟩ := TransGen.head'_iff.mp htool
  have hmem : tool ∈ g.getNodes := hfrom ▸ (hg c hc).1
  have hne : tool ≠ root := fun heq => htype (hagent c hc (hfrom.trans heq))
  obtain ⟨_, -, hstep⟩ := TransGen.tail'_iff.mp hpath
  have hroot : root ∈ g.getNodes := (mem_getNodes_of_step hg hstep).2
  constructor
  · rintro ⟨rewired, hrewired, h⟩
    obtain ⟨children, hchildren, hreached⟩ := exists_getChildren_eq_ok hg hmem
    obtain ⟨last, hlast⟩ : ∃ last, g.lastChild tool = some last := by
      have hne : children.elements ≠ [] :=
        List.ne_nil_of_mem (InsertionSet.mem_def.mp ((hreached root).mpr hpath))
      exact ⟨_, (lastChild_eq_some hg hmem).mpr
        ⟨children, hchildren, List.getLast?_eq_some_getLast hne⟩⟩
    rw [graph_of_rewireGraph hg hmem hlast hrewired] at h
    have hlastmem : last ∈ g.getNodes := by
      obtain ⟨_, -, hstep⟩ := TransGen.tail'_iff.mp (transGen_of_lastChild hg hmem hlast)
      exact (mem_getNodes_of_step hg hstep).2
    obtain rfl := h.last_eq hlastmem
    exact ⟨hlast, (isRewired_withExecutor_iff hg hroot hne).mp h⟩
  · rintro ⟨hlast, hname, hrest⟩
    obtain ⟨rewired, hrewired, hgraph⟩ := exists_rewireGraph_eq_ok hg hmem hname hlast
    refine ⟨rewired, hrewired, ?_⟩
    rw [hgraph]
    exact (isRewired_withExecutor_iff hg hroot hne).mpr ⟨hname, hrest⟩

/-! ### A tool of an agent behind a trigger -/

private def trigger : INode := { name := "Trigger" }

private def agentRoot : INode := { name := "Agent" }

private def calculator : INode := { name := "Calculator" }

/-- A trigger in front of an agent with one tool. -/
private def calculatorGraph (outputIndex : ℕ) : DirectedGraph :=
  ((empty.addNodes [trigger, agentRoot, calculator]).setConnection
    { fromNode := trigger, toNode := agentRoot, outputIndex }).setConnection
    { fromNode := calculator, toNode := agentRoot, type := .aiTool }

/-- Behind the first output of the trigger the agent is replaced as it should be. -/
theorem replacesAgent_firstOutput :
    ReplacesAgent (fun _ => "\x7b\x7d") none .empty (calculatorGraph 0) calculator agentRoot := by
  refine (replacesAgent_iff (by decide +kernel) (.single ?_) (by decide +kernel)).mpr ?_
  · exact ⟨{ fromNode := calculator, toNode := agentRoot, type := .aiTool }, by decide +kernel,
      by decide, rfl, rfl⟩
  · decide +kernel

/-- Behind the second output, the executor is connected to the first one. -/
theorem not_replacesAgent_secondOutput :
    ¬ ReplacesAgent (fun _ => "\x7b\x7d") none .empty (calculatorGraph 1) calculator agentRoot := by
  rintro ⟨rewired, hrewired, h⟩
  have hmem := h.incoming { fromNode := trigger, toNode := agentRoot, outputIndex := 1 }
    (by decide +kernel) rfl rfl
  have hconnections : (rewireGraph (fun _ => "\x7b\x7d") calculator (calculatorGraph 1) none
      .empty).toOption.map (·.graph.getConnections)
        = some [toolConnection calculator, { fromNode := trigger, toNode := toolExecutor }] := by
    decide +kernel
  rw [hrewired] at hconnections
  have hall : rewired.graph.getConnections = _ := Option.some.inj hconnections
  rw [hall] at hmem
  exact absurd hmem (by decide)

end DirectedGraph

end N8n
