import N8n.PartialExecution.GraphTraversal

/-!
# Cleaning run data

`cleanRunData` takes the run data of the nodes to clean and of the nodes behind them, and that of
their sub-nodes, out of a copy of the run data. It looks for the sub-nodes among all connections
that lead up from such a node. Of these it skips the main ones, but not the ones that are found
further up behind a main connection, and so it also takes the sub-nodes of agents in front of a node
to clean. Exactly where there is run data of such sub-nodes, too much is taken
(`keepsReusable_iff`).
-/

universe u v w

namespace InsertionMap

variable {κ : Type u} {α : Type v} {ε : Type w} [DecidableEq κ]

/-- The entries of one map are those of another one, besides the entries with these keys. -/
def Drops (p : κ → Prop) (m m' : InsertionMap κ α) : Prop :=
  ∀ k a, m'.get? k = some a ↔ m.get? k = some a ∧ ¬ p k

variable {p q : κ → Prop} {m m' m'' : InsertionMap κ α}

theorem drops_erase (k : κ) (m : InsertionMap κ α) : Drops (· = k) m (m.erase k) := by
  intro k' a
  rw [get?_erase]
  split_ifs with h
  · simp [h]
  · simp [h]

theorem Drops.refl (m : InsertionMap κ α) : Drops (fun _ => False) m m :=
  fun _ _ => (and_iff_left id).symm

theorem Drops.trans (h : Drops p m m') (h' : Drops q m' m'') :
    Drops (fun k => p k ∨ q k) m m'' := by
  intro k a
  rw [h', h, not_or, and_assoc]

theorem Drops.congr (h : Drops p m m') (hpq : ∀ k, p k ↔ q k) : Drops q m m' := by
  intro k a
  rw [h, hpq]

/-- A loop whose turns drop entries, and none of which fails. -/
theorem exists_foldlM_drops {β : Type v} {f : InsertionMap κ α → β → Except ε (InsertionMap κ α)}
    {r : β → κ → Prop} {l : List β}
    (hstep : ∀ b ∈ l, ∀ m, ∃ m', f m b = .ok m' ∧ Drops (r b) m m') (m : InsertionMap κ α) :
    ∃ m', l.foldlM f m = .ok m' ∧ Drops (fun k => ∃ b ∈ l, r b k) m m' := by
  induction l generalizing m with
  | nil => exact ⟨m, rfl, (Drops.refl m).congr fun k => by simp⟩
  | cons b l ih =>
    obtain ⟨m₁, hb, hdrop⟩ := hstep b List.mem_cons_self m
    obtain ⟨m', hl, hdrops⟩ := ih (fun b hb => hstep b (List.mem_cons_of_mem _ hb)) m₁
    refine ⟨m', ?_, (hdrop.trans hdrops).congr fun k => ?_⟩
    · rw [List.foldlM_cons, hb]
      exact hl
    · rw [List.exists_mem_cons_iff]

/-- The same without failures. -/
theorem foldl_drops {β : Type v} {f : InsertionMap κ α → β → InsertionMap κ α}
    {r : β → κ → Prop} {l : List β} (hstep : ∀ b ∈ l, ∀ m, Drops (r b) m (f m b))
    (m : InsertionMap κ α) : Drops (fun k => ∃ b ∈ l, r b k) m (l.foldl f m) := by
  induction l generalizing m with
  | nil => exact (Drops.refl m).congr fun k => by simp
  | cons b l ih =>
    have hdrop := hstep b List.mem_cons_self m
    have hdrops := ih (fun b hb => hstep b (List.mem_cons_of_mem _ hb)) (f m b)
    refine (hdrop.trans hdrops).congr fun k => ?_
    rw [List.exists_mem_cons_iff]

/-- A loop that erases some keys. -/
theorem drops_ite_erase (c : Prop) [Decidable c] (k : κ) (m : InsertionMap κ α) :
    Drops (fun k' => ¬ c ∧ k' = k) m (if c then m else m.erase k) := by
  split_ifs with h
  · exact (Drops.refl m).congr fun k' => by simp [h]
  · exact (drops_erase k m).congr fun k' => by simp [h]

end InsertionMap

namespace N8n

namespace DirectedGraph

open Relation InsertionMap

/-! ### The function -/

/-- Delete the run data of a node and of what it takes for the sub-nodes of that node. -/
def cleanNode (g : DirectedGraph) (newRunData : IRunData) (node : INode) :
    Except GraphError IRunData := do
  let newRunData := newRunData.erase node.name
  let subNodeConnections ← g.getParentConnections node
  return subNodeConnections.elements.foldl (fun newRunData subNodeConnection =>
    if subNodeConnection.type = .main then newRunData
    else newRunData.erase subNodeConnection.fromNode.name) newRunData

def cleanRunData (runData : IRunData) (g : DirectedGraph) (nodesToClean : InsertionSet INode) :
    Except GraphError IRunData := do
  let newRunData ← nodesToClean.elements.foldlM (fun newRunData nodeToClean => do
    let newRunData := newRunData.erase nodeToClean.name
    let children ← g.getChildren nodeToClean
    (nodeToClean :: children.elements).foldlM g.cleanNode newRunData) runData
  return newRunData.keys.foldl (fun newRunData nodeName =>
    if g.hasNode nodeName then newRunData else newRunData.erase nodeName) newRunData

/-! ### What is taken -/

variable {g : DirectedGraph} {nodesToClean : InsertionSet INode} {runData : IRunData}

/-- One of the nodes to clean, or a node behind one. -/
def IsCleaned (g : DirectedGraph) (nodesToClean : InsertionSet INode) (v : INode) : Prop :=
  ∃ node ∈ nodesToClean, ReflTransGen g.Step node v

/-- The node is cleaned, or is a sub-node of a node that is. -/
def IsOutdated (g : DirectedGraph) (nodesToClean : InsertionSet INode) (u : INode) : Prop :=
  ∃ v, IsCleaned g nodesToClean v ∧ ReflTransGen g.SubNodeStep u v

/-- The node is used as a sub-node by a node in front of one that is cleaned, or by a cleaned node
itself. -/
def FeedsCleaned (g : DirectedGraph) (nodesToClean : InsertionSet INode) (u : INode) : Prop :=
  ∃ agent, g.SubNodeStep u agent ∧
    ∃ v, IsCleaned g nodesToClean v ∧ ReflTransGen g.Step agent v

theorem exists_cleanNode_eq_ok (hg : g.Closed) {node : INode} (hnode : node ∈ g.getNodes)
    (newRunData : IRunData) :
    ∃ cleaned, g.cleanNode newRunData node = .ok cleaned ∧
      Drops (fun name => name = node.name ∨ ∃ c ∈ g.getConnections,
        c.type ≠ .main ∧ ReflTransGen g.Step c.toNode node ∧ name = c.fromNode.name)
        newRunData cleaned := by
  obtain ⟨connections, hconnections, hmem⟩ := exists_getParentConnections_eq_ok hg hnode
  rw [cleanNode, hconnections]
  refine ⟨_, rfl, ?_⟩
  have hdrops : Drops (fun name => ∃ c ∈ connections.elements, c.type ≠ .main ∧
      name = c.fromNode.name) (newRunData.erase node.name) _ :=
    foldl_drops (fun c _ newRunData =>
      drops_ite_erase (c.type = .main) c.fromNode.name newRunData) _
  refine ((drops_erase node.name newRunData).trans hdrops).congr fun name => or_congr_right ?_
  refine exists_congr fun c => ?_
  rw [← InsertionSet.mem_def, hmem]
  tauto

/-- **What `cleanRunData` takes**: the run data of the nodes that are not in the graph, of the
cleaned nodes, and of all that feeds a node in front of these as a sub-node. -/
theorem exists_cleanRunData_eq_ok (hg : g.Closed)
    (hnodes : ∀ node ∈ nodesToClean, node ∈ g.getNodes) (runData : IRunData) :
    ∃ cleaned, cleanRunData runData g nodesToClean = .ok cleaned ∧ ∀ name tasks,
      cleaned.get? name = some tasks ↔ runData.get? name = some tasks ∧
        ∃ node ∈ g.getNodes, node.name = name ∧
          ¬ (IsCleaned g nodesToClean node ∨ FeedsCleaned g nodesToClean node) := by
  have hreached {node v : INode} (hnode : node ∈ g.getNodes) (h : ReflTransGen g.Step node v) :
      v ∈ g.getNodes := by
    obtain rfl | ⟨u, -, hstep⟩ := h.cases_tail
    · exact hnode
    · exact (mem_getNodes_of_step hg hstep).2
  -- what is taken for one of the nodes to clean
  have hturn : ∀ node ∈ nodesToClean.elements, ∀ newRunData : IRunData, ∃ cleaned,
      (do
        let newRunData := newRunData.erase node.name
        let children ← g.getChildren node
        (node :: children.elements).foldlM g.cleanNode newRunData) = .ok cleaned ∧
      Drops (fun name => ∃ v, ReflTransGen g.Step node v ∧
        (name = v.name ∨ ∃ c ∈ g.getConnections,
          c.type ≠ .main ∧ ReflTransGen g.Step c.toNode v ∧ name = c.fromNode.name))
        newRunData cleaned := by
    intro node hnode newRunData
    obtain ⟨children, hchildren, hmem⟩ := exists_getChildren_eq_ok hg (hnodes node hnode)
    have hlist (v : INode) : v ∈ node :: children.elements ↔ ReflTransGen g.Step node v := by
      rw [List.mem_cons, ← InsertionSet.mem_def, hmem, reflTransGen_iff_eq_or_transGen]
    obtain ⟨cleaned, hcleaned, hdrops⟩ := exists_foldlM_drops (f := g.cleanNode)
      (l := node :: children.elements) (fun v hv newRunData => exists_cleanNode_eq_ok hg
        (hreached (hnodes node hnode) ((hlist v).mp hv)) newRunData) (newRunData.erase node.name)
    refine ⟨cleaned, ?_, ((drops_erase node.name newRunData).trans hdrops).congr fun name => ?_⟩
    · rw [hchildren]
      exact hcleaned
    · simp only [hlist]
      refine ⟨?_, .inr⟩
      rintro (rfl | h)
      · exact ⟨node, .refl, .inl rfl⟩
      · exact h
  obtain ⟨cleaned, hcleaned, hdrops⟩ := exists_foldlM_drops hturn runData
  have hothers : Drops (fun name => ∃ nodeName ∈ cleaned.keys,
      ¬ g.hasNode nodeName = true ∧ name = nodeName) cleaned _ :=
    foldl_drops (fun nodeName _ newRunData =>
      drops_ite_erase (g.hasNode nodeName = true) nodeName newRunData) cleaned
  refine ⟨_, by rw [cleanRunData, hcleaned]; rfl, fun name tasks => ?_⟩
  rw [hothers name tasks, hdrops name tasks]
  constructor
  · rintro ⟨hkept, hknown⟩
    have hkey : name ∈ cleaned.keys :=
      InsertionMap.mem_keys.mpr ⟨tasks, InsertionMap.get?_eq_some_iff.mp
        ((hdrops name tasks).mpr hkept)⟩
    obtain ⟨node, hnode, rfl⟩ := hasNode_iff.mp (by_contra fun hno => hknown ⟨name, hkey, hno, rfl⟩)
    refine ⟨hkept.1, node, hnode, rfl, ?_⟩
    rintro (⟨start, hstart, hpath⟩ | ⟨agent, ⟨c, hc, htype, rfl, rfl⟩, v, hcleaned, hup⟩)
    · exact hkept.2 ⟨start, hstart, node, hpath, .inl rfl⟩
    · obtain ⟨start, hstart, hpath⟩ := hcleaned
      exact hkept.2 ⟨start, hstart, v, hpath, .inr ⟨c, hc, htype, hup, rfl⟩⟩
  · rintro ⟨hrun, node, hnode, rfl, hnot⟩
    refine ⟨⟨hrun, ?_⟩, ?_⟩
    · rintro ⟨start, hstart, v, hpath, hname | ⟨c, hc, htype, hup, hname⟩⟩
      · obtain rfl := eq_of_name_eq hnode (hreached (hnodes start hstart) hpath) hname
        exact hnot (.inl ⟨start, hstart, hpath⟩)
      · obtain rfl := eq_of_name_eq hnode (hg c hc).1 hname
        exact hnot (.inr ⟨c.toNode, ⟨c, hc, htype, rfl, rfl⟩, v, ⟨start, hstart, hpath⟩, hup⟩)
    · rintro ⟨nodeName, -, hno, rfl⟩
      exact hno (hasNode_iff.mpr ⟨node, hnode, rfl⟩)

/-! ### When all reusable run data is kept -/

/-- The run data of the nodes of the graph that are not outdated is kept, and nothing else is. -/
def KeepsReusable (runData : IRunData) (g : DirectedGraph) (nodesToClean : InsertionSet INode) :
    Prop :=
  ∃ cleaned, cleanRunData runData g nodesToClean = .ok cleaned ∧ ∀ name tasks,
    cleaned.get? name = some tasks ↔ runData.get? name = some tasks ∧
      ∃ node ∈ g.getNodes, node.name = name ∧ ¬ IsOutdated g nodesToClean node

/-- What is outdated is taken. -/
theorem IsOutdated.taken {u : INode} (h : IsOutdated g nodesToClean u) :
    IsCleaned g nodesToClean u ∨ FeedsCleaned g nodesToClean u := by
  obtain ⟨v, hv, hpath⟩ := h
  obtain rfl | ⟨agent, hfirst, hrest⟩ := hpath.cases_head
  · exact .inl hv
  · have hup : ReflTransGen g.Step agent v :=
      ReflTransGen.mono (fun _ _ => SubNodeStep.step) _ _ hrest
    exact .inr ⟨agent, hfirst, v, hv, hup⟩

/-- **When all reusable run data is kept**: a node with run data that is used as a sub-node in front
of a cleaned node is itself cleaned, or a sub-node of a node that is. -/
theorem keepsReusable_iff (hg : g.Closed) (hnodes : ∀ node ∈ nodesToClean, node ∈ g.getNodes)
    (runData : IRunData) :
    KeepsReusable runData g nodesToClean ↔
      ∀ node ∈ g.getNodes, runData.has node.name = true → FeedsCleaned g nodesToClean node →
        IsOutdated g nodesToClean node := by
  obtain ⟨cleaned, hcleaned, htaken⟩ := exists_cleanRunData_eq_ok hg hnodes runData
  constructor
  · rintro ⟨cleaned', hcleaned', hkept⟩ node hnode hrun hfeeds
    obtain rfl := Except.ok.inj (hcleaned.symm.trans hcleaned')
    obtain ⟨tasks, htasks⟩ := Option.isSome_iff_exists.mp hrun
    by_contra hnot
    have hget := (hkept node.name tasks).mpr ⟨htasks, node, hnode, rfl, hnot⟩
    obtain ⟨-, node', hnode', hname, hnot'⟩ := (htaken node.name tasks).mp hget
    obtain rfl := eq_of_name_eq hnode' hnode hname
    exact hnot' (.inr hfeeds)
  · intro h
    refine ⟨cleaned, hcleaned, fun name tasks => (htaken name tasks).trans ?_⟩
    refine and_congr_right fun hrun => exists_congr fun node => and_congr_right fun hnode =>
      and_congr_right fun hname => not_congr ⟨?_, IsOutdated.taken⟩
    rintro (hcleans | hfeeds)
    · exact ⟨node, hcleans, .refl⟩
    · refine h node hnode ?_ hfeeds
      rw [hname, InsertionMap.has, hrun]
      rfl

/-! ### An agent in front of the node to clean -/

private def model : INode := { name := "Model" }

private def agent : INode := { name := "Agent" }

private def set : INode := { name := "Set" }

/-- An agent with a model as its sub-node, and a node behind the agent. -/
private def agentGraph : DirectedGraph :=
  ((empty.addNodes [model, agent, set]).setConnection
    { fromNode := model, toNode := agent, type := .aiLanguageModel }).setConnection
    { fromNode := agent, toNode := set }

private def agentRunData : IRunData :=
  (InsertionMap.empty.set "Model" []).set "Agent" []

private theorem toNode_of_subNode :
    ∀ c ∈ agentGraph.getConnections, c.type ≠ .main → c.toNode = agent := by decide +kernel

/-- With the agent itself to clean, the run data of the model goes with it. -/
theorem keepsReusable_agent : KeepsReusable agentRunData agentGraph (.ofList [agent]) := by
  have hclosed : agentGraph.Closed := by decide +kernel
  refine (keepsReusable_iff hclosed (by decide +kernel) agentRunData).mpr ?_
  rintro node - - ⟨v, ⟨c, hc, htype, rfl, rfl⟩, -⟩
  have hmem : agent ∈ InsertionSet.ofList [agent] := by decide +kernel
  exact ⟨agent, ⟨agent, hmem, .refl⟩, .single ⟨c, hc, htype, rfl, toNode_of_subNode c hc htype⟩⟩

/-- With the node behind the agent to clean, the run data of the model goes too. -/
theorem not_keepsReusable_set : ¬ KeepsReusable agentRunData agentGraph (.ofList [set]) := by
  rintro ⟨cleaned, hcleaned, hkept⟩
  have hnot : ¬ IsOutdated agentGraph (.ofList [set]) model := by
    rintro ⟨v, ⟨start, hstart, hpath⟩, hsub⟩
    obtain rfl : start = set := by simpa using hstart
    obtain rfl : v = set := by
      obtain rfl | ⟨u, ⟨c, hc, hfrom, -⟩, -⟩ := hpath.cases_head
      · rfl
      · have hend : ∀ c ∈ agentGraph.getConnections, c.fromNode ≠ set := by decide +kernel
        exact absurd hfrom (hend c hc)
    obtain heq | ⟨u, -, c, hc, htype, -, hto⟩ := hsub.cases_tail
    · exact absurd heq (by decide)
    · exact absurd (hto.symm.trans (toNode_of_subNode c hc htype)) (by decide)
  have hmodel : cleaned.get? "Model" = some [] := by
    refine (hkept "Model" []).mpr ⟨by decide, model, ?_, rfl, hnot⟩
    decide +kernel
  have htaken : (cleanRunData agentRunData agentGraph (.ofList [set])).toOption.bind
      (·.get? "Model") = none := by decide +kernel
  rw [hcleaned] at htaken
  exact Option.some_ne_none _ (hmodel.symm.trans htaken)

end DirectedGraph

end N8n
