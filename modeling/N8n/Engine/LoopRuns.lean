import N8n.Engine.ExecutionLoop
import N8n.Foundations.Transition

/-!
# Runs of the execution loop

The loop of `processRunExecutionData` as a system of its own: a state is the loop with what its
last iteration came to, and a step is an iteration with the answers that the nodes gave in it.
-/

namespace N8n

open Transition

namespace EngineRequests

open WorkflowExecute

/-- The loop without the first entry of its stack. -/
def withStack (loop : Loop) (stack : List IExecuteData) : Loop :=
  { loop with execution := { loop.execution with nodeExecutionStack := stack } }

end EngineRequests

namespace WorkflowExecute

open EngineRequests (withStack)

/-- The loop, and what its last iteration came to. -/
structure LoopState where
  loop : Loop
  last : Option Iteration := none
  deriving DecidableEq

variable (w : Workflow) (env : NodeFunctions)

/-- Run an entry that was taken from the stack. A node that is missing in the workflow is
`undefined`, and its name cannot be read. -/
def runEntry (calls : List NodeCall) (executionData : IExecuteData) (loop : Loop) :
    Loop × Iteration :=
  if executionData.node = default then
    ({ loop with
        currentNodeExecutionIndex := loop.currentNodeExecutionIndex + 1
        ended := some (.threw .typeError) }, .threw)
  else (iterate w env calls executionData loop).1

/-- One iteration, as long as the loop has not ended and the stack is not empty. -/
def nextIteration (s : LoopState) (calls : List NodeCall) : Option LoopState :=
  match s.loop.ended, s.loop.execution.nodeExecutionStack with
  | none, executionData :: stack =>
    let r := runEntry w env calls executionData (withStack s.loop stack)
    some { loop := r.1, last := some r.2 }
  | _, _ => none

abbrev loopStep (s : LoopState) (calls : List NodeCall) (t : LoopState) : Prop :=
  nextIteration w env s calls = some t

variable {w env} {s t : LoopState} {calls : List NodeCall}

/-- What a step is. -/
theorem loopStep_cases (h : loopStep w env s calls t) :
    ∃ executionData stack, s.loop.ended = none ∧
      s.loop.execution.nodeExecutionStack = executionData :: stack ∧
      t.loop = (runEntry w env calls executionData (withStack s.loop stack)).1 ∧
      t.last = some (runEntry w env calls executionData (withStack s.loop stack)).2 := by
  rw [loopStep, nextIteration] at h
  split at h
  next executionData stack hended hstack =>
    obtain rfl := Option.some.inj h
    exact ⟨executionData, stack, hended, hstack, rfl, rfl⟩
  next => cases h

/-! ### Acyclic workflows -/

/-- A main output of the node is connected to the other node. -/
def LeadsTo (w : Workflow) (nodeName child : String) : Prop :=
  ∃ output ∈ outputConnections w nodeName, output.2.node = child

/-- No node is behind itself. -/
def IsAcyclic (w : Workflow) : Prop := ∀ nodeName, ¬Relation.TransGen (LeadsTo w) nodeName nodeName

theorem mem_keys_of_leadsTo {nodeName child : String} (h : LeadsTo w nodeName child) :
    nodeName ∈ w.connectionsBySourceNode.keys := by
  obtain ⟨output, houtput, _⟩ := h
  by_contra hnot
  rw [outputConnections, InsertionMap.get?_eq_none_iff.mpr hnot] at houtput
  exact List.not_mem_nil houtput

/-- Connections that all lead to a node of a lower rank make no cycle. -/
theorem isAcyclic_of_rank (rank : String → ℕ)
    (h : ∀ nodeName ∈ w.connectionsBySourceNode.keys, ∀ output ∈ outputConnections w nodeName,
      rank output.2.node < rank nodeName) : IsAcyclic w := by
  have hlt : ∀ nodeName child, Relation.TransGen (LeadsTo w) nodeName child →
      rank child < rank nodeName := by
    intro nodeName child hreach
    have hstep : ∀ nodeName child, LeadsTo w nodeName child → rank child < rank nodeName := by
      intro nodeName child hleads
      have hmem := mem_keys_of_leadsTo hleads
      obtain ⟨output, houtput, rfl⟩ := hleads
      exact h nodeName hmem output houtput
    induction hreach with
    | single hleads => exact hstep _ _ hleads
    | tail _ hleads ih => exact (hstep _ _ hleads).trans ih
  exact fun nodeName hcycle => (hlt nodeName nodeName hcycle).false

end WorkflowExecute

end N8n
