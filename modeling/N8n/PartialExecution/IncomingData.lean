import N8n.Foundations.ExceptFold
import N8n.PartialExecution.DirectedGraph

/-!
# Reading run data

The planner looks up what a node has put out on one of its outputs, in a given run or in
the first run with data. The lookup throws when the run has data but none under the
connection type asked for: of the chain of property accesses, the last one is not
optional.
-/

namespace N8n

/-- `Array.prototype.at`: a negative index counts from the end. -/
def atIndex {α : Type} (l : List α) (i : ℤ) : Option α :=
  if 0 ≤ i then l[i.toNat]?
  else if -i ≤ l.length then l[(l.length + i).toNat]?
  else none

/-- The runs of a node, none when it did not run. -/
def IRunData.runs (runData : IRunData) (nodeName : String) : List ITaskData :=
  (runData.get? nodeName).getD []

/-- What a run has put out on one output. -/
def ITaskData.output (run : ITaskData) (connectionType : NodeConnectionType)
    (outputIndex : ℕ) : Option (List INodeExecutionData) :=
  ((run.data.bind (·.get? connectionType)).bind (·[outputIndex]?)).bind Slot.toOption

/-- `run.data?.[connectionType].at(outputIndex) ?? null`. -/
def readOutput (run : ITaskData) (connectionType : NodeConnectionType) (outputIndex : ℕ) :
    Except GraphError (Option (List INodeExecutionData)) :=
  match run.data with
  | none => .ok none
  | some data =>
    match data.get? connectionType with
    | none => .error .typeError
    | some outputs => .ok (outputs[outputIndex]?.bind Slot.toOption)

def getIncomingData (runData : IRunData) (nodeName : String) (runIndex : ℤ)
    (connectionType : NodeConnectionType) (outputIndex : ℕ) :
    Except GraphError (Option (List INodeExecutionData)) :=
  match atIndex (runData.runs nodeName) runIndex with
  | none => .ok none
  | some run => readOutput run connectionType outputIndex

def getRunIndexLength (runData : IRunData) (nodeName : String) : ℕ :=
  (runData.runs nodeName).length

/-- The data of the first run that has any on the output, with the index of that run. -/
def getIncomingDataFromAnyRun (runData : IRunData) (nodeName : String)
    (connectionType : NodeConnectionType) (outputIndex : ℕ) :
    Except GraphError (Option (List INodeExecutionData × ℕ)) :=
  (List.range (getRunIndexLength runData nodeName)).findSomeM? fun (runIndex : ℕ) => do
    let data ← getIncomingData runData nodeName runIndex connectionType outputIndex
    match data with
    | none => .ok none
    | some data => .ok (if data.length > 0 then some (data, runIndex) else none)

/-! ### What the lookups return -/

/-- When a run has data, it has some (possibly empty) of this connection type. -/
def ITaskData.HasType (run : ITaskData) (connectionType : NodeConnectionType) : Prop :=
  ∀ data, run.data = some data → ∃ outputs, data.get? connectionType = some outputs

instance (run : ITaskData) (connectionType : NodeConnectionType) :
    Decidable (run.HasType connectionType) :=
  decidable_of_iff (∀ data ∈ run.data, (data.get? connectionType).isSome)
    (forall₂_congr fun _ _ => Option.isSome_iff_exists)

/-- Some run of the node has data on the output. -/
def HasRunData (runData : IRunData) (nodeName : String) (connectionType : NodeConnectionType)
    (outputIndex : ℕ) : Prop :=
  ∃ run ∈ runData.runs nodeName, ∃ data, run.output connectionType outputIndex = some data ∧
    data ≠ []

instance (runData : IRunData) (nodeName : String) (connectionType : NodeConnectionType)
    (outputIndex : ℕ) : Decidable (HasRunData runData nodeName connectionType outputIndex) :=
  decidable_of_iff (∃ run ∈ runData.runs nodeName,
      (run.output connectionType outputIndex).any (fun data => decide (data ≠ [])) = true) <| by
    simp only [HasRunData, Option.any_eq_true, decide_eq_true_eq]

variable {run : ITaskData} {runData : IRunData} {nodeName : String}
  {type : NodeConnectionType} {outputIndex : ℕ} {o : Option (List INodeExecutionData)}

theorem eq_output_of_readOutput (h : readOutput run type outputIndex = .ok o) :
    o = run.output type outputIndex := by
  rw [readOutput] at h
  rw [ITaskData.output]
  rcases hd : run.data with _ | data
  · rw [hd] at h
    exact (Except.ok.inj h).symm
  · rw [hd] at h
    rcases ho : data.get? type with _ | outputs
    · simp only [ho] at h
      cases h
    · simp only [ho] at h
      rw [← Except.ok.inj h, Option.bind_some, ho, Option.bind_some]

theorem exists_readOutput_eq_ok (h : run.HasType type) (outputIndex : ℕ) :
    ∃ o, readOutput run type outputIndex = .ok o := by
  rw [readOutput]
  rcases hd : run.data with _ | data
  · exact ⟨none, rfl⟩
  · obtain ⟨outputs, ho⟩ := h data hd
    simp only [ho]
    exact ⟨_, rfl⟩

@[simp] theorem atIndex_natCast {α : Type} (l : List α) (i : ℕ) : atIndex l (i : ℤ) = l[i]? := by
  rw [atIndex, if_pos (Int.natCast_nonneg i), Int.toNat_natCast]

@[simp] theorem atIndex_neg_one {α : Type} (l : List α) : atIndex l (-1) = l.getLast? := by
  rw [atIndex, if_neg (by omega), List.getLast?_eq_getElem?]
  split
  next => rw [show ((l.length : ℤ) + -1).toNat = l.length - 1 by omega]
  next h =>
    have hl : l = [] := List.length_eq_zero_iff.mp (by omega)
    simp [hl]

theorem mem_of_atIndex {α : Type} {l : List α} {i : ℤ} {a : α} (h : atIndex l i = some a) :
    a ∈ l := by
  rw [atIndex] at h
  split at h
  · exact List.mem_of_getElem? h
  · split at h
    · exact List.mem_of_getElem? h
    · cases h

theorem exists_getIncomingData_eq_ok (h : ∀ run ∈ runData.runs nodeName, run.HasType type)
    (runIndex : ℤ) (outputIndex : ℕ) :
    ∃ o, getIncomingData runData nodeName runIndex type outputIndex = .ok o := by
  rw [getIncomingData]
  rcases hr : atIndex (runData.runs nodeName) runIndex with _ | run
  · exact ⟨none, rfl⟩
  · exact exists_readOutput_eq_ok (h run (mem_of_atIndex hr)) outputIndex

/-- The first run with data, and its data. -/
theorem output_of_getIncomingDataFromAnyRun {data : List INodeExecutionData} {runIndex : ℕ}
    (h : getIncomingDataFromAnyRun runData nodeName type outputIndex
      = .ok (some (data, runIndex))) :
    ∃ run, (runData.runs nodeName)[runIndex]? = some run ∧
      run.output type outputIndex = some data ∧ data ≠ [] := by
  rcases ExceptFold.findSomeM?_eq_ok h with ⟨i, -, c, hc, hi⟩ | ⟨hnone, -⟩
  · cases hc
    rw [getIncomingData, atIndex_natCast] at hi
    rcases hrun : (runData.runs nodeName)[i]? with _ | run
    · simp only [hrun] at hi
      cases hi
    · simp only [hrun] at hi
      rcases hread : readOutput run type outputIndex with e | _ | data'
      · simp only [hread] at hi
        cases hi
      · simp only [hread] at hi
        cases hi
      · rw [hread] at hi
        have hi' := Except.ok.inj hi
        split at hi'
        next hpos =>
          cases hi'
          exact ⟨run, hrun, (eq_output_of_readOutput hread).symm, List.length_pos_iff.mp hpos⟩
        next => cases hi'
  · cases hnone

theorem not_hasRunData_of_getIncomingDataFromAnyRun
    (h : getIncomingDataFromAnyRun runData nodeName type outputIndex = .ok none) :
    ¬HasRunData runData nodeName type outputIndex := by
  rintro ⟨run, hrun, data, hdata, hne⟩
  rcases ExceptFold.findSomeM?_eq_ok h with ⟨i, -, c, hc, -⟩ | ⟨-, hall⟩
  · cases hc
  · obtain ⟨i, hi, hget⟩ := List.getElem_of_mem hrun
    have hi' := hall i (List.mem_range.mpr hi)
    rw [getIncomingData, atIndex_natCast, List.getElem?_eq_getElem hi, hget] at hi'
    rcases hread : readOutput run type outputIndex with e | o
    · simp only [hread] at hi'
      cases hi'
    · have ho := eq_output_of_readOutput hread
      rw [hdata] at ho
      subst ho
      simp only [hread] at hi'
      have hi'' := Except.ok.inj hi'
      rw [if_pos (List.length_pos_iff.mpr hne)] at hi''
      cases hi''

theorem exists_getIncomingDataFromAnyRun_eq_ok
    (h : ∀ run ∈ runData.runs nodeName, run.HasType type) (outputIndex : ℕ) :
    ∃ o, getIncomingDataFromAnyRun runData nodeName type outputIndex = .ok o := by
  refine ExceptFold.findSomeM?_exists_ok fun i _ => ?_
  obtain ⟨o, ho⟩ := exists_getIncomingData_eq_ok h i outputIndex
  rw [ho]
  rcases o with _ | data
  · exact ⟨none, rfl⟩
  · exact ⟨_, rfl⟩

end N8n
