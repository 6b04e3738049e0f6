import N8n.Foundations.InsertionMap
import N8n.Foundations.InsertionSet
import N8n.Foundations.Transition

/-!
# Jobs and requests to stop them

A worker processes the jobs that the queue makes active: `processJob` loads the execution, starts
its run, enters it in `runningJobs`, and reports the result. A main stops a job that is not active
by removing it from the queue, and an active one by an abort message, on which the worker cancels
the run that `runningJobs` has for the job.

`processJob` and `stopJob` are suspended at their `await`s. Abort messages arrive once, and in the
order in which they were sent. Of the run the model has whether it has started, and how it has
ended.
-/

namespace N8n

namespace JobQueue

abbrev JobId := String

abbrev RequestId := ℕ

/-! ### Jobs -/

/-- The run of an execution. -/
inductive Run where
  | notStarted
  | pending
  /-- `cancel()` was called while it was pending. -/
  | cancelled
  | finished
  /-- It has thrown. -/
  | failed
  deriving DecidableEq, Repr

/-- The `await`s of `processJob`. -/
inductive Await where
  | findSingleExecution
  | setRunning
  | findWorkflow
  | getBase
  /-- `runHook('workflowExecuteAfter')`, of an execution that did not start. -/
  | runHook
  | workflowRun
  | fetchJobFinishedResult
  /-- `job.progress` with `job-finished`. -/
  | progressFinished
  | invokeTool
  /-- `job.progress` with `mcp-response`. -/
  | progressMcp
  deriving DecidableEq, Repr

inductive JobPhase where
  | waiting
  /-- Active for the queue; the worker has not begun. -/
  | active
  /-- In `processJob`. -/
  | processing (await : Await)
  /-- In `reportJobProcessingError`. -/
  | reportingError
  | ended
  /-- Removed from the queue while it was waiting. -/
  | removed
  deriving DecidableEq, Repr

/-- What a job with an MCP session asks for. -/
inductive McpType where
  | service
  /-- With the tool call of a trigger. -/
  | triggerToolCall
  deriving DecidableEq, Repr

structure JobData where
  /-- `hasValidJobData(job)`. -/
  valid : Bool := true
  loadStaticData : Bool := false
  mcp : Option McpType := none
  /-- `N8N_MINIMIZE_EXECUTION_DATA_FETCHING` of the worker. -/
  minimizeFetching : Bool := false
  deriving DecidableEq, Repr

structure Job where
  data : JobData
  phase : JobPhase := .waiting
  run : Run := .notStarted
  deriving DecidableEq, Repr

/-! ### Requests -/

/-- Where a call of `ScalingService.stopJob` is, and what has become of it. -/
inductive StopPhase where
  /-- At `job.isActive()`. -/
  | checking
  /-- At `job.progress({ kind: 'abort-job' })`. -/
  | sending
  /-- At `job.remove()`. -/
  | removing
  /-- It has returned `false`. -/
  | failed
  /-- It has returned `true`, and the job is removed. -/
  | removed
  /-- It has returned `true`, and the message is on its way. -/
  | sent
  /-- The message has arrived and found the run so. -/
  | delivered (found : Run)
  deriving DecidableEq, Repr

structure StopRequest where
  jobId : JobId
  phase : StopPhase := .checking
  deriving DecidableEq, Repr

end JobQueue

open JobQueue in
structure JobQueue where
  jobs : InsertionMap JobId Job := .empty
  /-- The keys of `runningJobs` of the worker. -/
  runningJobs : InsertionSet JobId := .empty
  requests : InsertionMap RequestId StopRequest := .empty
  /-- The abort messages on their way. -/
  messages : List RequestId := []
  deriving DecidableEq

namespace JobQueue

variable (st : JobQueue)

/-! ### The worker -/

def setJob (id : JobId) (job : Job) : JobQueue := { st with jobs := st.jobs.set id job }

def setRequest (request : RequestId) (stop : StopRequest) : JobQueue :=
  { st with requests := st.requests.set request stop }

def startRunning (id : JobId) : JobQueue := { st with runningJobs := st.runningJobs.add id }

/-- `delete this.runningJobs[job.id]`. -/
def stopRunning (id : JobId) : JobQueue := { st with runningJobs := st.runningJobs.erase id }

/-- How what a job awaits ends. -/
inductive Outcome where
  | goesOn
  /-- The execution has crashed, or the workflow has issues. -/
  | endsEarly
  | throws
  deriving DecidableEq, Repr

/-- The next phase when nothing is special. -/
def nextPhase (data : JobData) : Await → JobPhase
  | .findSingleExecution => .processing .setRunning
  | .setRunning => .processing (if data.loadStaticData then .findWorkflow else .getBase)
  | .findWorkflow => .processing .getBase
  | .getBase => .processing .workflowRun
  | .workflowRun =>
    .processing (if data.minimizeFetching then .progressFinished else .fetchJobFinishedResult)
  | .fetchJobFinishedResult => .processing .progressFinished
  | .progressFinished =>
    match data.mcp with
    | none => .ended
    | some .service => .processing .progressMcp
    | some .triggerToolCall => .processing .invokeTool
  | .invokeTool => .processing .progressMcp
  | .progressMcp | .runHook => .ended

/-- `processJob` goes on with a job. -/
def resume (id : JobId) (job : Job) (await : Await) (outcome : Outcome) : JobQueue :=
  match await, outcome with
  | .getBase, .goesOn =>
    -- the run is started and entered without an `await` in between
    (st.setJob id
      { job with phase := nextPhase job.data .getBase, run := .pending }).startRunning id
  | .workflowRun, .throws =>
    st.setJob id { job with
      phase := .reportingError
      run := if job.run = .pending then .failed else job.run }
  | .workflowRun, _ =>
    let st := st.stopRunning id
    if job.run = .pending then
      st.setJob id { job with phase := nextPhase job.data .workflowRun, run := .finished }
    -- the status of a cancelled run makes `processJob` throw
    else st.setJob id { job with phase := .reportingError }
  | .findSingleExecution, .endsEarly => st.setJob id { job with phase := .ended }
  | .getBase, .endsEarly => st.setJob id { job with phase := .processing .runHook }
  -- the error of a tool is caught
  | .invokeTool, _ => st.setJob id { job with phase := nextPhase job.data .invokeTool }
  | _, .throws => st.setJob id { job with phase := .reportingError }
  | await, _ => st.setJob id { job with phase := nextPhase job.data await }

/-- `JobProcessor.stopJob(jobId)`. -/
def stopJob (id : JobId) : JobQueue :=
  if id ∈ st.runningJobs then
    match st.jobs.get? id with
    | none => st.stopRunning id
    | some job =>
      (st.setJob id { job with
        run := if job.run = .pending then .cancelled else job.run }).stopRunning id
  else st

/-! ### Steps -/

/-- What the queue calls active. -/
def JobPhase.isActive : JobPhase → Bool
  | .active | .processing _ | .reportingError => true
  | .waiting | .ended | .removed => false

inductive Event where
  | adds (id : JobId) (data : JobData)
  /-- A main calls `stopJob` for a job. -/
  | stops (request : RequestId) (id : JobId)
  /-- `job.isActive()` returns. -/
  | checked (request : RequestId)
  /-- `job.progress` returns, or throws. -/
  | sent (request : RequestId) (ok : Bool)
  /-- `job.remove()` returns, or throws. -/
  | removes (request : RequestId) (ok : Bool)
  /-- The next abort message arrives. -/
  | delivers
  /-- The queue makes a job active. -/
  | moves (id : JobId)
  /-- The worker begins with it. -/
  | begins (id : JobId)
  | resumes (id : JobId) (outcome : Outcome)
  /-- `reportJobProcessingError` ends. -/
  | reported (id : JobId)
  deriving DecidableEq, Repr

/-- `stopJob(job)` goes on after `isActive`. -/
def checked (request : RequestId) (stop : StopRequest) (job : Job) : JobQueue :=
  st.setRequest request
    { stop with phase := if job.phase.isActive then .sending else .removing }

/-- `job.remove()`: a job that is active is locked. -/
def removeJob (request : RequestId) (stop : StopRequest) (job : Job) (ok : Bool) : JobQueue :=
  if ok = false ∨ job.phase.isActive = true then
    st.setRequest request { stop with phase := .failed }
  else if job.phase = .waiting then
    (st.setJob stop.jobId { job with phase := .removed }).setRequest request
      { stop with phase := .removed }
  else st.setRequest request { stop with phase := .removed }

def step? : Event → Option JobQueue
  | .adds id data => if st.jobs.has id then none else some (st.setJob id { data })
  | .stops request id =>
    if st.requests.has request ∨ st.jobs.has id = false then none
    else some (st.setRequest request { jobId := id })
  | .checked request => do
    let stop ← st.requests.get? request
    let job ← st.jobs.get? stop.jobId
    if stop.phase = .checking then some (st.checked request stop job) else none
  | .sent request ok => do
    let stop ← st.requests.get? request
    if stop.phase = .sending then
      if ok then
        some { st.setRequest request { stop with phase := .sent } with
          messages := st.messages ++ [request] }
      else some (st.setRequest request { stop with phase := .failed })
    else none
  | .removes request ok => do
    let stop ← st.requests.get? request
    let job ← st.jobs.get? stop.jobId
    if stop.phase = .removing then some (st.removeJob request stop job ok) else none
  | .delivers =>
    match st.messages with
    | [] => none
    | request :: messages => do
      let stop ← st.requests.get? request
      let job ← st.jobs.get? stop.jobId
      if stop.phase = .sent then
        some (({ st with messages := messages }.setRequest request
          { stop with phase := .delivered job.run }).stopJob stop.jobId)
      else none
  | .moves id => do
    let job ← st.jobs.get? id
    if job.phase = .waiting then some (st.setJob id { job with phase := .active }) else none
  | .begins id => do
    let job ← st.jobs.get? id
    if job.phase = .active then
      some (st.setJob id { job with
        phase := if job.data.valid then .processing .findSingleExecution else .reportingError })
    else none
  | .resumes id outcome => do
    let job ← st.jobs.get? id
    match job.phase with
    | .processing await => some (st.resume id job await outcome)
    | _ => none
  | .reported id => do
    let job ← st.jobs.get? id
    if job.phase = .reportingError then some (st.setJob id { job with phase := .ended }) else none

abbrev Step (st : JobQueue) (event : Event) (st' : JobQueue) : Prop := st.step? event = some st'

/-! ### Statement -/

/-- What a request that has returned `true` comes to: its job is removed, or had ended; its message
found the run at its end, or the run is cancelled, or does not start. -/
def Honoured (job : Job) : StopPhase → Prop
  | .delivered .notStarted => job.run = .notStarted ∨ job.run = .cancelled
  | .delivered .pending => job.run = .cancelled
  | .removed => job.phase = .ended ∨ job.phase = .removed ∧ job.run = .notStarted
  | _ => True

/-- No stop request is lost, and `runningJobs` has only jobs that `processJob` is at. -/
structure NoStopLost : Prop where
  honoured : ∀ request stop job, st.requests.get? request = some stop →
    st.jobs.get? stop.jobId = some job → Honoured job stop.phase
  running : ∀ id ∈ st.runningJobs, ∃ job await, st.jobs.get? id = some job ∧
    job.phase = .processing await

/-- No abort message has arrived for a job before its run. -/
def Undisturbed (id : JobId) : Prop :=
  ∀ request stop, st.requests.get? request = some stop → stop.jobId = id →
    stop.phase ≠ .delivered .notStarted

/-- The condition on a step: a run starts when no abort message has arrived for its job, and a run
that throws has been stopped before. -/
def Timely : Event → Prop
  | .resumes id .goesOn => ∀ job, st.jobs.get? id = some job →
      job.phase = .processing .getBase → st.Undisturbed id
  | .resumes id .throws => ∀ job, st.jobs.get? id = some job →
      job.phase = .processing .workflowRun → id ∉ st.runningJobs
  | _ => True

/-! ### The invariant -/

/-- How far the run of a job is, by the phase of the job. -/
def RunOk (job : Job) : Prop :=
  match job.phase with
  | .waiting | .active | .removed => job.run = .notStarted
  | .processing .findSingleExecution | .processing .setRunning | .processing .findWorkflow
  | .processing .getBase | .processing .runHook => job.run = .notStarted
  | .processing .workflowRun => job.run = .pending ∨ job.run = .cancelled
  | .processing .fetchJobFinishedResult | .processing .progressFinished
  | .processing .invokeTool | .processing .progressMcp => job.run = .finished
  | .reportingError | .ended => job.run ≠ .pending

structure Sound : Prop where
  honoured : ∀ request stop job, st.requests.get? request = some stop →
    st.jobs.get? stop.jobId = some job → Honoured job stop.phase
  known : ∀ request stop, st.requests.get? request = some stop → stop.jobId ∈ st.jobs.keys
  runOk : ∀ id job, st.jobs.get? id = some job → RunOk job
  running : ∀ id, id ∈ st.runningJobs ↔ ∃ job, st.jobs.get? id = some job ∧
    job.phase = .processing .workflowRun ∧ job.run = .pending

variable {st} {st' : JobQueue}

theorem Sound.noStopLost (h : st.Sound) : st.NoStopLost where
  honoured := h.honoured
  running := by
    intro id hmem
    obtain ⟨job, hget, hphase, -⟩ := (h.running id).mp hmem
    exact ⟨job, .workflowRun, hget, hphase⟩

theorem sound_start : ({} : JobQueue).Sound where
  honoured := fun _ _ _ h => nomatch h
  known := fun _ _ h => nomatch h
  runOk := fun _ _ h => nomatch h
  running := by
    intro id
    refine iff_of_false (InsertionSet.notMem_empty id) ?_
    rintro ⟨job, hget, -⟩
    exact nomatch hget

/-- A job that has not ended takes a step. Its run stays as it is, or was pending. -/
theorem Honoured.step {job job' : Job} {phase : StopPhase} (h : Honoured job phase)
    (hended : job.phase ≠ .ended) (hremoved : job.phase ≠ .removed)
    (hrun : job'.run = job.run ∨ job.run = .pending) : Honoured job' phase := by
  cases phase with
  | delivered found =>
    obtain hsame | hpending := hrun
    · cases found with
      | notStarted | pending =>
        simp only [Honoured, hsame]
        exact h
      | _ => trivial
    · -- a pending run has not been found before its end
      cases found <;> simp only [Honoured, hpending, reduceCtorEq, or_self] at h ⊢
  | removed =>
    obtain hend | ⟨hrem, -⟩ := h
    · exact absurd hend hended
    · exact absurd hrem hremoved
  | _ => trivial

/-- A job takes a step, and `runningJobs` changes with it. -/
theorem Sound.setJob (h : st.Sound) {id : JobId} {job job' : Job} {running : InsertionSet JobId}
    (hget : st.jobs.get? id = some job) (hended : job.phase ≠ .ended)
    (hremoved : job.phase ≠ .removed)
    (hrun : (job'.run = job.run ∨ job.run = .pending) ∨
      job.run = .notStarted ∧ st.Undisturbed id)
    (hok : RunOk job') (hother : ∀ k, k ≠ id → (k ∈ running ↔ k ∈ st.runningJobs))
    (hrunning : id ∈ running ↔ job'.phase = .processing .workflowRun ∧ job'.run = .pending) :
    { st.setJob id job' with runningJobs := running }.Sound where
  honoured := by
    intro request stop job₀ hrequest hjob
    have hstored : (st.jobs.set id job').get? stop.jobId = some job₀ := hjob
    rw [InsertionMap.get?_set] at hstored
    split at hstored
    next hid =>
      obtain rfl := Option.some.inj hstored
      have hbefore := h.honoured request stop job hrequest (hid ▸ hget)
      obtain hrun | ⟨hnotStarted, hundisturbed⟩ := hrun
      · exact hbefore.step hended hremoved hrun
      · cases hphase : stop.phase with
        | delivered found =>
          cases found with
          | notStarted => exact absurd hphase (hundisturbed request stop hrequest hid)
          | pending =>
            rw [hphase] at hbefore
            exact nomatch hnotStarted.symm.trans hbefore
          | _ => trivial
        | removed =>
          rw [hphase] at hbefore
          obtain hend | ⟨hrem, -⟩ := hbefore
          · exact absurd hend hended
          · exact absurd hrem hremoved
        | _ => trivial
    next => exact h.honoured request stop job₀ hrequest hstored
  known := fun request stop hrequest =>
    InsertionMap.mem_keys_set.mpr (Or.inr (h.known request stop hrequest))
  runOk := by
    intro k job₀ hjob
    have hstored : (st.jobs.set id job').get? k = some job₀ := hjob
    rw [InsertionMap.get?_set] at hstored
    split at hstored
    next => exact Option.some.inj hstored ▸ hok
    next => exact h.runOk k job₀ hstored
  running := by
    intro k
    change k ∈ running ↔ ∃ job₀, (st.jobs.set id job').get? k = some job₀ ∧ _
    by_cases hk : k = id
    · subst hk
      rw [InsertionMap.get?_set_self, hrunning]
      constructor
      · exact fun hphase => ⟨job', rfl, hphase⟩
      · rintro ⟨_, ⟨⟩, hphase⟩
        exact hphase
    · rw [InsertionMap.get?_set_of_ne _ hk, hother k hk]
      exact h.running k

/-- A job takes a step at which no run is started or ended. -/
theorem Sound.setPhase (h : st.Sound) {id : JobId} {job : Job} {phase : JobPhase}
    (hget : st.jobs.get? id = some job) (hended : job.phase ≠ .ended)
    (hremoved : job.phase ≠ .removed) (hnot : job.phase ≠ .processing .workflowRun)
    (hok : RunOk { job with phase := phase }) (hrun : phase ≠ .processing .workflowRun) :
    (st.setJob id { job with phase := phase }).Sound := by
  refine h.setJob hget hended hremoved (Or.inl (Or.inl rfl)) hok (fun _ _ => Iff.rfl) ?_
  refine iff_of_false (fun hmem => ?_) fun hphase => hrun hphase.1
  obtain ⟨job', hget', hphase, -⟩ := (h.running id).mp hmem
  obtain rfl := Option.some.inj (hget.symm.trans hget')
  exact hnot hphase

/-- A request goes on. -/
theorem Sound.setRequest (h : st.Sound) {request : RequestId} {stop : StopRequest}
    (hknown : stop.jobId ∈ st.jobs.keys)
    (hnew : ∀ job, st.jobs.get? stop.jobId = some job → Honoured job stop.phase) :
    (st.setRequest request stop).Sound where
  honoured := by
    intro other stop' job hrequest hjob
    have hstored : (st.requests.set request stop).get? other = some stop' := hrequest
    rw [InsertionMap.get?_set] at hstored
    split at hstored
    next =>
      obtain rfl := Option.some.inj hstored
      exact hnew job hjob
    next => exact h.honoured other stop' job hstored hjob
  known := by
    intro other stop' hrequest
    have hstored : (st.requests.set request stop).get? other = some stop' := hrequest
    rw [InsertionMap.get?_set] at hstored
    split at hstored
    next => exact Option.some.inj hstored ▸ hknown
    next => exact h.known other stop' hstored
  runOk := h.runOk
  running := h.running

/-! ### The worker keeps the invariant -/

/-- The run of a job starts. -/
theorem Sound.startRun (h : st.Sound) {id : JobId} {job : Job}
    (hget : st.jobs.get? id = some job) (hphase : job.phase = .processing .getBase)
    (hundisturbed : st.Undisturbed id) :
    (st.resume id job .getBase .goesOn).Sound := by
  have hok := h.runOk id job hget
  rw [RunOk, hphase] at hok
  refine h.setJob hget (hphase ▸ nofun) (hphase ▸ nofun) (Or.inr ⟨hok, hundisturbed⟩)
    (Or.inl rfl) ?_ ?_
  · intro k hk
    rw [InsertionSet.mem_add, or_iff_right hk]
    exact Iff.rfl
  · exact iff_of_true (InsertionSet.mem_add.mpr (Or.inl rfl)) ⟨rfl, rfl⟩

/-- The run of a job ends, and its entry is deleted. -/
theorem Sound.endRun (h : st.Sound) {id : JobId} {job : Job}
    (hget : st.jobs.get? id = some job) (hphase : job.phase = .processing .workflowRun) :
    (st.resume id job .workflowRun .goesOn).Sound := by
  have hother : ∀ k, k ≠ id → (k ∈ st.runningJobs.erase id ↔ k ∈ st.runningJobs) := by
    intro k hk
    rw [InsertionSet.mem_erase, and_iff_left hk]
  have hself : id ∉ st.runningJobs.erase id := fun hmem => (InsertionSet.mem_erase.mp hmem).2 rfl
  have hok := h.runOk id job hget
  rw [RunOk, hphase] at hok
  rw [resume]
  · split
    next hpending =>
      refine h.setJob hget (hphase ▸ nofun) (hphase ▸ nofun) (Or.inl (Or.inr hpending)) ?_ hother ?_
      · cases hminimize : job.data.minimizeFetching <;> simp [RunOk, nextPhase, hminimize]
      · exact iff_of_false hself fun hrun => nomatch hrun.2
    next hnot =>
      refine h.setJob hget (hphase ▸ nofun) (hphase ▸ nofun) (Or.inl (Or.inl rfl)) hnot hother ?_
      exact iff_of_false hself fun hrun => nomatch hrun.1
  · exact nofun

/-- A run that has been stopped throws. -/
theorem Sound.throwRun (h : st.Sound) {id : JobId} {job : Job}
    (hget : st.jobs.get? id = some job) (hphase : job.phase = .processing .workflowRun)
    (hstopped : id ∉ st.runningJobs) :
    (st.resume id job .workflowRun .throws).Sound := by
  have hcancelled : job.run ≠ .pending := by
    intro hpending
    exact hstopped ((h.running id).mpr ⟨job, hget, hphase, hpending⟩)
  rw [resume, if_neg hcancelled]
  refine h.setJob hget (hphase ▸ nofun) (hphase ▸ nofun) (Or.inl (Or.inl rfl)) hcancelled
    (fun _ _ => Iff.rfl) ?_
  exact iff_of_false hstopped fun hrun => nomatch hrun.1

/-- Away from the run, `processJob` goes on to a phase that its run is in order for. -/
theorem exists_phase_resume (st : JobQueue) (id : JobId) {job : Job} {await : Await}
    {outcome : Outcome} (hphase : job.phase = .processing await) (hok : RunOk job)
    (hstart : ¬(await = .getBase ∧ outcome = .goesOn)) (hrun : await ≠ .workflowRun) :
    ∃ phase, st.resume id job await outcome = st.setJob id { job with phase := phase } ∧
      phase ≠ .processing .workflowRun ∧ RunOk { job with phase := phase } := by
  rw [RunOk, hphase] at hok
  cases await with
  | workflowRun => exact absurd rfl hrun
  | getBase =>
    cases outcome with
    | goesOn => exact absurd ⟨rfl, rfl⟩ hstart
    | endsEarly => exact ⟨_, rfl, nofun, hok⟩
    | throws => exact ⟨_, rfl, nofun, by simp [RunOk, hok]⟩
  | findSingleExecution =>
    cases outcome with
    | goesOn => exact ⟨_, rfl, nofun, hok⟩
    | endsEarly | throws => exact ⟨_, rfl, nofun, by simp [RunOk, hok]⟩
  | setRunning =>
    cases outcome with
    | goesOn | endsEarly =>
      refine ⟨_, rfl, ?_, ?_⟩
      · rw [nextPhase]
        split <;> nofun
      · cases hload : job.data.loadStaticData <;> simp [RunOk, nextPhase, hload, hok]
    | throws => exact ⟨_, rfl, nofun, by simp [RunOk, hok]⟩
  | progressFinished =>
    cases outcome with
    | goesOn | endsEarly =>
      refine ⟨_, rfl, ?_, ?_⟩
      · rw [nextPhase]
        split <;> nofun
      · cases hmcp : job.data.mcp with
        | none => simp [RunOk, nextPhase, hmcp, hok]
        | some type => cases type <;> simp [RunOk, nextPhase, hmcp, hok]
    | throws => exact ⟨_, rfl, nofun, by simp [RunOk, hok]⟩
  | invokeTool =>
    cases outcome with
    | goesOn | endsEarly | throws => exact ⟨_, rfl, nofun, hok⟩
  | findWorkflow | fetchJobFinishedResult =>
    cases outcome with
    | goesOn | endsEarly => exact ⟨_, rfl, nofun, hok⟩
    | throws => exact ⟨_, rfl, nofun, by simp [RunOk, hok]⟩
  | runHook | progressMcp =>
    cases outcome with
    | goesOn | endsEarly => exact ⟨_, rfl, nofun, by simp [RunOk, nextPhase, hok]⟩
    | throws => exact ⟨_, rfl, nofun, by simp [RunOk, hok]⟩

theorem Sound.resume (h : st.Sound) {id : JobId} {job : Job} {await : Await} {outcome : Outcome}
    (hget : st.jobs.get? id = some job) (hphase : job.phase = .processing await)
    (htimely : st.Timely (.resumes id outcome)) : (st.resume id job await outcome).Sound := by
  by_cases hrun : await = .workflowRun
  · subst hrun
    cases outcome with
    | goesOn | endsEarly => exact h.endRun hget hphase
    | throws => exact h.throwRun hget hphase (htimely job hget hphase)
  · by_cases hstart : await = .getBase ∧ outcome = .goesOn
    · obtain ⟨rfl, rfl⟩ := hstart
      exact h.startRun hget hphase (htimely job hget hphase)
    · obtain ⟨phase, heq, hnot, hok⟩ :=
        exists_phase_resume st id hphase (h.runOk id job hget) hstart hrun
      rw [heq]
      refine h.setPhase hget (hphase ▸ nofun) (hphase ▸ nofun) ?_ hok hnot
      rw [hphase]
      exact fun heq => hrun (JobPhase.processing.inj heq)

/-- `JobProcessor.stopJob` cancels the run that is pending. -/
theorem Sound.stopJob (h : st.Sound) (id : JobId) : (st.stopJob id).Sound := by
  rw [JobQueue.stopJob]
  split
  next hmem =>
    obtain ⟨job, hget, hphase, hpending⟩ := (h.running id).mp hmem
    rw [hget]
    dsimp only
    rw [if_pos hpending]
    refine h.setJob hget (hphase ▸ nofun) (hphase ▸ nofun) (Or.inl (Or.inr hpending)) ?_ ?_ ?_
    · simp [RunOk, hphase]
    · intro k hk
      exact InsertionSet.mem_erase.trans (and_iff_left hk)
    · exact iff_of_false (fun hself => (InsertionSet.mem_erase.mp hself).2 rfl)
        fun hrun => nomatch hrun.2
  · exact h

/-! ### The mains keep the invariant -/

theorem Sound.addJob (h : st.Sound) {id : JobId} (hnew : id ∉ st.jobs.keys) (data : JobData) :
    (st.setJob id { data }).Sound where
  honoured := by
    intro request stop job hrequest hjob
    have hstored : (st.jobs.set id { data }).get? stop.jobId = some job := hjob
    have hne : stop.jobId ≠ id := fun heq => hnew (heq ▸ h.known request stop hrequest)
    rw [InsertionMap.get?_set_of_ne _ hne] at hstored
    exact h.honoured request stop job hrequest hstored
  known := fun request stop hrequest =>
    InsertionMap.mem_keys_set.mpr (Or.inr (h.known request stop hrequest))
  runOk := by
    intro k job hjob
    have hstored : (st.jobs.set id { data }).get? k = some job := hjob
    rw [InsertionMap.get?_set] at hstored
    split at hstored
    next => exact Option.some.inj hstored ▸ rfl
    next => exact h.runOk k job hstored
  running := by
    intro k
    change k ∈ st.runningJobs ↔ ∃ job, (st.jobs.set id { data }).get? k = some job ∧ _
    rw [h.running k]
    by_cases hk : k = id
    · subst hk
      refine iff_of_false ?_ ?_
      · rintro ⟨job, hget, -⟩
        exact hnew (InsertionMap.mem_keys.mpr ⟨job, InsertionMap.get?_eq_some_iff.mp hget⟩)
      · rintro ⟨job, hget, hphase, -⟩
        rw [InsertionMap.get?_set_self] at hget
        exact nomatch (congrArg Job.phase (Option.some.inj hget)).trans hphase
    · rw [InsertionMap.get?_set_of_ne _ hk]

theorem mem_keys_of_get? {id : JobId} {job : Job} (hget : st.jobs.get? id = some job) :
    id ∈ st.jobs.keys :=
  InsertionMap.mem_keys.mpr ⟨job, InsertionMap.get?_eq_some_iff.mp hget⟩

/-- What `JobProcessor.stopJob` makes of the run of a job. -/
theorem Sound.get?_stopJob (h : st.Sound) {id : JobId} {job : Job}
    (hget : st.jobs.get? id = some job) : (st.stopJob id).jobs.get? id =
      some { job with run := if job.run = .pending then .cancelled else job.run } := by
  rw [JobQueue.stopJob]
  split
  next =>
    rw [hget]
    exact InsertionMap.get?_set_self _ _ _
  next hnot =>
    have hrun : job.run ≠ .pending := by
      intro hpending
      have hok := h.runOk id job hget
      rw [RunOk, hpending] at hok
      refine hnot ((h.running id).mpr ⟨job, hget, ?_, hpending⟩)
      split at hok <;> simp_all
    rw [if_neg hrun]
    exact hget

theorem honoured_delivered (job : Job) : Honoured
    { job with run := if job.run = .pending then .cancelled else job.run }
    (.delivered job.run) := by
  cases hrun : job.run with
  | notStarted => exact Or.inl rfl
  | pending => exact rfl
  | _ => trivial

/-- An abort message arrives. -/
theorem Sound.deliver (h : st.Sound) {request : RequestId} {stop : StopRequest} {job : Job}
    (hget : st.jobs.get? stop.jobId = some job) (messages : List RequestId) :
    (({ st with messages := messages }.setRequest request
      { stop with phase := .delivered job.run }).stopJob stop.jobId).Sound := by
  -- the worker does not look at the requests
  have hcommute : ({ st with messages := messages }.setRequest request
      { stop with phase := .delivered job.run }).stopJob stop.jobId =
      { (st.stopJob stop.jobId).setRequest request
        { stop with phase := .delivered job.run } with messages := messages } := by
    by_cases hmem : stop.jobId ∈ st.runningJobs
    · simp only [JobQueue.stopJob, JobQueue.setRequest, hmem, if_true, hget]
      rfl
    · simp only [JobQueue.stopJob, JobQueue.setRequest, hmem, if_false]
  have hstopped := h.stopJob stop.jobId
  have hjob := h.get?_stopJob hget
  have hset : ((st.stopJob stop.jobId).setRequest request
      { stop with phase := .delivered job.run }).Sound := by
    refine hstopped.setRequest (mem_keys_of_get? hjob) fun job' hget' => ?_
    obtain rfl := Option.some.inj (hjob.symm.trans hget')
    exact honoured_delivered job
  rw [hcommute]
  exact ⟨hset.honoured, hset.known, hset.runOk, hset.running⟩

theorem Sound.removeJob (h : st.Sound) {request : RequestId} {stop : StopRequest} {job : Job}
    (hget : st.jobs.get? stop.jobId = some job) (ok : Bool) :
    (st.removeJob request stop job ok).Sound := by
  have hknown := mem_keys_of_get? hget
  rw [JobQueue.removeJob]
  split
  · exact h.setRequest hknown fun _ _ => trivial
  next hinactive =>
    have hok := h.runOk _ job hget
    split
    next hwaiting =>
      rw [RunOk, hwaiting] at hok
      have hjob : (st.setJob stop.jobId { job with phase := .removed }).Sound :=
        h.setPhase hget (hwaiting ▸ nofun) (hwaiting ▸ nofun) (hwaiting ▸ nofun) hok nofun
      refine hjob.setRequest (InsertionMap.mem_keys_set.mpr (Or.inr hknown)) fun job' hget' => ?_
      obtain rfl := Option.some.inj ((InsertionMap.get?_set_self _ _ _).symm.trans hget')
      exact Or.inr ⟨rfl, hok⟩
    next hwaiting =>
      refine h.setRequest hknown fun job' hget' => ?_
      obtain rfl := Option.some.inj (hget.symm.trans hget')
      have hnot : job.phase.isActive = false :=
        Bool.eq_false_of_not_eq_true fun hactive => hinactive (Or.inr hactive)
      cases hphase : job.phase with
      | waiting => exact absurd hphase hwaiting
      | active | processing | reportingError => exact nomatch hphase ▸ hnot
      | ended => exact Or.inl hphase
      | removed =>
        rw [RunOk, hphase] at hok
        exact Or.inr ⟨hphase, hok⟩

theorem Sound.step {event : Event} (h : st.Sound) (htimely : st.Timely event)
    (hstep : Step st event st') : st'.Sound := by
  cases event with
  | adds id data =>
    obtain ⟨hhas, heq⟩ := Option.ite_none_left_eq_some.mp hstep
    obtain rfl := Option.some.inj heq
    exact h.addJob (mt InsertionMap.has_eq_true_iff.mpr hhas) data
  | stops request id =>
    obtain ⟨hnot, heq⟩ := Option.ite_none_left_eq_some.mp hstep
    obtain rfl := Option.some.inj heq
    have hhas : st.jobs.has id = true := by
      by_contra hhas
      exact hnot (Or.inr (Bool.eq_false_of_not_eq_true hhas))
    exact h.setRequest (InsertionMap.has_eq_true_iff.mp hhas) fun _ _ => trivial
  | checked request =>
    obtain ⟨stop, -, hstep⟩ := Option.bind_eq_some_iff.mp hstep
    obtain ⟨job, hjob, hstep⟩ := Option.bind_eq_some_iff.mp hstep
    obtain ⟨-, heq⟩ := Option.ite_none_right_eq_some.mp hstep
    obtain rfl := Option.some.inj heq
    refine h.setRequest (mem_keys_of_get? hjob) fun job' _ => ?_
    cases job.phase.isActive <;> trivial
  | sent request ok =>
    obtain ⟨stop, hrequest, hstep⟩ := Option.bind_eq_some_iff.mp hstep
    obtain ⟨-, hstep⟩ := Option.ite_none_right_eq_some.mp hstep
    have hknown := h.known request stop hrequest
    split at hstep
    · obtain rfl := Option.some.inj hstep
      have hset : (st.setRequest request { stop with phase := .sent }).Sound :=
        h.setRequest hknown fun _ _ => trivial
      exact ⟨hset.honoured, hset.known, hset.runOk, hset.running⟩
    · obtain rfl := Option.some.inj hstep
      exact h.setRequest hknown fun _ _ => trivial
  | removes request ok =>
    obtain ⟨stop, -, hstep⟩ := Option.bind_eq_some_iff.mp hstep
    obtain ⟨job, hjob, hstep⟩ := Option.bind_eq_some_iff.mp hstep
    obtain ⟨-, heq⟩ := Option.ite_none_right_eq_some.mp hstep
    obtain rfl := Option.some.inj heq
    exact h.removeJob hjob ok
  | delivers =>
    rw [Step, step?] at hstep
    split at hstep
    · cases hstep
    next request messages hmessages =>
      obtain ⟨stop, -, hstep⟩ := Option.bind_eq_some_iff.mp hstep
      obtain ⟨job, hjob, hstep⟩ := Option.bind_eq_some_iff.mp hstep
      obtain ⟨-, heq⟩ := Option.ite_none_right_eq_some.mp hstep
      obtain rfl := Option.some.inj heq
      exact h.deliver hjob messages
  | moves id =>
    obtain ⟨job, hjob, hstep⟩ := Option.bind_eq_some_iff.mp hstep
    obtain ⟨hphase, heq⟩ := Option.ite_none_right_eq_some.mp hstep
    obtain rfl := Option.some.inj heq
    have hok := h.runOk id job hjob
    rw [RunOk, hphase] at hok
    exact h.setPhase hjob (hphase ▸ nofun) (hphase ▸ nofun) (hphase ▸ nofun) hok nofun
  | begins id =>
    obtain ⟨job, hjob, hstep⟩ := Option.bind_eq_some_iff.mp hstep
    obtain ⟨hphase, heq⟩ := Option.ite_none_right_eq_some.mp hstep
    obtain rfl := Option.some.inj heq
    have hok := h.runOk id job hjob
    rw [RunOk, hphase] at hok
    refine h.setPhase hjob (hphase ▸ nofun) (hphase ▸ nofun) (hphase ▸ nofun) ?_ ?_
    · cases job.data.valid <;> simp [RunOk, hok]
    · split <;> nofun
  | resumes id outcome =>
    obtain ⟨job, hjob, hstep⟩ := Option.bind_eq_some_iff.mp hstep
    split at hstep
    next await hphase =>
      obtain rfl := Option.some.inj hstep
      exact h.resume hjob hphase htimely
    · cases hstep
  | reported id =>
    obtain ⟨job, hjob, hstep⟩ := Option.bind_eq_some_iff.mp hstep
    obtain ⟨hphase, heq⟩ := Option.ite_none_right_eq_some.mp hstep
    obtain rfl := Option.some.inj heq
    have hok := h.runOk id job hjob
    rw [RunOk, hphase] at hok
    exact h.setPhase hjob (hphase ▸ nofun) (hphase ▸ nofun) (hphase ▸ nofun) hok nofun

/-! ### The condition is exact -/

theorem not_noStopLost_of_not_timely {event : Event} (htimely : ¬st.Timely event)
    (hstep : Step st event st') : ¬st'.NoStopLost := by
  intro hlost
  cases event with
  | resumes id outcome =>
    obtain ⟨job, hjob, hstep⟩ := Option.bind_eq_some_iff.mp hstep
    cases outcome with
    | goesOn =>
      simp only [Timely, Classical.not_imp, not_forall] at htimely
      obtain ⟨job', hjob', hphase, hdisturbed⟩ := htimely
      obtain rfl := Option.some.inj (hjob.symm.trans hjob')
      simp only [Undisturbed, not_forall, not_not] at hdisturbed
      obtain ⟨request, stop, hrequest, rfl, hfound⟩ := hdisturbed
      rw [hphase] at hstep
      obtain rfl := Option.some.inj hstep
      -- the message has not found a run, and now there is one
      have hafter := hlost.honoured request stop _ hrequest (InsertionMap.get?_set_self _ _ _)
      rw [hfound] at hafter
      simp [Honoured] at hafter
    | throws =>
      simp only [Timely, Classical.not_imp, not_forall, not_not] at htimely
      obtain ⟨job', hjob', hphase, hrunning⟩ := htimely
      obtain rfl := Option.some.inj (hjob.symm.trans hjob')
      rw [hphase] at hstep
      obtain rfl := Option.some.inj hstep
      obtain ⟨after, await, hafter, hprocessing⟩ := hlost.running id hrunning
      have hstored := (InsertionMap.get?_set_self _ _ _).symm.trans hafter
      obtain rfl := Option.some.inj hstored
      exact nomatch hprocessing
    | endsEarly => exact htimely trivial
  | adds | stops | checked | sent | removes | delivers | moves | begins | reported =>
    exact htimely trivial

/-- **No stop request is lost**: a run keeps to it if and only if all its steps are timely. -/
theorem visits_noStopLost_iff (run : Transition.Run Step ({} : JobQueue) st) :
    run.Visits NoStopLost ↔ run.Takes Timely :=
  Transition.Run.visits_iff_takes (I := Sound) (fun _ h => h.noStopLost)
    (fun _ _ _ h htimely hstep => h.step htimely hstep)
    (fun _ _ _ _ htimely hstep => not_noStopLost_of_not_timely htimely hstep) sound_start run

/-- An abort message that arrives while the execution is being loaded is ignored: `stopJob` has
returned `true`, and the run finishes. -/
theorem not_noStopLost_abortWhileLoading :
    ∃ st, ∃ run : Transition.Run Step ({} : JobQueue) st, ¬run.Visits NoStopLost ∧
      st.requests.get? 0 = some ⟨"1", .delivered .notStarted⟩ ∧
      st.jobs.get? "1" = some ⟨{}, .ended, .finished⟩ := by
  have hrun : ∃ st, [Event.adds "1" {}, .moves "1", .begins "1", .stops 0 "1", .checked 0,
      .sent 0 true, .delivers, .resumes "1" .goesOn, .resumes "1" .goesOn, .resumes "1" .goesOn,
      .resumes "1" .goesOn, .resumes "1" .goesOn, .resumes "1" .goesOn].foldlM step?
        ({} : JobQueue) = some st ∧
      st.requests.get? 0 = some ⟨"1", .delivered .notStarted⟩ ∧
      st.jobs.get? "1" = some ⟨{}, .ended, .finished⟩ := ⟨_, rfl, by decide, by decide⟩
  obtain ⟨st, hstate, hrequest, hjob⟩ := hrun
  obtain ⟨run, _⟩ := Transition.Run.exists_labels_eq hstate
  refine ⟨st, run, fun h => ?_, hrequest, hjob⟩
  have hhonoured := h.last.honoured 0 _ _ hrequest hjob
  exact absurd hhonoured (by simp [Honoured])

end JobQueue

end N8n
