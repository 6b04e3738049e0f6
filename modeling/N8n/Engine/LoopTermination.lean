import Mathlib.Data.Finset.Card
import Mathlib.Data.List.Chain
import N8n.Engine.LoopProgress

/-!
# Termination of the execution loop

An entry whose node lacks input data is put back on the stack, behind all others. When only such
entries are left the loop could go on for ever, and an entry that is taken twice in a row is
meant to stop it. With two entries or more, no entry is ever taken twice in a row.

`halts_iff` says that this is the only way for the loop of an acyclic workflow to go on for ever,
next to nodes that never stop to make requests: it halts if and only if it never gets stuck
(`IsStuck`).
-/

namespace N8n

open Ranking

namespace WorkflowExecute

open EngineRequests (withStack)

variable {w : Workflow} {env : NodeFunctions} {calls : List NodeCall} {weight : String → ℕ}
  {s t : LoopState}

/-! ### Stuck loops -/

/-- The tries that the entries on the stack are. -/
def stackTries (loop : Loop) : List (Option (String × ℕ)) :=
  loop.execution.nodeExecutionStack.map fun executionData =>
    some (tryOf loop.execution executionData)

/-- All entries lack data, and no two that follow each other in turn, starting with the one that
was put back last, are the same try. -/
def IsStuck (w : Workflow) (loop : Loop) : Prop :=
  loop.ended = none ∧
    (∀ executionData ∈ loop.execution.nodeExecutionStack,
      IsLacking w loop.execution executionData) ∧
    (loop.lastExecutionTry :: stackTries loop).IsChain (· ≠ ·) ∧
    (stackTries loop).getLast? ≠ (stackTries loop).head?

instance (w : Workflow) (loop : Loop) : Decidable (IsStuck w loop) :=
  inferInstanceAs (Decidable (_ ∧ _ ∧ _ ∧ _))

/-- A step that puts the entry back. -/
def PutsBack (w : Workflow) (s t : LoopState) : Prop :=
  ∃ executionData stack, s.loop.execution.nodeExecutionStack = executionData :: stack ∧
    IsLacking w s.loop.execution executionData ∧
    s.loop.lastExecutionTry ≠ some (tryOf s.loop.execution executionData) ∧
    t.loop = putBack executionData (withStack s.loop stack)

/-- Elements that differ from the next one, in turn, do so after a turn. -/
theorem isChain_ne_turn {α : Type} {last a : α} {l : List α}
    (h : (last :: a :: l).IsChain (· ≠ ·)) (hends : (a :: l).getLast? ≠ (a :: l).head?) :
    (a :: (l ++ [a])).IsChain (· ≠ ·) ∧ (l ++ [a]).getLast? ≠ (l ++ [a]).head? := by
  have hchain : (a :: l).IsChain (· ≠ ·) := (List.isChain_cons_cons.mp h).2
  constructor
  · rw [← List.cons_append, List.isChain_append]
    refine ⟨hchain, List.isChain_singleton a, fun x hx y hy hxy => ?_⟩
    obtain rfl : a = y := Option.some.inj hy
    exact hends (hxy ▸ hx)
  · rw [List.getLast?_concat]
    cases l with
    | nil => exact absurd rfl hends
    | cons b l => exact fun heq => (List.isChain_cons_cons.mp hchain).1 (Option.some.inj heq)

/-- A stuck loop puts an entry back and is stuck again. -/
theorem IsStuck.next (h : IsStuck w s.loop) (env : NodeFunctions) (calls : List NodeCall) :
    ∃ t, nextIteration w env s calls = some t ∧ IsStuck w t.loop := by
  obtain ⟨hended, hlacking, hneighbours, hends⟩ := h
  cases hstack : s.loop.execution.nodeExecutionStack with
  | nil =>
    rw [stackTries, hstack] at hends
    exact absurd rfl hends
  | cons executionData stack =>
    rw [hstack] at hlacking
    obtain ⟨hfirst, hrest⟩ := List.forall_mem_cons.mp hlacking
    have htries : stackTries s.loop = some (tryOf s.loop.execution executionData) ::
        stack.map fun executionData => some (tryOf s.loop.execution executionData) := by
      rw [stackTries, hstack, List.map_cons]
    rw [htries] at hneighbours hends
    obtain ⟨htry, hchain⟩ := List.isChain_cons_cons.mp hneighbours
    have hnext : (runEntry w env calls executionData (withStack s.loop stack)).1 =
        putBack executionData (withStack s.loop stack) :=
      runEntry_of_isLacking env calls hfirst htry
    have htries' : stackTries (putBack executionData (withStack s.loop stack)) =
        (stack.map fun executionData => some (tryOf s.loop.execution executionData)) ++
          [some (tryOf s.loop.execution executionData)] := by
      simp only [stackTries, putBack, withStack, List.map_append, List.map_singleton]
      rfl
    obtain ⟨hturned, hturnedEnds⟩ := isChain_ne_turn hneighbours hends
    have hstuck : IsStuck w (putBack executionData (withStack s.loop stack)) := by
      refine ⟨hended, fun e he => ?_, ?_, ?_⟩
      · obtain he | he := List.mem_append.mp he
        · exact hrest e he
        · obtain rfl := List.mem_singleton.mp he
          exact isLacking_updatePairedItems.mpr hfirst
      · rw [htries']
        exact hturned
      · rw [htries']
        exact hturnedEnds
    refine ⟨⟨putBack executionData (withStack s.loop stack),
      some (runEntry w env calls executionData (withStack s.loop stack)).2⟩, ?_, hstuck⟩
    rw [nextIteration, hended, hstack]
    simp only
    rw [hnext]

/-! ### A turn of the stack -/

variable {loop : Loop} {answers : ℕ → List NodeCall} {start : LoopState} {m k : ℕ}

/-- From some step on every iteration puts its entry back. -/
def PutsBackFrom (w : Workflow) (env : NodeFunctions) (start : LoopState)
    (answers : ℕ → List NodeCall) (m : ℕ) : Prop :=
  ∀ k ≥ m, ∃ s t, stateAt (nextIteration w env) start answers k = some s ∧
    stateAt (nextIteration w env) start answers (k + 1) = some t ∧ PutsBack w s t

/-- What a turn leaves of the loop: the entries that were put back are at the end. -/
structure Turned (l rest : List IExecuteData) (s t : LoopState) : Prop where
  execution : t.loop.execution = { s.loop.execution with
    nodeExecutionStack := rest ++ l.map updatePairedItems }
  lastExecutionTry : t.loop.lastExecutionTry =
    ((l.map fun e => some (tryOf s.loop.execution e)).getLast?).getD s.loop.lastExecutionTry

/-- All entries of a part of the stack are put back, one after the other. -/
theorem exists_turned (h : PutsBackFrom w env start answers m) (l rest : List IExecuteData)
    (hk : k ≥ m) (hs : stateAt (nextIteration w env) start answers k = some s)
    (hstack : s.loop.execution.nodeExecutionStack = l ++ rest) :
    (∃ t, stateAt (nextIteration w env) start answers (k + l.length) = some t ∧
      Turned l rest s t) ∧ (∀ e ∈ l, IsLacking w s.loop.execution e) ∧
      (s.loop.lastExecutionTry ::
        l.map fun e => some (tryOf s.loop.execution e)).IsChain (· ≠ ·) := by
  induction l generalizing k s rest with
  | nil =>
    refine ⟨⟨s, hs, ?_, rfl⟩, fun _ he => absurd he List.not_mem_nil, List.isChain_singleton _⟩
    rw [List.map_nil, List.append_nil, ← List.nil_append rest, ← hstack]
  | cons executionData l ih =>
    obtain ⟨s', t, hs', ht, entry, stack, hstack', hlacks, htry, hput⟩ := h k hk
    obtain rfl := Option.some.inj (hs.symm.trans hs')
    obtain ⟨rfl, rfl⟩ := List.cons.inj (hstack.symm.trans hstack')
    have hstackt : t.loop.execution.nodeExecutionStack =
        l ++ (rest ++ [updatePairedItems executionData]) := by
      rw [hput]
      exact List.append_assoc _ _ _
    obtain ⟨⟨u, hu, hturned⟩, hlacking, hchain⟩ := ih (rest ++ [updatePairedItems executionData])
      (Nat.le_succ_of_le hk) ht hstackt
    have htries : ∀ e, tryOf t.loop.execution e = tryOf s.loop.execution e := by
      rw [hput]
      exact fun _ => rfl
    have hlast : t.loop.lastExecutionTry = some (tryOf s.loop.execution executionData) := by
      rw [hput]
      rfl
    simp only [htries, hlast] at hchain
    refine ⟨⟨u, ?_, ?_, ?_⟩, List.forall_mem_cons.mpr ⟨hlacks, fun e he => ?_⟩, ?_⟩
    · rw [List.length_cons, Nat.add_comm l.length 1, ← Nat.add_assoc]
      exact hu
    · rw [hturned.execution, hput, List.map_cons]
      simp only [putBack, withStack, List.append_assoc, List.singleton_append]
    · rw [hturned.lastExecutionTry, List.map_cons, List.getLast?_cons]
      simp only [htries, hlast]
      rfl
    · have hlacks' := hlacking e he
      rw [hput] at hlacks'
      exact hlacks'
    · exact hchain.cons_cons htry

/-- When all entries were put back, one after the other, the loop is stuck. -/
theorem exists_isStuck (h : PutsBackFrom w env start answers m) :
    ∃ k s, stateAt (nextIteration w env) start answers k = some s ∧ IsStuck w s.loop := by
  obtain ⟨s, _, hs, _⟩ := h m le_rfl
  obtain ⟨⟨t, ht, hturned⟩, hlacking, hchain⟩ := exists_turned h
    s.loop.execution.nodeExecutionStack [] le_rfl hs (List.append_nil _).symm
  obtain ⟨t', u, ht', hu, executionData, stack, hstack, _, htry, _⟩ :=
    h (m + s.loop.execution.nodeExecutionStack.length) (Nat.le_add_right _ _)
  obtain rfl := Option.some.inj (ht.symm.trans ht')
  have htries : stackTries t.loop = stackTries s.loop := by
    rw [stackTries, hturned.execution, List.nil_append, List.map_map]
    rfl
  have hhead : (stackTries t.loop).head? = some (some (tryOf t.loop.execution executionData)) := by
    rw [stackTries, hstack]
    rfl
  have hlast : (stackTries t.loop).getLast? = some t.loop.lastExecutionTry := by
    have hturnedLast := hturned.lastExecutionTry
    rw [← stackTries, ← htries] at hturnedLast
    cases hlast : (stackTries t.loop).getLast? with
    | none =>
      rw [List.getLast?_eq_none_iff.mp hlast] at hhead
      cases hhead
    | some last => rw [hturnedLast, hlast, Option.getD_some]
  refine ⟨_, t, ht, ?_, ?_, ?_, ?_⟩
  · obtain ⟨_, _, hended, _⟩ := loopStep_cases ((stateAt_succ ht).symm.trans hu)
    exact hended
  · rw [hturned.execution]
    intro e he
    obtain ⟨e', he', rfl⟩ := List.mem_map.mp he
    exact isLacking_updatePairedItems.mpr (hlacking e' he')
  · refine List.isChain_cons.mpr ⟨fun last hmem => ?_, ?_⟩
    · rw [hhead] at hmem
      obtain rfl := Option.some.inj hmem
      exact htry
    · rw [htries]
      exact hchain.tail
  · rw [hlast, hhead]
    exact fun heq => htry (Option.some.inj heq)

/-! ### The rank of the loop -/

/-- The nodes without a run, of those that may come on the stack. -/
def unrecorded (nodeNames : List String) (runData : IRunData) : Finset String :=
  nodeNames.toFinset.filter fun nodeName => runData.has nodeName = false

/-- The number of nodes without a run, and then the potential. -/
def loopRank (nodeNames : List String) (weight : String → ℕ) (s : LoopState) : ℕ ×ₗ ℕ :=
  toLex ((unrecorded nodeNames s.loop.execution.runData).card,
    potential weight s.loop.execution)

/-- The nodes of the entries on the stack are among those that are counted. -/
def Covers (nodeNames : List String) (s : LoopState) : Prop :=
  ∀ e ∈ s.loop.execution.nodeExecutionStack, e.node = default ∨ e.node.name ∈ nodeNames

variable {nodeNames : List String}

theorem card_unrecorded_lt {nodeName : String} {runData runData' : IRunData}
    (h : StartsRuns nodeName runData runData') (hmem : nodeName ∈ nodeNames) :
    (unrecorded nodeNames runData').card < (unrecorded nodeNames runData).card := by
  obtain ⟨hbefore, hafter, hkept⟩ := h
  refine Finset.card_lt_card ⟨fun other hother => ?_, fun hsubset => ?_⟩
  · obtain ⟨hother, hnone⟩ := Finset.mem_filter.mp hother
    refine Finset.mem_filter.mpr ⟨hother, ?_⟩
    by_contra hhas
    exact Bool.false_ne_true (hnone.symm.trans (hkept other (Bool.not_eq_false _ ▸ hhas)))
  · have hnone := hsubset (Finset.mem_filter.mpr ⟨List.mem_toFinset.mpr hmem, hbefore⟩)
    exact Bool.false_ne_true ((Finset.mem_filter.mp hnone).2.symm.trans hafter)

theorem potential_cons (weight : String → ℕ) {st : IRunExecutionData}
    {executionData : IExecuteData} {stack : List IExecuteData}
    (hstack : st.nodeExecutionStack = executionData :: stack) :
    potential weight { st with nodeExecutionStack := stack } +
      entryWeight weight st.runData executionData = potential weight st := by
  simp only [potential, hstack, List.map_cons, List.sum_cons]
  omega

/-- **Step lemma.** An iteration without a request that does not end the loop puts its entry back
and keeps the rank, or lowers the rank. -/
theorem loopRank_of_loopStep (hw : Weighs w weight) (hnodes : w.nodes.keys ⊆ nodeNames)
    (hcovers : Covers nodeNames s) (hfree : RequestFree calls) (h : loopStep w env s calls t)
    (hended : t.loop.ended = none) :
    Covers nodeNames t ∧ (PutsBack w s t ∧ loopRank nodeNames weight t =
      loopRank nodeNames weight s ∨ loopRank nodeNames weight t < loopRank nodeNames weight s) := by
  obtain ⟨executionData, stack, _, hstack, hloop, _⟩ := loopStep_cases h
  have hentry : executionData ∈ s.loop.execution.nodeExecutionStack := by
    rw [hstack]
    exact List.mem_cons_self
  have hstackmem : ∀ e ∈ stack, e ∈ s.loop.execution.nodeExecutionStack := by
    rw [hstack]
    exact fun e he => List.mem_cons_of_mem _ he
  have hpotential := potential_cons weight hstack
  obtain ⟨hlacks, htry, hput⟩ | hadvances := runEntry_of_requestFree env hw hfree executionData
    (withStack s.loop stack)
  · rw [hput] at hloop
    constructor
    · rw [Covers, hloop]
      intro e he
      obtain he | he := List.mem_append.mp he
      · exact hcovers e (hstackmem e he)
      · obtain rfl := List.mem_singleton.mp he
        exact hcovers executionData hentry
    · refine .inl ⟨⟨executionData, stack, hstack, hlacks, htry, hloop⟩, ?_⟩
      have hsame : potential weight t.loop.execution = potential weight s.loop.execution := by
        have hupdated : entryWeight weight s.loop.execution.runData
            (updatePairedItems executionData) =
              entryWeight weight s.loop.execution.runData executionData := rfl
        rw [hloop, ← hpotential]
        simp only [potential, putBack, withStack, List.map_append, List.sum_append,
          List.map_singleton, List.sum_singleton, hupdated]
        omega
      rw [loopRank, loopRank, hsame, hloop]
      rfl
  · rw [← hloop] at hadvances
    obtain hnot | hprogress := hadvances
    · exact absurd hended hnot
    constructor
    · intro e he
      obtain he | hdefault | hname := hprogress.stack e he
      · exact hcovers e (hstackmem e he)
      · exact .inl hdefault
      · exact .inr (hnodes hname)
    · right
      rw [loopRank, loopRank, Prod.Lex.toLex_lt_toLex]
      obtain hstarts | ⟨hsame, hless⟩ := hprogress.lowers
      · refine .inl (card_unrecorded_lt hstarts ((hcovers executionData hentry).resolve_left ?_))
        intro hdefault
        rw [hloop, runEntry, if_pos hdefault] at hended
        cases hended
      · refine .inr ⟨?_, lt_of_lt_of_eq hless hpotential⟩
        rw [unrecorded, unrecorded]
        simp only [hsame]
        rfl

/-! ### The loop halts -/

/-- From some iteration on no node makes a request. -/
def RequestsEnd (w : Workflow) (env : NodeFunctions) (start : LoopState)
    (answers : ℕ → List NodeCall) : Prop :=
  ∃ n, ∀ k ≥ n, ∀ s, stateAt (nextIteration w env) start answers k = some s →
    RequestFree (answers k)

/-- A loop that goes on for ever without requests gets stuck. -/
theorem exists_isStuck_of_not_halts (hw : IsAcyclic w)
    (hruns : ¬Halts (nextIteration w env) start answers)
    (hrequests : RequestsEnd w env start answers) :
    ∃ k s, stateAt (nextIteration w env) start answers k = some s ∧ IsStuck w s.loop := by
  obtain ⟨weight, hweight⟩ := exists_weighs hw
  obtain ⟨n, hfree⟩ := hrequests
  have hstate : ∀ k, ∃ s, stateAt (nextIteration w env) start answers k = some s := fun k =>
    Option.ne_none_iff_exists'.mp fun hnone => hruns ⟨k, hnone⟩
  have hended : ∀ k s, stateAt (nextIteration w env) start answers k = some s →
      s.loop.ended = none := by
    intro k s hs
    obtain ⟨t, ht⟩ := hstate (k + 1)
    obtain ⟨_, _, hended, _⟩ := loopStep_cases ((stateAt_succ hs).symm.trans ht)
    exact hended
  obtain ⟨first, hfirst⟩ := hstate n
  -- these are all the nodes that can come on the stack from there on
  let nodeNames := w.nodes.keys ++ first.loop.execution.nodeExecutionStack.map (·.node.name)
  have hnodes : w.nodes.keys ⊆ nodeNames := List.subset_append_left _ _
  have hstep : ∀ k ≥ n, ∀ s t, stateAt (nextIteration w env) start answers k = some s →
      nextIteration w env s (answers k) = some t → Covers nodeNames s →
        Covers nodeNames t ∧ (PutsBack w s t ∧ loopRank nodeNames weight t =
          loopRank nodeNames weight s ∨
            loopRank nodeNames weight t < loopRank nodeNames weight s) := by
    intro k hk s t hs ht hcovers
    exact loopRank_of_loopStep hweight hnodes hcovers (hfree k hk s hs) ht
      (hended (k + 1) t ((stateAt_succ hs).trans ht))
  have hcovers : ∀ k ≥ n, ∀ s, stateAt (nextIteration w env) start answers k = some s →
      Covers nodeNames s := by
    intro k hk
    induction k, hk using Nat.le_induction with
    | base =>
      intro s hs e he
      obtain rfl := Option.some.inj (hfirst.symm.trans hs)
      exact .inr (List.mem_append_right _ (List.mem_map_of_mem he))
    | succ k hk ih =>
      intro t ht
      obtain ⟨s, hs⟩ := hstate k
      exact (hstep k hk s t hs ((stateAt_succ hs).symm.trans ht) (ih s hs)).1
  obtain ⟨m, hm, hidle⟩ := exists_idle (loopRank nodeNames weight) (fun s _ t => PutsBack w s t)
    hruns fun k hk s t hs ht => (hstep k hk s t hs ht (hcovers k hk s hs)).2
  refine exists_isStuck (m := m) fun k hk => ?_
  obtain ⟨s, hs⟩ := hstate k
  obtain ⟨t, ht⟩ := hstate (k + 1)
  exact ⟨s, t, hs, ht, hidle k hk s t hs ((stateAt_succ hs).symm.trans ht)⟩

/-- **When the loop halts.** The loop of an acyclic workflow makes finitely many iterations if and
only if its nodes stop to make requests and it never gets stuck. -/
theorem halts_iff (hw : IsAcyclic w) (env : NodeFunctions) (loop : Loop)
    (answers : ℕ → List NodeCall) :
    Halts (nextIteration w env) { loop } answers ↔
      RequestsEnd w env { loop } answers ∧
        ∀ k s, stateAt (nextIteration w env) { loop } answers k = some s →
          ¬IsStuck w s.loop := by
  constructor
  · rintro ⟨n, hn⟩
    constructor
    · refine ⟨n, fun k hk s hs => ?_⟩
      cases (stateAt_eq_none_of_le hn hk).symm.trans hs
    · intro k s hs hstuck
      have hgoes := not_halts_of_forall (P := fun s : LoopState => IsStuck w s.loop)
        (fun s calls hstuck => hstuck.next env calls) hs hstuck
      exact hgoes ⟨n, hn⟩
  · rintro ⟨hrequests, hnever⟩
    by_contra hruns
    obtain ⟨k, s, hs, hstuck⟩ := exists_isStuck_of_not_halts hw hruns hrequests
    exact hnever k s hs hstuck

/-- A node, and two others behind it. -/
def forkWorkflow : Workflow := Workflow.new {
  nodes := [{ name := "Start" }, { name := "Left" }, { name := "Right" }]
  connections := InsertionMap.empty.set "Start" (InsertionMap.empty.set .main
    [some [⟨"Left", .main, 0⟩, ⟨"Right", .main, 0⟩]]) }

theorem isAcyclic_forkWorkflow : IsAcyclic forkWorkflow := by
  refine isAcyclic_of_rank (fun nodeName => ["Left", "Right", "Start"].idxOf nodeName) ?_
  decide

/-- An entry of a node without data on its input. -/
def entryWithoutData (nodeName : String) : IExecuteData where
  node := { name := nodeName }
  data := InsertionMap.empty.set .main [.null]
  source := none

/-- Every node returns an item. -/
theorem halts_forkWorkflow :
    Halts (nextIteration forkWorkflow ⟨fun _ => 1, fun _ _ _ _ _ => .ok none⟩)
        { loop := { execution := { nodeExecutionStack := [entryWithoutData "Start"] } } }
        (fun _ => [{ result := .data (some [.value [{}]]) }]) ∧
      ∀ k s, stateAt (nextIteration forkWorkflow ⟨fun _ => 1, fun _ _ _ _ _ => .ok none⟩)
        { loop := { execution := { nodeExecutionStack := [entryWithoutData "Start"] } } }
        (fun _ => [{ result := .data (some [.value [{}]]) }]) k = some s →
          ¬IsStuck forkWorkflow s.loop := by
  have hhalts : Halts (nextIteration forkWorkflow ⟨fun _ => 1, fun _ _ _ _ _ => .ok none⟩)
      { loop := { execution := { nodeExecutionStack := [entryWithoutData "Start"] } } }
      (fun _ => [{ result := .data (some [.value [{}]]) }]) := ⟨4, by decide⟩
  exact ⟨hhalts, ((halts_iff isAcyclic_forkWorkflow _ _ _).mp hhalts).2⟩

/-- Two entries without data take turns for ever, whatever the nodes answer. -/
theorem not_halts_forkWorkflow :
    IsAcyclic forkWorkflow ∧ ∀ (env : NodeFunctions) (answers : ℕ → List NodeCall),
      ¬Halts (nextIteration forkWorkflow env)
        { loop := { execution :=
          { nodeExecutionStack := [entryWithoutData "Left", entryWithoutData "Right"] } } }
        answers := by
  refine ⟨isAcyclic_forkWorkflow, fun env answers => ?_⟩
  have hstuck : IsStuck forkWorkflow { execution :=
      { nodeExecutionStack := [entryWithoutData "Left", entryWithoutData "Right"] } } := by
    decide
  exact not_halts_of_forall (k := 0) (P := fun s : LoopState => IsStuck forkWorkflow s.loop)
    (fun s calls hstuck => hstuck.next env calls) rfl hstuck

end WorkflowExecute

end N8n
