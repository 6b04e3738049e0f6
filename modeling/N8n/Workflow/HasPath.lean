import N8n.Workflow.ExtractableSubgraph

/-!
# The loop of `hasPath`

`hasPath` is a `while (true)` loop. Here it is run for a bounded number of rounds, with the array
`paths` as the source has it: `pop` takes its last element, and `push` appends to it. The array is
the stack of `StackSearch.finds` upside down, so the loop takes the rounds of that search, and a
node that is popped for the second time costs a round but leads to nothing new.
-/

namespace N8n.GraphUtils

open Relation

variable (adjacencyList : IConnectionAdjacencyList)

/-- `new Set(edges.filter((x) => x.type === 'main').map((x) => x.node))`. -/
def mainTargets (nodeId : String) : InsertionSet String :=
  .ofList (((edgesFrom adjacencyList nodeId).filter (·.type = .main)).map IConnection.node)

/-- At most `fuel` rounds of the loop: `none` when it has not returned by then. -/
def hasPathLoop (end_ : String) : ℕ → InsertionSet String → List String → Option Bool
  | 0, _, _ => none
  | fuel + 1, seen, paths =>
    match paths.getLast? with
    | none => some false
    | some next =>
      if next = end_ then some true
      else
        let seen := seen.add next
        hasPathLoop end_ fuel seen
          (paths.dropLast ++ (difference (mainTargets adjacencyList next) seen).elements)

variable {adjacencyList}

theorem elements_difference (minuend subtrahend : InsertionSet String) :
    (difference minuend subtrahend).elements = minuend.elements.filter (· ∉ subtrahend) := by
  suffices ∀ (l : List String) (s : InsertionSet String),
      (l.foldl (fun result x => result.erase x) s).elements = s.elements.filter (· ∉ l) from
    this _ _
  intro l
  induction l with
  | nil => simp
  | cons y l ih =>
    intro s
    rw [List.foldl_cons, ih, InsertionSet.erase, List.filter_filter]
    simp only [List.mem_cons, not_or, Bool.decide_and, Bool.and_comm]

/-- What a round pushes is what the search puts on its stack. -/
theorem reverse_pushed (seen : InsertionSet String) (next : String) (stack : List String) :
    (StackSearch.pushed (targets adjacencyList) seen next ++ stack).reverse =
      stack.reverse ++ (difference (mainTargets adjacencyList next) seen).elements := by
  rw [List.reverse_append, StackSearch.pushed, List.reverse_reverse, elements_difference]
  rfl

/-- The loop returns what the search finds, from a certain number of rounds on. -/
theorem hasPathLoop_eq_finds (adjacencyList : IConnectionAdjacencyList) (end_ : String)
    (seen : InsertionSet String) (stack : List String) :
    ∃ rounds, ∀ fuel ≥ rounds, hasPathLoop adjacencyList end_ fuel seen stack.reverse =
      some (StackSearch.finds (mem_of_mem_targets adjacencyList) end_ seen stack) := by
  induction seen, stack using
    StackSearch.finds.induct (mem_of_mem_targets adjacencyList) end_ with
  | case1 seen =>
    refine ⟨1, fun fuel hfuel => ?_⟩
    obtain ⟨fuel, rfl⟩ := Nat.exists_eq_add_of_le' hfuel
    simp [hasPathLoop, StackSearch.finds]
  | case2 seen stack =>
    refine ⟨1, fun fuel hfuel => ?_⟩
    obtain ⟨fuel, rfl⟩ := Nat.exists_eq_add_of_le' hfuel
    simp [hasPathLoop, StackSearch.finds]
  | case3 seen next stack hne ih =>
    obtain ⟨rounds, ih⟩ := ih
    refine ⟨rounds + 1, fun fuel hfuel => ?_⟩
    obtain ⟨fuel, rfl⟩ := Nat.exists_eq_add_of_le' (le_trans (Nat.le_add_left 1 rounds) hfuel)
    have hround := ih fuel (by omega)
    rw [reverse_pushed] at hround
    rw [hasPathLoop, StackSearch.finds, if_neg hne, ← hround, List.reverse_cons,
      List.getLast?_concat]
    simp [hne]

/-- The loop returns, and it returns `true` exactly when the end is reached from the start. -/
theorem hasPathLoop_decides (start end_ : String) :
    ∃ found : Bool, (found = true ↔ ReflTransGen (MainEdge adjacencyList) start end_) ∧
      ∃ rounds, ∀ fuel ≥ rounds,
        hasPathLoop adjacencyList end_ fuel .empty [start] = some found := by
  obtain ⟨rounds, hrounds⟩ := hasPathLoop_eq_finds adjacencyList end_ .empty [start]
  exact ⟨hasPath adjacencyList start end_, hasPath_iff, rounds, hrounds⟩

/-- Two nodes that lead to each other, the second without the way on: the loop ends. -/
example : hasPathLoop ⟨[("a", [⟨"b", .main, 0⟩]), ("b", [⟨"a", .main, 0⟩])], by decide⟩ "c" 4
    .empty ["a"] = some false := by decide

end N8n.GraphUtils
