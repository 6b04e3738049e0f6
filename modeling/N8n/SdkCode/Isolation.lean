import N8n.SdkCode.Evaluation

/-!
# The isolation of SDK code

A run is isolated when it leaves the objects that existed before it as they were: then every later
run sees them as if it had not been. The interpreter has three ways to change an object. It writes
to the objects that it makes itself; those belong to the run. It runs shared functions, for calls,
accessors and conversions. And it carries out assignments, to a property of anything that an
expression can evaluate to except for three names of properties; an SDK function is such a thing.
`isolated_of_clean` says that the last two are the only ways in which isolation can fail.
-/

namespace N8n

namespace SdkCode

open Effect

instance : DecidablePred Event.Clean := fun e => by
  unfold Event.Clean
  split <;> infer_instance

section

variable (H : Host) (source : Expr → String) (sdkFunctions : InsertionMap String Value)
  (ast : Program) (parsed shared : List Obj)

/-- The run writes to its own objects only, the shared objects are as before, and the result of any
other program, with any SDK functions, is as if this one had not been run. -/
structure Isolated : Prop where
  assigned_own : ∀ target,
    .assigned target ∈ (interpretSDKCode H source sdkFunctions ast parsed shared).2.events →
    ∀ i, target ≠ .ref (.shared i)
  shared_eq : (interpretSDKCode H source sdkFunctions ast parsed shared).2.shared = shared
  result_eq : ∀ (source' : Expr → String) (sdkFunctions' : InsertionMap String Value)
    (ast' : Program) (parsed' : List Obj),
    (interpretSDKCode H source' sdkFunctions' ast' parsed'
      (interpretSDKCode H source sdkFunctions ast parsed shared).2.shared).1 =
      (interpretSDKCode H source' sdkFunctions' ast' parsed' shared).1

end

variable {H : Host} {scope scope' : Scope}

/-- Unless an event of the run writes to a shared object, none of them changes. -/
theorem Runs.exists_events {w w' : World} {names : List String}
    (hruns : Runs H scope w names scope' w') :
    ∃ l, w'.events = w.events ++ l ∧ ((∀ e ∈ l, e.Clean) → w'.shared = w.shared) := by
  induction hruns with
  | done => exact ⟨[], by simp⟩
  | evaluates hfollows _ ih =>
    obtain ⟨l, hl, -, hshared⟩ := hfollows.events
    obtain ⟨l', hl', hshared'⟩ := ih
    refine ⟨l ++ l', by rw [hl', hl, List.append_assoc], fun hclean => ?_⟩
    rw [hshared' fun e he => hclean e (List.mem_append_right l he),
      hshared fun e he => hclean e (List.mem_append_left l' he)]
  | declares name value _ _ ih =>
    obtain ⟨l, hl, hshared⟩ := ih
    refine ⟨.declared name name value :: l, by simp [hl, World.record], fun hclean => ?_⟩
    exact hshared fun e he => hclean e (List.mem_cons_of_mem _ he)
  | @renames scope _ _ _ _ name value _ _ ih =>
    obtain ⟨l, hl, hshared⟩ := ih
    refine ⟨.declared name (scope.generateSafeName name) value :: l,
      by simp [hl, World.record], fun hclean => ?_⟩
    exact hshared fun e he => hclean e (List.mem_cons_of_mem _ he)

/-- A run is isolated when no assignment in it is to a property of a shared object, and no shared
function that it runs changes one. -/
theorem isolated_of_clean (H : Host) (source : Expr → String)
    (sdkFunctions : InsertionMap String Value) (ast : Program) (parsed shared : List Obj)
    (hclean : ∀ e ∈ (interpretSDKCode H source sdkFunctions ast parsed shared).2.events, e.Clean) :
    Isolated H source sdkFunctions ast parsed shared := by
  obtain ⟨names, scope', -, hruns⟩ := interpret_runs H source ⟨sdkFunctions, .empty, .empty⟩
    .undefined ast ⟨shared, parsed, []⟩
  obtain ⟨l, hl, hshared⟩ := hruns.exists_events
  have hevents : (interpretSDKCode H source sdkFunctions ast parsed shared).2.events = l :=
    hl.trans (List.nil_append l)
  have heq : (interpretSDKCode H source sdkFunctions ast parsed shared).2.shared = shared :=
    hshared fun e he => hclean e (hevents ▸ he)
  refine ⟨?_, heq, ?_⟩
  · rintro target htarget i rfl
    exact hclean _ htarget
  · intro source' sdkFunctions' ast' parsed'
    rw [heq]

def nodeOnly : InsertionMap String Value := InsertionMap.empty.set "node" (.ref (.shared 4))

/-- `const a = {}; a.x = node('b');` runs a shared function, and assigns to an own object. -/
theorem isolated_ownObject :
    Isolated Host.minimal (fun _ => "") nodeOnly
      [.variableDeclaration "const" [⟨some "a", some (.object [])⟩],
        .expression (.assignment "=" (.member (.identifier "a") (.identifier "x") false)
          (.call (.identifier "node") [.literal (.string "b")]))] [] Host.minimalObjects :=
  isolated_of_clean Host.minimal (fun _ => "") nodeOnly _ [] Host.minimalObjects (by decide)

/-- `node.x = 'a';` -/
def writingToFunction : Program :=
  [.expression (.assignment "=" (.member (.identifier "node") (.identifier "x") false)
    (.literal (.string "a")))]

/-- `export default node.x;` has another result after it. -/
theorem not_isolated_writingToFunction :
    ¬Isolated Host.minimal (fun _ => "") nodeOnly writingToFunction [] Host.minimalObjects := by
  intro h
  have hresult := h.result_eq (fun _ => "") nodeOnly
    [.exportDefault (.member (.identifier "node") (.identifier "x") false)] []
  exact absurd hresult (by decide)

end SdkCode

end N8n
