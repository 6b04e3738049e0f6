import N8n.Foundations.History
import N8n.SdkCode.Evaluation

/-!
# The functions that SDK code can call

A call comes to its function in one of five ways: by the name of an SDK function, by the name of a
variable, as a method that is on the list of allowed methods, or as a safe method of `JSON` or of a
string. `calls_accounted` says what the function is, for every call of every run.

Variables are looked up on purpose, so a function that was read from a property can be called once
it has been stored. The tables of the safe methods are plain objects: a method that they do not
have themselves is looked for in their prototype. And a function that has a property `apply` of its
own is not called itself.
-/

namespace N8n

namespace SdkCode

open Effect

/-- What a run knows of a function that it calls, from the events before the call. -/
def CallAccounted (H : Host) (sdkFunctions : InsertionMap String Value) (earlier : List Event) :
    Event → Prop
  | .called way f =>
    match way with
    | .sdkFunction name => sdkFunctions.get? name = some f
    | .ofVariable name =>
      sdkFunctions.get? name = none ∧ ∃ declared storedAs, .declared declared storedAs f ∈ earlier
    | .safeJson method => method ∈ safeJsonMethods → f = .ref H.jsonStringify
    | .safeString method =>
      (method = "repeat" → f = .ref H.stringRepeat) ∧ (method = "trim" → f = .ref H.stringTrim)
    | .method object method shared own => isAllowedMethod method ∧ ∃ events,
      (exec (getProperty H object method) ⟨shared, own, events⟩).1 = .ok f
    | .ownApply _ => True
  | _ => True

/-- The scope has the SDK functions of the run, and values of its declarations. -/
structure Scope.FromRun (scope : Scope) (sdkFunctions : InsertionMap String Value)
    (events : List Event) : Prop where
  sdkFunctions_eq : scope.sdkFunctions = sdkFunctions
  declared_of_value : ∀ storedAs value, scope.variableValues.get? storedAs = some value →
    ∃ name, .declared name storedAs value ∈ events

variable {H : Host} {sdkFunctions : InsertionMap String Value} {scope scope' : Scope}

theorem Scope.FromRun.append {events : List Event} (h : scope.FromRun sdkFunctions events)
    (more : List Event) : scope.FromRun sdkFunctions (events ++ more) where
  sdkFunctions_eq := h.sdkFunctions_eq
  declared_of_value storedAs value hget := by
    obtain ⟨name, hname⟩ := h.declared_of_value storedAs value hget
    exact ⟨name, List.mem_append_left more hname⟩

theorem Scope.FromRun.declare {events : List Event} (h : scope.FromRun sdkFunctions events)
    (name storedAs : String) (value : Value)
    (hsdk : scope'.sdkFunctions = scope.sdkFunctions)
    (hvalues : scope'.variableValues = scope.variableValues.set storedAs value) :
    scope'.FromRun sdkFunctions (events ++ [.declared name storedAs value]) where
  sdkFunctions_eq := hsdk.trans h.sdkFunctions_eq
  declared_of_value storedAs' value' hget := by
    rw [hvalues, InsertionMap.get?_set] at hget
    split at hget
    · next heq =>
      obtain rfl := Option.some.inj hget
      exact ⟨name, by simp [heq]⟩
    · obtain ⟨name', hname⟩ := h.declared_of_value storedAs' value' hget
      exact ⟨name', List.mem_append_left _ hname⟩

theorem callAccounted_of_justified {earlier : List Event} {e : Event}
    (h : scope.FromRun sdkFunctions earlier) (he : Justified H scope e) :
    CallAccounted H sdkFunctions earlier e := by
  cases e with
  | called way f =>
    cases way with
    | sdkFunction name => 
      rw [← h.sdkFunctions_eq]
      exact he
    | ofVariable name => 
      have hlookup : scope.lookupCallee name = .ok (.ofVariable name, f) := he
      rw [Scope.lookupCallee] at hlookup
      cases hsdk : scope.sdkFunctions.get? name with
      | some g => simp [hsdk, pure, Except.pure] at hlookup
      | none =>
        cases hvalue : scope.variableValues.get? (scope.resolvedName name) with
        | none => simp [hsdk, hvalue, throw, throwThe, MonadExceptOf.throw] at hlookup
        | some g => 
          obtain rfl : g = f := by simpa [hsdk, hvalue, pure, Except.pure] using hlookup
          obtain ⟨declared, hdeclared⟩ := h.declared_of_value _ _ hvalue
          exact ⟨h.sdkFunctions_eq ▸ hsdk, declared, _, hdeclared⟩
    | safeJson method => exact he
    | safeString method => exact he
    | method object method shared own => exact he
    | ownApply g => trivial
  | _ => trivial

/-- The calls of a run are accounted for, step by step. -/
theorem Runs.eachAfter_callAccounted {w w' : World} {names : List String}
    (hruns : Runs H scope w names scope' w') (h : scope.FromRun sdkFunctions w.events)
    (hevents : EachAfter (CallAccounted H sdkFunctions) w.events) :
    EachAfter (CallAccounted H sdkFunctions) w'.events := by
  induction hruns with
  | done => exact hevents
  | evaluates hfollows _ ih =>
    obtain ⟨l, hl, hjustified, -⟩ := hfollows.events
    refine ih (hl ▸ h.append l) (hl ▸ hevents.append fun a e b heq => ?_)
    exact callAccounted_of_justified (h.append a) (hjustified e (by simp [heq]))
  | declares name value hname _ ih =>
    exact ih (h.declare name name value rfl rfl) (hevents.concat trivial)
  | renames name value hname _ ih =>
    exact ih (h.declare name _ value rfl rfl) (hevents.concat trivial)

variable (source : Expr → String) (ast : Program) (parsed shared : List Obj)

/-- Every function that a run calls is one of the SDK functions called by its own name, the value of
a variable called by a name that no SDK function has, or what an object had under the name of an
allowed method when the call read it; a call of `stringify` on `JSON` and of `repeat` and `trim` on
a string calls the safe method. -/
theorem calls_accounted (H : Host) (sdkFunctions : InsertionMap String Value) :
    EachAfter (CallAccounted H sdkFunctions)
      (interpretSDKCode H source sdkFunctions ast parsed shared).2.events := by
  obtain ⟨names, scope', -, hruns⟩ := interpret_runs H source ⟨sdkFunctions, .empty, .empty⟩
    .undefined ast ⟨shared, parsed, []⟩
  refine hruns.eachAfter_callAccounted ⟨rfl, fun storedAs value hget => ?_⟩ EachAfter.nil
  simp at hget

/-- A call with an SDK function by its own name, an allowed method of an object, or a safe
method. -/
def AllowedCall (H : Host) (sdkFunctions : InsertionMap String Value) : CallWay → Value → Prop
  | .sdkFunction name, f => sdkFunctions.get? name = some f
  | .method object method shared own, f => isAllowedMethod method ∧ ∃ events,
    (exec (getProperty H object method) ⟨shared, own, events⟩).1 = .ok f
  | .safeJson method, f => method ∈ safeJsonMethods ∧ f = .ref H.jsonStringify
  | .safeString method, f =>
    (method = "repeat" ∧ f = .ref H.stringRepeat) ∨ (method = "trim" ∧ f = .ref H.stringTrim)
  | .ofVariable _, _ => False
  | .ownApply _, _ => False

/-- `const f = node; f();` -/
def callingVariable : Program :=
  [.variableDeclaration "const" [⟨some "f", some (.identifier "node")⟩],
    .expression (.call (.identifier "f") [])]

def nodeFunction : InsertionMap String Value := InsertionMap.empty.set "node" (.ref (.shared 4))

/-- The SDK function is called by the name of a variable. -/
theorem not_allowedCall_callingVariable :
    ¬∀ way f, .called way f ∈ (interpretSDKCode Host.minimal (fun _ => "") nodeFunction
        callingVariable [] Host.minimalObjects).2.events →
      AllowedCall Host.minimal nodeFunction way f := by
  intro h
  exact h (.ofVariable "f") (.ref (.shared 4)) (by decide)

end SdkCode

end N8n
