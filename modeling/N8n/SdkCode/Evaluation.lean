import N8n.SdkCode.Interpreter

/-!
# What a run of the interpreter does

Every operation of the interpreter leads to a world that `Follows` the one before: its events are
those that the scope justifies, and unless one of them writes to a shared object, the shared objects
are as they were. `evaluate_follows` says so for the evaluation of an expression, by induction on
the syntax tree with one case for each kind of node. A run is a sequence of evaluations and
declarations (`Runs`, `interpret_runs`); what holds along runs is shown from that.
-/

namespace N8n

namespace SdkCode

open Effect

section

variable (H : Host) (source : Expr → String) (scope : Scope)

/-- What is known of an event of an evaluation in a scope. -/
def Justified : Event → Prop
  | .declared _ _ _ => False
  | .identifier name value => scope.lookup name = .ok value
  | .callee name f => ∃ way, scope.lookupCallee name = .ok (way, f)
  | .called way f =>
    match way with
    | .sdkFunction name => scope.sdkFunctions.get? name = some f
    | .ofVariable name => scope.lookupCallee name = .ok (.ofVariable name, f)
    | .safeJson method => method ∈ safeJsonMethods → f = .ref H.jsonStringify
    | .safeString method =>
      (method = "repeat" → f = .ref H.stringRepeat) ∧ (method = "trim" → f = .ref H.stringTrim)
    | .method object method shared own => isAllowedMethod method ∧ ∃ events,
      (exec (getProperty H object method) ⟨shared, own, events⟩).1 = .ok f
    | .ownApply g => Returns (getProperty H g "apply") f ∧ f ≠ .ref H.functionApply
  | .assigned _ => True
  | .ran _ _ => True

/-- The event does not write to an object that is shared. -/
def Event.Clean : Event → Prop
  | .assigned (.ref (.shared _)) => False
  | .ran before after => after = before
  | _ => True

/-- What an evaluation does to the world: its events are justified, and it leaves the shared
objects as they are when they are clean. -/
structure Follows (w w' : World) : Prop where
  intro ::
  events : ∃ l, w'.events = w.events ++ l ∧ (∀ e ∈ l, Justified H scope e) ∧
    ((∀ e ∈ l, e.Clean) → w'.shared = w.shared)

instance : Std.Refl (Follows H scope) := ⟨fun _ => ⟨[], by simp⟩⟩

instance : IsTrans World (Follows H scope) where
  trans w w' w'' h h' := by
    obtain ⟨l, hl, hjustified, hshared⟩ := h.events
    obtain ⟨l', hl', hjustified', hshared'⟩ := h'.events
    refine ⟨l ++ l', by rw [hl', hl, List.append_assoc], ?_, fun hclean => ?_⟩
    · intro e he
      obtain he | he := List.mem_append.mp he
      · exact hjustified e he
      · exact hjustified' e he
    · rw [hshared' fun e he => hclean e (List.mem_append_right l he),
        hshared fun e he => hclean e (List.mem_append_left l' he)]

end

section Operations

variable {H : Host} {scope : Scope}

theorem Follows.of_own {w w' : World} (hevents : w'.events = w.events)
    (hshared : w'.shared = w.shared) : Follows H scope w w' :=
  ⟨[], by simp [hevents], by simp, fun _ => hshared⟩

theorem emit_follows {e : Event} (he : Justified H scope e) : Advances (Follows H scope) (emit e) :=
  Advances.modify fun _ => ⟨[e], rfl, by simpa using he, fun _ => rfl⟩

theorem liftExcept_follows {α : Type} (x : Except Err α) :
    Advances (Follows H scope) (liftExcept x) := by
  cases x with
  | ok a => exact Advances.pure a
  | error e => exact Advances.throw e

theorem returns_liftExcept {α : Type} {x : Except Err α} {a : α}
    (h : Returns (liftExcept x) a) : x = .ok a := by
  obtain ⟨w, hw⟩ := h
  cases x with
  | ok b => 
    obtain rfl : b = a := by simpa [liftExcept] using hw
    rfl
  | error e => simp [liftExcept] at hw

theorem alloc_follows (o : Obj) : Advances (Follows H scope) (alloc o) := by
  intro w
  exact Follows.of_own rfl rfl

theorem runShared_follows {α : Type}
    (f : List Obj → List Obj → Except Value α × List Obj × List Obj) :
    Advances (Follows H scope) (runShared f) := by
  intro w
  have hworld : (exec (runShared f) w).2 =
      ⟨(f w.shared w.own).2.1, (f w.shared w.own).2.2,
        w.events ++ [.ran w.shared (f w.shared w.own).2.1]⟩ := by
    rcases hf : f w.shared w.own with ⟨_ | _, shared, own⟩ <;>
      simp [runShared, exec_bind, exec_map, hf]
  rw [hworld]
  exact ⟨[_], rfl, by simp [Justified], fun hclean => by simpa [Event.Clean] using hclean⟩

theorem callValue_follows (f thisArg : Value) (args : List Value) :
    Advances (Follows H scope) (callValue H f thisArg args) := by
  refine Advances.bind Advances.get fun w _ => ?_
  cases f with
  | prim p => exact Advances.throw _
  | ref r =>
    dsimp only
    split
    · exact runShared_follows _
    · exact Advances.throw _

theorem getProperty_follows (obj : Value) (key : String) :
    Advances (Follows H scope) (getProperty H obj key) := by
  refine Advances.bind Advances.get fun w _ => ?_
  split
  · exact Advances.throw _
  · exact Advances.throw _
  · split
    · exact Advances.pure _
    · exact Advances.pure _
    · exact callValue_follows _ _ _
    · exact Advances.pure _

theorem toPrimitive_follows (hint : String) (v : Value) :
    Advances (Follows H scope) (toPrimitive H hint v) := by
  cases v with
  | prim p => exact Advances.pure _
  | ref r => exact runShared_follows _

theorem toText_follows (v : Value) : Advances (Follows H scope) (toText H v) :=
  Advances.bind (toPrimitive_follows _ v) fun _ _ => Advances.pure _

/-- Writing to a property of a value runs its setter, changes the object, or fails. -/
theorem setProperty_cases (H : Host) (scope : Scope) (obj : Value) (key : String) (value : Value)
    (w : World) :
    Follows H scope w (exec (setProperty H obj key value) w).2 ∨
      ∃ r o, obj = .ref r ∧ (exec (setProperty H obj key value) w).2 = w.putObj r o := by
  rw [setProperty, exec_bind]
  simp only [exec_get]
  split
  · next setter _ _ =>
    left
    exact (Advances.bind (callValue_follows _ _ _) fun _ _ => Advances.pure _) w
  · exact Or.inl (Advances.throw _ w)
  · exact Or.inl (Advances.throw _ w)
  · split
    · exact Or.inl (Advances.throw _ w)
    · split
      · exact Or.inr ⟨_, _, rfl, rfl⟩
      · exact Or.inl (Advances.throw _ w)

@[simp] theorem events_putObj (w : World) (r : Ref) (o : Obj) :
    (w.putObj r o).events = w.events := by
  cases r <;> rfl

/-- Writing to a property of an object of the run. -/
theorem setProperty_follows (i : ℕ) (key : String) (value : Value) :
    Advances (Follows H scope) (setProperty H (.ref (.own i)) key value) := by
  intro w
  obtain h | ⟨r, o, hr, hw⟩ := setProperty_cases H scope (.ref (.own i)) key value w
  · exact h
  · obtain rfl : Ref.own i = r := Value.ref.inj hr
    rw [hw]
    exact Follows.of_own (events_putObj _ _ _) rfl

/-- An assignment, whatever it writes to. -/
theorem assign_follows (obj : Value) (key : String) (value : Value) :
    Advances (Follows H scope) (do
      emit (.assigned obj)
      setProperty H obj key value
      return value) := by
  have hassign : Advances (Follows H scope) (do
      emit (.assigned obj)
      setProperty H obj key value) := by
    intro w
    rw [exec_bind]
    simp only [emit, exec_modify]
    obtain h | ⟨r, o, rfl, hw⟩ := setProperty_cases H scope obj key value
      { w with events := w.events ++ [.assigned obj] }
    · have hemit : Follows H scope w { w with events := w.events ++ [.assigned obj] } :=
        ⟨[_], rfl, by simp [Justified], fun _ => rfl⟩
      exact IsTrans.trans _ _ _ hemit h
    · rw [hw]
      refine ⟨[.assigned (.ref r)], events_putObj _ _ _, by simp [Justified], fun hclean => ?_⟩
      cases r with
      | shared i => exact absurd (hclean _ (List.mem_singleton_self _)) (by simp [Event.Clean])
      | own i => rfl
  have hbind := Advances.bind hassign fun _ _ => Advances.pure value
  rwa [bind_assoc] at hbind

theorem newObject_follows : Advances (Follows H scope) (newObject H) := alloc_follows _

theorem own_of_returns_newObject {r : Ref} (h : Returns (newObject H) r) : ∃ i, r = .own i := by
  obtain ⟨w, hw⟩ := h
  exact ⟨w.own.length, by simpa [newObject, alloc, exec_bind, eq_comm, exec_map] using hw⟩

theorem objectAssign_follows (i : ℕ) (spread : Value) (keys : List String) :
    Advances (Follows H scope) (objectAssign H (.ref (.own i)) spread keys) := by
  induction keys with
  | nil => exact Advances.pure _
  | cons key keys ih =>
    refine Advances.bind (getProperty_follows _ _) fun value _ => ?_
    exact Advances.bind (setProperty_follows _ _ _) fun _ _ => ih

theorem arrayItems_follows (spread : Value) (indices : List ℕ) :
    Advances (Follows H scope) (arrayItems H spread indices) := by
  induction indices with
  | nil => exact Advances.pure _
  | cons i indices ih =>
    refine Advances.bind (getProperty_follows _ _) fun item _ => ?_
    exact Advances.bind ih fun items _ => Advances.pure _

theorem propertyKey_follows (what : String) (property : Expr) (computed : Bool) :
    Advances (Follows H scope) (propertyKey H what property computed) := by
  unfold propertyKey
  split
  · split
    · exact Advances.throw _
    · exact Advances.pure _
  · exact toText_follows _
  · exact Advances.throw _

/-! ### Identifiers and calls -/

theorem visitIdentifier_follows (name : String) :
    Advances (Follows H scope) (visitIdentifier scope name) := by
  refine Advances.bind (liftExcept_follows _) fun value hvalue => ?_
  have hlookup : scope.lookup name = .ok value := returns_liftExcept hvalue
  exact Advances.bind (emit_follows hlookup) fun _ _ => Advances.pure _

theorem applyFunction_follows {way : CallWay} {f : Value}
    (h : Justified H scope (.called way f)) (thisArg : Value) (args : List Value) :
    Advances (Follows H scope) (applyFunction H way f thisArg args) := by
  refine Advances.bind (getProperty_follows _ _) fun apply happly => ?_
  split
  · exact Advances.bind (emit_follows h) fun _ _ => callValue_follows _ _ _
  · next hne =>
    refine Advances.bind (emit_follows ⟨happly, hne⟩) fun _ _ => ?_
    exact Advances.bind (alloc_follows _) fun _ _ => callValue_follows _ _ _

theorem inheritedMember_follows (method : String) :
    Advances (Follows H scope) (inheritedMember H method) :=
  Advances.bind (getProperty_follows _ _) fun _ _ => Advances.pure _

theorem getSafeJSONMethod_follows (method : String) :
    Advances (Follows H scope) (getSafeJSONMethod H method) := by
  unfold getSafeJSONMethod
  split
  · exact Advances.pure _
  · exact inheritedMember_follows method

theorem getSafeStringMethod_follows (method : String) :
    Advances (Follows H scope) (getSafeStringMethod H method) := by
  unfold getSafeStringMethod
  split
  · exact Advances.pure _
  · split
    · exact Advances.pure _
    · exact inheritedMember_follows method

theorem returns_pure {α : Type} {a b : α} (h : Returns (pure a : Run α) b) : a = b := by
  obtain ⟨w, hw⟩ := h
  simpa using hw

theorem callSafeJSON_follows {method : String} {f : Value}
    (h : Returns (getSafeJSONMethod H method) (some f)) (args : List Value) :
    Advances (Follows H scope) (callSafeJSON H method f args) := by
  have hjustified : Justified H scope (.called (.safeJson method) f) := by
    intro hmethod
    rw [getSafeJSONMethod, if_pos hmethod] at h
    exact (Option.some.inj (returns_pure h)).symm
  exact Advances.bind (emit_follows hjustified) fun _ _ => callValue_follows _ _ _

theorem callSafeString_follows {method : String} {f : Value}
    (h : Returns (getSafeStringMethod H method) (some f)) (s : String) (args : List Value) :
    Advances (Follows H scope) (callSafeString H method s f args) := by
  have hjustified : Justified H scope (.called (.safeString method) f) := by
    constructor
    · rintro rfl
      exact (Option.some.inj (returns_pure h)).symm
    · rintro rfl
      exact (Option.some.inj (returns_pure h)).symm
  refine Advances.bind (emit_follows hjustified) fun _ _ => ?_
  split
  · exact callValue_follows _ _ _
  · split
    · exact callValue_follows _ _ _
    · exact callValue_follows _ _ _

theorem justified_of_lookupCallee {name : String} {found : CallWay × Value}
    (h : scope.lookupCallee name = .ok found) : Justified H scope (.called found.1 found.2) := by
  cases hsdk : scope.sdkFunctions.get? name with
  | some f =>
    obtain rfl : (CallWay.sdkFunction name, f) = found := by
      simpa [Scope.lookupCallee, hsdk, pure, Except.pure] using h
    exact hsdk
  | none =>
    cases hvar : scope.variableValues.get? (scope.resolvedName name) with
    | some f =>
      obtain rfl : (CallWay.ofVariable name, f) = found := by
        simpa [Scope.lookupCallee, hsdk, hvar, pure, Except.pure] using h
      exact h
    | none =>
      rw [Scope.lookupCallee, hsdk] at h
      simp [hvar, throw, throwThe, MonadExceptOf.throw] at h

theorem callFunction_follows {way : CallWay} {func : Value}
    (h : Justified H scope (.called way func)) (thisArg : Value) {evaluateArgs : Run (List Value)}
    (hargs : Advances (Follows H scope) evaluateArgs) :
    Advances (Follows H scope) (callFunction H way func thisArg evaluateArgs) := by
  refine Advances.bind Advances.get fun w _ => ?_
  split
  · exact Advances.bind hargs fun args _ => applyFunction_follows h _ _
  · exact Advances.throw _

theorem callAllowedMethod_follows (method : String) (thisArg : Value)
    {evaluateArgs : Run (List Value)} (hargs : Advances (Follows H scope) evaluateArgs) :
    Advances (Follows H scope) (callAllowedMethod H method thisArg evaluateArgs) := by
  refine advances_bind_get fun w => ?_
  split
  · exact Advances.throw _ w
  · next hallowed =>
    have hmethod : isAllowedMethod method := by simpa using hallowed
    split
    · refine rel_exec_bind (getProperty_follows _ _ w) fun func w' hfunc => ?_
      have hjustified : Justified H scope
          (.called (.method thisArg method w.shared w.own) func) :=
        ⟨hmethod, w.events, congrArg Prod.fst hfunc⟩
      exact callFunction_follows hjustified _ hargs w'
    · exact Advances.throw _ w

theorem callMethodOf_follows (method : String) (thisArg : Value)
    {evaluateArgs : Run (List Value)} (hargs : Advances (Follows H scope) evaluateArgs) :
    Advances (Follows H scope) (callMethodOf H method thisArg evaluateArgs) := by
  unfold callMethodOf
  split
  · refine Advances.bind (getSafeStringMethod_follows _) fun safeMethod hsafe => ?_
    split
    · exact Advances.bind hargs fun args _ => callSafeString_follows hsafe _ _
    · exact callAllowedMethod_follows _ _ hargs
  · exact callAllowedMethod_follows _ _ hargs

theorem callMember_follows (isJSON : Bool) (method : String) {evaluateObject : Run Value}
    {evaluateArgs : Run (List Value)} (hobject : Advances (Follows H scope) evaluateObject)
    (hargs : Advances (Follows H scope) evaluateArgs) :
    Advances (Follows H scope) (callMember H isJSON method evaluateObject evaluateArgs) := by
  have hplain : Advances (Follows H scope) (do
      let thisArg ← evaluateObject
      callMethodOf H method thisArg evaluateArgs) :=
    Advances.bind hobject fun thisArg _ => callMethodOf_follows _ _ hargs
  unfold callMember
  split
  · refine Advances.bind (getSafeJSONMethod_follows _) fun safeMethod hsafe => ?_
    cases safeMethod with
    | some f => exact Advances.bind hargs fun args _ => callSafeJSON_follows hsafe _
    | none => exact hplain
  · exact Advances.bind (Advances.pure _) fun safeMethod hnone => by
      rw [← returns_pure hnone]
      exact hplain

/-! ### Operators -/

theorem primitiveOperator_follows (operator hint : String) (left right : Value) :
    Advances (Follows H scope) (primitiveOperator H operator hint left right) := by
  refine Advances.bind (toPrimitive_follows _ _) fun p _ => ?_
  refine Advances.bind (toPrimitive_follows _ _) fun q _ => ?_
  exact Advances.map _ (liftExcept_follows _)

theorem looselyEqual_follows (left right : Value) :
    Advances (Follows H scope) (looselyEqual H left right) := by
  unfold looselyEqual
  split
  · exact Advances.pure _
  · exact Advances.pure _
  · exact Advances.pure _
  · exact Advances.pure _
  · exact Advances.pure _
  · exact primitiveOperator_follows _ _ _ _

theorem strictlyEqual_follows (left right : Value) :
    Advances (Follows H scope) (strictlyEqual H left right) := by
  unfold strictlyEqual
  split
  · exact primitiveOperator_follows _ _ _ _
  · exact Advances.pure _

theorem binaryOperator_follows (operator : String) (left right : Value) :
    Advances (Follows H scope) (binaryOperator H operator left right) := by
  unfold binaryOperator
  split_ifs
  · refine Advances.bind (toText_follows _) fun s _ => ?_
    exact Advances.map _ (toText_follows _)
  · exact primitiveOperator_follows _ _ _ _
  · exact primitiveOperator_follows _ _ _ _
  · exact looselyEqual_follows _ _
  · exact Advances.map _ (looselyEqual_follows _ _)
  · exact strictlyEqual_follows _ _
  · exact Advances.map _ (strictlyEqual_follows _ _)
  · exact Advances.throw _

theorem unaryOperator_follows (operator : String) (arg : Value) :
    Advances (Follows H scope) (unaryOperator H operator arg) := by
  unfold unaryOperator
  split_ifs
  · refine Advances.bind (toPrimitive_follows _ _) fun p _ => ?_
    exact Advances.map _ (liftExcept_follows _)
  · exact Advances.pure _
  · exact Advances.map _ (Advances.bind Advances.get fun _ _ => Advances.pure _)
  · exact Advances.pure _
  · exact Advances.throw _

/-! ### Expressions -/

variable (H scope) (source : Expr → String)

mutual

theorem evaluate_follows (depth : ℕ) (node : Expr) :
    Advances (Follows H scope) (evaluate H source scope depth node) := by
  cases node with
  | call callee args =>
    have hargs := evaluateAll_follows (depth + 1) args
    cases callee with
    | identifier name =>
      rw [evaluate]
      split
      · exact Advances.throw _
      refine Advances.bind (liftExcept_follows _) fun _ _ => ?_
      refine Advances.bind (liftExcept_follows _) fun found hfound => ?_
      have hlookup : scope.lookupCallee name = .ok found := returns_liftExcept hfound
      refine Advances.bind (emit_follows ⟨found.1, hlookup⟩) fun _ _ => ?_
      exact callFunction_follows (justified_of_lookupCallee hlookup) _ hargs
    | member object property computed =>
      have hobject := evaluate_follows (depth + 1) object
      rw [evaluate]
      split
      · exact Advances.throw _
      refine Advances.bind (liftExcept_follows _) fun _ _ => ?_
      refine Advances.bind (liftExcept_follows _) fun _ _ => ?_
      split
      · exact Advances.throw _
      refine Advances.bind (liftExcept_follows _) fun method _ => ?_
      exact callMember_follows _ _ hobject hargs
    | _ =>
      rw [evaluate]
      · split
        · exact Advances.throw _
        · exact Advances.bind (liftExcept_follows _) fun _ _ => Advances.throw _
      all_goals simp
  | member object property computed =>
    rw [evaluate]
    split
    · exact Advances.throw _
    refine Advances.bind (liftExcept_follows _) fun _ _ => ?_
    split
    · exact Advances.throw _
    refine Advances.bind (evaluate_follows _ object) fun obj _ => ?_
    split
    · exact Advances.throw _
    · exact Advances.bind (propertyKey_follows _ _ _) fun key _ => getProperty_follows _ _
  | object properties =>
    rw [evaluate]
    split
    · exact Advances.throw _
    refine Advances.bind newObject_follows fun r hr => ?_
    obtain ⟨i, rfl⟩ := own_of_returns_newObject hr
    exact Advances.map _ (visitMembers_follows _ i properties)
  | array elements =>
    rw [evaluate]
    split
    · exact Advances.throw _
    refine Advances.bind (visitElements_follows _ elements) fun items _ => ?_
    exact Advances.map _ (alloc_follows _)
  | identifier name =>
    rw [evaluate]
    split
    · exact Advances.throw _
    · exact visitIdentifier_follows name
  | literal value =>
    rw [evaluate]
    split
    · exact Advances.throw _
    · exact Advances.pure _
  | template quasis expressions =>
    rw [evaluate]
    split
    · exact Advances.throw _
    · exact Advances.map _ (visitQuasis_follows _ quasis expressions)
  | spread argument =>
    rw [evaluate]
    split
    · exact Advances.throw _
    · exact evaluate_follows _ argument
  | unary operator argument =>
    rw [evaluate]
    split
    · exact Advances.throw _
    · exact Advances.bind (evaluate_follows _ argument) fun _ _ => unaryOperator_follows _ _
  | binary operator left right =>
    rw [evaluate]
    split
    · exact Advances.throw _
    refine Advances.bind (evaluate_follows _ left) fun _ _ => ?_
    exact Advances.bind (evaluate_follows _ right) fun _ _ => binaryOperator_follows _ _ _
  | logical operator left right =>
    rw [evaluate]
    split
    · exact Advances.throw _
    refine Advances.bind (evaluate_follows _ left) fun _ _ => ?_
    split_ifs
    · exact evaluate_follows _ right
    · exact Advances.pure _
    · exact Advances.pure _
    · exact evaluate_follows _ right
    · exact evaluate_follows _ right
    · exact Advances.pure _
    · exact Advances.throw _
  | conditional test consequent alternate =>
    rw [evaluate]
    split
    · exact Advances.throw _
    refine Advances.bind (evaluate_follows _ test) fun _ _ => ?_
    split
    · exact evaluate_follows _ consequent
    · exact evaluate_follows _ alternate
  | assignment operator left right =>
    have hright := evaluate_follows (depth + 1) right
    cases left with
    | member object property computed =>
      have hobject := evaluate_follows (depth + 1) object
      rw [evaluate]
      split
      · exact Advances.throw _
      split
      · exact Advances.throw _
      refine Advances.bind (liftExcept_follows _) fun _ _ => ?_
      split
      · exact Advances.throw _
      refine Advances.bind hobject fun obj _ => ?_
      split
      · exact Advances.throw _
      have hassign : Advances (Follows H scope) (do
          let value ← evaluate H source scope (depth + 1) right
          let key ← propertyKey H "Dynamic property assignment" property computed
          emit (.assigned obj)
          setProperty H obj key value
          return value) := by
        refine Advances.bind hright fun value _ => ?_
        refine Advances.bind (propertyKey_follows _ _ _) fun key _ => ?_
        exact assign_follows obj key value
      split
      · exact Advances.throw _
      · exact hassign
      · exact hassign
      · exact Advances.throw _
    | _ =>
      rw [evaluate]
      · split
        · exact Advances.throw _
        · split <;> exact Advances.throw _
      all_goals simp
  | other type =>
    rw [evaluate]
    split <;> exact Advances.throw _

theorem evaluateAll_follows (depth : ℕ) (nodes : List Expr) :
    Advances (Follows H scope) (evaluateAll H source scope depth nodes) := by
  cases nodes with
  | nil =>
    rw [evaluateAll]
    exact Advances.pure _
  | cons node nodes =>
    rw [evaluateAll]
    refine Advances.bind (evaluate_follows _ node) fun value _ => ?_
    exact Advances.map _ (evaluateAll_follows _ nodes)

theorem visitMembers_follows (depth : ℕ) (i : ℕ) (members : List ObjectMember) :
    Advances (Follows H scope) (visitMembers H source scope depth (.ref (.own i)) members) := by
  cases members with
  | nil =>
    rw [visitMembers]
    exact Advances.pure _
  | cons member members =>
    cases member with
    | spread argument =>
      rw [visitMembers]
      refine Advances.bind (evaluate_follows _ argument) fun spreadValue _ => ?_
      refine Advances.bind Advances.get fun w _ => ?_
      split
      · refine Advances.bind (objectAssign_follows _ _ _) fun _ _ => ?_
        exact visitMembers_follows _ i members
      · exact visitMembers_follows _ i members
    | property key value =>
      rw [visitMembers]
      refine Advances.bind (liftExcept_follows _) fun key _ => ?_
      refine Advances.bind (evaluate_follows _ value) fun value _ => ?_
      exact Advances.bind (setProperty_follows _ _ _) fun _ _ => visitMembers_follows _ i members

theorem visitElements_follows (depth : ℕ) (elements : List ArrayElement) :
    Advances (Follows H scope) (visitElements H source scope depth elements) := by
  cases elements with
  | nil =>
    rw [visitElements]
    exact Advances.pure _
  | cons element elements =>
    cases element with
    | hole =>
      rw [visitElements]
      exact Advances.map _ (visitElements_follows _ elements)
    | spread argument =>
      rw [visitElements]
      refine Advances.bind (evaluate_follows _ argument) fun spreadValue _ => ?_
      refine Advances.bind Advances.get fun w _ => ?_
      split
      · refine Advances.bind (arrayItems_follows _ _) fun _ _ => ?_
        exact Advances.map _ (visitElements_follows _ elements)
      · exact visitElements_follows _ elements
    | element value =>
      rw [visitElements]
      refine Advances.bind (evaluate_follows _ value) fun item _ => ?_
      exact Advances.map _ (visitElements_follows _ elements)

theorem visitQuasis_follows (depth : ℕ) (quasis : List String) (expressions : List Expr) :
    Advances (Follows H scope) (visitQuasis H source scope depth quasis expressions) := by
  cases quasis with
  | nil =>
    rw [visitQuasis]
    exact Advances.pure _
  | cons quasi quasis =>
    cases expressions with
    | nil =>
      rw [visitQuasis]
      · exact Advances.pure _
      · simp
    | cons expression expressions =>
      rw [visitQuasis]
      have hrest := visitQuasis_follows depth quasis expressions
      split
      · refine Advances.bind (Advances.pure _) fun _ _ => ?_
        exact Advances.map _ hrest
      · refine Advances.bind (evaluate_follows _ expression) fun _ _ => ?_
        refine Advances.bind (toText_follows _) fun _ _ => ?_
        exact Advances.map _ hrest

end

end Operations

section Runs

variable (H : Host)

/-- The world after a declaration. -/
def World.record (w : World) (name storedAs : String) (value : Value) : World :=
  { w with events := w.events ++ [.declared name storedAs value] }

/-- The steps of a run: evaluations in the current scope, and declarations, of which the names are
listed. -/
inductive Runs : Scope → World → List String → Scope → World → Prop where
  | done (scope : Scope) (w : World) : Runs scope w [] scope w
  | evaluates {scope scope' : Scope} {w w' w'' : World} {names : List String} :
    Follows H scope w w' → Runs scope w' names scope' w'' → Runs scope w names scope' w''
  | declares {scope scope' : Scope} {w w' : World} {names : List String} (name : String)
    (value : Value) : isAllowedSDKFunction name = false →
    Runs (scope.declare name value) (w.record name name value) names scope' w' →
    Runs scope w (name :: names) scope' w'
  | renames {scope scope' : Scope} {w w' : World} {names : List String} (name : String)
    (value : Value) : isAutoRenameableSDKFunction name = true →
    Runs (scope.declareRenamed name (scope.generateSafeName name) value)
      (w.record name (scope.generateSafeName name) value) names scope' w' →
    Runs scope w (name :: names) scope' w'

variable {H} {source : Expr → String}

theorem Runs.trans {scope scope' scope'' : Scope} {w w' w'' : World} {names names' : List String}
    (h : Runs H scope w names scope' w') (h' : Runs H scope' w' names' scope'' w'') :
    Runs H scope w (names ++ names') scope'' w'' := by
  induction h with
  | done => exact h'
  | evaluates hfollows _ ih => exact .evaluates hfollows (ih h')
  | declares name value hname _ ih => exact .declares name value hname (ih h')
  | renames name value hname _ ih => exact .renames name value hname (ih h')

/-- A computation with the next scope as its result: it ends in that scope having declared all of
`names`, or fails having declared some of them. -/
def RunsTo (H : Host) (scope : Scope) (names : List String) (m : Run Scope) : Prop :=
  ∀ w, match exec m w with
    | (.ok scope', w') => Runs H scope w names scope' w'
    | (.error _, w') => ∃ names' scope', names' <+: names ∧ Runs H scope w names' scope' w'

theorem evaluateInit_follows (H : Host) (source : Expr → String) (scope : Scope)
    (init : Option Expr) :
    Advances (Follows H scope) (evaluateInit H source scope init) := by
  cases init with
  | none => exact Advances.pure _
  | some node => exact evaluate_follows H scope source 0 node

/-- The initial value, and the step that declares the variable. -/
theorem runsTo_declaration {scope : Scope} {name storedAs : String} {init : Option Expr}
    {next : Value → Scope}
    (hstep : ∀ w value, Runs H scope w [name] (next value) (w.record name storedAs value)) :
    RunsTo H scope [name] (do
      let value ← evaluateInit H source scope init
      emit (.declared name storedAs value)
      return next value) := by
  intro w
  have hinit := evaluateInit_follows H source scope init w
  rw [exec_bind]
  cases hexec : exec (evaluateInit H source scope init) w with
  | mk outcome w' =>
    rw [hexec] at hinit
    cases outcome with
    | error e => exact ⟨[], scope, List.nil_prefix, .evaluates hinit (.done _ _)⟩
    | ok value => exact .evaluates hinit (hstep w' value)

theorem visitDeclarator_runs (H : Host) (source : Expr → String) (scope : Scope)
    (declarator : Declarator) :
    RunsTo H scope declarator.id.toList (visitDeclarator H source scope declarator) := by
  unfold visitDeclarator
  cases declarator.id with
  | none => exact fun w => ⟨[], scope, List.nil_prefix, .done _ _⟩
  | some name =>
    dsimp only
    split
    · split
      · next hrename =>
        exact runsTo_declaration fun w value => .renames name value hrename (.done _ _)
      · exact fun w => ⟨[], scope, List.nil_prefix, .done _ _⟩
    · next hallowed =>
      have hname : isAllowedSDKFunction name = false := by simpa using hallowed
      exact runsTo_declaration fun w value => .declares name value hname (.done _ _)

/-- The names that the declarators declare. -/
def declaratorNames (declarators : List Declarator) : List String :=
  declarators.flatMap fun declarator => declarator.id.toList

theorem visitDeclarators_runs (H : Host) (source : Expr → String) (scope : Scope)
    (declarators : List Declarator) :
    RunsTo H scope (declaratorNames declarators) (visitDeclarators H source scope declarators) := by
  induction declarators generalizing scope with
  | nil => exact fun w => .done _ _
  | cons declarator declarators ih =>
    intro w
    have hfirst := visitDeclarator_runs H source scope declarator w
    rw [visitDeclarators, exec_bind, declaratorNames, List.flatMap_cons]
    cases hexec : exec (visitDeclarator H source scope declarator) w with
    | mk outcome w' =>
      rw [hexec] at hfirst
      cases outcome with
      | error e =>
        obtain ⟨names, scope', hprefix, hruns⟩ := hfirst
        exact ⟨names, scope', hprefix.trans (List.prefix_append _ _), hruns⟩
      | ok scope' =>
        have hrest := ih scope' w'
        dsimp only at hfirst hrest ⊢
        cases hexec' : exec (visitDeclarators H source scope' declarators) w' with
        | mk outcome w'' =>
          rw [hexec'] at hrest
          cases outcome with
          | error e =>
            obtain ⟨names, scope'', hprefix, hruns⟩ := hrest
            exact ⟨_, scope'', (List.prefix_append_right_inj _).mpr hprefix, hfirst.trans hruns⟩
          | ok scope'' => exact hfirst.trans hrest

/-- The names that the declarations of a program declare. -/
def declaredNames (ast : Program) : List String :=
  ast.flatMap fun
    | .variableDeclaration _ declarations => declaratorNames declarations
    | _ => []

theorem visitVariableDeclaration_runs (H : Host) (source : Expr → String) (scope : Scope)
    (kind : String) (declarations : List Declarator) :
    RunsTo H scope (declaratorNames declarations)
      (visitVariableDeclaration H source scope kind declarations) := by
  unfold visitVariableDeclaration
  split
  · exact fun w => ⟨[], scope, List.nil_prefix, .done _ _⟩
  · exact visitDeclarators_runs H source scope declarations

theorem interpret_runs (H : Host) (source : Expr → String) (scope : Scope) (result : Value)
    (ast : Program) (w : World) :
    ∃ names scope', names <+: declaredNames ast ∧
      Runs H scope w names scope' (exec (interpret H source scope result ast) w).2 := by
  induction ast generalizing scope result w with
  | nil => exact ⟨[], scope, List.nil_prefix, .done _ _⟩
  | cons statement body ih =>
    cases statement with
    | variableDeclaration kind declarations =>
      have hfirst := visitVariableDeclaration_runs H source scope kind
        declarations w
      rw [interpret, exec_bind, declaredNames, List.flatMap_cons]
      cases hexec : exec (visitVariableDeclaration H source scope kind declarations) w with
      | mk outcome w' =>
        rw [hexec] at hfirst
        cases outcome with
        | error e =>
          obtain ⟨names, scope', hprefix, hruns⟩ := hfirst
          exact ⟨names, scope', hprefix.trans (List.prefix_append _ _), hruns⟩
        | ok scope' =>
          obtain ⟨names, scope'', hprefix, hruns⟩ := ih scope' result w'
          exact ⟨_, scope'', (List.prefix_append_right_inj _).mpr hprefix, hfirst.trans hruns⟩
    | expression expression =>
      have hfirst := evaluate_follows H scope source 0 expression w
      rw [interpret, exec_bind]
      cases hexec : exec (evaluate H source scope 0 expression) w with
      | mk outcome w' =>
        rw [hexec] at hfirst
        cases outcome with
        | error e => exact ⟨[], scope, List.nil_prefix, .evaluates hfirst (.done _ _)⟩
        | ok value =>
          obtain ⟨names, scope', hprefix, hruns⟩ := ih scope value w'
          exact ⟨names, scope', hprefix, .evaluates hfirst hruns⟩
    | exportDefault declaration =>
      have hfirst := evaluate_follows H scope source 0 declaration w
      exact ⟨[], scope, List.nil_prefix, .evaluates hfirst (.done _ _)⟩
    | other type => exact ⟨[], scope, List.nil_prefix, .done _ _⟩

end Runs

end SdkCode

end N8n
