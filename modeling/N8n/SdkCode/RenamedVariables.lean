import N8n.Foundations.Decimal
import N8n.Foundations.History
import N8n.SdkCode.Evaluation

/-!
# Renamed variables

A variable with the name of an SDK function of a sub-node is stored under another name: `my` and
the name, with a number behind it when that is taken. The name is checked against the variables
that have been declared so far. A later declaration is stored under its own name without a check,
so it can overwrite the value of the renamed variable; `captureFree_iff_noCapture` says that this
is the only way in which a variable loses its value.

The names that are tried are distinct (`candidate_injective`), so one that is free is found
(`generateSafeName_free`). Along a run without capture the scope keeps every variable with the
value of its own declaration (`Scope.Keeps`).
-/

namespace N8n

namespace SdkCode

open Effect

/-! ### Fresh names -/

/-- The names that are tried for a base. -/
def candidate (base : String) : ℕ → String
  | 0 => base
  | k + 1 => base ++ toString (k + 1)

theorem candidate_injective (base : String) : Function.Injective (candidate base) := by
  have hne : ∀ k : ℕ, base ≠ base ++ toString (k + 1) := by
    intro k h
    have hlength := congrArg String.length h
    simp at hlength
  intro i j h
  cases i with
  | zero =>
    cases j with
    | zero => rfl
    | succ j => exact absurd h (hne j)
  | succ i =>
    cases j with
    | zero => exact absurd h.symm (hne i)
    | succ j =>
      have hlist := congrArg String.toList h
      simp only [candidate, String.toList_append, List.append_cancel_left_eq] at hlist
      exact Decimal.toString_injective (String.toList_inj.mp hlist)

theorem freeName_spec (taken : String → Bool) (base : String) (fuel i k : ℕ) (hk : k ≤ fuel)
    (hfree : taken (candidate base (i + k)) = false) :
    taken (freeName taken base fuel (candidate base i) (i + 1)) = false := by
  induction fuel generalizing i k with
  | zero =>
    obtain rfl : k = 0 := Nat.le_zero.mp hk
    exact hfree
  | succ fuel ih =>
    rw [freeName]
    split
    · next htaken =>
      cases k with
      | zero => simp [htaken] at hfree
      | succ k => exact ih (i + 1) k (by omega) (by rwa [Nat.add_right_comm, Nat.add_assoc])
    · next htaken => simpa using htaken

theorem generateSafeName_free (scope : Scope) (name : String) :
    scope.variableValues.has (scope.generateSafeName name) = false := by
  let taken := fun candidate =>
    scope.variableValues.has candidate || scope.sdkFunctions.has candidate
  let base := "my" ++ name.capitalize
  let fuel := scope.variableValues.size + scope.sdkFunctions.size
  have hexists : ∃ k ≤ fuel, taken (candidate base k) = false := by
    by_contra hall
    push Not at hall
    -- there are more candidates than names that are taken
    have hnodup : ((List.range (fuel + 1)).map (candidate base)).Nodup :=
      List.nodup_range.map (candidate_injective base)
    have hsubset : (List.range (fuel + 1)).map (candidate base) ⊆
        scope.variableValues.keys ++ scope.sdkFunctions.keys := by
      intro c hc
      obtain ⟨k, hk, rfl⟩ := List.mem_map.mp hc
      have htaken := hall k (Nat.le_of_lt_succ (List.mem_range.mp hk))
      rw [ne_eq, Bool.not_eq_false, Bool.or_eq_true, InsertionMap.has_eq_true_iff,
        InsertionMap.has_eq_true_iff] at htaken
      exact List.mem_append.mpr htaken
    have hlength := (List.subperm_of_subset hnodup hsubset).length_le
    simp only [InsertionMap.keys, fuel, InsertionMap.size, List.length_append, List.length_map,
      List.length_range] at hlength
    omega
  obtain ⟨k, hk, hfree⟩ := hexists
  have hspec := freeName_spec taken base fuel 0 k hk (by rwa [Nat.zero_add])
  simp only [taken, Bool.or_eq_false_iff] at hspec
  exact hspec.1

/-! ### Capture -/

/-- No declaration that is executed has the name that an earlier renamed variable was stored
under. -/
def NoCapture : List Event → Prop :=
  EachAfter fun earlier e =>
    match e with
    | .declared name _ _ => isAllowedSDKFunction name = false →
      ∀ declared storedAs value, .declared declared storedAs value ∈ earlier →
        isAutoRenameableSDKFunction declared → storedAs ≠ name
    | _ => True

/-- An identifier that names a declared variable is evaluated to the value of its declaration, and
so is one that is called, unless it is the name of an SDK function; and no declaration is stored
under the name of an earlier one. -/
def CaptureFree (sdkFunctions : InsertionMap String Value) : List Event → Prop :=
  EachAfter fun earlier e =>
    match e with
    | .identifier name value =>
      ∀ storedAs own, .declared name storedAs own ∈ earlier → value = own
    | .callee name value => sdkFunctions.get? name = none →
      ∀ storedAs own, .declared name storedAs own ∈ earlier → value = own
    | .declared _ storedAs _ =>
      ∀ declared storedAs' value, .declared declared storedAs' value ∈ earlier →
        storedAs' ≠ storedAs
    | _ => True

/-- The scope has every declared variable with the value of its own declaration. -/
structure Scope.Keeps (scope : Scope) (sdkFunctions : InsertionMap String Value)
    (events : List Event) : Prop where
  sdkFunctions_eq : scope.sdkFunctions = sdkFunctions
  value : ∀ name storedAs own, .declared name storedAs own ∈ events →
    scope.resolvedName name = storedAs ∧ scope.variableValues.get? storedAs = some own
  renamed : ∀ name storedAs, scope.renamedVariables.get? name = some storedAs →
    isAutoRenameableSDKFunction name = true

variable {H : Host} {sdkFunctions : InsertionMap String Value} {scope scope' : Scope}

theorem isAutoRenameable_of_not_allowed {name : String} (h : isAllowedSDKFunction name = false) :
    isAutoRenameableSDKFunction name = false := by
  have hsubset : autoRenameableSdkFunctions ⊆ allowedSdkFunctions := by decide
  simp only [isAllowedSDKFunction, isAutoRenameableSDKFunction, decide_eq_false_iff_not] at h ⊢
  exact fun hmem => h (hsubset hmem)

theorem not_declared_of_justified {l : List Event} (h : ∀ e ∈ l, Justified H scope e)
    {name storedAs : String} {value : Value} : .declared name storedAs value ∉ l :=
  fun hmem => h _ hmem

theorem Scope.Keeps.append {events l : List Event} (h : scope.Keeps sdkFunctions events)
    (hjustified : ∀ e ∈ l, Justified H scope e) : scope.Keeps sdkFunctions (events ++ l) where
  sdkFunctions_eq := h.sdkFunctions_eq
  value name storedAs own hmem := by
    obtain hmem | hmem := List.mem_append.mp hmem
    · exact h.value name storedAs own hmem
    · exact absurd hmem (not_declared_of_justified hjustified)
  renamed := h.renamed

/-- What an earlier variable is stored under is not the name of a declaration that captures
nothing. -/
theorem Scope.Keeps.storedAs_ne {events : List Event} (h : scope.Keeps sdkFunctions events)
    {name declared storedAs : String} {value : Value}
    (hmem : .declared declared storedAs value ∈ events) (hne : declared ≠ name)
    (hcapture : isAutoRenameableSDKFunction declared → storedAs ≠ name) : storedAs ≠ name := by
  cases hget : scope.renamedVariables.get? declared with
  | some safeName => exact hcapture (h.renamed declared safeName hget)
  | none =>
    have hresolved := (h.value declared storedAs value hmem).1
    rw [Scope.resolvedName, hget, Option.getD_none] at hresolved
    exact hresolved ▸ hne

theorem Scope.Keeps.declare {events : List Event} (h : scope.Keeps sdkFunctions events)
    {name : String} (value : Value) (hname : isAllowedSDKFunction name = false)
    (hstored : ∀ declared storedAs own, .declared declared storedAs own ∈ events →
      storedAs ≠ name) :
    (scope.declare name value).Keeps sdkFunctions (events ++ [.declared name name value]) where
  sdkFunctions_eq := h.sdkFunctions_eq
  value declared storedAs own hmem := by
    obtain hmem | hmem := List.mem_append.mp hmem
    · obtain ⟨hresolved, hvalue⟩ := h.value declared storedAs own hmem
      refine ⟨hresolved, ?_⟩
      exact (InsertionMap.get?_set_of_ne _ (hstored declared storedAs own hmem) value).trans hvalue
    · obtain ⟨hdeclared, hstoredAs, hown⟩ : declared = name ∧ storedAs = name ∧ own = value := by
        simpa using hmem
      have hnone : scope.renamedVariables.get? name = none := by
        cases hget : scope.renamedVariables.get? name with
        | none => rfl
        | some safeName =>
          have hrename := h.renamed _ safeName hget
          rw [isAutoRenameable_of_not_allowed hname] at hrename
          exact absurd hrename Bool.false_ne_true
      rw [hdeclared, hstoredAs, hown]
      refine ⟨?_, InsertionMap.get?_set_self _ _ _⟩
      simp [Scope.resolvedName, Scope.declare, hnone]
  renamed := h.renamed

theorem Scope.Keeps.storedAs_ne_safeName {events : List Event}
    (h : scope.Keeps sdkFunctions events) (name : String) {declared storedAs : String}
    {own : Value} (hmem : .declared declared storedAs own ∈ events) :
    storedAs ≠ scope.generateSafeName name := by
  rintro rfl
  have hvalue := (h.value declared _ own hmem).2
  have hfree := generateSafeName_free scope name
  rw [InsertionMap.has, hvalue] at hfree
  exact absurd hfree (by simp)

theorem Scope.Keeps.declareRenamed {events : List Event} (h : scope.Keeps sdkFunctions events)
    {name : String} (value : Value) (hname : isAutoRenameableSDKFunction name = true)
    (hnew : ∀ storedAs own, .declared name storedAs own ∉ events) :
    (scope.declareRenamed name (scope.generateSafeName name) value).Keeps sdkFunctions
      (events ++ [.declared name (scope.generateSafeName name) value]) where
  sdkFunctions_eq := h.sdkFunctions_eq
  value declared storedAs own hmem := by
    obtain hold | hlast := List.mem_append.mp hmem
    · obtain ⟨hresolved, hvalue⟩ := h.value declared storedAs own hold
      have hne : declared ≠ name := fun heq => hnew storedAs own (heq ▸ hold)
      have hstored := h.storedAs_ne_safeName name hold
      refine ⟨?_, (InsertionMap.get?_set_of_ne _ hstored value).trans hvalue⟩
      rw [Scope.resolvedName, Scope.declareRenamed, InsertionMap.get?_set_of_ne _ hne]
      exact hresolved
    · obtain ⟨rfl, rfl, rfl⟩ : declared = name ∧ storedAs = scope.generateSafeName name ∧
          own = value := by simpa using hlast
      refine ⟨?_, InsertionMap.get?_set_self _ _ _⟩
      simp [Scope.resolvedName, Scope.declareRenamed]
  renamed declared storedAs hget := by
    simp only [Scope.declareRenamed, InsertionMap.get?_set] at hget
    split at hget
    · next heq => rw [heq, hname]
    · exact h.renamed declared storedAs hget

theorem Scope.Keeps.lookup {events : List Event} (h : scope.Keeps sdkFunctions events)
    {name storedAs : String} {own : Value} (hmem : .declared name storedAs own ∈ events) :
    scope.lookup name = .ok own := by
  obtain ⟨hresolved, hvalue⟩ := h.value name storedAs own hmem
  rw [Scope.lookup, hresolved, hvalue]
  rfl

theorem Scope.Keeps.lookupCallee {events : List Event} (h : scope.Keeps sdkFunctions events)
    {name storedAs : String} {own : Value} (hmem : .declared name storedAs own ∈ events)
    (hsdk : sdkFunctions.get? name = none) :
    scope.lookupCallee name = .ok (.ofVariable name, own) := by
  obtain ⟨hresolved, hvalue⟩ := h.value name storedAs own hmem
  rw [Scope.lookupCallee, h.sdkFunctions_eq, hsdk, hresolved, hvalue]
  rfl

/-! ### Along a run -/

theorem Runs.events_prefix {w w' : World} {names : List String}
    (hruns : Runs H scope w names scope' w') : w.events <+: w'.events := by
  induction hruns with
  | done => exact List.prefix_rfl
  | evaluates hfollows _ ih =>
    obtain ⟨l, hl, -⟩ := hfollows.events
    exact (hl ▸ List.prefix_append _ _).trans ih
  | declares name value hname _ ih => exact (List.prefix_append _ _).trans ih
  | renames name value hname _ ih => exact (List.prefix_append _ _).trans ih

/-- The events of an evaluation see the values that the scope keeps. -/
theorem CaptureFree.append {events l : List Event} (hfree : CaptureFree sdkFunctions events)
    (hkeeps : scope.Keeps sdkFunctions events) (hjustified : ∀ e ∈ l, Justified H scope e) :
    CaptureFree sdkFunctions (events ++ l) := by
  refine EachAfter.append hfree fun a e b heq => ?_
  have he : Justified H scope e := hjustified e (by simp [heq])
  have ha : ∀ e ∈ a, Justified H scope e := fun e he => hjustified e (by simp [heq, he])
  have hkeeps' := hkeeps.append ha
  cases e with
  | identifier name value =>
    intro storedAs own hmem
    have hlookup : scope.lookup name = .ok value := he
    rw [hkeeps'.lookup hmem] at hlookup
    exact (Except.ok.inj hlookup).symm
  | callee name value =>
    intro hsdk storedAs own hmem
    obtain ⟨way, hlookup⟩ : ∃ way, scope.lookupCallee name = .ok (way, value) := he
    rw [hkeeps'.lookupCallee hmem hsdk] at hlookup
    exact (Prod.mk.inj (Except.ok.inj hlookup)).2.symm
  | declared name storedAs value => exact absurd he id
  | _ => trivial

theorem Runs.captureFree {w w' : World} {names : List String}
    (hruns : Runs H scope w names scope' w') (hkeeps : scope.Keeps sdkFunctions w.events)
    (hnew : ∀ name ∈ names, ∀ storedAs own, .declared name storedAs own ∉ w.events)
    (hnodup : names.Nodup) (hcapture : NoCapture w'.events)
    (hfree : CaptureFree sdkFunctions w.events) : CaptureFree sdkFunctions w'.events := by
  induction hruns with
  | done => exact hfree
  | evaluates hfollows _ ih =>
    obtain ⟨l, hl, hjustified, -⟩ := hfollows.events
    refine ih (hl ▸ hkeeps.append hjustified) ?_ hnodup hcapture
      (hl ▸ hfree.append hkeeps hjustified)
    intro name hname storedAs own hmem
    obtain hmem | hmem := List.mem_append.mp (hl ▸ hmem)
    · exact hnew name hname storedAs own hmem
    · exact not_declared_of_justified hjustified hmem
  | @declares scope scope' w w' names name value hname hrest ih =>
    obtain ⟨hnotin, hnodup⟩ := List.nodup_cons.mp hnodup
    -- a declaration under its own name overwrites nothing: this is where capture would happen
    have hstored : ∀ declared storedAs own, .declared declared storedAs own ∈ w.events →
        storedAs ≠ name := by
      intro declared storedAs own hmem
      refine hkeeps.storedAs_ne hmem ?_ fun hrename => ?_
      · rintro rfl
        exact hnew declared List.mem_cons_self storedAs own hmem
      · obtain ⟨later, hlater⟩ := hrest.events_prefix
        have hevents : w'.events = w.events ++ .declared name name value :: later := by
          rw [← hlater]
          simp [World.record]
        exact hcapture _ _ _ hevents hname declared storedAs own hmem hrename
    refine ih (hkeeps.declare value hname hstored) ?_ hnodup hcapture ?_
    · intro declared hdeclared storedAs own hmem
      obtain hmem | hmem := List.mem_append.mp hmem
      · exact hnew declared (List.mem_cons_of_mem _ hdeclared) storedAs own hmem
      · obtain ⟨rfl, -⟩ : declared = name ∧ storedAs = name ∧ own = value := by simpa using hmem
        exact hnotin hdeclared
    · exact EachAfter.concat hfree hstored
  | @renames scope scope' w w' names name value hname hrest ih =>
    obtain ⟨hnotin, hnodup⟩ := List.nodup_cons.mp hnodup
    -- a safe name is chosen against all variables that are stored already
    refine ih (hkeeps.declareRenamed value hname (hnew name List.mem_cons_self)) ?_ hnodup
      hcapture ?_
    · intro declared hdeclared storedAs own hmem
      obtain hmem | hmem := List.mem_append.mp hmem
      · exact hnew declared (List.mem_cons_of_mem _ hdeclared) storedAs own hmem
      · obtain ⟨rfl, -⟩ : declared = name ∧ storedAs = scope.generateSafeName name ∧
            own = value := by simpa using hmem
        exact hnotin hdeclared
    · exact EachAfter.concat hfree fun declared storedAs own hmem =>
        hkeeps.storedAs_ne_safeName name hmem

/-- A variable whose name is not an SDK function's is stored under it. -/
theorem Runs.storedAs_eq {w w' : World} {names : List String}
    (hruns : Runs H scope w names scope' w')
    (h : ∀ name storedAs own, .declared name storedAs own ∈ w.events →
      isAllowedSDKFunction name = false → storedAs = name) :
    ∀ name storedAs own, .declared name storedAs own ∈ w'.events →
      isAllowedSDKFunction name = false → storedAs = name := by
  induction hruns with
  | done => exact h
  | evaluates hfollows _ ih =>
    obtain ⟨l, hl, hjustified, -⟩ := hfollows.events
    refine ih fun name storedAs own hmem => ?_
    obtain hmem | hmem := List.mem_append.mp (hl ▸ hmem)
    · exact h name storedAs own hmem
    · exact absurd hmem (not_declared_of_justified hjustified)
  | declares name' value hname _ ih =>
    refine ih fun name storedAs own hmem => ?_
    obtain hmem | hmem := List.mem_append.mp hmem
    · exact h name storedAs own hmem
    · intro _
      obtain ⟨rfl, rfl, -⟩ : name = name' ∧ storedAs = name' ∧ own = value := by simpa using hmem
      rfl
  | @renames scope _ w _ _ name' value hname _ ih =>
    refine ih fun name storedAs own hmem hallowed => ?_
    obtain hmem | hmem := List.mem_append.mp hmem
    · exact h name storedAs own hmem hallowed
    · obtain ⟨rfl, -⟩ : name = name' ∧ storedAs = scope.generateSafeName name' ∧ own = value := by
        simpa using hmem
      rw [isAutoRenameable_of_not_allowed hallowed] at hname
      exact absurd hname Bool.false_ne_true

theorem noCapture_of_captureFree {events : List Event}
    (hstored : ∀ name storedAs own, .declared name storedAs own ∈ events →
      isAllowedSDKFunction name = false → storedAs = name)
    (h : CaptureFree sdkFunctions events) : NoCapture events := by
  intro earlier e later heq
  cases e with
  | declared name storedAs value =>
    intro hname declared storedAs' own hmem _
    have hne := h earlier _ later heq declared storedAs' own hmem
    rwa [hstored name storedAs value (by simp [heq]) hname] at hne
  | _ => trivial

/-- In a run of a program that declares no name twice, the variables keep the values of their own
declarations exactly when no declaration has the name that an earlier variable was renamed to. -/
theorem captureFree_iff_noCapture (H : Host) (source : Expr → String)
    (sdkFunctions : InsertionMap String Value) (ast : Program) (parsed shared : List Obj)
    (hdistinct : (declaredNames ast).Nodup) :
    CaptureFree sdkFunctions
        (interpretSDKCode H source sdkFunctions ast parsed shared).2.events ↔
      NoCapture (interpretSDKCode H source sdkFunctions ast parsed shared).2.events := by
  obtain ⟨names, scope', hprefix, hruns⟩ := interpret_runs H source ⟨sdkFunctions, .empty, .empty⟩
    .undefined ast ⟨shared, parsed, []⟩
  constructor
  · refine noCapture_of_captureFree (hruns.storedAs_eq fun name storedAs own hmem => ?_)
    exact absurd hmem List.not_mem_nil
  · intro hcapture
    have hkeeps : Scope.Keeps ⟨sdkFunctions, .empty, .empty⟩ sdkFunctions [] :=
      ⟨rfl, fun _ _ _ hmem => absurd hmem List.not_mem_nil, fun _ _ hget => by simp at hget⟩
    exact hruns.captureFree hkeeps (fun _ _ _ _ => List.not_mem_nil)
      (hdistinct.sublist hprefix.sublist) hcapture EachAfter.nil

/-- `const myMemory = 'b'; const memory = 'a'; export default memory;` -/
def uncaptured : Program :=
  [.variableDeclaration "const" [⟨some "myMemory", some (.literal (.string "b"))⟩],
    .variableDeclaration "const" [⟨some "memory", some (.literal (.string "a"))⟩],
    .exportDefault (.identifier "memory")]

/-- The second variable is stored as `myMemory1`, and its name evaluates to its value. -/
theorem captureFree_iff_noCapture_uncaptured :
    CaptureFree .empty (interpretSDKCode Host.minimal (fun _ => "") .empty uncaptured []
        Host.minimalObjects).2.events ∧
      (interpretSDKCode Host.minimal (fun _ => "") .empty uncaptured []
        Host.minimalObjects).2.events = [.declared "myMemory" "myMemory" (.string "b"),
          .declared "memory" "myMemory1" (.string "a"), .identifier "memory" (.string "a")] := by
  have hevents : (interpretSDKCode Host.minimal (fun _ => "") .empty uncaptured []
      Host.minimalObjects).2.events = [.declared "myMemory" "myMemory" (.string "b"),
        .declared "memory" "myMemory1" (.string "a"), .identifier "memory" (.string "a")] := by
    decide
  refine ⟨(captureFree_iff_noCapture Host.minimal (fun _ => "") .empty uncaptured []
    Host.minimalObjects (by decide)).mpr ?_, hevents⟩
  rw [hevents]
  have hfirst : NoCapture ([] ++ [.declared "myMemory" "myMemory" (.string "b")]) :=
    EachAfter.nil.concat fun _ _ _ _ hmem => absurd hmem List.not_mem_nil
  refine (hfirst.concat (e := .declared "memory" "myMemory1" (.string "a")) ?_).concat ?_
  · exact fun hnot => absurd hnot (by decide)
  · trivial

/-- `const memory = 'a'; const myMemory = 'b'; export default memory;` -/
def capturing : Program :=
  [.variableDeclaration "const" [⟨some "memory", some (.literal (.string "a"))⟩],
    .variableDeclaration "const" [⟨some "myMemory", some (.literal (.string "b"))⟩],
    .exportDefault (.identifier "memory")]

/-- `memory` comes to the value of `myMemory`. -/
theorem not_captureFree_capturing :
    (declaredNames capturing).Nodup ∧
      ¬CaptureFree .empty (interpretSDKCode Host.minimal (fun _ => "") .empty capturing []
        Host.minimalObjects).2.events := by
  refine ⟨by decide, fun h => ?_⟩
  have hevents : (interpretSDKCode Host.minimal (fun _ => "") .empty capturing []
      Host.minimalObjects).2.events =
      [.declared "memory" "myMemory" (.string "a"),
        .declared "myMemory" "myMemory" (.string "b")] ++
          .identifier "memory" (.string "b") :: [] := by decide
  have hvalue := h _ _ _ hevents "myMemory" (.string "a") (by decide)
  exact absurd hvalue (by decide)

end SdkCode

end N8n
