import N8n.Foundations.Paths

/-!
# Searches for a goal

`search` looks for a goal among the vertices that can be reached from a vertex. All calls of a
search share the list of the vertices that were expanded, and none of them is expanded again. A
vertex without an entry in `next` is not expanded, and not added to the list either.

The search finds a goal exactly if one is reachable off the vertices that had been expanded before
(`foldl_visit_iff`). That is so although a vertex that is skipped may still be under way: what the
list holds that was not there before is only known to be settled, all its successors being in the
list too or dead ends (`Settled`).
-/

universe u

namespace GoalSearch

open Relation

variable {V : Type u} {next : V → Option (List V)} {goal : V → Bool} {seen : List V} {v w : V}

/-! ### Paths off the vertices that were expanded -/

/-- A step to a successor that was not expanded before. -/
def Step (next : V → Option (List V)) (seen : List V) (v w : V) : Prop :=
  (∃ ws, next v = some ws ∧ w ∈ ws) ∧ w ∉ seen

/-- A goal is reachable from the vertex. -/
def ReachesGoal (next : V → Option (List V)) (goal : V → Bool) (seen : List V) (v : V) : Prop :=
  ∃ u, goal u = true ∧ ReflTransGen (Step next seen) v u

theorem ReachesGoal.mono {seen' : List V} (hsubset : seen ⊆ seen')
    (h : ReachesGoal next goal seen' v) : ReachesGoal next goal seen v := by
  obtain ⟨u, hu, hpath⟩ := h
  have hstep (x y : V) (hxy : Step next seen' x y) : Step next seen x y :=
    ⟨hxy.1, fun hmem => hxy.2 (hsubset hmem)⟩
  exact ⟨u, hu, ReflTransGen.mono hstep _ _ hpath⟩

/-! ### The search -/

variable [DecidableEq V]

/-- One vertex, with the search from it as a parameter. The pair says whether a goal was found, and
which vertices were expanded. -/
def visit (search : V → List V → Bool × List V) (found : Bool × List V) (w : V) :
    Bool × List V :=
  if w ∈ found.2 then found
  else (found.1 || (search w found.2).1, (search w found.2).2)

/-- The search, with a bound on the depth of nested calls. -/
def search (next : V → Option (List V)) (goal : V → Bool) : ℕ → V → List V → Bool × List V
  | 0, v, seen => (goal v, seen)
  | fuel + 1, v, seen =>
    match next v with
    | none => (goal v, seen)
    | some ws =>
      let found := ws.foldl (visit (search next goal fuel)) (false, seen ++ [v])
      (goal v || found.1, found.2)

/-! ### What a search does -/

/-- A vertex that is no goal and leads nowhere. -/
def DeadEnd (next : V → Option (List V)) (goal : V → Bool) (v : V) : Prop :=
  goal v = false ∧ next v = none

/-- A vertex that is no goal, and whose successors were expanded or are dead ends. -/
def Settled (next : V → Option (List V)) (goal : V → Bool) (seen : List V) (v : V) : Prop :=
  goal v = false ∧ ∀ ws, next v = some ws → ∀ w ∈ ws, w ∈ seen ∨ DeadEnd next goal w

/-- What a search from the vertices `ws` makes of the list of the vertices that were expanded. -/
structure Outcome (next : V → Option (List V)) (goal : V → Bool) (ws seen : List V)
    (found : Bool × List V) : Prop where
  subset : seen ⊆ found.2
  reaches : found.1 = true → ∃ w ∈ ws, w ∉ seen ∧ ReachesGoal next goal seen w
  expanded : found.1 = false → ∀ w ∈ ws, w ∈ found.2 ∨ DeadEnd next goal w
  settled : found.1 = false → ∀ v ∈ found.2, v ∈ seen ∨ Settled next goal found.2 v

variable {ws ws' : List V} {found : Bool × List V}

omit [DecidableEq V] in
theorem Settled.mono {seen' : List V} (h : Settled next goal seen v) (hsubset : seen ⊆ seen') :
    Settled next goal seen' v :=
  ⟨h.1, fun ws hws w hw => (h.2 ws hws w hw).imp_left fun hmem => hsubset hmem⟩

omit [DecidableEq V] in
theorem Outcome.nil (seen : List V) : Outcome next goal [] seen (false, seen) where
  subset := List.Subset.refl seen
  reaches := fun h => absurd h Bool.false_ne_true
  expanded := fun _ _ hw => absurd hw List.not_mem_nil
  settled := fun _ _ hv => .inl hv

/-- **One more vertex.** It was expanded already, or it is searched from now. -/
theorem Outcome.visit {search : V → List V → Bool × List V}
    (h : Outcome next goal ws seen found)
    (hsearch : w ∉ found.2 → Outcome next goal [w] found.2 (search w found.2)) :
    Outcome next goal (ws ++ [w]) seen (visit search found w) := by
  rw [GoalSearch.visit]
  split_ifs with hw
  · -- the vertex is skipped
    exact {
      subset := h.subset
      reaches := fun hfound => by
        obtain ⟨v, hv, hreaches⟩ := h.reaches hfound
        exact ⟨v, List.mem_append_left _ hv, hreaches⟩
      expanded := fun hfound v hv => by
        obtain hv | hv := List.mem_append.mp hv
        · exact h.expanded hfound v hv
        · exact .inl (List.mem_singleton.mp hv ▸ hw)
      settled := h.settled }
  · have hafter := hsearch hw
    exact {
      subset := List.Subset.trans h.subset hafter.subset
      reaches := fun hfound => by
        obtain hfound | hfound := Bool.or_eq_true_iff.mp hfound
        · obtain ⟨v, hv, hreaches⟩ := h.reaches hfound
          exact ⟨v, List.mem_append_left _ hv, hreaches⟩
        · obtain ⟨v, hv, -, hreaches⟩ := hafter.reaches hfound
          obtain rfl := List.mem_singleton.mp hv
          exact ⟨v, List.mem_append_right _ hv, fun hmem => hw (h.subset hmem),
            hreaches.mono h.subset⟩
      expanded := fun hfound v hv => by
        obtain ⟨hbefore, hsearched⟩ := Bool.or_eq_false_iff.mp hfound
        obtain hv | hv := List.mem_append.mp hv
        · exact (h.expanded hbefore v hv).imp_left fun hmem => hafter.subset hmem
        · exact hafter.expanded hsearched v hv
      settled := fun hfound v hv => by
        obtain ⟨hbefore, hsearched⟩ := Bool.or_eq_false_iff.mp hfound
        obtain hv | hv := hafter.settled hsearched v hv
        · exact (h.settled hbefore v hv).imp_right fun hsettled => hsettled.mono hafter.subset
        · exact .inr hv }

/-- The same for several vertices. The searches are known for the lists that are met. -/
theorem Outcome.foldl_visit {search : V → List V → Bool × List V}
    (h : Outcome next goal ws seen found)
    (hsearch : ∀ seen' w, seen ⊆ seen' → w ∉ seen' →
      Outcome next goal [w] seen' (search w seen')) :
    Outcome next goal (ws ++ ws') seen (ws'.foldl (GoalSearch.visit search) found) := by
  induction ws' generalizing ws found with
  | nil =>
    rw [List.append_nil]
    exact h
  | cons w ws' ih =>
    have hstep := h.visit fun hw => hsearch found.2 w h.subset hw
    rw [List.foldl_cons, List.append_cons]
    exact ih hstep

variable {vertices : List V}

/-- **One search**, with a call for every vertex that can be expanded. -/
theorem outcome_search (hnext : ∀ v, next v ≠ none → v ∈ vertices) {fuel : ℕ}
    (hfuel : (vertices.filter (· ∉ seen)).length < fuel) (hv : v ∉ seen) :
    Outcome next goal [v] seen (search next goal fuel v seen) := by
  induction fuel generalizing v seen with
  | zero => exact absurd hfuel (Nat.not_lt_zero _)
  | succ fuel ih =>
    rw [search]
    cases hws : next v with
    | none =>
      exact {
        subset := List.Subset.refl seen
        reaches := fun hgoal => ⟨v, List.mem_cons_self, hv, v, hgoal, .refl⟩
        expanded := fun hgoal w hw => .inr (List.mem_singleton.mp hw ▸ ⟨hgoal, hws⟩)
        settled := fun _ w hw => .inl hw }
    | some ws =>
      have hvertex : v ∈ vertices := hnext v (hws ▸ Option.some_ne_none _)
      have hfold : Outcome next goal ([] ++ ws) (seen ++ [v])
          (ws.foldl (GoalSearch.visit (search next goal fuel)) (false, seen ++ [v])) := by
        refine (Outcome.nil _).foldl_visit fun seen' w hsubset hw => ih ?_ hw
        have hlt := Paths.length_filter_notMem_lt
          (List.Subset.trans (List.subset_append_left _ _) hsubset) hvertex hv
          (hsubset (List.mem_append_right _ List.mem_cons_self))
        omega
      exact {
        subset := List.Subset.trans (List.subset_append_left _ _) hfold.subset
        reaches := fun hfound => by
          refine ⟨v, List.mem_cons_self, hv, ?_⟩
          obtain hgoal | hfound := Bool.or_eq_true_iff.mp hfound
          · exact ⟨v, hgoal, .refl⟩
          · obtain ⟨w, hw, hnot, hreaches⟩ := hfold.reaches hfound
            obtain ⟨u, hu, hpath⟩ := hreaches.mono (List.subset_append_left seen [v])
            exact ⟨u, hu, hpath.head ⟨⟨ws, hws, hw⟩, fun hmem =>
              hnot (List.mem_append_left _ hmem)⟩⟩
        expanded := fun _ w hw => by
          refine .inl (hfold.subset ?_)
          exact List.mem_append_right _ hw
        settled := fun hfound w hw => by
          obtain ⟨hgoal, hnone⟩ := Bool.or_eq_false_iff.mp hfound
          obtain hmem | hsettled := hfold.settled hnone w hw
          · refine (List.mem_append.mp hmem).imp_right fun hmem => ?_
            obtain rfl := List.mem_singleton.mp hmem
            refine ⟨hgoal, fun ws' hws' => ?_⟩
            obtain rfl := Option.some.inj (hws.symm.trans hws')
            exact hfold.expanded hnone
          · exact .inr hsettled }

omit [DecidableEq V] in
/-- A search without a goal settled all that is reachable. -/
theorem Outcome.not_reaches (h : Outcome next goal ws seen found) (hfound : found.1 = false)
    (hw : w ∈ ws) (hnot : w ∉ seen) : ¬ ReachesGoal next goal seen w := by
  rintro ⟨u, hu, hpath⟩
  have hsettled {x : V} (hpath : ReflTransGen (Step next seen) w x) :
      (x ∈ found.2 ∧ x ∉ seen) ∨ DeadEnd next goal x := by
    induction hpath with
    | refl => exact (h.expanded hfound w hw).imp_left fun hmem => ⟨hmem, hnot⟩
    | tail hpath hstep ih =>
      obtain ⟨⟨ws', hws', hmem'⟩, hnew⟩ := hstep
      obtain ⟨hmem, hold⟩ | hdead := ih
      · have hset := (h.settled hfound _ hmem).resolve_left hold
        exact (hset.2 ws' hws' _ hmem').imp_left fun hmem => ⟨hmem, hnew⟩
      · exact absurd (hdead.2.symm.trans hws') nofun
  have hgoal : goal u = false := by
    obtain ⟨hmem, hold⟩ | hdead := hsettled hpath
    · exact ((h.settled hfound u hmem).resolve_left hold).1
    · exact hdead.1
  exact Bool.false_ne_true (hgoal.symm.trans hu)

/-- **What is found from several vertices**: a goal that is reachable from one of them. -/
theorem foldl_visit_iff (hnext : ∀ v, next v ≠ none → v ∈ vertices) {fuel : ℕ}
    (hfuel : (vertices.filter (· ∉ seen)).length < fuel) :
    (ws.foldl (visit (search next goal fuel)) (false, seen)).1 = true ↔
      ∃ w ∈ ws, w ∉ seen ∧ ReachesGoal next goal seen w := by
  have hfold : Outcome next goal ([] ++ ws) seen
      (ws.foldl (visit (search next goal fuel)) (false, seen)) := by
    refine (Outcome.nil _).foldl_visit fun seen' w hsubset hw => outcome_search hnext ?_ hw
    refine Nat.lt_of_le_of_lt (List.Sublist.length_le ?_) hfuel
    refine List.monotone_filter_right _ fun w hw => ?_
    simp only [decide_eq_true_eq] at hw ⊢
    exact fun hmem => hw (hsubset hmem)
  refine ⟨hfold.reaches, fun ⟨w, hw, hnot, hreaches⟩ => ?_⟩
  by_contra hfound
  exact hfold.not_reaches (Bool.eq_false_iff.mpr hfound) hw hnot hreaches

end GoalSearch
