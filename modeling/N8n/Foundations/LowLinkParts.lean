import N8n.Foundations.LowLinkClasses

/-!
# Components as parts of classes

Also where the low links do not find the classes of mutual vertices, they do not mix them up. A low
link is always the number of a vertex that is reachable, and a vertex of the path leads to what has
been entered after it; so what is taken from the stack when a vertex is left is mutual with the
vertex. The components are disjoint parts of classes, whatever the search (`parts_run`).
-/

universe u

namespace LowLinks

open DepthFirst Relation

variable {V : Type u} [DecidableEq V] {successors : V → List V} {events : List (Event V)}
  {path : List V} {s : State V} {v w : V}

/-- The components have no vertex in common, and the vertices of one are mutual. -/
structure Parts (successors : V → List V) (events : List (Event V)) (s : State V) : Prop where
  entered : ∀ v ∈ s.stack, v ∈ DepthFirst.entered events
  nodup : s.stack.Nodup
  mem_entered : ∀ component ∈ s.components, ∀ v ∈ component,
    v ∈ DepthFirst.entered events ∧ v ∉ s.stack
  disjoint : s.components.Pairwise List.Disjoint
  same : ∀ component ∈ s.components, ∀ v ∈ component, ∀ w ∈ component, Mutual successors v w
  low : ∀ v ∈ DepthFirst.entered events, ∃ u ∈ DepthFirst.entered events,
    s.low v = number events u ∧ number events u ≤ number events v ∧
      ReflTransGen (Step successors) v u

namespace Parts

theorem initial : Parts successors [] State.initial where
  entered := fun _ hv => absurd hv List.not_mem_nil
  nodup := .nil
  mem_entered := fun _ hv => absurd hv List.not_mem_nil
  disjoint := .nil
  same := fun _ hv => absurd hv List.not_mem_nil
  low := fun _ hv => absurd hv List.not_mem_nil

theorem enter (h : Parts successors events s) (horder : s.order = DepthFirst.entered events)
    (hnew : v ∉ DepthFirst.entered events) :
    Parts successors (events ++ [.enter v]) (s.enter v) := by
  have hentered : DepthFirst.entered (events ++ [.enter v]) = DepthFirst.entered events ++ [v] := by
    rw [entered_append, entered_enter]
  have hlast : v ∈ DepthFirst.entered (events ++ [.enter v]) :=
    hentered ▸ List.mem_append_right _ (List.mem_singleton_self v)
  constructor
  · exact List.forall_mem_cons.mpr ⟨hlast, fun u hu => mem_entered_append (h.entered u hu)⟩
  · exact List.nodup_cons.mpr ⟨fun hv => hnew (h.entered v hv), h.nodup⟩
  · intro component hcomponent u hu
    obtain ⟨hmem, hnot⟩ := h.mem_entered component hcomponent u hu
    refine ⟨mem_entered_append hmem, fun hstack => ?_⟩
    exact (List.mem_cons.mp hstack).elim (fun heq => hnew (heq ▸ hmem)) hnot
  · exact h.disjoint
  · exact h.same
  · intro u hu
    rw [hentered] at hu
    obtain hu | hu := List.mem_append.mp hu
    · obtain ⟨x, hx, hlow, hle, hreach⟩ := h.low u hu
      refine ⟨x, mem_entered_append hx, ?_, ?_, hreach⟩
      · rw [number_append hx, ← hlow]
        exact Function.update_of_ne (ne_of_mem_of_not_mem hu hnew) _ _
      · rwa [number_append hx, number_append hu]
    · obtain rfl := List.mem_singleton.mp hu
      refine ⟨u, hlast, ?_, le_refl _, .refl⟩
      rw [number_enter hnew, ← horder]
      exact Function.update_self _ _ _

theorem follow (h : Parts successors events s) (hv : v ∈ DepthFirst.entered events)
    (hstep : w ∈ successors v) : Parts successors (events ++ [.follow v w]) (s.follow v w) := by
  have hentered : DepthFirst.entered (events ++ [.follow v w]) = DepthFirst.entered events := by
    rw [entered_append, entered_follow, List.append_nil]
  constructor
  · simpa only [stack_follow, hentered] using h.entered
  · simpa only [stack_follow] using h.nodup
  · simpa only [stack_follow, components_follow, hentered] using h.mem_entered
  · simpa only [components_follow] using h.disjoint
  · simpa only [components_follow] using h.same
  · simp only [hentered, number_append_follow]
    intro u hu
    obtain ⟨x, hx, hlow, hle, hreach⟩ := h.low u hu
    obtain rfl | hne := eq_or_ne u v
    · by_cases hw : w ∈ s.stack
      · -- the low link is still the own one, or it is the one of the vertex that is led to
        rw [low_follow_of_mem hw]
        obtain ⟨y, hy, hlow', -, hreach'⟩ := h.low w (h.entered w hw)
        obtain hmin | hmin := min_choice (s.low w) (s.low u)
        · refine ⟨y, hy, hmin.trans hlow', ?_, hreach'.head hstep⟩
          calc number events y = min (s.low w) (s.low u) := (hmin.trans hlow').symm
            _ ≤ s.low u := min_le_right _ _
            _ ≤ number events u := hlow.trans_le hle
        · exact ⟨x, hx, hmin.trans hlow, hle, hreach⟩
      · rw [State.follow, if_neg hw]
        exact ⟨x, hx, hlow, hle, hreach⟩
    · rw [low_follow_of_ne hne]
      exact ⟨x, hx, hlow, hle, hreach⟩

/-- What is taken when a vertex is left is mutual with the vertex. -/
theorem mutual_of_taken (h : Parts successors events s)
    (htrace : Trace successors events (v :: path))
    (hw : w ∈ s.stack.takeWhile fun y => s.low y = number events v) : Mutual successors v w := by
  have hmem := h.entered w (List.takeWhile_subset _ hw)
  obtain ⟨u, hu, hlow, hle, hreach⟩ := h.low w hmem
  obtain rfl := number_inj hu (hlow.symm.trans (low_eq_of_mem_takeWhile hw))
  exact ⟨htrace.reflTransGen_of_number_le List.mem_cons_self hmem hle, hreach⟩

theorem leave (h : Parts successors events s) (htrace : Trace successors events (v :: path))
    (horder : s.order = DepthFirst.entered events) :
    Parts successors (events ++ [.leave v]) (s.leave v) := by
  have hentered : DepthFirst.entered (events ++ [.leave v]) = DepthFirst.entered events := by
    rw [entered_append, entered_leave, List.append_nil]
  rw [leave_eq horder]
  split_ifs
  · set component := s.stack.takeWhile fun y => s.low y = number events v with hcomponent
    set rest := s.stack.dropWhile fun y => s.low y = number events v with hrest
    have hsplit : component ++ rest = s.stack := List.takeWhile_append_dropWhile
    have hnodup := List.nodup_append.mp (hsplit ▸ h.nodup)
    have htaken {u : V} (hu : u ∈ component) : u ∈ s.stack := List.takeWhile_subset _ hu
    have hleft {u : V} (hu : u ∈ rest) : u ∈ s.stack := List.dropWhile_subset _ hu
    -- the components are those before, and the one that is taken
    have hmem {c : List V} (hc : c ∈ (s.pop (number events v)).components) :
        c ∈ s.components ∨ c = component := by
      rw [State.pop, ← hcomponent] at hc
      dsimp only at hc
      split_ifs at hc
      · exact .inl hc
      · exact (List.mem_append.mp hc).imp_right List.mem_singleton.mp
    constructor
    · exact fun u hu => hentered ▸ h.entered u (hleft hu)
    · exact hnodup.2.1
    · intro c hc u hu
      rw [hentered]
      obtain hc | rfl := hmem hc
      · obtain ⟨hu, hnot⟩ := h.mem_entered c hc u hu
        exact ⟨hu, fun hstack => hnot (hleft hstack)⟩
      · exact ⟨h.entered u (htaken hu), fun hstack => hnodup.2.2 u hu u hstack rfl⟩
    · rw [State.pop, ← hcomponent]
      dsimp only
      split_ifs
      · exact h.disjoint
      · refine List.pairwise_append.mpr ⟨h.disjoint, List.pairwise_singleton _ _, ?_⟩
        intro c hc c' hc' u hu hu'
        rw [List.mem_singleton] at hc'
        exact (h.mem_entered c hc u hu).2 (htaken (hc' ▸ hu'))
    · intro c hc u hu y hy
      obtain hc | rfl := hmem hc
      · exact h.same c hc u hu y hy
      · exact (h.mutual_of_taken htrace hu).symm.trans (h.mutual_of_taken htrace hy)
    · simp only [hentered, number_append_leave]
      exact h.low
  · constructor
    · exact hentered ▸ h.entered
    · exact h.nodup
    · exact hentered ▸ h.mem_entered
    · exact h.disjoint
    · exact h.same
    · simpa only [hentered, number_append_leave] using h.low

end Parts

/-- Whatever a search does, the components are disjoint parts of the classes. -/
theorem parts_run (h : Trace successors events path) :
    Parts successors events (run events) := by
  induction h with
  | nil => exact .initial
  | enter h hnew hstep ih =>
    rw [run_append_singleton]
    exact ih.enter order_run hnew
  | follow h hstep hentered ih =>
    rw [run_append_singleton]
    exact ih.follow (h.mem_entered_of_mem_path List.mem_cons_self) hstep
  | leave h hall ih =>
    rw [run_append_singleton]
    exact ih.leave h order_run

end LowLinks
