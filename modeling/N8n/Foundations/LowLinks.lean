import Mathlib.Data.List.Basic
import Mathlib.Data.List.Induction
import Mathlib.Data.List.TakeWhile
import Mathlib.Logic.Function.Basic
import Mathlib.Order.MinMax
import N8n.Foundations.DepthFirst

/-!
# Low links by low links

A depth-first search keeps the vertices that it has entered on a stack, with a low link each, at
first their own numbers. After an edge to a vertex of the stack has been followed, the low link of
its source is lowered to *the low link* of its target. When a vertex is left whose low link is its
own number, the vertices of the same low link are taken from the top of the stack, as a component.

The low links of vertices on the path are not final, so a vertex can end with a low link above the
number of the first vertex of its class, and then the vertices below it stay on the stack. `Sound`
is what holds as long as that does not happen: as long as every vertex with its own number as low
link is `Whole` when it is left, what is taken is the class of the vertex (`Sound.leave_pop`).
-/

universe u

namespace LowLinks

open DepthFirst Relation

variable {V : Type u} [DecidableEq V]

structure State (V : Type u) where
  /-- The vertices in the order in which they were entered. -/
  order : List V
  low : V → ℕ
  /-- The top of the stack is its head. -/
  stack : List V
  components : List (List V)

def State.initial : State V := ⟨[], fun _ => 0, [], []⟩

def State.enter (s : State V) (v : V) : State V :=
  { s with
    order := s.order ++ [v]
    low := Function.update s.low v s.order.length
    stack := v :: s.stack }

def State.follow (s : State V) (v w : V) : State V :=
  if w ∈ s.stack then { s with low := Function.update s.low v (min (s.low w) (s.low v)) } else s

/-- The vertices on top of the stack that have a low link become a component. -/
def State.pop (s : State V) (n : ℕ) : State V :=
  let component := s.stack.takeWhile fun v => s.low v = n
  { s with
    stack := s.stack.dropWhile fun v => s.low v = n
    components := if component = [] then s.components else s.components ++ [component] }

def State.leave (s : State V) (v : V) : State V :=
  if s.order.idxOf v = s.low v then s.pop (s.order.idxOf v) else s

def State.handle (s : State V) : Event V → State V
  | .enter v => s.enter v
  | .follow v w => s.follow v w
  | .leave v => s.leave v

def run (events : List (Event V)) : State V := events.foldl State.handle .initial

variable {successors : V → List V} {events before : List (Event V)} {path : List V} {s : State V}
  {v w : V}

@[simp] theorem run_append_singleton (event : Event V) :
    run (events ++ [event]) = (run events).handle event := by
  rw [run, List.foldl_append]
  rfl

theorem order_follow : (s.follow v w).order = s.order := by
  rw [State.follow]
  split_ifs <;> rfl

theorem stack_follow : (s.follow v w).stack = s.stack := by
  rw [State.follow]
  split_ifs <;> rfl

theorem components_follow : (s.follow v w).components = s.components := by
  rw [State.follow]
  split_ifs <;> rfl

theorem order_leave : (s.leave v).order = s.order := by
  rw [State.leave]
  split_ifs <;> rfl

theorem low_leave : (s.leave v).low = s.low := by
  rw [State.leave]
  split_ifs <;> rfl

theorem low_follow_of_ne {y : V} (h : y ≠ v) : (s.follow v w).low y = s.low y := by
  rw [State.follow]
  split_ifs
  · exact Function.update_of_ne h _ _
  · rfl

theorem low_follow_of_mem (h : w ∈ s.stack) :
    (s.follow v w).low v = min (s.low w) (s.low v) := by
  rw [State.follow, if_pos h]
  exact Function.update_self _ _ _

/-- Low links are not raised. -/
theorem low_follow_le (y : V) : (s.follow v w).low y ≤ s.low y := by
  obtain rfl | hne := eq_or_ne y v
  · by_cases hw : w ∈ s.stack
    · rw [low_follow_of_mem hw]
      exact min_le_right _ _
    · rw [State.follow, if_neg hw]
  · rw [low_follow_of_ne hne]

theorem order_run : (run events).order = entered events := by
  induction events using List.reverseRecOn with
  | nil => rfl
  | append_singleton events event ih =>
    rw [run_append_singleton, entered_append]
    cases event with
    | enter v => rw [← ih]; rfl
    | follow v w => rw [State.handle, order_follow, ih, entered_follow, List.append_nil]
    | leave v => rw [State.handle, order_leave, ih, entered_leave, List.append_nil]

/-! ### Taking from a sorted stack -/

omit [DecidableEq V] in
/-- What is left of a descending list after the values from a bound on is below the bound. -/
theorem lt_of_mem_dropWhile {number : V → ℕ} {p : V → Bool} {n : ℕ} {stack : List V}
    (hsorted : stack.Pairwise fun a b => number b < number a)
    (hp : ∀ v ∈ stack, n ≤ number v → p v = true) (hv : v ∈ stack.dropWhile p) : number v < n := by
  induction stack with
  | nil => cases hv
  | cons top stack ih =>
    obtain ⟨htop, hsorted⟩ := List.pairwise_cons.mp hsorted
    obtain ⟨hp_top, hp⟩ := List.forall_mem_cons.mp hp
    rw [List.dropWhile_cons] at hv
    split_ifs at hv with hcase
    · exact ih hsorted hp hv
    · have hlt : number top < n := not_le.mp fun hle => hcase (hp_top hle)
      obtain rfl | hv := List.mem_cons.mp hv
      · exact hlt
      · exact (htop v hv).trans hlt

omit [DecidableEq V] in
theorem low_eq_of_mem_takeWhile {low : V → ℕ} {n : ℕ} {stack : List V}
    (hv : v ∈ stack.takeWhile fun y => low y = n) : low v = n :=
  of_decide_eq_true (List.mem_takeWhile_imp (p := fun y => decide (low y = n)) hv)

omit [DecidableEq V] in
/-- What is above a vertex that is taken is taken too. -/
theorem mem_takeWhile_of_le {number : V → ℕ} {p : V → Bool} {stack : List V}
    (hsorted : stack.Pairwise fun a b => number b < number a) (hv : v ∈ stack.takeWhile p)
    (hw : w ∈ stack) (hle : number v ≤ number w) : w ∈ stack.takeWhile p := by
  rw [← List.takeWhile_append_dropWhile (p := p) (l := stack)] at hsorted hw
  obtain hw | hw := List.mem_append.mp hw
  · exact hw
  · exact absurd ((List.pairwise_append.mp hsorted).2.2 v hv w hw) hle.not_gt

/-! ### Classes of mutual vertices -/

/-- Lists that partition vertices into classes of mutual vertices. -/
structure Classifies (successors : V → List V) (vertices : List V) (components : List (List V)) :
    Prop where
  nonempty : ∀ component ∈ components, component ≠ []
  disjoint : components.Pairwise List.Disjoint
  mem_iff : ∀ v, v ∈ vertices ↔ ∃ component ∈ components, v ∈ component
  same_iff : ∀ v ∈ vertices, ∀ w ∈ vertices,
    (∃ component ∈ components, v ∈ component ∧ w ∈ component) ↔ Mutual successors v w

omit [DecidableEq V] in
theorem classifies_congr {vertices vertices' : List V} {components : List (List V)}
    (h : ∀ v, v ∈ vertices ↔ v ∈ vertices') :
    Classifies successors vertices components ↔ Classifies successors vertices' components := by
  constructor
  · rintro ⟨hnonempty, hdisjoint, hmem, hsame⟩
    exact ⟨hnonempty, hdisjoint, fun v => (h v).symm.trans (hmem v),
      fun v hv w hw => hsame v ((h v).mpr hv) w ((h w).mpr hw)⟩
  · rintro ⟨hnonempty, hdisjoint, hmem, hsame⟩
    exact ⟨hnonempty, hdisjoint, fun v => (h v).trans (hmem v),
      fun v hv w hw => hsame v ((h v).mp hv) w ((h w).mp hw)⟩

/-- Whenever the search leaves a vertex, the edges that it has followed lead from the vertex back to
the first vertex of the class. -/
def Returns (successors : V → List V) (events : List (Event V)) : Prop :=
  ∀ before v, before ++ [.leave v] <+: events →
    ∀ r, First successors before r v → ReflTransGen (Followed before) v r

theorem Returns.of_append {more : List (Event V)} (h : Returns successors (events ++ more)) :
    Returns successors events := fun before v hinit =>
  h before v (hinit.trans (List.prefix_append _ _))

/-- What holds as long as every component has been taken as a whole. -/
structure Sound (successors : V → List V) (events : List (Event V)) (path : List V) (s : State V) :
    Prop where
  sorted : s.stack.Pairwise fun a b => number events b < number events a
  onStack : ∀ v ∈ path, v ∈ s.stack
  entered : ∀ v ∈ s.stack, v ∈ DepthFirst.entered events
  covered : ∀ v ∈ DepthFirst.entered events,
    v ∈ s.stack ∨ ∃ component ∈ s.components, v ∈ component
  mem_entered : ∀ component ∈ s.components, ∀ v ∈ component,
    v ∈ DepthFirst.entered events ∧ v ∉ s.stack
  nonempty : ∀ component ∈ s.components, component ≠ []
  disjoint : s.components.Pairwise List.Disjoint
  same : ∀ component ∈ s.components, ∀ v ∈ component,
    ∀ w, w ∈ component ↔ Mutual successors v w
  closed : ∀ component ∈ s.components, ∀ v ∈ component, ∀ w ∈ successors v,
    ∃ component' ∈ s.components, w ∈ component'
  /-- Each vertex of the stack leads to one of the path that is not above it. -/
  reaches : ∀ v ∈ s.stack, ∃ g ∈ path, number events g ≤ number events v ∧
    ReflTransGen (Step successors) v g
  /-- A vertex of the path leads to the vertices of the stack that are not below it. -/
  reached : ∀ g ∈ path, ∀ v ∈ s.stack, number events g ≤ number events v →
    ReflTransGen (Step successors) g v
  low : ∀ v ∈ s.stack, ∃ u ∈ s.stack, s.low v = number events u ∧
    number events u ≤ number events v ∧ ReflTransGen (Followed events) v u
  low_le : ∀ v w, Followed events v w → v ∈ s.stack → w ∈ s.stack → s.low v ≤ number events w

/-- A vertex has been left on the stack with its own number as its low link. -/
structure Lost (events : List (Event V)) (s : State V) (v : V) : Prop where
  left : .leave v ∈ events
  mem_stack : v ∈ s.stack
  low_eq : s.low v = number events v
  notMem : ∀ component ∈ s.components, v ∉ component

/-- The vertices of the stack that are not below a vertex have its number as their low link. -/
def Whole (events : List (Event V)) (s : State V) (v : V) : Prop :=
  ∀ w ∈ s.stack, number events v ≤ number events w → s.low w = number events v

namespace Sound

theorem low_le_number (h : Sound successors events path s) (hv : v ∈ s.stack) :
    s.low v ≤ number events v := by
  obtain ⟨u, -, hlow, hle, -⟩ := h.low v hv
  exact hlow.trans_le hle

theorem initial : Sound successors [] [] State.initial where
  sorted := .nil
  onStack := fun _ hv => absurd hv List.not_mem_nil
  entered := fun _ hv => absurd hv List.not_mem_nil
  covered := fun _ hv => absurd hv List.not_mem_nil
  mem_entered := fun _ hv => absurd hv List.not_mem_nil
  nonempty := fun _ hv => absurd hv List.not_mem_nil
  disjoint := .nil
  same := fun _ hv => absurd hv List.not_mem_nil
  closed := fun _ hv => absurd hv List.not_mem_nil
  reaches := fun _ hv => absurd hv List.not_mem_nil
  reached := fun _ hv => absurd hv List.not_mem_nil
  low := fun _ hv => absurd hv List.not_mem_nil
  low_le := fun _ _ hfollow => absurd hfollow List.not_mem_nil

/-- A low link is not below the first vertex of the class. -/
theorem first_le_low {r : V} (h : Sound successors events path s)
    (htrace : Trace successors events path) (hv : v ∈ s.stack)
    (hfirst : First successors events r v) : number events r ≤ s.low v := by
  obtain ⟨u, hu, hlow, hle, hfollowed⟩ := h.low v hv
  obtain ⟨g, hg, hgu, hreach⟩ := h.reaches u hu
  have hback := h.reached g hg v hv (hgu.trans hle)
  rw [hlow]
  exact hfirst.le u (h.entered u hu) ⟨hreach.trans hback, htrace.reflTransGen_step hfollowed⟩

/-- A vertex that is mutual with one of the stack is on the stack. -/
theorem mem_stack_of_mutual (h : Sound successors events path s) (hv : v ∈ s.stack)
    (hw : w ∈ DepthFirst.entered events) (hmutual : Mutual successors v w) : w ∈ s.stack := by
  obtain hw | ⟨component, hcomponent, hw⟩ := h.covered w hw
  · exact hw
  · have hmem := (h.same component hcomponent w hw v).mpr hmutual.symm
    exact absurd hv (h.mem_entered component hcomponent v hmem).2

theorem enter (h : Sound successors events path s) (htrace : Trace successors events path)
    (horder : s.order = DepthFirst.entered events) (hnew : v ∉ DepthFirst.entered events)
    (hstep : ∀ u ∈ path.head?, v ∈ successors u) :
    Sound successors (events ++ [.enter v]) (v :: path) (s.enter v) := by
  have hnumber {u : V} (hu : u ∈ s.stack) : number (events ++ [.enter v]) u = number events u :=
    number_append (h.entered u hu)
  have hlast : number (events ++ [.enter v]) v = (DepthFirst.entered events).length :=
    number_enter hnew
  have hlt {u : V} (hu : u ∈ s.stack) : number events u < (DepthFirst.entered events).length :=
    number_lt_length (h.entered u hu)
  have hne {u : V} (hu : u ∈ s.stack) : u ≠ v := ne_of_mem_of_not_mem (h.entered u hu) hnew
  have hlow {u : V} (hu : u ∈ s.stack) : (s.enter v).low u = s.low u :=
    Function.update_of_ne (hne hu) _ _
  have hlow_new : (s.enter v).low v = (DepthFirst.entered events).length := by
    rw [← horder]
    exact Function.update_self _ _ _
  have hfollowed {a b : V} : Followed (events ++ [.enter v]) a b ↔ Followed events a b := by
    simp [Followed]
  exact {
    sorted := by
      refine List.pairwise_cons.mpr ⟨fun u hu => ?_, h.sorted.imp_of_mem fun {a b} ha hb hab => ?_⟩
      · rw [hnumber hu, hlast]
        exact hlt hu
      · rwa [hnumber ha, hnumber hb]
    onStack := by
      intro u hu
      exact (List.mem_cons.mp hu).elim (fun heq => heq ▸ List.mem_cons_self)
        fun hu => List.mem_cons_of_mem _ (h.onStack u hu)
    entered := by
      refine List.forall_mem_cons.mpr ⟨?_, fun u hu => mem_entered_append (h.entered u hu)⟩
      rw [entered_append]
      exact List.mem_append_right _ (List.mem_singleton_self _)
    covered := by
      intro u hu
      rw [entered_append, entered_enter, List.mem_append, List.mem_singleton] at hu
      obtain hu | rfl := hu
      · exact (h.covered u hu).imp_left (List.mem_cons_of_mem _)
      · exact .inl List.mem_cons_self
    mem_entered := by
      intro component hcomponent u hu
      obtain ⟨hmem, hnot⟩ := h.mem_entered component hcomponent u hu
      refine ⟨mem_entered_append hmem, fun hstack => ?_⟩
      exact (List.mem_cons.mp hstack).elim (fun heq => hnew (heq ▸ hmem)) hnot
    nonempty := h.nonempty
    disjoint := h.disjoint
    same := h.same
    closed := h.closed
    reaches := by
      refine List.forall_mem_cons.mpr ⟨⟨v, List.mem_cons_self, le_refl _, .refl⟩, fun u hu => ?_⟩
      obtain ⟨g, hg, hle, hreach⟩ := h.reaches u hu
      refine ⟨g, List.mem_cons_of_mem _ hg, ?_, hreach⟩
      rwa [hnumber (h.onStack g hg), hnumber hu]
    reached := by
      intro g hg u hu hle
      obtain rfl | hstack := List.mem_cons.mp hu
      · obtain rfl | hg := List.mem_cons.mp hg
        · exact .refl
        · -- the last vertex of the path leads to the new one
          obtain ⟨top, rest, rfl⟩ := List.exists_cons_of_ne_nil (List.ne_nil_of_mem hg)
          have htop := h.onStack top List.mem_cons_self
          exact (h.reached g hg top htop (htrace.number_le_of_mem_path hg)).tail
            (hstep top rfl)
      · obtain rfl | hg := List.mem_cons.mp hg
        · rw [hlast, hnumber hstack] at hle
          exact absurd (hlt hstack) hle.not_gt
        · rw [hnumber (h.onStack g hg), hnumber hstack] at hle
          exact h.reached g hg u hstack hle
    low := by
      refine List.forall_mem_cons.mpr
        ⟨⟨v, List.mem_cons_self, hlow_new.trans hlast.symm, le_refl _, .refl⟩, fun u hu => ?_⟩
      obtain ⟨u', hu', hlow', hle, hreach⟩ := h.low u hu
      refine ⟨u', List.mem_cons_of_mem _ hu', ?_, ?_, ?_⟩
      · rw [hlow hu, hnumber hu', hlow']
      · rwa [hnumber hu', hnumber hu]
      · exact ReflTransGen.mono (fun a b hab => hfollowed.mpr hab) _ _ hreach
    low_le := by
      intro a b hab ha hb
      rw [hfollowed] at hab
      obtain ⟨-, ha', hb'⟩ := htrace.of_followed hab
      have ha := (List.mem_cons.mp ha).resolve_left (ne_of_mem_of_not_mem ha' hnew)
      have hb := (List.mem_cons.mp hb).resolve_left (ne_of_mem_of_not_mem hb' hnew)
      rw [hlow ha, hnumber hb]
      exact h.low_le a b hab ha hb }

theorem follow (h : Sound successors events (v :: path) s)
    (htrace : Trace successors (events ++ [.follow v w]) (v :: path)) :
    Sound successors (events ++ [.follow v w]) (v :: path) (s.follow v w) := by
  have hv := h.onStack v List.mem_cons_self
  have hmono {a b : V} (hab : ReflTransGen (Followed events) a b) :
      ReflTransGen (Followed (events ++ [.follow v w])) a b :=
    ReflTransGen.mono (fun a b hab => List.mem_append_left _ hab) _ _ hab
  have hold {y : V} (hy : y ∈ s.stack) : ∃ u ∈ s.stack, s.low y = number events u ∧
      number events u ≤ number events y ∧
      ReflTransGen (Followed (events ++ [.follow v w])) y u := by
    obtain ⟨u, hu, hlow, hle, hreach⟩ := h.low y hy
    exact ⟨u, hu, hlow, hle, hmono hreach⟩
  have hedge : Followed (events ++ [.follow v w]) v w :=
    List.mem_append_right _ (List.mem_singleton_self _)
  exact {
    sorted := by simpa only [stack_follow, number_append_follow] using h.sorted
    onStack := by simpa only [stack_follow] using h.onStack
    entered := by
      intro u hu
      rw [stack_follow] at hu
      exact mem_entered_append (h.entered u hu)
    covered := by
      simpa only [stack_follow, components_follow, entered_append, entered_follow,
        List.append_nil] using h.covered
    mem_entered := by
      simpa only [stack_follow, components_follow, entered_append, entered_follow,
        List.append_nil] using h.mem_entered
    nonempty := by simpa only [components_follow] using h.nonempty
    disjoint := by simpa only [components_follow] using h.disjoint
    same := by simpa only [components_follow] using h.same
    closed := by simpa only [components_follow] using h.closed
    reaches := by simpa only [stack_follow, number_append_follow] using h.reaches
    reached := by simpa only [stack_follow, number_append_follow] using h.reached
    low := by
      simp only [stack_follow, number_append_follow]
      intro y hy
      obtain rfl | hne := eq_or_ne y v
      · by_cases hw : w ∈ s.stack
        · rw [low_follow_of_mem hw]
          obtain hmin | hmin := min_choice (s.low w) (s.low y)
          · obtain ⟨u, hu, hlow, -, hreach⟩ := hold hw
            refine ⟨u, hu, hmin.trans hlow, ?_, hreach.head hedge⟩
            calc number events u = min (s.low w) (s.low y) := (hmin.trans hlow).symm
              _ ≤ s.low y := min_le_right _ _
              _ ≤ number events y := h.low_le_number hy
          · rw [hmin]
            exact hold hy
        · rw [State.follow, if_neg hw]
          exact hold hy
      · rw [low_follow_of_ne hne]
        exact hold hy
    low_le := by
      simp only [stack_follow, number_append_follow]
      intro a b hab ha hb
      obtain hab | hab := List.mem_append.mp hab
      · exact (low_follow_le a).trans (h.low_le a b hab ha hb)
      · obtain ⟨rfl, rfl⟩ := Event.follow.inj (List.mem_singleton.mp hab)
        rw [low_follow_of_mem hb]
        exact (min_le_left _ _).trans (h.low_le_number hb) }

/-- A vertex that is left with a lower low link stays on the stack. -/
theorem leave_stay (h : Sound successors events (v :: path) s)
    (htrace : Trace successors events (v :: path)) (hlow : s.low v ≠ number events v) :
    Sound successors (events ++ [.leave v]) path s := by
  have hfollowed {a b : V} : Followed (events ++ [.leave v]) a b ↔ Followed events a b := by
    simp [Followed]
  have hmono {a b : V} (hab : ReflTransGen (Followed events) a b) :
      ReflTransGen (Followed (events ++ [.leave v])) a b :=
    ReflTransGen.mono (fun a b hab => hfollowed.mpr hab) _ _ hab
  exact {
    sorted := by simpa only [number_append_leave] using h.sorted
    onStack := fun u hu => h.onStack u (List.mem_cons_of_mem _ hu)
    entered := fun u hu => mem_entered_append (h.entered u hu)
    covered := by simpa only [entered_append, entered_leave, List.append_nil] using h.covered
    mem_entered := by
      simpa only [entered_append, entered_leave, List.append_nil] using h.mem_entered
    nonempty := h.nonempty
    disjoint := h.disjoint
    same := h.same
    closed := h.closed
    reaches := by
      simp only [number_append_leave]
      intro y hy
      obtain ⟨g, hg, hle, hreach⟩ := h.reaches y hy
      obtain rfl | hg := List.mem_cons.mp hg
      · -- the vertex leads to its low link, which leads to a vertex of the path below it
        obtain ⟨u, hu, hlow', hle', hfollow⟩ := h.low g (h.onStack g List.mem_cons_self)
        obtain ⟨g', hg', hle'', hreach'⟩ := h.reaches u hu
        have hlt : number events u < number events g := lt_of_le_of_ne hle' (hlow' ▸ hlow)
        have hne : g' ≠ g := fun heq => absurd hlt (heq ▸ hle'').not_gt
        exact ⟨g', (List.mem_cons.mp hg').resolve_left hne, (hle''.trans hle').trans hle,
          hreach.trans ((htrace.reflTransGen_step hfollow).trans hreach')⟩
      · exact ⟨g, hg, hle, hreach⟩
    reached := by
      simp only [number_append_leave]
      exact fun g hg => h.reached g (List.mem_cons_of_mem _ hg)
    low := by
      simp only [number_append_leave]
      intro y hy
      obtain ⟨u, hu, hlow, hle, hreach⟩ := h.low y hy
      exact ⟨u, hu, hlow, hle, hmono hreach⟩
    low_le := by
      simp only [number_append_leave, hfollowed]
      exact h.low_le }

/-- What a vertex takes that has been left with its own number as low link, if that is the class. -/
theorem mem_takeWhile_iff (h : Sound successors events path s)
    (hwhole : Whole events s v) :
    w ∈ s.stack.takeWhile (fun y => s.low y = number events v) ↔
      w ∈ s.stack ∧ number events v ≤ number events w := by
  constructor
  · intro hw
    refine ⟨List.takeWhile_subset _ hw, ?_⟩
    rw [← low_eq_of_mem_takeWhile hw]
    exact h.low_le_number (List.takeWhile_subset _ hw)
  · rintro ⟨hw, hle⟩
    rw [← List.takeWhile_append_dropWhile (p := fun y => decide (s.low y = number events v))
      (l := s.stack)] at hw
    obtain hw | hw := List.mem_append.mp hw
    · exact hw
    · exact absurd (lt_of_mem_dropWhile h.sorted
        (fun y hy hle => decide_eq_true (hwhole y hy hle)) hw) hle.not_gt

theorem mem_dropWhile_iff (h : Sound successors events path s) (hwhole : Whole events s v) :
    w ∈ s.stack.dropWhile (fun y => s.low y = number events v) ↔
      w ∈ s.stack ∧ number events w < number events v := by
  constructor
  · intro hw
    exact ⟨List.dropWhile_subset _ hw, lt_of_mem_dropWhile h.sorted
      (fun y hy hle => decide_eq_true (hwhole y hy hle)) hw⟩
  · rintro ⟨hw, hlt⟩
    have hsplit := hw
    rw [← List.takeWhile_append_dropWhile (p := fun y => decide (s.low y = number events v))
      (l := s.stack)] at hsplit
    obtain htake | hdrop := List.mem_append.mp hsplit
    · have hle := h.low_le_number hw
      rw [low_eq_of_mem_takeWhile htake] at hle
      exact absurd hlt hle.not_gt
    · exact hdrop

/-- The edges of the vertices from a whole one on lead to one of them or into a component. -/
theorem step_of_whole {y z : V} (h : Sound successors events (v :: path) s)
    (htrace : Trace successors events (v :: path))
    (hall : ∀ w ∈ successors v, .follow v w ∈ events) (hwhole : Whole events s v)
    (hy : y ∈ s.stack) (hle : number events v ≤ number events y) (hz : z ∈ successors y) :
    (z ∈ s.stack ∧ number events v ≤ number events z) ∨
      ∃ component ∈ s.components, z ∈ component := by
  have hfollow : Followed events y z := by
    obtain hpath | hleft := htrace.mem_path_or_leave (h.entered y hy)
    · have heq := number_inj (h.entered y hy)
        (le_antisymm (htrace.number_le_of_mem_path hpath) hle)
      obtain rfl := heq
      exact hall z hz
    · exact htrace.followed_of_leave hleft hz
  obtain hstack | hcomponent := h.covered z (htrace.of_followed hfollow).2.2
  · refine .inl ⟨hstack, ?_⟩
    rw [← hwhole y hy hle]
    exact h.low_le y z hfollow hy hstack
  · exact .inr hcomponent

/-- The vertices from a whole one on are the class of the vertex. -/
theorem mutual_iff (h : Sound successors events (v :: path) s)
    (htrace : Trace successors events (v :: path))
    (hall : ∀ w ∈ successors v, .follow v w ∈ events) (hwhole : Whole events s v) :
    Mutual successors v w ↔ w ∈ s.stack ∧ number events v ≤ number events w := by
  have hv := h.onStack v List.mem_cons_self
  have hreach {z : V} (hz : ReflTransGen (Step successors) v z) :
      (z ∈ s.stack ∧ number events v ≤ number events z) ∨
        ∃ component ∈ s.components, z ∈ component := by
    induction hz with
    | refl => exact .inl ⟨hv, le_refl _⟩
    | tail _ hyz ih =>
      obtain ⟨hy, hle⟩ | ⟨component, hcomponent, hy⟩ := ih
      · exact h.step_of_whole htrace hall hwhole hy hle hyz
      · exact .inr (h.closed component hcomponent _ hy _ hyz)
  constructor
  · intro hmutual
    obtain hw | ⟨component, hcomponent, hw⟩ := hreach hmutual.1
    · exact hw
    · have hmem := (h.same component hcomponent w hw v).mpr hmutual.symm
      exact absurd hv (h.mem_entered component hcomponent v hmem).2
  · rintro ⟨hw, hle⟩
    refine ⟨h.reached v List.mem_cons_self w hw hle, ?_⟩
    obtain ⟨u, hu, hlow, -, hfollow⟩ := h.low w hw
    obtain rfl := number_inj (h.entered u hu) (hlow.symm.trans (hwhole w hw hle))
    exact htrace.reflTransGen_step hfollow

/-- A vertex that is left as a whole takes the class of the vertex from the stack. -/
theorem leave_pop (h : Sound successors events (v :: path) s)
    (htrace : Trace successors events (v :: path))
    (hall : ∀ w ∈ successors v, .follow v w ∈ events) (hwhole : Whole events s v) :
    Sound successors (events ++ [.leave v]) path (s.pop (number events v)) := by
  have hv := h.onStack v List.mem_cons_self
  have hfollowed {a b : V} : Followed (events ++ [.leave v]) a b ↔ Followed events a b := by
    simp [Followed]
  have hmono {a b : V} (hab : ReflTransGen (Followed events) a b) :
      ReflTransGen (Followed (events ++ [.leave v])) a b :=
    ReflTransGen.mono (fun a b hab => hfollowed.mpr hab) _ _ hab
  have htaken {u : V} := h.mem_takeWhile_iff (w := u) hwhole
  have hrest {u : V} := h.mem_dropWhile_iff (w := u) hwhole
  have hclass {u : V} := h.mutual_iff (w := u) htrace hall hwhole
  set component := s.stack.takeWhile fun y => s.low y = number events v with hcomponent
  have hmem_self : v ∈ component := htaken.mpr ⟨hv, le_refl _⟩
  have hcomponents : (s.pop (number events v)).components = s.components ++ [component] :=
    if_neg (List.ne_nil_of_mem hmem_self)
  have hstack : (s.pop (number events v)).stack =
      s.stack.dropWhile fun y => s.low y = number events v := rfl
  -- what holds of the components before holds of all, if it holds of the new one
  have hforall {P : List V → Prop} (hP : ∀ c ∈ s.components, P c) (hnew : P component) :
      ∀ c ∈ (s.pop (number events v)).components, P c := by
    rw [hcomponents]
    exact List.forall_mem_append.mpr ⟨hP, List.forall_mem_singleton.mpr hnew⟩
  have hin {u : V} (hu : u ∈ (s.pop (number events v)).stack) : u ∈ s.stack := (hrest.mp hu).1
  exact {
    sorted := by
      simp only [number_append_leave]
      exact h.sorted.sublist (List.dropWhile_sublist _)
    onStack := by
      intro u hu
      exact hrest.mpr ⟨h.onStack u (List.mem_cons_of_mem _ hu),
        (List.pairwise_cons.mp htrace.pairwise_path).1 u hu⟩
    entered := fun u hu => mem_entered_append (h.entered u (hin hu))
    covered := by
      rw [entered_append, entered_leave, List.append_nil, hcomponents]
      intro u hu
      obtain hstack | ⟨c, hc, hu⟩ := h.covered u hu
      · obtain hlt | hle := lt_or_ge (number events u) (number events v)
        · exact .inl (hrest.mpr ⟨hstack, hlt⟩)
        · exact .inr ⟨component, List.mem_append_right _ (List.mem_singleton_self _),
            htaken.mpr ⟨hstack, hle⟩⟩
      · exact .inr ⟨c, List.mem_append_left _ hc, hu⟩
    mem_entered := by
      refine hforall (fun c hc u hu => ?_) fun u hu => ?_
      · obtain ⟨hmem, hnot⟩ := h.mem_entered c hc u hu
        exact ⟨mem_entered_append hmem, fun hstack => hnot (hin hstack)⟩
      · obtain ⟨hmem, hle⟩ := htaken.mp hu
        exact ⟨mem_entered_append (h.entered u hmem),
          fun hstack => absurd hle (hrest.mp hstack).2.not_ge⟩
    nonempty := hforall h.nonempty (List.ne_nil_of_mem hmem_self)
    disjoint := by
      rw [hcomponents]
      refine List.pairwise_append.mpr ⟨h.disjoint, List.pairwise_singleton _ _, ?_⟩
      intro c hc c' hc' u hu hu'
      rw [List.mem_singleton] at hc'
      exact (h.mem_entered c hc u hu).2 (htaken.mp (hc' ▸ hu')).1
    same := by
      refine hforall h.same fun u hu w => ?_
      have hvu := hclass.mpr (htaken.mp hu)
      constructor
      · intro hw
        exact hvu.symm.trans (hclass.mpr (htaken.mp hw))
      · intro huw
        exact htaken.mpr (hclass.mp (hvu.trans huw))
    closed := by
      rw [hcomponents]
      have hmem : component ∈ s.components ++ [component] :=
        List.mem_append_right _ (List.mem_singleton_self _)
      refine List.forall_mem_append.mpr ⟨fun c hc u hu w hw => ?_,
        List.forall_mem_singleton.mpr fun u hu w hw => ?_⟩
      · obtain ⟨c', hc', hw'⟩ := h.closed c hc u hu w hw
        exact ⟨c', List.mem_append_left _ hc', hw'⟩
      · obtain ⟨hstack, hle⟩ := htaken.mp hu
        obtain htaken' | ⟨c', hc', hw'⟩ := h.step_of_whole htrace hall hwhole hstack hle hw
        · exact ⟨component, hmem, htaken.mpr htaken'⟩
        · exact ⟨c', List.mem_append_left _ hc', hw'⟩
    reaches := by
      simp only [number_append_leave]
      intro u hu
      obtain ⟨hu, hlt⟩ := hrest.mp hu
      obtain ⟨g, hg, hle, hreach⟩ := h.reaches u hu
      have hne : g ≠ v := fun heq => absurd hlt (heq ▸ hle).not_gt
      exact ⟨g, (List.mem_cons.mp hg).resolve_left hne, hle, hreach⟩
    reached := by
      simp only [number_append_leave]
      exact fun g hg u hu => h.reached g (List.mem_cons_of_mem _ hg) u (hin hu)
    low := by
      simp only [number_append_leave]
      intro y hy
      obtain ⟨hy, hlt⟩ := hrest.mp hy
      obtain ⟨u, hu, hlow, hle, hreach⟩ := h.low y hy
      exact ⟨u, hrest.mpr ⟨hu, hle.trans_lt hlt⟩, hlow, hle, hmono hreach⟩
    low_le := by
      simp only [number_append_leave, hfollowed]
      exact fun a b hab ha hb => h.low_le a b hab (hin ha) (hin hb) }

/-- The first vertex of the class of a vertex that is taken is the one that has been left. -/
theorem eq_of_first {r y : V} (h : Sound successors events (v :: path) s)
    (htrace : Trace successors events (v :: path))
    (hall : ∀ w ∈ successors v, .follow v w ∈ events) (hwhole : Whole events s v)
    (hy : y ∈ s.stack) (hle : number events v ≤ number events y) (hinit : before <+: events)
    (hv : v ∈ DepthFirst.entered before) (hfirst : First successors before r y) : r = v := by
  obtain ⟨more, rfl⟩ := hinit
  have hvy := (h.mutual_iff htrace hall hwhole).mpr ⟨hy, hle⟩
  have hvr := (h.mutual_iff htrace hall hwhole).mp (hvy.trans hfirst.isMutual.symm)
  have hge := hvr.2
  rw [number_append hv, number_append hfirst.entered] at hge
  exact number_inj hfirst.entered (le_antisymm (hfirst.le v hv hvy) hge)

end Sound

end LowLinks
