import Mathlib.Data.List.Basic
import Mathlib.Data.List.Nodup
import Mathlib.Data.List.Perm.Subperm
import Mathlib.Data.List.Pairwise
import Mathlib.Data.Nat.Find
import Mathlib.Logic.Relation
import Mathlib.Order.Basic
import Mathlib.Tactic.Common

/-!
# Histories of a depth-first search

A depth-first search enters vertices, follows edges and leaves vertices again. An edge counts as
followed when the search is done with it, after the vertex that it leads to has been entered, and a
vertex is left after all of its edges have been followed. `Trace` says which lists of events are
histories, with the path of the vertices that have been entered and not left, the last one first.

The vertices are numbered in the order in which they are entered. An edge from a vertex before one
of the path leads to a vertex before it (`Trace.number_lt_of_follow`). `search` is the history of
the search that visits the vertices of a list in turn (`trace_search`).
-/

universe u

namespace DepthFirst

open Relation

variable {V : Type u}

inductive Event (V : Type u) where
  | enter (v : V)
  | follow (v w : V)
  | leave (v : V)
  deriving DecidableEq, Repr

/-- The vertex that an event enters. -/
def Event.entered? : Event V → Option V
  | .enter v => some v
  | _ => none

def entered (events : List (Event V)) : List V := events.filterMap Event.entered?

variable (successors : V → List V)

def Step (v w : V) : Prop := w ∈ successors v

/-- Each of the two vertices leads to the other. -/
def Mutual (v w : V) : Prop :=
  ReflTransGen (Step successors) v w ∧ ReflTransGen (Step successors) w v

/-- The edge from one vertex to another has been followed. -/
def Followed (events : List (Event V)) (v w : V) : Prop := .follow v w ∈ events

/-- The histories of a search, with its path. -/
inductive Trace : List (Event V) → List V → Prop
  | nil : Trace [] []
  | enter {events : List (Event V)} {path : List V} {v : V} (h : Trace events path)
      (hnew : v ∉ entered events) (hstep : ∀ u ∈ path.head?, v ∈ successors u) :
      Trace (events ++ [.enter v]) (v :: path)
  | follow {events : List (Event V)} {path : List V} {v w : V} (h : Trace events (v :: path))
      (hstep : w ∈ successors v) (hentered : w ∈ entered events) :
      Trace (events ++ [.follow v w]) (v :: path)
  | leave {events : List (Event V)} {path : List V} {v : V} (h : Trace events (v :: path))
      (hall : ∀ w ∈ successors v, .follow v w ∈ events) : Trace (events ++ [.leave v]) path

variable {successors} {events more : List (Event V)} {path : List V} {v w : V}

/-! ### Numbers -/

@[simp] theorem entered_append : entered (events ++ more) = entered events ++ entered more :=
  List.filterMap_append

@[simp] theorem entered_enter : entered [.enter v] = [v] := rfl

@[simp] theorem entered_follow : entered [.follow v w] = [] := rfl

@[simp] theorem entered_leave : entered [.leave v] = [] := rfl

theorem mem_entered_append (h : v ∈ entered events) : v ∈ entered (events ++ more) := by
  rw [entered_append]
  exact List.mem_append_left _ h

section Number

variable [DecidableEq V]

/-- The number of a vertex in the order in which vertices are entered. -/
def number (events : List (Event V)) (v : V) : ℕ := (entered events).idxOf v

theorem number_append (h : v ∈ entered events) :
    number (events ++ more) v = number events v := by
  rw [number, entered_append, List.idxOf_append_of_mem h, number]

@[simp] theorem number_append_follow {u : V} :
    number (events ++ [.follow v w]) u = number events u := by
  rw [number, entered_append, entered_follow, List.append_nil, number]

@[simp] theorem number_append_leave {u : V} :
    number (events ++ [.leave v]) u = number events u := by
  rw [number, entered_append, entered_leave, List.append_nil, number]

theorem number_enter (h : v ∉ entered events) :
    number (events ++ [.enter v]) v = (entered events).length := by
  rw [number, entered_append, List.idxOf_append_of_notMem h, entered_enter, List.idxOf_cons_self,
    Nat.add_zero]

theorem number_lt_length (h : v ∈ entered events) : number events v < (entered events).length :=
  List.idxOf_lt_length_iff.mpr h

theorem number_inj (hv : v ∈ entered events) (h : number events v = number events w) : v = w :=
  (List.idxOf_inj hv).mp h

/-- The vertex is the first one entered of those that it is mutual with a vertex. -/
structure First (successors : V → List V) (events : List (Event V)) (r v : V) : Prop where
  entered : r ∈ DepthFirst.entered events
  isMutual : Mutual successors r v
  le : ∀ w ∈ DepthFirst.entered events, Mutual successors w v → number events r ≤ number events w

theorem First.unique {r r' : V} (h : First successors events r v)
    (h' : First successors events r' v) : r = r' :=
  number_inj h.entered (le_antisymm (h.le r' h'.entered h'.isMutual)
    (h'.le r h.entered h.isMutual))

end Number

theorem Mutual.refl (v : V) : Mutual successors v v := ⟨.refl, .refl⟩

theorem Mutual.symm (h : Mutual successors v w) : Mutual successors w v := ⟨h.2, h.1⟩

theorem Mutual.trans {x : V} (h : Mutual successors v w) (h' : Mutual successors w x) :
    Mutual successors v x := ⟨h.1.trans h'.1, h'.2.trans h.2⟩

/-! ### Vertices of the path -/

namespace Trace

theorem mem_entered_of_mem_path (h : Trace successors events path) (hv : v ∈ path) :
    v ∈ entered events := by
  induction h with
  | nil => cases hv
  | enter h hnew hstep ih =>
    obtain rfl | hv := List.mem_cons.mp hv
    · simp
    · exact mem_entered_append (ih hv)
  | follow h hstep hentered ih => exact mem_entered_append (ih hv)
  | leave h hall ih => exact mem_entered_append (ih (List.mem_cons_of_mem _ hv))

theorem nodup_path (h : Trace successors events path) : path.Nodup := by
  induction h with
  | nil => exact .nil
  | enter h hnew hstep ih =>
    exact List.nodup_cons.mpr ⟨fun hmem => hnew (h.mem_entered_of_mem_path hmem), ih⟩
  | follow h hstep hentered ih => exact ih
  | leave h hall ih => exact (List.nodup_cons.mp ih).2

/-- A vertex that has been entered is on the path or has been left. -/
theorem mem_path_or_leave (h : Trace successors events path) (hv : v ∈ entered events) :
    v ∈ path ∨ .leave v ∈ events := by
  induction h with
  | nil => cases hv
  | @enter _ _ u h hnew hstep ih =>
    rw [entered_append, entered_enter, List.mem_append, List.mem_singleton] at hv
    obtain hv | rfl := hv
    · exact (ih hv).imp (List.mem_cons_of_mem _) (List.mem_append_left _)
    · exact .inl List.mem_cons_self
  | follow h hstep hentered ih =>
    rw [entered_append, entered_follow, List.append_nil] at hv
    exact (ih hv).imp_right (List.mem_append_left _)
  | leave h hall ih =>
    rw [entered_append, entered_leave, List.append_nil] at hv
    obtain hmem | hleft := ih hv
    · obtain rfl | hmem := List.mem_cons.mp hmem
      · exact .inr (List.mem_append_right _ (List.mem_singleton_self _))
      · exact .inl hmem
    · exact .inr (List.mem_append_left _ hleft)

theorem mem_entered_of_leave (h : Trace successors events path) (hv : .leave v ∈ events) :
    v ∈ entered events := by
  induction h with
  | nil => cases hv
  | enter h hnew hstep ih =>
    obtain hv | hv := List.mem_append.mp hv
    · exact mem_entered_append (ih hv)
    · cases List.mem_singleton.mp hv
  | follow h hstep hentered ih =>
    obtain hv | hv := List.mem_append.mp hv
    · exact mem_entered_append (ih hv)
    · cases List.mem_singleton.mp hv
  | leave h hall ih =>
    obtain hv | hv := List.mem_append.mp hv
    · exact mem_entered_append (ih hv)
    · obtain rfl := Event.leave.inj (List.mem_singleton.mp hv)
      exact mem_entered_append (h.mem_entered_of_mem_path List.mem_cons_self)

/-- A vertex of the path has not been left. -/
theorem leave_notMem (h : Trace successors events path) (hv : v ∈ path) :
    .leave v ∉ events := by
  induction h with
  | nil => cases hv
  | enter h hnew hstep ih =>
    intro hleft
    obtain hleft | hleft := List.mem_append.mp hleft
    · have hne := ne_of_mem_of_not_mem (h.mem_entered_of_leave hleft) hnew
      exact ih ((List.mem_cons.mp hv).resolve_left hne) hleft
    · cases List.mem_singleton.mp hleft
  | follow h hstep hentered ih =>
    intro hleft
    obtain hleft | hleft := List.mem_append.mp hleft
    · exact ih hv hleft
    · cases List.mem_singleton.mp hleft
  | leave h hall ih =>
    intro hleft
    obtain hleft | hleft := List.mem_append.mp hleft
    · exact ih (List.mem_cons_of_mem _ hv) hleft
    · obtain rfl := Event.leave.inj (List.mem_singleton.mp hleft)
      exact (List.nodup_cons.mp h.nodup_path).1 hv

/-- Followed edges are edges between vertices that have been entered. -/
theorem of_followed (h : Trace successors events path) (hfollow : Followed events v w) :
    w ∈ successors v ∧ v ∈ entered events ∧ w ∈ entered events := by
  induction h with
  | nil => cases hfollow
  | enter h hnew hstep ih =>
    obtain hfollow | hfollow := List.mem_append.mp hfollow
    · obtain ⟨hmem, hv, hw⟩ := ih hfollow
      exact ⟨hmem, mem_entered_append hv, mem_entered_append hw⟩
    · cases List.mem_singleton.mp hfollow
  | follow h hstep hentered ih =>
    obtain hfollow | hfollow := List.mem_append.mp hfollow
    · obtain ⟨hmem, hv, hw⟩ := ih hfollow
      exact ⟨hmem, mem_entered_append hv, mem_entered_append hw⟩
    · obtain ⟨rfl, rfl⟩ := Event.follow.inj (List.mem_singleton.mp hfollow)
      exact ⟨hstep, mem_entered_append (h.mem_entered_of_mem_path List.mem_cons_self),
        mem_entered_append hentered⟩
  | leave h hall ih =>
    obtain hfollow | hfollow := List.mem_append.mp hfollow
    · obtain ⟨hmem, hv, hw⟩ := ih hfollow
      exact ⟨hmem, mem_entered_append hv, mem_entered_append hw⟩
    · cases List.mem_singleton.mp hfollow

/-- All edges of a vertex that has been left have been followed. -/
theorem followed_of_leave (h : Trace successors events path) (hv : .leave v ∈ events)
    (hw : w ∈ successors v) : Followed events v w := by
  induction h with
  | nil => cases hv
  | enter h hnew hstep ih =>
    obtain hv | hv := List.mem_append.mp hv
    · exact List.mem_append_left _ (ih hv)
    · cases List.mem_singleton.mp hv
  | follow h hstep hentered ih =>
    obtain hv | hv := List.mem_append.mp hv
    · exact List.mem_append_left _ (ih hv)
    · cases List.mem_singleton.mp hv
  | leave h hall ih =>
    obtain hv | hv := List.mem_append.mp hv
    · exact List.mem_append_left _ (ih hv)
    · obtain rfl := Event.leave.inj (List.mem_singleton.mp hv)
      exact List.mem_append_left _ (hall w hw)

/-! ### The order of the path -/

section Order

variable [DecidableEq V]

/-- The path goes back from the last number to the first. -/
theorem pairwise_path (h : Trace successors events path) :
    path.Pairwise fun a b => number events b < number events a := by
  have hmono {events more : List (Event V)} {path : List V} (h : Trace successors events path)
      (hpath : path.Pairwise fun a b => number events b < number events a) :
      path.Pairwise fun a b => number (events ++ more) b < number (events ++ more) a := by
    refine hpath.imp_of_mem fun {a b} ha hb hlt => ?_
    rwa [number_append (h.mem_entered_of_mem_path ha), number_append (h.mem_entered_of_mem_path hb)]
  induction h with
  | nil => exact .nil
  | enter h hnew hstep ih =>
    refine List.pairwise_cons.mpr ⟨fun b hb => ?_, hmono h ih⟩
    have hmem := h.mem_entered_of_mem_path hb
    rw [number_append hmem, number_enter hnew]
    exact number_lt_length hmem
  | follow h hstep hentered ih => exact hmono h ih
  | leave h hall ih => exact (List.pairwise_cons.mp (hmono h ih)).2

theorem number_le_of_mem_path (h : Trace successors events (v :: path)) (hw : w ∈ v :: path) :
    number events w ≤ number events v := by
  obtain rfl | hw := List.mem_cons.mp hw
  · exact le_refl _
  · exact ((List.pairwise_cons.mp h.pairwise_path).1 w hw).le

/-- A vertex of the path leads to what has been entered since. -/
theorem reflTransGen_of_number_le (h : Trace successors events path) (hv : v ∈ path)
    (hw : w ∈ entered events) (hle : number events v ≤ number events w) :
    ReflTransGen (Step successors) v w := by
  induction h generalizing w with
  | nil => cases hv
  | @enter events path x h hnew hstep ih =>
    rw [entered_append, entered_enter, List.mem_append, List.mem_singleton] at hw
    obtain rfl | hpath := List.mem_cons.mp hv
    · -- nothing has been entered after the last vertex
      obtain hw | rfl := hw
      · rw [number_enter hnew, number_append hw] at hle
        exact absurd (number_lt_length hw) hle.not_gt
      · exact .refl
    · have hmem := h.mem_entered_of_mem_path hpath
      obtain hw | rfl := hw
      · rw [number_append hmem, number_append hw] at hle
        exact ih hpath hw hle
      · obtain ⟨top, rest, rfl⟩ := List.exists_cons_of_ne_nil (List.ne_nil_of_mem hpath)
        have htop := h.mem_entered_of_mem_path List.mem_cons_self
        exact (ih hpath htop (h.number_le_of_mem_path hpath)).tail (hstep top rfl)
  | follow h hstep hentered ih =>
    rw [entered_append, entered_follow, List.append_nil] at hw
    rw [number_append_follow, number_append_follow] at hle
    exact ih hv hw hle
  | leave h hall ih =>
    rw [entered_append, entered_leave, List.append_nil] at hw
    rw [number_append_leave, number_append_leave] at hle
    exact ih (List.mem_cons_of_mem _ hv) hw hle

/-- An edge that has been followed from a vertex before one of the path leads to a vertex before
it. -/
theorem number_lt_of_follow {a b g : V} (h : Trace successors events path) (hg : g ∈ path)
    (hfollow : Followed events a b) (hlt : number events a < number events g) :
    number events b < number events g := by
  have hold {events more : List (Event V)} {path : List V} (h : Trace successors events path)
      (hg : g ∈ entered events) (hfollow : Followed events a b)
      (hlt : number (events ++ more) a < number (events ++ more) g)
      (ih : number events a < number events g → number events b < number events g) :
      number (events ++ more) b < number (events ++ more) g := by
    obtain ⟨-, ha, hb⟩ := h.of_followed hfollow
    rw [number_append ha, number_append hg] at hlt
    rw [number_append hb, number_append hg]
    exact ih hlt
  induction h with
  | nil => cases hg
  | @enter _ _ v h hnew hstep ih =>
    obtain hbefore | hlast := List.mem_append.mp hfollow
    · obtain rfl | hg := List.mem_cons.mp hg
      · -- everything that an edge has led to was entered before the last vertex
        obtain ⟨-, -, hb⟩ := h.of_followed hbefore
        rw [number_append hb, number_enter hnew]
        exact number_lt_length hb
      · exact hold h (h.mem_entered_of_mem_path hg) hbefore hlt (ih hg hbefore)
    · cases List.mem_singleton.mp hlast
  | follow h hstep hentered ih =>
    have hmem := h.mem_entered_of_mem_path hg
    obtain hfollow | hfollow := List.mem_append.mp hfollow
    · exact hold h hmem hfollow hlt (ih hg hfollow)
    · obtain ⟨rfl, rfl⟩ := Event.follow.inj (List.mem_singleton.mp hfollow)
      rw [number_append (h.mem_entered_of_mem_path List.mem_cons_self), number_append hmem] at hlt
      exact absurd (h.number_le_of_mem_path hg) hlt.not_ge
  | @leave _ _ v h hall ih =>
    have hmem := List.mem_cons_of_mem v hg
    obtain hfollow | hfollow := List.mem_append.mp hfollow
    · exact hold h (h.mem_entered_of_mem_path hmem) hfollow hlt (ih hmem hfollow)
    · cases List.mem_singleton.mp hfollow

omit [DecidableEq V] in
theorem reflTransGen_step (h : Trace successors events path)
    (hreach : ReflTransGen (Followed events) v w) : ReflTransGen (Step successors) v w := by
  induction hreach with
  | refl => exact .refl
  | tail _ hfollow ih => exact ih.tail (h.of_followed hfollow).1

end Order

end Trace

/-! ### First vertices -/

section First

variable [DecidableEq V]

variable (successors) in
theorem exists_first (hv : v ∈ entered events) : ∃ r, First successors events r v := by
  classical
  have hex : ∃ n, ∃ r ∈ entered events, Mutual successors r v ∧ number events r = n :=
    ⟨_, v, hv, .refl v, rfl⟩
  obtain ⟨r, hr, hmutual, hnumber⟩ := Nat.find_spec hex
  refine ⟨r, hr, hmutual, fun w hw hw' => ?_⟩
  rw [hnumber]
  exact Nat.find_le ⟨w, hw, hw', rfl⟩

theorem First.of_mutual {r : V} (h : First successors events r v)
    (hmutual : Mutual successors v w) : First successors events r w where
  entered := h.entered
  isMutual := h.isMutual.trans hmutual
  le := fun x hx hxw => h.le x hx (hxw.trans hmutual.symm)

/-- What is entered later is not first. -/
theorem first_append_iff {r : V} (hv : v ∈ entered events) :
    First successors (events ++ more) r v ↔ First successors events r v := by
  have hsplit {u : V} (hu : u ∈ entered (events ++ more)) (hu' : u ∉ entered events) :
      (entered events).length ≤ number (events ++ more) u := by
    rw [number, entered_append, List.idxOf_append_of_notMem hu']
    exact Nat.le_add_right _ _
  constructor
  · intro h
    have hr : r ∈ entered events := by
      by_contra hr
      have hle := h.le v (mem_entered_append hv) (.refl v)
      rw [number_append hv] at hle
      exact absurd ((hsplit h.entered hr).trans hle) (number_lt_length hv).not_ge
    refine ⟨hr, h.isMutual, fun w hw hw' => ?_⟩
    have hle := h.le w (mem_entered_append hw) hw'
    rwa [number_append hr, number_append hw] at hle
  · intro h
    refine ⟨mem_entered_append h.entered, h.isMutual, fun w hw hw' => ?_⟩
    rw [number_append h.entered]
    by_cases hmem : w ∈ entered events
    · rw [number_append hmem]
      exact h.le w hmem hw'
    · exact ((number_lt_length h.entered).le).trans (hsplit hw hmem)

end First

/-! ### The search -/

section Search

variable [DecidableEq V] (successors)

/-- The history of a search after the visit of a vertex, with a bound of the depth. -/
def visit : ℕ → List (Event V) → V → List (Event V)
  | 0, events, _ => events
  | depth + 1, events, v =>
    if v ∈ entered events then events
    else
      (successors v).foldl (fun events w => visit depth events w ++ [.follow v w])
        (events ++ [.enter v]) ++ [.leave v]

/-- The history of the search that visits the vertices of a list in turn. -/
def search (vertices : List V) : List (Event V) :=
  vertices.foldl (visit successors (vertices.length + 1)) []

variable {successors} {vertices : List V} {depth : ℕ}

theorem Trace.foldl_visit (h : Trace successors events (v :: path))
    (hvisit : ∀ {events : List (Event V)} {w : V}, Trace successors events (v :: path) →
      w ∈ successors v → Trace successors (visit successors depth events w) (v :: path) ∧
        w ∈ entered (visit successors depth events w) ∧
        events <+: visit successors depth events w) {children : List V}
    (hchildren : ∀ w ∈ children, w ∈ successors v) :
    let result := children.foldl (fun events w => visit successors depth events w ++ [.follow v w])
      events
    Trace successors result (v :: path) ∧ events <+: result ∧
      ∀ w ∈ children, .follow v w ∈ result := by
  induction children generalizing events with
  | nil => exact ⟨h, List.prefix_rfl, fun w hw => absurd hw List.not_mem_nil⟩
  | cons child children ih =>
    obtain ⟨hchild, hmem⟩ := List.forall_mem_cons.mp hchildren
    obtain ⟨htrace, hentered, hinit⟩ := hvisit h hchild
    obtain ⟨hresult, hinit', hall⟩ := ih (htrace.follow hchild hentered) hmem
    refine ⟨hresult, hinit.trans ((List.prefix_append _ _).trans hinit'), ?_⟩
    refine List.forall_mem_cons.mpr ⟨?_, hall⟩
    exact hinit'.subset (List.mem_append_right _ (List.mem_singleton_self _))

/-- A visit with a depth that the path leaves goes on with a history, and enters its vertex. -/
theorem Trace.visit (hclosed : ∀ v ∈ vertices, ∀ w ∈ successors v, w ∈ vertices)
    (h : Trace successors events path) (hpath : ∀ u ∈ path, u ∈ vertices) (hv : v ∈ vertices)
    (hstep : ∀ u ∈ path.head?, v ∈ successors u)
    (hdepth : vertices.length < depth + path.length) :
    Trace successors (visit successors depth events v) path ∧
      v ∈ entered (DepthFirst.visit successors depth events v) ∧
      events <+: DepthFirst.visit successors depth events v := by
  have hlength {events : List (Event V)} {path : List V} (h : Trace successors events path)
      (hpath : ∀ u ∈ path, u ∈ vertices) : path.length ≤ vertices.length :=
    (h.nodup_path.subperm hpath).length_le
  induction depth generalizing events path v with
  | zero =>
    have hle := hlength h hpath
    omega
  | succ depth ih =>
    rw [DepthFirst.visit]
    split_ifs with hentered
    · exact ⟨h, hentered, List.prefix_rfl⟩
    · have hcons := List.forall_mem_cons.mpr ⟨hv, hpath⟩
      have hvisit {events : List (Event V)} {w : V} (h : Trace successors events (v :: path))
          (hw : w ∈ successors v) := ih h hcons (hclosed v hv w hw)
            (fun u hu => Option.mem_some.mp hu ▸ hw) (by rw [List.length_cons]; omega)
      obtain ⟨htrace, hinit, hall⟩ :=
        (h.enter hentered hstep).foldl_visit hvisit fun w hw => hw
      refine ⟨htrace.leave hall, mem_entered_append ?_, ?_⟩
      · exact htrace.mem_entered_of_mem_path List.mem_cons_self
      · exact ((List.prefix_append _ _).trans hinit).trans (List.prefix_append _ _)

/-- The search of a graph is a history that enters the vertices of the graph. -/
theorem trace_search (hclosed : ∀ v ∈ vertices, ∀ w ∈ successors v, w ∈ vertices) :
    Trace successors (search successors vertices) [] ∧
      ∀ v ∈ vertices, v ∈ entered (search successors vertices) := by
  have hfold {roots : List V} {events : List (Event V)} (h : Trace successors events [])
      (hroots : ∀ v ∈ roots, v ∈ vertices) :
      let result := roots.foldl (visit successors (vertices.length + 1)) events
      Trace successors result [] ∧ events <+: result ∧ ∀ v ∈ roots, v ∈ entered result := by
    induction roots generalizing events with
    | nil => exact ⟨h, List.prefix_rfl, fun v hv => absurd hv List.not_mem_nil⟩
    | cons root roots ih =>
      obtain ⟨hroot, hmem⟩ := List.forall_mem_cons.mp hroots
      obtain ⟨htrace, hentered, hinit⟩ := h.visit hclosed
        (fun u hu => absurd hu List.not_mem_nil) hroot (fun u hu => nomatch hu)
        (Nat.lt_succ_self _)
      obtain ⟨hresult, ⟨more, hmore⟩, hall⟩ := ih htrace hmem
      refine ⟨hresult, hinit.trans ⟨more, hmore⟩, List.forall_mem_cons.mpr ⟨?_, hall⟩⟩
      exact hmore ▸ mem_entered_append hentered
  obtain ⟨htrace, -, hall⟩ := hfold .nil fun v hv => hv
  exact ⟨htrace, hall⟩

end Search

end DepthFirst
