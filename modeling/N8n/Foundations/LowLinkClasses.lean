import N8n.Foundations.LowLinks

/-!
# When low links find the classes

A vertex that is left with its own number as low link and is not whole is lost: it stays on the
stack to the end (`Lost`). Otherwise the low link of a vertex that has been left is the number of a
vertex that the edges followed before lead to, and for what has been taken that is the first vertex
of its class (`Kept`). Conversely low links are as low as they can be while the followed edges lead
back to the first vertices (`Known`). So the components are the classes of mutual vertices exactly
if whenever a vertex is left, the edges that have been followed lead from it back to the first
vertex of its class (`classifies_iff_returns`).
-/

universe u

namespace LowLinks

open DepthFirst Relation

variable {V : Type u} [DecidableEq V]

variable {successors : V → List V} {events before : List (Event V)} {path : List V} {s : State V}
  {v w : V}

/-- A vertex that is not whole stays on the stack when it is left. -/
theorem mem_dropWhile_of_not_whole (h : Sound successors events path s) (hv : v ∈ s.stack)
    (hwhole : ¬ Whole events s v) :
    v ∈ s.stack.dropWhile fun y => s.low y = number events v := by
  by_contra hnot
  have hsplit := hv
  rw [← List.takeWhile_append_dropWhile (p := fun y => decide (s.low y = number events v))
    (l := s.stack)] at hsplit
  have htake := (List.mem_append.mp hsplit).resolve_right hnot
  exact hwhole fun w hw hle =>
    low_eq_of_mem_takeWhile (mem_takeWhile_of_le h.sorted htake hw hle)

/-! ### Lost vertices -/

theorem leave_eq (horder : s.order = entered events) :
    s.leave v = if s.low v = number events v then s.pop (number events v) else s := by
  rw [State.leave, horder, ← number]
  exact if_congr eq_comm rfl rfl

namespace Lost

theorem enter (h : Lost events s v) (htrace : Trace successors events path)
    (hnew : w ∉ entered events) : Lost (events ++ [.enter w]) (s.enter w) v where
  left := List.mem_append_left _ h.left
  mem_stack := List.mem_cons_of_mem _ h.mem_stack
  low_eq := by
    have hv := htrace.mem_entered_of_leave h.left
    rw [number_append hv, ← h.low_eq]
    exact Function.update_of_ne (ne_of_mem_of_not_mem hv hnew) _ _
  notMem := h.notMem

theorem follow {x : V} (h : Lost events s v) (htrace : Trace successors events (w :: path)) :
    Lost (events ++ [.follow w x]) (s.follow w x) v where
  left := List.mem_append_left _ h.left
  mem_stack := by
    rw [stack_follow]
    exact h.mem_stack
  low_eq := by
    have hne : v ≠ w := fun heq => htrace.leave_notMem List.mem_cons_self (heq ▸ h.left)
    rw [number_append_follow, low_follow_of_ne hne, h.low_eq]
  notMem := by
    rw [components_follow]
    exact h.notMem

/-- Only a vertex itself takes the vertices that have its number as their low link. -/
theorem leave (h : Lost events s v) (htrace : Trace successors events (w :: path))
    (horder : s.order = entered events) : Lost (events ++ [.leave w]) (s.leave w) v := by
  have hne : v ≠ w := fun heq => htrace.leave_notMem List.mem_cons_self (heq ▸ h.left)
  have hnot : v ∉ s.stack.takeWhile fun y => s.low y = number events w := fun hv =>
    hne (number_inj (htrace.mem_entered_of_leave h.left)
      (h.low_eq.symm.trans (low_eq_of_mem_takeWhile hv)))
  have hleft : .leave v ∈ events ++ [.leave w] := List.mem_append_left _ h.left
  rw [leave_eq horder]
  split_ifs
  · refine ⟨hleft, ?_, ?_, ?_⟩
    · have hsplit := h.mem_stack
      rw [← List.takeWhile_append_dropWhile (p := fun y => decide (s.low y = number events w))
        (l := s.stack)] at hsplit
      exact (List.mem_append.mp hsplit).resolve_left hnot
    · rw [number_append_leave]
      exact h.low_eq
    · intro component hcomponent
      rw [State.pop] at hcomponent
      dsimp only at hcomponent
      split_ifs at hcomponent
      · exact h.notMem component hcomponent
      · obtain hcomponent | hcomponent := List.mem_append.mp hcomponent
        · exact h.notMem component hcomponent
        · rw [List.mem_singleton.mp hcomponent]
          exact hnot
  · exact ⟨hleft, h.mem_stack, by rw [number_append_leave]; exact h.low_eq, h.notMem⟩

/-- A vertex that is left with its own number as low link is lost unless it is whole. -/
theorem of_not_whole (h : Sound successors events (v :: path) s) (horder : s.order = entered events)
    (hlow : s.low v = number events v) (hwhole : ¬ Whole events s v) :
    Lost (events ++ [.leave v]) (s.leave v) v := by
  have hv := h.onStack v List.mem_cons_self
  have hdrop := mem_dropWhile_of_not_whole h hv hwhole
  have hnot : v ∉ s.stack.takeWhile fun y => s.low y = number events v := fun htake =>
    hwhole fun w hw hle => low_eq_of_mem_takeWhile (mem_takeWhile_of_le h.sorted htake hw hle)
  rw [leave_eq horder, if_pos hlow]
  refine ⟨List.mem_append_right _ (List.mem_singleton_self _), hdrop, ?_, ?_⟩
  · rw [number_append_leave]
    exact hlow
  · intro component hcomponent hmem
    rw [State.pop] at hcomponent
    dsimp only at hcomponent
    have hold : ∀ c ∈ s.components, v ∉ c := fun c hc hvc => (h.mem_entered c hc v hvc).2 hv
    split_ifs at hcomponent
    · exact hold component hcomponent hmem
    · obtain hcomponent | hcomponent := List.mem_append.mp hcomponent
      · exact hold component hcomponent hmem
      · exact hnot (List.mem_singleton.mp hcomponent ▸ hmem)

end Lost

/-! ### What low links tell -/

omit [DecidableEq V] in
theorem prefix_append_singleton {event : Event V} :
    before ++ [.leave v] <+: events ++ [event] ↔
      (before = events ∧ event = .leave v) ∨ before ++ [.leave v] <+: events := by
  rw [List.prefix_concat_iff]
  refine or_congr_left ?_
  constructor
  · intro heq
    obtain ⟨hbefore, hevent⟩ := List.append_inj' heq rfl
    exact ⟨hbefore, (List.cons.inj hevent).1.symm⟩
  · rintro ⟨rfl, rfl⟩
    rfl

/-- The low link of a vertex that has been left is one that the edges followed before lead to, and
for a vertex that has been taken that is the first one of its class. -/
def Kept (successors : V → List V) (events : List (Event V)) (s : State V) : Prop :=
  ∀ before v, before ++ [.leave v] <+: events →
    (∃ u ∈ entered before, s.low v = number events u ∧ ReflTransGen (Followed before) v u) ∧
      (v ∉ s.stack → ∀ r, First successors before r v → ReflTransGen (Followed before) v r)

namespace Kept

/-- What keeps the low links of the vertices that have been left, and keeps them on the stack. -/
theorem step {event : Event V} {s' : State V} (h : Kept successors events s)
    (hevent : ∀ v, event ≠ .leave v) (hlow : ∀ y, .leave y ∈ events → s'.low y = s.low y)
    (hstack : ∀ y, y ∈ s.stack → y ∈ s'.stack) : Kept successors (events ++ [event]) s' := by
  intro before v hinit
  obtain ⟨-, heq⟩ | hinit := prefix_append_singleton.mp hinit
  · exact absurd heq (hevent v)
  · obtain ⟨⟨u, hu, hlow', hreach⟩, hfirst⟩ := h before v hinit
    obtain ⟨more, rfl⟩ := hinit
    have hleft : .leave v ∈ before ++ [.leave v] ++ more :=
      List.mem_append_left _ (List.mem_append_right _ (List.mem_singleton_self _))
    refine ⟨⟨u, hu, ?_, hreach⟩, fun hnot => hfirst fun hmem => hnot (hstack v hmem)⟩
    rw [hlow v hleft, hlow', number_append (mem_entered_append (mem_entered_append hu))]

theorem leave (h : Kept successors events s) (hsound : Sound successors events (v :: path) s)
    (htrace : Trace successors events (v :: path))
    (hall : ∀ w ∈ successors v, .follow v w ∈ events) (horder : s.order = entered events)
    (hwhole : s.low v = number events v → Whole events s v) :
    Kept successors (events ++ [.leave v]) (s.leave v) := by
  have hv := hsound.onStack v List.mem_cons_self
  intro before y hinit
  have hbefore : before <+: events ∧ (∃ u ∈ entered before, s.low y = number events u ∧
      ReflTransGen (Followed before) y u) ∧
      (y ∉ s.stack → ∀ r, First successors before r y → ReflTransGen (Followed before) y r) := by
    obtain ⟨rfl, heq⟩ | hinit := prefix_append_singleton.mp hinit
    · obtain rfl := Event.leave.inj heq
      obtain ⟨u, hu, hlow, -, hreach⟩ := hsound.low v hv
      exact ⟨List.prefix_rfl, ⟨u, hsound.entered u hu, hlow, hreach⟩, fun hnot => absurd hv hnot⟩
    · exact ⟨(List.prefix_append _ _).trans hinit, h before y hinit⟩
  obtain ⟨hsub, ⟨u, hu, hlow, hreach⟩, hgone⟩ := hbefore
  refine ⟨⟨u, hu, by rw [low_leave, hlow, number_append_leave], hreach⟩, fun hnot r hfirst => ?_⟩
  by_cases hy : y ∈ s.stack
  · rw [leave_eq horder] at hnot
    split_ifs at hnot with hown
    · -- what is taken with `v` has the low link of `v`, which is the first vertex of the class
      have hle : number events v ≤ number events y :=
        not_lt.mp fun hlt => hnot ((hsound.mem_dropWhile_iff (hwhole hown)).mpr ⟨hy, hlt⟩)
      have hu' : u ∈ entered events := by
        obtain ⟨more, rfl⟩ := hsub
        exact mem_entered_append hu
      obtain rfl := number_inj hu' (hlow.symm.trans (hwhole hown y hy hle))
      rw [hsound.eq_of_first htrace hall (hwhole hown) hy hle hsub hu hfirst]
      exact hreach
    · exact absurd hy hnot
  · exact hgone hy r hfirst

end Kept

/-- As long as the edges that have been followed lead back to the first vertices of the classes,
the low links do. -/
structure Known (successors : V → List V) (events : List (Event V)) (path : List V) (s : State V) :
    Prop where
  left : ∀ v ∈ s.stack, .leave v ∈ events →
    ∃ r, First successors events r v ∧ s.low v = number events r
  open_ : ∀ v ∈ path, ∀ r, First successors events r v → ReflTransGen (Followed events) v r →
    s.low v = number events r

namespace Known

theorem enter (h : Known successors events path s)
    (htrace : Trace successors events path) (horder : s.order = entered events)
    (hnew : v ∉ entered events) :
    Known successors (events ++ [.enter v]) (v :: path) (s.enter v) := by
  have hfollowed {a b : V} : Followed (events ++ [.enter v]) a b ↔ Followed events a b := by
    simp [Followed]
  have hlow {u : V} (hu : u ∈ entered events) : (s.enter v).low u = s.low u :=
    Function.update_of_ne (ne_of_mem_of_not_mem hu hnew) _ _
  constructor
  · intro u hu hleft
    obtain hleft | hleft := List.mem_append.mp hleft
    · have hmem := htrace.mem_entered_of_leave hleft
      have hu := (List.mem_cons.mp hu).resolve_left (ne_of_mem_of_not_mem hmem hnew)
      obtain ⟨r, hfirst, hr⟩ := h.left u hu hleft
      refine ⟨r, (first_append_iff hmem).mpr hfirst, ?_⟩
      rw [hlow hmem, hr, number_append hfirst.entered]
    · cases List.mem_singleton.mp hleft
  · intro u hu r hfirst hreach
    have hbefore : ReflTransGen (Followed events) u r :=
      ReflTransGen.mono (fun a b hab => hfollowed.mp hab) _ _ hreach
    obtain rfl | hu := List.mem_cons.mp hu
    · -- no edge of the new vertex has been followed
      obtain rfl | ⟨b, hb, -⟩ := hbefore.cases_head
      · rw [number_enter hnew, ← horder]
        exact Function.update_self _ _ _
      · exact absurd (htrace.of_followed hb).2.1 hnew
    · have hmem := htrace.mem_entered_of_mem_path hu
      have hfirst := (first_append_iff hmem).mp hfirst
      rw [hlow hmem, number_append hfirst.entered]
      exact h.open_ u hu r hfirst hbefore

theorem follow (h : Known successors events (v :: path) s)
    (hsound : Sound successors events (v :: path) s)
    (htrace : Trace successors events (v :: path))
    (htrace' : Trace successors (events ++ [.follow v w]) (v :: path)) :
    Known successors (events ++ [.follow v w]) (v :: path) (s.follow v w) := by
  have hedge {a b : V} (hab : Followed (events ++ [.follow v w]) a b) :
      Followed events a b ∨ a = v ∧ b = w := by
    obtain hold | hlast := List.mem_append.mp hab
    · exact .inl hold
    · exact .inr (Event.follow.inj (List.mem_singleton.mp hlast))
  constructor
  · intro u hu hleft
    rw [stack_follow] at hu
    have hleft : .leave u ∈ events :=
      (List.mem_append.mp hleft).resolve_right fun hlast => nomatch List.mem_singleton.mp hlast
    have hne : u ≠ v := fun heq => htrace.leave_notMem List.mem_cons_self (heq ▸ hleft)
    obtain ⟨r, hfirst, hr⟩ := h.left u hu hleft
    refine ⟨r, (first_append_iff (hsound.entered u hu)).mpr hfirst, ?_⟩
    rw [low_follow_of_ne hne, number_append_follow, hr]
  · intro u hu r hfirst hreach
    have hfirst' := (first_append_iff (htrace.mem_entered_of_mem_path hu)).mp hfirst
    rw [number_append_follow]
    obtain rfl | hpath := List.mem_cons.mp hu
    · have hstack := hsound.onStack u List.mem_cons_self
      refine le_antisymm ?_ ?_
      · -- after its last use of the new edge, a way to the first vertex is an old one
        have hlast {x : V} (hx : ReflTransGen (Followed (events ++ [.follow u w])) x r) :
            ReflTransGen (Followed events) x r ∨ ReflTransGen (Followed events) w r := by
          induction hx using ReflTransGen.head_induction_on with
          | refl => exact .inl .refl
          | head hab _ ih =>
            obtain hold | ⟨-, rfl⟩ := hedge hab
            · exact ih.imp_left fun hb => hb.head hold
            · exact .inr (ih.elim id id)
        obtain hold | hw := hlast hreach
        · exact (low_follow_le u).trans_eq (h.open_ u hu r hfirst' hold)
        · obtain ⟨hstep, -, hentered⟩ :=
            htrace'.of_followed (List.mem_append_right _ (List.mem_singleton_self _))
          rw [entered_append, entered_follow, List.append_nil] at hentered
          have hback := (htrace.reflTransGen_step hw).trans hfirst'.isMutual.1
          have hmutual : Mutual successors u w := ⟨.single hstep, hback⟩
          have hmem := hsound.mem_stack_of_mutual hstack hentered hmutual
          have hlow : s.low w = number events r := by
            obtain hpath | hleft := htrace.mem_path_or_leave hentered
            · exact h.open_ w hpath r (hfirst'.of_mutual hmutual) hw
            · obtain ⟨r', hr', hlow⟩ := h.left w hmem hleft
              rw [hlow, hr'.unique (hfirst'.of_mutual hmutual)]
          rw [low_follow_of_mem hmem, ← hlow]
          exact min_le_left _ _
      · have hle := (hsound.follow htrace').first_le_low htrace'
          (by rw [stack_follow]; exact hstack) hfirst
        rwa [number_append_follow] at hle
    · -- the new edge starts after the vertex, where no followed edge leads to
      have hlt := (List.pairwise_cons.mp htrace.pairwise_path).1 u hpath
      have hold {x : V} (hx : ReflTransGen (Followed (events ++ [.follow v w])) u x) :
          ReflTransGen (Followed events) u x ∧ number events x < number events v := by
        induction hx with
        | refl => exact ⟨.refl, hlt⟩
        | @tail a b _ hab ih =>
          obtain hold | ⟨rfl, -⟩ := hedge hab
          · exact ⟨ih.1.tail hold,
              htrace.number_lt_of_follow List.mem_cons_self hold ih.2⟩
          · exact absurd ih.2 (lt_irrefl _)
      have hne : u ≠ v := fun heq => absurd hlt (heq ▸ lt_irrefl _)
      rw [low_follow_of_ne hne]
      exact h.open_ u hu r hfirst' (hold hreach).1

theorem leave (h : Known successors events (v :: path) s)
    (htrace : Trace successors events (v :: path)) (horder : s.order = entered events)
    (hreturns : Returns successors (events ++ [.leave v])) :
    Known successors (events ++ [.leave v]) path (s.leave v) := by
  have hfollowed {a b : V} : Followed (events ++ [.leave v]) a b ↔ Followed events a b := by
    simp [Followed]
  have hsubset {u : V} (hu : u ∈ (s.leave v).stack) : u ∈ s.stack := by
    rw [leave_eq horder] at hu
    split_ifs at hu
    · exact List.dropWhile_subset _ hu
    · exact hu
  constructor
  · intro u hu hleft
    simp only [low_leave, number_append_leave]
    obtain hleft | hlast := List.mem_append.mp hleft
    · obtain ⟨r, hfirst, hr⟩ := h.left u (hsubset hu) hleft
      exact ⟨r, (first_append_iff (htrace.mem_entered_of_leave hleft)).mpr hfirst, hr⟩
    · obtain rfl := Event.leave.inj (List.mem_singleton.mp hlast)
      have hmem := htrace.mem_entered_of_mem_path List.mem_cons_self
      obtain ⟨r, hfirst⟩ := exists_first successors hmem
      have hreach := hreturns events u List.prefix_rfl r hfirst
      exact ⟨r, (first_append_iff hmem).mpr hfirst, h.open_ u List.mem_cons_self r hfirst hreach⟩
  · intro u hu r hfirst hreach
    have hu := List.mem_cons_of_mem v hu
    have hfirst := (first_append_iff (htrace.mem_entered_of_mem_path hu)).mp hfirst
    rw [low_leave, number_append_leave]
    exact h.open_ u hu r hfirst (ReflTransGen.mono (fun a b hab => hfollowed.mp hab) _ _ hreach)

/-- A vertex with its own number as low link is whole when the low links are known. -/
theorem whole (h : Known successors events (v :: path) s)
    (hsound : Sound successors events (v :: path) s)
    (htrace : Trace successors events (v :: path))
    (hreturns : Returns successors (events ++ [.leave v]))
    (hlow : s.low v = number events v) : Whole events s v := by
  intro y hy hle
  have hv := htrace.mem_entered_of_mem_path List.mem_cons_self
  have hfirst : First successors events v v := by
    obtain ⟨r, hfirst⟩ := exists_first successors hv
    have hr := h.open_ v List.mem_cons_self r hfirst
      (hreturns events v List.prefix_rfl r hfirst)
    obtain rfl := number_inj hv (hlow.symm.trans hr)
    exact hfirst
  obtain hpath | hleft := htrace.mem_path_or_leave (hsound.entered y hy)
  · obtain rfl := number_inj hv (le_antisymm hle (htrace.number_le_of_mem_path hpath))
    exact hlow
  · obtain ⟨r, hr, hlow'⟩ := h.left y hy hleft
    obtain ⟨g, hg, -, hreach⟩ := hsound.reaches y hy
    have hback := hsound.reached g hg v (hsound.onStack v List.mem_cons_self)
      (htrace.number_le_of_mem_path hg)
    have hmutual : Mutual successors v y :=
      ⟨hsound.reached v List.mem_cons_self y hy hle, hreach.trans hback⟩
    rw [hlow', hr.unique (hfirst.of_mutual hmutual)]

end Known

/-! ### The components -/

/-- Either every component has been taken as a whole, and the low links are known as long as the
edges lead back, or a vertex has been lost and the edges do not lead back. -/
inductive Progress (successors : V → List V) (events : List (Event V)) (path : List V)
    (s : State V) : Prop
  | sound (h : Sound successors events path s) (hkept : Kept successors events s)
      (hknown : Returns successors events → Known successors events path s)
  | lost {v : V} (h : Lost events s v) (hreturns : ¬ Returns successors events)

theorem progress_run (h : Trace successors events path) :
    Progress successors events path (run events) := by
  induction h with
  | nil =>
    refine .sound .initial ?_ fun _ => ?_
    · intro before v hinit
      exact absurd (List.prefix_nil.mp hinit) (by simp)
    · exact ⟨fun v hv => absurd hv List.not_mem_nil, fun v hv => absurd hv List.not_mem_nil⟩
  | @enter events path v h hnew hstep ih =>
    rw [run_append_singleton]
    cases ih with
    | sound hsound hkept hknown =>
      have hlow (y : V) (hy : .leave y ∈ events) :
          ((run events).enter v).low y = (run events).low y :=
        Function.update_of_ne (ne_of_mem_of_not_mem (h.mem_entered_of_leave hy) hnew) _ _
      exact .sound (hsound.enter h order_run hnew hstep)
        (hkept.step (fun u heq => nomatch heq) hlow fun y hy => List.mem_cons_of_mem _ hy)
        fun hreturns => (hknown hreturns.of_append).enter h order_run hnew
    | lost hlost hreturns =>
      exact .lost (hlost.enter h hnew) fun hreturns' => hreturns hreturns'.of_append
  | @follow events path v w h hstep hentered ih =>
    rw [run_append_singleton]
    have htrace := h.follow hstep hentered
    cases ih with
    | sound hsound hkept hknown =>
      have hlow (y : V) (hy : .leave y ∈ events) :
          ((run events).follow v w).low y = (run events).low y :=
        low_follow_of_ne fun heq => h.leave_notMem List.mem_cons_self (heq ▸ hy)
      exact .sound (hsound.follow htrace)
        (hkept.step (fun u heq => nomatch heq) hlow fun y hy => by rwa [State.handle, stack_follow])
        fun hreturns => (hknown hreturns.of_append).follow hsound h htrace
    | lost hlost hreturns =>
      exact .lost (hlost.follow h) fun hreturns' => hreturns hreturns'.of_append
  | @leave events path v h hall ih =>
    rw [run_append_singleton]
    have horder : (run events).order = entered events := order_run
    cases ih with
    | sound hsound hkept hknown =>
      by_cases hlost : (run events).low v = number events v ∧ ¬ Whole events (run events) v
      · refine .lost (.of_not_whole hsound horder hlost.1 hlost.2) fun hreturns => hlost.2 ?_
        exact (hknown hreturns.of_append).whole hsound h hreturns hlost.1
      · have hwhole (hlow : (run events).low v = number events v) :
            Whole events (run events) v := by
          by_contra hnot
          exact hlost ⟨hlow, hnot⟩
        refine .sound ?_ (hkept.leave hsound h hall horder hwhole) fun hreturns =>
          (hknown hreturns.of_append).leave h horder hreturns
        rw [State.handle, leave_eq horder]
        split_ifs with hlow
        · exact hsound.leave_pop h hall (hwhole hlow)
        · exact hsound.leave_stay h hlow
    | lost hlost hreturns =>
      exact .lost (hlost.leave h horder) fun hreturns' => hreturns hreturns'.of_append

/-- The components classify the vertices exactly if the edges that have been followed lead back to
the first vertices of the classes. -/
theorem classifies_iff_returns (h : Trace successors events []) :
    Classifies successors (entered events) (run events).components ↔
      Returns successors events := by
  cases progress_run h with
  | sound hsound hkept hknown =>
    have hempty (v : V) : v ∉ (run events).stack := by
      intro hv
      obtain ⟨g, hg, -⟩ := hsound.reaches v hv
      cases hg
    have hcovered {v : V} (hv : v ∈ entered events) :=
      (hsound.covered v hv).resolve_left (hempty v)
    refine iff_of_true ⟨hsound.nonempty, hsound.disjoint, fun v => ⟨hcovered, ?_⟩, ?_⟩ ?_
    · rintro ⟨component, hcomponent, hv⟩
      exact (hsound.mem_entered component hcomponent v hv).1
    · intro v hv w hw
      constructor
      · rintro ⟨component, hcomponent, hv, hw⟩
        exact (hsound.same component hcomponent v hv w).mp hw
      · intro hmutual
        obtain ⟨component, hcomponent, hv⟩ := hcovered hv
        exact ⟨component, hcomponent, hv,
          (hsound.same component hcomponent v hv w).mpr hmutual⟩
    · intro before v hinit
      exact (hkept before v hinit).2 (hempty v)
  | @lost v hlost hreturns =>
    refine iff_of_false (fun hclassifies => ?_) hreturns
    obtain ⟨component, hcomponent, hv⟩ :=
      (hclassifies.mem_iff v).mp (h.mem_entered_of_leave hlost.left)
    exact hlost.notMem component hcomponent hv

end LowLinks
