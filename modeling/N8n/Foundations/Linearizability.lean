import Mathlib.Data.List.Nodup
import N8n.Foundations.History

/-!
# Linearizable histories of a sequential object

A sequential object is a state and a step function, which takes an operation to the state after it
and its result. Calls of its operations overlap: a history has an event when a call is made and one
when it returns. A *linearization* of a history is an order of calls in which every call that has
returned has the result that the object gives, and no call comes before one that returned before it
was made. Calls that have not returned may be in the order.

The rules follow how a concurrent implementation is verified. A call or a return that is already in
order extends the history; a call takes effect by being put at the end of the order
(`Linearization.insert` with nothing after it); and a call that does not change the state may be put
at any moment of the order after the calls that returned before it was made. `Passes` says that
there is such a moment with a given property of the state.
-/

namespace Linearizability

universe u v w x

variable {S : Type u} {Op : Type v} {Res : Type w} {Call : Type x}

/-- A sequential object. -/
structure Object (S : Type u) (Op : Type v) (Res : Type w) where
  init : S
  step : S → Op → S × Res

inductive Event (Call : Type x) (Op : Type v) (Res : Type w) where
  | call (c : Call) (op : Op)
  | ret (c : Call) (res : Res)

/-- Call `c` has returned before call `d` is made. -/
def Precedes (history : List (Event Call Op Res)) (c d : Call) : Prop :=
  ∃ earlier op later res, history = earlier ++ .call d op :: later ∧ .ret c res ∈ earlier

/-- The state after the operations of an order. -/
def Object.run (obj : Object S Op Res) (order : List (Call × Op)) : S :=
  order.foldl (fun s x => (obj.step s x.2).1) obj.init

/-- A call is in the order, and has this result there. -/
def Yields (obj : Object S Op Res) (order : List (Call × Op)) (c : Call) (op : Op) (res : Res) :
    Prop :=
  ∃ before after, order = before ++ (c, op) :: after ∧ (obj.step (obj.run before) op).2 = res

structure Linearization (obj : Object S Op Res) (history : List (Event Call Op Res))
    (order : List (Call × Op)) : Prop where
  nodup : (order.map Prod.fst).Nodup
  /-- Only operations that were called are in the order. -/
  called : ∀ x ∈ order, .call x.1 x.2 ∈ history
  /-- Every call that has returned is in the order, and has the result that it has there. -/
  returned : ∀ c res, .ret c res ∈ history → ∃ op, Yields obj order c op res
  /-- The order keeps that of calls that do not overlap. -/
  realTime : EachAfter
    (fun before x => ∀ c, Precedes history c x.1 → c ∈ before.map Prod.fst) order

/-- The order passes through a state with `P`, after all calls that returned before `c` was made. -/
def Passes (obj : Object S Op Res) (history : List (Event Call Op Res))
    (order : List (Call × Op)) (c : Call) (P : S → Prop) : Prop :=
  ∃ before after, order = before ++ after ∧
    (∀ d, Precedes history d c → d ∈ before.map Prod.fst) ∧ P (obj.run before)

variable {obj : Object S Op Res} {history : List (Event Call Op Res)} {order : List (Call × Op)}
  {c d : Call} {op : Op} {res : Res} {P Q : S → Prop}

/-! ### Runs of the object -/

theorem Object.run_append (before after : List (Call × Op)) :
    obj.run (before ++ after) = after.foldl (fun s x => (obj.step s x.2).1) (obj.run before) :=
  List.foldl_append

theorem Object.run_concat :
    obj.run (order ++ [(c, op)]) = (obj.step (obj.run order) op).1 := by
  rw [run_append]
  rfl

/-- An operation that leaves the state as it is may be put in anywhere. -/
theorem Object.run_insert {before after : List (Call × Op)}
    (h : (obj.step (obj.run before) op).1 = obj.run before) :
    obj.run (before ++ (c, op) :: after) = obj.run (before ++ after) := by
  rw [run_append, List.foldl_cons, h, ← run_append]

/-! ### Precedence -/

theorem Precedes.returned (h : Precedes history c d) : ∃ res, .ret c res ∈ history := by
  obtain ⟨earlier, op, later, res, rfl, hmem⟩ := h
  exact ⟨res, List.mem_append_left _ hmem⟩

/-- What one more event adds to it. -/
theorem precedes_concat_iff {e : Event Call Op Res} :
    Precedes (history ++ [e]) c d ↔
      Precedes history c d ∨ (∃ op, e = .call d op) ∧ ∃ res, .ret c res ∈ history := by
  constructor
  · intro ⟨earlier, op, later, res, heq, hmem⟩
    obtain rfl | ⟨later', y, rfl⟩ := List.eq_nil_or_concat later
    · obtain ⟨rfl, he⟩ := List.append_inj' heq rfl
      exact .inr ⟨⟨op, (List.cons.inj he).1⟩, res, hmem⟩
    · rw [List.concat_eq_append, ← List.cons_append, ← List.append_assoc] at heq
      obtain ⟨hhistory, -⟩ := List.append_inj' heq rfl
      exact .inl ⟨earlier, op, later', res, hhistory, hmem⟩
  · intro h
    obtain ⟨earlier, op, later, res, rfl, hmem⟩ | ⟨⟨op, rfl⟩, res, hmem⟩ := h
    · exact ⟨earlier, op, later ++ [e], res, by simp, hmem⟩
    · exact ⟨history, op, [], res, rfl, hmem⟩

/-- Later events do not change what precedes a call that was made before. -/
theorem precedes_concat_of_ne {e : Event Call Op Res} (he : ∀ op, e ≠ .call d op) :
    Precedes (history ++ [e]) c d ↔ Precedes history c d := by
  rw [precedes_concat_iff, or_iff_left]
  intro ⟨⟨op, h⟩, _⟩
  exact he op h

/-! ### Extending a linearization -/

/-- What precedes a call is in the order. -/
theorem Linearization.mem_of_precedes (h : Linearization obj history order)
    (hd : Precedes history d c) : d ∈ order.map Prod.fst := by
  obtain ⟨res, hres⟩ := hd.returned
  obtain ⟨op, before, after, rfl, -⟩ := h.returned d res hres
  simp

/-- What a call has in the order is not changed by an operation that changes no state before it. -/
theorem Yields.insert {before after : List (Call × Op)} {op' : Op}
    (h : Yields obj (before ++ after) d op' res)
    (hstate : after ≠ [] → (obj.step (obj.run before) op).1 = obj.run before) :
    Yields obj (before ++ (c, op) :: after) d op' res := by
  obtain ⟨b, a, heq, hres⟩ := h
  obtain ⟨mid, rfl, hafter⟩ | ⟨mid, rfl, hmid⟩ := List.append_eq_append_iff.mp heq
  · refine ⟨before ++ (c, op) :: mid, a, by simp [hafter], ?_⟩
    rw [Object.run_insert (hstate (by simp [hafter]))]
    exact hres
  · cases mid with
    | nil =>
      have hafter : (d, op') :: a = after := hmid
      refine ⟨b ++ [(c, op)], a, by simp [← hafter], ?_⟩
      rw [List.append_nil] at hstate
      rw [Object.run_concat, hstate (hafter ▸ List.cons_ne_nil _ _)]
      exact hres
    | cons y mid =>
      obtain ⟨rfl, rfl⟩ := List.cons.inj hmid
      exact ⟨b, mid ++ (c, op) :: after, by simp, hres⟩

namespace Passes

/-- The state that the order ends in is passed through. -/
theorem last (h : Linearization obj history order) (hP : P (obj.run order)) :
    Passes obj history order c P := by
  exact ⟨order, [], (List.append_nil order).symm, fun d hd => h.mem_of_precedes hd, hP⟩

theorem mono (h : Passes obj history order c P) (hPQ : ∀ s, P s → Q s) :
    Passes obj history order c Q := by
  obtain ⟨before, after, rfl, hreal, hP⟩ := h
  exact ⟨before, after, rfl, hreal, hPQ _ hP⟩

theorem concat_history (h : Passes obj history order c P) {e : Event Call Op Res}
    (he : ∀ op, e ≠ .call c op) : Passes obj (history ++ [e]) order c P := by
  obtain ⟨before, after, rfl, hreal, hP⟩ := h
  exact ⟨before, after, rfl, fun d hd => hreal d ((precedes_concat_of_ne he).mp hd), hP⟩

/-- An operation that changes no state before the end leaves every moment in the order. -/
theorem insert {before after : List (Call × Op)} (h : Passes obj history (before ++ after) c P)
    (hstate : after ≠ [] → (obj.step (obj.run before) op).1 = obj.run before) :
    Passes obj history (before ++ (d, op) :: after) c P := by
  obtain ⟨b, a, heq, hreal, hP⟩ := h
  obtain ⟨mid, rfl, rfl⟩ | ⟨mid, rfl, rfl⟩ := List.append_eq_append_iff.mp heq
  · cases mid with
    | nil =>
      rw [List.append_nil] at hreal hP
      exact ⟨before, (d, op) :: a, rfl, hreal, hP⟩
    | cons x mid =>
      refine ⟨before ++ (d, op) :: x :: mid, a, by simp, fun e he => ?_, ?_⟩
      · have := hreal e he
        simp only [List.map_append, List.map_cons, List.mem_append, List.mem_cons] at this ⊢
        tauto
      · rw [Object.run_insert (hstate (by simp))]
        exact hP
  · exact ⟨b, mid ++ (d, op) :: after, by simp, hreal, hP⟩

end Passes

namespace Linearization

theorem nil : Linearization obj ([] : List (Event Call Op Res)) [] where
  nodup := List.nodup_nil
  called := by simp
  returned := by simp
  realTime := .nil

/-- A call that has not been made before is made. -/
theorem call (h : Linearization obj history order) (hnew : ∀ op', .call c op' ∉ history) :
    Linearization obj (history ++ [.call c op]) order where
  nodup := h.nodup
  called x hx := List.mem_append_left _ (h.called x hx)
  returned d res hres := h.returned d res (by simpa using hres)
  realTime := by
    intro before x after heq d hd
    refine h.realTime before x after heq d ((precedes_concat_of_ne fun op' he => ?_).mp hd)
    have hx : .call x.1 x.2 ∈ history := h.called x (heq ▸ by simp)
    injection he with hc
    exact hnew x.2 (hc ▸ hx)

/-- A call that is in the order returns what it has there. -/
theorem ret (h : Linearization obj history order) (hyields : Yields obj order c op res) :
    Linearization obj (history ++ [.ret c res]) order where
  nodup := h.nodup
  called x hx := List.mem_append_left _ (h.called x hx)
  returned d res' hres' := by
    obtain hres' | hres' := List.mem_append.mp hres'
    · exact h.returned d res' hres'
    · obtain ⟨rfl, rfl⟩ : d = c ∧ res' = res := by simpa using hres'
      exact ⟨op, hyields⟩
  realTime := by
    intro b x a heq d hd
    exact h.realTime b x a heq d ((precedes_concat_of_ne fun _ h => by cases h).mp hd)

/-- **Linearization point.** A call takes effect: at the end of the order, or
at an earlier moment where it leaves the state as it is. -/
theorem insert {before after : List (Call × Op)} (h : Linearization obj history (before ++ after))
    (hcalled : .call c op ∈ history) (hnew : c ∉ (before ++ after).map Prod.fst)
    (hreal : ∀ d, Precedes history d c → d ∈ before.map Prod.fst)
    (hstate : after ≠ [] → (obj.step (obj.run before) op).1 = obj.run before) :
    Linearization obj history (before ++ (c, op) :: after) where
  nodup := by
    have := h.nodup
    rw [List.map_append] at this hnew ⊢
    exact List.perm_middle.nodup_iff.mpr (List.nodup_cons.mpr ⟨hnew, this⟩)
  called x hx := by
    obtain rfl | hx : x = (c, op) ∨ x ∈ before ++ after := by
      simp only [List.mem_append, List.mem_cons] at hx ⊢
      tauto
    · exact hcalled
    · exact h.called x hx
  returned d res hres := by
    obtain ⟨op', hyields⟩ := h.returned d res hres
    exact ⟨op', hyields.insert hstate⟩
  realTime := by
    intro b x a heq d hd
    obtain ⟨mid, rfl, hmid⟩ | ⟨mid, rfl, hmid⟩ := List.append_eq_append_iff.mp heq
    · cases mid with
      | nil =>
        obtain ⟨rfl, rfl⟩ := List.cons.inj hmid
        simpa using hreal d hd
      | cons y mid =>
        obtain ⟨rfl, rfl⟩ := List.cons.inj hmid
        have := h.realTime (before ++ mid) x a (by simp) d hd
        simp only [List.map_append, List.map_cons, List.mem_append, List.mem_cons] at this ⊢
        tauto
    · cases mid with
      | nil =>
        obtain ⟨rfl, rfl⟩ := List.cons.inj hmid
        simpa using hreal d hd
      | cons y mid =>
        obtain ⟨rfl, rfl⟩ := List.cons.inj hmid
        exact h.realTime b x (mid ++ after) (by simp) d hd

/-! ### What the object keeps -/

/-- What a call establishes, and no call keeps from holding unless it had returned before, holds at
any moment after it. -/
theorem holds_of_mem {before after : List (Call × Op)}
    (h : Linearization obj history (before ++ after)) (hmem : c ∈ before.map Prod.fst)
    (hop : ∀ op', .call c op' ∈ history → op' = op) (hestablish : ∀ s, P (obj.step s op).1)
    (hkeep : ∀ d op', .call d op' ∈ history → ¬ Precedes history d c →
      ∀ s, P s → P (obj.step s op').1) : P (obj.run before) := by
  obtain ⟨⟨_, op'⟩, hx, rfl⟩ := List.mem_map.mp hmem
  obtain ⟨earlier, later, rfl⟩ := List.append_of_mem hx
  obtain rfl := hop op' (h.called (_, op') (by simp))
  have hlater : ∀ x ∈ later, ∀ s, P s → P (obj.step s x.2).1 := by
    intro x hx
    refine hkeep x.1 x.2 (h.called x (by simp [hx])) fun hprec => ?_
    have hearlier := h.realTime earlier _ (later ++ after) (by simp) x.1 hprec
    have hnodup := h.nodup
    rw [List.append_assoc, List.map_append] at hnodup
    exact List.disjoint_of_nodup_append hnodup hearlier
      (List.mem_map_of_mem (List.mem_append_left _ (List.mem_cons_of_mem _ hx)))
  rw [Object.run_append, List.foldl_cons]
  exact List.foldlRecOn (motive := P) later _ (hestablish _) fun s hs x hx => hlater x hx s hs

/-- What holds at any moment after a call that has returned holds in the end. -/
theorem holds (h : Linearization obj history order) (hret : .ret c res ∈ history)
    (hop : ∀ op', .call c op' ∈ history → op' = op) (hestablish : ∀ s, P (obj.step s op).1)
    (hkeep : ∀ d op', .call d op' ∈ history → ¬ Precedes history d c →
      ∀ s, P s → P (obj.step s op').1) : P (obj.run order) := by
  have hmem : c ∈ order.map Prod.fst := by
    obtain ⟨op', before, after, rfl, -⟩ := h.returned c res hret
    simp
  rw [← List.append_nil order] at h
  exact h.holds_of_mem hmem hop hestablish hkeep

end Linearization

end Linearizability
