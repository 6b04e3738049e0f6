import Mathlib.Logic.Relation
import Mathlib.Order.WellFounded
import Mathlib.Tactic.Common

/-!
# Following links until they agree

From a place one either finds something, or fails, or goes on along links to other places. All that
can be found is given by `Leads`. A search follows some of the links of a place, one after the
other, takes what it finds there when all that succeed agree, and reports an ambiguity when two of
them do not; when none succeeds it reports the first error.

The answer of such a search says little of what the links lead to, as it forgets the errors beside a
success. `exact_iff` says when it is exact at all places that a search visits: no ambiguity of a
place may be hidden by its own links.
-/

universe u v w

namespace Convergence

variable {P : Type u} {α : Type v} {ε : Type w}

/-- What one finds at a place. -/
inductive View (P : Type u) (α : Type v) (ε : Type w) where
  | found (x : α)
  | fails (e : ε)
  /-- The links, and those of them that the search follows. -/
  | goesOn (links followed : List P)

/-- A place leads to something along links. -/
inductive Leads (view : P → View P α ε) : P → α → Prop
  | found {p : P} {x : α} (h : view p = .found x) : Leads view p x
  | link {p q : P} {x : α} {links followed : List P} (h : view p = .goesOn links followed)
      (hq : q ∈ links) (hx : Leads view q x) : Leads view p x

/-- It leads to this and nothing else. -/
def LeadsOnly (view : P → View P α ε) (p : P) (x : α) : Prop := ∀ y, Leads view p y ↔ y = x

/-- It leads to different things. -/
def Ambiguous (view : P → View P α ε) (p : P) : Prop :=
  ∃ x y, Leads view p x ∧ Leads view p y ∧ x ≠ y

/-- What the search makes of the answers that it gets. -/
inductive Concludes (isAmbiguity : ε → Prop) : List (Except ε α) → Except ε α → Prop
  /-- All that succeed agree. -/
  | agree {results : List (Except ε α)} {x : α} (hmem : .ok x ∈ results)
      (hall : ∀ y, .ok y ∈ results → y = x) : Concludes isAmbiguity results (.ok x)
  | differ {results : List (Except ε α)} {x y : α} {e : ε} (hx : .ok x ∈ results)
      (hy : .ok y ∈ results) (hne : x ≠ y) (he : isAmbiguity e) :
      Concludes isAmbiguity results (.error e)
  | first {results : List (Except ε α)} {e : ε}
      (h : ∀ x, .ok x ∉ (.error e :: results : List (Except ε α))) :
      Concludes isAmbiguity (.error e :: results) (.error e)
  | nothing {e : ε} (he : ¬ isAmbiguity e) : Concludes isAmbiguity [] (.error e)

/-- The answers of a search. -/
structure Answers (view : P → View P α ε) (isAmbiguity : ε → Prop) (answer : P → Except ε α) :
    Prop where
  found : ∀ p x, view p = .found x → answer p = .ok x
  fails : ∀ p e, view p = .fails e → answer p = .error e ∧ ¬ isAmbiguity e
  goesOn : ∀ p links followed, view p = .goesOn links followed → (∀ q ∈ followed, q ∈ links) ∧
    Concludes isAmbiguity (followed.map answer) (answer p)

/-- An answer is exact: it is the only thing that the place leads to, or it says that there is more
than one. -/
structure Exact (view : P → View P α ε) (isAmbiguity : ε → Prop) (p : P) (answer : Except ε α) :
    Prop where
  ok_iff : ∀ x, answer = .ok x ↔ LeadsOnly view p x
  ambiguous : Ambiguous view p → ∃ e, answer = .error e ∧ isAmbiguity e

/-- The links of a place hide nothing from the search: what the place leads to alone is found along
a link that is followed; and if it leads to different things, two such links lead to one thing each,
not the same, or none leads to one thing and the first is ambiguous. -/
structure Surfaces (view : P → View P α ε) (links followed : List P) (p : P) : Prop where
  only : ∀ x, LeadsOnly view p x → ∃ q ∈ followed, Leads view q x
  ambiguous : Ambiguous view p →
    (∃ q ∈ followed, ∃ q' ∈ followed, ∃ x y, LeadsOnly view q x ∧ LeadsOnly view q' y ∧ x ≠ y) ∨
      (∀ q ∈ followed, ∀ x, ¬ LeadsOnly view q x) ∧
        ∃ q rest, followed = q :: rest ∧ Ambiguous view q

variable {view : P → View P α ε} {isAmbiguity : ε → Prop} {answer : P → Except ε α} {p q : P}
  {x : α}

/-! ### What a place leads to -/

theorem leads_of_found (h : view p = .found x) {y : α} : Leads view p y ↔ y = x := by
  constructor
  · intro hy
    cases hy with
    | found hfound =>
      rw [h] at hfound
      exact (View.found.inj hfound).symm
    | link hgoesOn =>
      rw [h] at hgoesOn
      cases hgoesOn
  · rintro rfl
    exact .found h

theorem not_leads_of_fails {e : ε} (h : view p = .fails e) {y : α} : ¬ Leads view p y := by
  intro hy
  cases hy with
  | found hfound =>
    rw [h] at hfound
    cases hfound
  | link hgoesOn =>
    rw [h] at hgoesOn
    cases hgoesOn

theorem LeadsOnly.leads (h : LeadsOnly view p x) : Leads view p x := (h x).mpr rfl

/-- Something else makes the place ambiguous. -/
theorem leadsOnly_of_not_ambiguous (hx : Leads view p x) (h : ¬ Ambiguous view p) :
    LeadsOnly view p x := by
  intro y
  constructor
  · intro hy
    by_contra hne
    exact h ⟨y, x, hy, hx, hne⟩
  · rintro rfl
    exact hx

theorem LeadsOnly.not_ambiguous (h : LeadsOnly view p x) : ¬ Ambiguous view p := by
  intro ⟨y, z, hy, hz, hne⟩
  exact hne (((h y).mp hy).trans ((h z).mp hz).symm)

/-- The links that are followed, given by what they come from. -/
theorem surfaces_map_iff {β : Type*} {links : List P} {l : List β} {f : β → P} :
    Surfaces view links (l.map f) p ↔
      (∀ x, LeadsOnly view p x → ∃ b ∈ l, Leads view (f b) x) ∧
      (Ambiguous view p →
        (∃ b ∈ l, ∃ b' ∈ l, ∃ x y, LeadsOnly view (f b) x ∧ LeadsOnly view (f b') y ∧ x ≠ y) ∨
        (∀ b ∈ l, ∀ x, ¬ LeadsOnly view (f b) x) ∧
          ∃ b rest, l = b :: rest ∧ Ambiguous view (f b)) := by
  have hmem : ∀ Q : P → Prop, (∃ q ∈ l.map f, Q q) ↔ ∃ b ∈ l, Q (f b) := by
    intro Q
    simp
  have hfirst : ∀ Q : P → Prop,
      (∃ q rest, l.map f = q :: rest ∧ Q q) ↔ ∃ b rest, l = b :: rest ∧ Q (f b) := by
    intro Q
    cases l <;> simp
  constructor
  · intro ⟨honly, hambiguous⟩
    simp only [hmem, hfirst, List.forall_mem_map] at honly hambiguous
    exact ⟨honly, hambiguous⟩
  · intro ⟨honly, hambiguous⟩
    constructor
    · simp only [hmem]
      exact honly
    · simp only [hmem, hfirst, List.forall_mem_map]
      exact hambiguous

/-! ### Conclusions -/

theorem Concludes.ok_iff {results : List (Except ε α)} {result : Except ε α}
    (h : Concludes isAmbiguity results result) :
    result = .ok x ↔ .ok x ∈ results ∧ ∀ y, .ok y ∈ results → y = x := by
  cases h with
  | @agree _ z hmem hall =>
    constructor
    · intro heq
      cases heq
      exact ⟨hmem, hall⟩
    · intro ⟨_, hx⟩
      rw [hx z hmem]
  | @differ _ y z _ hy hz hne _ =>
    refine iff_of_false (fun heq => by cases heq) fun ⟨_, hall⟩ => ?_
    exact hne ((hall y hy).trans (hall z hz).symm)
  | first hnone => exact iff_of_false (fun heq => by cases heq) fun ⟨hx, _⟩ => hnone x hx
  | nothing => exact iff_of_false (fun heq => by cases heq) fun ⟨hx, _⟩ => List.not_mem_nil hx

/-- When two succeed and do not agree, that is reported. -/
theorem Concludes.of_differ {results : List (Except ε α)} {result : Except ε α}
    (h : Concludes isAmbiguity results result) {y : α} (hx : .ok x ∈ results)
    (hy : .ok y ∈ results) (hne : x ≠ y) : ∃ e, result = .error e ∧ isAmbiguity e := by
  cases h with
  | agree _ hall => exact absurd ((hall x hx).trans (hall y hy).symm) hne
  | differ _ _ _ he => exact ⟨_, rfl, he⟩
  | first hnone => exact absurd hx (hnone x)
  | nothing => exact absurd hx List.not_mem_nil

/-- When none succeeds the first error is reported. -/
theorem Concludes.of_error {rest : List (Except ε α)} {result : Except ε α} {e : ε}
    (h : Concludes isAmbiguity (.error e :: rest) result)
    (hnone : ∀ x, .ok x ∉ (.error e :: rest : List (Except ε α))) : result = .error e := by
  cases h with
  | agree hmem _ => exact absurd hmem (hnone _)
  | differ hx _ _ _ => exact absurd hx (hnone _)
  | first => rfl

/-! ### The answers -/

/-- One place is a link of another. -/
def IsLink (view : P → View P α ε) (q p : P) : Prop :=
  ∃ links followed, view p = .goesOn links followed ∧ q ∈ links

/-- The search goes on from one place to another. -/
def Follows (view : P → View P α ε) (p q : P) : Prop :=
  ∃ links followed, view p = .goesOn links followed ∧ q ∈ followed

namespace Answers

variable (h : Answers view isAmbiguity answer) (hwf : WellFounded (IsLink view))

include h hwf

/-- What the search finds is there. -/
theorem leads_of_ok (hok : answer p = .ok x) : Leads view p x := by
  induction p using hwf.induction with
  | _ p ih =>
    cases hview : view p with
    | found y =>
      rw [h.found p y hview] at hok
      cases hok
      exact .found hview
    | fails e =>
      rw [(h.fails p e hview).1] at hok
      cases hok
    | goesOn links followed =>
      obtain ⟨hsub, hconcludes⟩ := h.goesOn p links followed hview
      obtain ⟨hmem, -⟩ := hconcludes.ok_iff.mp hok
      · obtain ⟨q, hq, hanswer⟩ := List.mem_map.mp hmem
        exact .link hview (hsub q hq) (ih q ⟨_, _, hview, hsub q hq⟩ hanswer)

/-- An ambiguity that is reported is there. -/
theorem ambiguous_of_error {e : ε} (herror : answer p = .error e) (he : isAmbiguity e) :
    Ambiguous view p := by
  induction p using hwf.induction with
  | _ p ih =>
    cases hview : view p with
    | found y =>
      rw [h.found p y hview] at herror
      cases herror
    | fails e' =>
      obtain ⟨hanswer, hnot⟩ := h.fails p e' hview
      rw [hanswer] at herror
      cases herror
      exact absurd he hnot
    | goesOn links followed =>
      obtain ⟨hsub, hconcludes⟩ := h.goesOn p links followed hview
      rw [herror] at hconcludes
      generalize hresults : followed.map answer = results at hconcludes
      cases hconcludes with
      | differ hx hy hne _ =>
        rw [← hresults] at hx hy
        obtain ⟨q, hq, hqx⟩ := List.mem_map.mp hx
        obtain ⟨q', hq', hqy⟩ := List.mem_map.mp hy
        exact ⟨_, _, .link hview (hsub q hq) (h.leads_of_ok hwf hqx),
          .link hview (hsub q' hq') (h.leads_of_ok hwf hqy), hne⟩
      | first _ =>
        obtain ⟨q, rest, rfl, hq, -⟩ := List.map_eq_cons_iff.mp hresults
        have hlink : q ∈ links := hsub q List.mem_cons_self
        obtain ⟨x, y, hx, hy, hne⟩ := ih q ⟨_, _, hview, hlink⟩ hq
        exact ⟨x, y, .link hview hlink hx, .link hview hlink hy, hne⟩
      | nothing hnot => exact absurd he hnot

/-- Where the places behind it are exact, a place is exact if and only if its links hide nothing. -/
theorem exact_iff_surfaces {links followed : List P} (hview : view p = .goesOn links followed)
    (hexact : ∀ q ∈ followed, Exact view isAmbiguity q (answer q)) :
    Exact view isAmbiguity p (answer p) ↔ Surfaces view links followed p := by
  obtain ⟨hsub, hconcludes⟩ := h.goesOn p links followed hview
  have hok : ∀ x, .ok x ∈ followed.map answer ↔ ∃ q ∈ followed, LeadsOnly view q x := by
    intro x
    rw [List.mem_map]
    exact exists_congr fun q => and_congr_right fun hq => (hexact q hq).ok_iff x
  constructor
  · intro hp
    constructor
    · intro x hx
      obtain ⟨hmem, -⟩ := hconcludes.ok_iff.mp ((hp.ok_iff x).mpr hx)
      obtain ⟨q, hq, honly⟩ := (hok x).mp hmem
      exact ⟨q, hq, honly.leads⟩
    · intro hambiguous
      obtain ⟨e, herror, he⟩ := hp.ambiguous hambiguous
      rw [herror] at hconcludes
      generalize hresults : followed.map answer = results at hconcludes hok
      cases hconcludes with
      | differ hx hy hne _ =>
        obtain ⟨q, hq, hqx⟩ := (hok _).mp hx
        obtain ⟨q', hq', hqy⟩ := (hok _).mp hy
        exact .inl ⟨q, hq, q', hq', _, _, hqx, hqy, hne⟩
      | first hnone =>
        obtain ⟨q, rest, rfl, hqe, -⟩ := List.map_eq_cons_iff.mp hresults
        refine .inr ⟨fun q' hq' x honly => hnone x ((hok x).mpr ⟨q', hq', honly⟩), q, rest, rfl, ?_⟩
        exact h.ambiguous_of_error hwf hqe he
      | nothing hnot => exact absurd he hnot
  · intro hp
    have hleads : ∀ q ∈ followed, ∀ x, Leads view q x → Leads view p x :=
      fun q hq x hx => .link hview (hsub q hq) hx
    constructor
    · intro x
      rw [hconcludes.ok_iff, hok]
      constructor
      · intro ⟨⟨q, hq, honly⟩, hall⟩
        refine leadsOnly_of_not_ambiguous (hleads q hq x honly.leads) fun hambiguous => ?_
        obtain ⟨q₁, hq₁, q₂, hq₂, y, z, hy, hz, hne⟩ | ⟨hnone, -⟩ := hp.ambiguous hambiguous
        · exact hne ((hall y ((hok y).mpr ⟨q₁, hq₁, hy⟩)).trans
            (hall z ((hok z).mpr ⟨q₂, hq₂, hz⟩)).symm)
        · exact hnone q hq x honly
      · intro honly
        obtain ⟨q, hq, hqx⟩ := hp.only x honly
        refine ⟨⟨q, hq, leadsOnly_of_not_ambiguous hqx ?_⟩, fun y hy => ?_⟩
        · intro ⟨y, z, hy, hz, hne⟩
          exact honly.not_ambiguous ⟨y, z, hleads q hq y hy, hleads q hq z hz, hne⟩
        · obtain ⟨q', hq', hqy⟩ := (hok y).mp hy
          exact (honly y).mp (hleads q' hq' y hqy.leads)
    · intro hambiguous
      obtain ⟨q, hq, q', hq', x, y, hx, hy, hne⟩ | ⟨hnone, q, rest, rfl, hq⟩ :=
        hp.ambiguous hambiguous
      · exact hconcludes.of_differ ((hok x).mpr ⟨q, hq, hx⟩) ((hok y).mpr ⟨q', hq', hy⟩) hne
      · obtain ⟨e, he, hamb⟩ := (hexact q List.mem_cons_self).ambiguous hq
        refine ⟨e, ?_, hamb⟩
        rw [List.map_cons, he] at hconcludes hok
        refine hconcludes.of_error fun x hx => ?_
        obtain ⟨q', hq', honly⟩ := (hok x).mp hx
        exact hnone q' hq' x honly

omit hwf in
/-- A place with nothing behind it is exact. -/
theorem exact_of_end (hview : ∀ links followed, view p ≠ .goesOn links followed) :
    Exact view isAmbiguity p (answer p) := by
  cases hp : view p with
  | found x =>
    rw [h.found p x hp]
    refine ⟨fun y => ?_, fun ⟨y, z, hy, hz, hne⟩ => ?_⟩
    · constructor
      · intro heq
        cases heq
        exact fun z => leads_of_found hp
      · intro honly
        rw [(leads_of_found hp).mp honly.leads]
    · exact absurd (((leads_of_found hp).mp hy).trans ((leads_of_found hp).mp hz).symm) hne
  | fails e =>
    rw [(h.fails p e hp).1]
    constructor
    · intro y
      exact iff_of_false (fun heq => by cases heq) fun honly => not_leads_of_fails hp honly.leads
    · intro ⟨y, z, hy, _⟩
      exact absurd hy (not_leads_of_fails hp)
  | goesOn links followed => exact absurd hp (hview links followed)

/-- **When the search is exact.** A place and all that the search visits from it have exact answers
if and only if none of these places hides what its links lead to. -/
theorem exact_iff (p : P) :
    (∀ q, Relation.ReflTransGen (Follows view) p q → Exact view isAmbiguity q (answer q)) ↔
      ∀ q links followed, Relation.ReflTransGen (Follows view) p q →
        view q = .goesOn links followed → Surfaces view links followed q := by
  constructor
  · intro hexact q links followed hpq hview
    refine (h.exact_iff_surfaces hwf hview fun q' hq' => ?_).mp (hexact q hpq)
    exact hexact q' (hpq.tail ⟨links, followed, hview, hq'⟩)
  · intro hsurfaces q
    induction q using hwf.induction with
    | _ q ih =>
      intro hpq
      by_cases hview : ∃ links followed, view q = .goesOn links followed
      · obtain ⟨links, followed, hview⟩ := hview
        refine (h.exact_iff_surfaces hwf hview fun q' hq' => ?_).mpr (hsurfaces q _ _ hpq hview)
        have hlink : q' ∈ links := (h.goesOn q _ _ hview).1 q' hq'
        exact ih q' ⟨_, _, hview, hlink⟩ (hpq.tail ⟨_, _, hview, hq'⟩)
      · exact h.exact_of_end fun links followed heq => hview ⟨links, followed, heq⟩

end Answers

end Convergence
