import N8n.Foundations.Paths

/-!
# Searches that remember their branch

`listFrom` lists the vertices that a search meets. It takes the successors of a vertex one by one,
skips those on the branch that led to it, and puts every other one in front of what was found, and
in front of that what a search from the successor finds. What is found behind a successor moves to
the front when it was found before. A successor is put there all the same.

So the list has the vertices that are reachable from the start, without the start
(`mem_listFrom_iff`), and it has each of them once exactly if no successor of the start was found
before its turn (`nodup_listFrom_iff`). Where no vertex can be reached from itself, a vertex is
listed behind its successors (`successorsFirst_listFrom_nil`).
-/

universe u

namespace BranchSearch

open Relation

variable {V : Type u} {next search : V → List V} {branch found added successors : List V}
  {v w x : V}

/-! ### Paths off a branch -/

/-- A step to a successor that is not on the branch. -/
def Step (next : V → List V) (branch : List V) (v w : V) : Prop := w ∈ next v ∧ w ∉ branch

theorem Step.mono {branch' : List V} (hsubset : branch ⊆ branch') (h : Step next branch' v w) :
    Step next branch v w :=
  ⟨h.1, fun hmem => h.2 (hsubset hmem)⟩

/-- A path to another vertex leaves its start for the last time. -/
theorem exists_last_step (h : ReflTransGen (Step next branch) v x) (hne : x ≠ v) :
    ∃ w, Step next (branch ++ [v]) v w ∧ ReflTransGen (Step next (branch ++ [v])) w x := by
  have hoff {y z : V} (hstep : Step next branch y z) (hz : z ≠ v) :
      Step next (branch ++ [v]) y z := by
    refine ⟨hstep.1, fun hmem => ?_⟩
    obtain hmem | hmem := List.mem_append.mp hmem
    · exact hstep.2 hmem
    · exact hz (List.mem_singleton.mp hmem)
  induction h with
  | refl => exact absurd rfl hne
  | tail hpath hstep ih =>
    rename_i y z
    obtain rfl | hy := eq_or_ne y v
    · exact ⟨z, hoff hstep hne, .refl⟩
    · obtain ⟨w, hfirst, hrest⟩ := ih hy
      exact ⟨w, hfirst, hrest.tail (hoff hstep hne)⟩

/-! ### The search -/

variable [DecidableEq V]

/-- Add vertices in front, last one first; one that was found before moves to the front. -/
def addToFront (added found : List V) : List V :=
  added.foldr (fun v found => v :: found.erase v) found

/-- One successor, with the search from it as a parameter. -/
def addSuccessor (search : V → List V) (branch found : List V) (w : V) : List V :=
  if w ∈ branch then found else addToFront (search w) (w :: found)

/-- The search, with a bound on the depth of nested calls. -/
def listFrom (next : V → List V) : ℕ → V → List V → List V
  | 0, _, _ => []
  | fuel + 1, v, branch =>
    if v ∈ branch then []
    else
      (next v).foldl
        (addSuccessor (fun w => listFrom next fuel w (branch ++ [v])) (branch ++ [v])) []

/-! ### What is found -/

theorem mem_addToFront : x ∈ addToFront added found ↔ x ∈ added ∨ x ∈ found := by
  induction added with
  | nil => simp [addToFront]
  | cons v added ih =>
    have hstep : addToFront (v :: added) found = v :: (addToFront added found).erase v := rfl
    rw [hstep, List.mem_cons, List.mem_cons, or_assoc, ← ih]
    refine or_congr_right' fun hne => ?_
    exact List.mem_erase_of_ne hne

theorem mem_addSuccessor :
    x ∈ addSuccessor search branch found w ↔
      x ∈ found ∨ w ∉ branch ∧ (x = w ∨ x ∈ search w) := by
  rw [addSuccessor]
  split_ifs with hw
  · simp [hw]
  · rw [mem_addToFront, List.mem_cons]
    tauto

theorem mem_foldl_addSuccessor :
    x ∈ successors.foldl (addSuccessor search branch) found ↔
      x ∈ found ∨ ∃ w ∈ successors, w ∉ branch ∧ (x = w ∨ x ∈ search w) := by
  induction successors generalizing found with
  | nil => simp
  | cons a successors ih =>
    rw [List.foldl_cons, ih, mem_addSuccessor, List.exists_mem_cons_iff, or_assoc]

/-! ### What is found twice -/

theorem nodup_addToFront : (addToFront added found).Nodup ↔ found.Nodup := by
  induction added with
  | nil => exact Iff.rfl
  | cons v added ih =>
    have hstep : addToFront (v :: added) found = v :: (addToFront added found).erase v := rfl
    rw [hstep, ← ih]
    by_cases hv : v ∈ addToFront added found
    · exact (List.perm_cons_erase hv).nodup_iff.symm
    · rw [List.erase_of_not_mem hv, List.nodup_cons]
      exact and_iff_right hv

/-- A successor may not have been found before, neither in the beginning nor with an earlier
successor or behind it. -/
theorem nodup_foldl_addSuccessor_iff :
    (successors.foldl (addSuccessor search branch) found).Nodup ↔
      found.Nodup ∧ (∀ w ∈ successors.filter (· ∉ branch), w ∉ found) ∧
        (successors.filter (· ∉ branch)).Pairwise fun v w => w ≠ v ∧ w ∉ search v := by
  induction successors generalizing found with
  | nil => simp
  | cons a successors ih =>
    rw [List.foldl_cons, ih]
    by_cases ha : a ∈ branch
    · have hskip : addSuccessor search branch found a = found := if_pos ha
      rw [hskip, List.filter_cons_of_neg (by simpa using ha)]
    · have hadd : addSuccessor search branch found a = addToFront (search a) (a :: found) :=
        if_neg ha
      have hmem (w : V) : w ∉ addToFront (search a) (a :: found) ↔
          w ∉ found ∧ w ≠ a ∧ w ∉ search a := by
        rw [mem_addToFront, List.mem_cons]
        tauto
      rw [hadd, nodup_addToFront, List.nodup_cons, List.filter_cons_of_pos (by simpa using ha),
        List.forall_mem_cons, List.pairwise_cons]
      simp only [hmem, forall_and]
      tauto

/-! ### The list and what is reachable -/

theorem reaches_of_mem_listFrom {fuel : ℕ} (h : x ∈ listFrom next fuel v branch) :
    v ∉ branch ∧ x ≠ v ∧ ReflTransGen (Step next branch) v x := by
  induction fuel generalizing v branch with
  | zero => exact absurd h List.not_mem_nil
  | succ fuel ih =>
    rw [listFrom] at h
    split_ifs at h with hv
    · exact absurd h List.not_mem_nil
    · obtain h | ⟨w, hw, hnot, hx⟩ := mem_foldl_addSuccessor.mp h
      · exact absurd h List.not_mem_nil
      · have hwv : w ≠ v := fun heq => hnot (heq ▸ List.mem_append_right _ List.mem_cons_self)
        have hstep : Step next branch v w := ⟨hw, fun hmem => hnot (List.mem_append_left _ hmem)⟩
        obtain rfl | hx := hx
        · exact ⟨hv, hwv, .single hstep⟩
        · obtain ⟨-, hxw, hpath⟩ := ih hx
          have hpath' : ReflTransGen (Step next branch) w x :=
            ReflTransGen.mono (fun _ _ => Step.mono (List.subset_append_left _ _)) _ _ hpath
          refine ⟨hv, ?_, .head hstep hpath'⟩
          -- the last vertex of a path off the branch is not on the branch
          obtain heq | ⟨y, -, hlast⟩ := ReflTransGen.cases_tail hpath
          · exact absurd heq hxw
          · exact fun heq => hlast.2 (heq ▸ List.mem_append_right _ List.mem_cons_self)

variable {vertices : List V}

/-- The vertices that are left become fewer along a branch. -/
theorem length_filter_concat_lt (hv : v ∈ vertices) (hnew : v ∉ branch) :
    (vertices.filter (· ∉ branch ++ [v])).length < (vertices.filter (· ∉ branch)).length :=
  Paths.length_filter_notMem_lt (List.subset_append_left _ _) hv hnew
    (List.mem_append_right _ List.mem_cons_self)

/-- With a call for every vertex, the search finds what is reachable off its branch. -/
theorem mem_listFrom_iff (hnext : ∀ v, next v ≠ [] → v ∈ vertices) {fuel : ℕ}
    (hfuel : (vertices.filter (· ∉ branch)).length < fuel) :
    x ∈ listFrom next fuel v branch ↔
      v ∉ branch ∧ x ≠ v ∧ ReflTransGen (Step next branch) v x := by
  refine ⟨reaches_of_mem_listFrom, ?_⟩
  rintro ⟨hv, hne, hpath⟩
  induction fuel generalizing v branch with
  | zero => exact absurd hfuel (Nat.not_lt_zero _)
  | succ fuel ih =>
    obtain ⟨w, hfirst, hrest⟩ := exists_last_step hpath hne
    have hvertex : v ∈ vertices := hnext v (List.ne_nil_of_mem hfirst.1)
    rw [listFrom, if_neg hv, mem_foldl_addSuccessor]
    refine Or.inr ⟨w, hfirst.1, hfirst.2, ?_⟩
    obtain rfl | hxw := eq_or_ne x w
    · exact .inl rfl
    · have hlt := length_filter_concat_lt hvertex hv
      exact .inr (ih (by omega) hfirst.2 hxw hrest)

/-- **What a search lists**: the vertices that are reachable from its start, without the start. -/
theorem mem_listFrom_nil_iff (hnext : ∀ v, next v ≠ [] → v ∈ vertices) :
    x ∈ listFrom next (vertices.length + 1) v [] ↔
      x ≠ v ∧ ReflTransGen (fun v w => w ∈ next v) v x := by
  have hfuel : (vertices.filter (· ∉ ([] : List V))).length < vertices.length + 1 :=
    Nat.lt_succ_of_le (List.length_filter_le _ _)
  have hstep : Step next [] = fun v w => w ∈ next v := by
    funext v w
    simp [Step]
  rw [mem_listFrom_iff hnext hfuel, hstep]
  simp

/-- **When a search lists nothing twice**: no successor of the start, besides the start, is
reachable from an earlier one off the start. -/
theorem nodup_listFrom_nil_iff (hnext : ∀ v, next v ≠ [] → v ∈ vertices) :
    (listFrom next (vertices.length + 1) v []).Nodup ↔
      ((next v).filter (· ≠ v)).Pairwise fun w w' => ¬ ReflTransGen (Step next [v]) w w' := by
  have hbranch : (next v).filter (· ∉ [] ++ [v]) = (next v).filter (· ≠ v) :=
    List.filter_congr fun w _ => by simp
  rw [listFrom, if_neg List.not_mem_nil, nodup_foldl_addSuccessor_iff, hbranch]
  have hpairwise : ((next v).filter (· ≠ v)).Pairwise
        (fun w w' => w' ≠ w ∧ w' ∉ listFrom next vertices.length w ([] ++ [v])) ↔
      ((next v).filter (· ≠ v)).Pairwise fun w w' => ¬ ReflTransGen (Step next [v]) w w' := by
    refine List.Pairwise.iff_of_mem fun {w w'} hw _ => ?_
    obtain ⟨hw, hwv⟩ := List.mem_filter.mp hw
    rw [decide_eq_true_eq] at hwv
    by_cases hstart : v ∈ vertices
    · have hfuel : (vertices.filter (· ∉ [] ++ [v])).length < vertices.length := by
        have hlt : (vertices.filter (· ∉ [] ++ [v])).length <
            (vertices.filter (· ∉ ([] : List V))).length :=
          length_filter_concat_lt hstart List.not_mem_nil
        have hle := List.length_filter_le (· ∉ ([] : List V)) vertices
        omega
      rw [mem_listFrom_iff hnext hfuel, List.nil_append, List.mem_singleton]
      constructor
      · rintro ⟨hne, hnot⟩ hpath
        exact hnot ⟨hwv, hne, hpath⟩
      · intro hpath
        refine ⟨?_, fun hfound => hpath hfound.2.2⟩
        rintro rfl
        exact hpath .refl
    · exact absurd (hnext v (List.ne_nil_of_mem hw)) hstart
  simpa using hpairwise

/-! ### The order -/

/-- The successors of what is listed are listed, and met first. -/
def SuccessorsFirst (next : V → List V) (l : List V) : Prop :=
  ∀ a ∈ l, ∀ b ∈ next a, l.idxOf b < l.idxOf a

/-- So is what is reachable. -/
theorem SuccessorsFirst.idxOf_lt {l : List V} (h : SuccessorsFirst next l) {a b : V} (ha : a ∈ l)
    (hpath : TransGen (fun v w => w ∈ next v) a b) : l.idxOf b < l.idxOf a := by
  induction hpath with
  | single hstep => exact h a ha _ hstep
  | tail _ hstep ih =>
    have hmem := List.idxOf_lt_length_iff.mp (Nat.lt_trans ih (List.idxOf_lt_length_iff.mpr ha))
    exact Nat.lt_trans (h _ hmem _ hstep) ih

/-- To move a vertex to the front does not change the order of the others. -/
theorem idxOf_moveToFront_lt {l : List V} {a b v : V} (ha : a ≠ v) (hb : b ≠ v)
    (h : l.idxOf b < l.idxOf a) : (v :: l.erase v).idxOf b < (v :: l.erase v).idxOf a := by
  rw [List.idxOf_cons_ne _ hb.symm, List.idxOf_cons_ne _ ha.symm, Nat.succ_lt_succ_iff]
  induction l with
  | nil => exact h
  | cons x l ih =>
    obtain rfl | hx := eq_or_ne x v
    · rw [List.idxOf_cons_ne _ hb.symm, List.idxOf_cons_ne _ ha.symm] at h
      rw [List.erase_cons_head]
      exact Nat.succ_lt_succ_iff.mp h
    · rw [List.erase_cons_tail (by simpa using hx)]
      obtain rfl | hbx := eq_or_ne x b
      · obtain rfl | hax := eq_or_ne x a
        · exact absurd h (Nat.lt_irrefl _)
        · rw [List.idxOf_cons_self, List.idxOf_cons_ne _ hax]
          exact Nat.succ_pos _
      · obtain rfl | hax := eq_or_ne x a
        · rw [List.idxOf_cons_self] at h
          exact absurd h (Nat.not_lt_zero _)
        · rw [List.idxOf_cons_ne _ hbx, List.idxOf_cons_ne _ hax] at h ⊢
          exact Nat.succ_lt_succ (ih (Nat.succ_lt_succ_iff.mp h))

/-- A vertex whose successors are among `added` is put in front together with them. -/
theorem SuccessorsFirst.addToFront (hadded : SuccessorsFirst next added)
    (hfound : SuccessorsFirst next found) (hw : next w ⊆ added) :
    SuccessorsFirst next (addToFront added (w :: found)) := by
  -- a vertex that is still to be moved comes to stand before the others
  suffices hpending : ∀ pending moved, pending ++ moved = added →
      ∀ a ∈ BranchSearch.addToFront moved (w :: found), ∀ b ∈ next a,
        (BranchSearch.addToFront moved (w :: found)).idxOf b <
          (BranchSearch.addToFront moved (w :: found)).idxOf a ∨ b ∈ pending by
    intro a ha b hb
    exact (hpending [] added rfl a ha b hb).resolve_right List.not_mem_nil
  intro pending moved
  induction moved generalizing pending with
  | nil =>
    rintro heq a ha b hb
    rw [List.append_nil] at heq
    subst heq
    obtain rfl | haw := eq_or_ne w a
    · exact .inr (hw hb)
    · have hlt := hfound a (List.mem_of_ne_of_mem haw.symm ha) b hb
      left
      rw [BranchSearch.addToFront, List.foldr_nil, List.idxOf_cons_ne _ haw]
      obtain rfl | hbw := eq_or_ne w b
      · rw [List.idxOf_cons_self]
        exact Nat.succ_pos _
      · rw [List.idxOf_cons_ne _ hbw]
        exact Nat.succ_lt_succ hlt
  | cons v moved ih =>
    rintro rfl a ha b hb
    have hstep : BranchSearch.addToFront (v :: moved) (w :: found) =
        v :: (BranchSearch.addToFront moved (w :: found)).erase v := rfl
    rw [hstep] at ha ⊢
    obtain rfl | hav := eq_or_ne a v
    · -- the successors of `v` stand before it in `added`
      have hlt := hadded a (by simp) b hb
      have hle : (pending ++ a :: moved).idxOf a ≤ pending.length := by
        rw [List.idxOf_append]
        split_ifs with hmem
        · exact List.idxOf_le_length
        · rw [List.idxOf_cons_self, Nat.zero_add]
      refine .inr ?_
      by_contra hnot
      rw [List.idxOf_append_of_notMem hnot] at hlt
      omega
    · have ha' : a ∈ BranchSearch.addToFront moved (w :: found) :=
        List.mem_of_mem_erase (List.mem_of_ne_of_mem hav ha)
      obtain rfl | hbv := eq_or_ne v b
      · left
        rw [List.idxOf_cons_self, List.idxOf_cons_ne _ hav.symm]
        exact Nat.succ_pos _
      · obtain hlt | hmem := ih (pending ++ [v]) (by simp) a ha' b hb
        · exact .inl (idxOf_moveToFront_lt hav hbv.symm hlt)
        · refine .inr ?_
          obtain hmem | hmem := List.mem_append.mp hmem
          · exact hmem
          · exact absurd (List.mem_singleton.mp hmem).symm hbv

/-- Where no vertex reaches itself, a search lists a vertex behind its successors. -/
theorem successorsFirst_listFrom (hnext : ∀ v, next v ≠ [] → v ∈ vertices)
    (hacyclic : ∀ v, ¬ TransGen (fun v w => w ∈ next v) v v) {fuel : ℕ}
    (hfuel : (vertices.filter (· ∉ branch)).length < fuel)
    (hbranch : ∀ u ∈ branch, TransGen (fun v w => w ∈ next v) u v) :
    SuccessorsFirst next (listFrom next fuel v branch) := by
  induction fuel generalizing v branch with
  | zero => exact absurd hfuel (Nat.not_lt_zero _)
  | succ fuel ih =>
    have hv : v ∉ branch := fun hmem => hacyclic v (hbranch v hmem)
    have hbranch' : ∀ w ∈ next v, ∀ u ∈ branch ++ [v],
        TransGen (fun v w => w ∈ next v) u w := by
      intro w hw u hu
      obtain hu | hu := List.mem_append.mp hu
      · exact (hbranch u hu).tail hw
      · exact List.mem_singleton.mp hu ▸ .single hw
    rw [listFrom, if_neg hv]
    have hfold : ∀ successors ⊆ next v, ∀ found, SuccessorsFirst next found →
        SuccessorsFirst next (successors.foldl
          (addSuccessor (fun w => listFrom next fuel w (branch ++ [v])) (branch ++ [v]))
          found) := by
      intro successors hsuccessors
      induction successors with
      | nil => exact fun _ hfound => hfound
      | cons w successors ihs =>
        intro found hfound
        obtain ⟨hw, hrest⟩ := List.cons_subset.mp hsuccessors
        have hnot : w ∉ branch ++ [v] := fun hmem => hacyclic w (hbranch' w hw w hmem)
        have hlt := length_filter_concat_lt (hnext v (List.ne_nil_of_mem hw)) hv
        have hfuel' : (vertices.filter (· ∉ branch ++ [v])).length < fuel := by omega
        refine ihs hrest _ ?_
        rw [addSuccessor, if_neg hnot]
        refine (ih hfuel' (hbranch' w hw)).addToFront hfound fun b hb => ?_
        have hb' : b ∉ branch ++ [v] := fun hmem =>
          hacyclic b ((hbranch' w hw b hmem).tail hb)
        refine (mem_listFrom_iff hnext hfuel').mpr ⟨hnot, ?_, .single ⟨hb, hb'⟩⟩
        rintro rfl
        exact hacyclic b (.single hb)
    exact hfold _ (List.Subset.refl _) [] fun a ha => absurd ha List.not_mem_nil

/-- **The order of a search** where no vertex reaches itself. -/
theorem successorsFirst_listFrom_nil (hnext : ∀ v, next v ≠ [] → v ∈ vertices)
    (hacyclic : ∀ v, ¬ TransGen (fun v w => w ∈ next v) v v) :
    SuccessorsFirst next (listFrom next (vertices.length + 1) v []) :=
  successorsFirst_listFrom hnext hacyclic (Nat.lt_succ_of_le (List.length_filter_le _ _))
    fun _ hu => absurd hu List.not_mem_nil

end BranchSearch
