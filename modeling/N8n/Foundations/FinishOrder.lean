import Mathlib.Data.List.Basic
import Mathlib.Logic.Relation

/-!
# Orders in which a search finishes

A search writes down the vertices as it finishes them. If at that moment each edge of a vertex leads
to one that is finished, or is set aside, or is a loop, then without loops and the edges set aside
nothing is left of a cycle (`Finished.acyclic`).
-/

universe u

namespace FinishOrder

open Relation

variable {V : Type u} {leads aside : V → V → Prop}

/-- The vertices, the last one first, each finished after what it leads to. -/
def Finished (leads aside : V → V → Prop) : List V → Prop
  | [] => True
  | a :: earlier =>
    (∀ b, leads a b → aside a b ∨ b = a ∨ b ∈ earlier) ∧ Finished leads aside earlier

/-- Setting more aside. -/
theorem Finished.mono {aside' : V → V → Prop} {l : List V} (h : Finished leads aside l)
    (hmono : ∀ a b, aside a b → aside' a b) : Finished leads aside' l := by
  induction l with
  | nil => trivial
  | cons a earlier ih =>
    obtain ⟨hnext, hrest⟩ := h
    exact ⟨fun b hb => (hnext b hb).imp_left (hmono a b), ih hrest⟩

/-- What a finished vertex leads to is finished before it. -/
theorem Finished.exists_suffix {l : List V} (h : Finished leads aside l) {a : V} (ha : a ∈ l) :
    ∃ earlier, (a :: earlier).Sublist l ∧ Finished leads aside earlier ∧
      ∀ b, leads a b → aside a b ∨ b = a ∨ b ∈ earlier := by
  induction l with
  | nil => cases ha
  | cons c earlier ih =>
    obtain ⟨hnext, hrest⟩ := h
    obtain rfl | ha := List.mem_cons.mp ha
    · exact ⟨earlier, .refl _, hrest, hnext⟩
    · obtain ⟨earlier', hsublist, hfinished, hnext'⟩ := ih hrest ha
      exact ⟨earlier', hsublist.cons c, hfinished, hnext'⟩

/-- A path of other edges from a finished vertex leads to vertices finished before it. -/
theorem Finished.mem_of_transGen {earlier : List V} (h : Finished leads aside earlier) {a b : V}
    (hloops : ∀ a, leads a a → aside a a)
    (hnext : ∀ b, leads a b → aside a b ∨ b = a ∨ b ∈ earlier)
    (hpath : TransGen (fun a b => leads a b ∧ ¬ aside a b) a b) : b ∈ earlier := by
  have hstep : ∀ {a b : V}, leads a b ∧ ¬ aside a b → a ≠ b := by
    rintro a b ⟨hleads, hnot⟩ rfl
    exact hnot (hloops a hleads)
  induction hpath with
  | single hb => exact ((hnext _ hb.1).resolve_left hb.2).resolve_left (hstep hb).symm
  | tail _ hb ih =>
    obtain ⟨earlier', hsublist, -, hnext'⟩ := h.exists_suffix ih
    have hmem := ((hnext' _ hb.1).resolve_left hb.2).resolve_left (hstep hb).symm
    exact (List.sublist_of_cons_sublist hsublist).subset hmem

/-- **What is not set aside is acyclic**, when every vertex with edges is finished, once. -/
theorem Finished.acyclic {l : List V} (h : Finished leads aside l) (hnodup : l.Nodup)
    (hall : ∀ a b, leads a b → a ∈ l) (hloops : ∀ a, leads a a → aside a a) (a : V) :
    ¬ TransGen (fun a b => leads a b ∧ ¬ aside a b) a a := by
  intro hcycle
  have ha : a ∈ l := by
    obtain ⟨b, hb, -⟩ := TransGen.head'_iff.mp hcycle
    exact hall a b hb.1
  obtain ⟨earlier, hsublist, hfinished, hnext⟩ := h.exists_suffix ha
  have hmem := hfinished.mem_of_transGen hloops hnext hcycle
  exact (List.nodup_cons.mp (hnodup.sublist hsublist)).1 hmem

end FinishOrder
