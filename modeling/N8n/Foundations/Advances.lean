import Mathlib.Control.Basic
import Mathlib.Order.Defs.Unbundled
import Mathlib.Tactic.Common

/-!
# Computations that move a state along a preorder

A computation over a state may fail, and what it did to the state before the failure stays:
`Effect ε σ α`. `Advances R m` says that `m` leads from every state to one that `R` relates it to,
whether it fails or not. For a relation that is reflexive and transitive the rules follow the
structure of the computation; `Advances.bind` lets the rest of a computation use how its argument
was computed (`Returns`).
-/

universe u v

/-- A computation that may fail, over a state that survives the failure. -/
abbrev Effect (ε σ : Type u) := ExceptT ε (StateM σ)

namespace Effect

variable {ε σ α β : Type u}

/-- What a computation comes to, and the state it leaves. -/
def exec (m : Effect ε σ α) (s : σ) : Except ε α × σ := (ExceptT.run m).run s

/-- From some state, `m` returns `a`. -/
def Returns (m : Effect ε σ α) (a : α) : Prop := ∃ s, (exec m s).1 = .ok a

@[simp] theorem exec_pure (a : α) (s : σ) : exec (pure a : Effect ε σ α) s = (.ok a, s) := rfl

@[simp] theorem exec_throw (e : ε) (s : σ) : exec (throw e : Effect ε σ α) s = (.error e, s) := rfl

@[simp] theorem exec_get (s : σ) : exec (get : Effect ε σ σ) s = (.ok s, s) := rfl

@[simp] theorem exec_set (s s' : σ) : exec (set s' : Effect ε σ PUnit) s = (.ok ⟨⟩, s') := rfl

@[simp] theorem exec_modify (f : σ → σ) (s : σ) :
    exec (modify f : Effect ε σ PUnit) s = (.ok ⟨⟩, f s) := rfl

theorem exec_bind (m : Effect ε σ α) (f : α → Effect ε σ β) (s : σ) :
    exec (m >>= f) s =
      match exec m s with
      | (.ok a, s') => exec (f a) s'
      | (.error e, s') => (.error e, s') := by
  change exec (ExceptT.bind m f) s = _
  simp only [exec, ExceptT.run, ExceptT.bind, ExceptT.mk, StateT.run, bind, StateT.bind]
  rcases (m : StateM σ (Except ε α)) s with ⟨_ | a, s'⟩ <;> rfl

theorem exec_map (f : α → β) (m : Effect ε σ α) (s : σ) :
    exec (f <$> m) s =
      match exec m s with
      | (.ok a, s') => (.ok (f a), s')
      | (.error e, s') => (.error e, s') := by
  rw [← bind_pure_comp, exec_bind]
  rfl

/-- Every state is left for one that `R` relates it to. -/
def Advances (R : σ → σ → Prop) (m : Effect ε σ α) : Prop := ∀ s, R s (exec m s).2

section Rules

variable {R : σ → σ → Prop}

theorem Advances.pure [Std.Refl R] (a : α) : Advances R (pure a : Effect ε σ α) :=
  fun s => refl_of R s

theorem Advances.throw [Std.Refl R] (e : ε) : Advances R (throw e : Effect ε σ α) :=
  fun s => refl_of R s

theorem Advances.get [Std.Refl R] : Advances R (get : Effect ε σ σ) := fun s => refl_of R s

theorem Advances.modify {f : σ → σ} (h : ∀ s, R s (f s)) :
    Advances R (modify f : Effect ε σ PUnit) := h

/-- From one state: the rest of a computation starts in the state that its argument left. -/
theorem rel_exec_bind [IsTrans σ R] {m : Effect ε σ α} {f : α → Effect ε σ β} {s : σ}
    (hm : R s (exec m s).2) (hf : ∀ a s', exec m s = (.ok a, s') → R s' (exec (f a) s').2) :
    R s (exec (m >>= f) s).2 := by
  rw [exec_bind]
  cases h : exec m s with
  | mk outcome s' =>
    rw [h] at hm
    cases outcome with
    | error e => exact hm
    | ok a => exact IsTrans.trans _ _ _ hm (hf a s' h)

theorem Advances.bind [IsTrans σ R] {m : Effect ε σ α} {f : α → Effect ε σ β}
    (hm : Advances R m) (hf : ∀ a, Returns m a → Advances R (f a)) : Advances R (m >>= f) :=
  fun s => rel_exec_bind (hm s) fun a s' h => hf a ⟨s, congrArg Prod.fst h⟩ s'

theorem advances_bind_get {f : σ → Effect ε σ β} (hf : ∀ s, R s (exec (f s) s).2) :
    Advances R (get >>= f) := by
  intro s
  rw [exec_bind]
  exact hf s

theorem Advances.map [IsTrans σ R] [Std.Refl R] {m : Effect ε σ α} (f : α → β)
    (hm : Advances R m) : Advances R (f <$> m) := by
  rw [← bind_pure_comp]
  exact Advances.bind hm fun a _ => Advances.pure (f a)

end Rules

end Effect
