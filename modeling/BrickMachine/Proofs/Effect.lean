import Mathlib.Order.Defs.Unbundled

/-!
# What an effect leaves alone

Changes of memory, instructions and system calls are effects of one kind: they work on a state,
and they may fail after they have changed it. `Keeps r x` says that the effect `x` leads from
every state to one that is related to it by `r`, whether `x` fails or not. For a preorder `r`,
this holds of a composed effect as soon as it holds of its parts.

`Commutes g x` says that `x` does not notice the change `g` of the state: it has the same result
after the change, and the change may as well be made when `x` is over.
-/

namespace BrickMachine

section Except

variable {ε α β : Type}

theorem bind_eq_ok_iff {x : Except ε α} {f : α → Except ε β} {b : β} :
    x >>= f = .ok b ↔ ∃ a, x = .ok a ∧ f a = .ok b := by
  cases x with
  | error e => simp [bind, Except.bind]
  | ok a => simp [bind, Except.bind]

theorem map_eq_ok_iff {x : Except ε α} {f : α → β} {b : β} :
    x.map f = .ok b ↔ ∃ a, x = .ok a ∧ f a = b := by
  cases x with
  | error e => simp [Except.map]
  | ok a => simp [Except.map]

theorem mapError_eq_ok_iff {δ : Type} {x : Except ε α} {f : ε → δ} {a : α} :
    x.mapError f = .ok a ↔ x = .ok a := by
  cases x with
  | error e => exact ⟨nofun, nofun⟩
  | ok b =>
      change Except.ok b = .ok a ↔ _
      rw [Except.ok.injEq, Except.ok.injEq]

end Except

variable {σ τ ε α β : Type} {r : σ → σ → Prop}

/-- An effect keeps a relation if it leads from every state to a related one. -/
def Keeps (r : σ → σ → Prop) (x : ExceptT ε (StateM σ) α) : Prop :=
  ∀ s, r s (x.run s).2

namespace Keeps

/-- An effect that is followed by another, unless it fails. -/
theorem run_bind (x : ExceptT ε (StateM σ) α) (f : α → ExceptT ε (StateM σ) β) (s : σ) :
    (x >>= f).run s =
      match x.run s with
      | (.ok a, t) => (f a).run t
      | (.error e, t) => (.error e, t) := by
  change (match x.run s with | (result, t) => (ExceptT.bindCont f result) t) = _
  rcases x.run s with ⟨_ | a, t⟩ <;> rfl

theorem run_bind_ok_iff {x : ExceptT ε (StateM σ) α} {f : α → ExceptT ε (StateM σ) β} {s u : σ}
    {b : β} :
    (x >>= f).run s = (.ok b, u) ↔
      ∃ a t, x.run s = (.ok a, t) ∧ (f a).run t = (.ok b, u) := by
  rw [run_bind]
  constructor
  · intro h
    rcases hrun : x.run s with ⟨_ | a, t⟩ <;> rw [hrun] at h
    · cases h
    · exact ⟨a, t, rfl, h⟩
  · rintro ⟨a, t, hrun, h⟩
    rw [hrun]
    exact h

theorem run_bind_error_iff {x : ExceptT ε (StateM σ) α} {f : α → ExceptT ε (StateM σ) β} {s u : σ}
    {e : ε} :
    (x >>= f).run s = (.error e, u) ↔ x.run s = (.error e, u) ∨
      ∃ a t, x.run s = (.ok a, t) ∧ (f a).run t = (.error e, u) := by
  rw [run_bind]
  constructor
  · intro h
    rcases hrun : x.run s with ⟨_ | a, t⟩ <;> rw [hrun] at h
    · cases h
      exact Or.inl rfl
    · exact Or.inr ⟨a, t, rfl, h⟩
  · rintro (hrun | ⟨a, t, hrun, h⟩)
    · rw [hrun]
    · rw [hrun]
      exact h

theorem pure [IsPreorder σ r] (a : α) : Keeps r (Pure.pure a : ExceptT ε (StateM σ) α) :=
  fun s => refl_of r s

theorem throw [IsPreorder σ r] (e : ε) :
    Keeps r (MonadExcept.throw e : ExceptT ε (StateM σ) α) :=
  fun s => refl_of r s

/-- Two parts that keep relations of their own. The first one may be all there is. -/
theorem bind_of {p q : σ → σ → Prop} {x : ExceptT ε (StateM σ) α}
    {f : α → ExceptT ε (StateM σ) β} (hfirst : ∀ s t, p s t → r s t)
    (hboth : ∀ s t u, p s t → q t u → r s u) (hx : Keeps p x) (hf : ∀ a, Keeps q (f a)) :
    Keeps r (x >>= f) := by
  intro s
  have hkept := hx s
  rw [run_bind]
  rcases h : x.run s with ⟨_ | a, t⟩
  · rw [h] at hkept
    exact hfirst s t hkept
  · rw [h] at hkept
    exact hboth s t _ hkept (hf a t)

theorem bind [IsPreorder σ r] {x : ExceptT ε (StateM σ) α} {f : α → ExceptT ε (StateM σ) β}
    (hx : Keeps r x) (hf : ∀ a, Keeps r (f a)) : Keeps r (x >>= f) :=
  bind_of (fun _ _ h => h) (fun _ _ _ => trans_of r) hx hf

end Keeps

/-- An effect commutes with a change of the state that does not affect its result. -/
def Commutes (g : σ → σ) (x : ExceptT ε (StateM σ) α) : Prop :=
  ∀ s, x.run (g s) = ((x.run s).1, g (x.run s).2)

namespace Commutes

variable {g : σ → σ}

theorem pure (a : α) : Commutes g (Pure.pure a : ExceptT ε (StateM σ) α) := fun _ => rfl

theorem throw (e : ε) : Commutes g (MonadExcept.throw e : ExceptT ε (StateM σ) α) := fun _ => rfl

theorem bind {x : ExceptT ε (StateM σ) α} {f : α → ExceptT ε (StateM σ) β} (hx : Commutes g x)
    (hf : ∀ a, Commutes g (f a)) : Commutes g (x >>= f) := by
  intro s
  rw [Keeps.run_bind, Keeps.run_bind, hx s]
  rcases x.run s with ⟨_ | a, t⟩
  · rfl
  · exact hf a t

end Commutes

instance isPreorder_invImage [IsPreorder σ r] (f : τ → σ) : IsPreorder τ (InvImage r f) where
  refl s := refl_of r (f s)
  trans _ _ _ h₁ h₂ := trans_of r h₁ h₂

end BrickMachine
