import BrickMachine.Proofs.Effect

/-!
# How an effect ends

`Keeps` speaks of the state after an effect, whether the effect fails or not. Here the two ends
are told apart. `FailsWithin r x` says that a failure of `x` leads from every state to one that is
related to it by `r`, which may depend on the error. `Atomic x s Q` says that `x` either fails on
the state `s` and changes nothing, or succeeds there, and then `Q` holds of the result and of the
new state.
-/

namespace BrickMachine

variable {σ ε α β : Type} {x : ExceptT ε (StateM σ) α} {f : α → ExceptT ε (StateM σ) β} {s : σ}

/-! ### Failures -/

/-- What an effect leaves when it fails is related to what it found. -/
def FailsWithin (r : ε → σ → σ → Prop) (x : ExceptT ε (StateM σ) α) : Prop :=
  ∀ s e t, x.run s = (.error e, t) → r e s t

namespace FailsWithin

variable {r r' : ε → σ → σ → Prop} {q : σ → σ → Prop}

theorem of_keeps (hx : Keeps q x) (hr : ∀ e s t, q s t → r e s t) : FailsWithin r x := by
  intro s e t h
  have hkept := hx s
  rw [h] at hkept
  exact hr e s t hkept

/-- An effect that always succeeds. -/
theorem of_ok (hx : ∀ s, ∃ a t, x.run s = (.ok a, t)) : FailsWithin r x := by
  intro s e t h
  obtain ⟨a, u, hok⟩ := hx s
  rw [hok] at h
  cases h

/-- A failure of the second part counts from the state that the first part found. -/
theorem bind (hx : FailsWithin r x) (hkeeps : Keeps q x) (hf : ∀ a, FailsWithin r' (f a))
    (hr : ∀ e s t u, q s t → r' e t u → r e s u) : FailsWithin r (x >>= f) := by
  intro s e u h
  rcases Keeps.run_bind_error_iff.1 h with hfirst | ⟨a, t, hrun, hnext⟩
  · exact hx s e u hfirst
  · have hkept := hkeeps s
    rw [hrun] at hkept
    exact hr e s t u hkept (hf a t e u hnext)

/-- After a part that changes nothing, a failure counts as if it stood alone. -/
theorem bind_of_keeps (hx : Keeps (· = ·) x) (hr : ∀ e s, r e s s) (hf : ∀ a, FailsWithin r (f a)) :
    FailsWithin r (x >>= f) :=
  bind (of_keeps hx fun e s _ h => h ▸ hr e s) hx hf fun _ _ _ _ h h' => h ▸ h'

end FailsWithin

/-! ### All or nothing -/

/-- The effect succeeds on `s`, and `Q` holds of the result and of the state afterwards. -/
def Succeeds (x : ExceptT ε (StateM σ) α) (s : σ) (Q : α → σ → Prop) : Prop :=
  ∃ a t, x.run s = (.ok a, t) ∧ Q a t

/-- The effect either fails on `s` and changes nothing, or succeeds so that `Q` holds. -/
def Atomic (x : ExceptT ε (StateM σ) α) (s : σ) (Q : α → σ → Prop) : Prop :=
  (∃ e, x.run s = (.error e, s)) ∨ Succeeds x s Q

namespace Succeeds

variable {P Q : α → σ → Prop} {Q' : β → σ → Prop}

theorem mono (h : Succeeds x s P) (hPQ : ∀ a t, P a t → Q a t) : Succeeds x s Q := by
  obtain ⟨a, t, hrun, ha⟩ := h
  exact ⟨a, t, hrun, hPQ a t ha⟩

theorem bind (h : Succeeds x s fun a t => Succeeds (f a) t Q') : Succeeds (x >>= f) s Q' := by
  obtain ⟨a, t, hrun, b, u, hnext, hb⟩ := h
  exact ⟨b, u, Keeps.run_bind_ok_iff.2 ⟨a, t, hrun, hnext⟩, hb⟩

end Succeeds

namespace Atomic

variable {P Q : α → σ → Prop} {Q' : β → σ → Prop}

theorem mono (h : Atomic x s P) (hPQ : ∀ a t, P a t → Q a t) : Atomic x s Q :=
  h.imp_right fun hs => hs.mono hPQ

theorem and_keeps {r : σ → σ → Prop} (h : Atomic x s Q) (hx : Keeps r x) :
    Atomic x s fun a t => Q a t ∧ r s t := by
  refine h.imp_right ?_
  rintro ⟨a, t, hrun, ha⟩
  have hkept := hx s
  rw [hrun] at hkept
  exact ⟨a, t, hrun, ha, hkept⟩

/-- What follows a part that may have changed something must not fail. -/
theorem bind (h : Atomic x s fun a t => Succeeds (f a) t Q') : Atomic (x >>= f) s Q' := by
  rcases h with ⟨e, hrun⟩ | h
  · exact Or.inl ⟨e, Keeps.run_bind_error_iff.2 (Or.inl hrun)⟩
  · exact Or.inr h.bind

/-- What follows a part that changes nothing may fail as well. -/
theorem bind_of_keeps (hx : Keeps (· = ·) x)
    (hf : ∀ a, x.run s = (.ok a, s) → Atomic (f a) s Q') : Atomic (x >>= f) s Q' := by
  have hsame : s = (x.run s).2 := hx s
  rcases hrun : x.run s with ⟨e | a, t⟩ <;> rw [hrun] at hsame <;> subst hsame
  · exact Or.inl ⟨e, Keeps.run_bind_error_iff.2 (Or.inl hrun)⟩
  · unfold Atomic Succeeds
    rw [Keeps.run_bind, hrun]
    exact hf a hrun

/-- The two ways in which an atomic effect can have ended. -/
theorem of_error {e : ε} {t : σ} (h : Atomic x s Q) (hrun : x.run s = (.error e, t)) : t = s := by
  rcases h with ⟨e', hrun'⟩ | ⟨a, u, hrun', _⟩
  · rw [hrun'] at hrun
    cases hrun
    rfl
  · rw [hrun'] at hrun
    cases hrun

theorem of_ok {a : α} {t : σ} (h : Atomic x s Q) (hrun : x.run s = (.ok a, t)) : Q a t := by
  rcases h with ⟨e, hrun'⟩ | ⟨b, u, hrun', hb⟩
  · rw [hrun'] at hrun
    cases hrun
  · rw [hrun'] at hrun
    cases hrun
    exact hb

end Atomic

/-- The failures of an effect that is atomic everywhere. -/
theorem FailsWithin.of_atomic {r : ε → σ → σ → Prop} {Q : σ → α → σ → Prop}
    (h : ∀ s, Atomic x s (Q s)) (hr : ∀ e s, r e s s) : FailsWithin r x := by
  intro s e t hrun
  obtain rfl : t = s := (h s).of_error hrun
  exact hr e t

end BrickMachine
