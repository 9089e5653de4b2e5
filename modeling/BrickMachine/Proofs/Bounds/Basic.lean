import BrickMachine.Code.Operation
import BrickMachine.Proofs.Effect
import Mathlib.Algebra.Ring.Int.Defs
import Mathlib.Algebra.Ring.Nat

/-!
# Bounds

The definitions of the machine use operations that are total here: a number is as large as it has to
be, a difference is at least zero, and a slice outside of a buffer is shorter. On hardware such
operations have bounds, and a program that leaves them is lost. A *breach* is what goes wrong then.

The operations that have bounds are given here with their bounds checked, and with them the guarded
form of all that the machine does. `Agrees` says of a guarded effect that it breaches no bounds, and
that it does the same as the effect which knows of none.
-/

namespace BrickMachine

/-- What leaves the bounds of an operation. -/
inductive Breach where
  /-- There is nothing at an index. -/
  | index (i size : Nat)
  /-- There is nothing between two indices, or they are in the wrong order. -/
  | slice (start stop size : Nat)
  /-- What is copied does not have the length of the place for it. -/
  | copy (room size : Nat)
  /-- The result is no machine word. -/
  | overflow
  | divisionByZero
  | negativeRoot
  deriving DecidableEq, Repr

/-- A result, unless bounds are breached. -/
abbrev Guarded := Except Breach

namespace Guarded

variable {α β : Type}

theorem bind_eq {x : Guarded α} {a : α} (h : x = .ok a) (f : α → Guarded β) : x >>= f = f a := by
  rw [h]
  rfl

def wordLimit : Nat := 2 ^ 64

/-! ### Numbers -/

def add (a b : Nat) : Guarded Nat :=
  if a + b < wordLimit then .ok (a + b) else .error .overflow

def sub (a b : Nat) : Guarded Nat :=
  if b ≤ a then .ok (a - b) else .error .overflow

def mul (a b : Nat) : Guarded Nat :=
  if a * b < wordLimit then .ok (a * b) else .error .overflow

def addSigned (a b : Int) : Guarded Int :=
  if -2 ^ 63 ≤ a + b ∧ a + b < 2 ^ 63 then .ok (a + b) else .error .overflow

def saturatingAdd (a b : Nat) : Nat := min (a + b) (wordLimit - 1)

variable {a b : Nat}

theorem add_eq (h : a + b < 2 ^ 64) : add a b = .ok (a + b) := if_pos h

theorem sub_eq (h : b ≤ a) : sub a b = .ok (a - b) := if_pos h

theorem mul_eq (h : a * b < 2 ^ 64) : mul a b = .ok (a * b) := if_pos h

theorem addSigned_eq {a b : Int} (h : -2 ^ 63 ≤ a + b ∧ a + b < 2 ^ 63) :
    addSigned a b = .ok (a + b) := if_pos h

/-! ### Lists -/

def read (xs : List α) (i : Nat) : Guarded α :=
  match xs[i]? with
  | some x => .ok x
  | none => .error (.index i xs.length)

def slice (xs : List α) (start stop : Nat) : Guarded (List α) :=
  if start ≤ stop ∧ stop ≤ xs.length then .ok ((xs.drop start).take (stop - start))
  else .error (.slice start stop xs.length)

def copy (room xs : List α) : Guarded (List α) :=
  if room.length = xs.length then .ok xs else .error (.copy room.length xs.length)

theorem read_eq {xs : List α} {i : Nat} {x : α} (h : xs[i]? = some x) : read xs i = .ok x := by
  unfold read
  rw [h]

theorem slice_eq {xs : List α} {start stop : Nat} (h : start ≤ stop) (h' : stop ≤ xs.length) :
    slice xs start stop = .ok ((xs.drop start).take (stop - start)) := if_pos ⟨h, h'⟩

theorem copy_eq {room xs : List α} (h : room.length = xs.length) : copy room xs = .ok xs := if_pos h

end Guarded

/-! ### Answers -/

abbrev GuardedExcept (ε α : Type) := ExceptT ε Guarded α

namespace GuardedExcept

variable {ε α β : Type}

def guard (x : Guarded α) : GuardedExcept ε α := x.map .ok

def safe (x : Except ε α) : GuardedExcept ε α := .ok x

def Agrees (g : GuardedExcept ε α) (x : Except ε α) : Prop := g.run = .ok x

namespace Agrees

variable {g : GuardedExcept ε α} {x : Except ε α}

theorem safe (x : Except ε α) : Agrees (GuardedExcept.safe x) x := rfl

theorem pure (a : α) : Agrees (ε := ε) (Pure.pure a) (.ok a) := rfl

theorem pure_of_eq {a b : α} (h : a = b) : Agrees (ε := ε) (Pure.pure a) (.ok b) := h ▸ rfl

theorem throw (e : ε) : Agrees (α := α) (MonadExcept.throw e) (.error e) := rfl

theorem bind {g' : α → GuardedExcept ε β} {x' : α → Except ε β} (h : Agrees g x)
    (h' : ∀ a, x = .ok a → Agrees (g' a) (x' a)) : Agrees (g >>= g') (x >>= x') := by
  have hg : g = .ok x := h
  subst hg
  cases x with
  | error e => rfl
  | ok a => exact h' a rfl

theorem map {f : α → β} {g' : α → GuardedExcept ε β} (h : Agrees g x)
    (h' : ∀ a, x = .ok a → Agrees (g' a) (.ok (f a))) : Agrees (g >>= g') (x.map f) := by
  have hg : g = .ok x := h
  subst hg
  cases x with
  | error e => rfl
  | ok a => exact h' a rfl

/-- A first part that has an answer. -/
theorem ok_bind {y : GuardedExcept ε β} {b : β} {g' : β → GuardedExcept ε α} (hy : Agrees y (.ok b))
    (h : Agrees (g' b) x) : Agrees (y >>= g') x := by
  have hok : y = .ok (.ok b) := hy
  subst hok
  exact h

theorem error_bind {y : GuardedExcept ε β} {e : ε} {g' : β → GuardedExcept ε α}
    (hy : Agrees y (.error e)) : Agrees (y >>= g') (.error e) := by
  have herror : y = .ok (.error e) := hy
  subst herror
  rfl

/-- An operation within its bounds. -/
theorem guard_bind {y : Guarded β} {b : β} {g' : β → GuardedExcept ε α} (hy : y = .ok b)
    (h : Agrees (g' b) x) : Agrees (guard y >>= g') x := by
  subst hy
  exact h

end Agrees

end GuardedExcept

/-! ### Effects -/

/-- An effect that may breach bounds. -/
abbrev GuardedEffect (σ ε α : Type) := ExceptT ε (StateT σ Guarded) α

namespace GuardedEffect

variable {σ ε α β : Type}

def guard (x : Guarded α) : GuardedEffect σ ε α := fun s => x.map fun a => (.ok a, s)

def safe (x : ExceptT ε (StateM σ) α) : GuardedEffect σ ε α := fun s => .ok (x.run s)

theorem run_bind (x : GuardedEffect σ ε α) (f : α → GuardedEffect σ ε β) (s : σ) :
    (x >>= f).run s =
      match x.run s with
      | .ok (.ok a, t) => (f a).run t
      | .ok (.error e, t) => .ok (.error e, t)
      | .error b => .error b := by
  change (x.run s >>= fun result => ExceptT.bindCont f result.1 result.2) = _
  rcases x.run s with b | ⟨_ | a, t⟩ <;> rfl

def Agrees (s : σ) (g : GuardedEffect σ ε α) (x : ExceptT ε (StateM σ) α) : Prop :=
  g.run s = .ok (x.run s)

namespace Agrees

variable {s : σ} {g : GuardedEffect σ ε α} {x : ExceptT ε (StateM σ) α}

theorem safe (x : ExceptT ε (StateM σ) α) : Agrees s (GuardedEffect.safe x) x := rfl

theorem pure (a : α) : Agrees s (Pure.pure a : GuardedEffect σ ε α) (Pure.pure a) := rfl

theorem throw (e : ε) :
    Agrees s (MonadExcept.throw e : GuardedEffect σ ε α) (MonadExcept.throw e) := rfl

theorem bind {g' : α → GuardedEffect σ ε β} {x' : α → ExceptT ε (StateM σ) β} (h : Agrees s g x)
    (h' : ∀ a t, x.run s = (.ok a, t) → Agrees t (g' a) (x' a)) :
    Agrees s (g >>= g') (x >>= x') := by
  have hg : g.run s = .ok (x.run s) := h
  unfold Agrees
  rw [run_bind, Keeps.run_bind, hg]
  rcases hrun : x.run s with ⟨e | a, t⟩
  · rfl
  · exact h' a t hrun

/-- An operation within its bounds. -/
theorem guard_bind {y : Guarded β} {b : β} {g' : β → GuardedEffect σ ε α} (hy : y = .ok b)
    (h : Agrees s (g' b) x) : Agrees s (guard y >>= g') x := by
  subst hy
  exact h

end Agrees

end GuardedEffect

end BrickMachine
