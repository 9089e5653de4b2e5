import BrickMachine.Proofs.Bounds.Memory

/-!
# Runs of elements within their bounds

A loop over the elements of an array goes through one guarded access for each of them.
-/

namespace BrickMachine

abbrev GuardedChange (α : Type) := GuardedEffect Memory MemoryError α

namespace GuardedChange

variable {α : Type} {m : Memory}

def ask (f : Memory → GuardedAccess α) : GuardedChange α := fun m =>
  (f m).run.map fun result => (result, m)

def update (f : Memory → GuardedAccess Memory) : GuardedChange Unit := fun m =>
  (f m).run.map fun
    | .ok m' => (.ok (), m')
    | .error e => (.error e, m)

theorem ask_agrees {f : Memory → GuardedAccess α} {q : Memory → Except MemoryError α}
    (h : (f m).Agrees (q m)) : GuardedEffect.Agrees m (ask f) (Change.ask q) := by
  have hf : f m = .ok (q m) := h
  change (f m).run.map _ = _
  rw [hf]
  rfl

theorem update_agrees {f : Memory → GuardedAccess Memory} {q : Memory → Except MemoryError Memory}
    (h : (f m).Agrees (q m)) : GuardedEffect.Agrees m (update f) (Change.update q) := by
  have hf : f m = .ok (q m) := h
  unfold Change.update GuardedEffect.Agrees
  change (f m).run.map _ = _
  rw [hf]
  simp only [ExceptT.run]
  cases q m <;> rfl

end GuardedChange

namespace Guarded

variable {m : Memory} {e : Nat}

/-! ### Reading -/

def elements (m : Memory) (e start : Nat) : Nat → GuardedAccess (List Int32)
  | 0 => pure []
  | count + 1 => do
    let v ← element m e start
    let vs ← elements m e (start + 1) count
    pure (v :: vs)

theorem elements_agrees (m : Memory) (start count : Nat) (he : e < 2 ^ 32) :
    (elements m e start count).Agrees (m.elements e start count) := by
  induction count generalizing start with
  | zero => exact GuardedExcept.Agrees.pure []
  | succ count ih =>
      exact (element_agrees m start he).bind fun v _ =>
        (ih (start + 1)).bind fun vs _ => GuardedExcept.Agrees.pure _

def allElements (m : Memory) (e : Nat) : GuardedAccess (List Int32) := do
  let n ← arrayLength m e
  elements m e 0 n

theorem allElements_agrees (m : Memory) (he : e < 2 ^ 32) :
    (allElements m e).Agrees (m.allElements e) :=
  (arrayLength_agrees m e).bind fun n _ => elements_agrees m 0 n he

def scalars (m : Memory) : List Nat → GuardedAccess (List Int32)
  | [] => pure []
  | e :: es => do
    let v ← scalar m e
    let vs ← scalars m es
    pure (v :: vs)

theorem scalars_agrees (m : Memory) (es : List Nat) : (scalars m es).Agrees (m.scalars es) := by
  induction es with
  | nil => exact GuardedExcept.Agrees.pure []
  | cons e es ih =>
      exact (scalar_agrees m e).bind fun v _ => ih.bind fun vs _ => GuardedExcept.Agrees.pure _

def values (m : Memory) (e : Nat) : GuardedAccess (List Int32) := do
  let t ← GuardedExcept.safe (m.slotType e)
  if t = .array then
    allElements m e
  else
    let v ← scalar m e
    pure [v]

theorem values_agrees (m : Memory) (he : e < 2 ^ 32) : (values m e).Agrees (m.values e) := by
  apply (GuardedExcept.Agrees.safe (m.slotType e)).bind
  intro t _
  split
  · exact allElements_agrees m he
  · exact (scalar_agrees m e).map fun v _ => GuardedExcept.Agrees.pure _

/-! ### Writing -/

open GuardedEffect

def storeElements (e : Nat) : Nat → List Int32 → GuardedChange Unit
  | _, [] => pure ()
  | i, v :: vs => do
    GuardedChange.update (setElement · e i v)
    storeElements e (i + 1) vs

theorem storeElements_cons (e i : Nat) (v : Int32) (vs : List Int32) :
    Memory.storeElements e i (v :: vs)
      = Change.update (·.setElement e i v) >>= fun _ => Memory.storeElements e (i + 1) vs := by
  funext m
  rw [Memory.storeElements]
  change _ = (do
    Change.update (·.setElement e i v)
    Memory.storeElements e (i + 1) vs : Change Unit).run m
  rw [Keeps.run_bind]
  unfold Change.update Memory.setElement
  simp only [ExceptT.run]
  cases m.elementTarget e i <;> rfl

theorem storeElements_agrees (m : Memory) (i : Nat) (vs : List Int32) (he : e < 2 ^ 32) :
    Agrees m (storeElements e i vs) (Memory.storeElements e i vs) := by
  induction vs generalizing m i with
  | nil => exact Agrees.pure ()
  | cons v vs ih =>
      rw [storeElements_cons]
      apply (GuardedChange.update_agrees (setElement_agrees m i v he)).bind
      intro _ t _
      exact ih t (i + 1)

/-- The loop of REPLACE ends where the array ends. The place of a value is a sum that stays at the
last word when it would pass it. -/
def replaceElements (e start length : Nat) : Nat → List Int32 → GuardedChange Unit
  | _, [] => pure ()
  | i, v :: vs =>
    if length ≤ saturatingAdd start i then
      pure ()
    else do
      GuardedChange.update (setElement · e (saturatingAdd start i) v)
      replaceElements e start length (i + 1) vs

theorem replaceElements_agrees (m : Memory) {start length : Nat} (i : Nat) (vs : List Int32)
    (he : e < 2 ^ 32) (hlength : length < 2 ^ 32) :
    Agrees m (replaceElements e start length i vs)
      (Memory.storeElements e (start + i) (vs.take (length - (start + i)))) := by
  have hlast : saturatingAdd start i = min (start + i) (2 ^ 64 - 1) := rfl
  induction vs generalizing m i with
  | nil =>
      rw [List.take_nil]
      exact Agrees.pure ()
  | cons v vs ih =>
      unfold replaceElements
      by_cases hend : length ≤ start + i
      · rw [if_pos (by omega), Nat.sub_eq_zero_of_le hend]
        exact Agrees.pure ()
      · have hindex : saturatingAdd start i = start + i := by omega
        have htake : (v :: vs).take (length - (start + i))
            = v :: vs.take (length - (start + (i + 1))) := by
          rw [show length - (start + i) = length - (start + (i + 1)) + 1 by omega]
          rfl
        rw [hindex, if_neg hend, htake, storeElements_cons]
        exact (GuardedChange.update_agrees (setElement_agrees m _ v he)).bind fun _ t _ =>
          ih t (i + 1) rfl

def assign (e : Nat) (vs : List Int32) : GuardedChange Unit := do
  GuardedChange.update (setArrayLength · e vs.length)
  storeElements e 0 vs

theorem assign_agrees (m : Memory) (vs : List Int32) (he : e < 2 ^ 32) :
    Agrees m (assign e vs) (Memory.assign e vs) :=
  (GuardedChange.update_agrees (setArrayLength_agrees m e vs.length)).bind fun _ t _ =>
    storeElements_agrees t 0 vs he

def copyArray (dst src : Nat) : GuardedChange Unit := do
  let vs ← GuardedChange.ask (allElements · src)
  assign dst vs

theorem copyArray_agrees (m : Memory) {dst src : Nat} (hdst : dst < 2 ^ 32) (hsrc : src < 2 ^ 32) :
    Agrees m (copyArray dst src) (Memory.copyArray dst src) :=
  (GuardedChange.ask_agrees (allElements_agrees m hsrc)).bind fun vs t _ => assign_agrees t vs hdst

end Guarded

end BrickMachine
