import BrickMachine.Memory.Basic

/-!
# Runs of array elements

The array instructions read whole runs of elements before they write any, so it does not matter
whether source and destination are the same array. Reading a run fails at its first element that
cannot be read. Writing a run is done one element after the other, and what has been written
stays written when a later element fails; a `Change` therefore has a memory as result in either
case.
-/

namespace BrickMachine

/-- A change of memory. One that fails may still have changed something. -/
abbrev Change (α : Type) := ExceptT MemoryError (StateM Memory) α

namespace Change

def ask {α : Type} (f : Memory → Except MemoryError α) : Change α := fun m => (f m, m)

/-- The memory replaced, unless that fails; then nothing changes. -/
def update (f : Memory → Except MemoryError Memory) : Change Unit := fun m =>
  match f m with
  | .ok m' => (.ok (), m')
  | .error e => (.error e, m)

end Change

namespace Memory

def elements (m : Memory) (e start : Nat) : Nat → Except MemoryError (List Int32)
  | 0 => .ok []
  | count + 1 => do
    let v ← m.element e start
    let vs ← m.elements e (start + 1) count
    .ok (v :: vs)

def allElements (m : Memory) (e : Nat) : Except MemoryError (List Int32) := do
  let n ← m.arrayLength e
  m.elements e 0 n

def scalars (m : Memory) : List Nat → Except MemoryError (List Int32)
  | [] => .ok []
  | e :: es => do
    let v ← m.scalar e
    let vs ← m.scalars es
    .ok (v :: vs)

/-- The values of an array's elements, or of the one slot that is no array. -/
def values (m : Memory) (e : Nat) : Except MemoryError (List Int32) := do
  let t ← m.slotType e
  if t = .array then m.allElements e else (m.scalar e).map ([·])

def storeElements (e : Nat) : Nat → List Int32 → Change Unit
  | _, [] => pure ()
  | i, v :: vs => fun m =>
    match m.elementTarget e i with
    | .ok target => storeElements e (i + 1) vs (m.putElement target v)
    | .error err => (.error err, m)

def assign (e : Nat) (vs : List Int32) : Change Unit := do
  Change.update (·.setArrayLength e vs.length)
  storeElements e 0 vs

def copyArray (dst src : Nat) : Change Unit := do
  let vs ← Change.ask (·.allElements src)
  assign dst vs

end Memory

end BrickMachine
