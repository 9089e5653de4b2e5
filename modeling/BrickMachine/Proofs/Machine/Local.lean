import BrickMachine.Machine.Step
import BrickMachine.Proofs.Effect

/-!
# Operations on robot and memory

Most operations see nothing of the machine but its robot and its memory: neither the place in the
code nor the image, the clock or the diagnostics. Such an operation is a computation on robot and
memory, which `Exec.lift` makes a part of an instruction, so whatever holds of every lifted
computation holds of the operation. It is `Local`, and what is put together from local parts is
local.

The other operations compare, move, note, branch, call, return, stop or look at the clock.
-/

namespace BrickMachine

variable {R α β : Type}

namespace Exec

def lift (c : ExceptT MemoryError (StateM (R × Memory)) α) : Exec R α := fun m =>
  let (result, robot, memory) := c.run (m.robot, m.memory)
  (result.mapError .memory, { m with robot, memory })

/-- A part of an instruction that sees and changes the robot and the memory only. -/
def Local (x : Exec R α) : Prop := ∃ c, x = lift c

theorem run_lift (c : ExceptT MemoryError (StateM (R × Memory)) α) (m : Machine R) :
    (lift c).run m =
      ((c.run (m.robot, m.memory)).1.mapError .memory,
        { m with
          robot := (c.run (m.robot, m.memory)).2.1
          memory := (c.run (m.robot, m.memory)).2.2 }) := rfl

theorem lift_bind (c : ExceptT MemoryError (StateM (R × Memory)) α)
    (d : α → ExceptT MemoryError (StateM (R × Memory)) β) :
    (lift c >>= fun a => lift (d a)) = lift (c >>= d) := by
  funext m
  change (lift c >>= fun a => lift (d a)).run m = (lift (c >>= d)).run m
  simp only [Keeps.run_bind, run_lift]
  cases c.run (m.robot, m.memory) with
  | mk result s =>
      cases result with
      | error e => rfl
      | ok a => rfl

namespace Local

theorem pure (a : α) : Local (Pure.pure a : Exec R α) := ⟨Pure.pure a, rfl⟩

theorem bind {x : Exec R α} {f : α → Exec R β} (hx : Local x) (hf : ∀ a, Local (f a)) :
    Local (x >>= f) := by
  obtain ⟨c, rfl⟩ := hx
  obtain ⟨d, hd⟩ := Classical.skolem.1 hf
  obtain rfl : f = fun a => lift (d a) := funext hd
  exact ⟨c >>= d, lift_bind c d⟩

end Local

/-! ### Memory -/

/-- A question about the memory that is answered. -/
theorem run_ask_ok_iff {q : Memory → Except MemoryError α} {m m' : Machine R} {a : α} :
    (ask q).run m = (.ok a, m') ↔ q m.memory = .ok a ∧ m' = m := by
  change ((q m.memory).mapError Machine.Error.memory, m) = (.ok a, m') ↔ _
  rw [Prod.mk.injEq, mapError_eq_ok_iff, eq_comm (a := m)]

/-- A question about the machine is always answered. -/
theorem run_look_ok_iff {q : Machine R → α} {m m' : Machine R} {a : α} :
    (look q).run m = (.ok a, m') ↔ q m = a ∧ m' = m := by
  change ((.ok (q m), m) : Except Machine.Error α × Machine R) = (.ok a, m') ↔ _
  rw [Prod.mk.injEq, Except.ok.injEq, eq_comm (a := m)]

/-- A change of the machine is always carried out. -/
theorem run_act_ok_iff {f : Machine R → Machine R} {m m' : Machine R} :
    (act f).run m = (.ok (), m') ↔ m' = f m := by
  change ((.ok (), f m) : Except Machine.Error Unit × Machine R) = (.ok (), m') ↔ _
  rw [Prod.mk.injEq, eq_comm (a := f m), and_iff_right rfl]

/-- A store that succeeds changes the memory alone. -/
theorem of_run_setScalar {e : UInt16} {v : Int32} {m m' : Machine R}
    (h : (setScalar e v).run m = (.ok (), m')) :
    m.memory.setScalar e.toNat v = .ok m'.memory ∧ m' = { m with memory := m'.memory } := by
  change change (Change.update (·.setScalar e.toNat v)) m = (.ok (), m') at h
  cases hstore : m.memory.setScalar e.toNat v with
  | error err =>
      have hrun : change (Change.update (·.setScalar e.toNat v)) m = (.error (.memory err), m) := by
        simp only [change, Change.update, ExceptT.run, hstore]
        rfl
      rw [hrun] at h
      cases h
  | ok memory =>
      have hrun : change (Change.update (·.setScalar e.toNat v)) m
          = (.ok (), { m with memory }) := by
        simp only [change, Change.update, ExceptT.run, hstore]
        rfl
      rw [hrun] at h
      cases h
      exact ⟨rfl, rfl⟩

theorem local_ask (q : Memory → Except MemoryError α) : Local (ask q : Exec R α) :=
  ⟨fun s => (q s.2, s), rfl⟩

theorem local_change (c : Change α) : Local (change c : Exec R α) :=
  ⟨fun s => ((c.run s.2).1, s.1, (c.run s.2).2), rfl⟩

theorem local_scalar (e : UInt16) : Local (scalar e : Exec R Int32) := local_ask _

theorem local_setScalar (e : UInt16) (v : Int32) : Local (setScalar e v : Exec R Unit) :=
  local_change _

theorem local_index? (e : UInt16) : Local (index? e : Exec R (Option Nat)) := by
  unfold index?
  split
  · exact Local.pure none
  · exact (local_scalar e).bind fun _ => Local.pure _

theorem local_index (e : UInt16) : Local (index e : Exec R Nat) :=
  (local_index? e).bind fun _ => Local.pure _

theorem local_arrayBuild (dst : UInt16) (sources : List UInt16) :
    Local (arrayBuild dst sources : Exec R Unit) :=
  (local_ask _).bind fun _ => local_change _

theorem local_arrayInit (dst value count : UInt16) :
    Local (arrayInit dst value count : Exec R Unit) :=
  (local_scalar value).bind fun _ => (local_index count).bind fun _ =>
    (local_change _).bind fun _ => local_change _

theorem local_arraySubset (dst src position length : UInt16) :
    Local (arraySubset dst src position length : Exec R Unit) :=
  (local_ask _).bind fun _ => (local_index position).bind fun _ =>
    (local_index? length).bind fun _ => (local_ask _).bind fun _ => local_change _

theorem local_replace (dst src position new : UInt16) :
    Local (replace dst src position new : Exec R Unit) := by
  apply (local_index position).bind
  intro start
  apply (local_ask _).bind
  intro vs
  have hstore : Local (do
      let n ← ask (·.arrayLength dst.toNat)
      change (Memory.storeElements dst.toNat start (vs.take (n - start))) : Exec R Unit) :=
    (local_ask _).bind fun _ => local_change _
  split
  · exact (local_change _).bind fun _ => hstore
  · exact hstore

/-! ### The robot -/

theorem local_actRobot (f : R → R) :
    Local (act fun m : Machine R => { m with robot := f m.robot }) :=
  ⟨fun s => (.ok (), f s.1, s.2), rfl⟩

theorem local_consult (f : R → α × R) : Local (consult f) :=
  ⟨fun s => (.ok (f s.1).1, (f s.1).2, s.2), rfl⟩

variable [Robot R]

theorem local_syscall (id cluster : UInt16) : Local (syscall id cluster : Exec R Unit) :=
  ⟨fun s => Robot.syscall id cluster.toNat s.1 s.2, rfl⟩

theorem local_setChannel (channel : Int32) (settings : List (UInt16 × UInt16)) :
    Local (setChannel channel settings : Exec R Unit) := by
  induction settings with
  | nil => exact Local.pure ()
  | cons s settings ih =>
      apply (local_scalar s.2).bind
      intro v
      exact (local_actRobot (Robot.setOutput · channel s.1 v)).bind fun _ => ih

theorem local_setChannels (settings : List (UInt16 × UInt16)) (channels : List Int32) :
    Local (setChannels settings channels : Exec R Unit) := by
  induction channels with
  | nil => exact Local.pure ()
  | cons channel channels ih => exact (local_setChannel channel settings).bind fun _ => ih

end Exec

def Operation.isLocal : Operation → Bool
  | binary .. | unary .. | index .. | replace .. | arraySize .. | arrayBuild .. | arraySubset ..
  | arrayInit .. | set .. | idle | syscall .. | setInput .. | setOutput .. | getInput ..
  | getOutput .. => true
  | _ => false

open Exec in
/-- A local operation is one computation, wherever its instruction stands. -/
theorem local_execute [Robot R] {op : Operation} (h : op.isLocal = true) :
    ∃ c, ∀ pc, (execute pc op : Exec R Unit) = lift c := by
  suffices hlocal : Local (execute 0 op : Exec R Unit) ∧
      ∀ pc, (execute pc op : Exec R Unit) = execute 0 op by
    obtain ⟨⟨c, hc⟩, hplace⟩ := hlocal
    exact ⟨c, fun pc => (hplace pc).trans hc⟩
  cases op with
  | binary op dst lhs rhs =>
      exact ⟨(local_scalar lhs).bind fun _ => (local_scalar rhs).bind fun _ =>
        local_setScalar dst _, fun _ => rfl⟩
  | unary op dst src => exact ⟨(local_scalar src).bind fun _ => local_setScalar dst _, fun _ => rfl⟩
  | index dst array position =>
      exact ⟨(local_index position).bind fun _ => (local_ask _).bind fun _ =>
        local_setScalar dst _, fun _ => rfl⟩
  | replace dst src position new => exact ⟨local_replace dst src position new, fun _ => rfl⟩
  | arraySize dst array => exact ⟨(local_ask _).bind fun _ => local_setScalar dst _, fun _ => rfl⟩
  | arrayBuild dst sources => exact ⟨local_arrayBuild dst sources, fun _ => rfl⟩
  | arraySubset dst src position length =>
      exact ⟨local_arraySubset dst src position length, fun _ => rfl⟩
  | arrayInit dst value count => exact ⟨local_arrayInit dst value count, fun _ => rfl⟩
  | set dst literal => exact ⟨local_setScalar dst _, fun _ => rfl⟩
  | idle => exact ⟨Local.pure (), fun _ => rfl⟩
  | syscall id cluster => exact ⟨local_syscall id cluster, fun _ => rfl⟩
  | setInput src channel property =>
      exact ⟨(local_scalar src).bind fun v => (local_scalar channel).bind fun p =>
        local_actRobot (Robot.setInput · p property v), fun _ => rfl⟩
  | setOutput channel settings =>
      exact ⟨(local_ask _).bind fun channels => local_setChannels settings channels, fun _ => rfl⟩
  | getInput dst channel property =>
      exact ⟨(local_scalar channel).bind fun p => (local_consult (Robot.input · p property)).bind
        fun _ => local_setScalar dst _, fun _ => rfl⟩
  | getOutput dst channel property =>
      exact ⟨(local_scalar channel).bind fun p => (local_consult (Robot.output · p property)).bind
        fun _ => local_setScalar dst _, fun _ => rfl⟩
  | _ => cases h

end BrickMachine
