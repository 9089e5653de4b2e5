import BrickMachine.Proofs.Machine.Sensors
import BrickMachine.Proofs.Memory.Frame
import BrickMachine.Proofs.Memory.Stores

/-!
# What a system call leaves alone

A system call of the headless robot reads its request, carries it out, and stores a status. It can
fail before, between and after its writes, and the fields of the call may overlap in any way. On
every path the request reaches one entry of memory at most: a read over the low-speed bus changes
the array in field 3 and a status check the slot in field 3, and no other request changes memory.
After this comes the status in field 1. The robot gets one new event at most, and its reply buffer
is another only after a write over the bus.

`frame_of_syscall` collects this, together with what a request that cannot be read and a call that
succeeds leave behind.
-/

namespace BrickMachine

/-- A call may store to the status and, if it is a status check, to the slot in field 3. -/
def Syscall.StoresTo (id : UInt16) (base e : Nat) : Prop :=
  e = base + statusField ∨ id = lowSpeedCheckStatus ∧ e = base + 3

/-- A read over the low-speed bus may resize and overwrite the array in field 3. -/
def Syscall.Resizes (id : UInt16) (base e : Nat) : Prop :=
  id = lowSpeedRead ∧ e = base + 3

namespace Memory

variable {m m₁ m' : Memory} {e : Nat} {stored arrays : Nat → Prop}

structure Within (stored arrays : Nat → Prop) (m m' : Memory) : Prop where
  toc : m'.toc = m.toc
  slots : m'.slots = m.slots
  size_statics : m'.statics.size = m.statics.size
  byte (i : Nat) : (∀ e, stored e → ¬ m.Occupies e i) → m'.statics[i]? = m.statics[i]?
  size_blocks : m'.blocks.size = m.blocks.size
  block (i : Nat) : (∀ e, arrays e → m.blockIndex e ≠ .ok i) → m'.blocks[i]? = m.blocks[i]?
  /-- The dope vector of every block is the same but for the count. -/
  vector (i : Nat) : { (m'.block i).vector with elementCount := (m.block i).vector.elementCount }
    = (m.block i).vector

theorem Within.refl (m : Memory) : m.Within stored arrays m :=
  ⟨rfl, rfl, rfl, fun _ _ => rfl, rfl, fun _ _ => rfl, fun _ => rfl⟩

theorem ChangesOnly.within (h : m.ChangesOnly e m') (he : arrays e) :
    m.Within stored arrays m' where
  toc := h.toc
  slots := h.slots
  size_statics := by rw [h.statics]
  byte i _ := by rw [h.statics]
  size_blocks := h.size_blocks
  block i hi := h.block i (hi e he)
  vector := h.vector

/-- A store to one of the slots comes last: it may change which blocks arrays name. -/
theorem Within.store (h : m.Within stored arrays m₁) (hstore : m₁.StoresOnly e m')
    (he : stored e) : m.Within stored arrays m' where
  toc := hstore.toc.trans h.toc
  slots := hstore.slots.trans h.slots
  size_statics := hstore.size_statics.trans h.size_statics
  byte i hi := by
    rw [hstore.byte i (mt (occupies_congr h.toc).1 (hi e he)), h.byte i hi]
  size_blocks := by rw [hstore.blocks, h.size_blocks]
  block i hi := by rw [hstore.blocks, h.block i hi]
  vector i := by
    have hblock : m'.block i = m₁.block i := by rw [Memory.block, Memory.block, hstore.blocks]
    rw [hblock]
    exact h.vector i

theorem changesOnly_setArrayData {bytes : List UInt8} (h : m.setArrayData e bytes = .ok m') :
    m.ChangesOnly e m' := by
  obtain ⟨d, hd, rfl⟩ := map_eq_ok_iff.1 h
  exact changesOnly_modifyBlock hd fun b => b.evolves_data (Buffer.size_patch _ _ _)

end Memory

namespace HeadlessRobot

/-- From `r` to `r'` there is one new event at most, and the reply is another only if the call is a
write over the low-speed bus. -/
structure Serves (id : UInt16) (r r' : HeadlessRobot) : Prop where
  sensors : r'.sensors = r.sensors
  inputs : r'.inputs = r.inputs
  outputs : r'.outputs = r.outputs
  reply : id ≠ Syscall.lowSpeedWrite → r'.reply = r.reply ∧ r'.ready = r.ready
  events : r'.events = r.events ∨ ∃ event, r'.events = r.events.push event

theorem Serves.refl (id : UInt16) (r : HeadlessRobot) : r.Serves id r :=
  ⟨rfl, rfl, rfl, fun _ => ⟨rfl, rfl⟩, Or.inl rfl⟩

theorem serves_log (id : UInt16) (r : HeadlessRobot) (event : Event) :
    r.Serves id (r.log event) :=
  ⟨rfl, rfl, rfl, fun _ => ⟨rfl, rfl⟩, Or.inr ⟨event, rfl⟩⟩

theorem serves_lowSpeedWrite (r : HeadlessRobot) (channel : Int32) (bytes : List UInt8)
    (event : Event) :
    r.Serves Syscall.lowSpeedWrite ((r.lowSpeedWrite channel bytes).log event) := by
  unfold lowSpeedWrite
  split
  · exact ⟨rfl, rfl, rfl, fun h => absurd rfl h, Or.inr ⟨event, rfl⟩⟩
  · exact serves_log _ r event

def Reaches (base : Nat) : Syscall.Request → Memory → Memory → Prop
  | .lowSpeedRead .. => Memory.ChangesOnly (base + 3)
  | .lowSpeedCheckStatus .. => Memory.StoresOnly (base + 3)
  | _ => (· = ·)

def Both (q : HeadlessRobot → HeadlessRobot → Prop) (p : Memory → Memory → Prop)
    (s t : HeadlessRobot × Memory) : Prop :=
  q s.1 t.1 ∧ p s.2 t.2

section

variable {α β : Type} {q : HeadlessRobot → HeadlessRobot → Prop} {p : Memory → Memory → Prop}
  [IsPreorder Memory p]

theorem keeps_ask (hq : ∀ r, q r r) (f : Memory → Except MemoryError α) :
    Keeps (Both q p) (Call.ask f) :=
  fun s => ⟨hq s.1, refl_of p s.2⟩

theorem keeps_look (hq : ∀ r, q r r) (f : HeadlessRobot → α) : Keeps (Both q p) (Call.look f) :=
  fun s => ⟨hq s.1, refl_of p s.2⟩

theorem keeps_update (hq : ∀ r, q r r) {f : Memory → Except MemoryError Memory}
    (hf : ∀ {m m'}, f m = .ok m' → p m m') : Keeps (Both q p) (Call.update f) := by
  rintro ⟨r, m⟩
  rw [Call.run_update]
  cases h : f m with
  | error e => exact ⟨hq r, refl_of p m⟩
  | ok m' => exact ⟨hq r, hf h⟩

theorem keeps_act {f : HeadlessRobot → HeadlessRobot} (hf : ∀ r, q r (f r)) :
    Keeps (Both q p) (Call.act f) :=
  fun s => ⟨hf s.1, refl_of p s.2⟩

/-- A part that does not reach the robot may come before one that does. -/
theorem keeps_bind (hq : ∀ r, q r r) {x : Call α} {f : α → Call β}
    (hx : Keeps (Both (· = ·) p) x) (hf : ∀ a, Keeps (Both q p) (f a)) :
    Keeps (Both q p) (x >>= f) := by
  refine Keeps.bind_of (fun s t h => ?_) (fun s t u h h' => ?_) hx hf
  · exact ⟨h.1 ▸ hq s.1, h.2⟩
  · exact ⟨h.1 ▸ h'.1, trans_of p h.2 h'.2⟩

end

theorem reaches_perform (base : Nat) (request : Syscall.Request) :
    Keeps (Both (Serves request.id) (Reaches base request)) (perform base request) := by
  cases request with
  | playFile file looping volume =>
      cases file with
      | none => exact fun s => ⟨Serves.refl _ s.1, rfl⟩
      | some file => exact fun s => ⟨serves_log _ s.1 _, rfl⟩
  | playTone => exact fun s => ⟨serves_log _ s.1 _, rfl⟩
  | lowSpeedWrite => exact fun s => ⟨serves_lowSpeedWrite s.1 _ _ _, rfl⟩
  | lowSpeedRead channel count =>
      have hrefl := Serves.refl Syscall.lowSpeedRead
      have hsame (r : HeadlessRobot) : r = r := rfl
      change Keeps (Both (Serves Syscall.lowSpeedRead) (Memory.ChangesOnly (base + 3))) _
      refine keeps_bind hrefl (keeps_look hsame _) fun ready => ?_
      refine keeps_bind hrefl (keeps_look hsame _) fun reply => ?_
      refine keeps_bind hrefl (keeps_update hsame Memory.changesOnly_setArrayLength) fun _ => ?_
      refine keeps_bind hrefl (keeps_update hsame Memory.changesOnly_setArrayData) fun _ => ?_
      refine keeps_bind hrefl (keeps_ask hsame _) fun bytes => ?_
      exact keeps_act fun r => serves_log _ r _
  | lowSpeedCheckStatus channel =>
      have hrefl := Serves.refl Syscall.lowSpeedCheckStatus
      change Keeps (Both (Serves Syscall.lowSpeedCheckStatus) (Memory.StoresOnly (base + 3))) _
      refine keeps_bind hrefl (keeps_look (fun _ => rfl) _) fun ready => ?_
      exact keeps_update hrefl Memory.storesOnly_setScalar
  | unsupported => exact fun s => ⟨serves_log _ s.1 _, rfl⟩

/-- After what the request reaches comes the status. -/
theorem within_of_reaches {base : Nat} {request : Syscall.Request} {m m₁ m' : Memory}
    (h : Reaches base request m m₁) (hstatus : m₁.StoresOnly (base + Syscall.statusField) m') :
    m.Within (Syscall.StoresTo request.id base) (Syscall.Resizes request.id base) m' := by
  refine Memory.Within.store ?_ hstatus (Or.inl rfl)
  cases request with
  | lowSpeedRead => exact Memory.ChangesOnly.within h ⟨rfl, rfl⟩
  | lowSpeedCheckStatus => exact (Memory.Within.refl m).store h (Or.inr ⟨rfl, rfl⟩)
  | _ =>
      cases h
      exact Memory.Within.refl m

/-- A call whose request can be read carries it out and stores the status, unless the request fails;
it is over then. -/
theorem run_call {id : UInt16} {base : Nat} {r : HeadlessRobot} {m : Memory}
    {request : Syscall.Request} (h : Syscall.Request.read m id base = .ok request) :
    (call id base).run (r, m) =
      (do perform base request; Call.update (·.setScalar (base + Syscall.statusField) 0)).run
        (r, m) := by
  have hread : (Call.ask (Syscall.Request.read · id base)).run (r, m) = (.ok request, (r, m)) := by
    rw [← h]
    rfl
  unfold call
  rw [Keeps.run_bind, hread]

/-- If the request of a system call cannot be read, the call fails for this reason and changes
nothing. Otherwise it changes the bytes of the status, of the slot in field 3 if it is a status
check and, of the array in field 3 if it is a read over the low-speed bus, the element count and the
contents, and no other part of memory; the robot has the sensors and the settings of channels that
it had, the reply that it had unless the call is a write over the bus, and one new event at most. If
the call succeeds, the status is zero. -/
theorem frame_of_syscall {id : UInt16} {base : Nat} {r r' : HeadlessRobot} {m m' : Memory}
    {result : Except MemoryError Unit} (h : Robot.syscall id base r m = (result, r', m')) :
    (∀ e, Syscall.Request.read m id base = .error e → result = .error e ∧ r' = r ∧ m' = m) ∧
    ∀ request, Syscall.Request.read m id base = .ok request →
      m.Within (Syscall.StoresTo id base) (Syscall.Resizes id base) m' ∧ r.Serves id r' ∧
      (result = .ok () → m'.scalar (base + 1) = .ok 0) := by
  change (call id base).run (r, m) = _ at h
  constructor
  · intro e he
    have hread : (Call.ask (Syscall.Request.read · id base)).run (r, m) = (.error e, (r, m)) := by
      rw [← he]
      rfl
    unfold call at h
    rw [Keeps.run_bind, hread] at h
    cases h
    exact ⟨rfl, rfl, rfl⟩
  · intro request hrequest
    obtain rfl := Syscall.Request.named_read m id base request hrequest
    rw [run_call hrequest, Keeps.run_bind] at h
    have hperform := reaches_perform base request (r, m)
    rcases hrun : (perform base request).run (r, m) with ⟨_ | _, r₁, m₁⟩ <;>
      rw [hrun] at h hperform <;> obtain ⟨hserves, hreaches⟩ := hperform
    · cases h
      exact ⟨within_of_reaches hreaches (refl_of _ _), hserves, nofun⟩
    · dsimp only at h
      rw [Call.run_update] at h
      cases hstore : m₁.setScalar (base + Syscall.statusField) 0 with
      | error e =>
          rw [hstore] at h
          cases h
          exact ⟨within_of_reaches hreaches (refl_of _ _), hserves, nofun⟩
      | ok m₂ =>
          rw [hstore] at h
          cases h
          obtain ⟨t, _, hread⟩ := Memory.scalar_of_setScalar hstore
          rw [SlotType.truncate_zero] at hread
          exact ⟨within_of_reaches hreaches (Memory.storesOnly_setScalar hstore), hserves,
            fun _ => hread⟩

/-- A memory whose entries are the cluster of a read over the low-speed bus. The status lies over
the index of the array that the reply goes to. -/
def statusOverArray : Memory where
  toc := #[⟨.cluster, 0, 5⟩, ⟨.sword, 0, 0⟩, ⟨.ubyte, 0, 2⟩, ⟨.array, 0, 0⟩, ⟨.ubyte, 0, 0⟩,
    ⟨.ubyte, 0, 3⟩]
  statics := #[1, 0, 0, 4]
  blocks := #[⟨⟨0, 10, 2, 0, 0⟩, #[]⟩, ⟨⟨0, 1, 0, 0, 0⟩, #[]⟩]
  slots := [1, 2, 3, 5]

def oneReady : HeadlessRobot := { ofSensors [] with ready := 1 }

theorem frame_of_statusOverArray :
    ∃ r' m', Robot.syscall Syscall.lowSpeedRead 0 oneReady statusOverArray = (.ok (), r', m') ∧
      statusOverArray.Within (Syscall.StoresTo Syscall.lowSpeedRead 0)
        (Syscall.Resizes Syscall.lowSpeedRead 0) m' ∧
      oneReady.Serves Syscall.lowSpeedRead r' ∧ m'.scalar 1 = .ok 0 ∧
      (m'.block 1).data = #[0] := by
  rcases hcall : Robot.syscall Syscall.lowSpeedRead 0 oneReady statusOverArray with
    ⟨result, r', m'⟩
  obtain ⟨hwithin, hserves, hzero⟩ := (frame_of_syscall hcall).2 (.lowSpeedRead 0 4) rfl
  have hresult : result = .ok () := by
    cases hcall
    rfl
  have hdata : (m'.block 1).data = #[0] := by
    cases hcall
    rfl
  exact ⟨r', m', by rw [hresult], hwithin, hserves, hzero hresult, hdata⟩

end HeadlessRobot

end BrickMachine
