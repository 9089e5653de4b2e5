import BrickMachine.Image.Program
import BrickMachine.Proofs.Machine.Halting

/-!
# What a program learns of the sensors

The values of the sensors come to a program in two ways: GETIN reads the scaled value of an input
channel, and a low-speed write that asks for a measurement has it put into the reply buffer, from
where a low-speed read fetches it later. A machine that is about to do one of these `senses`.

All else is blind. `Exec.Blind s x` says that `x` gives the same result and does the same to the
machine if the sensors have the values `s` instead, so two machines that differ in these values only
stay so until they sense.
-/

namespace BrickMachine

namespace Syscall.Request

def id : Request → UInt16
  | playFile .. => soundPlayFile
  | playTone .. => soundPlayTone
  | lowSpeedWrite .. => Syscall.lowSpeedWrite
  | lowSpeedRead .. => Syscall.lowSpeedRead
  | lowSpeedCheckStatus .. => Syscall.lowSpeedCheckStatus
  | unsupported id => id

def Named (n : UInt16) (x : Except MemoryError Request) : Prop :=
  ∀ request, x = .ok request → request.id = n

theorem Named.ok {n : UInt16} {request : Request} (h : n = request.id) :
    Named n (.ok request) := by
  intro request' hrequest
  cases hrequest
  exact h.symm

theorem Named.bind {α : Type} {n : UInt16} {x : Except MemoryError α}
    {f : α → Except MemoryError Request} (hf : ∀ a, Named n (f a)) : Named n (x >>= f) := by
  intro request h
  obtain ⟨a, _, ha⟩ := bind_eq_ok_iff.1 h
  exact hf a request ha

theorem named_read (m : Memory) (n : UInt16) (base : Nat) : Named n (read m n base) := by
  unfold read
  dsimp only
  split
  case isTrue hn => exact .bind fun _ => .bind fun _ => .bind fun _ => .ok hn
  case isFalse =>
  split
  case isTrue hn => exact .bind fun _ => .bind fun _ => .bind fun _ => .bind fun _ => .ok hn
  case isFalse =>
  split
  case isTrue hn => exact .bind fun _ => .bind fun _ => .bind fun _ => .ok hn
  case isFalse =>
  split
  case isTrue hn => exact .bind fun _ => .bind fun _ => .ok hn
  case isFalse =>
  split
  case isTrue hn => exact .bind fun _ => .ok hn
  case isFalse => exact .ok rfl

end Syscall.Request

def Syscall.Request.isMeasurement : Syscall.Request → Bool
  | lowSpeedWrite _ bytes _ => HeadlessRobot.measurementRequest.isPrefixOf bytes
  | _ => false

namespace HeadlessRobot

def withSensors (r : HeadlessRobot) (s : Vector Float32 4) : HeadlessRobot :=
  { r with sensors := s }

variable {α : Type} {s : Vector Float32 4} {r : HeadlessRobot}

/-! ### Channels -/

theorem setInput_withSensors (channel : Int32) (property : UInt16) (value : Int32) :
    (r.withSensors s).setInput channel property value
      = (r.setInput channel property value).withSensors s := by
  unfold setInput
  split <;> rfl

theorem input_withSensors (channel : Int32) {property : UInt16}
    (hproperty : property ≠ Input.scaledValue) :
    (r.withSensors s).input channel property = r.input channel property := by
  unfold input
  rw [if_neg hproperty, if_neg hproperty]
  rfl

/-! ### System calls -/

def Call.withSensors (s : Vector Float32 4) : HeadlessRobot × Memory → HeadlessRobot × Memory :=
  Prod.map (·.withSensors s) id

abbrev Call.Blind (s : Vector Float32 4) (x : Call α) : Prop := Commutes (Call.withSensors s) x

namespace Call

theorem blind_ask (f : Memory → Except MemoryError α) : Blind s (ask f) := fun _ => rfl

theorem run_update {f : Memory → Except MemoryError Memory} {r : HeadlessRobot} {m : Memory} :
    (update f).run (r, m) =
      match f m with
      | .ok m' => (.ok (), r, m')
      | .error e => (.error e, r, m) := rfl

theorem blind_update (f : Memory → Except MemoryError Memory) : Blind s (update f) := by
  rintro ⟨r, m⟩
  change (update f).run (r.withSensors s, m) = _
  rw [run_update, run_update]
  cases f m <;> rfl

theorem blind_act {f : HeadlessRobot → HeadlessRobot}
    (hf : ∀ r : HeadlessRobot, f (r.withSensors s) = (f r).withSensors s) : Blind s (act f) := by
  rintro ⟨r, m⟩
  change ((.ok (), f (r.withSensors s), m) : Except MemoryError Unit × HeadlessRobot × Memory) = _
  rw [hf r]
  rfl

theorem blind_look {f : HeadlessRobot → α} (hf : ∀ r : HeadlessRobot, f (r.withSensors s) = f r) :
    Blind s (look f) := by
  rintro ⟨r, m⟩
  change ((.ok (f (r.withSensors s)), r.withSensors s, m) :
    Except MemoryError α × HeadlessRobot × Memory) = _
  rw [hf r]
  rfl

end Call

theorem Call.blind_log (e : Event) : Blind s (act (·.log e)) := blind_act fun _ => rfl

theorem blind_perform (base : Nat) {request : Syscall.Request}
    (hrequest : request.isMeasurement = false) : Call.Blind s (perform base request) := by
  cases request with
  | playFile file looping volume =>
      cases file with
      | none => exact Commutes.pure ()
      | some file => exact Call.blind_log _
  | playTone => exact Call.blind_log _
  | lowSpeedWrite channel bytes expected =>
      have hother (r : HeadlessRobot) : r.lowSpeedWrite channel bytes = r :=
        if_neg (Bool.eq_false_iff.1 hrequest)
      unfold perform
      simp only [hother]
      exact Call.blind_log _
  | lowSpeedRead channel count =>
      refine Commutes.bind (Call.blind_look fun _ => rfl) fun ready => ?_
      refine Commutes.bind (Call.blind_look fun _ => rfl) fun reply => ?_
      refine Commutes.bind (Call.blind_update _) fun _ => ?_
      refine Commutes.bind (Call.blind_update _) fun _ => ?_
      exact Commutes.bind (Call.blind_ask _) fun bytes => Call.blind_log _
  | lowSpeedCheckStatus =>
      exact Commutes.bind (Call.blind_look fun _ => rfl) fun ready => Call.blind_update _
  | unsupported => exact Call.blind_log _

def takesMeasurement (m : Memory) (id : UInt16) (base : Nat) : Bool :=
  match Syscall.Request.read m id base with
  | .ok request => request.isMeasurement
  | .error _ => false

/-- No other call takes a measurement. -/
theorem takesMeasurement_of_ne {id : UInt16} {base : Nat} {m : Memory}
    (hid : id ≠ Syscall.lowSpeedWrite) : takesMeasurement m id base = false := by
  unfold takesMeasurement
  cases hrequest : Syscall.Request.read m id base with
  | error e => rfl
  | ok request =>
      cases request with
      | lowSpeedWrite => exact absurd (Syscall.Request.named_read m id base _ hrequest).symm hid
      | _ => rfl

/-- What a call does to a robot with other sensor values. -/
theorem call_withSensors {id : UInt16} {base : Nat} {m : Memory}
    (h : takesMeasurement m id base = false) :
    (call id base).run (r.withSensors s, m)
      = (((call id base).run (r, m)).1, ((call id base).run (r, m)).2.1.withSensors s,
        ((call id base).run (r, m)).2.2) := by
  unfold takesMeasurement at h
  have hread (r : HeadlessRobot) : (Call.ask (Syscall.Request.read · id base)).run (r, m)
      = (Syscall.Request.read m id base, (r, m)) := rfl
  unfold call
  rw [Keeps.run_bind, Keeps.run_bind, hread, hread]
  cases hrequest : Syscall.Request.read m id base with
  | error e => rfl
  | ok request =>
      rw [hrequest] at h
      exact (blind_perform base h).bind (fun _ => Call.blind_update _) (r, m)

end HeadlessRobot

namespace Machine

def withSensors (m : Machine HeadlessRobot) (s : Vector Float32 4) : Machine HeadlessRobot :=
  { m with robot := m.robot.withSensors s }

theorem note_withSensors (m : Machine HeadlessRobot) (s : Vector Float32 4) (d : Diagnostic) :
    (m.withSensors s).note d = (m.note d).withSensors s := by
  unfold note
  by_cases hd : d ∈ m.seen
  · rw [if_pos hd, if_pos (show d ∈ (m.withSensors s).seen from hd)]
  · rw [if_neg hd, if_neg (show d ∉ (m.withSensors s).seen from hd)]
    rfl

end Machine

namespace Exec

variable {α : Type} {s : Vector Float32 4}

/-- A part of an instruction that gives the same result and does the same whatever the values of the
sensors are. -/
abbrev Blind (s : Vector Float32 4) (x : Exec HeadlessRobot α) : Prop :=
  Commutes (fun m : Machine HeadlessRobot => m.withSensors s) x

namespace Blind

theorem ask (f : Memory → Except MemoryError α) : Blind s (Exec.ask f) := fun _ => rfl

theorem change (c : Change α) : Blind s (Exec.change c) := fun _ => rfl

theorem act {f : Machine HeadlessRobot → Machine HeadlessRobot}
    (hf : ∀ m, f (m.withSensors s) = (f m).withSensors s) : Blind s (Exec.act f) := by
  intro m
  change ((.ok (), f (m.withSensors s)) : Except Machine.Error Unit × Machine HeadlessRobot) = _
  rw [hf m]
  rfl

theorem look {f : Machine HeadlessRobot → α} (hf : ∀ m, f (m.withSensors s) = f m) :
    Blind s (Exec.look f) := by
  intro m
  change ((.ok (f (m.withSensors s)), m.withSensors s) :
    Except Machine.Error α × Machine HeadlessRobot) = _
  rw [hf m]
  rfl

theorem consult {f : HeadlessRobot → α × HeadlessRobot}
    (hf : ∀ r, f (r.withSensors s) = ((f r).1, (f r).2.withSensors s)) :
    Blind s (Exec.consult f) := by
  intro m
  change (Except.ok (f (m.robot.withSensors s)).1,
    { m.withSensors s with robot := (f (m.robot.withSensors s)).2 }) = _
  rw [hf m.robot]
  rfl

end Blind

/-! ### The parts of an instruction -/

theorem blind_scalar (e : UInt16) : Blind s (scalar e) := Blind.ask _

theorem blind_setScalar (e : UInt16) (v : Int32) : Blind s (setScalar e v) := Blind.change _

theorem blind_index? (e : UInt16) : Blind s (index? e) := by
  unfold index?
  split
  · exact Commutes.pure none
  · exact (blind_scalar e).bind fun _ => Commutes.pure _

theorem blind_index (e : UInt16) : Blind s (index e) :=
  (blind_index? e).bind fun _ => Commutes.pure _

theorem blind_comparison (pc : Nat) (flags : UInt8) : Blind s (comparison pc flags) := by
  unfold comparison
  split
  · exact Commutes.pure _
  · exact Commutes.throw _

theorem blind_branch (pc : Nat) (offset : Int) : Blind s (branch pc offset) := by
  unfold branch
  dsimp only
  split
  · exact Commutes.throw _
  · exact Blind.act fun _ => rfl

theorem blind_note (d : Diagnostic) : Blind s (Exec.act (·.note d)) :=
  Blind.act fun m => m.note_withSensors s d

theorem blind_arrayBuild (dst : UInt16) (sources : List UInt16) :
    Blind s (arrayBuild dst sources) :=
  (Blind.ask _).bind fun _ => Blind.change _

theorem blind_arrayInit (dst value count : UInt16) : Blind s (arrayInit dst value count) :=
  (blind_scalar value).bind fun _ => (blind_index count).bind fun _ =>
    (Blind.change _).bind fun _ => Blind.change _

theorem blind_arraySubset (dst src position length : UInt16) :
    Blind s (arraySubset dst src position length) :=
  (Blind.ask _).bind fun _ => (blind_index position).bind fun _ =>
    (blind_index? length).bind fun _ => (Blind.ask _).bind fun _ => Blind.change _

theorem blind_replace (dst src position new : UInt16) :
    Blind s (replace dst src position new) := by
  refine (blind_index position).bind fun start => (Blind.ask _).bind fun vs => ?_
  have hstore : Blind s (do
      let n ← Exec.ask (·.arrayLength dst.toNat)
      Exec.change (Memory.storeElements dst.toNat start (vs.take (n - start)))) :=
    (Blind.ask _).bind fun _ => Blind.change _
  split
  · exact (Blind.change _).bind fun _ => hstore
  · exact hstore

theorem blind_move (pc : Nat) (dst src : UInt16) : Blind s (move pc dst src) := by
  refine (Blind.ask _).bind fun dstType => (Blind.ask _).bind fun srcType => ?_
  split
  · exact Blind.change _
  · split
    · exact (blind_scalar src).bind fun v => blind_setScalar dst v
    · exact blind_note _

theorem blind_call (pc : Nat) (clump slot : UInt16) : Blind s (call pc clump slot) := by
  refine (Blind.look fun _ => rfl).bind fun target => ?_
  cases target with
  | none => exact Commutes.throw _
  | some c =>
      refine (Blind.look fun _ => rfl).bind fun caller => ?_
      exact (blind_setScalar slot _).bind fun _ => Blind.act fun _ => rfl

theorem blind_ret (pc : Nat) (slot : UInt16) : Blind s (ret pc slot) := by
  refine (Blind.look fun _ => rfl).bind fun stack => ?_
  cases stack with
  | nil => exact Commutes.throw _
  | cons address rest =>
      refine (Blind.act fun _ => rfl).bind fun _ => ?_
      exact (blind_scalar slot).bind fun _ => Blind.act fun _ => rfl

theorem blind_wait (duration : UInt16) : Blind s (wait duration) :=
  (blind_scalar duration).bind fun _ => Blind.act fun _ => rfl

theorem blind_setChannel (channel : Int32) (settings : List (UInt16 × UInt16)) :
    Blind s (setChannel channel settings) := by
  induction settings with
  | nil => exact Commutes.pure ()
  | cons setting settings ih =>
      exact (blind_scalar setting.2).bind fun _ => (Blind.act fun _ => rfl).bind fun _ => ih

theorem blind_setChannels (settings : List (UInt16 × UInt16)) (channels : List Int32) :
    Blind s (setChannels settings channels) := by
  induction channels with
  | nil => exact Commutes.pure ()
  | cons channel channels ih => exact (blind_setChannel channel settings).bind fun _ => ih

theorem blind_setInput (channel : Int32) (property : UInt16) (value : Int32) :
    Blind s (Exec.act fun m => { m with robot := Robot.setInput m.robot channel property value }) :=
  Blind.act fun m => congrArg (fun robot => { m with robot })
    (HeadlessRobot.setInput_withSensors (r := m.robot) channel property value)

theorem blind_input (channel : Int32) {property : UInt16}
    (hproperty : property ≠ Input.scaledValue) :
    Blind s (Exec.consult (Robot.input · channel property)) :=
  Blind.consult fun r =>
    congrArg (·, r.withSensors s) (HeadlessRobot.input_withSensors channel hproperty)

/-- Whether a slot can be stored to does not depend on the number. -/
theorem run_setScalar (e : UInt16) (v : Int32) (m : Machine HeadlessRobot) :
    (setScalar e v).run m =
      match m.memory.slotTarget e.toNat with
      | .ok target => (.ok (), { m with memory := m.memory.putSlot target v })
      | .error e => (.error (.memory e), m) := by
  unfold setScalar change Change.update Memory.setScalar
  simp only [ExceptT.run]
  cases m.memory.slotTarget e.toNat <;> rfl

theorem run_getInput {pc : Nat} {dst channel property : UInt16} {m : Machine HeadlessRobot} :
    (execute pc (.getInput dst channel property)).run m =
      match m.memory.scalar channel.toNat with
      | .ok c => (setScalar dst (m.robot.input c property)).run m
      | .error e => (.error (.memory e), m) := by
  have hscalar : (scalar channel).run m
      = ((m.memory.scalar channel.toNat).mapError Machine.Error.memory, m) := rfl
  have hinput (c : Int32) : (Exec.consult fun r : HeadlessRobot => Robot.input r c property).run m
      = (.ok (m.robot.input c property), m) := rfl
  unfold execute
  rw [Keeps.run_bind, hscalar]
  cases m.memory.scalar channel.toNat with
  | error e => rfl
  | ok c =>
      change (Exec.consult _ >>= fun v => setScalar dst v).run m = _
      rw [Keeps.run_bind, hinput]

/-- A GETIN that fails has not told the program anything. -/
theorem getInput_withSensors {pc : Nat} {dst channel property : UInt16}
    {m : Machine HeadlessRobot}
    (hfails : ((execute pc (.getInput dst channel property)).run m).1.isOk = false) :
    (execute pc (.getInput dst channel property)).run (m.withSensors s)
      = (((execute pc (.getInput dst channel property)).run m).1,
        ((execute pc (.getInput dst channel property)).run m).2.withSensors s) := by
  rw [run_getInput] at hfails ⊢
  rw [run_getInput, show (m.withSensors s).memory = m.memory from rfl]
  cases hc : m.memory.scalar channel.toNat with
  | error e => rfl
  | ok c =>
      rw [hc] at hfails
      simp only [run_setScalar] at hfails ⊢
      rw [show (m.withSensors s).memory = m.memory from rfl]
      cases htarget : m.memory.slotTarget dst.toNat with
      | error e => rfl
      | ok target =>
          rw [htarget] at hfails
          cases hfails

end Exec

/-! ### Operations -/

/-- Whether the operation, which the machine carries out with the given result, tells the program or
the reply buffer something of the sensors. A GETIN that fails does not. A system call does as soon
as its parameters can be read, even if its status cannot be stored afterwards. -/
def Operation.senses (m : Machine HeadlessRobot) (succeeds : Bool) : Operation → Bool
  | getInput _ _ property => property == Input.scaledValue && succeeds
  | syscall id cluster =>
    id == Syscall.lowSpeedWrite && HeadlessRobot.takesMeasurement m.memory id cluster.toNat
  | _ => false

open Exec in
theorem execute_withSensors {pc : Nat} {op : Operation} {m : Machine HeadlessRobot}
    (s : Vector Float32 4)
    (hop : op.senses m ((execute pc op).run m).1.isOk = false) :
    (execute pc op).run (m.withSensors s)
      = (((execute pc op).run m).1, ((execute pc op).run m).2.withSensors s) := by
  have hblind (h : Blind s (execute pc op)) :
      (execute pc op).run (m.withSensors s)
        = (((execute pc op).run m).1, ((execute pc op).run m).2.withSensors s) := h m
  cases op with
  | binary op dst lhs rhs =>
      exact hblind <| (blind_scalar lhs).bind fun _ => (blind_scalar rhs).bind fun _ =>
        blind_setScalar dst _
  | unary op dst src => exact hblind <| (blind_scalar src).bind fun _ => blind_setScalar dst _
  | compare flags dst lhs rhs =>
      exact hblind <| (blind_comparison pc flags).bind fun _ => (blind_scalar lhs).bind fun _ =>
        (blind_scalar rhs).bind fun _ => blind_setScalar dst _
  | test flags dst src =>
      exact hblind <| (blind_comparison pc flags).bind fun _ => (blind_scalar src).bind fun _ =>
        blind_setScalar dst _
  | index dst array position =>
      exact hblind <| (blind_index position).bind fun _ => (Blind.ask _).bind fun _ =>
        blind_setScalar dst _
  | replace dst src position new => exact hblind (blind_replace dst src position new)
  | arraySize dst array => exact hblind <| (Blind.ask _).bind fun _ => blind_setScalar dst _
  | arrayBuild dst sources => exact hblind (blind_arrayBuild dst sources)
  | arraySubset dst src position length => exact hblind (blind_arraySubset dst src position length)
  | arrayInit dst value count => exact hblind (blind_arrayInit dst value count)
  | move dst src => exact hblind (blind_move pc dst src)
  | set dst literal => exact hblind (blind_setScalar dst _)
  | unsupported op => exact hblind (blind_note _)
  | jump offset => exact hblind (blind_branch pc offset)
  | branchCompare flags offset lhs rhs =>
      refine hblind <| (blind_comparison pc flags).bind fun _ => (blind_scalar lhs).bind fun _ =>
        (blind_scalar rhs).bind fun _ => ?_
      split
      · exact blind_branch pc offset
      · exact Commutes.pure ()
  | branchTest flags offset src =>
      refine hblind <| (blind_comparison pc flags).bind fun _ => (blind_scalar src).bind fun _ => ?_
      split
      · exact blind_branch pc offset
      · exact Commutes.pure ()
  | stop => exact hblind (Commutes.throw _)
  | idle => exact hblind (Commutes.pure ())
  | call clump slot => exact hblind (blind_call pc clump slot)
  | ret slot => exact hblind (blind_ret pc slot)
  | syscall id cluster =>
      have hquiet : HeadlessRobot.takesMeasurement m.memory id cluster.toNat = false := by
        by_cases hid : id = Syscall.lowSpeedWrite
        · simpa [Operation.senses, hid] using hop
        · exact HeadlessRobot.takesMeasurement_of_ne hid
      have hcall := HeadlessRobot.call_withSensors (r := m.robot) (s := s) hquiet
      have hrun (m : Machine HeadlessRobot) : (execute pc (.syscall id cluster)).run m =
          (((HeadlessRobot.call id cluster.toNat).run (m.robot, m.memory)).1.mapError .memory,
            { m with
              robot := ((HeadlessRobot.call id cluster.toNat).run (m.robot, m.memory)).2.1
              memory := ((HeadlessRobot.call id cluster.toNat).run (m.robot, m.memory)).2.2 }) :=
        rfl
      rw [hrun, hrun, show (m.withSensors s).robot = m.robot.withSensors s from rfl,
        show (m.withSensors s).memory = m.memory from rfl, hcall]
      rfl
  | setInput src channel property =>
      exact hblind <| (blind_scalar src).bind fun _ => (blind_scalar channel).bind fun _ =>
        blind_setInput _ property _
  | setOutput channel settings =>
      exact hblind <| (Blind.ask _).bind fun channels => blind_setChannels settings channels
  | getInput dst channel property =>
      by_cases hproperty : property = Input.scaledValue
      · refine getInput_withSensors ?_
        simpa [Operation.senses, hproperty] using hop
      · exact hblind <| (blind_scalar channel).bind fun _ =>
          (blind_input _ hproperty).bind fun _ => blind_setScalar dst _
  | getOutput dst channel property =>
      exact hblind <| (blind_scalar channel).bind fun _ =>
        (Blind.consult fun _ => rfl).bind fun _ => blind_setScalar dst _
  | wait duration => exact hblind (blind_wait duration)
  | getTick dst => exact hblind <| (Blind.look fun _ => rfl).bind fun _ => blind_setScalar dst _

namespace Machine

variable {m : Machine HeadlessRobot}

/-! ### Steps -/

def senses (m : Machine HeadlessRobot) : Bool :=
  match m.idle?, Instruction.decode m.image.code m.control.pc with
  | none, .ok i => i.operation?.any (·.senses m m.step.1.isOk)
  | _, _ => false

theorem conclude_withSensors (result : Except Error Unit) (m : Machine HeadlessRobot)
    (s : Vector Float32 4) :
    conclude result (m.withSensors s)
      = ((conclude result m).1, (conclude result m).2.withSensors s) := by
  cases result with
  | ok => rfl
  | error e => cases e <;> rfl

theorem isOk_conclude (result : Except Error Unit) (m : Machine HeadlessRobot) :
    (conclude result m).1.isOk = result.isOk := by
  cases result <;> rfl

/-- A step that does not let anything of the sensors in. -/
theorem step_withSensors (hm : m.senses = false) (s : Vector Float32 4) :
    (m.withSensors s).step = (m.step.1, m.step.2.withSensors s) := by
  have hidle : (m.withSensors s).idle? = m.idle? := rfl
  unfold senses at hm
  rw [step_eq] at hm ⊢
  rw [step_eq, hidle]
  cases hreason : m.idle? with
  | some o => rfl
  | none =>
      rw [hreason] at hm
      dsimp only at hm ⊢
      unfold attempt at hm ⊢
      rw [show (m.withSensors s).image = m.image from rfl,
        show (m.withSensors s).control = m.control from rfl]
      cases hdecode : Instruction.decode m.image.code m.control.pc with
      | error cause => exact conclude_withSensors _ m s
      | ok i =>
          rw [hdecode] at hm
          dsimp only at hm ⊢
          rw [isOk_conclude] at hm
          have hrun : (executeInstruction m.control.pc i).run ((m.behind i).withSensors s)
              = (((executeInstruction m.control.pc i).run (m.behind i)).1,
                ((executeInstruction m.control.pc i).run (m.behind i)).2.withSensors s) := by
            unfold executeInstruction at hm ⊢
            cases hoperation : i.operation? with
            | none => rfl
            | some op =>
                rw [hoperation] at hm
                exact execute_withSensors (m := m.behind i) s hm
          rw [show (m.withSensors s).behind i = (m.behind i).withSensors s from rfl, hrun,
            conclude_withSensors]

/-! ### Runs -/

def stepped {R : Type} [Robot R] (m : Machine R) : List (Interaction R) → List (Machine R)
  | [] => []
  | .step :: actions => m :: m.step.2.stepped actions
  | a :: actions => (a.apply m).stepped actions

end Machine

/-- What the host does to the robot has the same effect whatever the sensor values are, but on these
values: it may set them. -/
def Interaction.Discreet : Interaction HeadlessRobot → Prop
  | changeRobot f =>
    ∀ (r : HeadlessRobot) (s : Vector Float32 4), ∃ s', f (r.withSensors s) = (f r).withSensors s'
  | _ => True

namespace Machine

variable {m : Machine HeadlessRobot}

theorem run_withSensors {actions : List (Interaction HeadlessRobot)}
    (hactions : ∀ a ∈ actions, a.Discreet) (hm : ∀ t ∈ m.stepped actions, t.senses = false)
    (s : Vector Float32 4) :
    (m.withSensors s).results actions = m.results actions ∧
      ∃ s', (m.withSensors s).after actions = (m.after actions).withSensors s' := by
  -- for all values at once, because the host may set some of the sensors in between
  induction actions generalizing m s with
  | nil => exact ⟨rfl, s, rfl⟩
  | cons a actions ih =>
      obtain ⟨ha, hrest⟩ := List.forall_mem_cons.1 hactions
      cases a with
      | step =>
          obtain ⟨hnow, hlater⟩ := List.forall_mem_cons.1 hm
          have hstep := step_withSensors hnow s
          obtain ⟨hresults, s', hafter⟩ := ih hrest hlater s
          refine ⟨?_, s', ?_⟩
          · change (m.withSensors s).step.1 :: (m.withSensors s).step.2.results actions
              = m.step.1 :: m.step.2.results actions
            rw [hstep, hresults]
          · change (m.withSensors s).step.2.after actions = _
            rw [hstep]
            exact hafter
      | changeRobot f =>
          obtain ⟨s', hf⟩ := ha m.robot s
          have happly : (Interaction.changeRobot f).apply (m.withSensors s)
              = ((Interaction.changeRobot f).apply m).withSensors s' :=
            congrArg (fun robot => { m with robot }) hf
          obtain ⟨hresults, hafter⟩ := ih hrest hm s'
          rw [after, results, happly]
          · exact ⟨hresults, hafter⟩
          · nofun
      | changeClock | changeMemory | takeDiagnostics => exact ih hrest hm s

/-- Two machines start the same program on the same clock, and their robots differ in the values of
their sensors only. Until a step lets something of the sensors in, which is a GETIN of the scaled
value or a low-speed write that asks for a measurement, all steps have the same results, and the
machines still differ in nothing else: memory, control, diagnostics, the log of events, the
properties of the channels and even the reply buffer are the same. -/
theorem sensors_unseen {image : Image} {robot : HeadlessRobot} {clock : Clock}
    (hstart : start image robot clock = .ok m) (s : Vector Float32 4)
    {actions : List (Interaction HeadlessRobot)} (hactions : ∀ a ∈ actions, a.Discreet)
    (hm : ∀ t ∈ m.stepped actions, t.senses = false) :
    ∃ m', start image (robot.withSensors s) clock = .ok m' ∧
      m'.results actions = m.results actions ∧
      ∃ s', m'.after actions = (m.after actions).withSensors s' := by
  obtain ⟨memory, hload, hstarted⟩ := bind_eq_ok_iff.1 hstart
  have hother : start image (robot.withSensors s) clock = .ok (m.withSensors s) := by
    cases hstarted
    unfold start
    rw [hload]
    rfl
  exact ⟨m.withSensors s, hother, run_withSensors hactions hm s⟩

/-- A program that stores a property of an input channel and reads it back, asks how many bytes are
ready on the low-speed bus, and reads a sensor. -/
def touch : Image :=
  (({ dataspace :=
      ((({} : Dataspace).scalar .slong 7).scalar .ubyte 0).cluster [.sbyte, .ubyte, .ubyte] } :
      Program)
    |>.addClump (assemble [.setIn 0 1 1, .getIn 0 1 1, .syscall 0x17 2, .getIn 0 1 4]) [] 0).toImage

def startOfTouch : Machine HeadlessRobot where
  image := touch
  memory :=
    ⟨touch.toc, #[7, 0, 0, 0, 0, 0, 0, 0], #[⟨⟨8, 10, 1, 0, 0xFFFF⟩, #[]⟩], [0, 1, 3, 4, 5]⟩
  control := {}
  halted := false
  robot := .ofSensors []
  clock := .driven 0
  diagnostics := #[]
  seen := []

/-- The host sets a sensor after the first step. The step after these is the first that senses. -/
theorem touch_unseen :
    let actions : List (Interaction HeadlessRobot) :=
      [.step, .changeRobot (·.setSensor 3 1), .step, .step]
    (startOfTouch.after actions).senses = true ∧
    ∃ m', start touch ((HeadlessRobot.ofSensors []).withSensors #v[1, 0, 0, 0]) (.driven 0)
        = .ok m' ∧
      m'.results actions = [.ok .executed, .ok .executed, .ok .executed] ∧
      (m'.after actions).memory = (startOfTouch.after actions).memory ∧
      (m'.after actions).robot.events = (startOfTouch.after actions).robot.events := by
  intro actions
  have hactions : ∀ a ∈ actions, a.Discreet := by
    simp only [actions, List.forall_mem_cons]
    exact ⟨trivial, fun r s => ⟨s.setIfInBounds 3 1, rfl⟩, trivial, trivial, List.forall_mem_nil _⟩
  have hstart : start touch (HeadlessRobot.ofSensors []) (.driven 0) = .ok startOfTouch := rfl
  have hquiet : ∀ t ∈ startOfTouch.stepped actions, t.senses = false := by decide +kernel
  have hresults : startOfTouch.results actions
      = [.ok .executed, .ok .executed, .ok .executed] := rfl
  obtain ⟨m', hother, hsame, s', hafter⟩ :=
    sensors_unseen hstart #v[1, 0, 0, 0] hactions hquiet
  refine ⟨by decide +kernel, m', hother, hsame.trans hresults, ?_, ?_⟩
  · rw [hafter]
    rfl
  · rw [hafter]
    rfl

end Machine

end BrickMachine
