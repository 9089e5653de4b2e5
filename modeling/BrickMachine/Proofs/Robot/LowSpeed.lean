import BrickMachine.Proofs.Memory.Resizing
import BrickMachine.Proofs.Robot.History
import BrickMachine.Proofs.Robot.Sensing

/-!
# The answer on the low-speed bus

A write over the low-speed bus that asks for a measurement is answered: the answer is one byte, a
measurement of the sensor at the channel of the write as it is at this time. Before the first such
write the answer is empty, and afterwards it stays until the next one. Nothing else changes it, and
all channels share it.

`r.Offers answer` says what a robot with this answer tells a program: how many bytes are ready, and
the bytes themselves to whoever reads them. `offers_after` says that after any history this is the
answer to the last write that asked.
-/

namespace BrickMachine

def Syscall.Request.measures? : Syscall.Request → Option Int32
  | lowSpeedWrite channel bytes _ =>
    if [0x02, 0x42].isPrefixOf bytes then some channel else none
  | _ => none

/-- A patch that is too long for the buffer. -/
theorem Buffer.patch_append {b : Buffer} {xs : List UInt8} (h : b.size = xs.length)
    (ys : List UInt8) : b.patch 0 (xs ++ ys) = xs.toArray := by
  apply Array.ext_getElem?
  intro i
  have hright : xs.toArray[i]? = xs[i]? := List.getElem?_toArray
  rw [Buffer.getElem?_patch, List.length_append, hright]
  by_cases hi : i < xs.length
  · rw [if_pos (by omega), Nat.sub_zero, List.getElem?_append_left hi]
  · rw [if_neg (by omega), Array.getElem?_eq_none (by omega),
      List.getElem?_eq_none (Nat.le_of_not_lt hi)]

namespace HeadlessRobot

def Use.measures? : Use → Option Int32
  | syscall id base m => (Syscall.Request.read m id base).toOption.bind (·.measures?)
  | _ => none

/-- The answer after uses of a robot without one. It comes from the last use that measures. -/
inductive Answers (r : HeadlessRobot) : List Use → List UInt8 → Prop where
  | unasked {uses : List Use} (hquiet : ∀ use ∈ uses, use.measures? = none) : Answers r uses []
  | measured {before later : List Use} {use : Use} {channel : Int32} {byte : UInt8}
      (hwrite : use.measures? = some channel) (hquiet : ∀ use ∈ later, use.measures? = none)
      (hbyte : IsMeasurement ((r.after before).sensor channel) byte) :
      Answers r (before ++ use :: later) [byte]

/-- There is always an answer. -/
theorem exists_answers (r : HeadlessRobot) (uses : List Use) :
    ∃ answer, Answers r uses answer := by
  induction uses generalizing r with
  | nil => exact ⟨[], .unasked nofun⟩
  | cons use uses ih =>
      obtain ⟨answer, h⟩ := ih (use.apply r)
      cases h with
      | @measured before _ _ _ _ hwrite hquiet hbyte =>
          exact ⟨_, @Answers.measured r (use :: before) _ _ _ _ hwrite hquiet hbyte⟩
      | unasked hquiet =>
          cases huse : use.measures? with
          | none => exact ⟨[], .unasked (List.forall_mem_cons.2 ⟨huse, hquiet⟩)⟩
          | some channel =>
              exact ⟨_, @Answers.measured r [] _ _ _ _ huse hquiet (isMeasurement _)⟩

/-! ### The reply buffer -/

theorem toList_set_zero (v : Vector UInt8 16) (x : UInt8) :
    (v.set 0 x (Nat.zero_lt_succ 15)).toList = x :: v.toList.tail := by
  have hlength : v.toList.length = 16 := Vector.length_toList
  rw [Vector.toList_set]
  cases h : v.toList with
  | nil =>
      rw [h] at hlength
      cases hlength
  | cons y ys => rfl

def bus (r : HeadlessRobot) : List UInt8 × Nat := (r.reply.toList, r.ready)

def busAfter (r : HeadlessRobot) : Option Int32 → List UInt8 × Nat
  | some channel => (measurement (r.sensor channel) :: r.reply.toList.tail, 1)
  | none => r.bus

theorem bus_lowSpeedWrite (r : HeadlessRobot) (channel : Int32) (bytes : List UInt8) :
    (r.lowSpeedWrite channel bytes).bus
      = r.busAfter (if [0x02, 0x42].isPrefixOf bytes then some channel else none) := by
  unfold lowSpeedWrite measurementRequest bus
  split
  case isTrue => exact Prod.ext (toList_set_zero r.reply _) rfl
  case isFalse => rfl

theorem bus_perform (base : Nat) (request : Syscall.Request) (r : HeadlessRobot) (m : Memory) :
    ((perform base request).run (r, m)).2.1.bus = r.busAfter request.measures? := by
  have hserves := (reaches_perform base request (r, m)).1
  have hother (hid : request.id ≠ Syscall.lowSpeedWrite) :
      ((perform base request).run (r, m)).2.1.bus = r.bus := by
    unfold bus
    rw [(hserves.reply hid).1, (hserves.reply hid).2]
  cases request with
  | lowSpeedWrite channel bytes expected => exact bus_lowSpeedWrite r channel bytes
  | playFile => exact hother (show Syscall.soundPlayFile ≠ _ by decide)
  | playTone => exact hother (show Syscall.soundPlayTone ≠ _ by decide)
  | lowSpeedRead => exact hother (show Syscall.lowSpeedRead ≠ _ by decide)
  | lowSpeedCheckStatus => exact hother (show Syscall.lowSpeedCheckStatus ≠ _ by decide)
  | unsupported => rfl

theorem bus_apply (use : Use) (r : HeadlessRobot) :
    (use.apply r).bus = r.busAfter use.measures? := by
  cases use with
  | syscall id base m =>
      change (Robot.syscall id base r m).2.1.bus
        = r.busAfter ((Syscall.Request.read m id base).toOption.bind (·.measures?))
      cases h : Syscall.Request.read m id base with
      | error e =>
          rw [syscall_of_unread h]
          rfl
      | ok request =>
          rw [(syscall_of_read h).1]
          exact bus_perform base request r m
  | setInput c property value =>
      change (r.setInput c property value).bus = r.bus
      unfold setInput
      split <;> rfl
  | setSensor | setOutput | takeEvents => rfl

theorem bus_after_of_quiet {uses : List Use} (hquiet : ∀ use ∈ uses, use.measures? = none)
    (r : HeadlessRobot) : (r.after uses).bus = r.bus := by
  induction uses generalizing r with
  | nil => rfl
  | cons use uses ih =>
      obtain ⟨huse, hrest⟩ := List.forall_mem_cons.1 hquiet
      have hfirst := bus_apply use r
      rw [huse] at hfirst
      exact (ih hrest (use.apply r)).trans hfirst

/-- The bytes behind the first of the reply are never written. -/
theorem tail_reply_after (r : HeadlessRobot) (uses : List Use) :
    (r.after uses).reply.toList.tail = r.reply.toList.tail := by
  induction uses generalizing r with
  | nil => rfl
  | cons use uses ih =>
      have hfirst := congrArg (·.1.tail) (bus_apply use r)
      change ((use.apply r).after uses).reply.toList.tail = _
      rw [ih]
      cases huse : use.measures? with
      | none => simpa [huse, bus, busAfter] using hfirst
      | some channel => simpa [huse, bus, busAfter] using hfirst

structure Holds (r : HeadlessRobot) (answer : List UInt8) : Prop where
  length_le : answer.length ≤ 1
  ready : r.ready = answer.length
  reply : r.reply.toList = answer ++ List.replicate (16 - answer.length) 0

theorem Holds.ready_le {r : HeadlessRobot} {answer : List UInt8} (h : r.Holds answer) :
    r.ready ≤ 1 :=
  h.ready ▸ h.length_le

theorem holds_ofSensors (values : List Float32) : (ofSensors values).Holds [] :=
  ⟨Nat.zero_le 1, rfl, rfl⟩

theorem holds_after {r : HeadlessRobot} (hr : r.Holds []) {uses : List Use} {answer : List UInt8}
    (h : Answers r uses answer) : (r.after uses).Holds answer := by
  cases h with
  | unasked hquiet =>
      obtain ⟨hreply, hready⟩ := Prod.mk.inj (bus_after_of_quiet hquiet r)
      exact ⟨hr.length_le, hready.trans hr.ready, hreply.trans hr.reply⟩
  | @measured before later use channel byte hwrite hquiet hbyte =>
      have hmeasured := bus_apply use (r.after before)
      rw [hwrite] at hmeasured
      have hsplit : r.after (before ++ use :: later) = (use.apply (r.after before)).after later :=
        after_append r before (use :: later)
      obtain ⟨hreply, hready⟩ := Prod.mk.inj ((bus_after_of_quiet hquiet _).trans hmeasured)
      rw [hsplit, hbyte.unique (isMeasurement _)]
      refine ⟨Nat.le_refl 1, hready, ?_⟩
      -- whatever was measured earlier, it went to the same byte
      rw [hreply, tail_reply_after, hr.reply]
      rfl

/-! ### Asking for the answer -/

variable {r r' : HeadlessRobot} {m m' : Memory} {base d : Nat} {channel count : Int32}
  {answer : List UInt8}

theorem Call.run_look {α : Type} (f : HeadlessRobot → α) (s : HeadlessRobot × Memory) :
    (Call.look f).run s = (.ok (f s.1), s) := rfl

theorem Call.run_update_ok_iff {f : Memory → Except MemoryError Memory}
    {s : HeadlessRobot × Memory} :
    (Call.update f).run (r, m) = (.ok (), s) ↔ ∃ m', f m = .ok m' ∧ (r, m') = s := by
  rw [Call.run_update]
  cases f m with
  | error e => exact ⟨nofun, nofun⟩
  | ok m₁ =>
      constructor
      · intro hrun
        cases hrun
        exact ⟨m₁, rfl, rfl⟩
      · rintro ⟨_, hm, rfl⟩
        cases hm
        rfl

theorem eq_check_of_read {request : Syscall.Request}
    (h : Syscall.Request.read m Syscall.lowSpeedCheckStatus base = .ok request) :
    ∃ channel, request = .lowSpeedCheckStatus channel := by
  unfold Syscall.Request.read at h
  dsimp only at h
  rw [if_neg (by decide), if_neg (by decide), if_neg (by decide), if_neg (by decide), if_pos rfl]
    at h
  obtain ⟨channel, _, hrequest⟩ := bind_eq_ok_iff.1 h
  cases hrequest
  exact ⟨channel, rfl⟩

theorem run_check : (perform base (.lowSpeedCheckStatus channel)).run (r, m)
    = (Call.update (·.setScalar (base + 3) (Int32.ofNat r.ready))).run (r, m) := by
  unfold perform
  rw [Keeps.run_bind, Call.run_look]

/-- A slot of any type can hold how many bytes are ready. -/
theorem truncate_ready {t : SlotType} (ht : t.isScalar = true) (hready : r.ready ≤ 1) :
    t.truncate (Int32.ofNat r.ready) = Int32.ofNat r.ready := by
  obtain hnone | hone : r.ready = 0 ∨ r.ready = 1 := by omega
  · rw [hnone]
    exact t.truncate_zero
  · rw [hone]
    exact SlotType.truncate_one ht

/-- A status check that succeeds stores how many bytes are ready. The status comes after this and
does not overwrite it. -/
theorem scalar_of_check (hready : r.ready ≤ 1)
    (hcheck : Robot.syscall Syscall.lowSpeedCheckStatus base r m = (.ok (), r', m'))
    (hapart : m.Apart (base + 3) (base + Syscall.statusField)) :
    m'.scalar (base + 3) = .ok (Int32.ofNat r.ready) := by
  cases hrequest : Syscall.Request.read m Syscall.lowSpeedCheckStatus base with
  | error e =>
      rw [syscall_of_unread hrequest] at hcheck
      cases hcheck
  | ok request =>
      obtain ⟨channel, rfl⟩ := eq_check_of_read hrequest
      change (call _ base).run (r, m) = _ at hcheck
      rw [run_call hrequest] at hcheck
      obtain ⟨_, s, hperform, hrest⟩ := Keeps.run_bind_ok_iff.1 hcheck
      rw [run_check] at hperform
      obtain ⟨m₁, hset, rfl⟩ := Call.run_update_ok_iff.1 hperform
      obtain ⟨m₂, hstatus, hdone⟩ := Call.run_update_ok_iff.1 hrest
      cases hdone
      obtain ⟨t, ht, hread⟩ := Memory.scalar_of_setScalar hset
      have hapart₁ := hapart.congr (Memory.storesOnly_setScalar hset).toc
      have hscalar : t.isScalar = true :=
        SlotType.isScalar_of_isFlat (Memory.isFlat_of_setScalar hset ht)
      rw [(Memory.storesOnly_setScalar hstatus).scalar hapart₁, hread,
        truncate_ready hscalar hready]

def fetched (r : HeadlessRobot) (m : Memory) (d : Nat) : Memory :=
  (m.resizeBlock d r.ready).modifyBlock d fun b => { b with data := b.data.patch 0 r.reply.toList }

theorem setArrayData_fetched (hd : m.blockIndex (base + 3) = .ok d)
    (hready : r.ready ≤ Memory.maxArrayLength) :
    (m.resizeBlock d r.ready).setArrayData (base + 3) r.reply.toList = .ok (r.fetched m d) := by
  have hresize := Memory.changesOnly_setArrayLength (Memory.setArrayLength_eq_ok hd hready)
  rw [Memory.setArrayData, hresize.blockIndex, hd]
  rfl

theorem blockIndex_fetched (hd : m.blockIndex (base + 3) = .ok d)
    (hready : r.ready ≤ Memory.maxArrayLength) :
    (r.fetched m d).blockIndex (base + 3) = .ok d := by
  have hresize := Memory.changesOnly_setArrayLength (Memory.setArrayLength_eq_ok hd hready)
  have hcopy := Memory.changesOnly_setArrayData (setArrayData_fetched hd hready)
  rw [hcopy.blockIndex, hresize.blockIndex, hd]

theorem run_fetch (hd : m.blockIndex (base + 3) = .ok d)
    (hready : r.ready ≤ Memory.maxArrayLength) :
    (perform base (.lowSpeedRead channel count)).run (r, m)
      = (.ok (), r.log (.lowSpeedRead channel ((r.fetched m d).block d).data.toList),
        r.fetched m d) := by
  have hdata : (Call.ask (·.arrayData (base + 3))).run (r, r.fetched m d)
      = (.ok ((r.fetched m d).block d).data, (r, r.fetched m d)) := by
    change ((r.fetched m d).arrayData (base + 3), (r, r.fetched m d)) = _
    rw [Memory.arrayData, blockIndex_fetched hd hready]
    rfl
  unfold perform
  rw [Keeps.run_bind, Call.run_look]
  dsimp only
  rw [Keeps.run_bind, Call.run_look]
  dsimp only
  rw [Keeps.run_bind, Call.run_update, Memory.setArrayLength_eq_ok hd hready]
  dsimp only
  rw [Keeps.run_bind, Call.run_update, setArrayData_fetched hd hready]
  dsimp only
  rw [Keeps.run_bind, hdata]
  rfl

theorem block_fetched (hm : m.Sized) (hd : m.blockIndex (base + 3) = .ok d)
    (hsize : (m.block d).vector.elementSize = 1) (hr : r.Holds answer) :
    (r.fetched m d).block d
      = ⟨{ (m.block d).vector with elementCount := UInt16.ofNat answer.length },
        answer.toArray⟩ := by
  have hlt : d < (m.resizeBlock d r.ready).blocks.size := by
    simpa [Memory.resizeBlock, Memory.modifyBlock] using Memory.blockIndex_lt hd
  have hready : r.ready ≤ Memory.maxArrayLength := Nat.le_trans hr.ready_le (by decide)
  have hlength : ((m.block d).data.resize (r.ready * 1)).size = answer.length := by
    rw [Buffer.size_resize, Nat.mul_one, hr.ready]
  have hbytes : (m.block d).vector.elementSize.toNat = 1 := by
    rw [hsize]
    rfl
  rw [fetched, Memory.block_modifyBlock _ _ _ _ hlt, if_pos rfl, Memory.block_resizeBlock hd,
    if_pos rfl, Block.resize_eq (hm.block hd) hready, hr.reply]
  dsimp only
  rw [hbytes, Buffer.patch_append hlength, hr.ready]

structure Offers (r : HeadlessRobot) (answer : List UInt8) : Prop where
  ready : r.ready = answer.length
  reply : r.reply.toList = answer ++ List.replicate (16 - answer.length) 0
  /-- A status check that succeeds stores how many bytes there are, unless the status overwrites
  it. -/
  check {base : Nat} {m m' : Memory} {r' : HeadlessRobot} :
    Robot.syscall Syscall.lowSpeedCheckStatus base r m = (.ok (), r', m') →
    m.Apart (base + 3) (base + Syscall.statusField) →
    m'.scalar (base + 3) = .ok (Int32.ofNat answer.length)
  /-- A read into an array of bytes leaves the answer there and logs it, whichever channel it names,
  and also if the status cannot be stored. -/
  read {base d : Nat} {m m' : Memory} {channel count : Int32} {result : Except MemoryError Unit}
    {r' : HeadlessRobot} :
    m.Sized →
    Syscall.Request.read m Syscall.lowSpeedRead base = .ok (.lowSpeedRead channel count) →
    m.blockIndex (base + 3) = .ok d → (m.block d).vector.elementSize = 1 →
    Robot.syscall Syscall.lowSpeedRead base r m = (result, r', m') →
    m'.block d = ⟨{ (m.block d).vector with elementCount := UInt16.ofNat answer.length },
      answer.toArray⟩ ∧
    (m.Apart (base + 3) (base + Syscall.statusField) →
      m'.arrayData (base + 3) = .ok answer.toArray) ∧
    r'.events = r.events.push (.lowSpeedRead channel answer)

theorem Holds.offers (h : r.Holds answer) : r.Offers answer where
  ready := h.ready
  reply := h.reply
  check hcheck hapart := by
    rw [scalar_of_check h.ready_le hcheck hapart, h.ready]
  read {base d m m' _ _ _ r'} hm hrequest hd hsize hcall := by
    have hready : r.ready ≤ Memory.maxArrayLength := Nat.le_trans h.ready_le (by decide)
    have hfetched := block_fetched hm hd hsize h
    obtain ⟨hrobot, hstores⟩ := syscall_of_read (r := r) hrequest
    rw [hcall, run_fetch hd hready] at hrobot hstores
    have hblock : m'.block d = (r.fetched m d).block d := by
      rw [Memory.block, Memory.block, hstores.blocks]
    refine ⟨hblock.trans hfetched, fun hapart => ?_, ?_⟩
    · have hindex := hstores.blockIndex (hapart.congr rfl)
      rw [Memory.arrayData, hindex, blockIndex_fetched hd hready]
      change Except.ok (m'.block d).data = _
      rw [hblock, hfetched]
    · change r' = r.log _ at hrobot
      rw [hrobot, hfetched]
      rfl

/-- After any history of the robot, the bus offers the answer to the last write that asked for a
measurement: a measurement of the sensor at the channel of this write, as it was at this time.
Before the first such write the answer is empty. -/
theorem offers_after (values : List Float32) (uses : List Use) :
    (∃ answer, Answers (ofSensors values) uses answer) ∧
    ∀ answer, Answers (ofSensors values) uses answer →
      ((ofSensors values).after uses).Offers answer :=
  ⟨exists_answers _ uses, fun _ h => (holds_after (holds_ofSensors values) h).offers⟩

/-- A memory whose entries are the cluster of a low-speed write or read at channel 3. Its array
holds the given bytes. -/
def busMemory (bytes : List UInt8) : Memory where
  toc := #[⟨.cluster, 0, 5⟩, ⟨.sbyte, 0, 0⟩, ⟨.ubyte, 0, 1⟩, ⟨.array, 0, 2⟩, ⟨.ubyte, 0, 0⟩,
    ⟨.ubyte, 0, 4⟩]
  statics := #[0, 3, 1, 0, 1]
  blocks := #[⟨⟨0, 10, 2, 0, 0⟩, #[]⟩,
    ⟨⟨0, 1, UInt16.ofNat bytes.length, 0, 0⟩, bytes.toArray⟩]
  slots := [1, 2, 3, 5]

def checkMemory : Memory where
  toc := #[⟨.cluster, 0, 3⟩, ⟨.sbyte, 0, 0⟩, ⟨.ubyte, 0, 1⟩, ⟨.ubyte, 0, 2⟩]
  statics := #[0, 1, 9]
  blocks := #[⟨⟨0, 10, 1, 0, 0⟩, #[]⟩]
  slots := [1, 2, 3]

/-- A measurement at channel 3. After it the sensor gets another value, and there is a write that
does not ask. -/
def echo : List Use :=
  [.setSensor 3 77, .syscall Syscall.lowSpeedWrite 0 (busMemory [0x02, 0x42, 0x01]),
    .setSensor 3 5, .syscall Syscall.lowSpeedWrite 0 (busMemory [0x02, 0x41])]

theorem offers_after_echo :
    let r := (ofSensors []).after echo
    Answers (ofSensors []) echo [77] ∧ r.ready = 1 ∧
    (∃ r' m', Robot.syscall Syscall.lowSpeedCheckStatus 0 r checkMemory = (.ok (), r', m') ∧
      checkMemory.Apart 3 1 ∧ m'.scalar 3 = .ok 1) ∧
    ∃ result r' m',
      Robot.syscall Syscall.lowSpeedRead 0 r (busMemory [7, 8]) = (result, r', m') ∧
      m'.block 1 = ⟨⟨0, 1, 1, 0, 0⟩, #[77]⟩ ∧
      r'.events = r.events.push (.lowSpeedRead 3 [77]) := by
  intro r
  have hsensor : ((ofSensors []).after [.setSensor 3 77]).sensor 3 = 77 := rfl
  have hbyte : IsMeasurement (((ofSensors []).after [.setSensor 3 77]).sensor 3) 77 := by
    rw [hsensor]
    refine ⟨?_, ?_, ?_, ?_⟩ <;> decide
  have hanswers : Answers (ofSensors []) echo [77] := by
    refine @Answers.measured _ [.setSensor 3 77] _ _ 3 _ rfl ?_ hbyte
    simp only [List.forall_mem_cons]
    exact ⟨rfl, rfl, List.forall_mem_nil _⟩
  have hoffers := (offers_after [] echo).2 [77] hanswers
  have hapart : checkMemory.Apart 3 1 := by
    rintro i ⟨t, ht, hstart, _⟩ ⟨t', ht', _, hstop⟩
    obtain rfl : ⟨.ubyte, 0, 2⟩ = t := Option.some.inj ht
    obtain rfl : ⟨.sbyte, 0, 0⟩ = t' := Option.some.inj ht'
    exact Nat.not_lt.2 hstart (Nat.lt_trans hstop (by decide))
  rcases hcheck : Robot.syscall Syscall.lowSpeedCheckStatus 0 r checkMemory with ⟨result, r', m'⟩
  rcases hread : Robot.syscall Syscall.lowSpeedRead 0 r (busMemory [7, 8]) with ⟨result₂, r₂, m₂⟩
  obtain ⟨hblock, _, hevents⟩ := hoffers.read (by decide) rfl rfl rfl hread
  have hresult : result = .ok () := by
    cases hcheck
    rfl
  rw [hresult] at hcheck
  exact ⟨hanswers, hoffers.ready, ⟨r', m', by rw [hresult], hapart, hoffers.check hcheck hapart⟩,
    result₂, r₂, m₂, rfl, hblock, hevents⟩

end HeadlessRobot

end BrickMachine
