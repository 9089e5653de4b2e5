import BrickMachine.Proofs.Bounds.Elements
import BrickMachine.Robot.Headless

/-!
# System calls within their bounds

The parameters of a system call are entries behind that of its cluster, so each of them is a sum. A
sound name is cut and overwritten by indices that count from its end; only names that are long
enough come to this. The reply of the low-speed bus is copied as far as both the reply and the
program's array reach.
-/

namespace BrickMachine

namespace Guarded

open GuardedExcept

variable {m : Memory} {base : Nat}

/-! ### Sound names -/

def replaceEnding (name : List Char) : Guarded (List Char) := do
  let front ← sub name.length 3
  let room ← slice name front name.length
  let ending ← copy room SoundName.extension
  .ok (name.take front ++ ending)

theorem replaceEnding_eq {name : List Char} (h : 3 ≤ name.length) :
    replaceEnding name = .ok (name.take (name.length - 3) ++ SoundName.extension) := by
  have hroom : ((name.drop (name.length - 3)).take (name.length - (name.length - 3))).length
      = SoundName.extension.length := by
    have hthree : SoundName.extension.length = 3 := rfl
    rw [List.length_take, List.length_drop, hthree]
    omega
  unfold replaceEnding
  rw [bind_eq (sub_eq h), bind_eq (slice_eq (Nat.sub_le _ _) (Nat.le_refl _)),
    bind_eq (copy_eq hroom)]

def soundName (bytes : List UInt8) : Guarded (Option (List Char)) :=
  if SoundName.maxLength < bytes.length ∨ bytes.length < 4 then
    .ok none
  else do
    let last ← sub bytes.length 1
    let zero ← read bytes last
    if zero = 0 then do
      let stem ← slice bytes 0 last
      let name ← replaceEnding (stem.map SoundName.clean)
      .ok (some name)
    else
      .ok none

/-- A name that is neither too long nor too short has the indices that count from its end. -/
theorem soundName_eq (bytes : List UInt8) : soundName bytes = .ok (SoundName.ofBytes? bytes) := by
  have hthree : SoundName.extension.length = 3 := rfl
  unfold soundName SoundName.ofBytes?
  by_cases hlength : SoundName.maxLength < bytes.length ∨ bytes.length < 4
  · have hname : ¬ (SoundName.extension.length < bytes.length ∧
        bytes.length ≤ SoundName.maxLength ∧ bytes.getLast? = some 0) := by
      rintro ⟨hlong, hshort, _⟩
      omega
    rw [if_pos hlength, if_neg hname]
  · obtain ⟨stem, zero, rfl⟩ : ∃ stem zero, bytes = stem ++ [zero] := by
      rcases List.eq_nil_or_concat bytes with rfl | h
      · exact absurd (Or.inr (by decide)) hlength
      · simpa using h
    rw [if_neg hlength]
    rw [List.length_append, List.length_singleton] at hlength ⊢
    rw [bind_eq (sub_eq (by omega)), Nat.add_sub_cancel]
    rw [bind_eq (read_eq List.getElem?_concat_length), List.getLast?_concat, List.dropLast_concat]
    by_cases hzero : zero = 0
    · have hstem : slice (stem ++ [zero]) 0 stem.length = .ok stem := by
        rw [slice_eq (Nat.zero_le _) (by simp), List.drop_zero, Nat.sub_zero, List.take_left]
      have hlong : 3 ≤ (stem.map SoundName.clean).length := by
        rw [List.length_map]
        omega
      rw [if_pos hzero, if_pos ⟨by omega, by omega, congrArg some hzero⟩]
      rw [bind_eq hstem, bind_eq (replaceEnding_eq hlong)]
      rw [SoundName.cleanAll, hthree, List.length_map, List.map_take]
    · have hother : ¬ (SoundName.extension.length < stem.length + 1 ∧
          stem.length + 1 ≤ SoundName.maxLength ∧ some zero = some 0) :=
        fun h => hzero (Option.some.inj h.2.2)
      rw [if_neg hzero, if_neg hother]

/-! ### Requests -/

def field {α : Type} (access : Nat → GuardedAccess α) (base k : Nat) : GuardedAccess α := do
  let e ← guard (add base k)
  access e

theorem field_agrees {α : Type} {access : Nat → GuardedAccess α} {x : Except MemoryError α}
    {k : Nat} (hbase : base < 65536) (hk : k < 65536) (h : (access (base + k)).Agrees x) :
    (field access base k).Agrees x :=
  Agrees.guard_bind (add_eq (by omega)) h

def request (m : Memory) (id : UInt16) (base : Nat) : GuardedAccess Syscall.Request :=
  let scalar := field (scalar m) base
  let data := field (arrayData m) base
  if id = Syscall.soundPlayFile then do
    let name ← data 2
    let file ← guard (soundName name.toList)
    let looping ← scalar 4
    let quarters ← scalar 5
    pure (.playFile (file.map String.ofList) (looping != 0) (Syscall.volume quarters))
  else if id = Syscall.soundPlayTone then do
    let frequency ← scalar 2
    let duration ← scalar 3
    let looping ← scalar 4
    let quarters ← scalar 5
    pure (.playTone frequency duration (looping != 0) (Syscall.volume quarters))
  else if id = Syscall.lowSpeedWrite then do
    let channel ← scalar 2
    let bytes ← data 3
    let bytesExpected ← scalar 5
    pure (.lowSpeedWrite channel bytes.toList bytesExpected)
  else if id = Syscall.lowSpeedRead then do
    let channel ← scalar 2
    let length ← scalar 5
    pure (.lowSpeedRead channel length)
  else if id = Syscall.lowSpeedCheckStatus then do
    let channel ← scalar 2
    pure (.lowSpeedCheckStatus channel)
  else
    pure (.unsupported id)

theorem request_agrees (m : Memory) (id : UInt16) (hbase : base < 65536) :
    (request m id base).Agrees (Syscall.Request.read m id base) := by
  have hscalar (k : Nat) (hk : k < 65536) :
      (field (scalar m) base k).Agrees (m.scalar (base + k)) :=
    field_agrees hbase hk (scalar_agrees m (base + k))
  have hdata (k : Nat) (hk : k < 65536) :
      (field (arrayData m) base k).Agrees (m.arrayData (base + k)) :=
    field_agrees hbase hk (arrayData_agrees m (base + k))
  unfold request Syscall.Request.read
  dsimp only
  split
  · exact (hdata 2 (by decide)).bind fun name _ =>
      Agrees.guard_bind (soundName_eq name.toList) <|
        (hscalar 4 (by decide)).bind fun looping _ =>
          (hscalar 5 (by decide)).bind fun quarters _ => Agrees.pure _
  split
  · exact (hscalar 2 (by decide)).bind fun frequency _ =>
      (hscalar 3 (by decide)).bind fun duration _ =>
        (hscalar 4 (by decide)).bind fun looping _ =>
          (hscalar 5 (by decide)).bind fun quarters _ => Agrees.pure _
  split
  · exact (hscalar 2 (by decide)).bind fun channel _ =>
      (hdata 3 (by decide)).bind fun bytes _ =>
        (hscalar 5 (by decide)).bind fun expected _ => Agrees.pure _
  split
  · exact (hscalar 2 (by decide)).bind fun channel _ =>
      (hscalar 5 (by decide)).bind fun length _ => Agrees.pure _
  split
  · exact (hscalar 2 (by decide)).bind fun channel _ => Agrees.pure _
  · exact Agrees.pure _

/-! ### The reply of the low-speed bus -/

/-- The front of a reply written over the front of an array. Neither is asked for more than it
has. -/
def copyReply (m : Memory) (e : Nat) (reply : List UInt8) : GuardedAccess Memory := do
  let d ← blockIndex m e
  let data ← guard (read (contents m) d)
  let n := min data.size 16
  let room ← guard (slice data.toList 0 n)
  let front ← guard (slice reply 0 n)
  let bytes ← guard (copy room front)
  pure (m.modifyBlock d fun b => { b with data := b.data.patch 0 bytes })

/-- What does not fit into a buffer is not written. -/
theorem patch_take (b : Buffer) (xs : List UInt8) {n : Nat} (h : min b.size xs.length ≤ n) :
    b.patch 0 (xs.take n) = b.patch 0 xs := by
  apply Array.ext_getElem?
  intro i
  rw [Buffer.getElem?_patch, Buffer.getElem?_patch, List.length_take, Nat.zero_add, Nat.zero_add,
    Nat.sub_zero]
  by_cases hi : i < b.size ∧ i < xs.length
  · rw [if_pos (by omega), if_pos (by omega), List.getElem?_take_of_lt (by omega)]
  · rw [if_neg (by omega), if_neg (by omega)]

theorem copyReply_agrees (m : Memory) (e : Nat) {reply : List UInt8} (hreply : reply.length = 16) :
    (copyReply m e reply).Agrees (m.setArrayData e reply) := by
  apply (blockIndex_agrees m e).map
  intro d hd
  have hblock := Memory.blockIndex_lt hd
  have hfront : min (m.block d).data.size 16 ≤ reply.length := by omega
  have hroom : min (m.block d).data.size 16 ≤ (m.block d).data.toList.length := by
    rw [Array.length_toList]
    omega
  apply Agrees.guard_bind (read_contents hblock)
  apply Agrees.guard_bind (slice_eq (Nat.zero_le _) hroom)
  apply Agrees.guard_bind (slice_eq (Nat.zero_le _) hfront)
  apply Agrees.guard_bind (copy_eq (by simp only [List.drop_zero, List.length_take]; omega))
  apply Agrees.pure_of_eq
  apply modifyBlock_congr
  rw [List.drop_zero, Nat.sub_zero, patch_take _ _ (by omega)]

end Guarded

/-! ### The headless robot -/

abbrev GuardedCall (α : Type) := GuardedEffect (HeadlessRobot × Memory) MemoryError α

namespace GuardedCall

open GuardedEffect HeadlessRobot Guarded

variable {α : Type} {r : HeadlessRobot} {m : Memory}

def change (c : GuardedChange α) : GuardedCall α := fun (r, m) =>
  (c.run m).map fun (result, m') => (result, r, m')

theorem ask_agrees {f : Memory → GuardedAccess α} {q : Memory → Except MemoryError α}
    (h : (f m).Agrees (q m)) : Agrees (r, m) (change (.ask f)) (Call.ask q) := by
  have hask : (GuardedChange.ask f).run m = _ := GuardedChange.ask_agrees h
  change ((GuardedChange.ask f).run m).map _ = _
  rw [hask]
  rfl

theorem update_agrees {f : Memory → GuardedAccess Memory} {q : Memory → Except MemoryError Memory}
    (h : (f m).Agrees (q m)) : Agrees (r, m) (change (.update f)) (Call.update q) := by
  have hupdate : (GuardedChange.update f).run m = _ := GuardedChange.update_agrees h
  unfold Agrees Call.update
  change ((GuardedChange.update f).run m).map _ = _
  rw [hupdate]
  unfold Change.update
  simp only [ExceptT.run]
  cases q m <;> rfl

def perform (base : Nat) : Syscall.Request → GuardedCall Unit
  | .lowSpeedRead channel _ => do
    let ready ← safe (Call.look (·.ready))
    let reply ← safe (Call.look (·.reply))
    change (.update fun m => field (setArrayLength m · ready) base 3)
    change (.update fun m => field (copyReply m · reply.toList) base 3)
    let bytes ← change (.ask fun m => field (arrayData m) base 3)
    safe (Call.act (·.log (.lowSpeedRead channel bytes.toList)))
  | .lowSpeedCheckStatus _ => do
    let ready ← safe (Call.look (·.ready))
    change (.update fun m => field (setScalar m · (Int32.ofNat ready)) base 3)
  | request => safe (HeadlessRobot.perform base request)

theorem perform_agrees {base : Nat} (hbase : base < 65536) (request : Syscall.Request)
    (s : HeadlessRobot × Memory) :
    Agrees s (perform base request) (HeadlessRobot.perform base request) := by
  have hthree : 3 < 65536 := by decide
  cases request with
  | lowSpeedRead channel length =>
      apply (Agrees.safe _).bind
      intro ready _ _
      apply (Agrees.safe _).bind
      rintro reply ⟨r, m⟩ _
      have hlength := setArrayLength_agrees m (base + 3) ready
      apply (update_agrees (field_agrees hbase hthree hlength)).bind
      rintro _ ⟨r, m⟩ _
      have hreply : reply.toList.length = 16 := Vector.length_toList
      apply (update_agrees (field_agrees hbase hthree (copyReply_agrees m (base + 3) hreply))).bind
      rintro _ ⟨r, m⟩ _
      apply (ask_agrees (field_agrees hbase hthree (arrayData_agrees m (base + 3)))).bind
      intro bytes t _
      exact Agrees.safe _
  | lowSpeedCheckStatus channel =>
      apply (Agrees.safe _).bind
      rintro ready ⟨r, m⟩ _
      exact update_agrees
        (field_agrees hbase hthree (setScalar_agrees m (base + 3) (Int32.ofNat ready)))
  | _ => exact Agrees.safe _

def call (id : UInt16) (base : Nat) : GuardedCall Unit := do
  let request ← change (.ask (Guarded.request · id base))
  perform base request
  change (.update fun m => field (setScalar m · 0) base Syscall.statusField)

theorem call_agrees {base : Nat} (hbase : base < 65536) (id : UInt16) (s : HeadlessRobot × Memory) :
    Agrees s (call id base) (HeadlessRobot.call id base) := by
  obtain ⟨r, m⟩ := s
  apply (ask_agrees (request_agrees m id hbase)).bind
  intro request t _
  apply (perform_agrees hbase request t).bind
  rintro _ ⟨r, m⟩ _
  have hstatus : Syscall.statusField < 65536 := by decide
  exact update_agrees (field_agrees hbase hstatus (setScalar_agrees m _ 0))

end GuardedCall

end BrickMachine
