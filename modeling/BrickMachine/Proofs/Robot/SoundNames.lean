import BrickMachine.Proofs.Robot.History

/-!
# Sound file names

Whatever bytes a program gives as the name of a sound file, the name that is accepted for them is
made of a few plain characters and ends in the extension. So it names a file, and not one in another
directory, and it is what is accepted for its own bytes: cleaning a name twice is cleaning it once.

The only files that a headless robot logs are those of requests, and the only names that requests
have are accepted ones. Hence no history of a robot brings any other name into its log.
-/

namespace BrickMachine

namespace SoundName

variable {bytes stem : List UInt8} {name : List Char} {c : Char} {i : Nat}

/-! ### Characters -/

def IsPlain (c : Char) : Prop :=
  'A' ≤ c ∧ c ≤ 'Z' ∨ 'a' ≤ c ∧ c ≤ 'z' ∨ '0' ≤ c ∧ c ≤ '9' ∨
    c = ' ' ∨ c = '.' ∨ c = '!' ∨ c = '-' ∨ c = '_'

instance (c : Char) : Decidable (IsPlain c) := inferInstanceAs (Decidable (_ ∨ _))

theorem isAlphanum_iff :
    c.isAlphanum = true ↔ 'A' ≤ c ∧ c ≤ 'Z' ∨ 'a' ≤ c ∧ c ≤ 'z' ∨ '0' ≤ c ∧ c ≤ '9' := by
  change ((decide ('A' ≤ c ∧ c ≤ 'Z') || decide ('a' ≤ c) && decide (c ≤ 'z')) ||
    decide ('0' ≤ c) && decide (c ≤ '9')) = true ↔ _
  simp [or_assoc]

theorem isAllowed_iff : isAllowed c = true ↔ IsPlain c := by
  simp [isAllowed, IsPlain, isAlphanum_iff, or_assoc]

theorem isPlain_clean (b : UInt8) : IsPlain (clean b) := by
  unfold clean
  split
  case isTrue h => exact isAllowed_iff.1 h
  case isFalse => decide

theorem isPlain_extension (h : c ∈ extension) : IsPlain c := by
  simp only [extension, List.mem_cons, List.not_mem_nil, or_false] at h
  rcases h with rfl | rfl | rfl <;> decide

/-- Plain characters are ASCII. -/
theorem IsPlain.toNat_lt (h : IsPlain c) : c.toNat < 128 := by
  simp only [IsPlain, Char.le_def, UInt32.le_iff_toNat_le] at h
  change (65 ≤ c.toNat ∧ c.toNat ≤ 90) ∨ (97 ≤ c.toNat ∧ c.toNat ≤ 122) ∨
    (48 ≤ c.toNat ∧ c.toNat ≤ 57) ∨ _ at h
  rcases h with h | h | h | rfl | rfl | rfl | rfl | rfl
  · omega
  · omega
  · omega
  all_goals decide

/-- Cleaning leaves the byte of a plain character alone. -/
theorem IsPlain.clean_eq (h : IsPlain c) : clean (UInt8.ofNat c.toNat) = c := by
  have hchar : charOf (UInt8.ofNat c.toNat) = c := by
    rw [charOf, UInt8.toNat_ofNat_of_lt' (Nat.lt_trans h.toNat_lt (by decide)), Char.ofNat_toNat]
  rw [clean, hchar, if_pos (isAllowed_iff.2 h)]

theorem IsPlain.utf8_eq (h : IsPlain c) :
    String.utf8EncodeChar c = [UInt8.ofNat c.toNat] :=
  if_pos (Nat.le_of_lt_succ h.toNat_lt)

/-! ### Names -/

/-- The bytes of a name as a program gives them, with the zero at their end. -/
def terminated (name : List Char) : List UInt8 := name.flatMap String.utf8EncodeChar ++ [0]

structure IsName (name : List Char) : Prop where
  long : 3 ≤ name.length
  short : name.length ≤ 19
  plain : ∀ c ∈ name, IsPlain c
  ending : ['w', 'a', 'v'] <:+ name

/-- A name that is no path, and is what is accepted for itself. -/
structure Safe (name : List Char) : Prop extends IsName name where
  noSlash : '/' ∉ name
  noBackslash : '\\' ∉ name
  noZero : '\x00' ∉ name
  stable : ofBytes? (terminated name) = some name

/-- Before the extension, the name has the characters of plain bytes and replaces the others. -/
structure Cleans (bytes : List UInt8) (name : List Char) : Prop where
  length : name.length + 1 = bytes.length
  kept (i : Nat) (b : UInt8) : i + 4 < bytes.length → bytes[i]? = some b →
    IsPlain (Char.ofNat b.toNat) → name[i]? = some (Char.ofNat b.toNat)
  replaced (i : Nat) (b : UInt8) : i + 4 < bytes.length → bytes[i]? = some b →
    ¬ IsPlain (Char.ofNat b.toNat) → name[i]? = some '_'

theorem ofBytes?_eq_some_iff :
    ofBytes? bytes = some name ↔
      ∃ stem, bytes = stem ++ [0] ∧ 3 ≤ stem.length ∧ stem.length ≤ 19 ∧ cleanAll stem = name := by
  simp only [ofBytes?, Option.ite_none_right_eq_some, Option.some.injEq, List.getLast?_eq_some_iff]
  constructor
  · rintro ⟨⟨hlong, hshort, stem, rfl⟩, hname⟩
    simp [extension, maxLength] at hlong hshort hname
    exact ⟨stem, rfl, by omega, by omega, hname⟩
  · rintro ⟨stem, rfl, hlong, hshort, hname⟩
    simp [extension, maxLength]
    exact ⟨⟨by omega, by omega⟩, hname⟩

theorem isSome_ofBytes?_iff :
    (ofBytes? bytes).isSome ↔
      4 ≤ bytes.length ∧ bytes.length ≤ 20 ∧ bytes.getLast? = some 0 := by
  simp [ofBytes?, extension, maxLength, Nat.succ_le_iff]

theorem length_cleanAll (h : 3 ≤ stem.length) : (cleanAll stem).length = stem.length := by
  simp [cleanAll, extension]
  omega

theorem getElem?_cleanAll (h : i + 3 < stem.length) :
    (cleanAll stem)[i]? = stem[i]?.map clean := by
  have hfront : i < ((stem.take (stem.length - extension.length)).map clean).length := by
    simp [extension]
    omega
  rw [cleanAll, List.getElem?_append_left hfront, List.getElem?_map, List.getElem?_take_of_lt]
  simp [extension]
  omega

theorem isName_cleanAll (hlong : 3 ≤ stem.length) (hshort : stem.length ≤ 19) :
    IsName (cleanAll stem) where
  long := by rwa [length_cleanAll hlong]
  short := by rwa [length_cleanAll hlong]
  plain c hc := by
    rcases List.mem_append.1 hc with hc | hc
    · obtain ⟨b, _, rfl⟩ := List.mem_map.1 hc
      exact isPlain_clean b
    · exact isPlain_extension hc
  ending := List.suffix_append _ _

/-- A name of plain characters is already clean. -/
theorem IsName.cleanAll_eq (h : IsName name) :
    cleanAll (name.map fun c => UInt8.ofNat c.toNat) = name := by
  obtain ⟨front, rfl⟩ := h.ending
  have hfront : front.map (clean ∘ fun c => UInt8.ofNat c.toNat) = front.map id :=
    List.map_congr_left fun c hc => (h.plain c (List.mem_append_left _ hc)).clean_eq
  simp [cleanAll, extension, hfront]

theorem IsName.terminated_eq (h : IsName name) :
    terminated name = (name.map fun c => UInt8.ofNat c.toNat) ++ [0] := by
  rw [terminated, List.map_eq_flatMap, List.flatMap_def, List.flatMap_def,
    List.map_congr_left fun c hc => (h.plain c hc).utf8_eq]

theorem IsName.safe (h : IsName name) : Safe name where
  toIsName := h
  noSlash hmem := absurd (h.plain _ hmem) (by decide)
  noBackslash hmem := absurd (h.plain _ hmem) (by decide)
  noZero hmem := absurd (h.plain _ hmem) (by decide)
  stable := by
    refine ofBytes?_eq_some_iff.2 ⟨_, h.terminated_eq, ?_, ?_, h.cleanAll_eq⟩
    · simpa using h.long
    · simpa using h.short

theorem safe_of_ofBytes? (h : ofBytes? bytes = some name) : Safe name := by
  obtain ⟨stem, -, hlong, hshort, rfl⟩ := ofBytes?_eq_some_iff.1 h
  exact (isName_cleanAll hlong hshort).safe

theorem cleans_of_ofBytes? (h : ofBytes? bytes = some name) : Cleans bytes name := by
  obtain ⟨stem, rfl, hlong, -, rfl⟩ := ofBytes?_eq_some_iff.1 h
  have hbefore {i : Nat} {b : UInt8} (hi : i + 4 < (stem ++ [0]).length)
      (hb : (stem ++ [0])[i]? = some b) : (cleanAll stem)[i]? = some (clean b) := by
    rw [List.length_append, List.length_singleton] at hi
    rw [List.getElem?_append_left (by omega)] at hb
    rw [getElem?_cleanAll (Nat.lt_of_succ_lt_succ hi), hb, Option.map_some]
  constructor
  case length => simp [length_cleanAll hlong]
  case kept =>
    intro i b hi hb hplain
    rw [hbefore hi hb, clean, charOf, if_pos (isAllowed_iff.2 hplain)]
  case replaced =>
    intro i b hi hb hplain
    rw [hbefore hi hb, clean, charOf, if_neg (mt isAllowed_iff.1 hplain)]

end SoundName

namespace Event

def IsSafe : Event → Prop
  | playFile file _ _ => SoundName.Safe file.toList
  | _ => True

def IsOf (request : Syscall.Request) : Event → Prop
  | playFile file looping volume => request = .playFile (some file) looping volume
  | _ => True

end Event

/-- A request is for a file with an accepted name, or not for a file. -/
theorem Syscall.Request.isSafe_of_read {m : Memory} {id : UInt16} {base : Nat}
    {request : Syscall.Request} {event : Event} (h : read m id base = .ok request)
    (hevent : event.IsOf request) : event.IsSafe := by
  cases event with
  | playFile file looping volume =>
      obtain rfl : request = .playFile (some file) looping volume := hevent
      obtain rfl : soundPlayFile = id := named_read m id base _ h
      simp only [read, if_true, bind_eq_ok_iff, Except.ok.injEq, Request.playFile.injEq] at h
      obtain ⟨name, -, _, -, _, -, hfile, -⟩ := h
      obtain ⟨chars, hchars, rfl⟩ := Option.map_eq_some_iff.1 hfile
      simpa [Event.IsSafe] using SoundName.safe_of_ofBytes? hchars
  | _ => trivial

namespace HeadlessRobot

def Adds (p : Event → Prop) (r r' : HeadlessRobot) : Prop :=
  ∀ event ∈ r'.events, event ∈ r.events ∨ p event

variable {p : Event → Prop} {r r' : HeadlessRobot}

theorem Adds.refl (p : Event → Prop) (r : HeadlessRobot) : r.Adds p r := fun _ => Or.inl

theorem adds_of_push {event : Event} (h : r'.events = r.events.push event) (hp : p event) :
    r.Adds p r' := by
  intro e he
  rw [h, Array.mem_push] at he
  rcases he with he | rfl
  · exact Or.inl he
  · exact Or.inr hp

theorem events_lowSpeedWrite (r : HeadlessRobot) (channel : Int32) (bytes : List UInt8) :
    (r.lowSpeedWrite channel bytes).events = r.events := by
  unfold lowSpeedWrite
  split <;> rfl

theorem adds_perform (base : Nat) (request : Syscall.Request) :
    Keeps (Both (Adds (Event.IsOf request)) Memory.Evolves) (perform base request) := by
  have hrefl := Adds.refl (Event.IsOf request)
  have hsame (r : HeadlessRobot) : r = r := rfl
  cases request with
  | playFile file looping volume =>
      cases file with
      | none => exact fun s => ⟨hrefl s.1, refl_of _ s.2⟩
      | some file => exact keeps_act fun r => adds_of_push rfl rfl
  | playTone => exact keeps_act fun r => adds_of_push rfl trivial
  | lowSpeedWrite channel bytes =>
      exact keeps_act fun r =>
        adds_of_push (congrArg (Array.push · _) (events_lowSpeedWrite r channel bytes)) trivial
  | lowSpeedRead channel count =>
      refine keeps_bind hrefl (keeps_look hsame _) fun ready => ?_
      refine keeps_bind hrefl (keeps_look hsame _) fun reply => ?_
      refine keeps_bind hrefl (keeps_update hsame Memory.evolves_setArrayLength) fun _ => ?_
      refine keeps_bind hrefl (keeps_update hsame Memory.evolves_setArrayData) fun _ => ?_
      refine keeps_bind hrefl (keeps_ask hsame _) fun bytes => ?_
      exact keeps_act fun r => adds_of_push rfl trivial
  | lowSpeedCheckStatus channel =>
      refine keeps_bind hrefl (keeps_look hsame _) fun ready => ?_
      exact keeps_update hrefl Memory.evolves_setScalar
  | unsupported => exact keeps_act fun r => adds_of_push rfl trivial

/-- A use logs no file but one with an accepted name. -/
theorem adds_apply (use : Use) (r : HeadlessRobot) : r.Adds Event.IsSafe (use.apply r) := by
  cases use with
  | setSensor => exact Adds.refl _ r
  | setInput channel property value =>
      change r.Adds Event.IsSafe (r.setInput channel property value)
      unfold setInput
      split
      · exact Adds.refl _ r
      · exact adds_of_push rfl trivial
  | setOutput => exact adds_of_push rfl trivial
  | syscall id base m =>
      change r.Adds Event.IsSafe (Robot.syscall id base r m).2.1
      cases h : Syscall.Request.read m id base with
      | error e =>
          rw [syscall_of_unread h]
          exact Adds.refl _ r
      | ok request =>
          rw [(syscall_of_read h).1]
          intro event hevent
          exact ((adds_perform base request (r, m)).1 event hevent).imp_right
            (Syscall.Request.isSafe_of_read h)
  | takeEvents => exact fun event hevent => absurd hevent (Array.not_mem_empty event)

theorem adds_after (r : HeadlessRobot) (uses : List Use) :
    r.Adds Event.IsSafe (r.after uses) := by
  induction uses generalizing r with
  | nil => exact Adds.refl _ r
  | cons use uses ih =>
      intro event hevent
      exact (ih _ event hevent).elim (adds_apply use r event) Or.inr

/-- Bytes name a sound file exactly if they are as long as a name and its zero may be, and end in
the zero. The name keeps their plain characters up to the extension and replaces the others; so it
is made of plain characters only, is no path, and is what is accepted for itself. After any history
of a robot, every file in its log has such a name. -/
theorem sound_names :
    (∀ bytes,
      ((SoundName.ofBytes? bytes).isSome ↔
        4 ≤ bytes.length ∧ bytes.length ≤ 20 ∧ bytes.getLast? = some 0) ∧
      ∀ name, SoundName.ofBytes? bytes = some name →
        SoundName.Cleans bytes name ∧ SoundName.Safe name) ∧
    ∀ values uses file looping volume,
      Event.playFile file looping volume ∈ ((ofSensors values).after uses).events →
        SoundName.Safe file.toList := by
  refine ⟨fun bytes => ⟨SoundName.isSome_ofBytes?_iff, fun name h => ?_⟩, ?_⟩
  · exact ⟨SoundName.cleans_of_ofBytes? h, SoundName.safe_of_ofBytes? h⟩
  · intro values uses file looping volume hfile
    have hadded := adds_after (ofSensors values) uses _ hfile
    exact hadded.resolve_left (Array.not_mem_empty _)

def pathBytes : List UInt8 := [46, 46, 47, 120, 47, 121, 46, 114, 115, 111, 0]

def playPath : Memory where
  toc := #[⟨.cluster, 0, 5⟩, ⟨.sword, 0, 0⟩, ⟨.array, 0, 2⟩, ⟨.ubyte, 0, 0⟩, ⟨.ubyte, 0, 4⟩,
    ⟨.ubyte, 0, 5⟩]
  statics := #[0, 0, 1, 0, 0, 4]
  blocks := #[⟨⟨0, 10, 2, 0, 0⟩, #[]⟩, ⟨⟨0, 1, 11, 0, 0⟩, pathBytes.toArray⟩]
  slots := [1, 2, 4, 5]

theorem sound_names_pathBytes :
    ∃ name, SoundName.ofBytes? pathBytes = some name ∧ name.length + 1 = 11 ∧
      name[1]? = some '.' ∧ name[2]? = some '_' ∧ ['w', 'a', 'v'] <:+ name ∧ '/' ∉ name ∧
      SoundName.ofBytes? (SoundName.terminated name) = some name ∧
      Event.playFile ".._x_y.wav" false (Syscall.volume 4) ∈
        ((ofSensors []).after [.syscall Syscall.soundPlayFile 0 playPath]).events ∧
      '/' ∉ ".._x_y.wav".toList := by
  obtain ⟨hnames, hlogged⟩ := sound_names
  obtain ⟨hsome, hname⟩ := hnames pathBytes
  obtain ⟨name, h⟩ := Option.isSome_iff_exists.1 (hsome.2 (by decide))
  obtain ⟨hcleans, hsafe⟩ := hname name h
  have hevents : ((ofSensors []).after [.syscall Syscall.soundPlayFile 0 playPath]).events
      = #[.playFile ".._x_y.wav" false (Syscall.volume 4)] := rfl
  have hfile : Event.playFile ".._x_y.wav" false (Syscall.volume 4) ∈
      ((ofSensors []).after [.syscall Syscall.soundPlayFile 0 playPath]).events := by
    simp [hevents]
  exact ⟨name, h, hcleans.length, hcleans.kept 1 46 (by decide) rfl (by decide),
    hcleans.replaced 2 47 (by decide) rfl (by decide), hsafe.ending, hsafe.noSlash, hsafe.stable,
    hfile, (hlogged _ _ _ _ _ hfile).noSlash⟩

end HeadlessRobot

end BrickMachine
