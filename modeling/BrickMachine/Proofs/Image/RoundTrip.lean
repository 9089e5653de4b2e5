import BrickMachine.Image.Reader

/-!
# Reading an image back

Each reader takes exactly the bytes that its part of an image is written as: `read_word_iff`,
`read_header_iff` and so on say from which bytes a reader gives a value, and what it leaves over.
`read_image_iff` puts them together. An image is read from the bytes that it is written as, with
any pad byte, and from no others. The pad byte is the only byte that is read and not kept, so an
image that was read is written as the bytes it was read from, with the pad byte zero.
-/

namespace BrickMachine

namespace Reader

variable {α β : Type}

/-! ### What readers take -/

theorem run_bind_iff {r : Reader α} {f : α → Reader β} {bytes rest : List UInt8} {y : β} :
    (r >>= f).run bytes = .ok (y, rest) ↔
      ∃ x mid, r.run bytes = .ok (x, mid) ∧ (f x).run mid = .ok (y, rest) := by
  rw [StateT.run_bind]
  cases h : r.run bytes with
  | error c => simp [bind, Except.bind]
  | ok p =>
      obtain ⟨x, mid⟩ := p
      constructor
      · intro hf
        exact ⟨x, mid, rfl, hf⟩
      · rintro ⟨x', mid', hx, hf⟩
        cases hx
        exact hf

theorem run_pure_iff {x y : α} {bytes rest : List UInt8} :
    (pure x : Reader α).run bytes = .ok (y, rest) ↔ y = x ∧ bytes = rest := by
  constructor
  · intro h
    cases h
    exact ⟨rfl, rfl⟩
  · rintro ⟨rfl, rfl⟩
    rfl

theorem run_throw_ne {c : Corruption} {bytes rest : List UInt8} {x : α} :
    (throw c : Reader α).run bytes ≠ .ok (x, rest) := by
  intro h
  cases h

theorem read_byte_iff {s : Section} {bytes rest : List UInt8} {b : UInt8} :
    (byte s).run bytes = .ok (b, rest) ↔ bytes = b :: rest := by
  rcases bytes with _ | ⟨x, xs⟩
  · change Except.error _ = Except.ok _ ↔ _
    simp
  · change Except.ok (x, xs) = Except.ok (b, rest) ↔ _
    simp

theorem read_word_iff {s : Section} {bytes rest : List UInt8} {w : UInt16} :
    (word s).run bytes = .ok (w, rest) ↔ bytes = wordBytes w ++ rest := by
  obtain ⟨low, high, hw⟩ : ∃ low high, wordBytes w = [low, high] := ⟨_, _, rfl⟩
  rcases bytes with _ | ⟨x, _ | ⟨y, ys⟩⟩
  · change Except.error _ = Except.ok _ ↔ _
    simp [hw]
  · change Except.error _ = Except.ok _ ↔ _
    simp [hw]
  · change Except.ok (wordOfBytes x y, ys) = Except.ok (w, rest) ↔ _
    simp only [Except.ok.injEq, Prod.mk.injEq, wordOfBytes_eq_iff, hw]
    simp [and_assoc, eq_comm]

theorem read_block_iff {s : Section} {n : Nat} {bytes rest front : List UInt8} :
    (block s n).run bytes = .ok (front, rest) ↔ front.length = n ∧ bytes = front ++ rest := by
  change (if (bytes.take n).length = n then Except.ok (bytes.take n, bytes.drop n) else _) = _ ↔ _
  constructor
  · intro h
    split at h
    · cases h
      exact ⟨by assumption, (List.take_append_drop n bytes).symm⟩
    · cases h
  · rintro ⟨rfl, rfl⟩
    simp

theorem read_withLength_iff {r : Reader α} {bytes rest : List UInt8} {x : α} {n : Nat} :
    (withLength r).run bytes = .ok ((x, n), rest) ↔
      r.run bytes = .ok (x, rest) ∧ n = bytes.length - rest.length := by
  change (r >>= fun x => get >>= fun left => pure (x, bytes.length - left.length)).run bytes
    = _ ↔ _
  rw [run_bind_iff]
  constructor
  · rintro ⟨x', mid, hr, h⟩
    cases h
    exact ⟨hr, rfl⟩
  · rintro ⟨hr, rfl⟩
    exact ⟨x, rest, hr, rfl⟩

/-- What reads one value `n` times reads `n` values that are written one after the other. -/
theorem read_times_iff {r : Reader α} {p : α → Prop} {w : α → List UInt8}
    (hr : ∀ {bytes rest x}, r.run bytes = .ok (x, rest) ↔ p x ∧ bytes = w x ++ rest) {n : Nat}
    {bytes rest : List UInt8} {xs : List α} :
    (times r n).run bytes = .ok (xs, rest) ↔
      xs.length = n ∧ (∀ x ∈ xs, p x) ∧ bytes = xs.flatMap w ++ rest := by
  induction n generalizing bytes rest xs with
  | zero =>
      rw [times, run_pure_iff, List.length_eq_zero_iff]
      constructor
      · rintro ⟨rfl, rfl⟩
        simp
      · rintro ⟨rfl, -, rfl⟩
        simp
  | succ n ih =>
      simp only [times, run_bind_iff, hr, ih, run_pure_iff]
      constructor
      · rintro ⟨x, _, ⟨hx, rfl⟩, ys, _, ⟨hlen, hys, rfl⟩, rfl, rfl⟩
        exact ⟨by simp [hlen], List.forall_mem_cons.2 ⟨hx, hys⟩, by simp⟩
      · rintro ⟨hlen, hxs, rfl⟩
        cases xs with
        | nil => cases hlen
        | cons x xs =>
            obtain ⟨hx, hxs⟩ := List.forall_mem_cons.1 hxs
            exact ⟨x, _, ⟨hx, by simp⟩, xs, _, ⟨Nat.succ.inj hlen, hxs, rfl⟩, rfl, rfl⟩

theorem read_words_iff {s : Section} {n : Nat} {bytes rest : List UInt8} {ws : List UInt16} :
    (times (word s) n).run bytes = .ok (ws, rest) ↔
      ws.length = n ∧ bytes = ws.flatMap wordBytes ++ rest := by
  have hword {bytes rest : List UInt8} {w : UInt16} :
      (word s).run bytes = .ok (w, rest) ↔ True ∧ bytes = wordBytes w ++ rest := by
    rw [read_word_iff, true_and]
  rw [read_times_iff hword]
  simp

/-! ### Sections -/

theorem read_version_iff {bytes rest : List UInt8} {v : UInt8} :
    version.run bytes = .ok (v, rest) ↔ bytes = Image.formatString ++ [v] ++ rest := by
  simp only [version, run_bind_iff, read_block_iff]
  constructor
  · rintro ⟨front, mid, ⟨hlen, rfl⟩, h⟩
    split at h
    case isTrue hformat =>
      obtain ⟨x, hx⟩ : ∃ x, front.drop Image.formatString.length = [x] := by
        apply List.length_eq_one_iff.1
        rw [List.length_drop, hlen, Nat.add_sub_cancel_left]
      have hfront : front = Image.formatString ++ [x] := by
        rw [← hx, ← hformat, List.length_take, hlen]
        exact (List.take_append_drop _ front).symm
      subst hfront
      obtain ⟨rfl, rfl⟩ := run_pure_iff.1 h
      simp
    case isFalse => exact absurd h run_throw_ne
  · rintro rfl
    refine ⟨Image.formatString ++ [v], rest, ⟨by simp, rfl⟩, ?_⟩
    rw [List.take_left, if_pos rfl, run_pure_iff]
    simp

end Reader

def Header.words (h : Header) : List UInt16 :=
  [h.entryCount, h.initialSize, h.staticSize, h.defaultDataSize, h.dynamicDefaultOffset,
   h.dynamicDefaultSize, h.memoryManagerHead, h.memoryManagerTail, h.dopeVectorOffset]

namespace Reader

theorem read_header_iff {bytes rest : List UInt8} {h : Header} :
    header.run bytes = .ok (h, rest) ↔ bytes = h.words.flatMap wordBytes ++ rest := by
  simp only [header, run_bind_iff, read_word_iff, run_pure_iff, Header.words]
  constructor
  · rintro ⟨_, _, rfl, _, _, rfl, _, _, rfl, _, _, rfl, _, _, rfl, _, _, rfl, _, _, rfl, _, _, rfl,
      _, _, rfl, rfl, rfl⟩
    simp
  · rintro rfl
    simp only [List.flatMap_cons, List.flatMap_nil, List.append_nil, List.append_assoc]
    exact ⟨_, _, rfl, _, _, rfl, _, _, rfl, _, _, rfl, _, _, rfl, _, _, rfl, _, _, rfl, _, _, rfl,
      _, _, rfl, rfl, rfl⟩

theorem read_tocEntry_iff {index : Nat} {bytes rest : List UInt8} {e : TocEntry} :
    (tocEntry index).run bytes = .ok (e, rest) ↔ bytes = Image.tocEntryBytes e ++ rest := by
  simp only [tocEntry, run_bind_iff, read_byte_iff, read_word_iff, Image.tocEntryBytes]
  constructor
  · rintro ⟨tag, _, rfl, flags, _, rfl, descriptor, _, rfl, h⟩
    split at h
    case h_1 t ht =>
      obtain ⟨rfl, rfl⟩ := run_pure_iff.1 h
      simp [SlotType.tag_of_ofTag? ht]
    case h_2 => exact absurd h run_throw_ne
  · rintro rfl
    refine ⟨_, _, rfl, _, _, rfl, _, _, rfl, ?_⟩
    rw [SlotType.ofTag?_tag]
    exact run_pure_iff.2 ⟨rfl, rfl⟩

theorem read_tocEntries_iff {index n : Nat} {bytes rest : List UInt8} {es : List TocEntry} :
    (tocEntries index n).run bytes = .ok (es, rest) ↔
      es.length = n ∧ bytes = es.flatMap Image.tocEntryBytes ++ rest := by
  induction n generalizing index bytes rest es with
  | zero =>
      rw [tocEntries, run_pure_iff, List.length_eq_zero_iff]
      constructor
      · rintro ⟨rfl, rfl⟩
        simp
      · rintro ⟨rfl, rfl⟩
        simp
  | succ n ih =>
      simp only [tocEntries, run_bind_iff, read_tocEntry_iff, ih, run_pure_iff]
      constructor
      · rintro ⟨e, _, rfl, es, _, ⟨hlen, rfl⟩, rfl, rfl⟩
        simp [hlen]
      · rintro ⟨hlen, rfl⟩
        cases es with
        | nil => cases hlen
        | cons e es => exact ⟨e, _, by simp, es, _, ⟨Nat.succ.inj hlen, rfl⟩, rfl, rfl⟩

end Reader

def Clump.record (c : Clump) : Clump × Nat :=
  ({ c with dependents := [] }, c.dependents.length)

namespace Reader

theorem read_clumpRecord_iff {bytes rest : List UInt8} {p : Clump × Nat} :
    clumpRecord.run bytes = .ok (p, rest) ↔
      (p.1.dependents = [] ∧ p.2 ≤ 255) ∧
        bytes = p.1.fireCount :: UInt8.ofNat p.2 :: wordBytes p.1.codeStart ++ rest := by
  simp only [clumpRecord, run_bind_iff, read_byte_iff, read_word_iff, run_pure_iff]
  constructor
  · rintro ⟨fireCount, _, rfl, count, _, rfl, codeStart, _, rfl, rfl, rfl⟩
    have hcount := count.toNat_lt
    exact ⟨⟨rfl, by simp only; omega⟩, by simp⟩
  · obtain ⟨⟨fireCount, dependents, codeStart⟩, count⟩ := p
    rintro ⟨⟨rfl, hcount⟩, rfl⟩
    have hbyte : (UInt8.ofNat count).toNat = count := by
      rw [UInt8.toNat_ofNat']
      exact Nat.mod_eq_of_lt (Nat.lt_succ_of_le hcount)
    exact ⟨_, _, rfl, _, _, rfl, _, _, rfl, by rw [hbyte], rfl⟩

theorem read_dependents_iff {records : List (Clump × Nat)}
    (hblank : ∀ p ∈ records, p.1.dependents = []) {bytes rest : List UInt8} {cs : List Clump} :
    (dependents records).run bytes = .ok (cs, rest) ↔
      records = cs.map Clump.record ∧ bytes = cs.flatMap Clump.dependents ++ rest := by
  induction records generalizing bytes rest cs with
  | nil =>
      rw [dependents, run_pure_iff]
      constructor
      · rintro ⟨rfl, rfl⟩
        simp
      · rintro ⟨hcs, rfl⟩
        have hnil : cs = [] := by simpa using hcs.symm
        simp [hnil]
  | cons p records ih =>
      obtain ⟨⟨fireCount, blank, codeStart⟩, count⟩ := p
      obtain ⟨rfl, hrecords⟩ := List.forall_mem_cons.1 hblank
      simp only [dependents, run_bind_iff, read_block_iff, ih hrecords, run_pure_iff]
      constructor
      · rintro ⟨ids, _, ⟨rfl, rfl⟩, cs, _, ⟨rfl, rfl⟩, rfl, rfl⟩
        simp [Clump.record]
      · rintro ⟨heq, rfl⟩
        cases cs with
        | nil => cases heq
        | cons c cs =>
            obtain ⟨fireCount', ids, codeStart'⟩ := c
            cases heq
            exact ⟨ids, _, ⟨rfl, by simp⟩, cs, _, ⟨rfl, rfl⟩, rfl, rfl⟩

/-- Clumps are read in two passes, their records first and then their dependents. -/
theorem read_clumps_iff {n : Nat} {bytes rest : List UInt8} {cs : List Clump} :
    (∃ records mid, (times clumpRecord n).run bytes = .ok (records, mid) ∧
        (dependents records).run mid = .ok (cs, rest)) ↔
      cs.length = n ∧ (∀ c ∈ cs, c.dependents.length ≤ 255) ∧
        bytes = cs.flatMap Image.clumpBytes ++ cs.flatMap Clump.dependents ++ rest := by
  simp only [read_times_iff read_clumpRecord_iff]
  constructor
  · rintro ⟨records, mid, ⟨hlen, hrecords, rfl⟩, h⟩
    obtain ⟨rfl, rfl⟩ := (read_dependents_iff fun p hp => (hrecords p hp).1).1 h
    refine ⟨by simpa using hlen, ?_, ?_⟩
    · intro c hc
      exact (hrecords c.record (List.mem_map_of_mem hc)).2
    · rw [List.flatMap_map, List.append_assoc]
      rfl
  · rintro ⟨hlen, hcount, rfl⟩
    refine ⟨cs.map Clump.record, _, ⟨by simpa using hlen, ?_, ?_⟩,
      (read_dependents_iff ?_).2 ⟨rfl, rfl⟩⟩
    · intro p hp
      obtain ⟨c, hc, rfl⟩ := List.mem_map.1 hp
      exact ⟨rfl, hcount c hc⟩
    · rw [List.flatMap_map, List.append_assoc]
      rfl
    · intro p hp
      obtain ⟨c, -, rfl⟩ := List.mem_map.1 hp
      rfl

end Reader

namespace Image

/-! ### The whole image -/

/-- An image whose header counts its parts, and whose parts are no longer than the counts in an
image file can say. -/
structure WellFormed (i : Image) : Prop where
  toc : i.toc.size ≤ 65535
  defaultData : i.defaultData.size ≤ 65535
  clumps : i.clumps.size ≤ 65535
  code : i.code.size ≤ 65535
  dependents : ∀ c ∈ i.clumps, c.dependents.length ≤ 255
  entryCount : i.header.entryCount.toNat = i.toc.size
  defaultDataSize : i.header.defaultDataSize.toNat = i.defaultData.size

def front (i : Image) : List UInt8 :=
  formatString ++ [i.version]
    ++ i.headerWords.flatMap wordBytes
    ++ wordBytes (UInt16.ofNat i.clumps.size) ++ wordBytes (UInt16.ofNat i.code.size)
    ++ i.toc.toList.flatMap tocEntryBytes
    ++ i.defaultData.toList

def back (i : Image) : List UInt8 :=
  i.clumps.toList.flatMap clumpBytes
    ++ i.clumps.toList.flatMap Clump.dependents
    ++ i.code.toList.flatMap wordBytes

theorem toBytes_eq (i : Image) : i.toBytes = i.front ++ padding i.defaultData.size ++ i.back := by
  simp [toBytes, front, back]

def padOffset (i : Image) : Nat := 38 + 4 * i.toc.size + i.defaultData.size

theorem length_front (i : Image) : i.front.length = i.padOffset := by
  simp [front, padOffset, formatString, headerWords, List.length_flatMap, tocEntryBytes,
    List.map_const']
  omega

/-- The bytes of an image with another pad byte. Default data of even length has none. -/
def replacePad (i : Image) (pad : UInt8) (bytes : List UInt8) : List UInt8 :=
  if i.defaultData.size % 2 = 1 then bytes.set i.padOffset pad else bytes

theorem replacePad_front (i : Image) (pad : UInt8) {mid : List UInt8}
    (hmid : mid.length = (padding i.defaultData.size).length) :
    i.replacePad pad (i.front ++ mid ++ i.back)
      = i.front ++ (padding i.defaultData.size).map (fun _ => pad) ++ i.back := by
  have hfront := i.length_front
  unfold padding at hmid ⊢
  unfold replacePad
  split
  · rw [if_pos (by assumption)] at hmid
    obtain ⟨x, rfl⟩ := List.length_eq_one_iff.1 hmid
    rw [List.append_assoc, ← hfront, List.set_append_right _ _ (Nat.le_refl _), Nat.sub_self]
    simp
  · rw [if_neg (by assumption)] at hmid
    have hnil : mid = [] := by simpa using hmid
    simp [hnil]

theorem replacePad_toBytes (i : Image) (pad : UInt8) :
    i.replacePad pad i.toBytes
      = i.front ++ (padding i.defaultData.size).map (fun _ => pad) ++ i.back := by
  rw [toBytes_eq, replacePad_front i pad rfl]

theorem map_padding_zero (n : Nat) : (padding n).map (fun _ => 0) = padding n := by
  unfold padding
  split <;> rfl

/-- Zeroing the pad byte undoes any replacement. -/
theorem replacePad_zero_replacePad (i : Image) (pad : UInt8) :
    i.replacePad 0 (i.replacePad pad i.toBytes) = i.toBytes := by
  rw [replacePad_toBytes, replacePad_front i 0 (List.length_map _), map_padding_zero, ← toBytes_eq]

theorem exists_pad {n : Nat} {mid : List UInt8} (h : mid.length = (padding n).length) :
    ∃ pad, mid = (padding n).map (fun _ => pad) := by
  unfold padding at h ⊢
  split
  · rw [if_pos (by assumption)] at h
    obtain ⟨x, rfl⟩ := List.length_eq_one_iff.1 h
    exact ⟨x, rfl⟩
  · rw [if_neg (by assumption)] at h
    exact ⟨0, by simpa using h⟩

theorem WellFormed.headerWords_eq {i : Image} (h : i.WellFormed) :
    i.headerWords = i.header.words := by
  have htoc : UInt16.ofNat i.toc.size = i.header.entryCount := by
    rw [← h.entryCount, UInt16.ofNat_toNat]
  have hdata : UInt16.ofNat i.defaultData.size = i.header.defaultDataSize := by
    rw [← h.defaultDataSize, UInt16.ofNat_toNat]
  rw [headerWords, Header.words, htoc, hdata]

end Image

namespace Reader

/-! ### The two halves of an image -/

def Front.bytes (f : Front) : List UInt8 :=
  Image.formatString ++ [f.version] ++ (f.header.words.flatMap wordBytes
    ++ (wordBytes f.clumpCount ++ (wordBytes f.wordCount
    ++ (f.toc.flatMap Image.tocEntryBytes ++ f.defaultData))))

theorem read_front_iff {bytes rest : List UInt8} {f : Front} :
    front.run bytes = .ok (f, rest) ↔
      f.toc.length = f.header.entryCount.toNat ∧
        f.defaultData.length = f.header.defaultDataSize.toNat ∧ bytes = f.bytes ++ rest := by
  simp only [front, run_bind_iff, read_version_iff, read_header_iff, read_word_iff,
    read_tocEntries_iff, read_block_iff, run_pure_iff, Front.bytes, List.append_assoc]
  constructor
  · rintro ⟨v, _, rfl, h, _, rfl, clumpCount, _, rfl, wordCount, _, rfl, toc, _, ⟨htoc, rfl⟩,
      data, _, ⟨hdata, rfl⟩, rfl, rfl⟩
    exact ⟨htoc, hdata, rfl⟩
  · rintro ⟨htoc, hdata, rfl⟩
    exact ⟨_, _, rfl, _, _, rfl, _, _, rfl, _, _, rfl, _, _, ⟨htoc, rfl⟩, _, _, ⟨hdata, rfl⟩,
      rfl, rfl⟩

structure Front.IsOf (f : Front) (i : Image) : Prop where
  version : i.version = f.version
  header : i.header = f.header
  clumpCount : i.clumps.size = f.clumpCount.toNat
  wordCount : i.code.size = f.wordCount.toNat
  toc : i.toc = f.toc.toArray
  defaultData : i.defaultData = f.defaultData.toArray

theorem Front.IsOf.eq {f : Front} {i : Image} (h : f.IsOf i) :
    i = { version := f.version, header := f.header, toc := f.toc.toArray,
          defaultData := f.defaultData.toArray, clumps := i.clumps, code := i.code } := by
  obtain ⟨_, _, _, _, _, _⟩ := i
  obtain ⟨rfl, rfl, _, _, rfl, rfl⟩ := h
  rfl

theorem read_back_iff {f : Front} {bytes rest : List UInt8} {i : Image} :
    (back f).run bytes = .ok (i, rest) ↔
      f.IsOf i ∧ (∀ c ∈ i.clumps, c.dependents.length ≤ 255) ∧ bytes = i.back ++ rest := by
  simp only [back, run_bind_iff, run_pure_iff]
  constructor
  · rintro ⟨records, m₁, hrecords, clumps, m₂, hdependents, code, m₃, hcode, rfl, rfl⟩
    obtain ⟨hclumps, hcounts, rfl⟩ := read_clumps_iff.1 ⟨records, m₁, hrecords, hdependents⟩
    obtain ⟨hwords, rfl⟩ := read_words_iff.1 hcode
    refine ⟨⟨rfl, rfl, hclumps, hwords, rfl, rfl⟩, by simpa using hcounts, ?_⟩
    simp [Image.back]
  · rintro ⟨hf, hcounts, rfl⟩
    obtain ⟨records, mid, hrecords, hdependents⟩ := read_clumps_iff.2
      ⟨hf.clumpCount, fun c hc => hcounts c (Array.mem_toList_iff.1 hc), Eq.refl (
        i.clumps.toList.flatMap Image.clumpBytes ++ i.clumps.toList.flatMap Clump.dependents
          ++ (i.code.toList.flatMap wordBytes ++ rest))⟩
    refine ⟨records, mid, ?_, _, _, hdependents, i.code.toList, _,
      read_words_iff.2 ⟨hf.wordCount, rfl⟩, hf.eq, rfl⟩
    rw [← hrecords, Image.back, List.append_assoc]

end Reader

namespace Image

variable {i : Image} {f : Reader.Front}

theorem WellFormed.bytes_front (hi : i.WellFormed) (h : f.IsOf i) : f.bytes = i.front := by
  have hclumps : UInt16.ofNat i.clumps.size = f.clumpCount := by
    rw [h.clumpCount, UInt16.ofNat_toNat]
  have hcode : UInt16.ofNat i.code.size = f.wordCount := by rw [h.wordCount, UInt16.ofNat_toNat]
  rw [front, hi.headerWords_eq, hclumps, hcode, h.version, h.header, h.toc, h.defaultData]
  simp [Reader.Front.bytes]

/-- There is a pad byte after an odd number of bytes. -/
theorem length_padding (i : Image) : (padding i.defaultData.size).length = i.front.length % 2 := by
  rw [length_front, padOffset]
  unfold padding
  split
  · change 1 = _
    omega
  · change 0 = _
    omega

def frontParts (i : Image) : Reader.Front where
  version := i.version
  header := i.header
  clumpCount := UInt16.ofNat i.clumps.size
  wordCount := UInt16.ofNat i.code.size
  toc := i.toc.toList
  defaultData := i.defaultData.toList

theorem WellFormed.isOf_frontParts (hi : i.WellFormed) : i.frontParts.IsOf i where
  version := rfl
  header := rfl
  clumpCount := (toNat_ofNat_of_le hi.clumps).symm
  wordCount := (toNat_ofNat_of_le hi.code).symm
  toc := rfl
  defaultData := rfl

/-- An image is read from the bytes that it is written as, with any pad byte, and what follows
them is left over. -/
theorem read_image_iff {bytes rest : List UInt8} :
    Reader.image.run bytes = .ok (i, rest) ↔
      i.WellFormed ∧ ∃ pad, bytes = i.replacePad pad i.toBytes ++ rest := by
  simp only [replacePad_toBytes, Reader.image, Reader.run_bind_iff, Prod.exists,
    Reader.read_withLength_iff, Reader.read_front_iff, Reader.read_block_iff, Reader.read_back_iff]
  constructor
  · rintro ⟨f, _, _, ⟨⟨htoc, hdata, rfl⟩, rfl⟩, mid, _, ⟨hmid, rfl⟩, hf, hcounts, rfl⟩
    have htocSize : i.toc.size = f.header.entryCount.toNat := by
      rw [hf.toc, List.size_toArray, htoc]
    have hdataSize : i.defaultData.size = f.header.defaultDataSize.toNat := by
      rw [hf.defaultData, List.size_toArray, hdata]
    have hi : i.WellFormed :=
      { toc := htocSize ▸ Nat.le_of_lt_succ f.header.entryCount.toNat_lt
        defaultData := hdataSize ▸ Nat.le_of_lt_succ f.header.defaultDataSize.toNat_lt
        clumps := hf.clumpCount ▸ Nat.le_of_lt_succ f.clumpCount.toNat_lt
        code := hf.wordCount ▸ Nat.le_of_lt_succ f.wordCount.toNat_lt
        dependents := hcounts
        entryCount := by rw [hf.header, htocSize]
        defaultDataSize := by rw [hf.header, hdataSize] }
    rw [hi.bytes_front hf, List.length_append, Nat.add_sub_cancel, ← length_padding] at hmid
    obtain ⟨pad, rfl⟩ := exists_pad hmid
    exact ⟨hi, pad, by simp [hi.bytes_front hf]⟩
  · rintro ⟨hi, pad, rfl⟩
    have hf := hi.isOf_frontParts
    have hbytes := hi.bytes_front hf
    refine ⟨i.frontParts, _, (padding i.defaultData.size).map (fun _ => pad) ++ (i.back ++ rest),
      ⟨⟨?_, ?_, ?_⟩, rfl⟩, _, _, ⟨?_, rfl⟩, hf, hi.dependents, rfl⟩
    · exact hi.entryCount.symm
    · exact hi.defaultDataSize.symm
    · rw [hbytes]
      simp
    · rw [List.length_map, length_padding]
      simp

theorem ofBytes_eq_ok {bytes : List UInt8} {i : Image} :
    Image.ofBytes bytes = .ok i ↔ ∃ rest, Reader.image.run bytes = .ok (i, rest) := by
  rw [ofBytes]
  cases h : Reader.image.run bytes with
  | error c => simp [Except.map]
  | ok p =>
      obtain ⟨j, rest⟩ := p
      simp [Except.map]

theorem WellFormed.ofBytes_toBytes {i : Image} (h : i.WellFormed) :
    Image.ofBytes i.toBytes = .ok i := by
  refine ofBytes_eq_ok.2 ⟨[], read_image_iff.2 ⟨h, 0, ?_⟩⟩
  rw [replacePad_toBytes, map_padding_zero, ← toBytes_eq, List.append_nil]

/-- An image is read from exactly those bytes that start with what it is written as, where the
pad byte may be any byte, and it is then well formed. So every well-formed image is read back
from its bytes, and an image that was read is written as the bytes that were taken for it, with
the pad byte zero. -/
theorem ofBytes_eq_ok_iff (bytes : List UInt8) (i : Image) :
    (Image.ofBytes bytes = .ok i ↔
      i.WellFormed ∧ ∃ pad tail, bytes = i.replacePad pad i.toBytes ++ tail) ∧
    (i.WellFormed → Image.ofBytes i.toBytes = .ok i) ∧
    (∀ rest, Reader.image.run bytes = .ok (i, rest) →
      ∃ taken, bytes = taken ++ rest ∧ i.toBytes = i.replacePad 0 taken) := by
  refine ⟨?_, ?_, ?_⟩
  · rw [ofBytes_eq_ok]
    simp only [read_image_iff]
    constructor
    · rintro ⟨tail, hi, pad, h⟩
      exact ⟨hi, pad, tail, h⟩
    · rintro ⟨hi, pad, tail, h⟩
      exact ⟨tail, hi, pad, h⟩
  · intro hi
    exact hi.ofBytes_toBytes
  · intro rest h
    obtain ⟨-, pad, rfl⟩ := read_image_iff.1 h
    exact ⟨_, rfl, (replacePad_zero_replacePad i pad).symm⟩

def oddImage : Image :=
  Image.ofParts ⟨0, 11, 1, 0, 1, 0, 0xFFFF, 0xFFFF, 1⟩ #[⟨.sbyte, 0, 0⟩] #[0xFD]
    #[⟨0, [1], 0⟩, ⟨1, [], 2⟩] #[0x2025, 0, 0x2029]

theorem ofBytes_oddImage :
    oddImage.WellFormed ∧ Image.ofBytes oddImage.toBytes = .ok oddImage ∧
      Image.ofBytes (oddImage.replacePad 7 oddImage.toBytes ++ [1]) = .ok oddImage ∧
      ∃ taken, oddImage.replacePad 7 oddImage.toBytes ++ [1] = taken ++ [1] ∧
        oddImage.toBytes = oddImage.replacePad 0 taken := by
  have hi : oddImage.WellFormed :=
    ⟨by decide, by decide, by decide, by decide, by decide, by decide, by decide⟩
  have hread := (ofBytes_eq_ok_iff (oddImage.replacePad 7 oddImage.toBytes ++ [1]) oddImage)
  exact ⟨hi, hread.2.1 hi, hread.1.2 ⟨hi, 7, [1], rfl⟩,
    hread.2.2 [1] (read_image_iff.2 ⟨hi, 7, rfl⟩)⟩

end Image

end BrickMachine
