import BrickMachine.Proofs.Image.RoundTrip

/-!
# Images that end early

Every byte of an image file belongs to a section; the pad byte belongs to the clump records, before
which it stands. `Image.markedBytes` is the file with the section of each byte.

If a file is cut off, reading it fails, and the error names the section of the first byte that is
missing. `Spells` says this of a reader and the bytes that it takes, and it holds of readers one
after the other as soon as it holds of each. A reader that takes several bytes at once has them all
from one section, so it does not matter how many of them are there.
-/

namespace BrickMachine

def marked (s : Section) (bytes : List UInt8) : List (Section × UInt8) := bytes.map (s, ·)

@[simp] theorem marked_nil (s : Section) : marked s [] = [] := rfl

@[simp] theorem marked_cons (s : Section) (b : UInt8) (bytes : List UInt8) :
    marked s (b :: bytes) = (s, b) :: marked s bytes := rfl

@[simp] theorem marked_append (s : Section) (first second : List UInt8) :
    marked s (first ++ second) = marked s first ++ marked s second :=
  List.map_append

@[simp] theorem map_snd_marked (s : Section) (bytes : List UInt8) :
    (marked s bytes).map Prod.snd = bytes := by
  simp [marked, Function.comp_def]

theorem eq_of_marked {s : Section} {bytes : List UInt8} {k : Nat} {mark : Section × UInt8}
    (h : (marked s bytes)[k]? = some mark) : mark.1 = s ∧ k < bytes.length := by
  unfold marked at h
  rw [List.getElem?_map] at h
  obtain ⟨b, hb, rfl⟩ := Option.map_eq_some_iff.1 h
  exact ⟨rfl, (List.getElem?_eq_some_iff.1 hb).1⟩

namespace Reader

variable {α β : Type}

/-- The reader gives `x` for the marked bytes, whatever follows them. If they are cut off, it fails
with the section of the first byte that is missing. -/
structure Spells (r : Reader α) (marks : List (Section × UInt8)) (x : α) : Prop where
  whole (rest : List UInt8) : r.run (marks.map Prod.snd ++ rest) = .ok (x, rest)
  cut (k : Nat) (mark : Section × UInt8) : marks[k]? = some mark →
    r.run ((marks.take k).map Prod.snd) = .error ⟨mark.1, .endOfFile⟩

theorem run_bind_of_ok {r : Reader α} {f : α → Reader β} {bytes rest : List UInt8} {x : α}
    (h : r.run bytes = .ok (x, rest)) : (r >>= f).run bytes = (f x).run rest := by
  rw [StateT.run_bind, h]
  rfl

theorem run_bind_of_error {r : Reader α} {f : α → Reader β} {bytes : List UInt8} {c : Corruption}
    (h : r.run bytes = .error c) : (r >>= f).run bytes = .error c := by
  rw [StateT.run_bind, h]
  rfl

namespace Spells

variable {r : Reader α} {f : α → Reader β} {marks marks' : List (Section × UInt8)} {x : α} {y : β}

theorem pure (x : α) : Spells (Pure.pure x) [] x where
  whole _ := rfl
  cut _ _ h := by cases h

theorem bind (hr : Spells r marks x) (hf : Spells (f x) marks' y) :
    Spells (r >>= f) (marks ++ marks') y where
  whole rest := by
    rw [List.map_append, List.append_assoc, run_bind_of_ok (hr.whole _)]
    exact hf.whole rest
  cut k mark h := by
    -- the byte that is missing is one of the first reader's, or that reader has all of its own
    by_cases hk : k < marks.length
    · rw [List.getElem?_append_left hk] at h
      rw [List.take_append_of_le_length (Nat.le_of_lt hk)]
      exact run_bind_of_error (hr.cut k mark h)
    · have hlong : marks.length ≤ k := Nat.le_of_not_lt hk
      rw [List.getElem?_append_right hlong] at h
      rw [List.take_append, List.take_of_length_le hlong, List.map_append,
        run_bind_of_ok (hr.whole _)]
      exact hf.cut (k - marks.length) mark h

/-- The last reader's value may still be changed. -/
theorem bind_pure (hr : Spells r marks x) (g : α → β) :
    Spells (r >>= fun a => Pure.pure (g a)) marks (g x) := by
  simpa using hr.bind (f := fun a => Pure.pure (g a)) (Spells.pure (g x))

theorem withLength (hr : Spells r marks x) :
    Spells (Reader.withLength r) marks (x, marks.length) where
  whole rest := read_withLength_iff.2 ⟨hr.whole rest, by simp⟩
  cut k mark h := by
    change (r >>= fun a => get >>= fun left => Pure.pure (a, _ - left.length)).run _ = _
    exact run_bind_of_error (hr.cut k mark h)

end Spells

/-! ### Readers of one section -/

theorem spells_byte (s : Section) (b : UInt8) : Spells (byte s) (marked s [b]) b where
  whole _ := rfl
  cut k mark h := by
    obtain ⟨rfl, hk⟩ := eq_of_marked h
    obtain rfl : k = 0 := Nat.lt_one_iff.1 hk
    rfl

theorem spells_word (s : Section) (w : UInt16) : Spells (word s) (marked s (wordBytes w)) w where
  whole rest := by
    rw [map_snd_marked]
    exact read_word_iff.2 rfl
  cut k mark h := by
    obtain ⟨rfl, hk⟩ := eq_of_marked h
    rcases k with _ | _ | k
    · rfl
    · rfl
    · rw [length_wordBytes] at hk
      omega

theorem spells_block (s : Section) (bytes : List UInt8) :
    Spells (block s bytes.length) (marked s bytes) bytes where
  whole rest := by
    rw [map_snd_marked]
    exact read_block_iff.2 ⟨rfl, rfl⟩
  cut k mark h := by
    obtain ⟨rfl, hk⟩ := eq_of_marked h
    have hshort : ((bytes.take k).take bytes.length).length ≠ bytes.length := by
      rw [List.length_take, List.length_take]
      omega
    rw [List.map_take, map_snd_marked]
    exact if_neg hshort

theorem spells_times {γ : Type} {r : Reader α} {w : γ → List (Section × UInt8)} {g : γ → α}
    (xs : List γ) (hr : ∀ x ∈ xs, Spells r (w x) (g x)) :
    Spells (times r xs.length) (xs.flatMap w) (xs.map g) := by
  induction xs with
  | nil => exact Spells.pure []
  | cons x xs ih =>
      obtain ⟨hx, hxs⟩ := List.forall_mem_cons.1 hr
      exact hx.bind ((ih hxs).bind_pure _)

theorem spells_words (s : Section) (ws : List UInt16) :
    Spells (times (word s) ws.length) (marked s (ws.flatMap wordBytes)) ws := by
  have hwords := spells_times (g := id) ws fun w _ => spells_word s w
  unfold marked at hwords ⊢
  rwa [List.map_id, ← List.map_flatMap] at hwords

/-! ### Readers of the image -/

theorem spells_version (v : UInt8) :
    Spells version (marked .header (Image.formatString ++ [v])) v := by
  have hlength : Image.formatString.length + 1 = (Image.formatString ++ [v]).length := by simp
  unfold version
  rw [hlength, ← List.append_nil (marked _ _)]
  apply (spells_block _ _).bind
  rw [List.take_left, if_pos rfl, List.getLast?_concat]
  exact Spells.pure v

theorem spells_header (h : Header) :
    Spells header (marked .dataspaceHeader (h.words.flatMap wordBytes)) h := by
  have hword := spells_word .dataspaceHeader
  simp only [Header.words, List.flatMap_cons, List.flatMap_nil, marked_append, marked_nil]
  exact (hword _).bind <| (hword _).bind <| (hword _).bind <| (hword _).bind <| (hword _).bind <|
    (hword _).bind <| (hword _).bind <| (hword _).bind <| (hword _).bind <| Spells.pure h

theorem spells_tocEntry (index : Nat) (e : TocEntry) :
    Spells (tocEntry index) (marked .tableOfContents (Image.tocEntryBytes e)) e := by
  have hbyte := spells_byte .tableOfContents
  have hmarks : marked .tableOfContents (Image.tocEntryBytes e)
      = marked .tableOfContents [e.slotType.tag] ++ (marked .tableOfContents [e.flags] ++
        (marked .tableOfContents (wordBytes e.descriptor) ++ [])) := by
    simp [Image.tocEntryBytes]
  rw [hmarks]
  refine (hbyte _).bind <| (hbyte _).bind <| (spells_word _ _).bind ?_
  rw [SlotType.ofTag?_tag]
  exact Spells.pure e

theorem spells_tocEntries (index : Nat) (es : List TocEntry) :
    Spells (tocEntries index es.length)
      (marked .tableOfContents (es.flatMap Image.tocEntryBytes)) es := by
  induction es generalizing index with
  | nil => exact Spells.pure []
  | cons e es ih =>
      rw [List.flatMap_cons, marked_append]
      exact (spells_tocEntry index e).bind ((ih (index + 1)).bind_pure _)

theorem spells_clumpRecord (c : Clump) (hc : c.dependents.length ≤ 255) :
    Spells clumpRecord (marked .clumpRecords (Image.clumpBytes c)) c.record := by
  have hbyte := spells_byte .clumpRecords
  have hmarks : marked .clumpRecords (Image.clumpBytes c)
      = marked .clumpRecords [c.fireCount] ++
        (marked .clumpRecords [UInt8.ofNat c.dependents.length] ++
          (marked .clumpRecords (wordBytes c.codeStart) ++ [])) := by
    simp [Image.clumpBytes]
  have hcount : (UInt8.ofNat c.dependents.length).toNat = c.dependents.length := by
    rw [UInt8.toNat_ofNat']
    exact Nat.mod_eq_of_lt (Nat.lt_succ_of_le hc)
  rw [hmarks]
  refine (hbyte _).bind <| (hbyte _).bind <| (spells_word _ _).bind ?_
  rw [hcount]
  exact Spells.pure c.record

theorem spells_clumpRecords (cs : List Clump) (hcs : ∀ c ∈ cs, c.dependents.length ≤ 255) :
    Spells (times clumpRecord cs.length)
      (marked .clumpRecords (cs.flatMap Image.clumpBytes)) (cs.map Clump.record) := by
  unfold marked
  rw [List.map_flatMap]
  exact spells_times cs fun c hc => spells_clumpRecord c (hcs c hc)

theorem spells_dependents (cs : List Clump) :
    Spells (dependents (cs.map Clump.record))
      (marked .clumpDependents (cs.flatMap Clump.dependents)) cs := by
  induction cs with
  | nil => exact Spells.pure []
  | cons c cs ih =>
      rw [List.flatMap_cons, marked_append]
      exact (spells_block _ c.dependents).bind (ih.bind_pure _)

def Front.marks (f : Front) : List (Section × UInt8) :=
  marked .header (Image.formatString ++ [f.version])
    ++ (marked .dataspaceHeader (f.header.words.flatMap wordBytes)
    ++ (marked .codeHeader (wordBytes f.clumpCount)
    ++ (marked .codeHeader (wordBytes f.wordCount)
    ++ (marked .tableOfContents (f.toc.flatMap Image.tocEntryBytes)
    ++ marked .defaultData f.defaultData))))

theorem Front.length_marks (f : Front) : f.marks.length = f.bytes.length := by
  simp [Front.marks, Front.bytes, marked]

theorem spells_front {f : Front} (htoc : f.header.entryCount.toNat = f.toc.length)
    (hdata : f.header.defaultDataSize.toNat = f.defaultData.length) :
    Spells front f.marks f := by
  have hentries := spells_tocEntries 0 f.toc
  have hblock := spells_block .defaultData f.defaultData
  rw [← htoc] at hentries
  rw [← hdata] at hblock
  exact (spells_version _).bind <| (spells_header _).bind <| (spells_word _ _).bind <|
    (spells_word _ _).bind <| hentries.bind <| hblock.bind_pure _

theorem spells_back {f : Front} {i : Image} (h : f.IsOf i)
    (hcounts : ∀ c ∈ i.clumps, c.dependents.length ≤ 255) :
    Spells (back f)
      (marked .clumpRecords (i.clumps.toList.flatMap Image.clumpBytes)
        ++ (marked .clumpDependents (i.clumps.toList.flatMap Clump.dependents)
        ++ marked .code (i.code.toList.flatMap wordBytes))) i := by
  have hrecords := spells_clumpRecords i.clumps.toList fun c hc =>
    hcounts c (Array.mem_toList_iff.1 hc)
  have hcode := spells_words .code i.code.toList
  rw [Array.length_toList, h.clumpCount] at hrecords
  rw [Array.length_toList, h.wordCount] at hcode
  rw [h.eq]
  exact hrecords.bind <| (spells_dependents _).bind <| hcode.bind_pure _

end Reader

namespace Image

/-! ### The whole image -/

/-- An image whose parts are no longer than the counts in an image file can say. -/
structure Storable (i : Image) : Prop where
  toc : i.toc.size ≤ 65535
  defaultData : i.defaultData.size ≤ 65535
  clumps : i.clumps.size ≤ 65535
  code : i.code.size ≤ 65535
  dependents : ∀ c ∈ i.clumps, c.dependents.length ≤ 255

def sections (i : Image) : List (Section × List UInt8) :=
  [(.header, formatString ++ [i.version]),
   (.dataspaceHeader, i.headerWords.flatMap wordBytes),
   (.codeHeader, wordBytes (UInt16.ofNat i.clumps.size) ++ wordBytes (UInt16.ofNat i.code.size)),
   (.tableOfContents, i.toc.toList.flatMap tocEntryBytes),
   (.defaultData, i.defaultData.toList),
   (.clumpRecords, padding i.defaultData.size ++ i.clumps.toList.flatMap clumpBytes),
   (.clumpDependents, i.clumps.toList.flatMap Clump.dependents),
   (.code, i.code.toList.flatMap wordBytes)]

def markedBytes (i : Image) : List (Section × UInt8) :=
  i.sections.flatMap fun (s, bytes) => marked s bytes

theorem map_snd_markedBytes (i : Image) : i.markedBytes.map Prod.snd = i.toBytes := by
  simp [markedBytes, sections, toBytes]

def sectionOf? (i : Image) (k : Nat) : Option Section := i.markedBytes[k]?.map Prod.fst

def counted (i : Image) : Image :=
  { i with
    header :=
      { i.header with
        entryCount := UInt16.ofNat i.toc.size
        defaultDataSize := UInt16.ofNat i.defaultData.size } }

theorem Storable.wellFormed_counted {i : Image} (hi : i.Storable) : i.counted.WellFormed where
  toc := hi.toc
  defaultData := hi.defaultData
  clumps := hi.clumps
  code := hi.code
  dependents := hi.dependents
  entryCount := toNat_ofNat_of_le hi.toc
  defaultDataSize := toNat_ofNat_of_le hi.defaultData

theorem spells_image {i : Image} (hi : i.Storable) :
    Reader.Spells Reader.image i.markedBytes i.counted := by
  have hcounted := hi.wellFormed_counted
  have hfront := hcounted.isOf_frontParts
  have hpad : (padding i.defaultData.size).length = i.counted.frontParts.marks.length % 2 := by
    rw [Reader.Front.length_marks, hcounted.bytes_front hfront]
    exact length_padding i.counted
  have hmarks : i.markedBytes = i.counted.frontParts.marks
      ++ (marked .clumpRecords (padding i.defaultData.size)
      ++ (marked .clumpRecords (i.clumps.toList.flatMap clumpBytes)
      ++ (marked .clumpDependents (i.clumps.toList.flatMap Clump.dependents)
      ++ marked .code (i.code.toList.flatMap wordBytes)))) := by
    simp [markedBytes, sections, Reader.Front.marks, frontParts, counted]
    rfl
  rw [hmarks]
  have hpadding := Reader.spells_block .clumpRecords (padding i.defaultData.size)
  rw [hpad] at hpadding
  exact (Reader.spells_front hcounted.entryCount hcounted.defaultDataSize).withLength.bind <|
    hpadding.bind (Reader.spells_back hfront hcounted.dependents)

/-- The bytes of an image file belong to its sections as `markedBytes` says. If the file is cut off
before any of its bytes, reading it fails because the file ends, and the error names the section of
that byte. -/
theorem ofBytes_take {i : Image} (hi : i.Storable) :
    i.markedBytes.map Prod.snd = i.toBytes ∧
    ∀ k < i.toBytes.length, ∃ s, i.sectionOf? k = some s ∧
      Image.ofBytes (i.toBytes.take k) = .error ⟨s, .endOfFile⟩ ∧
      (Corruption.mk s .endOfFile).message
        = "corrupt image (" ++ s.name ++ "): " ++ "unexpected end of file" := by
  refine ⟨i.map_snd_markedBytes, ?_⟩
  intro k hk
  rw [← map_snd_markedBytes, List.length_map] at hk
  have hmark : i.markedBytes[k]? = some i.markedBytes[k] := List.getElem?_eq_getElem hk
  refine ⟨i.markedBytes[k].1, ?_, ?_, rfl⟩
  · unfold sectionOf?
    rw [hmark]
    rfl
  · have hcut := (spells_image hi).cut k _ hmark
    rw [List.map_take, map_snd_markedBytes] at hcut
    unfold ofBytes
    rw [hcut]
    rfl

/-- Cut off before its pad byte, an image lacks a byte of the clump records; cut off one byte
earlier, it lacks one of the default data. -/
theorem ofBytes_take_oddImage :
    oddImage.Storable ∧
    oddImage.sectionOf? 43 = some .clumpRecords ∧
    Image.ofBytes (oddImage.toBytes.take 43) = .error ⟨.clumpRecords, .endOfFile⟩ ∧
    (Corruption.mk .clumpRecords .endOfFile).message
      = "corrupt image (clump records): unexpected end of file" ∧
    oddImage.sectionOf? 42 = some .defaultData ∧
    Image.ofBytes (oddImage.toBytes.take 42) = .error ⟨.defaultData, .endOfFile⟩ ∧
    (Corruption.mk .defaultData .endOfFile).message
      = "corrupt image (default data): unexpected end of file" := by
  have hi : oddImage.Storable := ⟨by decide, by decide, by decide, by decide, by decide⟩
  obtain ⟨pad, hpad, hreadPad, hpadText⟩ := (ofBytes_take hi).2 43 (by decide)
  obtain ⟨data, hdata, hreadData, hdataText⟩ := (ofBytes_take hi).2 42 (by decide)
  have hpadSection : oddImage.sectionOf? 43 = some .clumpRecords := by decide
  have hdataSection : oddImage.sectionOf? 42 = some .defaultData := by decide
  obtain rfl : Section.clumpRecords = pad := Option.some.inj (hpadSection.symm.trans hpad)
  obtain rfl : Section.defaultData = data := Option.some.inj (hdataSection.symm.trans hdata)
  exact ⟨hi, hpad, hreadPad, hpadText, hdata, hreadData, hdataText⟩

end Image

end BrickMachine
