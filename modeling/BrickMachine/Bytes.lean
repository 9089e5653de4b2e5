/-!
# Bytes and buffers

Numbers are kept in bytes least significant first. `littleEndian w n` writes the `w` lowest
bytes of `n`, `ofLittleEndian` reads a whole list back, and the two are inverse to each other
up to `n % byteValues w`, where `byteValues w` is how many numbers `w` bytes tell apart.

A `Buffer` is a block of bytes that is addressed by offset. A read outside it gives fewer
bytes and a write outside it has no effect, so `slice` and `patch` are total; whoever calls
them has compared the offsets with the size before.
-/

namespace BrickMachine

/-- How many numbers `w` bytes tell apart. -/
def byteValues : Nat → Nat
  | 0 => 1
  | w + 1 => 256 * byteValues w

def littleEndian : Nat → Nat → List UInt8
  | 0, _ => []
  | w + 1, n => UInt8.ofNat n :: littleEndian w (n / 256)

def ofLittleEndian : List UInt8 → Nat
  | [] => 0
  | b :: bs => b.toNat + 256 * ofLittleEndian bs

def wordBytes (w : UInt16) : List UInt8 :=
  littleEndian 2 w.toNat

def wordOfBytes (low high : UInt8) : UInt16 :=
  UInt16.ofNat (low.toNat + 256 * high.toNat)

@[simp] theorem length_littleEndian (w n : Nat) : (littleEndian w n).length = w := by
  induction w generalizing n with
  | zero => rfl
  | succ w ih => simp [littleEndian, ih]

theorem ofLittleEndian_littleEndian (w n : Nat) :
    ofLittleEndian (littleEndian w n) = n % byteValues w := by
  induction w generalizing n with
  | zero => simp [littleEndian, ofLittleEndian, byteValues, Nat.mod_one]
  | succ w ih =>
    have h : (UInt8.ofNat n).toNat = n % 256 := by simp
    rw [littleEndian, ofLittleEndian, ih, h, byteValues, Nat.mod_mul]

theorem ofLittleEndian_lt (bs : List UInt8) : ofLittleEndian bs < byteValues bs.length := by
  induction bs with
  | nil => simp [ofLittleEndian, byteValues]
  | cons b bs ih =>
    have hb := b.toNat_lt
    simp only [ofLittleEndian, List.length_cons, byteValues]
    omega

theorem littleEndian_ofLittleEndian (bs : List UInt8) :
    littleEndian bs.length (ofLittleEndian bs) = bs := by
  induction bs with
  | nil => rfl
  | cons b bs ih =>
    have hb := b.toNat_lt
    have hdiv : (b.toNat + 256 * ofLittleEndian bs) / 256 = ofLittleEndian bs := by omega
    have hlow : UInt8.ofNat (b.toNat + 256 * ofLittleEndian bs) = b :=
      UInt8.toNat_inj.1 (by simp)
    simp only [List.length_cons, ofLittleEndian, littleEndian, hdiv, hlow, ih]

@[simp] theorem length_wordBytes (w : UInt16) : (wordBytes w).length = 2 := rfl

theorem wordBytes_wordOfBytes (low high : UInt8) :
    wordBytes (wordOfBytes low high) = [low, high] := by
  have hlow := low.toNat_lt
  have hhigh := high.toNat_lt
  have hword : (wordOfBytes low high).toNat = ofLittleEndian [low, high] := by
    simp only [wordOfBytes, UInt16.toNat_ofNat', ofLittleEndian]
    omega
  rw [wordBytes, hword]
  exact littleEndian_ofLittleEndian [low, high]

/-- A word is made of its two bytes. -/
theorem wordOfBytes_eq_iff {low high : UInt8} {w : UInt16} :
    wordOfBytes low high = w ↔ wordBytes w = [low, high] := by
  constructor
  · rintro rfl
    exact wordBytes_wordOfBytes low high
  · intro h
    have hw := w.toNat_lt
    have hval : ofLittleEndian [low, high] = w.toNat % byteValues 2 := by
      rw [← h]
      exact ofLittleEndian_littleEndian 2 w.toNat
    apply UInt16.toNat_inj.1
    simp only [ofLittleEndian, byteValues] at hval
    simp only [wordOfBytes, UInt16.toNat_ofNat']
    omega

theorem toNat_ofNat_of_le {n : Nat} (h : n ≤ 65535) : (UInt16.ofNat n).toNat = n :=
  UInt16.toNat_ofNat_of_lt' (Nat.lt_succ_of_le h)

abbrev Buffer := Array UInt8

namespace Buffer

/-- The `len` bytes from `start` on, or as many of them as exist. -/
def slice (b : Buffer) (start len : Nat) : List UInt8 :=
  (b.extract start (start + len)).toList

def patch (b : Buffer) (start : Nat) : List UInt8 → Buffer
  | [] => b
  | x :: xs => patch (b.setIfInBounds start x) (start + 1) xs

/-- The buffer after bytes were to be written from `start` on, and whether they were: it has to have
room for all of them. -/
def put (b : Buffer) (start : Nat) (xs : List UInt8) : Bool × Buffer :=
  if start + xs.length ≤ b.size then (true, b.patch start xs) else (false, b)

/-- The buffer cut to `n` bytes, or extended to them with zeros. -/
def resize (b : Buffer) (n : Nat) : Buffer :=
  if n ≤ b.size then b.extract 0 n else b ++ Array.replicate (n - b.size) 0

@[simp] theorem size_patch (b : Buffer) (start : Nat) (xs : List UInt8) :
    (b.patch start xs).size = b.size := by
  induction xs generalizing b start with
  | nil => rfl
  | cons x xs ih => simp [patch, ih]

@[simp] theorem size_put (b : Buffer) (start : Nat) (xs : List UInt8) :
    (b.put start xs).2.size = b.size := by
  unfold put
  split
  · exact b.size_patch start xs
  · rfl

@[simp] theorem size_resize (b : Buffer) (n : Nat) : (b.resize n).size = n := by
  unfold resize
  split <;> simp <;> omega

/-- Patching replaces the bytes at the offsets of the patch that the buffer has. -/
theorem getElem?_patch (b : Buffer) (start : Nat) (xs : List UInt8) (i : Nat) :
    (b.patch start xs)[i]?
      = if start ≤ i ∧ i < start + xs.length ∧ i < b.size then xs[i - start]? else b[i]? := by
  induction xs generalizing b start with
  | nil => simp [patch]; omega
  | cons x xs ih =>
    rw [patch, ih, Array.getElem?_setIfInBounds, Array.size_setIfInBounds, List.length_cons]
    by_cases hi : start = i
    · subst hi
      have hout : ¬ (start + 1 ≤ start ∧ start < start + 1 + xs.length ∧ start < b.size) := by
        omega
      rw [if_neg hout, if_pos rfl]
      by_cases hs : start < b.size
      · have hin : start ≤ start ∧ start < start + (xs.length + 1) ∧ start < b.size := by omega
        rw [if_pos hs, if_pos hin, Nat.sub_self, List.getElem?_cons_zero]
      · have hnot : ¬ (start ≤ start ∧ start < start + (xs.length + 1) ∧ start < b.size) := by
          omega
        rw [if_neg hs, if_neg hnot, Array.getElem?_eq_none (Nat.le_of_not_lt hs)]
    · by_cases hin : start ≤ i ∧ i < start + (xs.length + 1) ∧ i < b.size
      · have hout : start + 1 ≤ i ∧ i < start + 1 + xs.length ∧ i < b.size := by omega
        have hsub : i - start = i - (start + 1) + 1 := by omega
        rw [if_pos hout, if_pos hin, hsub, List.getElem?_cons_succ]
      · have hout : ¬ (start + 1 ≤ i ∧ i < start + 1 + xs.length ∧ i < b.size) := by omega
        rw [if_neg hout, if_neg hin, if_neg hi]

theorem getElem?_slice (b : Buffer) (start len i : Nat) :
    (b.slice start len)[i]? = if i < len then b[start + i]? else none := by
  rw [slice, Array.getElem?_toList, Array.getElem?_extract]
  by_cases hi : i < len
  · rw [if_pos hi]
    by_cases hb : start + i < b.size
    · rw [if_pos (by omega)]
    · rw [if_neg (by omega), Array.getElem?_eq_none (Nat.le_of_not_lt hb)]
  · rw [if_neg hi, if_neg (by omega)]

/-- What has been written is read back. -/
theorem slice_patch (b : Buffer) (start : Nat) (xs : List UInt8) (h : start + xs.length ≤ b.size) :
    (b.patch start xs).slice start xs.length = xs := by
  apply List.ext_getElem?
  intro i
  rw [getElem?_slice]
  by_cases hi : i < xs.length
  · have hin : start ≤ start + i ∧ start + i < start + xs.length ∧ start + i < b.size := by omega
    rw [if_pos hi, getElem?_patch, if_pos hin, Nat.add_sub_cancel_left]
  · rw [if_neg hi, List.getElem?_eq_none (Nat.le_of_not_lt hi)]

/-- What lies before or behind a patch is read as it was. -/
theorem slice_patch_of_disjoint (b : Buffer) {start first len : Nat} {xs : List UInt8}
    (h : first + len ≤ start ∨ start + xs.length ≤ first) :
    (b.patch start xs).slice first len = b.slice first len := by
  apply List.ext_getElem?
  intro i
  rw [getElem?_slice, getElem?_slice]
  by_cases hi : i < len
  · have hout : ¬ (start ≤ first + i ∧ first + i < start + xs.length ∧ first + i < b.size) := by
      omega
    rw [if_pos hi, if_pos hi, getElem?_patch, if_neg hout]
  · rw [if_neg hi, if_neg hi]

/-- The bytes between two parts of a buffer. -/
theorem slice_middle (before xs after : List UInt8) :
    slice (before ++ xs ++ after).toArray before.length xs.length = xs := by
  rw [slice, List.extract_toArray, List.extract_eq_take_drop, Nat.add_sub_cancel_left,
    List.append_assoc, List.drop_left, List.take_left]

/-- Patching the bytes between two parts of a buffer. -/
theorem patch_middle {old xs : List UInt8} (h : old.length = xs.length)
    (before after : List UInt8) :
    patch (before ++ old ++ after).toArray before.length xs = (before ++ xs ++ after).toArray := by
  induction xs generalizing before old with
  | nil =>
    rw [List.length_eq_zero_iff.1 h]
    rfl
  | cons x xs ih =>
    cases old with
    | nil => cases h
    | cons y ys =>
      have hset : (before ++ y :: ys ++ after).toArray.setIfInBounds before.length x
          = (before ++ [x] ++ ys ++ after).toArray := by
        simp
      have hrest := ih (Nat.succ.inj h) (before ++ [x])
      rw [List.length_append, List.length_singleton] at hrest
      rw [patch, hset, hrest, List.append_assoc before [x] xs, List.singleton_append]

theorem length_slice (b : Buffer) (start len : Nat) (h : start + len ≤ b.size) :
    (b.slice start len).length = len := by
  simp [slice]
  omega

end Buffer

end BrickMachine
