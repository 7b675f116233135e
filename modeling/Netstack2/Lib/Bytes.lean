import Mathlib

/-!
# Bytes

Numbers as bytes in network order, the fields of a buffer, readers that take one piece
of their input after the other (`Reads`), and the arithmetic of the Internet checksum:
sums of 16-bit words, with the carries added back.

Main results:

* `readBigEndian_bigEndian`: what was written is read back;
* `wordSum_write16`: a word that is written where there are zeros is added to the sum;
* `foldCarries_eq_max_iff`: when a sum, with its carries added back, has all bits set;
* `complement_sum`: the complement of a sum completes it to such a one.
-/

namespace Netstack2

open List hiding Vector

/-- A packet, or a piece of one. -/
abbrev Bytes := List UInt8

/-! ## Numbers -/

/-- The number with the big-endian bytes `data`. -/
def readBigEndian (data : Bytes) : ℕ := data.foldl (fun n b => n * 256 + b.toNat) 0

def read16 (data : Bytes) : UInt16 := .ofNat (readBigEndian (data.take 2))

def read32 (data : Bytes) : UInt32 := .ofNat (readBigEndian (data.take 4))

/-- The last `count` bytes of `value`, the most significant first. -/
def bigEndian : ℕ → ℕ → Bytes
  | 0, _ => []
  | count + 1, value => bigEndian count (value / 256) ++ [UInt8.ofNat value]

@[simp] theorem length_bigEndian (count value : ℕ) : (bigEndian count value).length = count := by
  induction count generalizing value with
  | zero => rfl
  | succ _ ih => rw [bigEndian, length_append, ih, length_singleton]

theorem readBigEndian_concat (data : Bytes) (b : UInt8) :
    readBigEndian (data ++ [b]) = readBigEndian data * 256 + b.toNat := by
  rw [readBigEndian, foldl_append]
  rfl

/-- What was written is read back, up to the bytes there were. -/
theorem readBigEndian_bigEndian (count value : ℕ) :
    readBigEndian (bigEndian count value) = value % 256 ^ count := by
  induction count generalizing value with
  | zero => rw [Nat.pow_zero, Nat.mod_one, bigEndian, readBigEndian, foldl_nil]
  | succ count ih =>
    have hmod : value % 256 ^ (count + 1) = value % 256 + 256 * (value / 256 % 256 ^ count) := by
      rw [Nat.pow_succ', Nat.mod_mul]
    rw [bigEndian, readBigEndian_concat, ih, UInt8.toNat_ofNat', hmod, mul_comm]
    exact add_comm ..

@[simp] theorem read16_bigEndian (value : UInt16) (rest : Bytes) :
    read16 (bigEndian 2 value.toNat ++ rest) = value := by
  rw [read16, take_left' (length_bigEndian ..), readBigEndian_bigEndian,
    Nat.mod_eq_of_lt (show value.toNat < 256 ^ 2 from value.toNat_lt), UInt16.ofNat_toNat]

@[simp] theorem read32_bigEndian (value : UInt32) (rest : Bytes) :
    read32 (bigEndian 4 value.toNat ++ rest) = value := by
  rw [read32, take_left' (length_bigEndian ..), readBigEndian_bigEndian,
    Nat.mod_eq_of_lt (show value.toNat < 256 ^ 4 from value.toNat_lt), UInt32.ofNat_toNat]

/-! ## Fields -/

/-- The byte at an offset; there is one, as the readers check the length before. -/
def byteAt (data : Bytes) (offset : ℕ) : UInt8 := data.getD offset 0

@[simp] theorem byteAt_cons_zero (b : UInt8) (data : Bytes) : byteAt (b :: data) 0 = b := rfl

@[simp] theorem byteAt_cons_succ (b : UInt8) (data : Bytes) (offset : ℕ) :
    byteAt (b :: data) (offset + 1) = byteAt data offset :=
  rfl

variable {buffer data l l' output : Bytes} {i n offset : ℕ}

theorem byteAt_take (h : i < n) : byteAt (l.take n) i = byteAt l i := by
  rw [byteAt, byteAt, getD_eq_getElem?_getD, getD_eq_getElem?_getD, getElem?_take_of_lt h]

theorem byteAt_drop (n i : ℕ) : byteAt (l.drop n) i = byteAt l (n + i) := by
  rw [byteAt, byteAt, getD_eq_getElem?_getD, getD_eq_getElem?_getD, getElem?_drop]

theorem byteAt_append_right (h : l.length ≤ i) : byteAt (l ++ l') i = byteAt l' (i - l.length) := by
  rw [byteAt, byteAt, getD_eq_getElem?_getD, getD_eq_getElem?_getD, getElem?_append_right h]

theorem ne_nil_of_byteAt (h : byteAt data 0 ≠ 0) : data ≠ [] := by
  rintro rfl
  exact h rfl

/-- Bytes are read alike where they are the same. -/
theorem byteAt_congr (h : l[i]? = l'[i]?) : byteAt l i = byteAt l' i := by
  rw [byteAt, byteAt, getD_eq_getElem?_getD, getD_eq_getElem?_getD, h]

theorem drop_congr {k : ℕ} (h : ∀ i, k ≤ i → l[i]? = l'[i]?) : l.drop k = l'.drop k := by
  refine ext_getElem? fun i => ?_
  rw [getElem?_drop, getElem?_drop, h _ (Nat.le_add_right ..)]

theorem read16_congr {k : ℕ} (h : l[k]? = l'[k]?) (h' : l[k + 1]? = l'[k + 1]?) :
    read16 (l.drop k) = read16 (l'.drop k) := by
  have hbytes : (l.drop k).take 2 = (l'.drop k).take 2 := by
    refine ext_getElem? fun i => ?_
    rw [getElem?_take, getElem?_take, getElem?_drop, getElem?_drop]
    match i with
    | 0 => rw [add_zero, h]
    | 1 => rw [h']
    | i + 2 => rw [if_neg (by omega), if_neg (by omega)]
  rw [read16, read16, hbytes]

/-- The `n` bytes from an offset on. -/
def bytesAt (n : ℕ) (data : Bytes) (offset : ℕ) : Vector UInt8 n :=
  .ofFn fun i => byteAt data (offset + i)

theorem bytesAt_congr (h : ∀ i, offset ≤ i → l[i]? = l'[i]?) :
    bytesAt n l offset = bytesAt n l' offset := by
  rw [bytesAt, bytesAt]
  exact congrArg Vector.ofFn (funext fun i => byteAt_congr (h _ (Nat.le_add_right ..)))

theorem bytesAt_append {front : Bytes} (h : front.length = offset) (field : Vector UInt8 n)
    (rest : Bytes) : bytesAt n (front ++ (field.toList ++ rest)) offset = field := by
  subst h
  ext i hi
  rw [bytesAt, Vector.getElem_ofFn, byteAt, getD_eq_getElem?_getD,
    getElem?_append_right (Nat.le_add_right ..), Nat.add_sub_cancel_left,
    getElem?_append_left (by simpa using hi)]
  simp [hi]

/-- Overwrite the word at an offset. -/
def write16 (output : Bytes) (offset : ℕ) (value : UInt16) : Bytes :=
  output.take offset ++ bigEndian 2 value.toNat ++ output.drop (offset + 2)

theorem length_write16 (h : offset + 2 ≤ output.length) (value : UInt16) :
    (write16 output offset value).length = output.length := by
  rw [write16, length_append, length_append, length_take_of_le (by omega),
    length_bigEndian, length_drop]
  omega

theorem write16_append {front : Bytes} (h : front.length = offset) (old value : UInt16)
    (rest : Bytes) :
    write16 (front ++ (bigEndian 2 old.toNat ++ rest)) offset value =
      front ++ (bigEndian 2 value.toNat ++ rest) := by
  rw [write16, take_left' h, ← drop_drop, drop_left' h,
    drop_left' (length_bigEndian ..), append_assoc]

/-- Overwrite the bytes from an offset on. -/
def writeAt (buffer : Bytes) (offset : ℕ) (data : Bytes) : Bytes :=
  buffer.take offset ++ data ++ buffer.drop (offset + data.length)

/-- Add zeros to a buffer that is shorter than `n`. -/
def growTo (buffer : Bytes) (n : ℕ) : Bytes := buffer ++ .replicate (n - buffer.length) 0

theorem length_growTo (buffer : Bytes) (n : ℕ) :
    (growTo buffer n).length = max buffer.length n := by
  rw [growTo, length_append, length_replicate]
  omega

/-- The `n` bytes at an offset. -/
def slice (buffer : Bytes) (offset n : ℕ) : Bytes := (buffer.drop offset).take n

theorem getElem?_slice (buffer : Bytes) (offset n i : ℕ) :
    (slice buffer offset n)[i]? = if i < n then buffer[offset + i]? else none := by
  rw [slice, getElem?_take, getElem?_drop]

theorem getElem?_writeAt (h : offset ≤ buffer.length) (i : ℕ) : (writeAt buffer offset data)[i]? =
      if i < offset then buffer[i]? else
        if i < offset + data.length then data[i - offset]? else buffer[i]? := by
  have htake : (buffer.take offset).length = offset := length_take_of_le h
  rw [writeAt, append_assoc]
  split
  case isTrue hi => rw [getElem?_append_left (by omega), getElem?_take_of_lt hi]
  case isFalse hi =>
    rw [getElem?_append_right (by omega), htake]
    split
    case isTrue hi' => rw [getElem?_append_left (by omega)]
    case isFalse hi' =>
      rw [getElem?_append_right (by omega), getElem?_drop]
      congr 1
      omega

theorem length_writeAt (h : offset + data.length ≤ buffer.length) :
    (writeAt buffer offset data).length = buffer.length := by
  rw [writeAt, length_append, length_append, length_take_of_le (by omega), length_drop]
  omega

/-- What was written is there. -/
theorem slice_writeAt (h : offset + data.length ≤ buffer.length) :
    slice (writeAt buffer offset data) offset data.length = data := by
  refine ext_getElem? fun i => ?_
  rw [getElem?_slice, getElem?_writeAt (by omega)]
  split
  case isTrue hi => rw [if_neg (by omega), if_pos (by omega), Nat.add_sub_cancel_left]
  case isFalse hi => rw [getElem?_eq_none (Nat.not_lt.1 hi)]

/-- What is elsewhere stays. -/
theorem slice_writeAt_of_disjoint {offset' : ℕ} (h : offset ≤ buffer.length)
    (hd : offset' + n ≤ offset ∨ offset + data.length ≤ offset') :
    slice (writeAt buffer offset data) offset' n = slice buffer offset' n := by
  refine ext_getElem? fun i => ?_
  rw [getElem?_slice, getElem?_slice, getElem?_writeAt h]
  split
  case isTrue hi =>
    rcases hd with hbefore | hafter
    · rw [if_pos (by omega)]
    · rw [if_neg (by omega), if_neg (by omega)]
  case isFalse => rfl

theorem slice_growTo (h : offset + n ≤ buffer.length) (m : ℕ) :
    slice (growTo buffer m) offset n = slice buffer offset n := by
  refine ext_getElem? fun i => ?_
  rw [getElem?_slice, getElem?_slice, growTo]
  split
  case isTrue hi => rw [getElem?_append_left (by omega)]
  case isFalse => rfl

theorem slice_add (buffer : Bytes) (offset m n : ℕ) :
    slice buffer offset (m + n) = slice buffer offset m ++ slice buffer (offset + m) n := by
  rw [slice, slice, slice, take_add, drop_drop]

theorem getElem?_write16 (h : offset ≤ output.length) (hi : i < offset ∨ offset + 2 ≤ i)
    (value : UInt16) : (write16 output offset value)[i]? = output[i]? := by
  have heq : write16 output offset value = writeAt output offset (bigEndian 2 value.toNat) := rfl
  rw [heq, getElem?_writeAt h, length_bigEndian]
  rcases hi with hi | hi
  · rw [if_pos hi]
  · rw [if_neg (by omega), if_neg (by omega)]

theorem write16_write16 (h : offset ≤ output.length) (old value : UInt16) :
    write16 (write16 output offset old) offset value = write16 output offset value := by
  rw [write16.eq_1 output offset old, append_assoc, write16_append (length_take_of_le h), write16,
    append_assoc]

theorem take_write16 (h : offset + 2 ≤ n) (hn : n ≤ output.length) (value : UInt16) :
    (write16 output offset value).take n = write16 (output.take n) offset value := by
  have hfront : (output.take offset ++ bigEndian 2 value.toNat).length = offset + 2 := by
    rw [length_append, length_bigEndian, length_take_of_le (by omega)]
  rw [write16, write16, take_take, min_eq_left (by omega), drop_take, take_append,
    take_of_length_le (by omega), hfront]

/-! ## Readers -/

section Reads

variable {α σ ρ : Type*} {read : ℕ → List α → σ → ρ} {l l' : List α} {s s' s'' : σ}

/-- A reader, with enough fuel, takes `l` and goes on in the state `s'`, whatever follows. -/
def Reads (read : ℕ → List α → σ → ρ) (l : List α) (s s' : σ) : Prop :=
  ∀ fuel rest, (l ++ rest).length ≤ fuel →
    ∃ fuel', rest.length ≤ fuel' ∧ read fuel (l ++ rest) s = read fuel' rest s'

theorem Reads.nil (s : σ) : Reads read [] s s := fun fuel _ h => ⟨fuel, h, rfl⟩

theorem Reads.append (h : Reads read l s s') (h' : Reads read l' s' s'') :
    Reads read (l ++ l') s s'' := by
  intro fuel rest hfuel
  rw [append_assoc] at hfuel ⊢
  obtain ⟨fuel', hfuel', heq⟩ := h fuel _ hfuel
  obtain ⟨fuel'', hfuel'', heq'⟩ := h' fuel' rest hfuel'
  exact ⟨fuel'', hfuel'', heq.trans heq'⟩

/-- What may be left out, the reader takes if it is there. -/
theorem Reads.ite {p : Prop} [Decidable p] (h : p → Reads read l s s') :
    Reads read (if p then l else []) s (if p then s' else s) := by
  split
  case isTrue hp => exact h hp
  case isFalse => exact .nil s

end Reads

/-! ## Sums of words -/

/-- The sum of the words of 16 bits. An odd byte at the end is the upper half of one. -/
def wordSum : Bytes → ℕ
  | [] => 0
  | [a] => a.toNat * 256
  | a :: b :: rest => a.toNat * 256 + b.toNat + wordSum rest

theorem wordSum_append {l : Bytes} (h : l.length % 2 = 0) (l' : Bytes) :
    wordSum (l ++ l') = wordSum l + wordSum l' := by
  induction l using wordSum.induct with
  | case1 => rw [nil_append, wordSum, zero_add]
  | case2 => exact absurd h (by simp)
  | case3 _ _ rest ih =>
    have hrest : rest.length % 2 = 0 := by
      rwa [length_cons, length_cons, add_assoc, Nat.add_mod_right] at h
    rw [cons_append, cons_append, wordSum, wordSum, ih hrest, add_assoc (_ + _)]

theorem wordSum_le (l : Bytes) : wordSum l ≤ (l.length + 1) / 2 * 65535 := by
  induction l using wordSum.induct with
  | case1 => exact Nat.zero_le _
  | case2 a =>
    have ha := a.toNat_lt
    rw [wordSum, length_singleton]
    omega
  | case3 a b =>
    have ha := a.toNat_lt
    have hb := b.toNat_lt
    rw [wordSum, length_cons, length_cons]
    omega

theorem wordSum_bigEndian (value : UInt16) : wordSum (bigEndian 2 value.toNat) = value.toNat := by
  have hlt : value.toNat / 256 < 256 := Nat.div_lt_of_lt_mul value.toNat_lt
  simp only [bigEndian, nil_append, singleton_append, wordSum, UInt8.toNat_ofNat', add_zero]
  rw [Nat.mod_eq_of_lt hlt]
  exact Nat.div_add_mod' ..

/-- A word that is written where there are zeros is added to the sum. -/
theorem wordSum_write16 {l : Bytes} {offset : ℕ} (heven : offset % 2 = 0)
    (hlen : offset + 2 ≤ l.length) (hzero : l = write16 l offset 0) (value : UInt16) :
    wordSum (write16 l offset value) = wordSum l + value.toNat := by
  have hsum : ∀ v : UInt16, wordSum (write16 l offset v) =
      wordSum (l.take offset) + v.toNat + wordSum (l.drop (offset + 2)) := fun v => by
    have htake : (l.take offset).length = offset := length_take_of_le (by omega)
    rw [write16, wordSum_append (by rw [length_append, htake, length_bigEndian]; omega),
      wordSum_append (by rw [htake, heven]), wordSum_bigEndian]
  have h0 := hsum 0
  rw [← hzero] at h0
  rw [hsum, h0, UInt16.toNat_zero]
  ring

/-! ## Carries -/

/-- Add the carries out of 16 bits back, round by round. -/
def foldCarries : ℕ → ℕ → ℕ
  | 0, sum => sum
  | rounds + 1, sum =>
    if sum / 65536 = 0 then sum else foldCarries rounds (sum % 65536 + sum / 65536)

/-- The carries do not change the sum modulo `65535`. -/
theorem foldCarries_mod (rounds sum : ℕ) : foldCarries rounds sum % 65535 = sum % 65535 := by
  induction rounds generalizing sum with
  | zero => rfl
  | succ _ ih =>
    rw [foldCarries]
    split
    · rfl
    · rw [ih]
      omega

theorem foldCarries_eq_zero (rounds sum : ℕ) : foldCarries rounds sum = 0 ↔ sum = 0 := by
  induction rounds generalizing sum with
  | zero => rfl
  | succ _ ih =>
    rw [foldCarries]
    split
    · rfl
    · rw [ih]
      omega

variable {sum : ℕ}

/-- For a sum of 32 bits, two rounds are enough. -/
theorem foldCarries_two_lt (h : sum < 2 ^ 32) : foldCarries 2 sum < 65536 := by
  simp only [foldCarries]
  split
  · omega
  · split <;> omega

/-- All bits are set if the sum is a multiple of `65535`, but not zero. -/
theorem foldCarries_eq_max_iff (h : sum < 2 ^ 32) :
    foldCarries 2 sum = 65535 ↔ sum ≠ 0 ∧ sum % 65535 = 0 := by
  have hmod := foldCarries_mod 2 sum
  have hzero := foldCarries_eq_zero 2 sum
  have hlt := foldCarries_two_lt h
  omega

/-- The complement of a sum completes it to a multiple of `65535`. -/
theorem complement_sum (h : sum < 2 ^ 32) :
    sum + (65535 - foldCarries 2 sum) ≠ 0 ∧ (sum + (65535 - foldCarries 2 sum)) % 65535 = 0 := by
  have hmod := foldCarries_mod 2 sum
  have hzero := foldCarries_eq_zero 2 sum
  have hlt := foldCarries_two_lt h
  omega

/-! ## One's-complement sums -/

/-- Add two words. A carry out of the 16 bits is added back. -/
def onesAdd (a b : ℕ) : ℕ := (a + b) % 65536 + (a + b) / 65536

/-- The words of 16 bits. An odd byte at the end is the upper half of one. -/
def words : Bytes → List ℕ
  | [] => []
  | [a] => [a.toNat * 256]
  | a :: b :: rest => (a.toNat * 256 + b.toNat) :: words rest

theorem sum_words (l : Bytes) : (words l).sum = wordSum l := by
  induction l using words.induct with
  | case1 => rfl
  | case2 => exact add_zero _
  | case3 _ _ _ ih => rw [words, sum_cons, ih, wordSum]

theorem words_lt {l : Bytes} {w : ℕ} (hw : w ∈ words l) : w < 65536 := by
  induction l using words.induct with
  | case1 => cases hw
  | case2 a =>
    have ha := a.toNat_lt
    rw [words, mem_singleton] at hw
    omega
  | case3 a b _ ih =>
    have ha := a.toNat_lt
    have hb := b.toNat_lt
    rw [words, mem_cons] at hw
    rcases hw with rfl | hw
    · omega
    · exact ih hw

/-- Carries that are added back at each word come to the same as those of the whole sum, or of
    another one that differs by a multiple of `65535`. -/
theorem foldl_onesAdd {ws : List ℕ} {a : ℕ} (ha : a < 65536) (hws : ∀ w ∈ ws, w < 65536)
    (h : sum < 2 ^ 32) (hmod : sum % 65535 = (a + ws.sum) % 65535)
    (hzero : sum = 0 ↔ a + ws.sum = 0) : ws.foldl onesAdd a = foldCarries 2 sum := by
  have hfold : ws.foldl onesAdd a < 65536 ∧ ws.foldl onesAdd a % 65535 = (a + ws.sum) % 65535 ∧
      (ws.foldl onesAdd a = 0 ↔ a + ws.sum = 0) := by
    clear hmod hzero
    induction ws generalizing a with
    | nil => exact ⟨ha, rfl, Iff.rfl⟩
    | cons w _ ih =>
      have hw := hws w mem_cons_self
      have hadd : onesAdd a w < 65536 ∧ onesAdd a w % 65535 = (a + w) % 65535 ∧
          (onesAdd a w = 0 ↔ a + w = 0) := by
        rw [onesAdd]
        omega
      obtain ⟨hlt, hmod, hzero⟩ := ih hadd.1 fun v hv => hws v (mem_cons_of_mem _ hv)
      rw [foldl_cons, sum_cons]
      omega
  have hmod' := foldCarries_mod 2 sum
  have hzero' := foldCarries_eq_zero 2 sum
  have hlt := foldCarries_two_lt h
  omega

end Netstack2
