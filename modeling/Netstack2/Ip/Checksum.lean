import Netstack2.Flow
import Netstack2.Lib.Bytes

/-!
# The Internet checksum

The checksum of headers and segments, and the sums of the pseudo-headers that segments
are checked with. The sums have 32 bits, and would lose a carry out of them; a packet
is too short for that.

A checksum that is written to its field, which was zero, is found right by the reader
(`internetChecksum_write16`), also where zero stands for no checksum and all bits set
are written for it (`internetChecksum_write16_nonzero`).
-/

namespace Netstack2

variable {data : Bytes}

/-- The word of two bytes. -/
def word (a b : UInt8) : UInt32 := .ofNat (a.toNat * 256 + b.toNat)

/-- Add the words of `data` to `acc`: two words at a time, then one, and then an odd
    byte as the upper half of one. -/
def addWords : Bytes → UInt32 → UInt32
  | a :: b :: c :: d :: rest, acc => addWords rest (acc + (word c d + word a b))
  | a :: b :: rest, acc => addWords rest (acc + word a b)
  | [a], acc => acc + word a 0
  | [], acc => acc

/-- The complement of the sum of `data`, from `seed` on, with its carries added back. -/
def internetChecksum (data : Bytes) (seed : UInt32 := 0) : UInt16 :=
  ~~~(UInt16.ofNat (foldCarries 2 (addWords data seed).toNat))

def ipv4PseudoHeaderSeed (src dst : Vector UInt8 4) (protocol : UInt8) (transportLen : UInt16) :
    UInt32 :=
  addWords dst.toList (addWords src.toList 0) + protocol.toUInt32 + transportLen.toUInt32

def ipv6PseudoHeaderSeed (src dst : Vector UInt8 16) (protocol : UInt8) (upperLen : UInt32) :
    UInt32 :=
  addWords dst.toList (addWords src.toList 0) + (upperLen >>> 16 &&& 0xffff) +
    (upperLen &&& 0xffff) + protocol.toUInt32

/-- The seed for a segment of `length` bytes, between addresses of one family. -/
def pseudoHeaderSeed (source destination : IpAddress) (protocol : UInt8) (length : ℕ) : UInt32 :=
  match source, destination with
  | .ipv4 src, .ipv4 dst => ipv4PseudoHeaderSeed src dst protocol (.ofNat length)
  | .ipv6 src, .ipv6 dst => ipv6PseudoHeaderSeed src dst protocol (.ofNat length)
  | _, _ => 0

/-! ## The sum -/

theorem toNat_word (a b : UInt8) : (word a b).toNat = a.toNat * 256 + b.toNat := by
  have ha := a.toNat_lt
  have hb := b.toNat_lt
  rw [word, UInt32.toNat_ofNat']
  omega

theorem toNat_addWords (data : Bytes) (acc : UInt32) :
    (addWords data acc).toNat = (acc.toNat + wordSum data) % 2 ^ 32 := by
  induction data, acc using addWords.induct with
  | case1 _ _ _ _ _ _ ih =>
    rw [addWords, ih, wordSum, wordSum, UInt32.toNat_add, UInt32.toNat_add, toNat_word, toNat_word]
    omega
  | case2 _ _ _ _ hrest ih =>
    rw [addWords, ih, wordSum, UInt32.toNat_add, toNat_word]
    · omega
    · exact hrest
  | case3 => rw [addWords, wordSum, UInt32.toNat_add, toNat_word, UInt8.toNat_zero, add_zero]
  | case4 acc => rw [addWords, wordSum, add_zero, Nat.mod_eq_of_lt acc.toNat_lt]

theorem toNat_internetChecksum {seed : UInt32} (h : seed.toNat + wordSum data < 2 ^ 32) :
    (internetChecksum data seed).toNat = 65535 - foldCarries 2 (seed.toNat + wordSum data) := by
  have hlt := foldCarries_two_lt h
  rw [internetChecksum, toNat_addWords, Nat.mod_eq_of_lt h, UInt16.toNat_not, UInt16.toNat_ofNat',
    Nat.mod_eq_of_lt hlt]
  rfl

/-- A checksum is right if the sum is a multiple of `65535`, but not zero. -/
theorem internetChecksum_eq_zero_iff {seed : UInt32} (h : seed.toNat + wordSum data < 2 ^ 32) :
    internetChecksum data seed = 0 ↔
      seed.toNat + wordSum data ≠ 0 ∧ (seed.toNat + wordSum data) % 65535 = 0 := by
  have hlt := foldCarries_two_lt h
  rw [← foldCarries_eq_max_iff h, ← UInt16.toNat_inj, toNat_internetChecksum h, UInt16.toNat_zero]
  omega

/-! ## Pseudo-headers -/

theorem ipv4PseudoHeaderSeed_lt (src dst : Vector UInt8 4) (protocol : UInt8)
    (transportLen : UInt16) :
    (ipv4PseudoHeaderSeed src dst protocol transportLen).toNat < 2 ^ 21 := by
  have hsrc := wordSum_le src.toList
  have hdst := wordSum_le dst.toList
  have hprotocol := protocol.toNat_lt
  have hlen := transportLen.toNat_lt
  rw [Vector.length_toList] at hsrc hdst
  simp only [ipv4PseudoHeaderSeed, UInt32.toNat_add, toNat_addWords, UInt32.toNat_zero,
    UInt8.toNat_toUInt32, UInt16.toNat_toUInt32]
  omega

theorem ipv6PseudoHeaderSeed_lt (src dst : Vector UInt8 16) (protocol : UInt8)
    (upperLen : UInt32) : (ipv6PseudoHeaderSeed src dst protocol upperLen).toNat < 2 ^ 21 := by
  have hsrc := wordSum_le src.toList
  have hdst := wordSum_le dst.toList
  have hprotocol := protocol.toNat_lt
  have hmask : ∀ x : UInt32, (x &&& 0xffff).toNat < 65536 := fun x => by
    rw [UInt32.toNat_and]
    exact lt_of_le_of_lt Nat.and_le_right (by decide)
  have hhigh := hmask (upperLen >>> 16)
  have hlow := hmask upperLen
  rw [Vector.length_toList] at hsrc hdst
  simp only [ipv6PseudoHeaderSeed, UInt32.toNat_add, toNat_addWords, UInt32.toNat_zero,
    UInt8.toNat_toUInt32]
  omega

theorem pseudoHeaderSeed_lt (source destination : IpAddress) (protocol : UInt8) (length : ℕ) :
    (pseudoHeaderSeed source destination protocol length).toNat < 2 ^ 21 := by
  unfold pseudoHeaderSeed
  split
  · exact ipv4PseudoHeaderSeed_lt ..
  · exact ipv6PseudoHeaderSeed_lt ..
  · decide

/-! ## Checksums in their fields -/

section Write

variable {data : Bytes} {offset : ℕ} {seed : UInt32}

/-- A value that completes the sum, written to a field of zeros, is found right. -/
theorem internetChecksum_write16_of_completes (heven : offset % 2 = 0)
    (hoffset : offset + 2 ≤ data.length) (hzero : data = write16 data offset 0)
    (hlen : data.length ≤ 65575) (hseed : seed.toNat < 2 ^ 21) {value : UInt16}
    (hvalue : seed.toNat + wordSum data + value.toNat ≠ 0 ∧
      (seed.toNat + wordSum data + value.toNat) % 65535 = 0) :
    internetChecksum (write16 data offset value) seed = 0 := by
  have hsum := wordSum_write16 heven hoffset hzero value
  have hle := wordSum_le (write16 data offset value)
  rw [length_write16 hoffset] at hle
  rw [internetChecksum_eq_zero_iff (by omega), hsum, ← add_assoc]
  exact hvalue

/-- The checksum, written to its field, is found right. -/
theorem internetChecksum_write16 (heven : offset % 2 = 0) (hoffset : offset + 2 ≤ data.length)
    (hzero : data = write16 data offset 0) (hlen : data.length ≤ 65575)
    (hseed : seed.toNat < 2 ^ 21) :
    internetChecksum (write16 data offset (internetChecksum data seed)) seed = 0 := by
  have hle := wordSum_le data
  have hlt : seed.toNat + wordSum data < 2 ^ 32 := by omega
  refine internetChecksum_write16_of_completes heven hoffset hzero hlen hseed ?_
  rw [toNat_internetChecksum hlt]
  exact complement_sum hlt

/-- If the checksum is zero, all bits set do as well. -/
theorem internetChecksum_write16_nonzero (heven : offset % 2 = 0)
    (hoffset : offset + 2 ≤ data.length) (hzero : data = write16 data offset 0)
    (hlen : data.length ≤ 65575) (hseed : seed.toNat < 2 ^ 21) :
    internetChecksum (write16 data offset
      (if internetChecksum data seed = 0 then 0xffff else internetChecksum data seed)) seed = 0 := by
  have hle := wordSum_le data
  have hlt : seed.toNat + wordSum data < 2 ^ 32 := by omega
  split
  case isTrue h =>
    refine internetChecksum_write16_of_completes heven hoffset hzero hlen hseed ?_
    obtain ⟨-, hmod⟩ := (internetChecksum_eq_zero_iff hlt).1 h
    rw [show (0xffff : UInt16).toNat = 65535 from rfl]
    omega
  case isFalse => exact internetChecksum_write16 heven hoffset hzero hlen hseed

end Write

/-- The checksum of a packet is the complement of the one's-complement sum of the seed, as two
    words, and the words of the packet; the sum stays within 32 bits. Stored at an even position
    that was zero, it makes the checksum zero. -/
theorem internetChecksum_law {seed : UInt32} (hlen : data.length ≤ 65575)
    (hseed : seed = 0 ∨
      (∃ src dst protocol length, seed = ipv4PseudoHeaderSeed src dst protocol length) ∨
      ∃ src dst protocol length, seed = ipv6PseudoHeaderSeed src dst protocol length) :
    seed.toNat + wordSum data < 2 ^ 32 ∧
      (addWords data seed).toNat = seed.toNat + wordSum data ∧
      (internetChecksum data seed).toNat =
        65535 - (seed.toNat % 65536 :: words data).foldl onesAdd (seed.toNat / 65536) ∧
      ∀ offset, offset % 2 = 0 → offset + 2 ≤ data.length →
        internetChecksum (write16 data offset (internetChecksum (write16 data offset 0) seed))
          seed = 0 := by
  have hlt : seed.toNat < 2 ^ 21 := by
    rcases hseed with rfl | ⟨src, dst, protocol, length, rfl⟩ | ⟨src, dst, protocol, length, rfl⟩
    · decide
    · exact ipv4PseudoHeaderSeed_lt ..
    · exact ipv6PseudoHeaderSeed_lt ..
  have hle := wordSum_le data
  have hsum : seed.toNat + wordSum data < 2 ^ 32 := by omega
  refine ⟨hsum, by rw [toNat_addWords, Nat.mod_eq_of_lt hsum], ?_, fun offset heven hoffset => ?_⟩
  · have hwords : ∀ w ∈ seed.toNat % 65536 :: words data, w < 65536 := by
      intro w hw
      rcases List.mem_cons.1 hw with rfl | hw
      · exact Nat.mod_lt _ (by decide)
      · exact words_lt hw
    rw [toNat_internetChecksum hsum, foldl_onesAdd (by omega) hwords hsum]
    all_goals
      rw [List.sum_cons, sum_words]
      omega
  · have hzero := (write16_write16 (by omega : offset ≤ data.length) 0 0).symm
    have hlen' := length_write16 hoffset 0
    rw [← write16_write16 (by omega) 0]
    exact internetChecksum_write16 heven (by omega) hzero (by omega) hlt

/-- The sum of an odd number of bytes and a pseudo-header, with a carry. -/
theorem internetChecksum_law_carries :
    let seed := ipv4PseudoHeaderSeed #v[10, 0, 0, 1] #v[10, 0, 0, 2] 6 5
    seed.toNat = 0x140E ∧ words [0xFF, 0xFF, 0x80, 0x01, 0x80] = [0xFFFF, 0x8001, 0x8000] ∧
      (internetChecksum [0xFF, 0xFF, 0x80, 0x01, 0x80] seed).toNat =
        65535 - [0x140E, 0xFFFF, 0x8001, 0x8000].foldl onesAdd 0 :=
  ⟨by decide, by decide,
    (internetChecksum_law (by decide) (.inr (.inl ⟨_, _, _, _, rfl⟩))).2.2.1⟩

end Netstack2
