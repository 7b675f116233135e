import Mathlib

/-!
# Rings with an occupancy bitmap

A ring of fixed capacity whose cells may be occupied in any order: the values
in one array, the occupancy in the bits of another, and the index of the first
cell, from which the *logical* offsets count.

Only `cell` matters to its users: the value at a logical offset, if there is
one. `cell_put` and `cell_dropFront` say what the two ways to change a ring do
to it; where a cell physically is, and in which bit its occupancy, never shows.
-/

namespace Netstack2

open List

/-! ## Bitmaps -/

/-- The bit of `i` in its word. -/
def bitMask (i : ℕ) : UInt64 := 1 <<< UInt64.ofNat (i % 64)

/-- The bit `i` of the words is set. -/
def testBit (words : List UInt64) (i : ℕ) : Bool := (words.getD (i / 64) 0 &&& bitMask i) != 0

/-- Set the bit `i` of the words to `v`. -/
def writeBit (words : List UInt64) (i : ℕ) (v : Bool) : List UInt64 :=
  let word := words.getD (i / 64) 0
  words.set (i / 64) (if v then word ||| bitMask i else word &&& ~~~bitMask i)

@[simp] theorem length_writeBit (words : List UInt64) (i : ℕ) (v : Bool) :
    (writeBit words i v).length = words.length := length_set ..

theorem toBitVec_bitMask (i : ℕ) : (bitMask i).toBitVec = BitVec.twoPow 64 (i % 64) := by
  have hshift : ((UInt64.ofNat (i % 64)).toBitVec % 64).toNat = i % 64 := by
    rw [BitVec.toNat_umod, UInt64.toNat_toBitVec, UInt64.toNat_ofNat']
    show i % 64 % 2 ^ 64 % 64 = i % 64
    omega
  rw [bitMask, UInt64.toBitVec_shiftLeft, BitVec.shiftLeft_eq', hshift, BitVec.twoPow_eq]
  rfl

theorem testBit_eq (words : List UInt64) (i : ℕ) :
    testBit words i = (words.getD (i / 64) 0).toBitVec.getLsbD (i % 64) := by
  have hi : i % 64 < 64 := Nat.mod_lt _ (by decide)
  have hone : BitVec.twoPow 64 (i % 64) ≠ 0#64 := fun h => by
    have := congrArg (·.getLsbD (i % 64)) h
    simp [hi] at this
  have hword : ∀ w : UInt64, (w &&& bitMask i != 0) = w.toBitVec.getLsbD (i % 64) := by
    intro w
    have hand : (w &&& bitMask i).toBitVec =
        if w.toBitVec.getLsbD (i % 64) then BitVec.twoPow 64 (i % 64) else 0#64 := by
      rw [UInt64.toBitVec_and, toBitVec_bitMask, BitVec.and_twoPow]
    rw [Bool.eq_iff_iff, bne_iff_ne, ne_eq, ← UInt64.toBitVec_inj, hand]
    cases w.toBitVec.getLsbD (i % 64) <;> simp [hone]
  exact hword _

/-- A bit that is written is read back, and no other changes. -/
theorem testBit_writeBit {words : List UInt64} {i : ℕ} (hi : i < 64 * words.length) (v : Bool)
    (j : ℕ) : testBit (writeBit words i v) j = if j = i then v else testBit words j := by
  have hbit : i % 64 < 64 := Nat.mod_lt _ (by decide)
  have hlt : i / 64 < words.length := by omega
  rw [testBit_eq, testBit_eq, writeBit]
  by_cases hword : j / 64 = i / 64
  · -- the same word: only the bit of `i` differs
    rw [hword, getD_eq_getElem?_getD, getElem?_set_self hlt, Option.getD_some]
    by_cases hj : j = i
    · subst hj
      cases v <;> simp [UInt64.toBitVec_and, UInt64.toBitVec_or, UInt64.toBitVec_not,
        toBitVec_bitMask, hbit]
    · have hne : j % 64 ≠ i % 64 := by omega
      have hbit' : j % 64 < 64 := Nat.mod_lt _ (by decide)
      cases v <;> simp [UInt64.toBitVec_and, UInt64.toBitVec_or, UInt64.toBitVec_not,
        toBitVec_bitMask, hj, hne, hbit']
  · have hj : j ≠ i := fun h => hword (h ▸ rfl)
    rw [if_neg hj, getD_eq_getElem?_getD, getElem?_set_ne (Ne.symm hword), ← getD_eq_getElem?_getD]

/-! ## Rings -/

/-- A ring of `capacity` cells. -/
structure Ring (α : Type*) where
  capacity : ℕ
  storage : List α
  occupancy : List UInt64
  firstIndex : ℕ := 0
  deriving DecidableEq

namespace Ring

variable {α : Type*} (r : Ring α)

/-- A ring with all cells free. -/
def empty [Inhabited α] (capacity : ℕ) : Ring α where
  capacity := capacity
  storage := List.replicate capacity default
  occupancy := List.replicate ((capacity + 63) / 64) 0

/-- Where the cell at a logical offset is. -/
def physicalIndex (logical : ℕ) : ℕ :=
  let untilEnd := r.capacity - r.firstIndex
  if logical < untilEnd then r.firstIndex + logical else logical - untilEnd

def occupied (physical : ℕ) : Bool := testBit r.occupancy physical

def setOccupied (physical : ℕ) (v : Bool) : Ring α :=
  { r with occupancy := writeBit r.occupancy physical v }

/-- Occupy the cell at a logical offset. -/
def put (logical : ℕ) (x : α) : Ring α :=
  { r with storage := r.storage.set (r.physicalIndex logical) x }.setOccupied
    (r.physicalIndex logical) true

/-- Free the first `n` cells. -/
def clearFront (r : Ring α) : ℕ → Ring α
  | 0 => r
  | n + 1 => (clearFront r n).setOccupied (r.physicalIndex n) false

/-- Free the first `n` cells and continue with the one after them. -/
def dropFront (n : ℕ) : Ring α :=
  { r.clearFront n with firstIndex := (r.clearFront n).physicalIndex n }

/-- The value at a logical offset, if the cell is occupied. -/
def cell (logical : ℕ) : Option α :=
  if r.occupied (r.physicalIndex logical) then r.storage[r.physicalIndex logical]? else none

/-- The arrays have the size of the ring, and the first cell is in it. -/
structure WF : Prop where
  storage : r.storage.length = r.capacity
  occupancy : r.capacity ≤ 64 * r.occupancy.length
  firstIndex : r.firstIndex < r.capacity

variable {r} {l n : ℕ}

theorem physicalIndex_lt (h : r.WF) (hl : l < r.capacity) : r.physicalIndex l < r.capacity := by
  have := h.firstIndex
  unfold physicalIndex
  dsimp only
  split <;> omega

theorem physicalIndex_inj (h : r.WF) {m : ℕ} (hl : l < r.capacity) (hm : m < r.capacity) :
    r.physicalIndex l = r.physicalIndex m ↔ l = m := by
  have := h.firstIndex
  unfold physicalIndex
  dsimp only
  split <;> split <;> omega

theorem occupied_setOccupied (h : r.WF) {i : ℕ} (hi : i < r.capacity) (v : Bool) (j : ℕ) :
    (r.setOccupied i v).occupied j = if j = i then v else r.occupied j :=
  testBit_writeBit (lt_of_lt_of_le hi h.occupancy) v j

theorem WF.setOccupied (h : r.WF) (i : ℕ) (v : Bool) : (r.setOccupied i v).WF :=
  ⟨h.storage, by simpa [Ring.setOccupied] using h.occupancy, h.firstIndex⟩

theorem cell_isSome (h : r.WF) (hl : l < r.capacity) :
    (r.cell l).isSome = r.occupied (r.physicalIndex l) := by
  have hlt : r.physicalIndex l < r.storage.length := h.storage ▸ physicalIndex_lt h hl
  unfold cell
  split
  case isTrue ho => rw [ho, getElem?_eq_getElem hlt]; rfl
  case isFalse ho => rw [Bool.not_eq_true] at ho; rw [ho]; rfl

/-! ### Occupying a cell -/

theorem WF.set (h : r.WF) (i : ℕ) (x : α) : WF { r with storage := r.storage.set i x } :=
  ⟨by simpa using h.storage, h.occupancy, h.firstIndex⟩

theorem WF.put (h : r.WF) (l : ℕ) (x : α) : (r.put l x).WF := (h.set _ x).setOccupied _ _

@[simp] theorem length_storage_put (l : ℕ) (x : α) :
    (r.put l x).storage.length = r.storage.length := length_set

@[simp] theorem length_occupancy_put (l : ℕ) (x : α) :
    (r.put l x).occupancy.length = r.occupancy.length := length_writeBit ..

theorem cell_put (h : r.WF) (hl : l < r.capacity) (x : α) {m : ℕ} (hm : m < r.capacity) :
    (r.put l x).cell m = if m = l then some x else r.cell m := by
  have hindex : ∀ k, (r.put l x).physicalIndex k = r.physicalIndex k := fun _ => rfl
  have hlt := physicalIndex_lt h hl
  have hocc : (r.put l x).occupied (r.physicalIndex m) =
      if m = l then true else r.occupied (r.physicalIndex m) := by
    refine (occupied_setOccupied (h.set _ x) hlt true _).trans ?_
    simp only [physicalIndex_inj h hm hl]
    rfl
  unfold cell
  rw [hindex, hocc]
  by_cases hml : m = l
  · subst hml
    simp [Ring.put, setOccupied, h.storage, hlt]
  · have hne : r.physicalIndex l ≠ r.physicalIndex m := fun he =>
      hml ((physicalIndex_inj h hl hm).1 he).symm
    simp only [if_neg hml]
    simp [Ring.put, setOccupied, getElem?_set_ne hne]

/-! ### Freeing the front -/

@[simp] theorem clearFront_capacity (n : ℕ) : (r.clearFront n).capacity = r.capacity := by
  induction n with
  | zero => rfl
  | succ n ih => exact ih

@[simp] theorem clearFront_firstIndex (n : ℕ) : (r.clearFront n).firstIndex = r.firstIndex := by
  induction n with
  | zero => rfl
  | succ n ih => exact ih

@[simp] theorem clearFront_storage (n : ℕ) : (r.clearFront n).storage = r.storage := by
  induction n with
  | zero => rfl
  | succ n ih => exact ih

@[simp] theorem length_occupancy_clearFront (n : ℕ) :
    (r.clearFront n).occupancy.length = r.occupancy.length := by
  induction n with
  | zero => rfl
  | succ n ih => exact (length_writeBit ..).trans ih

@[simp] theorem clearFront_physicalIndex (n l : ℕ) :
    (r.clearFront n).physicalIndex l = r.physicalIndex l := by
  simp [physicalIndex]

theorem WF.clearFront (h : r.WF) (n : ℕ) : (r.clearFront n).WF := by
  induction n with
  | zero => exact h
  | succ n ih => exact ih.setOccupied _ _

theorem cell_clearFront (h : r.WF) (hn : n ≤ r.capacity) (hl : l < r.capacity) :
    (r.clearFront n).cell l = if l < n then none else r.cell l := by
  induction n with
  | zero => rfl
  | succ n ih =>
    have hocc : (r.clearFront (n + 1)).occupied (r.physicalIndex l) =
        if l = n then false else (r.clearFront n).occupied (r.physicalIndex l) := by
      refine (occupied_setOccupied (h.clearFront n) ?_ false _).trans ?_
      · rw [clearFront_capacity]
        exact physicalIndex_lt h hn
      · simp only [physicalIndex_inj h hl hn]
    have hcell := ih (Nat.le_of_succ_le hn)
    unfold cell at hcell ⊢
    rw [clearFront_physicalIndex, clearFront_storage] at hcell ⊢
    rw [hocc]
    by_cases hln : l = n
    · simp [hln]
    · rw [if_neg hln, hcell]
      have : l < n + 1 ↔ l < n := by omega
      simp only [this]

/-- The cell at offset `l` was at `n + l` before the first `n` were freed; the last
    `n` cells are those that were freed. -/
theorem cell_dropFront (h : r.WF) (hn : n ≤ r.capacity) (hl : l < r.capacity) :
    (r.dropFront n).cell l = if n + l < r.capacity then r.cell (n + l) else none := by
  have hindex : (r.dropFront n).physicalIndex l =
      r.physicalIndex (if n + l < r.capacity then n + l else n + l - r.capacity) := by
    unfold dropFront physicalIndex
    simp only [clearFront_capacity, clearFront_firstIndex]
    split_ifs <;> omega
  have hcell : (r.dropFront n).cell l =
      (r.clearFront n).cell (if n + l < r.capacity then n + l else n + l - r.capacity) := by
    unfold cell
    rw [hindex, clearFront_physicalIndex]
    rfl
  rw [hcell, cell_clearFront h hn (by split <;> omega)]
  split_ifs <;> first | rfl | omega

theorem WF.dropFront (h : r.WF) (hn : n ≤ r.capacity) : (r.dropFront n).WF := by
  have hc := h.clearFront n
  refine ⟨hc.storage, hc.occupancy, ?_⟩
  have hfirst := h.firstIndex
  unfold Ring.dropFront physicalIndex
  simp only [clearFront_capacity, clearFront_firstIndex]
  split <;> omega

@[simp] theorem dropFront_capacity (n : ℕ) : (r.dropFront n).capacity = r.capacity :=
  clearFront_capacity n

/-! ### Counting -/

/-- The number of occupied cells. -/
def count (r : Ring α) : ℕ := ((Finset.range r.capacity).filter fun l => (r.cell l).isSome).card

theorem count_put (h : r.WF) (hl : l < r.capacity) (hfree : r.cell l = none) (x : α) :
    (r.put l x).count = r.count + 1 := by
  have hset : ((Finset.range r.capacity).filter fun m => ((r.put l x).cell m).isSome) =
      insert l ((Finset.range r.capacity).filter fun m => (r.cell m).isSome) := by
    ext m
    simp only [Finset.mem_filter, Finset.mem_range, Finset.mem_insert]
    constructor
    · rintro ⟨hm, hs⟩
      rw [cell_put h hl x hm] at hs
      by_cases hml : m = l
      · exact .inl hml
      · rw [if_neg hml] at hs
        exact .inr ⟨hm, hs⟩
    · rintro (rfl | ⟨hm, hs⟩)
      · exact ⟨hl, by rw [cell_put h hl x hl, if_pos rfl]; rfl⟩
      · refine ⟨hm, ?_⟩
        rw [cell_put h hl x hm]
        split
        · rfl
        · exact hs
  show (Finset.filter _ (Finset.range r.capacity)).card = _
  rw [hset, Finset.card_insert_of_notMem]
  · rfl
  · simp [hfree]

/-- Freeing `n` occupied cells. -/
theorem count_dropFront (h : r.WF) (hn : n ≤ r.capacity) (hfront : ∀ l < n, (r.cell l).isSome) :
    (r.dropFront n).count + n = r.count := by
  have hset : ((Finset.range r.capacity).filter fun l => (r.cell l).isSome) =
      ((Finset.range r.capacity).filter fun l => ((r.dropFront n).cell l).isSome).image (n + ·) ∪
        Finset.range n := by
    ext m
    simp only [Finset.mem_filter, Finset.mem_range, Finset.mem_union, Finset.mem_image]
    constructor
    · rintro ⟨hm, hs⟩
      by_cases hmn : m < n
      · exact .inr hmn
      · refine .inl ⟨m - n, ⟨by omega, ?_⟩, by omega⟩
        rw [cell_dropFront h hn (by omega), if_pos (by omega), Nat.add_sub_cancel' (by omega)]
        exact hs
    · rintro (⟨l, ⟨hl, hs⟩, rfl⟩ | hmn)
      · rw [cell_dropFront h hn hl] at hs
        split at hs
        case isTrue hlt => exact ⟨hlt, hs⟩
        case isFalse => cases hs
      · exact ⟨by omega, hfront m hmn⟩
  have hdisjoint : Disjoint
      (((Finset.range r.capacity).filter fun l => ((r.dropFront n).cell l).isSome).image (n + ·))
      (Finset.range n) := by
    rw [Finset.disjoint_left]
    intro m hm hlt
    simp only [Finset.mem_image, Finset.mem_range] at hm hlt
    omega
  unfold count
  rw [hset, Finset.card_union_of_disjoint hdisjoint,
    Finset.card_image_of_injective _ (fun _ _ he => add_left_cancel he), Finset.card_range,
    dropFront_capacity]

/-! ### The empty ring -/

theorem WF.empty [Inhabited α] {capacity : ℕ} (h : 0 < capacity) :
    (Ring.empty capacity : Ring α).WF where
  storage := length_replicate
  occupancy := by
    rw [Ring.empty, length_replicate]
    dsimp only
    omega
  firstIndex := h

theorem cell_empty [Inhabited α] (capacity l : ℕ) : (empty capacity : Ring α).cell l = none := by
  refine if_neg ?_
  unfold occupied testBit empty
  simp [getD_eq_getElem?_getD, getElem?_replicate]
  split <;> simp

theorem count_empty [Inhabited α] (capacity : ℕ) : (empty capacity : Ring α).count = 0 := by
  simp [count, cell_empty]

end Ring

end Netstack2
