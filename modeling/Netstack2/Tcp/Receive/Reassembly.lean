import Netstack2.Lib.Tiling
import Netstack2.Tcp.Receive

/-!
# Reassembly

What a receive buffer is for: an unbounded stream, of which it holds a part. The
abstract buffer is a partial map `held` from stream positions to bytes and the
number of bytes delivered; a segment that is accepted adds its bytes where the
map has none (`arrives`), and delivery moves on along the map.

`Reassembles` relates the two: the ring, read from its first cell on, is the map
from the first undelivered position on. Every operation keeps it, whatever the
order of the segments and however often the sequence numbers and the ring have
wrapped, and so it holds in every run (`ReceiveRun.Reaches.reassembles`):
`reassembly` says what a user of the buffer sees of it.
-/

namespace Netstack2

open List

namespace TcpReceiveBuffer

/-! ## Sequence numbers around `rcvNxt` -/

section

variable {isn sequence : UInt32} {n : ℕ} {z : ℤ}

theorem lt_halfSequenceSpace {x : UInt32} : x < halfSequenceSpace ↔ x.toNat < 2 ^ 31 :=
  UInt32.lt_iff_toNat_lt

/-- A signed offset is less than half the space, on either side. -/
theorem sequenceOffset_cases (h : sequenceOffset sequence (seqAt isn n) = some z) :
    (0 ≤ z ∧ z < 2 ^ 31 ∧ sequence = seqAt isn (n + z.toNat)) ∨
      (z < 0 ∧ -2 ^ 31 < z ∧ seqAt isn n = seqAt sequence (-z).toNat) := by
  have hback := UInt32.toNat_sub (seqAt isn n) sequence
  have hfwd := UInt32.toNat_sub sequence (seqAt isn n)
  have hlt := (seqAt isn n).toNat_lt
  have hlt' := sequence.toNat_lt
  unfold sequenceOffset at h
  dsimp only at h
  obtain ⟨hne, h⟩ := Option.ite_none_left_eq_some.1 h
  have hne' : (sequence - seqAt isn n).toNat ≠ 2 ^ 31 := fun he => hne (UInt32.toNat_inj.1 he)
  split at h
  case isTrue hpos =>
    rw [lt_halfSequenceSpace] at hpos
    cases h
    exact .inl ⟨by omega, by omega, (seqAt_unwrap isn n sequence).symm⟩
  case isFalse hneg =>
    rw [lt_halfSequenceSpace] at hneg
    cases h
    refine .inr ⟨by omega, by omega, ?_⟩
    have hunwrap := seqAt_unwrap sequence 0 (seqAt isn n)
    rw [seqAt_zero, zero_add] at hunwrap
    rw [neg_neg, Int.toNat_natCast]
    exact hunwrap.symm

/-- The offset of a position at or after `n`, less than half the space away. -/
theorem sequenceOffset_seqAt {m : ℕ} (hle : n ≤ m) (hlt : m - n < 2 ^ 31) :
    sequenceOffset (seqAt isn m) (seqAt isn n) = some ((m - n : ℕ) : ℤ) := by
  have hsub := toNat_seqAt_sub isn hle
  rw [Nat.mod_eq_of_lt (by omega)] at hsub
  have hne : seqAt isn m - seqAt isn n ≠ halfSequenceSpace := by
    intro he
    rw [he] at hsub
    change 2 ^ 31 = m - n at hsub
    omega
  rw [sequenceOffset, if_neg hne, if_pos (lt_halfSequenceSpace.2 (by omega)), hsub]

/-- The offset of a position before `n`, less than half the space away. -/
theorem sequenceOffset_seqAt_neg {m : ℕ} (hlt : m < n) (hlt' : n - m < 2 ^ 31) :
    sequenceOffset (seqAt isn m) (seqAt isn n) = some (-((n - m : ℕ) : ℤ)) := by
  have hsub := toNat_seqAt_sub isn (le_of_lt hlt)
  have hneg := toNat_seqAt_sub_neg isn hlt (by omega)
  rw [Nat.mod_eq_of_lt (by omega)] at hsub
  have hne : seqAt isn m - seqAt isn n ≠ halfSequenceSpace := by
    intro he
    rw [he] at hneg
    change 2 ^ 31 = _ at hneg
    omega
  rw [sequenceOffset, if_neg hne, if_neg (by rw [lt_halfSequenceSpace]; omega), hsub]

end

/-! ## The loops -/

/-- A ring of `size` cells with the given content, and the number of those occupied. -/
structure HoldsCells (size : ℕ) (content : ℕ → Option UInt8) (s : InsertState) : Prop where
  wf : s.ring.WF
  capacity : s.ring.capacity = size
  cells : ∀ l < size, s.ring.cell l = content l
  count : s.bytesHeld = s.ring.count

/-- What `data`, written from `first` on, brings to the cell `l`. -/
def written (first : ℕ) (data : Bytes) (l : ℕ) : Option UInt8 :=
  if first ≤ l then data[l - first]? else none

theorem written_cons {first l : ℕ} (x : UInt8) (data : Bytes) (hl : l ≠ first) :
    written first (x :: data) l = written (first + 1) data l := by
  unfold written
  by_cases hle : first ≤ l
  · rw [if_pos hle, if_pos (by omega), show l - first = l - (first + 1) + 1 by omega,
      getElem?_cons_succ]
  · rw [if_neg hle, if_neg (by omega)]

/-- Writing `data` fills the free cells from `first` on. -/
theorem insertBytes_spec {size : ℕ} {content : ℕ → Option UInt8} (sequence : UInt32) (first : ℕ)
    (data : Bytes) {s : InsertState} (h : HoldsCells size content s)
    (hfit : first + data.length ≤ size) :
    HoldsCells size (fun l => (content l).or (written first data l))
      (insertBytes sequence first data s) := by
  induction data generalizing sequence first content s with
  | nil =>
    refine ⟨h.wf, h.capacity, fun l hl => ?_, h.count⟩
    simp [insertBytes, written, h.cells l hl]
  | cons x data ih =>
    rw [length_cons] at hfit
    have hlt : first < size := by omega
    have hlt' : first < s.ring.capacity := h.capacity ▸ hlt
    have hocc := Ring.cell_isSome h.wf hlt'
    rw [h.cells first hlt] at hocc
    rw [insertBytes]
    split
    case isTrue ho =>
      -- the first arrival wins
      rw [ho] at hocc
      obtain ⟨y, hy⟩ := Option.isSome_iff_exists.1 hocc
      obtain ⟨hwf, hcap, hcells, hcount⟩ := ih (sequence + 1) (first + 1)
        (s := { s with duplicateBytes := s.duplicateBytes + 1 })
        ⟨h.wf, h.capacity, h.cells, h.count⟩ (by omega)
      refine ⟨hwf, hcap, fun l hl => (hcells l hl).trans ?_, hcount⟩
      by_cases hl' : l = first
      · rw [hl', hy]
        rfl
      · rw [written_cons x data hl']
    case isFalse ho =>
      rw [Bool.not_eq_true] at ho
      rw [ho] at hocc
      have hnone : content first = none := Option.not_isSome_iff_eq_none.1 (by simp [hocc])
      have hput : HoldsCells size (fun l => if l = first then some x else content l)
          { s with
            ring := s.ring.put first x
            bytesHeld := s.bytesHeld + 1
            acceptedBytes := s.acceptedBytes + 1
            firstNewSequence := s.firstNewSequence.or (some sequence) } := by
        refine ⟨h.wf.put _ _, h.capacity, fun l hl => ?_, ?_⟩
        · rw [Ring.cell_put h.wf hlt' x (h.capacity ▸ hl), h.cells l hl]
        · rw [Ring.count_put h.wf hlt' ((h.cells first hlt).trans hnone), h.count]
      obtain ⟨hwf, hcap, hcells, hcount⟩ := ih (sequence + 1) (first + 1) hput (by omega)
      refine ⟨hwf, hcap, fun l hl => (hcells l hl).trans ?_, hcount⟩
      by_cases hl' : l = first
      · simp [hl', hnone, written]
      · rw [if_neg hl', written_cons x data hl']

/-- The loop passes over occupied cells only, and stops at a free one or at the end of its fuel. -/
theorem nextFree_spec (r : Ring UInt8) (fuel logical : ℕ) :
    logical ≤ nextFree r fuel logical ∧ nextFree r fuel logical ≤ logical + fuel ∧
      (∀ l, logical ≤ l → l < nextFree r fuel logical → r.occupied (r.physicalIndex l)) ∧
      (nextFree r fuel logical < logical + fuel →
        r.occupied (r.physicalIndex (nextFree r fuel logical)) = false) := by
  induction fuel generalizing logical with
  | zero =>
    rw [nextFree]
    exact ⟨le_refl _, le_refl _, by intros; omega, by intros; omega⟩
  | succ _ ih =>
    rw [nextFree]
    split
    case isTrue ho =>
      obtain ⟨hle, hfuel, hocc, hfree⟩ := ih (logical + 1)
      refine ⟨by omega, by omega, fun l hl hlt => ?_, fun hlt => hfree (by omega)⟩
      rcases eq_or_lt_of_le hl with rfl | hl'
      · exact ho
      · exact hocc l hl' hlt
    case isFalse ho =>
      exact ⟨le_refl _, Nat.le_add_right .., by intros; omega, fun _ => by simpa using ho⟩

/-- What is in order stays in order, and the right edge of the window and the block
    stay as they are. -/
structure Extends (b' b : TcpReceiveBuffer) : Prop where
  ready_le : b.readyBytes ≤ b'.readyBytes
  rcvAdv : b'.rcvAdv = b.rcvAdv
  blocked : b'.blocked = b.blocked

theorem onSegment_extends (b : TcpReceiveBuffer) (sequence : UInt32) (data : Bytes)
    (psh : Bool) : Extends (b.onSegment sequence data psh).1 b := by
  refine onSegment_induction (P := fun b' => Extends b' b) (fun _ => ⟨le_refl _, rfl, rfl⟩) ?_ psh
  intro sequence first data leftTrimmed rightTrimmed psh _
  obtain ⟨hle, -⟩ := nextFree_spec (insertBytes sequence (b.readyBytes + first) data
    { ring := b.toRing, bytesHeld := b.bytesHeld }).ring (b.capacity - b.readyBytes) b.readyBytes
  obtain ⟨_, _, _, heq⟩ := b.acceptBytes_eq sequence first data leftTrimmed rightTrimmed psh
  rw [heq]
  exact ⟨hle, rfl, rfl⟩

/-! ## The cells in order -/

/-- The first `readyBytes` cells are occupied. -/
structure InOrder (b : TcpReceiveBuffer) : Prop where
  wf : b.toRing.WF
  ready_le : b.readyBytes ≤ b.capacity
  ready : ∀ l < b.readyBytes, (b.cell l).isSome
  count : b.bytesHeld = b.toRing.count

namespace InOrder

variable {b b' : TcpReceiveBuffer} (h : b.InOrder)

include h

theorem of_eq (hring : b'.toRing = b.toRing) (hready : b'.readyBytes = b.readyBytes)
    (hheld : b'.bytesHeld = b.bytesHeld) : b'.InOrder where
  wf := hring ▸ h.wf
  ready_le := by rw [hring, hready]; exact h.ready_le
  ready := by rw [hring, hready]; exact h.ready
  count := by rw [hheld, hring]; exact h.count

theorem afterInsert {content : ℕ → Option UInt8} {s : InsertState}
    (hs : HoldsCells b.capacity content s)
    (hkeep : ∀ l < b.readyBytes, (content l).isSome) : (b.afterInsert s).InOrder := by
  have hready := h.ready_le
  obtain ⟨hge, hfuel, hocc, -⟩ := nextFree_spec s.ring (b.capacity - b.readyBytes) b.readyBytes
  have hready' : (b.afterInsert s).readyBytes ≤ b.capacity := by
    dsimp only [TcpReceiveBuffer.afterInsert]
    omega
  refine ⟨hs.wf, le_trans hready' (le_of_eq hs.capacity.symm), fun l hl => ?_, hs.count⟩
  have hlt : l < b.capacity := lt_of_lt_of_le hl hready'
  show (s.ring.cell l).isSome
  by_cases hold : l < b.readyBytes
  · -- what was ready keeps its byte
    rw [hs.cells l hlt]
    exact hkeep l hold
  · rw [Ring.cell_isSome hs.wf (hs.capacity ▸ hlt)]
    exact hocc l (by omega) hl

theorem consumeReady (n : ℕ) : (b.consumeReady n).1.InOrder := by
  have hready := h.ready_le
  have hk : min n b.readyBytes ≤ b.capacity := by omega
  have hfront : ∀ l < min n b.readyBytes, (b.cell l).isSome := fun l hl => h.ready l (by omega)
  refine ⟨h.wf.dropFront hk, ?_, fun l hl => ?_, ?_⟩
  · rw [TcpReceiveBuffer.consumeReady, Ring.dropFront_capacity]
    exact le_trans (Nat.sub_le ..) hready
  · change l < b.readyBytes - min n b.readyBytes at hl
    show ((b.toRing.dropFront (min n b.readyBytes)).cell l).isSome
    rw [Ring.cell_dropFront h.wf hk (by omega), if_pos (by omega)]
    exact h.ready _ (by omega)
  · have hcount := Ring.count_dropFront h.wf hk hfront
    show b.bytesHeld - min n b.readyBytes = (b.toRing.dropFront (min n b.readyBytes)).count
    rw [h.count]
    omega

/-- The view shows the first cells, up to the end of the ring. -/
theorem getElem?_readyView {l : ℕ} (hl : l < b.readyView.length) :
    l < b.readyBytes ∧ b.readyView[l]? = b.cell l := by
  have hview : b.readyView =
      (b.storage.drop b.firstIndex).take (min b.readyBytes (b.capacity - b.firstIndex)) := by
    rw [readyView]
    split
    case isTrue hzero => simp [hzero]
    case isFalse => rfl
  have hlt : l < b.readyBytes ∧ l < b.capacity - b.firstIndex := by
    rw [hview, length_take] at hl
    omega
  -- the cell is ready, so it is occupied, and it is not past the end of the ring
  have hindex : b.physicalIndex l = b.firstIndex + l := if_pos hlt.2
  have hocc := Ring.cell_isSome h.wf (l := l) (by omega)
  rw [h.ready l hlt.1] at hocc
  refine ⟨hlt.1, ?_⟩
  rw [Ring.cell, if_pos hocc.symm, hindex]
  simp [hview, hlt]

theorem readyView_ne_nil (hready : b.readyBytes ≠ 0) : b.readyView ≠ [] := by
  have hfirst := h.wf.firstIndex
  have hstorage := h.wf.storage
  rw [readyView, if_neg hready]
  intro hnil
  have := congrArg List.length hnil
  rw [length_take, length_drop, length_nil] at this
  omega

end InOrder

/-! ## The abstract buffer -/

/-- What a segment brings to position `p`, if the window starts at `nxt`. -/
def arrives (isn : UInt32) (nxt window : ℕ) (sequence : UInt32) (data : Bytes) (p : ℕ) :
    Option UInt8 :=
  if nxt ≤ p ∧ p < nxt + window then data[(seqAt isn p - sequence).toNat]? else none

/-- The buffer holds the part of `held` from position `d` on. -/
structure Reassembles (isn : UInt32) (held : ℕ → Option UInt8) (d : ℕ) (b : TcpReceiveBuffer) :
    Prop where
  wf : b.toRing.WF
  capacity : b.capacity ≤ maximumCapacity
  undelivered : b.firstUndelivered = seqAt isn d
  ready_le : b.readyBytes ≤ b.capacity
  nxt : b.rcvNxt = seqAt isn (d + b.readyBytes)
  cells : ∀ l < b.capacity, b.cell l = held (d + l)
  ready : ∀ l < b.readyBytes, (held (d + l)).isSome
  gap : held (d + b.readyBytes) = none
  count : b.bytesHeld = b.toRing.count
  /-- What is held and what is ready ends before the right edge of the window. -/
  adv : ∃ a, b.rcvAdv = seqAt isn a ∧ d + b.readyBytes ≤ a ∧ a ≤ d + b.capacity ∧
    ∀ p, (held p).isSome → p < a

namespace Reassembles

variable {isn : UInt32} {held : ℕ → Option UInt8} {d : ℕ} {b : TcpReceiveBuffer}

section

variable (h : Reassembles isn held d b)

include h

theorem capacity_lt : b.capacity < 2 ^ 31 := lt_of_le_of_lt h.capacity (by decide)

/-- The window ends at the right edge. -/
theorem acceptableWindow_eq {a : ℕ} (ha : b.rcvAdv = seqAt isn a) (hle : d + b.readyBytes ≤ a)
    (hcap : a ≤ d + b.capacity) : d + b.readyBytes + b.acceptableWindow = a := by
  have hmax := h.capacity_lt
  have hsub := toNat_seqAt_sub isn hle
  rw [Nat.mod_eq_of_lt (by omega)] at hsub
  rw [acceptableWindow, ha, h.nxt, if_pos (lt_halfSequenceSpace.2 (by omega)), hsub]
  omega

/-- A cell is occupied if the map has a byte there. -/
theorem occupied_eq {l : ℕ} (hl : l < b.capacity) :
    b.occupied (b.physicalIndex l) = (held (d + l)).isSome := by
  rw [← h.cells l hl, Ring.cell_isSome h.wf hl]

/-! ### Operations that leave the bytes alone -/

theorem setBlocked (v : Bool) : Reassembles isn held d (b.setBlocked v) := { h with }

theorem ackSent : Reassembles isn held d b.ackSent := { h with }

theorem inOrder : b.InOrder := by
  refine ⟨h.wf, h.ready_le, fun l hl => ?_, h.count⟩
  rw [h.cells l (lt_of_lt_of_le hl h.ready_le)]
  exact h.ready l hl

theorem recordAdvertisedWindow (window : ℕ) :
    Reassembles isn held d (b.recordAdvertisedWindow window) := by
  have hmax := h.capacity_lt
  obtain ⟨a, ha, hle, hcap, hheld⟩ := h.adv
  -- the candidate is the position `m`, within the ring like `a`
  let m := d + b.readyBytes + min window (b.capacity - b.readyBytes)
  have hm : b.rcvNxt + UInt32.ofNat (min window (b.capacity - b.readyBytes)) = seqAt isn m := by
    rw [h.nxt, ← seqAt_add]
  unfold TcpReceiveBuffer.recordAdvertisedWindow
  dsimp only
  rw [hm, ha]
  rcases lt_or_ge m a with hlt | hge
  · rw [sequenceOffset_seqAt_neg hlt (by omega)]
    dsimp only
    rw [if_neg (by omega)]
    exact h
  · rw [sequenceOffset_seqAt hge (by omega)]
    dsimp only
    split
    · have hm' : d + b.readyBytes ≤ m ∧ m ≤ d + b.capacity := by omega
      exact { h with
        adv := ⟨m, rfl, hm'.1, hm'.2, fun p hp => lt_of_lt_of_le (hheld p hp) hge⟩ }
    · exact h

/-- The right edge does not move back, and is not before the window that was advertised. -/
theorem le_acceptableWindow (window : ℕ) :
    max b.acceptableWindow (min window (b.capacity - b.readyBytes)) ≤
      (b.recordAdvertisedWindow window).acceptableWindow := by
  have hmax := h.capacity_lt
  obtain ⟨a, ha, hle, hcap, -⟩ := h.adv
  have hwindow := h.acceptableWindow_eq ha hle hcap
  let m := d + b.readyBytes + min window (b.capacity - b.readyBytes)
  have hm : b.rcvNxt + UInt32.ofNat (min window (b.capacity - b.readyBytes)) = seqAt isn m := by
    rw [h.nxt, ← seqAt_add]
  rw [TcpReceiveBuffer.recordAdvertisedWindow, hm, ha]
  rcases lt_or_ge m a with hlt | hge
  · rw [sequenceOffset_seqAt_neg hlt (by omega)]
    dsimp only
    rw [if_neg (by omega)]
    omega
  · rw [sequenceOffset_seqAt hge (by omega)]
    dsimp only
    split
    · have hsub := toNat_seqAt_sub isn (show d + b.readyBytes ≤ m by omega)
      rw [Nat.mod_eq_of_lt (by omega)] at hsub
      have hnew : acceptableWindow { b with rcvAdv := seqAt isn m } = m - (d + b.readyBytes) := by
        simp only [acceptableWindow, h.nxt]
        rw [if_pos (lt_halfSequenceSpace.2 (by omega)), hsub]
        omega
      rw [hnew]
      omega
    · omega

/-- As long as the right edge stays, the window ends where it ended. -/
theorem edge_eq {held' : ℕ → Option UInt8} {d' : ℕ} {b' : TcpReceiveBuffer}
    (h' : Reassembles isn held' d' b') (hadv : b'.rcvAdv = b.rcvAdv) (hle : d ≤ d')
    (hd : d' ≤ d + b.readyBytes) :
    d' + b'.readyBytes + b'.acceptableWindow = d + b.readyBytes + b.acceptableWindow := by
  have hmax := h.capacity_lt
  have hmax' := h'.capacity_lt
  obtain ⟨a, ha, hle, hcap, -⟩ := h.adv
  obtain ⟨a', ha', hle', hcap', -⟩ := h'.adv
  have hsame : a' = a := seqAt_inj isn (ha'.symm.trans (hadv.trans ha)) (by omega) (by omega)
  rw [h.acceptableWindow_eq ha hle hcap, h'.acceptableWindow_eq ha' hle' hcap', hsame]

/-- What is in order is held. -/
theorem readyBytes_le_bytesHeld : b.readyBytes ≤ b.bytesHeld := by
  have hready := h.ready_le
  rw [h.count, Ring.count, ← Finset.card_range b.readyBytes]
  refine Finset.card_le_card fun l hl => ?_
  rw [Finset.mem_range] at hl
  rw [Finset.mem_filter, Finset.mem_range, h.cells l (by omega)]
  exact ⟨by omega, h.ready l hl⟩

/-- A byte in the window is acceptable. -/
theorem isSequenceAcceptable_of_lt {q : ℕ} (hle : d + b.readyBytes ≤ q)
    (hlt : q < d + b.readyBytes + b.acceptableWindow) : b.isSequenceAcceptable (seqAt isn q) 1 := by
  have hmax := h.capacity_lt
  obtain ⟨a, ha, hle', hcap, -⟩ := h.adv
  have hwindow := h.acceptableWindow_eq ha hle' hcap
  rw [isSequenceAcceptable, if_neg (by decide), h.nxt, sequenceOffset_seqAt hle (by omega)]
  dsimp only
  rw [if_neg (by omega), if_neg (by decide)]
  simp only [Bool.or_eq_true, Bool.and_eq_true, decide_eq_true_eq]
  omega

/-! ### Segments -/

/-- Bytes in the window that have not arrived before are added to the map. -/
theorem acceptBytes {incoming : ℕ → Option UInt8} {sequence : UInt32} {first : ℕ}
    {data : Bytes} {leftTrimmed rightTrimmed : ℕ} {psh : Bool}
    (hfit : b.readyBytes + first + data.length ≤ b.capacity)
    (hwritten : ∀ l < b.capacity, written (b.readyBytes + first) data l = incoming (d + l))
    (hwindow : ∀ p, (incoming p).isSome → p < d + b.readyBytes + b.acceptableWindow) :
    Reassembles isn (fun p => (held p).or (incoming p)) d
      (b.acceptBytes sequence first data leftTrimmed rightTrimmed psh).1 := by
  obtain ⟨a, ha, hle, hcap, hheld⟩ := h.adv
  have hadv := h.acceptableWindow_eq ha hle hcap
  let s := insertBytes sequence (b.readyBytes + first) data
    { ring := b.toRing, bytesHeld := b.bytesHeld }
  have hs : HoldsCells b.capacity (fun l => (held (d + l)).or (incoming (d + l))) s := by
    have hstart : HoldsCells b.capacity (fun l => held (d + l))
        { ring := b.toRing, bytesHeld := b.bytesHeld } := ⟨h.wf, rfl, h.cells, h.count⟩
    obtain ⟨hwf, hsize, hcells, hcount⟩ := insertBytes_spec sequence _ data hstart hfit
    exact ⟨hwf, hsize, fun l hl => (hcells l hl).trans (by rw [hwritten l hl]), hcount⟩
  have hedge : ∀ p, ((held p).or (incoming p)).isSome → p < a := by
    intro p hp
    rw [Option.isSome_or, Bool.or_eq_true] at hp
    rcases hp with hp | hp
    · exact hheld p hp
    · exact lt_of_lt_of_le (hwindow p hp) (le_of_eq hadv)
  have hord : (b.afterInsert s).InOrder := h.inOrder.afterInsert hs fun l hl => by
    rw [Option.isSome_or, h.ready l hl]
    rfl
  obtain ⟨hge, -, -, hfree⟩ := nextFree_spec s.ring (b.capacity - b.readyBytes) b.readyBytes
  change b.readyBytes ≤ (b.afterInsert s).readyBytes at hge
  have hready' : (b.afterInsert s).readyBytes ≤ b.capacity :=
    le_trans hord.ready_le (le_of_eq hs.capacity)
  have hsome : ∀ l < (b.afterInsert s).readyBytes,
      ((held (d + l)).or (incoming (d + l))).isSome := by
    intro l hl
    rw [← hs.cells l (lt_of_lt_of_le hl hready')]
    exact hord.ready l hl
  have hmain : Reassembles isn (fun p => (held p).or (incoming p)) d (b.afterInsert s) :=
    { wf := hord.wf
      capacity := le_trans (le_of_eq hs.capacity) h.capacity
      undelivered := h.undelivered
      ready_le := hord.ready_le
      nxt := by
        have hnxt : (b.afterInsert s).rcvNxt =
            b.rcvNxt + UInt32.ofNat ((b.afterInsert s).readyBytes - b.readyBytes) := rfl
        rw [hnxt, h.nxt, ← seqAt_add]
        congr 1
        omega
      cells := fun l hl => hs.cells l (hs.capacity ▸ hl)
      ready := hsome
      gap := by
        rw [← Option.not_isSome_iff_eq_none]
        intro hp
        rcases eq_or_lt_of_le hready' with hall | hlt
        · -- nothing is held beyond the ring
          have := hedge _ hp
          omega
        · have hcell := hs.cells _ hlt
          rw [← hcell, Ring.cell_isSome hs.wf (hs.capacity ▸ hlt)] at hp
          have hfuel := hfree (lt_of_lt_of_le hlt (by omega))
          exact Bool.false_ne_true (hfuel.symm.trans hp)
      count := hord.count
      adv := by
        refine ⟨a, ha, ?_, ?_, hedge⟩
        rotate_left
        · rw [← hs.capacity] at hcap
          exact hcap
        rcases Nat.eq_zero_or_pos (b.afterInsert s).readyBytes with hzero | hpos
        · omega
        · have := hedge _ (hsome ((b.afterInsert s).readyBytes - 1) (by omega))
          omega }
  obtain ⟨_, _, _, heq⟩ := b.acceptBytes_eq sequence first data leftTrimmed rightTrimmed psh
  rw [heq]
  exact { hmain with }

end

variable {sequence : UInt32}

/-- How far a position is from the start of a segment that has the position `m` at offset `left`. -/
theorem toNat_sub_of_add_eq {left m k : ℕ} (hseq : sequence + UInt32.ofNat left = seqAt isn m)
    (hlt : left + k < 2 ^ 32) : (seqAt isn (m + k) - sequence).toNat = left + k := by
  have hfrom : seqAt isn (m + k) = seqAt sequence (left + k) := by
    rw [seqAt_add, ← hseq, seqAt_add]
    rfl
  have hsub := toNat_seqAt_sub sequence (Nat.zero_le (left + k))
  rw [seqAt_zero] at hsub
  rw [hfrom, hsub]
  omega

/-- An acceptable segment with data starts or ends in the window. -/
theorem offset_of_acceptable {length : ℕ} (hlen : 0 < length)
    (hacc : b.isSequenceAcceptable sequence length) :
    length ≤ maximumCapacity ∧ ∃ z, sequenceOffset sequence b.rcvNxt = some z ∧
      (0 ≤ z ∧ z < b.acceptableWindow ∨
        0 ≤ z + length - 1 ∧ z + length - 1 < b.acceptableWindow) := by
  unfold isSequenceAcceptable at hacc
  split at hacc
  case isTrue => cases hacc
  case isFalse hmax =>
    refine ⟨Nat.le_of_not_lt hmax, ?_⟩
    split at hacc
    case h_1 => cases hacc
    case h_2 z hz =>
      refine ⟨z, hz, ?_⟩
      dsimp only at hacc
      rw [if_neg (by omega : ¬length = 0)] at hacc
      split at hacc
      · simp only [Bool.and_eq_true, beq_iff_eq] at hacc
        omega
      · simpa only [Bool.or_eq_true, Bool.and_eq_true, decide_eq_true_eq] using hacc

/-- The part of a segment that is in the window, from `first` places after the
    start of the window on, is what arrives. -/
theorem written_eq_arrives {n w left first cand ready l : ℕ} {data : Bytes}
    (hn : n = d + ready) (hcand : ∀ k, k < cand ↔ first + k < w ∧ left + k < data.length)
    (hseq : ∀ k, first + k < w → (seqAt isn (n + first + k) - sequence).toNat = left + k)
    (hbefore : ∀ k < first, data.length ≤ (seqAt isn (n + k) - sequence).toNat) :
    written (ready + first) ((data.drop left).take cand) l =
      arrives isn n w sequence data (d + l) := by
  subst hn
  unfold written arrives
  by_cases hle : ready + first ≤ l
  · obtain ⟨k, rfl⟩ := Nat.exists_eq_add_of_le hle
    have hp : d + (ready + first + k) = d + ready + first + k := by omega
    rw [if_pos hle, Nat.add_sub_cancel_left, hp]
    by_cases hw : first + k < w
    · rw [if_pos (by omega), hseq k hw, getElem?_take, getElem?_drop]
      by_cases hlen : left + k < data.length
      · rw [if_pos ((hcand k).2 ⟨hw, hlen⟩)]
      · rw [if_neg (fun hk => hlen ((hcand k).1 hk).2), getElem?_eq_none (by omega)]
    · rw [if_neg (by omega), getElem?_take, if_neg (fun hk => hw ((hcand k).1 hk).1)]
  · rw [if_neg hle]
    split
    case isTrue hp =>
      have := hbefore (l - ready) (by omega)
      rw [show d + ready + (l - ready) = d + l by omega] at this
      rw [getElem?_eq_none this]
    case isFalse => rfl

section

variable (h : Reassembles isn held d b)

include h

/-- An acceptable segment starts in the window, or is cut on the left to start with
    it; what is beyond the window is cut as well. -/
theorem onSegment_eq {sequence : UInt32} {data : Bytes} (psh : Bool) (hne : data ≠ [])
    (hacc : b.isSequenceAcceptable sequence data.length) :
    ∃ left first right, (left = 0 ∨ first = 0) ∧ left < data.length ∧ first < b.acceptableWindow ∧
      sequence + UInt32.ofNat left = seqAt isn (d + b.readyBytes + first) ∧
      sequenceOffset sequence b.rcvNxt = some ((first : ℤ) - left) ∧
      b.onSegment sequence data psh = b.acceptBytes (sequence + UInt32.ofNat left) first
        ((data.drop left).take (min (data.length - left) (b.acceptableWindow - first)))
        left right psh := by
  have hpos : 0 < data.length := length_pos_iff.2 hne
  obtain ⟨hmax, z, hz, hwindow⟩ := offset_of_acceptable hpos hacc
  have hoffset := hz
  rw [h.nxt] at hoffset
  generalize hw : b.acceptableWindow = w at *
  rw [onSegment, if_neg (by simp only [hne, false_or]; omega), hz]
  dsimp only
  rw [if_neg (by rw [hacc]; exact Bool.noConfusion), hw]
  rcases sequenceOffset_cases hoffset with ⟨hz0, hzlt, hseq⟩ | ⟨hz0, hzgt, hseq⟩
  · -- the segment starts in the window
    obtain ⟨f, rfl⟩ := Int.eq_ofNat_of_zero_le hz0
    rw [Int.toNat_natCast] at hseq
    have hleft : (if (f : ℤ) < 0 then min data.length (-(f : ℤ)).toNat else 0) = 0 :=
      if_neg (by omega)
    have hcand : (if min ((f : ℤ) + data.length) w > max 0 (f : ℤ) then
        (min ((f : ℤ) + data.length) w - max 0 (f : ℤ)).toNat else 0) =
        min (data.length - 0) (w - f) := by
      split <;> omega
    rw [hleft, hcand, if_neg (by omega), show (max 0 (f : ℤ)).toNat = f by omega]
    refine ⟨0, f, _, .inl rfl, hpos, by omega, ?_, by simp, rfl⟩
    rw [← hseq]
    exact UInt32.add_zero _
  · -- the segment starts before the window, and ends in it
    obtain ⟨f, hf⟩ : ∃ f : ℕ, z = -(f : ℤ) := ⟨(-z).toNat, by omega⟩
    subst hf
    rw [neg_neg, Int.toNat_natCast] at hseq
    have hlen : f < data.length := by omega
    have hleft : (if -(f : ℤ) < 0 then min data.length (- -(f : ℤ)).toNat else 0) = f := by
      split <;> omega
    have hcand : (if min (-(f : ℤ) + data.length) w > max 0 (-(f : ℤ)) then
        (min (-(f : ℤ) + data.length) w - max 0 (-(f : ℤ))).toNat else 0) =
        min (data.length - f) (w - 0) := by
      split <;> omega
    rw [hleft, hcand, if_neg (by omega), show (max 0 (-(f : ℤ))).toNat = 0 by omega]
    exact ⟨f, 0, _, .inr rfl, hlen, by omega, hseq.symm, by simp, rfl⟩

/-- A segment in the window is cut to it and written to its place. -/
theorem onSegment (sequence : UInt32) (data : Bytes) (psh : Bool)
    (hacc : b.isSequenceAcceptable sequence data.length) :
    Reassembles isn
      (fun p => (held p).or (arrives isn (d + b.readyBytes) b.acceptableWindow sequence data p)) d
      (b.onSegment sequence data psh).1 := by
  by_cases hempty : data = []
  · subst hempty
    have hsame : (fun p => (held p).or
        (arrives isn (d + b.readyBytes) b.acceptableWindow sequence [] p)) = held := by
      funext p
      simp [arrives]
    rw [hsame]
    exact h
  · obtain ⟨left, first, right, hcut, hleft, hfirst, hseq, -, heq⟩ := h.onSegment_eq psh hempty hacc
    have hmax : data.length < 2 ^ 31 :=
      lt_of_le_of_lt (offset_of_acceptable (by omega) hacc).1 (by decide)
    have hcapmax := h.capacity_lt
    obtain ⟨a, ha, hle, hcap, -⟩ := h.adv
    have hadv := h.acceptableWindow_eq ha hle hcap
    rw [heq]
    generalize hn : d + b.readyBytes = n at *
    generalize hw : b.acceptableWindow = w at *
    have hin : ∀ p, (arrives isn n w sequence data p).isSome → p < n + w := by
      intro p hp
      rw [arrives] at hp
      split at hp
      case isTrue hlt => exact hlt.2
      case isFalse => cases hp
    refine h.acceptBytes ?_ (fun l _ => written_eq_arrives hn.symm ?_ ?_ ?_) (by rwa [hn, hw])
    · rw [length_take, length_drop]
      omega
    · intro k
      omega
    · intro k hk
      exact toNat_sub_of_add_eq hseq (by omega)
    · intro k hk
      obtain rfl : left = 0 := by omega
      have hstart : sequence = seqAt isn (n + first) := hseq ▸ (UInt32.add_zero _).symm
      rw [hstart, toNat_seqAt_sub_neg isn (by omega) (by omega)]
      omega

/-- A segment that is not acceptable adds nothing. -/
theorem onSegment_rejected (sequence : UInt32) (data : Bytes) (psh : Bool)
    (hacc : b.isSequenceAcceptable sequence data.length = false) :
    Reassembles isn held d (b.onSegment sequence data psh).1 := by
  obtain ⟨_, heq⟩ := onSegment_of_not psh fun hin => Bool.false_ne_true (hacc.symm.trans hin.2)
  rw [heq]
  exact { h with }

/-- Whatever a segment brings, the buffer goes on from the same position. -/
theorem onSegment_some (sequence : UInt32) (data : Bytes) (psh : Bool) :
    ∃ held', Reassembles isn held' d (b.onSegment sequence data psh).1 := by
  cases hacc : b.isSequenceAcceptable sequence data.length with
  | true => exact ⟨_, h.onSegment sequence data psh hacc⟩
  | false => exact ⟨_, h.onSegment_rejected sequence data psh hacc⟩

/-! ### Delivery -/

/-- The view shows the map from the first undelivered position on. -/
theorem readyView (i : ℕ) (hi : i < b.readyView.length) : held (d + i) = some b.readyView[i] := by
  have hready := h.ready_le
  obtain ⟨hlt, hview⟩ := h.inOrder.getElem?_readyView hi
  rw [← h.cells i (by omega), ← hview, getElem?_eq_getElem hi]

theorem consumeReady (n : ℕ) :
    Reassembles isn held (d + (b.consumeReady n).2) (b.consumeReady n).1 := by
  have hord := h.inOrder.consumeReady n
  obtain ⟨a, ha, hle, hcap, hheld⟩ := h.adv
  let k := min n b.readyBytes
  have hk : k ≤ b.capacity := by omega
  have hsum : d + k + (b.readyBytes - k) = d + b.readyBytes := by omega
  show Reassembles isn held (d + k) { b with
    toRing := b.toRing.dropFront k
    firstUndelivered := b.firstUndelivered + UInt32.ofNat k
    bytesHeld := b.bytesHeld - k
    readyBytes := b.readyBytes - k }
  exact
    { hord with
      capacity := by
        rw [Ring.dropFront_capacity]
        exact h.capacity
      undelivered := by rw [h.undelivered, ← seqAt_add]
      nxt := by rw [hsum]; exact h.nxt
      cells := by
        intro l hl
        rw [Ring.dropFront_capacity] at hl
        show (b.toRing.dropFront k).cell l = _
        rw [Ring.cell_dropFront h.wf hk hl]
        split
        case isTrue hlt => rw [h.cells _ hlt, add_assoc]
        case isFalse hge =>
          -- beyond the ring nothing is held
          symm
          rw [← Option.not_isSome_iff_eq_none]
          intro hp
          have := hheld _ hp
          omega
      ready := by
        intro l hl
        have := h.ready (k + l) (by dsimp only at hl; omega)
        rwa [← add_assoc] at this
      gap := by rw [hsum]; exact h.gap
      adv := by
        refine ⟨a, ha, by rw [hsum]; exact hle, ?_, hheld⟩
        rw [Ring.dropFront_capacity]
        omega }

/-- Something is shown as long as the next byte is held. -/
theorem readyView_eq_nil : b.readyView = [] ↔ held d = none := by
  rcases Nat.eq_zero_or_pos b.readyBytes with hzero | hpos
  · have hgap := h.gap
    rw [hzero, add_zero] at hgap
    rw [TcpReceiveBuffer.readyView, if_pos hzero]
    exact iff_of_true rfl hgap
  · have hsome := h.ready 0 hpos
    rw [add_zero] at hsome
    refine iff_of_false (h.inOrder.readyView_ne_nil (by omega)) fun hnone => ?_
    simp [hnone] at hsome

/-- As many bytes are held as the map has from the first undelivered position on. -/
theorem bytesHeld_eq :
    ∃ s : Finset ℕ, (∀ p, p ∈ s ↔ d ≤ p ∧ (held p).isSome) ∧ b.bytesHeld = s.card := by
  obtain ⟨a, -, -, hcap, hheld⟩ := h.adv
  refine ⟨((Finset.range b.capacity).filter fun l => (b.cell l).isSome).image (d + ·), ?_, ?_⟩
  · intro p
    simp only [Finset.mem_image, Finset.mem_filter, Finset.mem_range]
    constructor
    · rintro ⟨l, ⟨hl, hs⟩, rfl⟩
      rw [h.cells l hl] at hs
      exact ⟨Nat.le_add_right .., hs⟩
    · rintro ⟨hle, hs⟩
      have := hheld p hs
      refine ⟨p - d, ⟨by omega, ?_⟩, by omega⟩
      rw [h.cells (p - d) (by omega), Nat.add_sub_cancel' hle]
      exact hs
  · rw [Finset.card_image_of_injective _ fun _ _ he => add_left_cancel he]
    exact h.count

end

/-- A new buffer holds nothing. -/
theorem new {capacity window : ℕ} (hb : TcpReceiveBuffer.new capacity isn window = some b) :
    Reassembles isn (fun _ => none) 0 b := by
  unfold TcpReceiveBuffer.new at hb
  obtain ⟨hcap, hb⟩ := Option.ite_none_left_eq_some.1 hb
  cases hb
  have hpos : 0 < capacity := by omega
  exact
    { wf := .empty hpos
      capacity := by show capacity ≤ _; omega
      undelivered := (seqAt_zero isn).symm
      ready_le := Nat.zero_le _
      nxt := (seqAt_zero isn).symm
      cells := fun l _ => Ring.cell_empty capacity l
      ready := fun l hl => absurd hl (Nat.not_lt_zero l)
      gap := rfl
      count := (Ring.count_empty capacity).symm
      adv := by
        refine ⟨_, rfl, Nat.zero_le _, ?_, fun p hp => by cases hp⟩
        show _ ≤ 0 + capacity
        split <;> omega }

end Reassembles

end TcpReceiveBuffer

/-! ## Runs -/

open TcpReceiveBuffer

/-- An operation on a receive buffer, before the FIN is consumed. -/
inductive ReceiveOp
  | segment (sequence : UInt32) (data : Bytes) (psh : Bool)
  /-- `readyView`, then `consumeReady`. -/
  | consume (length : ℕ)
  | recordAdvertisedWindow (window : ℕ)
  | setBlocked (blocked : Bool)
  | ackSent

/-- A receive buffer, the map of what was accepted, and what the consumer was shown at each position
    it has consumed: nothing, where it consumed more than the view had. -/
structure ReceiveRun where
  buffer : TcpReceiveBuffer
  held : ℕ → Option UInt8 := fun _ => none
  obtained : List (Option UInt8) := []

namespace ReceiveRun

/-- The position of `rcvNxt`, which is less than `2 ^ 32` places after the first undelivered one. -/
def nxt (isn : UInt32) (s : ReceiveRun) : ℕ :=
  s.obtained.length + (s.buffer.rcvNxt - seqAt isn s.obtained.length).toNat

/-- One operation of a run. -/
def step (isn : UInt32) (s : ReceiveRun) : ReceiveOp → ReceiveRun
  | .segment sequence data psh =>
    { s with
      buffer := (s.buffer.onSegment sequence data psh).1
      held := if s.buffer.isSequenceAcceptable sequence data.length then
          fun p => (s.held p).or
            (arrives isn (s.nxt isn) s.buffer.acceptableWindow sequence data p)
        else s.held }
  | .consume length =>
    { s with
      buffer := (s.buffer.consumeReady length).1
      obtained := s.obtained ++
        (List.range (s.buffer.consumeReady length).2).map (s.buffer.readyView[·]?) }
  | .recordAdvertisedWindow window => { s with buffer := s.buffer.recordAdvertisedWindow window }
  | .setBlocked blocked => { s with buffer := s.buffer.setBlocked blocked }
  | .ackSent => { s with buffer := s.buffer.ackSent }

/-- No more is consumed than the view has. -/
def Within (s : ReceiveRun) : ReceiveOp → Prop
  | .consume length => length ≤ s.buffer.readyView.length
  | _ => True

/-- `s'` is reached from `s` by any operations; if `within`, by a consumer that
    keeps to the view. -/
def Reaches (within : Prop) (isn : UInt32) : ReceiveRun → ReceiveRun → Prop :=
  Runs fun s op s' => (within → s.Within op) ∧ s' = s.step isn op

/-- The invariant of a run: the buffer holds the map from the first undelivered
    position on, and the consumer was shown the map before it. -/
structure Inv (within : Prop) (isn : UInt32) (s : ReceiveRun) : Prop where
  reassembles : Reassembles isn s.held s.obtained.length s.buffer
  delivered : ∀ i < s.obtained.length, (s.held i).isSome
  obtained : ∀ i x, s.obtained[i]? = some (some x) → s.held i = some x
  shown : within → ∀ o ∈ s.obtained, o.isSome

variable {within : Prop} {s : ReceiveRun} {isn : UInt32}

theorem nxt_eq (h : Reassembles isn s.held s.obtained.length s.buffer) :
    s.nxt isn = s.obtained.length + s.buffer.readyBytes := by
  have hcap := h.capacity
  have hready := h.ready_le
  have hmax : maximumCapacity < 2 ^ 31 := by decide
  rw [nxt, h.nxt, toNat_seqAt_sub isn (Nat.le_add_right ..)]
  omega

theorem inv_step (h : Inv within isn s) (op : ReceiveOp) (hop : within → s.Within op) :
    Inv within isn (s.step isn op) := by
  obtain ⟨hr, hd, ho, hsh⟩ := h
  cases op with
  | recordAdvertisedWindow window => exact ⟨hr.recordAdvertisedWindow window, hd, ho, hsh⟩
  | setBlocked blocked => exact ⟨hr.setBlocked blocked, hd, ho, hsh⟩
  | ackSent => exact ⟨hr.ackSent, hd, ho, hsh⟩
  | segment sequence data psh =>
    cases hacc : s.buffer.isSequenceAcceptable sequence data.length with
    | false =>
      have hstep : s.step isn (.segment sequence data psh) =
          { s with buffer := (s.buffer.onSegment sequence data psh).1 } := by
        simp [step, hacc]
      rw [hstep]
      exact ⟨hr.onSegment_rejected sequence data psh hacc, hd, ho, hsh⟩
    | true =>
      have hseg := hr.onSegment sequence data psh hacc
      have hstep : s.step isn (.segment sequence data psh) = { s with
          buffer := (s.buffer.onSegment sequence data psh).1
          held := fun p => (s.held p).or
            (arrives isn (s.nxt isn) s.buffer.acceptableWindow sequence data p) } := by
        simp [step, hacc]
      rw [← nxt_eq hr] at hseg
      rw [hstep]
      refine ⟨hseg, fun i hi => ?_, fun i x hx => ?_, hsh⟩
      · simp [hd i hi]
      · simp [ho i x hx]
  | consume length =>
    have hc := hr.consumeReady length
    have hlength : (s.step isn (.consume length)).obtained.length =
        s.obtained.length + (s.buffer.consumeReady length).2 := by
      simp [step]
    have hle : (s.buffer.consumeReady length).2 ≤ s.buffer.readyBytes := Nat.min_le_right ..
    refine ⟨hlength ▸ hc, fun i hi => ?_, fun i x hx => ?_, fun hwithin o hmem => ?_⟩
    · rw [hlength] at hi
      by_cases hold : i < s.obtained.length
      · exact hd i hold
      · have := hr.ready (i - s.obtained.length) (by omega)
        rwa [Nat.add_sub_cancel' (by omega)] at this
    · change (s.obtained ++ _)[i]? = _ at hx
      show s.held i = some x
      by_cases hold : i < s.obtained.length
      · rw [List.getElem?_append_left hold] at hx
        exact ho i x hx
      · -- the byte was shown in the view
        rw [List.getElem?_append_right (by omega), List.getElem?_map] at hx
        obtain ⟨j, hj, hview⟩ := Option.map_eq_some_iff.1 hx
        obtain ⟨_, hj'⟩ := List.getElem?_eq_some_iff.1 hj
        rw [getElem_range] at hj'
        obtain ⟨hlt, hbyte⟩ := List.getElem?_eq_some_iff.1 hview
        have := hr.readyView j hlt
        rw [hbyte, ← hj', Nat.add_sub_cancel' (by omega)] at this
        exact this
    · rcases mem_append.1 hmem with hold | hnew
      · exact hsh hwithin o hold
      · obtain ⟨j, hj, rfl⟩ := mem_map.1 hnew
        have hview : length ≤ s.buffer.readyView.length := hop hwithin
        have hj' : j < min length s.buffer.readyBytes := mem_range.1 hj
        rw [List.getElem?_eq_getElem (by omega)]
        rfl

/-- The invariant holds after every run. -/
theorem Reaches.inv {capacity window : ℕ} {b : TcpReceiveBuffer}
    (hb : new capacity isn window = some b)
    (h : Reaches within isn { buffer := b } s) : Inv within isn s := by
  refine Runs.invariant h ⟨.new hb, fun i hi => absurd hi (Nat.not_lt_zero i), ?_, ?_⟩ ?_
  · intro i x hx
    cases hx
  · intro _ o ho
    cases ho
  · rintro s op s' hs ⟨hop, rfl⟩
    exact inv_step hs op hop

/-- A consumer that keeps to the view is shown the map. -/
theorem Inv.obtained_eq (h : Inv within isn s) (hwithin : within) :
    s.obtained = (List.range s.obtained.length).map s.held := by
  refine ext_getElem (by simp) fun i hi _ => ?_
  obtain ⟨x, hx⟩ := Option.isSome_iff_exists.1 (h.shown hwithin _ (getElem_mem hi))
  rw [getElem_map, getElem_range, hx]
  exact (h.obtained i x (by rw [getElem?_eq_getElem hi, hx])).symm

end ReceiveRun

/-- The buffer behaves like the map of what was accepted: a consumer that keeps to the view is shown
    the map's bytes, in order, each once, and any consumer nothing else; the view has the next of
    them, unless there is none; `rcvNxt` is the first position not held; and as many bytes are held
    as the map has from the first undelivered position on. -/
theorem reassembly {within : Prop} {isn : UInt32} {capacity window : ℕ} {b : TcpReceiveBuffer}
    (hb : new capacity isn window = some b) {s : ReceiveRun}
    (hs : ReceiveRun.Reaches within isn { buffer := b } s) : let d := s.obtained.length
    (within → s.obtained = (List.range d).map s.held) ∧
      (∀ i x, s.obtained[i]? = some (some x) → s.held i = some x) ∧
      (∀ i (hi : i < s.buffer.readyView.length), s.held (d + i) = some s.buffer.readyView[i]) ∧
      (s.buffer.readyView = [] ↔ s.held d = none) ∧
      (∃ n, s.buffer.rcvNxt = seqAt isn n ∧ d ≤ n ∧ (∀ p < n, (s.held p).isSome) ∧
        s.held n = none) ∧
      ∃ undelivered : Finset ℕ, (∀ p, p ∈ undelivered ↔ d ≤ p ∧ (s.held p).isSome) ∧
        s.buffer.bytesHeld = undelivered.card := by
  intro d
  have hinv := hs.inv hb
  have hr := hinv.reassembles
  refine ⟨hinv.obtained_eq, hinv.obtained, hr.readyView, hr.readyView_eq_nil, ?_, hr.bytesHeld_eq⟩
  refine ⟨d + s.buffer.readyBytes, hr.nxt, Nat.le_add_right .., fun p hp => ?_, hr.gap⟩
  by_cases hdel : p < d
  · exact hinv.delivered p hdel
  · have := hr.ready (p - d) (by omega)
    rwa [Nat.add_sub_cancel' (by omega)] at this

/-- A ring of four cells at the end of the sequence space: the bytes at `2` and `3` arrive first,
    then those from `0` to `2`, the last of them again and too late; three bytes are consumed. -/
theorem reassembly_overlap :
    ∃ b s, new 4 4294967295 0 = some b ∧
      ReceiveRun.Reaches True 4294967295 { buffer := b } s ∧
      s.obtained = [some 10, some 11, some 12] ∧
      s.obtained = (List.range s.obtained.length).map s.held := by
  obtain ⟨b, hb⟩ : ∃ b, new 4 4294967295 0 = some b := ⟨_, rfl⟩
  let s₁ := ReceiveRun.step 4294967295 { buffer := b } (.segment 1 [12, 13] false)
  let s₂ := s₁.step 4294967295 (.segment 4294967295 [10, 11, 99] false)
  let s₃ := s₂.step 4294967295 (.consume 3)
  have hview : 3 ≤ s₂.buffer.readyView.length := by
    cases hb
    decide
  have hs : ReceiveRun.Reaches True 4294967295 { buffer := b } s₃ :=
    .tail (.tail (.single ⟨.segment 1 [12, 13] false, fun _ => trivial, rfl⟩)
      ⟨.segment 4294967295 [10, 11, 99] false, fun _ => trivial, rfl⟩)
      ⟨.consume 3, fun _ => hview, rfl⟩
  refine ⟨b, s₃, hb, hs, ?_, (reassembly hb hs).1 trivial⟩
  cases hb
  decide

end Netstack2
