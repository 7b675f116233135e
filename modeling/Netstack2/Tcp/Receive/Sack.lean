import Netstack2.Lib.Blocks
import Netstack2.Tcp.Receive.Reassembly

/-!
# Selective acknowledgments

The blocks a receive buffer reports are the runs of bytes it holds beyond `rcvNxt`, whatever was
received and delivered before.

* `HeldRun`: a maximal run of held positions beyond `rcvNxt`. The ring's loops go along the list of
  them (`collectSackBlocks_eq`), which also says what the countdown of bytes is at each block;
* `Recalls`: the block noted for the last segment received out of order. It is one of the runs, or
  all of it is in order by now, and in this case too close behind `rcvNxt` to be taken for a run, as
  long as there is one;
* `SackRun.Reaches.recalls` carries it through all runs, and `sackBlocks_exact` says what is
  reported.
-/

namespace Netstack2

open List

/-- The positions `[run.1, run.2)` beyond `n` are held, and those around them are not. -/
structure HeldRun (held : ℕ → Option UInt8) (n : ℕ) (run : ℕ × ℕ) : Prop where
  beyond : n < run.1
  lt : run.1 < run.2
  all : ∀ p, run.1 ≤ p → p < run.2 → (held p).isSome
  left : held (run.1 - 1) = none
  right : held run.2 = none

/-- The block of the positions `[run.1, run.2)`. -/
def sackBlock (isn : UInt32) (run : ℕ × ℕ) : TcpSackBlock where
  leftEdge := seqAt isn run.1
  rightEdge := seqAt isn run.2

namespace TcpReceiveBuffer

/-! ## The loops -/

/-- The values that the countdown of bytes takes in the loop of `sackBlocks`, as
    integers: at its start, and after each block. -/
def countdown (b : TcpReceiveBuffer) (limit : ℕ) : ℕ → ℕ → ℤ → List TcpSackBlock → List ℤ
  | 0, _, remaining, _ => [remaining]
  | fuel + 1, logical, remaining, blocks =>
    remaining ::
      if logical < b.capacity ∧ blocks.length < limit ∧ remaining ≠ 0 then
        let first := nextOccupied b.toRing (b.capacity - logical) logical
        if first = b.capacity then []
        else
          let last := nextFree b.toRing (b.capacity - first) first
          let block : TcpSackBlock :=
            { leftEdge := b.rcvNxt + UInt32.ofNat (first - b.readyBytes)
              rightEdge := b.rcvNxt + UInt32.ofNat (last - b.readyBytes) }
          let blocks := if blocks.head? = some block then blocks else blocks ++ [block]
          countdown b limit fuel last (remaining - ((last : ℤ) - first)) blocks
      else []

/-- The countdown of `sackBlocks`. -/
def sackCountdown (b : TcpReceiveBuffer) (maxBlocks : ℕ) : List ℤ :=
  let limit := min maxBlocks 4
  if limit = 0 then []
  else countdown b limit b.capacity b.readyBytes ((b.bytesHeld : ℤ) - b.readyBytes)
    b.recentSackBlock

/-- The loop passes over free cells only, and stops at an occupied one or at the end of its fuel. -/
theorem nextOccupied_eq (r : Ring UInt8) {fuel logical first : ℕ} (hle : logical ≤ first)
    (hfuel : first ≤ logical + fuel)
    (hfree : ∀ l, logical ≤ l → l < first → r.occupied (r.physicalIndex l) = false)
    (hend : first < logical + fuel → r.occupied (r.physicalIndex first)) :
    nextOccupied r fuel logical = first := by
  induction fuel generalizing logical with
  | zero =>
    rw [nextOccupied]
    omega
  | succ _ ih =>
    rw [nextOccupied]
    split
    case isTrue ho =>
      rcases eq_or_lt_of_le hle with he | hlt
      · exact he
      · simp [hfree logical (le_refl _) hlt] at ho
    case isFalse ho =>
      rcases eq_or_lt_of_le hle with rfl | hlt
      · exact absurd (hend (by omega)) ho
      · exact ih hlt (by omega) (fun l hl hl' => hfree l (by omega) hl') fun h => hend (by omega)

theorem nextFree_eq (r : Ring UInt8) {fuel logical last : ℕ} (hle : logical ≤ last)
    (hfuel : last ≤ logical + fuel)
    (hocc : ∀ l, logical ≤ l → l < last → r.occupied (r.physicalIndex l))
    (hend : last < logical + fuel → r.occupied (r.physicalIndex last) = false) :
    nextFree r fuel logical = last := by
  obtain ⟨hge, hle', hocc', hfree'⟩ := nextFree_spec r fuel logical
  rcases lt_trichotomy (nextFree r fuel logical) last with hlt | he | hgt
  · have := hfree' (by omega)
    simp [hocc _ hge hlt] at this
  · exact he
  · have := hocc' last hle hgt
    simp [hend (by omega)] at this

/-- The loop goes down over occupied cells only, and stops after a free one or at its lower end. -/
theorem blockBegin_spec (r : Ring UInt8) (lower offset : ℕ) :
    lower ≤ blockBegin r lower offset ∧ blockBegin r lower offset ≤ lower + offset ∧
      (∀ l, blockBegin r lower offset ≤ l → l < lower + offset → r.occupied (r.physicalIndex l)) ∧
      (lower < blockBegin r lower offset →
        r.occupied (r.physicalIndex (blockBegin r lower offset - 1)) = false) := by
  induction offset with
  | zero =>
    rw [blockBegin]
    exact ⟨le_refl _, le_refl _, by intros; omega, by intros; omega⟩
  | succ offset ih =>
    rw [blockBegin]
    split
    case isTrue ho =>
      obtain ⟨hge, hle, hocc, hfree⟩ := ih
      refine ⟨hge, by omega, fun l hl hlt => ?_, hfree⟩
      rcases eq_or_lt_of_le (show l ≤ lower + offset by omega) with rfl | hl'
      · exact ho
      · exact hocc l hl hl'
    case isFalse ho =>
      refine ⟨by omega, le_refl _, by intros; omega, fun _ => ?_⟩
      rw [show lower + (offset + 1) - 1 = lower + offset by omega]
      simpa using ho

/-! ## The runs of the ring -/

namespace Reassembles

variable {isn : UInt32} {held : ℕ → Option UInt8} {d : ℕ} {b : TcpReceiveBuffer}

section

variable (h : Reassembles isn held d b)

include h

/-- Nothing is held beyond the ring. -/
theorem lt_of_isSome {p : ℕ} (hp : (held p).isSome) : p < d + b.capacity := by
  obtain ⟨a, -, -, hcap, hheld⟩ := h.adv
  have := hheld p hp
  omega

/-- The runs beyond `rcvNxt` are the blocks of the ring after the cells that are ready. -/
theorem heldRun_iff (first last : ℕ) :
    HeldRun held (d + b.readyBytes) (d + first, d + last) ↔
      IsBlock (fun l => (held (d + l)).isSome) b.readyBytes b.capacity (first, last) := by
  constructor
  · rintro ⟨hbeyond, hlt, hall, hleft, hright⟩
    have hend := h.lt_of_isSome (hall (d + last - 1) (by omega) (by omega))
    refine ⟨by omega, by omega, by omega,
      fun k hk hk' => hall _ (by omega) (by omega), ?_, ?_⟩
    · rw [show d + first - 1 = d + (first - 1) by omega] at hleft
      exact .inr (by simp [hleft])
    · exact .inr (by simp [hright])
  · rintro ⟨hle, hlt, hcap, hall, hleft, hright⟩
    have hgap : first ≠ b.readyBytes := by
      rintro rfl
      have := hall b.readyBytes (le_refl _) hlt
      simp [h.gap] at this
    refine ⟨by omega, by omega, fun p hp hp' => ?_, ?_, ?_⟩
    · have := hall (p - d) (by omega) (by omega)
      rwa [Nat.add_sub_cancel' (by omega)] at this
    · have := hleft.resolve_left hgap
      rw [Bool.not_eq_true, Option.isSome_eq_false_iff, Option.isNone_iff_eq_none] at this
      rw [← this]
      congr 1
      omega
    · rcases hright with rfl | hn
      · rw [← Option.not_isSome_iff_eq_none]
        exact fun hs => absurd (h.lt_of_isSome hs) (lt_irrefl _)
      · rwa [Bool.not_eq_true, Option.isSome_eq_false_iff, Option.isNone_iff_eq_none] at hn

variable {xs : List (ℕ × ℕ)} {lo : ℕ}

/-- As many bytes are held out of order as the runs have. -/
theorem sum_width (hxs : Blocks (fun l => (held (d + l)).isSome) b.capacity b.readyBytes xs) :
    (xs.map fun x => x.2 - x.1).sum = b.bytesHeld - b.readyBytes := by
  have hready := h.ready_le
  have hsplit : (Finset.range b.capacity).filter (fun l => (b.cell l).isSome) =
      Finset.range b.readyBytes ∪
        (Finset.Ico b.readyBytes b.capacity).filter fun l => (held (d + l)).isSome := by
    ext l
    simp only [Finset.mem_union, Finset.mem_filter, Finset.mem_Ico, Finset.mem_range]
    constructor
    · rintro ⟨hl, hs⟩
      rw [h.cells l hl] at hs
      by_cases hlt : l < b.readyBytes
      · exact .inl hlt
      · exact .inr ⟨⟨by omega, hl⟩, hs⟩
    · rintro (hlt | ⟨⟨hge, hl⟩, hs⟩)
      · rw [h.cells l (by omega)]
        exact ⟨by omega, h.ready l hlt⟩
      · rw [h.cells l hl]
        exact ⟨hl, hs⟩
  have hdisjoint : Disjoint (Finset.range b.readyBytes)
      ((Finset.Ico b.readyBytes b.capacity).filter fun l => (held (d + l)).isSome) := by
    rw [Finset.disjoint_left]
    intro l hl hl'
    rw [Finset.mem_range] at hl
    rw [Finset.mem_filter, Finset.mem_Ico] at hl'
    omega
  rw [hxs.sum_width, h.count, Ring.count, hsplit, Finset.card_union_of_disjoint hdisjoint,
    Finset.card_range, Nat.add_sub_cancel_left]

/-- The loops find the block that comes next. -/
theorem scan_eq {first last : ℕ} (hle : lo ≤ first)
    (hfree : ∀ l, lo ≤ l → l < first → ¬(held (d + l)).isSome) (hlt : first < last)
    (hall : ∀ l, first ≤ l → l < last → (held (d + l)).isSome) (hcap : last ≤ b.capacity)
    (hright : last = b.capacity ∨ ¬(held (d + last)).isSome) :
    nextOccupied b.toRing (b.capacity - lo) lo = first ∧
      nextFree b.toRing (b.capacity - first) first = last := by
  refine ⟨nextOccupied_eq _ hle (by omega) (fun l hl hl' => ?_) fun _ => ?_,
    nextFree_eq _ (by omega) (by omega) (fun l hl hl' => ?_) fun hend => ?_⟩
  · rw [h.occupied_eq (by omega)]
    simpa using hfree l hl hl'
  · rw [h.occupied_eq (by omega)]
    exact hall first (le_refl _) hlt
  · rw [h.occupied_eq (by omega)]
    exact hall l hl hl'
  · rw [h.occupied_eq (by omega)]
    simpa using hright.resolve_left (by omega)

theorem sackBlock_eq {first last : ℕ} (hle : b.readyBytes ≤ first) (hlt : first < last) :
    ({ leftEdge := b.rcvNxt + UInt32.ofNat (first - b.readyBytes)
       rightEdge := b.rcvNxt + UInt32.ofNat (last - b.readyBytes) } : TcpSackBlock) =
      sackBlock isn (d + first, d + last) := by
  rw [h.nxt, ← seqAt_add, ← seqAt_add, sackBlock]
  congr 2 <;> omega

/-- The loop appends the blocks it finds, up to the limit, except one that is reported first. -/
theorem collectSackBlocks_eq (hxs : Blocks (fun l => (held (d + l)).isSome) b.capacity lo xs)
    (hlo : b.readyBytes ≤ lo) {limit fuel : ℕ} (hfuel : b.capacity - lo ≤ fuel)
    {blocks : List TcpSackBlock} (hlen : blocks.length ≤ limit) :
    collectSackBlocks b limit fuel lo (xs.map fun x => x.2 - x.1).sum blocks =
      (blocks ++ (xs.map fun x => sackBlock isn (d + x.1, d + x.2)).filter
        fun block => blocks.head? ≠ some block).take limit := by
  have hmax := h.capacity_lt
  induction hxs generalizing fuel blocks with
  | nil =>
    rw [map_nil, map_nil, filter_nil, append_nil, take_of_length_le hlen]
    cases fuel with
    | zero => rfl
    | succ =>
      rw [collectSackBlocks, if_neg]
      rintro ⟨-, -, hzero⟩
      exact hzero rfl
  | @cons _ first last _ hle hfree hlt hall hcap hright hrest ih =>
    obtain ⟨fuel, rfl⟩ : ∃ n, fuel = n + 1 := ⟨fuel - 1, by omega⟩
    obtain ⟨hfirst, hlast⟩ := h.scan_eq hle hfree hlt hall hcap hright
    rw [collectSackBlocks, map_cons, sum_cons]
    rcases eq_or_lt_of_le hlen with hfull | hroom
    · rw [if_neg (by omega), take_append_of_le_length (by omega), take_of_length_le hlen]
    · rw [if_pos ⟨by omega, hroom, by omega⟩]
      dsimp only
      rw [hfirst, if_neg (by omega), hlast, h.sackBlock_eq (by omega) hlt,
        Nat.add_sub_cancel_left, map_cons]
      by_cases hhead : blocks.head? = some (sackBlock isn (d + first, d + last))
      · rw [if_pos hhead, ih (by omega) (by omega) hlen, filter_cons_of_neg (by simpa)]
      · rw [if_neg hhead, ih (by omega) (by omega) (by rw [length_append]; exact hroom),
          filter_cons_of_pos (by simpa), append_assoc, singleton_append]
        congr 3
        refine filter_congr fun block hblock => ?_
        cases blocks with
        | cons => rfl
        | nil =>
          -- the first block is none of the later ones
          obtain ⟨x, hx, rfl⟩ := mem_map.1 hblock
          have hx' := (hrest.mem_iff x).1 hx
          have hge := hx'.lo_le
          have hltx := hx'.lt
          have hcapx := hx'.le_hi
          have hne : sackBlock isn (d + first, d + last) ≠ sackBlock isn (d + x.1, d + x.2) := by
            intro he
            have := seqAt_inj isn (congrArg TcpSackBlock.leftEdge he) (by omega)
              (by omega)
            omega
          simp [hne]

/-- The countdown is what is still to come, and so not below zero. -/
theorem countdown_nonneg (hxs : Blocks (fun l => (held (d + l)).isSome) b.capacity lo xs)
    (hlo : b.readyBytes ≤ lo) {limit fuel : ℕ} {remaining : ℤ}
    (hrem : remaining = (xs.map fun x => x.2 - x.1).sum) {blocks : List TcpSackBlock} :
    ∀ z ∈ countdown b limit fuel lo remaining blocks, 0 ≤ z := by
  induction hxs generalizing fuel remaining blocks with
  | nil =>
    intro z hz
    cases fuel with
    | zero =>
      rw [countdown, mem_singleton] at hz
      omega
    | succ =>
      rw [countdown, if_neg (by rintro ⟨-, -, hne⟩; exact hne hrem), mem_singleton] at hz
      omega
  | @cons _ _ _ _ hle hfree hlt hall hcap hright _ ih =>
    obtain ⟨hfirst, hlast⟩ := h.scan_eq hle hfree hlt hall hcap hright
    rw [map_cons, sum_cons] at hrem
    intro z hz
    cases fuel with
    | zero =>
      rw [countdown, mem_singleton] at hz
      omega
    | succ =>
      rw [countdown, mem_cons] at hz
      rcases hz with rfl | hz
      · omega
      · split at hz
        case isTrue =>
          rw [hfirst, if_neg (by omega), hlast] at hz
          refine ih (by omega) ?_ z hz
          omega
        case isFalse => cases hz

/-! ## The block noted last -/

/-- The block around a held position beyond `rcvNxt` is noted. -/
theorem updateRecentSack_spec {offset : ℕ} (hpos : offset ≠ 0)
    (hheld : (held (d + b.readyBytes + offset)).isSome) :
    let b' := b.updateRecentSack (seqAt isn (d + b.readyBytes + offset))
    b'.recentSackValid = true ∧ ∃ run, b'.recentSack = sackBlock isn run ∧
      HeldRun held (d + b.readyBytes) run ∧
      run.1 ≤ d + b.readyBytes + offset ∧ d + b.readyBytes + offset < run.2 := by
  have hmax := h.capacity_lt
  have hlt := h.lt_of_isSome hheld
  have hoffset : (seqAt isn (d + b.readyBytes + offset) - b.rcvNxt).toNat = offset := by
    rw [h.nxt, toNat_seqAt_sub isn (Nat.le_add_right ..)]
    omega
  have hcond : seqAt isn (d + b.readyBytes + offset) - b.rcvNxt ≠ 0 ∧
      seqAt isn (d + b.readyBytes + offset) - b.rcvNxt < halfSequenceSpace := by
    refine ⟨fun he => hpos ?_, lt_halfSequenceSpace.2 (by omega)⟩
    rw [← hoffset, he]
    rfl
  obtain ⟨hge, hle, hocc, hfree⟩ := blockBegin_spec b.toRing b.readyBytes offset
  obtain ⟨hge', hle', hocc', hfree'⟩ := nextFree_spec b.toRing
    (b.capacity - (b.readyBytes + offset + 1)) (b.readyBytes + offset + 1)
  generalize hfirst : blockBegin b.toRing b.readyBytes offset = first at *
  generalize hlast : nextFree b.toRing (b.capacity - (b.readyBytes + offset + 1))
    (b.readyBytes + offset + 1) = last at *
  have hgap : b.readyBytes < first := by
    refine Nat.lt_of_le_of_ne hge fun he => ?_
    have := hocc b.readyBytes (by omega) (by omega)
    rw [h.occupied_eq (by omega), h.gap] at this
    cases this
  intro b'
  have hb' : b' = { b with
      recentSack := sackBlock isn (d + first, d + last)
      recentSackValid := true } := by
    rw [← h.sackBlock_eq hge (by omega)]
    show b.updateRecentSack _ = _
    rw [updateRecentSack, if_pos hcond, hoffset, hfirst]
    dsimp only
    rw [hlast]
  rw [hb']
  refine ⟨rfl, _, rfl, (h.heldRun_iff first last).2 ?_, by omega, by omega⟩
  refine ⟨le_of_lt hgap, by omega, by omega, fun l hl hl' => ?_, ?_, ?_⟩
  · rcases lt_trichotomy l (b.readyBytes + offset) with hbefore | rfl | hafter
    · rw [← h.occupied_eq (by omega)]
      exact hocc l hl hbefore
    · rwa [← add_assoc]
    · rw [← h.occupied_eq (by omega)]
      exact hocc' l hafter hl'
  · refine .inr ?_
    rw [← h.occupied_eq (by omega), hfree hgap]
    exact Bool.false_ne_true
  · rcases eq_or_lt_of_le (show last ≤ b.capacity by omega) with he | hend
    · exact .inl he
    · refine .inr ?_
      rw [← h.occupied_eq hend, hfree' (by omega)]
      exact Bool.false_ne_true

end

end Reassembles

/-- What is noted of the last segment that was accepted beyond `rcvNxt`, at the
    positions `[part.1, part.2)`: the run around it, as it was then. Since then the
    run has not changed, or `rcvNxt` has moved over it; what is held beyond `rcvNxt`
    came no later, and is not half the sequence space away from it. -/
def Recalls (isn : UInt32) (held : ℕ → Option UInt8) (n : ℕ) (b : TcpReceiveBuffer) :
    Option (ℕ × ℕ) → Prop
  | none => b.recentSackValid = false ∧ ∀ p, (held p).isSome → p < n
  | some part => b.recentSackValid = true ∧ part.1 < part.2 ∧
      ∃ run, b.recentSack = sackBlock isn run ∧ run.1 ≤ part.1 ∧ part.2 ≤ run.2 ∧
        run.2 < run.1 + 2 ^ 31 ∧ (HeldRun held n run ∨ run.2 ≤ n) ∧
        ∀ p, (held p).isSome → p < n ∨ p < run.1 + 2 ^ 31

namespace Recalls

variable {isn : UInt32} {held : ℕ → Option UInt8} {n d : ℕ} {b b' : TcpReceiveBuffer}
  {last : Option (ℕ × ℕ)}

theorem of_eq (h : Recalls isn held n b last) (hsack : b'.recentSack = b.recentSack)
    (hvalid : b'.recentSackValid = b.recentSackValid) : Recalls isn held n b' last := by
  cases last with
  | none => exact ⟨hvalid.trans h.1, h.2⟩
  | some =>
    obtain ⟨hv, hpart, run, hrun, hrest⟩ := h
    exact ⟨hvalid.trans hv, hpart, run, hsack.trans hrun, hrest⟩

/-- Bytes that arrive in order move `rcvNxt` over a run, or leave it alone. -/
theorem fill {held' : ℕ → Option UInt8} {n' : ℕ} (h : Recalls isn held n b last) (hle : n ≤ n')
    (hgap : held' n' = none) (hkeep : ∀ p, (held p).isSome → (held' p).isSome)
    (hnew : ∀ p, (held' p).isSome → (held p).isSome ∨ p < n') : Recalls isn held' n' b last := by
  have hsame : ∀ p, n' ≤ p → held p = none → held' p = none := by
    intro p hp hnone
    rw [← Option.not_isSome_iff_eq_none]
    intro hs
    rcases hnew p hs with hs | hlt
    · simp [hnone] at hs
    · omega
  cases last with
  | none =>
    refine ⟨h.1, fun p hp => ?_⟩
    rcases hnew p hp with hs | hlt
    · exact lt_of_lt_of_le (h.2 p hs) hle
    · exact hlt
  | some =>
    obtain ⟨hvalid, hpart, run, hsack, hleft, hright, hwidth, hrun, hbound⟩ := h
    refine ⟨hvalid, hpart, run, hsack, hleft, hright, hwidth, ?_, fun p hp => ?_⟩
    · rcases hrun with hrun | hover
      · rcases lt_or_ge n' run.1 with hbefore | hge
        · have hlt := hrun.lt
          exact .inl ⟨hbefore, hlt, fun p hp hp' => hkeep p (hrun.all p hp hp'),
            hsame _ (by omega) hrun.left, hsame _ (by omega) hrun.right⟩
        · -- `n'` is not held, and so not in the run
          refine .inr (Nat.le_of_not_lt fun hlt => ?_)
          have := hkeep n' (hrun.all n' hge hlt)
          simp [hgap] at this
      · exact .inr (le_trans hover hle)
    · rcases hnew p hp with hs | hlt
      · rcases hbound p hs with hlt | hlt
        · exact .inl (lt_of_lt_of_le hlt hle)
        · exact .inr hlt
      · exact .inl hlt

/-- The block that is reported first is the run around the last segment that was
    accepted beyond `rcvNxt`, if it still lies there. -/
theorem recentSackBlock_eq (h : Reassembles isn held d b)
    (hr : Recalls isn held (d + b.readyBytes) b last) :
    (∃ run, b.recentSackBlock = [sackBlock isn run] ∧ HeldRun held (d + b.readyBytes) run ∧
        ∀ part, last = some part → run.1 ≤ part.1 ∧ part.1 < run.2) ∨
      (b.recentSackBlock = [] ∧ ∀ part, last = some part → part.1 < d + b.readyBytes) := by
  have hmax := h.capacity_lt
  cases last with
  | none =>
    refine .inr ⟨?_, nofun⟩
    rw [recentSackBlock, if_neg]
    rintro ⟨hvalid, -⟩
    simp [hr.1] at hvalid
  | some =>
    obtain ⟨hvalid, hpart, run, hsack, hleft, hright, hwidth, hrun, hbound⟩ := hr
    have hlt : run.1 < run.2 := by omega
    have hwidth' : (b.recentSack.rightEdge - b.recentSack.leftEdge).toNat = run.2 - run.1 := by
      rw [hsack]
      show (seqAt isn run.2 - seqAt isn run.1).toNat = _
      rw [toNat_seqAt_sub isn (le_of_lt hlt)]
      omega
    have hne : b.recentSack.rightEdge - b.recentSack.leftEdge ≠ 0 := by
      intro he
      rw [he] at hwidth'
      change 0 = _ at hwidth'
      omega
    rcases hrun with hrun | hover
    · -- all of the run is in the ring
      refine .inl ⟨run, ?_, hrun, fun _ he => Option.some.inj he ▸ ⟨hleft, by omega⟩⟩
      have hbeyond := hrun.beyond
      have hlast := h.lt_of_isSome (hrun.all (run.2 - 1) (by omega) (by omega))
      have hoffset : (b.recentSack.leftEdge - b.rcvNxt).toNat = run.1 - (d + b.readyBytes) := by
        rw [hsack, h.nxt]
        show (seqAt isn run.1 - seqAt isn (d + b.readyBytes)).toNat = _
        rw [toNat_seqAt_sub isn (le_of_lt hbeyond)]
        omega
      rw [recentSackBlock, if_pos, hsack]
      refine ⟨hvalid, lt_halfSequenceSpace.2 (by omega), hne, ?_⟩
      rw [hwidth', hoffset, all_eq_true]
      intro i hi
      rw [mem_range] at hi
      have hcell := hrun.all (run.1 + i) (by omega) (by omega)
      rw [show run.1 + i = d + (b.readyBytes + (run.1 - (d + b.readyBytes)) + i) by omega,
        ← h.occupied_eq (by omega)] at hcell
      rw [hcell, Bool.and_true, decide_eq_true_eq]
      omega
    · refine .inr ⟨?_, fun _ he => Option.some.inj he ▸ by omega⟩
      rw [recentSackBlock, if_neg]
      rintro ⟨-, hhalf, -, hall⟩
      rw [lt_halfSequenceSpace] at hhalf
      -- a byte would be held where the block is taken to be
      rw [hwidth', all_eq_true] at hall
      have hfirst := hall 0 (mem_range.2 (by omega))
      rw [Bool.and_eq_true, decide_eq_true_eq, add_zero] at hfirst
      have hocc := hfirst.2
      rw [h.occupied_eq hfirst.1] at hocc
      have hclose := hbound _ hocc
      have hback := toNat_seqAt_sub_neg isn (show run.1 < d + b.readyBytes by omega) (by omega)
      rw [hsack, h.nxt] at hhalf hclose
      change (seqAt isn run.1 - seqAt isn (d + b.readyBytes)).toNat < _ at hhalf
      omega

end Recalls

/-! ## Segments -/

/-- The positions of the part of a segment that is accepted, if it starts beyond
    `rcvNxt`, which is at position `n`. -/
def partBeyond (b : TcpReceiveBuffer) (n : ℕ) (sequence : UInt32) (data : Bytes) : Option (ℕ × ℕ) :=
  match sequenceOffset sequence b.rcvNxt with
  | none => none
  | some offset =>
    if data ≠ [] ∧ b.isSequenceAcceptable sequence data.length = true ∧ 0 < offset then
      some (n + offset.toNat, n + min (offset.toNat + data.length) b.acceptableWindow)
    else none

/-- The first new byte of a segment is one of its bytes. -/
theorem firstNewSequence_insertBytes (sequence : UInt32) (logical : ℕ) (data : Bytes)
    (s : InsertState) :
    (insertBytes sequence logical data s).firstNewSequence = s.firstNewSequence ∨
      ∃ k < data.length, (insertBytes sequence logical data s).firstNewSequence =
        some (seqAt sequence k) := by
  induction data generalizing sequence logical s with
  | nil => exact .inl rfl
  | cons _ _ ih =>
    rw [insertBytes]
    generalize hs : (if s.ring.occupied (s.ring.physicalIndex logical) then _ else _) = s'
    have hs' : s'.firstNewSequence = s.firstNewSequence ∨
        s'.firstNewSequence = some (seqAt sequence 0) := by
      rw [← hs]
      split
      · exact .inl rfl
      · cases hfirst : s.firstNewSequence with
        | none => exact .inr (by rw [seqAt_zero]; rfl)
        | some => exact .inl rfl
    rcases ih (sequence + 1) (logical + 1) s' with hsame | ⟨k, hk, hnew⟩
    · rw [hsame]
      exact hs'.imp_right fun hfirst => ⟨0, Nat.succ_pos _, hfirst⟩
    · refine .inr ⟨k + 1, Nat.succ_lt_succ hk, ?_⟩
      rw [hnew, Nat.add_comm, seqAt_add]
      rfl

section

variable (b : TcpReceiveBuffer) (sequence : UInt32) (data : Bytes)
  (leftTrimmed rightTrimmed : ℕ) (psh : Bool)

/-- Bytes accepted at `rcvNxt` leave the noted block as it is. -/
theorem recentSack_acceptBytes_zero :
    let b' := (b.acceptBytes sequence 0 data leftTrimmed rightTrimmed psh).1
    b'.recentSack = b.recentSack ∧ b'.recentSackValid = b.recentSackValid := by
  simp only [acceptBytes, decideAck, lt_irrefl, decide_false, Bool.false_eq_true, if_false]
  split <;> exact ⟨rfl, rfl⟩

theorem updateRecentSack_updateRecentSack (trigger : UInt32) :
    (b.updateRecentSack trigger).updateRecentSack trigger = b.updateRecentSack trigger := by
  by_cases hcond : trigger - b.rcvNxt ≠ 0 ∧ trigger - b.rcvNxt < halfSequenceSpace
  · simp only [updateRecentSack, if_pos hcond]
  · simp only [updateRecentSack, if_neg hcond]

theorem updateRecentSack_decideAck (trigger : UInt32) (immediate : Bool) :
    (b.decideAck immediate).1.updateRecentSack trigger =
      ((b.updateRecentSack trigger).decideAck immediate).1 := by
  simp only [updateRecentSack, decideAck]
  split_ifs <;> rfl

/-- After bytes are accepted beyond `rcvNxt`, the block around one of them is noted. -/
theorem updateRecentSack_acceptBytes {first : ℕ} (hfirst : 0 < first) (hdata : data ≠ []) :
    ∃ k < data.length,
      (b.acceptBytes sequence first data leftTrimmed rightTrimmed psh).1.updateRecentSack
          (seqAt sequence k) =
        (b.acceptBytes sequence first data leftTrimmed rightTrimmed psh).1 := by
  have hpos : 0 < data.length := length_pos_iff.2 hdata
  have htrigger : ∃ k < data.length, (insertBytes sequence (b.readyBytes + first) data
      { ring := b.toRing, bytesHeld := b.bytesHeld }).firstNewSequence.getD sequence =
        seqAt sequence k := by
    rcases firstNewSequence_insertBytes sequence (b.readyBytes + first) data
      { ring := b.toRing, bytesHeld := b.bytesHeld } with hnone | ⟨k, hk, hnew⟩
    · exact ⟨0, hpos, by rw [hnone, seqAt_zero]; rfl⟩
    · exact ⟨k, hk, by rw [hnew]; rfl⟩
  obtain ⟨k, hk, htrigger⟩ := htrigger
  refine ⟨k, hk, ?_⟩
  rw [acceptBytes, ← htrigger]
  rw [updateRecentSack_decideAck, if_pos (decide_eq_true hfirst), updateRecentSack_updateRecentSack]

end

theorem recordAdvertisedWindow_frame (b : TcpReceiveBuffer) (window : ℕ) :
    let b' := b.recordAdvertisedWindow window
    b'.rcvNxt = b.rcvNxt ∧ b'.recentSack = b.recentSack ∧
      b'.recentSackValid = b.recentSackValid := by
  simp only [recordAdvertisedWindow]
  split
  · split <;> exact ⟨rfl, rfl, rfl⟩
  · exact ⟨rfl, rfl, rfl⟩

namespace Recalls

variable {isn : UInt32} {held : ℕ → Option UInt8} {d : ℕ} {b : TcpReceiveBuffer}
  {last : Option (ℕ × ℕ)} {sequence : UInt32} {data : Bytes}

theorem isSome_arrives {n w p : ℕ} :
    (arrives isn n w sequence data p).isSome ↔
      (n ≤ p ∧ p < n + w) ∧ (seqAt isn p - sequence).toNat < data.length := by
  rw [arrives]
  split
  case isTrue hin => simp [hin]
  case isFalse hout => simp [hout]

/-- The block noted around one of the bytes `[part.1, part.2)`, all of them held, is
    around all of them. -/
theorem note (h : Reassembles isn held d b) {part : ℕ × ℕ} {q : ℕ} (hq : part.1 ≤ q ∧ q < part.2)
    (hbeyond : d + b.readyBytes < part.1) (hheld : ∀ p, part.1 ≤ p → p < part.2 → (held p).isSome)
    (hnoted : b.updateRecentSack (seqAt isn q) = b) :
    Recalls isn held (d + b.readyBytes) b (some part) := by
  have hcapmax := h.capacity_lt
  have hoffset : q - (d + b.readyBytes) ≠ 0 := by omega
  have hposition : d + b.readyBytes + (q - (d + b.readyBytes)) = q := by omega
  obtain ⟨hvalid, run, hsack, hrun, hge, hlt⟩ := h.updateRecentSack_spec hoffset
    (by rw [hposition]; exact hheld q hq.1 hq.2)
  rw [hposition] at hvalid hsack hge hlt
  rw [hnoted] at hvalid hsack
  have hstart := hrun.beyond
  have hend := h.lt_of_isSome (hrun.all (run.2 - 1) (by omega) (by omega))
  refine ⟨hvalid, by omega, run, hsack, ?_, ?_, by omega, .inl hrun, fun p hp => ?_⟩
  · -- the byte before the run is not held
    by_contra hlt'
    have := hheld (run.1 - 1) (by omega) (by omega)
    simp [hrun.left] at this
  · by_contra hlt'
    have := hheld run.2 (by omega) (by omega)
    simp [hrun.right] at this
  · have := h.lt_of_isSome hp
    exact .inr (by omega)

/-- A segment that is accepted is noted if it is beyond `rcvNxt`, and no other one is. -/
theorem onSegment (h : Reassembles isn held d b) (hr : Recalls isn held (d + b.readyBytes) b last)
    (psh : Bool) (hne : data ≠ []) (hacc : b.isSequenceAcceptable sequence data.length) :
    let b' := (b.onSegment sequence data psh).1
    Recalls isn
      (fun p => (held p).or (arrives isn (d + b.readyBytes) b.acceptableWindow sequence data p))
      (d + b'.readyBytes) b' ((b.partBeyond (d + b.readyBytes) sequence data).or last) := by
  intro b'
  have h' : Reassembles isn _ d b' := h.onSegment sequence data psh hacc
  have hext : Extends b' b := onSegment_extends b sequence data psh
  have hle := hext.ready_le
  have hgap' := h'.gap
  have hready := h'.ready
  obtain ⟨left, first, right, hcut, hleft, hfirst, hseq, hoffset, heq⟩ := h.onSegment_eq psh hne hacc
  have hmax : data.length < 2 ^ 31 :=
    lt_of_le_of_lt (Reassembles.offset_of_acceptable (by omega) hacc).1 (by decide)
  have hwcap : b.acceptableWindow < 2 ^ 31 := by
    have hcap := h.capacity_lt
    rw [acceptableWindow]
    split <;> omega
  have hb' : b' = (b.acceptBytes _ first _ left right psh).1 := congrArg Prod.fst heq
  rw [partBeyond, hoffset]
  dsimp only
  generalize hn : d + b.readyBytes = n at *
  generalize hw : b.acceptableWindow = w at *
  rcases Nat.eq_zero_or_pos first with rfl | hpos
  · -- in order: what arrives is in order up to the new `rcvNxt`
    rw [if_neg (by omega), Option.none_or]
    have hfill : Recalls isn
        (fun p => (held p).or (arrives isn n w sequence data p)) (d + b'.readyBytes) b last := by
      refine hr.fill (by omega) hgap' (fun p hp => by simp [hp]) fun p hp => ?_
      rw [Option.isSome_or, Bool.or_eq_true] at hp
      refine hp.imp_right fun hp => ?_
      by_contra hge
      obtain ⟨hin, hlt⟩ := isSome_arrives.1 hp
      have hat : ∀ q, n ≤ q → q < n + w → (seqAt isn q - sequence).toNat = left + (q - n) := by
        intro q hq hq'
        rw [← Reassembles.toNat_sub_of_add_eq hseq (by omega)]
        congr 3
        omega
      rw [hat p hin.1 hin.2] at hlt
      have hsome : (arrives isn n w sequence data (d + b'.readyBytes)).isSome := by
        rw [isSome_arrives, hat _ (by omega) (by omega)]
        omega
      rw [Option.or_eq_none_iff] at hgap'
      simp [hgap'.2] at hsome
    rw [hb'] at hfill ⊢
    obtain ⟨hsack, hvalid⟩ := recentSack_acceptBytes_zero b (sequence + UInt32.ofNat left)
      ((data.drop left).take (min (data.length - left) (w - 0))) left right psh
    exact hfill.of_eq hsack hvalid
  · -- beyond `rcvNxt`, which stays
    obtain rfl : left = 0 := by omega
    rw [if_pos ⟨hne, hacc, by omega⟩, Option.some_or]
    have harrives : ∀ q, n + first ≤ q → q < n + min (first + data.length) w →
        (arrives isn n w sequence data q).isSome := by
      intro q hq hq'
      rw [isSome_arrives]
      refine ⟨by omega, ?_⟩
      have := Reassembles.toNat_sub_of_add_eq hseq (k := q - (n + first)) (by omega)
      rw [Nat.add_sub_cancel' hq] at this
      omega
    have hstay : d + b'.readyBytes = n := by
      by_contra hmoved
      have hsome := hready b.readyBytes (by omega)
      have hnone := h.gap
      rw [hn] at hsome hnone
      rw [hnone, Option.none_or, isSome_arrives] at hsome
      have hstart : sequence = seqAt isn (n + first) := hseq ▸ (UInt32.add_zero _).symm
      rw [hstart, toNat_seqAt_sub_neg isn (by omega) (by omega)] at hsome
      omega
    have hdata : (data.drop 0).take (min (data.length - 0) (w - first)) ≠ [] := by
      rw [← length_pos_iff, length_take, length_drop]
      omega
    obtain ⟨k, hk, hnoted⟩ := updateRecentSack_acceptBytes b (sequence + UInt32.ofNat 0) _ 0 right
      psh hpos hdata
    rw [length_take, length_drop] at hk
    rw [← hb', hseq] at hnoted
    have htrigger : seqAt (seqAt isn (n + first)) k = seqAt isn (n + first + k) :=
      (seqAt_add isn (n + first) k).symm
    rw [htrigger] at hnoted
    refine note h' (q := n + first + k) (by omega) (by omega)
      (fun p hp hp' => ?_) hnoted
    rw [Option.isSome_or, harrives p hp hp', Bool.or_true]

end Recalls

end TcpReceiveBuffer

/-! ## Runs -/

open TcpReceiveBuffer

/-- A run of a receive buffer, and where the last segment lies of which a part was
    accepted beyond `rcvNxt`: the positions of this part. -/
structure SackRun extends ReceiveRun where
  outOfOrder : Option (ℕ × ℕ) := none

namespace SackRun

/-- One operation of a run. -/
def step (isn : UInt32) (s : SackRun) (op : ReceiveOp) : SackRun where
  toReceiveRun := s.toReceiveRun.step isn op
  outOfOrder :=
    match op with
    | .segment sequence data _ => (s.buffer.partBeyond (s.nxt isn) sequence data).or s.outOfOrder
    | _ => s.outOfOrder

/-- `s'` is reached from `s` by any operations. -/
def Reaches (isn : UInt32) : SackRun → SackRun → Prop := Runs fun s op s' => s' = s.step isn op

/-- The invariant of a run. -/
structure Inv (isn : UInt32) (s : SackRun) : Prop where
  receives : ReceiveRun.Inv False isn s.toReceiveRun
  recalls : Recalls isn s.held (s.nxt isn) s.buffer s.outOfOrder

theorem inv_step {isn : UInt32} {s : SackRun} (h : Inv isn s) (op : ReceiveOp) :
    Inv isn (s.step isn op) := by
  have hr := h.receives.reassembles
  have hstep := ReceiveRun.inv_step h.receives op False.elim
  have hr' := hstep.reassembles
  refine ⟨hstep, ?_⟩
  have hrecalls := h.recalls
  -- operations that leave `rcvNxt`, the bytes and the noted block as they are
  have hquiet : (s.toReceiveRun.step isn op).held = s.held →
      (s.toReceiveRun.step isn op).nxt isn = s.nxt isn →
      (s.toReceiveRun.step isn op).buffer.recentSack = s.buffer.recentSack →
      (s.toReceiveRun.step isn op).buffer.recentSackValid = s.buffer.recentSackValid →
      Recalls isn (s.toReceiveRun.step isn op).held ((s.toReceiveRun.step isn op).nxt isn)
        (s.toReceiveRun.step isn op).buffer s.outOfOrder := by
    intro hheld hnxt hsack hvalid
    rw [hheld, hnxt]
    exact hrecalls.of_eq hsack hvalid
  cases op with
  | setBlocked | ackSent => exact hquiet rfl rfl rfl rfl
  | recordAdvertisedWindow window =>
    obtain ⟨hnxt, hsack, hvalid⟩ := recordAdvertisedWindow_frame s.buffer window
    refine hquiet rfl ?_ hsack hvalid
    simp only [ReceiveRun.nxt, ReceiveRun.step, hnxt]
  | consume length =>
    refine hquiet rfl ?_ rfl rfl
    have hlength : (s.toReceiveRun.step isn (.consume length)).obtained.length =
        s.obtained.length + min length s.buffer.readyBytes := by
      simp [ReceiveRun.step, consumeReady]
    rw [ReceiveRun.nxt_eq hr', ReceiveRun.nxt_eq hr, hlength]
    show s.obtained.length + min length s.buffer.readyBytes +
      (s.buffer.readyBytes - min length s.buffer.readyBytes) = _
    omega
  | segment sequence data psh =>
    by_cases hin : data ≠ [] ∧ s.buffer.isSequenceAcceptable sequence data.length = true
    · have hheld : (s.toReceiveRun.step isn (.segment sequence data psh)).held =
          fun p => (s.held p).or
            (arrives isn (s.nxt isn) s.buffer.acceptableWindow sequence data p) := if_pos hin.2
      rw [ReceiveRun.nxt_eq hr] at hrecalls hheld
      have hnoted := Recalls.onSegment hr hrecalls psh hin.1 hin.2
      rw [← hheld] at hnoted
      show Recalls isn _ ((s.toReceiveRun.step isn (.segment sequence data psh)).nxt isn) _
        ((s.buffer.partBeyond (s.nxt isn) sequence data).or s.outOfOrder)
      rw [ReceiveRun.nxt_eq hr', ReceiveRun.nxt_eq hr]
      exact hnoted
    · -- nothing is accepted
      have hnone : s.buffer.partBeyond (s.nxt isn) sequence data = none := by
        rw [partBeyond]
        split
        · rfl
        · exact if_neg fun hcond => hin ⟨hcond.1, hcond.2.1⟩
      have hheld : (s.toReceiveRun.step isn (.segment sequence data psh)).held = s.held := by
        by_cases hacc : s.buffer.isSequenceAcceptable sequence data.length = true
        · obtain rfl : data = [] := by_contra fun hne => hin ⟨hne, hacc⟩
          refine (if_pos hacc).trans ?_
          funext p
          simp [arrives]
        · exact if_neg hacc
      obtain ⟨_, heq⟩ := onSegment_of_not psh hin
      show Recalls isn _ _ _ ((s.buffer.partBeyond (s.nxt isn) sequence data).or s.outOfOrder)
      rw [hnone, Option.none_or]
      refine hquiet hheld ?_ ?_ ?_
      all_goals simp only [ReceiveRun.nxt, ReceiveRun.step, heq]

theorem Reaches.inv {isn : UInt32} {capacity window : ℕ} {b : TcpReceiveBuffer} {s : SackRun}
    (hb : new capacity isn window = some b) (h : Reaches isn { buffer := b } s) : Inv isn s := by
  refine Runs.invariant h ⟨ReceiveRun.Reaches.inv hb .refl, ?_, nofun⟩ ?_
  · rw [new] at hb
    obtain ⟨-, hb⟩ := Option.ite_none_left_eq_some.1 hb
    cases hb
    rfl
  · rintro s op s' hs rfl
    exact inv_step hs op

end SackRun

/-- `HeldRun`s that have a position in common are equal. -/
theorem HeldRun.eq_of_mem {held : ℕ → Option UInt8} {n : ℕ} {run run' : ℕ × ℕ}
    (h : HeldRun held n run) (h' : HeldRun held n run') {p : ℕ} (hp : run.1 ≤ p ∧ p < run.2)
    (hp' : run'.1 ≤ p ∧ p < run'.2) : run = run' := by
  have hblock : ∀ {run : ℕ × ℕ} {hi : ℕ}, HeldRun held n run → run.2 ≤ hi →
      IsBlock (fun p => (held p).isSome) n hi run := by
    intro run hi h hle
    exact ⟨le_of_lt h.beyond, h.lt, hle, h.all, .inr (by simp [h.left]), .inr (by simp [h.right])⟩
  exact (hblock h (le_max_left ..)).eq_of_mem (hblock h' (le_max_right ..)) hp hp'

namespace TcpReceiveBuffer.Reassembles

variable {isn : UInt32} {held : ℕ → Option UInt8} {d : ℕ} {b : TcpReceiveBuffer}

theorem mem_runs (h : Reassembles isn held d b) {xs : List (ℕ × ℕ)}
    (hxs : Blocks (fun l => (held (d + l)).isSome) b.capacity b.readyBytes xs) (run : ℕ × ℕ) :
    run ∈ xs.map (fun x => (d + x.1, d + x.2)) ↔ HeldRun held (d + b.readyBytes) run := by
  rw [mem_map]
  constructor
  · rintro ⟨x, hx, rfl⟩
    exact (h.heldRun_iff x.1 x.2).2 ((hxs.mem_iff x).1 hx)
  · intro hrun
    have hbeyond := hrun.beyond
    have hlt := hrun.lt
    have heq : (d + (run.1 - d), d + (run.2 - d)) = run := Prod.ext (by omega) (by omega)
    refine ⟨(run.1 - d, run.2 - d), (hxs.mem_iff _).2 ?_, heq⟩
    rw [← h.heldRun_iff, heq]
    exact hrun

/-- The sequence numbers of a block tell its run. -/
theorem sackBlock_inj (h : Reassembles isn held d b) {run run' : ℕ × ℕ}
    (hrun : HeldRun held (d + b.readyBytes) run) (hrun' : HeldRun held (d + b.readyBytes) run') :
    sackBlock isn run = sackBlock isn run' ↔ run = run' := by
  have hmax := h.capacity_lt
  have hin : ∀ {run}, HeldRun held (d + b.readyBytes) run →
      d + b.readyBytes < run.1 ∧ run.1 < d + b.capacity := fun hrun =>
    ⟨hrun.beyond, h.lt_of_isSome (hrun.all _ (le_refl _) hrun.lt)⟩
  refine ⟨fun he => ?_, fun he => he ▸ rfl⟩
  have hlt := hin hrun
  have hlt' := hin hrun'
  have hfst : run.1 = run'.1 := seqAt_inj isn (congrArg TcpSackBlock.leftEdge he) (by omega)
    (by omega)
  exact hrun.eq_of_mem hrun' ⟨le_refl _, hrun.lt⟩ 
    ⟨le_of_eq hfst.symm, hfst ▸ hrun'.lt⟩

/-- The runs reported: the one noted, if there is one, then the others in order. -/
theorem sackBlocks_eq (h : Reassembles isn held d b) {last : Option (ℕ × ℕ)}
    (hr : Recalls isn held (d + b.readyBytes) b last) (maxBlocks : ℕ) :
    ∃ (runs : List (ℕ × ℕ)) (noted : Option (ℕ × ℕ)), runs.Nodup ∧
      (∀ run, run ∈ runs ↔ HeldRun held (d + b.readyBytes) run) ∧
      (∀ run ∈ noted, run ∈ runs) ∧
      (∀ part run, last = some part → run ∈ runs → run.1 ≤ part.1 → part.1 < run.2 →
        noted = some run) ∧
      b.sackBlocks maxBlocks =
        ((noted.toList ++ runs.filter fun run => noted ≠ some run).take (min maxBlocks 4)).map
          (sackBlock isn) := by
  obtain ⟨xs, hxs⟩ := exists_blocks (fun l => (held (d + l)).isSome) b.capacity b.readyBytes
  have hmem := h.mem_runs hxs
  have hnodup : (xs.map fun x => (d + x.1, d + x.2)).Nodup := by
    refine hxs.nodup.map fun x y he => ?_
    obtain ⟨hfst, hsnd⟩ := Prod.mk.inj he
    exact Prod.ext (Nat.add_left_cancel hfst) (Nat.add_left_cancel hsnd)
  -- the loop, from the block that is reported first
  have hloop : ∀ noted : Option (ℕ × ℕ), (∀ run ∈ noted, HeldRun held (d + b.readyBytes) run) →
      b.recentSackBlock = (noted.toList).map (sackBlock isn) →
      b.sackBlocks maxBlocks = ((noted.toList ++ (xs.map fun x => (d + x.1, d + x.2)).filter
        fun run => noted ≠ some run).take (min maxBlocks 4)).map (sackBlock isn) := by
    intro noted hnoted hrecent
    rw [sackBlocks]
    split
    case isTrue hzero => rw [hzero, take_zero, map_nil]
    case isFalse hlimit =>
      have hlen : b.recentSackBlock.length ≤ min maxBlocks 4 := by
        rw [hrecent, length_map]
        cases noted with
        | none => exact Nat.zero_le _
        | some => exact Nat.one_le_iff_ne_zero.2 hlimit
      have hmap : (xs.map fun x => sackBlock isn (d + x.1, d + x.2)) =
          (xs.map fun x => (d + x.1, d + x.2)).map (sackBlock isn) := by
        rw [map_map]
        rfl
      rw [← h.sum_width hxs, h.collectSackBlocks_eq hxs (Nat.le_refl _) (Nat.sub_le ..) hlen, hrecent,
        map_take, map_append, hmap, filter_map]
      congr 3
      refine filter_congr fun run hrun => ?_
      cases noted with
      | none => rfl
      | some run' =>
        have hiff := h.sackBlock_inj (hnoted run' rfl) ((hmem run).1 hrun)
        simp [hiff]
  rcases hr.recentSackBlock_eq h with ⟨run, hrecent, hrun, hpart⟩ | ⟨hrecent, hpart⟩
  · refine ⟨_, some run, hnodup, hmem, ?_, ?_, hloop (some run) ?_ hrecent⟩
    · intro run' he
      cases he
      exact (hmem run).2 hrun
    · intro part run' hlast hrun' hle hlt
      exact congrArg some (hrun.eq_of_mem ((hmem run').1 hrun') (hpart part hlast) ⟨hle, hlt⟩)
    · intro run' he
      cases he
      exact hrun
  · refine ⟨_, none, hnodup, hmem, nofun, ?_, hloop none nofun hrecent⟩
    intro part run hlast hrun hle hlt
    have := hpart part hlast
    have := ((hmem run).1 hrun).beyond
    omega

end TcpReceiveBuffer.Reassembles

/-- Moving a member to the front. -/
theorem perm_toList_append_filter {α : Type*} [DecidableEq α] {l : List α} (hl : l.Nodup)
    {o : Option α} (ho : ∀ a ∈ o, a ∈ l) : (o.toList ++ l.filter fun a => o ≠ some a).Perm l := by
  cases o with
  | none => simp
  | some a =>
    have hfilter : (l.filter fun x => some a ≠ some x) = l.erase a := by
      rw [hl.erase_eq_filter]
      refine filter_congr fun x _ => ?_
      by_cases he : a = x
      · simp [he]
      · simp [he, Ne.symm he]
    rw [hfilter]
    exact (perm_cons_erase (ho a rfl)).symm

/-- `sackBlocks` describes the ring exactly, in every run. The cells of the ring are the bytes of
    `held` that are not delivered yet, and `rcvNxt` is the first position that is not held. The
    blocks reported are disjoint runs of what is held beyond it, as many as there are and are
    allowed; a run around the last segment of which a part was accepted beyond `rcvNxt` comes first;
    and the countdown does not go below zero. -/
theorem sackBlocks_exact {isn : UInt32} {capacity window : ℕ} {b : TcpReceiveBuffer}
    (hb : new capacity isn window = some b) {s : SackRun}
    (hs : SackRun.Reaches isn { buffer := b } s) (maxBlocks : ℕ) :
    s.buffer.rcvNxt = seqAt isn (s.nxt isn) ∧
      (∀ l < s.buffer.capacity, s.buffer.cell l = s.held (s.obtained.length + l)) ∧
      ∃ (runs : Finset (ℕ × ℕ)) (shown : List (ℕ × ℕ)),
        (∀ run, run ∈ runs ↔ HeldRun s.held (s.nxt isn) run) ∧
        s.buffer.sackBlocks maxBlocks = shown.map (sackBlock isn) ∧
        (∀ run ∈ shown, run ∈ runs) ∧
        shown.Pairwise (fun x y => x.2 ≤ y.1 ∨ y.2 ≤ x.1) ∧
        shown.length = min (min maxBlocks 4) runs.card ∧
        (∀ part run, s.outOfOrder = some part → run ∈ runs → run.1 ≤ part.1 → part.2 ≤ run.2 →
          maxBlocks ≠ 0 → shown.head? = some run) ∧
        ∀ z ∈ s.buffer.sackCountdown maxBlocks, 0 ≤ z := by
  obtain ⟨hreceives, hrecalls⟩ := hs.inv hb
  have hr := hreceives.reassembles
  have hnxt := ReceiveRun.nxt_eq hr
  have hpart : ∀ part, s.outOfOrder = some part → part.1 < part.2 := by
    intro part hlast
    rw [hlast] at hrecalls
    exact hrecalls.2.1
  rw [hnxt] at hrecalls ⊢
  obtain ⟨runs, noted, hnodup, hmem, hnoted, hfirst, hblocks⟩ := hr.sackBlocks_eq hrecalls maxBlocks
  have hperm := perm_toList_append_filter hnodup hnoted
  refine ⟨hr.nxt, hr.cells, runs.toFinset, _, ?_, hblocks, ?_, ?_, ?_, ?_, ?_⟩
  · intro run
    rw [mem_toFinset, hmem]
  · intro run hrun
    rw [mem_toFinset, ← hperm.mem_iff]
    exact mem_of_mem_take hrun
  · -- different runs have no position in common
    have hne := (hperm.nodup_iff.2 hnodup).sublist (take_sublist (min maxBlocks 4) _)
    refine hne.imp_of_mem fun {x y} hx hy hxy => ?_
    have hx' := (hmem x).1 (hperm.mem_iff.1 (mem_of_mem_take hx))
    have hy' := (hmem y).1 (hperm.mem_iff.1 (mem_of_mem_take hy))
    have hltx := hx'.lt
    have hlty := hy'.lt
    by_contra hoverlap
    exact hxy (hx'.eq_of_mem hy' (p := max x.1 y.1) (by omega) (by omega))
  · rw [length_take, hperm.length_eq, toFinset_card_of_nodup hnodup]
  · intro part run hlast hrun hle hge hmax
    rw [mem_toFinset] at hrun
    have hlt := hpart part hlast
    rw [hfirst part run hlast hrun hle (by omega)]
    obtain ⟨_, hlimit⟩ : ∃ n, min maxBlocks 4 = n + 1 := ⟨min maxBlocks 4 - 1, by omega⟩
    rw [hlimit]
    rfl
  · intro z hz
    rw [sackCountdown] at hz
    split at hz
    case isTrue => cases hz
    case isFalse =>
      obtain ⟨xs, hxs⟩ := exists_blocks (fun l => (s.held (s.obtained.length + l)).isSome)
        s.buffer.capacity s.buffer.readyBytes
      refine hr.countdown_nonneg hxs (le_refl _) ?_ z hz
      have := hr.readyBytes_le_bytesHeld
      rw [hr.sum_width hxs]
      omega

/-- Three runs in a ring of twelve cells. The last segment joins the one at `4` and the one at `6`,
    and is reported first; then the bytes before them arrive, and the run at `9` is left. -/
theorem sackBlocks_exact_join :
    ∃ b s s', new 12 100 0 = some b ∧
      SackRun.Reaches 100 { buffer := b } s ∧ SackRun.Reaches 100 { buffer := b } s' ∧
      s.outOfOrder = some (5, 6) ∧ s'.outOfOrder = some (5, 6) ∧
      s.buffer.sackBlocks 4 = [⟨104, 107⟩, ⟨102, 103⟩, ⟨109, 111⟩] ∧
      s'.buffer.sackBlocks 4 = [⟨109, 111⟩] ∧
      (∀ z ∈ s.buffer.sackCountdown 4, 0 ≤ z) ∧ ∀ z ∈ s'.buffer.sackCountdown 4, 0 ≤ z := by
  obtain ⟨b, hb⟩ : ∃ b, new 12 100 0 = some b := ⟨_, rfl⟩
  let ops : List ReceiveOp := [.segment 102 [2] false, .segment 109 [9, 10] false,
    .segment 104 [4] false, .segment 106 [6] false, .segment 105 [5] false]
  have hs : SackRun.Reaches 100 { buffer := b } (ops.foldl (SackRun.step 100) { buffer := b }) :=
    (((Relation.ReflTransGen.single ⟨_, rfl⟩).tail ⟨_, rfl⟩).tail ⟨_, rfl⟩).tail ⟨_, rfl⟩ |>.tail
      ⟨_, rfl⟩
  have hs' : SackRun.Reaches 100 { buffer := b } ((ops.foldl (SackRun.step 100) { buffer := b }).step
      100 (.segment 100 [0, 1, 2, 3] false)) := hs.tail ⟨_, rfl⟩
  have hcount := fun {s} hs => (sackBlocks_exact hb (s := s) hs 4).2.2
  obtain ⟨-, -, -, -, -, -, -, -, hcountdown⟩ := hcount hs
  obtain ⟨-, -, -, -, -, -, -, -, hcountdown'⟩ := hcount hs'
  refine ⟨b, _, _, hb, hs, hs', ?_, ?_, ?_, ?_, hcountdown, hcountdown'⟩
  all_goals
    cases hb
    decide +kernel

end Netstack2
