import Netstack2.Ip.Fragment
import Netstack2.Lib.Tiling

/-!
# What an entry of the reassembler holds

An entry is described by the fragments that were put to it (`ReassemblyEntry.Holds`):
no two of them overlap, the bytes of each one are in the buffer at its place, and the
length of the datagram is known once one without more to follow has come.

* `Holds.addFragment`: an accepted fragment is added to those the entry holds, and a
  refused one leaves them as they are;
* `Holds.tiles`: the payload of a complete entry is the concatenation of its fragments,
  which tile the datagram;
* `Holds.addFragment_datagram`: while the fragments of one datagram come, each one is
  accepted, and with the last one the entry is complete.
-/

namespace Netstack2

open List

/-! ## Fragments -/

/-- A fragment: where it begins in the datagram, its bytes, and whether more follow. -/
structure Fragment where
  offset : ℕ
  data : Bytes
  more : Bool
  deriving DecidableEq

namespace Fragment

def piece (fragment : Fragment) : FragmentPiece := ⟨fragment.offset, fragment.data.length⟩

/-- The position after the fragment. -/
def stop (fragment : Fragment) : ℕ := fragment.offset + fragment.data.length

/-- The fragments do not overlap. -/
def Apart (f g : Fragment) : Prop := f.stop ≤ g.offset ∨ g.stop ≤ f.offset

/-- The fragments stand from `p` to `q` one after the other. -/
def Tile (p : ℕ) (fragments : List Fragment) (q : ℕ) : Prop :=
  Tiles (fun p f => f.offset = p) (fun f => f.data.length) p fragments q

variable {fragments : List Fragment} {p q : ℕ}

theorem Tile.mem (h : Tile p fragments q) {f : Fragment} (hf : f ∈ fragments) :
    p ≤ f.offset ∧ f.stop ≤ q := by
  induction h with
  | nil => cases hf
  | cons hoffset htail ih =>
    rcases mem_cons.1 hf with rfl | hf
    · exact ⟨le_of_eq hoffset.symm, by rw [stop, hoffset]; exact htail.le⟩
    · have := ih hf
      omega

theorem Tile.pairwise (h : Tile p fragments q) :
    fragments.Pairwise fun f g => f.stop ≤ g.offset := by
  induction h with
  | nil => exact .nil
  | cons hoffset htail ih =>
    refine pairwise_cons.2 ⟨fun g hg => ?_, ih⟩
    rw [stop, hoffset]
    exact (Tile.mem htail hg).1

/-- The bytes of fragments that tile an interval are those of the buffer there. -/
theorem Tile.flatMap_data {buffer : Bytes} (h : Tile p fragments q)
    (hstored : ∀ f ∈ fragments, slice buffer f.offset f.data.length = f.data) :
    fragments.flatMap Fragment.data = slice buffer p (q - p) := by
  induction h with
  | nil => rw [Nat.sub_self, slice, take_zero, flatMap_nil]
  | @cons p q f _ hoffset htail ih =>
    obtain ⟨hf, hrest⟩ := forall_mem_cons.1 hstored
    have hle := htail.le
    have hlen : q - p = f.data.length + (q - (p + f.data.length)) := by omega
    rw [flatMap_cons, ih hrest, hlen, slice_add, ← hoffset, hf]

end Fragment

namespace ReassemblyEntry

/-! ## The check for completeness -/

theorem contiguousEnd_eq_some_iff {expectedEnd total : ℕ} {pieces : List FragmentPiece} :
    contiguousEnd expectedEnd pieces = some total ↔
      Tiles (fun p piece => piece.offset = p) FragmentPiece.length expectedEnd pieces total := by
  induction pieces generalizing expectedEnd with
  | nil =>
    rw [contiguousEnd, Option.some_inj]
    exact ⟨fun h => h ▸ .nil _, Tiles.eq_of_nil⟩
  | cons _ _ ih =>
    rw [contiguousEnd]
    split
    case isTrue hne =>
      refine ⟨nofun, fun h => ?_⟩
      cases h with
      | cons hoffset => exact absurd hoffset hne
    case isFalse heq =>
      rw [ih]
      obtain rfl := not_not.1 heq
      constructor
      · exact .cons rfl
      · intro h
        cases h with
        | cons _ htail => exact htail

theorem tiles_map_piece {p q : ℕ} {fragments : List Fragment} :
    Tiles (fun p piece => piece.offset = p) FragmentPiece.length p (fragments.map Fragment.piece) q ↔
      Fragment.Tile p fragments q := by
  induction fragments generalizing p with
  | nil =>
    constructor
    · intro h
      rw [h.eq_of_nil]
      exact .nil _
    · intro h
      rw [h.eq_of_nil]
      exact .nil _
  | cons _ _ ih =>
    constructor
    · intro h
      cases h with
      | cons hoffset htail => exact .cons hoffset (ih.1 htail)
    · intro h
      cases h with
      | cons hoffset htail => exact .cons hoffset (ih.2 htail)

/-! ## What an entry holds -/

structure Holds (entry : ReassemblyEntry) (fragments : List Fragment) : Prop where
  pieces : entry.pieces = fragments.map Fragment.piece
  apart : fragments.Pairwise Fragment.Apart
  stored : ∀ f ∈ fragments, f.stop ≤ entry.dataBuffer.length ∧
    slice entry.dataBuffer f.offset f.data.length = f.data
  last : entry.lastReceived = true ↔ ∃ f ∈ fragments, f.more = false
  total : ∀ f ∈ fragments, f.more = false → f.stop = entry.totalPayloadLength

theorem Holds.fresh (key : FragmentKey) (deadlineMs : ℕ) :
    Holds { key := key, deadlineMs := deadlineMs } [] where
  pieces := rfl
  apart := .nil
  stored := fun _ hf => absurd hf not_mem_nil
  last := by
    refine ⟨fun h => absurd h Bool.false_ne_true, ?_⟩
    rintro ⟨f, hf, -⟩
    exact absurd hf not_mem_nil
  total := fun _ hf => absurd hf not_mem_nil

section Holds

variable {entry : ReassemblyEntry} {fragments : List Fragment} {fragment : Fragment}
  {nowMs expiresMs maxPayloadBytes budget : ℕ} {ecn : UInt8}

theorem Holds.apart_of_not_hasOverlap (h : entry.Holds fragments)
    (hoverlap : entry.hasOverlap fragment.offset fragment.data.length = false) :
    ∀ f ∈ fragments, f.Apart fragment := by
  intro f hf
  rw [hasOverlap, h.pieces, any_map, any_eq_false] at hoverlap
  have hf' := hoverlap f hf
  rw [Function.comp_apply, Bool.and_eq_true, decide_eq_true_iff, decide_eq_true_iff] at hf'
  rw [Fragment.Apart, Fragment.stop, Fragment.stop]
  rw [Fragment.piece, FragmentPiece.stop] at hf'
  dsimp only at hf'
  omega

theorem Holds.store (h : entry.Holds fragments)
    (hoverlap : entry.hasOverlap fragment.offset fragment.data.length = false)
    (hterminal : fragment.more = false → entry.lastReceived →
      fragment.stop = entry.totalPayloadLength) :
    (entry.store fragment.offset fragment.data fragment.more nowMs expiresMs ecn).Holds
      (fragments ++ [fragment]) := by
  have hapart := h.apart_of_not_hasOverlap hoverlap
  have hgrow := length_growTo entry.dataBuffer (fragment.offset + fragment.data.length)
  have hfits : fragment.offset + fragment.data.length ≤
      (growTo entry.dataBuffer (fragment.offset + fragment.data.length)).length := by
    omega
  constructor
  · rw [ReassemblyEntry.store, h.pieces, map_append]
    rfl
  · refine pairwise_append.2 ⟨h.apart, pairwise_singleton .., fun f hf g hg => ?_⟩
    obtain rfl := mem_singleton.1 hg
    exact hapart f hf
  · intro f hf
    rw [ReassemblyEntry.store, length_writeAt hfits]
    rcases mem_append.1 hf with hold | hnew
    · -- the buffer is as it was where the others are
      obtain ⟨hstop, hslice⟩ := h.stored f hold
      have hdisjoint : f.offset + f.data.length ≤ fragment.offset ∨
          fragment.offset + fragment.data.length ≤ f.offset := hapart f hold
      refine ⟨by omega, ?_⟩
      rw [slice_writeAt_of_disjoint (by omega) hdisjoint, slice_growTo hstop, hslice]
    · obtain rfl := mem_singleton.1 hnew
      exact ⟨hfits, slice_writeAt hfits⟩
  · simp only [ReassemblyEntry.store, Bool.or_eq_true, Bool.not_eq_true', h.last,
      mem_append, mem_singleton, or_and_right, exists_or, exists_eq_left]
  · intro f hf hlast
    rw [ReassemblyEntry.store]
    rcases mem_append.1 hf with hold | hnew
    · cases hmore : fragment.more with
      | true => exact h.total f hold hlast
      | false =>
        rw [if_neg Bool.false_ne_true, h.total f hold hlast]
        exact (hterminal hmore (h.last.2 ⟨f, hold, hlast⟩)).symm
    · obtain rfl := mem_singleton.1 hnew
      rw [hlast, if_neg Bool.false_ne_true]
      rfl

/-- A complete entry has the whole datagram: its fragments tile it. -/
theorem Holds.tiles (h : entry.Holds fragments) (hcomplete : entry.isComplete) :
    ∃ tiles, tiles.Perm fragments ∧ Fragment.Tile 0 tiles entry.totalPayloadLength ∧
      entry.dataBuffer.take entry.totalPayloadLength = tiles.flatMap Fragment.data ∧
      ∃ f ∈ tiles, f.more = false ∧ f.stop = entry.totalPayloadLength := by
  have hperm : (sortByKey Fragment.offset fragments).Perm fragments := perm_sortByKey fragments
  have hsort : sortPieces entry.pieces =
      (sortByKey Fragment.offset fragments).map Fragment.piece := by
    rw [sortPieces, h.pieces]
    exact map_sortByKey (fun _ => rfl) fragments
  rw [isComplete, Bool.and_eq_true, hsort] at hcomplete
  obtain ⟨hlast, hcover⟩ := hcomplete
  have htile : Fragment.Tile 0 (sortByKey Fragment.offset fragments) entry.totalPayloadLength := by
    cases hsorted : sortByKey Fragment.offset fragments with
    | nil =>
      rw [hsorted] at hcover
      exact absurd hcover Bool.false_ne_true
    | cons first =>
      rw [hsorted, map_cons] at hcover
      rw [Bool.and_eq_true, beq_iff_eq, beq_iff_eq, contiguousEnd_eq_some_iff,
        tiles_map_piece] at hcover
      obtain ⟨hzero, hrest⟩ := hcover
      refine .cons hzero ?_
      have hstop : first.piece.stop = 0 + first.data.length := by
        rw [FragmentPiece.stop, hzero]
        rfl
      rwa [hstop] at hrest
  obtain ⟨f, hf, hmore⟩ := h.last.1 hlast
  refine ⟨_, hperm, htile, ?_, f, hperm.mem_iff.2 hf, hmore, h.total f hf hmore⟩
  rw [htile.flatMap_data fun f hf => (h.stored f (hperm.mem_iff.1 hf)).2]
  rfl

/-! ## Adding a fragment -/

/-- What is asked of a fragment, apart from the room for it. -/
structure Ready (entry : ReassemblyEntry) (fragment : Fragment) (maxPayloadBytes : ℕ) : Prop where
  nonempty : fragment.data ≠ []
  few : entry.pieces.length < maxFragmentsPerEntry
  aligned : fragment.offset % 8 = 0
  alignedLength : fragment.more = true → fragment.data.length % 8 = 0
  representable : fragment.stop ≤ 0xffffffff
  limited : 0 < maxPayloadBytes → fragment.stop ≤ maxPayloadBytes
  inside : entry.lastReceived = true → fragment.stop ≤ entry.totalPayloadLength
  terminal : fragment.more = false → entry.lastReceived = true →
    fragment.stop = entry.totalPayloadLength
  apart : entry.hasOverlap fragment.offset fragment.data.length = false
  kept : entry.discarded = false

/-- A fragment that is ready is kept if there is room for it. -/
theorem addFragment_of_ready (h : entry.Ready fragment maxPayloadBytes) :
    entry.addFragment fragment.offset fragment.data fragment.more nowMs expiresMs maxPayloadBytes
      budget ecn = if fragment.stop > entry.bytesHeld ∧ fragment.stop - entry.bytesHeld > budget then
        (entry, { error := some .byteBudgetExceeded })
      else (entry.store fragment.offset fragment.data fragment.more nowMs expiresMs ecn).finish := by
  have hstop : fragment.offset + fragment.data.length = fragment.stop := rfl
  rw [addFragment, hstop, if_neg h.nonempty, if_neg (Nat.not_le.2 h.few),
    if_neg fun hbad => hbad.2 h.aligned,
    if_neg fun hbad => hbad.2 (h.alignedLength hbad.1), if_neg (Nat.not_lt.2 h.representable),
    if_neg fun hbad => Nat.not_lt.2 (h.limited hbad.1) hbad.2,
    if_neg fun hbad => Nat.not_lt.2 (h.inside hbad.1) hbad.2,
    if_neg fun hbad => hbad.2.2 (h.terminal (Bool.not_eq_true _ ▸ hbad.1) hbad.2.1),
    if_neg (Bool.eq_false_iff.1 h.apart), if_neg (Bool.eq_false_iff.1 h.kept)]

/-- A fragment that is not ready is refused; the datagram may be given up. -/
theorem addFragment_of_not_ready (h : ¬entry.Ready fragment maxPayloadBytes) :
    ∃ error discarded, entry.addFragment fragment.offset fragment.data fragment.more nowMs expiresMs
      maxPayloadBytes budget ecn =
        ({ entry with discarded := discarded }, { error := some error }) ∧
      (entry.inUse = false → discarded = entry.discarded) := by
  rw [addFragment]
  by_cases hnonempty : fragment.data = []
  · exact ⟨_, _, if_pos hnonempty, fun _ => rfl⟩
  rw [if_neg hnonempty]
  by_cases hfew : entry.pieces.length ≥ maxFragmentsPerEntry
  · exact ⟨_, _, if_pos hfew, fun _ => rfl⟩
  rw [if_neg hfew]
  by_cases haligned : fragment.offset ≠ 0 ∧ fragment.offset % 8 ≠ 0
  · exact ⟨_, _, if_pos haligned, fun _ => rfl⟩
  rw [if_neg haligned]
  by_cases hlength : fragment.more ∧ fragment.data.length % 8 ≠ 0
  · exact ⟨_, _, if_pos hlength, fun _ => rfl⟩
  rw [if_neg hlength]
  by_cases hrepresentable : fragment.offset + fragment.data.length > 0xffffffff
  · exact ⟨_, _, if_pos hrepresentable, fun _ => rfl⟩
  rw [if_neg hrepresentable]
  by_cases hlimited : maxPayloadBytes > 0 ∧ fragment.offset + fragment.data.length > maxPayloadBytes
  · exact ⟨_, _, if_pos hlimited, fun _ => rfl⟩
  rw [if_neg hlimited]
  by_cases hinside : entry.lastReceived ∧
      fragment.offset + fragment.data.length > entry.totalPayloadLength
  · exact ⟨_, _, if_pos hinside, fun _ => rfl⟩
  rw [if_neg hinside]
  by_cases hterminal : ¬fragment.more ∧ entry.lastReceived ∧
      fragment.offset + fragment.data.length ≠ entry.totalPayloadLength
  · exact ⟨_, _, if_pos hterminal, fun _ => rfl⟩
  rw [if_neg hterminal]
  by_cases hoverlap : entry.hasOverlap fragment.offset fragment.data.length
  · rw [if_pos hoverlap]
    by_cases hversion : entry.key.ipVersion = 6
    · refine ⟨_, _, if_pos hversion, fun hunused => ?_⟩
      rw [inUse, Bool.not_eq_false', List.isEmpty_iff] at hunused
      simp [hasOverlap, hunused] at hoverlap
    · exact ⟨_, _, if_neg hversion, fun _ => rfl⟩
  rw [if_neg hoverlap]
  by_cases hdiscarded : entry.discarded
  · exact ⟨_, _, if_pos hdiscarded, fun _ => rfl⟩
  -- all that is asked is met
  refine absurd ⟨hnonempty, Nat.not_le.1 hfew, ?_, ?_, Nat.not_lt.1 hrepresentable, ?_, ?_, ?_,
    Bool.not_eq_true _ ▸ hoverlap, Bool.not_eq_true _ ▸ hdiscarded⟩ h
  · omega
  · intro hmore
    by_contra hne
    exact hlength ⟨hmore, hne⟩
  · intro hpos
    exact Nat.not_lt.1 fun hlt => hlimited ⟨hpos, hlt⟩
  · intro hlast
    exact Nat.not_lt.1 fun hlt => hinside ⟨hlast, hlt⟩
  · intro hmore hlast
    by_contra hne
    exact hterminal ⟨Bool.not_eq_true _ ▸ hmore, hlast, hne⟩

/-- What comes of a fragment: it is refused, and the datagram may be given up, or it is kept,
    or with it the datagram is handed out. -/
inductive Gives (entry : ReassemblyEntry) (fragment : Fragment) (maxPayloadBytes nowMs expiresMs : ℕ)
    (ecn : UInt8) : ReassemblyEntry → FragmentAddResult → Prop
  | refused (error : FragmentError) (discarded : Bool) :
      (entry.inUse = false → discarded = entry.discarded) →
      Gives entry fragment maxPayloadBytes nowMs expiresMs ecn { entry with discarded := discarded }
        { error := some error }
  | kept : entry.Ready fragment maxPayloadBytes →
      Gives entry fragment maxPayloadBytes nowMs expiresMs ecn
        (entry.store fragment.offset fragment.data fragment.more nowMs expiresMs ecn) {}
  | whole (stored : ReassemblyEntry) : entry.Ready fragment maxPayloadBytes →
      entry.store fragment.offset fragment.data fragment.more nowMs expiresMs ecn = stored →
      stored.isComplete = true →
      Gives entry fragment maxPayloadBytes nowMs expiresMs ecn { stored with dataBuffer := [] } {
        complete := true
        totalLength := stored.totalPayloadLength
        ecn := stored.ecnOr
        payload := stored.dataBuffer.take stored.totalPayloadLength }

theorem addFragment_gives {entry' : ReassemblyEntry} {result : FragmentAddResult}
    (heq : entry.addFragment fragment.offset fragment.data fragment.more nowMs expiresMs
      maxPayloadBytes budget ecn = (entry', result)) :
    entry.Gives fragment maxPayloadBytes nowMs expiresMs ecn entry' result := by
  by_cases hready : entry.Ready fragment maxPayloadBytes
  · rw [addFragment_of_ready hready] at heq
    split at heq
    case isTrue =>
      obtain ⟨rfl, rfl⟩ := Prod.mk.inj heq
      exact .refused _ entry.discarded fun _ => rfl
    case isFalse =>
      rw [finish] at heq
      split at heq
      case isTrue hcomplete =>
        obtain ⟨rfl, rfl⟩ := Prod.mk.inj heq
        exact .whole _ hready rfl hcomplete
      case isFalse =>
        obtain ⟨rfl, rfl⟩ := Prod.mk.inj heq
        exact .kept hready
  · obtain ⟨error, discarded, hrefused, hsame⟩ := addFragment_of_not_ready hready
    rw [hrefused] at heq
    obtain ⟨rfl, rfl⟩ := Prod.mk.inj heq
    exact .refused error discarded hsame

/-- The result hands out a datagram of these fragments: they tile it, in some order, and
    one of them is its end. -/
def IsDatagram (fragments : List Fragment) (result : FragmentAddResult) : Prop :=
  ∃ tiles, tiles.Perm fragments ∧ Fragment.Tile 0 tiles result.totalLength ∧
    result.payload = tiles.flatMap Fragment.data ∧
    ∃ f ∈ tiles, f.more = false ∧ f.stop = result.totalLength

/-- What an entry holds after a fragment. -/
theorem Holds.addFragment (h : entry.Holds fragments) {entry' : ReassemblyEntry}
    {result : FragmentAddResult} (heq : entry.addFragment fragment.offset fragment.data fragment.more
      nowMs expiresMs maxPayloadBytes budget ecn = (entry', result)) :
    (result.error ≠ none → entry'.Holds fragments) ∧
      (result.error = none → result.complete = false → entry'.Holds (fragments ++ [fragment])) ∧
      (result.complete → IsDatagram (fragments ++ [fragment]) result) := by
  cases addFragment_gives heq with
  | refused => exact ⟨fun _ => ⟨h.pieces, h.apart, h.stored, h.last, h.total⟩, nofun, nofun⟩
  | kept hready =>
    exact ⟨fun hsome => absurd rfl hsome, fun _ _ => h.store hready.apart hready.terminal, nofun⟩
  | whole _ hready hstored hcomplete =>
    subst hstored
    refine ⟨fun hsome => absurd rfl hsome, nofun, fun _ => ?_⟩
    exact (h.store hready.apart hready.terminal).tiles hcomplete

end Holds

end ReassemblyEntry

/-! ## The fragments of one datagram -/

/-- The fragments of a datagram that is cut into these pieces, from `offset` on. -/
def fragmentsFrom : ℕ → List Bytes → List Fragment
  | _, [] => []
  | offset, piece :: pieces =>
    ⟨offset, piece, !pieces.isEmpty⟩ :: fragmentsFrom (offset + piece.length) pieces

/-- The pieces of a datagram that may be sent as fragments. -/
structure IsCutting (pieces : List Bytes) : Prop where
  nonempty : pieces ≠ []
  few : pieces.length ≤ maxFragmentsPerEntry
  pos : ∀ piece ∈ pieces, piece ≠ []
  aligned : ∀ piece ∈ pieces.dropLast, piece.length % 8 = 0

section Datagram

variable {pieces : List Bytes} (offset : ℕ)

theorem length_fragmentsFrom : (fragmentsFrom offset pieces).length = pieces.length := by
  induction pieces generalizing offset with
  | nil => rfl
  | cons _ _ ih => rw [fragmentsFrom, length_cons, ih, length_cons]

theorem map_data_fragmentsFrom : (fragmentsFrom offset pieces).map Fragment.data = pieces := by
  induction pieces generalizing offset with
  | nil => rfl
  | cons _ _ ih => rw [fragmentsFrom, map_cons, ih]

theorem tile_fragmentsFrom :
    Fragment.Tile offset (fragmentsFrom offset pieces) (offset + pieces.flatten.length) := by
  induction pieces generalizing offset with
  | nil => exact .nil _
  | cons _ _ ih =>
    rw [flatten_cons, length_append, ← add_assoc]
    exact .cons rfl (ih _)

/-- The last fragment is the one that no more follow. -/
theorem stop_of_last {offset : ℕ} {f : Fragment} (hf : f ∈ fragmentsFrom offset pieces)
    (hlast : f.more = false) : f.stop = offset + pieces.flatten.length := by
  induction pieces generalizing offset with
  | nil => cases hf
  | cons _ pieces ih =>
    rw [flatten_cons, length_append, ← add_assoc]
    rcases mem_cons.1 hf with rfl | hf
    · cases pieces with
      | nil => rfl
      | cons => cases hlast
    · exact ih hf

theorem exists_last (h : pieces ≠ []) : ∃ f ∈ fragmentsFrom offset pieces, f.more = false := by
  induction pieces generalizing offset with
  | nil => exact absurd rfl h
  | cons piece pieces ih =>
    cases pieces with
    | nil => exact ⟨_, mem_cons_self, rfl⟩
    | cons =>
      obtain ⟨f, hf, hlast⟩ := ih (offset + piece.length) (cons_ne_nil _ _)
      exact ⟨f, mem_cons_of_mem _ hf, hlast⟩

theorem aligned_of_mem {offset : ℕ} (hoffset : offset % 8 = 0)
    (h : ∀ piece ∈ pieces.dropLast, piece.length % 8 = 0) {f : Fragment}
    (hf : f ∈ fragmentsFrom offset pieces) :
    f.offset % 8 = 0 ∧ (f.more → f.data.length % 8 = 0) := by
  induction pieces generalizing offset with
  | nil => cases hf
  | cons _ pieces ih =>
    cases pieces with
    | nil =>
      obtain rfl := mem_singleton.1 hf
      exact ⟨hoffset, nofun⟩
    | cons =>
      rw [dropLast_cons_cons] at h
      obtain ⟨hpiece, hrest⟩ := forall_mem_cons.1 h
      rcases mem_cons.1 hf with rfl | hf
      · exact ⟨hoffset, fun _ => hpiece⟩
      · exact ih (by omega) hrest hf

variable {done remaining : List Fragment} {fragment : Fragment} {entry : ReassemblyEntry}
  {limit budget nowMs expiresMs : ℕ} {ecn : UInt8}

open ReassemblyEntry

theorem apart_comm {f g : Fragment} (h : f.Apart g) : g.Apart f := h.symm

/-- While the fragments of a datagram come, each one is in order. -/
theorem ready_of_datagram (hcut : IsCutting pieces) (hlimit : pieces.flatten.length ≤ limit)
    (hmax : limit ≤ 0xffffffff) (hperm : (done ++ fragment :: remaining).Perm (fragmentsFrom 0 pieces))
    (h : entry.Holds done) (hkept : entry.discarded = false) : entry.Ready fragment limit := by
  have hmem : fragment ∈ fragmentsFrom 0 pieces := hperm.subset (by simp)
  have hsub : ∀ f ∈ done, f ∈ fragmentsFrom 0 pieces := fun f hf =>
    hperm.subset (mem_append_left _ hf)
  have hdata : fragment.data ∈ pieces := by
    rw [← @map_data_fragmentsFrom pieces 0]
    exact mem_map_of_mem hmem
  have hstop := ((@tile_fragmentsFrom pieces 0).mem hmem).2
  rw [zero_add] at hstop
  have htotal : entry.lastReceived = true → entry.totalPayloadLength = pieces.flatten.length := by
    intro hlast
    obtain ⟨f, hf, hmore⟩ := h.last.1 hlast
    rw [← h.total f hf hmore, stop_of_last (hsub f hf) hmore, zero_add]
  have hlen := hperm.length_eq
  rw [length_fragmentsFrom, length_append, length_cons] at hlen
  have hfew := hcut.few
  obtain ⟨haligned, halignedLength⟩ := aligned_of_mem (Nat.zero_mod 8) hcut.aligned hmem
  refine ⟨hcut.pos _ hdata, ?_, haligned, halignedLength, by omega, fun _ => by omega, ?_, ?_, ?_,
    hkept⟩
  · rw [h.pieces, length_map]
    omega
  · intro hlast
    rw [htotal hlast]
    exact hstop
  · intro hmore hlast
    rw [htotal hlast, stop_of_last hmem hmore, zero_add]
  · -- the fragments of a datagram do not overlap
    have hapart : (done ++ fragment :: remaining).Pairwise Fragment.Apart :=
      (hperm.pairwise_iff apart_comm).2 ((tile_fragmentsFrom 0).pairwise.imp .inl)
    have hacross := (pairwise_append.1 hapart).2.2
    rw [hasOverlap, h.pieces, any_map, any_eq_false]
    intro f hf
    have hf' := hacross f hf fragment mem_cons_self
    rw [Fragment.Apart, Fragment.stop, Fragment.stop] at hf'
    rw [Function.comp_apply, Bool.and_eq_true, decide_eq_true_iff, decide_eq_true_iff,
      Fragment.piece, FragmentPiece.stop]
    dsimp only
    omega

/-- An entry with all fragments of a datagram is complete, and has its payload. -/
theorem isComplete_of_datagram (hcut : IsCutting pieces) (hperm : done.Perm (fragmentsFrom 0 pieces))
    (h : entry.Holds done) :
    entry.isComplete ∧ entry.dataBuffer.take entry.totalPayloadLength = pieces.flatten := by
  have htile := @tile_fragmentsFrom pieces 0
  rw [zero_add] at htile
  have hdata : ∀ f ∈ fragmentsFrom 0 pieces, 0 < f.data.length := by
    intro f hf
    refine length_pos_iff.2 (hcut.pos _ ?_)
    rw [← @map_data_fragmentsFrom pieces 0]
    exact mem_map_of_mem hf
  obtain ⟨last, hlast, hmore⟩ := exists_last 0 hcut.nonempty
  have hreceived : entry.lastReceived := h.last.2 ⟨last, hperm.mem_iff.2 hlast, hmore⟩
  have htotal : entry.totalPayloadLength = pieces.flatten.length := by
    rw [← h.total last (hperm.mem_iff.2 hlast) hmore, stop_of_last hlast hmore, zero_add]
  -- the sort puts them in the order of the datagram
  have hsorted : sortByKey Fragment.offset done = fragmentsFrom 0 pieces := by
    refine sortByKey_eq hperm (htile.pairwise.imp_of_mem fun hf _ hle => ?_)
    have := hdata _ hf
    rw [Fragment.stop] at hle
    omega
  have hsort : sortPieces entry.pieces = (fragmentsFrom 0 pieces).map Fragment.piece := by
    rw [sortPieces, h.pieces, ← hsorted]
    exact map_sortByKey (fun _ => rfl) done
  have hcomplete : entry.isComplete := by
    rw [isComplete, Bool.and_eq_true, hsort, htotal]
    refine ⟨hreceived, ?_⟩
    cases pieces with
    | nil => exact absurd rfl hcut.nonempty
    | cons =>
      cases htile with
      | cons _ htail =>
        rw [fragmentsFrom, map_cons]
        rw [Bool.and_eq_true, beq_iff_eq, beq_iff_eq, contiguousEnd_eq_some_iff, tiles_map_piece]
        exact ⟨rfl, htail⟩
  refine ⟨hcomplete, ?_⟩
  have hslices : ∀ f ∈ fragmentsFrom 0 pieces,
      slice entry.dataBuffer f.offset f.data.length = f.data := fun f hf =>
    (h.stored f (hperm.mem_iff.2 hf)).2
  have hflat := htile.flatMap_data hslices
  rw [flatMap_def, map_data_fragmentsFrom, Nat.sub_zero] at hflat
  rw [htotal]
  exact hflat.symm

/-- As long as a fragment of the datagram is missing, the entry is not complete. -/
theorem not_isComplete_of_datagram (hcut : IsCutting pieces)
    (hperm : (done ++ fragment :: remaining).Perm (fragmentsFrom 0 pieces)) (h : entry.Holds done) :
    entry.isComplete = false := by
  by_contra hcomplete
  obtain ⟨tiles, htiles, htile, -, f, hf, hmore, hstop⟩ := h.tiles (Bool.not_eq_false _ ▸ hcomplete)
  have hmem : f ∈ fragmentsFrom 0 pieces := hperm.subset (mem_append_left _ (htiles.mem_iff.1 hf))
  have hdata : fragment.data ≠ [] := by
    refine hcut.pos _ ?_
    rw [← @map_data_fragmentsFrom pieces 0]
    exact mem_map_of_mem (hperm.subset (by simp))
  -- the lengths of those that came would have to add up to the whole length
  have hsum : (done.map fun f => f.data.length).sum = pieces.flatten.length := by
    have := htile.eq_add_sum
    rw [(htiles.map _).sum_eq, ← hstop, stop_of_last hmem hmore] at this
    omega
  have hall : ((done ++ fragment :: remaining).map fun f => f.data.length).sum =
      pieces.flatten.length := by
    have := (@tile_fragmentsFrom pieces 0).eq_add_sum
    rw [(hperm.map _).sum_eq]
    omega
  rw [map_append, sum_append, map_cons, sum_cons, hsum] at hall
  have := length_pos_iff.2 hdata
  omega

/-- A fragment of the datagram is accepted if there is room for it, and with the last one
    the datagram is handed out. -/
theorem addFragment_datagram (hcut : IsCutting pieces) (hlimit : pieces.flatten.length ≤ limit)
    (hmax : limit ≤ 0xffffffff)
    (hperm : (done ++ fragment :: remaining).Perm (fragmentsFrom 0 pieces)) (h : entry.Holds done)
    (hkept : entry.discarded = false) {entry' : ReassemblyEntry} {result : FragmentAddResult}
    (heq : entry.addFragment fragment.offset fragment.data fragment.more nowMs expiresMs limit budget
      ecn = (entry', result)) (hroom : result.error ≠ some .byteBudgetExceeded) :
    result.error = none ∧
      (remaining = [] → result.complete ∧ result.payload = pieces.flatten) ∧
      (remaining ≠ [] → result.complete = false ∧
        entry' = entry.store fragment.offset fragment.data fragment.more nowMs expiresMs ecn ∧
        entry'.Holds (done ++ [fragment])) := by
  have hready := ready_of_datagram hcut hlimit hmax hperm h hkept
  have hstore : (entry.store fragment.offset fragment.data fragment.more nowMs expiresMs ecn).Holds
    (done ++ [fragment]) := h.store hready.apart hready.terminal
  rw [addFragment_of_ready hready] at heq
  split at heq
  case isTrue =>
    obtain ⟨rfl, rfl⟩ := Prod.mk.inj heq
    exact absurd rfl hroom
  case isFalse =>
    rw [append_cons] at hperm
    cases remaining with
    | nil =>
      rw [append_nil] at hperm
      obtain ⟨hcomplete, hpayload⟩ := isComplete_of_datagram hcut hperm hstore
      rw [finish, if_pos hcomplete] at heq
      obtain ⟨rfl, rfl⟩ := Prod.mk.inj heq
      exact ⟨rfl, fun _ => ⟨rfl, hpayload⟩, fun hne => absurd rfl hne⟩
    | cons =>
      have hincomplete := not_isComplete_of_datagram hcut hperm hstore
      rw [finish, if_neg (Bool.eq_false_iff.1 hincomplete)] at heq
      obtain ⟨rfl, rfl⟩ := Prod.mk.inj heq
      exact ⟨rfl, nofun, fun _ => ⟨rfl, rfl, hstore⟩⟩

end Datagram

end Netstack2
