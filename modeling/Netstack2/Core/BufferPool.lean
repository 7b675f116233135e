import Netstack2.Lib.Links
import Netstack2.Lib.Tiling

/-!
# The buffer pool

Packets are in the buffers of a pool with a fixed number of slots. A free slot is on a
stack that is linked through an array of indices. A buffer is handed out as a *lease*, which
has one owner, or is retained by *references*, which are counted. When the lease is released,
or the last of the references, the slot is pushed on the stack again. In another thread than
that of the owner, it is put into the return queue instead, which the owner drains.

* `PktBufferPool` has what the pool keeps of its slots; the bytes of the buffers, and how
  many of them are in use, are left out.
* The calls are made one after another, so that the exchange of the head of the stack
  succeeds. The thread of a release is `owner`, true if it is that of the owner.
* `Buffers` is a pool with the leases and references that have been obtained from it. A
  lease or a reference that was moved from, or released, is empty.
* A violation of ownership, for which the source aborts, is `none`. That a buffer is of
  another pool, or not that of its slot, cannot occur here.

In every run, the free list, the return queue and the counters agree with the states of the
slots and with the leases and references, and no violation is found (`buffers_owned`), as
long as there are fewer than 2^32 references to a slot at a time: the count has 32 bits,
and comes around (`references_uncounted`).
-/

namespace Netstack2

open List

inductive SlotState
  | free
  | leased
  | retained
  | queued
  deriving DecidableEq

structure PktBufferPool where
  slotCount : ℕ
  states : List SlotState
  refCounts : List UInt32
  freeNext : List UInt32
  /-- The index of the first free slot, below a tag. -/
  freeHead : UInt64 := 0
  freeCount : ℕ
  returnQueue : List ℕ := []
  outstanding : ℕ := 0
  retained : ℕ := 0
  deriving DecidableEq

namespace PktBufferPool

variable (p : PktBufferPool)

/-- A pool with slots, for which there is memory. -/
def new (slotCount : ℕ) : PktBufferPool where
  slotCount := slotCount
  states := List.replicate slotCount .free
  refCounts := List.replicate slotCount 0
  freeNext := (List.range slotCount).map (fun i => UInt32.ofNat (i + 1)) ++ [UInt32.ofNat slotCount]
  freeCount := slotCount

/-- The next tag, and an index. -/
def tagged (head idx : UInt64) : UInt64 := ((head >>> 32) + 1) <<< 32 ||| idx

/-- Take a slot off the stack; the index is `slotCount` if there is none. -/
def popFree : PktBufferPool × ℕ :=
  let idx := p.freeHead.toUInt32.toNat
  if idx ≥ p.slotCount then (p, p.slotCount)
  else
    ({ p with
      freeHead := tagged p.freeHead (p.freeNext.getD idx 0).toUInt64
      freeCount := p.freeCount - 1 }, idx)

def pushFree (idx : ℕ) : PktBufferPool :=
  { p with
    freeNext := p.freeNext.set idx p.freeHead.toUInt32
    freeHead := tagged p.freeHead (UInt64.ofNat idx)
    freeCount := p.freeCount + 1 }

/-- The slot is free, and goes on the stack. -/
def release (idx : ℕ) : PktBufferPool :=
  { p with states := p.states.set idx .free, outstanding := p.outstanding - 1 }.pushFree idx

/-- Drain the return queue, of which `queue` is left. -/
def drainFrom : List ℕ → PktBufferPool → Option PktBufferPool
  | [], p => some p
  | idx :: queue, p =>
    if p.states[idx]? ≠ some .queued then none
    else drainFrom queue ({ p with returnQueue := queue }.release idx)

def drainLocked : Option PktBufferPool := drainFrom p.returnQueue p

/-- Hand out a slot that was taken off the stack. -/
def lease (idx : ℕ) : Option (PktBufferPool × Option ℕ) :=
  if p.states[idx]? ≠ some .free then none
  else some ({ p with
    states := p.states.set idx .leased
    outstanding := p.outstanding + 1 }, some idx)

/-- Hand out a buffer; the result is empty if there is none. -/
def allocate : Option (PktBufferPool × Option ℕ) :=
  let (p, idx) := p.popFree
  if idx = p.slotCount then
    -- what other threads have returned is recycled before giving up
    p.drainLocked.bind fun p =>
      let (p, idx) := p.popFree
      if idx = p.slotCount then some (p, none) else p.lease idx
  else p.lease idx

/-- A buffer comes back: to the stack, or in another thread to the return queue. -/
def recycle (owner : Bool) (idx : ℕ) : PktBufferPool :=
  if owner then p.release idx
  else { p with states := p.states.set idx .queued, returnQueue := p.returnQueue ++ [idx] }

@[simp] theorem recycle_retained (owner : Bool) (idx : ℕ) : (p.recycle owner idx).retained =
    p.retained := by
  cases owner <;> rfl

@[simp] theorem recycle_refCounts (owner : Bool) (idx : ℕ) : (p.recycle owner idx).refCounts =
    p.refCounts := by
  cases owner <;> rfl

def returnBuffer (owner : Bool) (idx : ℕ) : Option PktBufferPool :=
  if p.states[idx]? ≠ some .leased then none else some (p.recycle owner idx)

def releaseRetained (owner : Bool) (idx : ℕ) : Option PktBufferPool :=
  if p.states[idx]? ≠ some .retained then none
  else
    -- no longer retained, also while it waits in the return queue
    some ({ p with retained := p.retained - 1 }.recycle owner idx)

def retain (idx : ℕ) : Option PktBufferPool :=
  if p.states[idx]? ≠ some .leased then none
  else some { p with
    states := p.states.set idx .retained
    retained := p.retained + 1
    refCounts := p.refCounts.set idx 1 }

def refCount (idx : ℕ) : UInt32 := p.refCounts.getD idx 0

def setRefCount (idx : ℕ) (count : UInt32) : PktBufferPool :=
  { p with refCounts := p.refCounts.set idx count }

end PktBufferPool

/-- A pool, and the leases and references, each with its slot, or empty. -/
structure Buffers where
  pool : PktBufferPool
  leases : List (Option ℕ) := []
  refs : List (Option ℕ) := []
  deriving DecidableEq

inductive BufferOp
  | allocate
  /-- A new lease takes over from the lease `i`. -/
  | moveLease (i : ℕ)
  /-- The lease `i` is released, and takes over from the lease `j`. -/
  | assignLease (i j : ℕ) (owner : Bool)
  | releaseLease (i : ℕ) (owner : Bool)
  | retain (i : ℕ)
  | copyRef (j : ℕ)
  | moveRef (j : ℕ)
  | assignRef (i j : ℕ) (owner : Bool)
  | assignRefMove (i j : ℕ) (owner : Bool)
  | releaseRef (i : ℕ) (owner : Bool)
  | drainReturnQueue

namespace Buffers

def new (slotCount : ℕ) : Buffers := { pool := .new slotCount }

def allocate (s : Buffers) : Option Buffers :=
  s.pool.allocate.map fun (pool, lease) => { s with pool := pool, leases := s.leases ++ [lease] }

def releaseLease (s : Buffers) (i : ℕ) (owner : Bool) : Option Buffers :=
  match s.leases.getD i none with
  | none => some s
  | some idx => (s.pool.returnBuffer owner idx).map fun pool =>
    { s with pool := pool, leases := s.leases.set i none }

/-- What the handle `j` has moves to a new one. -/
def moveTo (handles : List (Option ℕ)) (j : ℕ) : List (Option ℕ) :=
  handles.set j none ++ [handles.getD j none]

/-- What the handle `j` has moves to the handle `i`. -/
def moveInto (handles : List (Option ℕ)) (i j : ℕ) : List (Option ℕ) :=
  (handles.set i (handles.getD j none)).set j none

def retain (s : Buffers) (i : ℕ) : Option Buffers :=
  match s.leases.getD i none with
  | none => some { s with refs := s.refs ++ [none] }
  | some idx => (s.pool.retain idx).map fun pool =>
    { pool := pool, leases := s.leases.set i none, refs := s.refs ++ [some idx] }

/-- The pool after one more reference. -/
def addRef (s : Buffers) (ref : Option ℕ) : PktBufferPool :=
  match ref with
  | none => s.pool
  | some idx => s.pool.setRefCount idx (s.pool.refCount idx + 1)

def releaseRef (s : Buffers) (i : ℕ) (owner : Bool) : Option Buffers :=
  match s.refs.getD i none with
  | none => some s
  | some idx =>
    let count := s.pool.refCount idx - 1
    let pool := s.pool.setRefCount idx count
    let refs := s.refs.set i none
    -- the handle is empty, and the count has changed, before the pool is called
    if count = 0 then
      (pool.releaseRetained owner idx).map fun pool => { s with pool := pool, refs := refs }
    else some { s with pool := pool, refs := refs }

/-- An operation; one on a handle that does not exist does nothing. -/
def step (s : Buffers) : BufferOp → Option Buffers
  | .allocate => s.allocate
  | .moveLease i => some { s with leases := moveTo s.leases i }
  | .assignLease i j owner =>
    if i = j ∨ s.leases.length ≤ i then some s
    else (s.releaseLease i owner).map fun s => { s with leases := moveInto s.leases i j }
  | .releaseLease i owner => s.releaseLease i owner
  | .retain i => s.retain i
  | .copyRef j =>
    let ref := s.refs.getD j none
    some { s with pool := s.addRef ref, refs := s.refs ++ [ref] }
  | .moveRef j => some { s with refs := moveTo s.refs j }
  | .assignRef i j owner =>
    if i = j ∨ s.refs.length ≤ i then some s
    else (s.releaseRef i owner).map fun s =>
      -- counted only after the release, which leaves `j` as it is
      let ref := s.refs.getD j none
      { s with pool := s.addRef ref, refs := s.refs.set i ref }
  | .assignRefMove i j owner =>
    if i = j ∨ s.refs.length ≤ i then some s
    else (s.releaseRef i owner).map fun s => { s with refs := moveInto s.refs i j }
  | .releaseRef i owner => s.releaseRef i owner
  | .drainReturnQueue => s.pool.drainLocked.map fun pool => { s with pool := pool }

end Buffers

/-! ## The accounts of the pool -/

namespace PktBufferPool

variable {p : PktBufferPool} {free : List ℕ} {i : ℕ} {a : SlotState}

/-- The first free slot, or the end of the list. -/
def head (p : PktBufferPool) : ℕ := p.freeHead.toUInt32.toNat

/-- The free slot after one. -/
def next (p : PktBufferPool) (i : ℕ) : ℕ := (p.freeNext.getD i 0).toNat

/-- The tag is above the index. -/
theorem toUInt32_tagged (head idx : UInt64) : (tagged head idx).toUInt32 = idx.toUInt32 := by
  rw [tagged]
  generalize (head >>> 32) + 1 = tag
  refine UInt32.toBitVec_inj.1 ?_
  ext i hi
  simp

/-- The stack goes through the free slots. -/
structure FreeList (p : PktBufferPool) (free : List ℕ) : Prop where
  small : p.slotCount < 2 ^ 32
  states : p.states.length = p.slotCount
  links : p.slotCount < p.freeNext.length
  linked : Linked p.next p.slotCount p.head free
  names : Names p.states .free free
  count : p.freeCount = free.length

/-- The slot `i` is taken off the stack, and handed out. -/
def taken (p : PktBufferPool) (i : ℕ) : PktBufferPool :=
  { p with
    states := p.states.set i .leased
    freeHead := tagged p.freeHead (p.freeNext.getD i 0).toUInt64
    freeCount := p.freeCount - 1
    outstanding := p.outstanding + 1 }

namespace FreeList

theorem lt (h : FreeList p free) (hi : p.states[i]? = some a) : i < p.slotCount := by
  obtain ⟨hlt, -⟩ := List.getElem?_eq_some_iff.1 hi
  rwa [h.states] at hlt

theorem new {slotCount : ℕ} (hsmall : slotCount < 2 ^ 32) :
    FreeList (.new slotCount) (List.range slotCount) where
  small := hsmall
  states := length_replicate
  links := by simp [PktBufferPool.new]
  linked := by
    have hlinked : Linked (PktBufferPool.new slotCount).next (0 + slotCount) 0
        (range' 0 slotCount) := by
      refine linked_range' fun j _ hj => ?_
      have hj : j < slotCount := by omega
      simp [next, PktBufferPool.new, getElem?_append, hj]
      omega
    rwa [zero_add, ← range_eq_range'] at hlinked
  names := by
    refine ⟨nodup_range, fun i => ?_⟩
    simp [PktBufferPool.new, getElem?_replicate]
  count := length_range.symm

theorem popFree_nil (h : FreeList p []) : p.popFree = (p, p.slotCount) := by
  have hhead : p.head = p.slotCount := h.linked.eq_stop
  rw [head] at hhead
  simp [popFree, hhead]

theorem popFree_cons (h : FreeList p (i :: free)) :
    ∃ p₁, p.popFree = (p₁, i) ∧ i ≠ p₁.slotCount ∧ p₁.lease i = some (p.taken i, some i) := by
  obtain ⟨hhead, -⟩ := h.linked.uncons
  have hfree : p.states[i]? = some .free := (h.names.mem i).1 mem_cons_self
  have hlt : i < p.slotCount := h.lt hfree
  rw [head] at hhead
  refine ⟨{ p with
    freeHead := tagged p.freeHead (p.freeNext.getD i 0).toUInt64
    freeCount := p.freeCount - 1 }, ?_, ne_of_lt hlt, ?_⟩
  · simp only [popFree, hhead]
    exact if_neg (Nat.not_le_of_lt hlt)
  · simp [lease, PktBufferPool.taken, hfree]

theorem allocate_cons (h : FreeList p (i :: free)) : p.allocate = some (p.taken i, some i) := by
  obtain ⟨_, hpop, hne, hlease⟩ := h.popFree_cons
  rw [allocate, hpop]
  dsimp only
  rw [if_neg hne, hlease]

/-- Without a free slot, a slot is taken from those that were returned. -/
theorem allocate_nil (h : FreeList p []) : p.allocate = p.drainLocked.bind fun p =>
    let (p, idx) := p.popFree
    if idx = p.slotCount then some (p, none) else p.lease idx := by
  rw [allocate, h.popFree_nil]
  exact if_pos rfl

theorem taken (h : FreeList p (i :: free)) : FreeList (p.taken i) free where
  small := h.small
  states := by rw [PktBufferPool.taken, length_set, h.states]
  links := h.links
  linked := by
    obtain ⟨-⟩ := h.linked.uncons
    rwa [head, PktBufferPool.taken, toUInt32_tagged, UInt32.toUInt32_toUInt64]
  names := h.names.remove (by decide)
  count := by rw [PktBufferPool.taken, h.count, length_cons, Nat.add_sub_cancel]

/-- A slot that was not free goes on the stack. -/
theorem release (h : FreeList p free) (hi : p.states[i]? = some a) (ha : a ≠ .free) :
    FreeList (p.release i) (i :: free) where
  small := h.small
  states := by simp [PktBufferPool.release, pushFree, h.states]
  links := by simpa [PktBufferPool.release, pushFree] using h.links
  linked := by
    have hlt : i < p.slotCount := h.lt hi
    have hsmall := h.small
    have hhead : (p.release i).head = i := by
      rw [head, PktBufferPool.release, pushFree, toUInt32_tagged, UInt64.toUInt32_ofNat',
        UInt32.toNat_ofNat_of_lt' (Nat.lt_trans hlt hsmall)]
    rw [hhead]
    refine h.linked.push ?_ ?_ fun j hj => ?_
    · -- the list names the free slots, and this one was not free
      rw [h.names.mem, hi, Option.some_inj]
      exact ha
    · have hlen : i < p.freeNext.length := Nat.lt_trans hlt h.links
      simp [next, PktBufferPool.release, pushFree, head, hlen]
    · simp [next, PktBufferPool.release, pushFree, getElem?_set_ne (Ne.symm hj)]
  names := h.names.add hi ha
  count := by rw [PktBufferPool.release, pushFree, h.count, length_cons]

end FreeList

/-- The stack, the return queue and the number of slots that are not free. -/
structure Accounts (p : PktBufferPool) (free : List ℕ) : Prop extends FreeList p free where
  queued : Names p.states .queued p.returnQueue
  outstanding : p.outstanding = p.states.countP (· ≠ .free)

namespace Accounts

theorem new {slotCount : ℕ} (hsmall : slotCount < 2 ^ 32) :
    Accounts (.new slotCount) (List.range slotCount) where
  toFreeList := .new hsmall
  queued := ⟨nodup_nil, fun i => by simp [PktBufferPool.new, getElem?_replicate]⟩
  outstanding := by simp [PktBufferPool.new, countP_replicate]

theorem taken (h : Accounts p (i :: free)) : Accounts (p.taken i) free where
  toFreeList := h.toFreeList.taken
  queued := h.queued.set ((h.names.mem i).1 mem_cons_self) (by decide) (by decide)
  outstanding := by
    have hcount := countP_set_add ((h.names.mem i).1 mem_cons_self) .leased (· ≠ .free)
    show p.outstanding + 1 = (p.states.set i .leased).countP (· ≠ .free)
    rw [h.outstanding]
    simpa using hcount.symm

theorem release (h : Accounts p free) {queue : List ℕ} (hi : p.states[i]? = some a)
    (ha : a ≠ .free) (hqueue : Names (p.states.set i .free) .queued queue) :
    Accounts ({ p with returnQueue := queue }.release i) (i :: free) where
  toFreeList := FreeList.release { h.toFreeList with } hi ha
  queued := hqueue
  outstanding := by
    have hcount : (p.states.set i .free).countP (· ≠ .free) + 1 = p.states.countP (· ≠ .free) := by
      simpa [ha] using countP_set_add hi .free (· ≠ .free)
    show p.outstanding - 1 = (p.states.set i .free).countP (· ≠ .free)
    rw [h.outstanding, ← hcount, Nat.add_sub_cancel]

/-- A buffer that was leased or retained comes back. -/
theorem recycle (h : Accounts p free) (owner : Bool) (hi : p.states[i]? = some a)
    (ha : a ≠ .free) (ha' : a ≠ .queued) :
    ∃ free' b, Accounts (p.recycle owner i) free' ∧
      (p.recycle owner i).states = p.states.set i b ∧ b ≠ .leased ∧ b ≠ .retained := by
  cases owner with
  | true =>
    refine ⟨i :: free, .free, ?_, rfl, by decide, by decide⟩
    exact h.release hi ha (h.queued.set hi ha' (by decide))
  | false =>
    refine ⟨free, .queued, ?_, rfl, by decide, by decide⟩
    exact {
      small := h.small
      states := by simp [PktBufferPool.recycle, h.states]
      links := h.links
      linked := h.linked
      names := h.names.set hi ha (by decide)
      count := h.count
      queued := (h.queued.add hi ha').perm (perm_append_singleton i p.returnQueue).symm
      outstanding := by
        show p.outstanding = (p.states.set i .queued).countP (· ≠ .free)
        rw [h.outstanding]
        simpa [ha] using (countP_set_add hi .queued (· ≠ .free)).symm }

/-- A leased buffer is retained. -/
theorem retain (h : Accounts p free) (hi : p.states[i]? = some .leased) :
    Accounts { p with
      states := p.states.set i .retained
      retained := p.retained + 1
      refCounts := p.refCounts.set i 1 } free where
  small := h.small
  states := by rw [length_set, h.states]
  links := h.links
  linked := h.linked
  names := h.names.set hi (by decide) (by decide)
  count := h.count
  queued := h.queued.set hi (by decide) (by decide)
  outstanding := by
    rw [h.outstanding]
    simpa using (countP_set_add hi .retained (· ≠ .free)).symm

end Accounts

end PktBufferPool

/-! ## References -/

/-- The retained slots are those that the references `refs` are to, and the counts are right. -/
structure Refers (states : List SlotState) (counts : List UInt32) (refs : List (Option ℕ)) :
    Prop where
  length : counts.length = states.length
  held : ∀ i, some i ∈ refs ↔ states[i]? = some .retained
  counted : ∀ i, some i ∈ refs → (counts.getD i 0).toNat = refs.count (some i)

namespace Refers

variable {states : List SlotState} {counts : List UInt32} {refs refs' : List (Option ℕ)} {i : ℕ}
  {a b : SlotState}

section

variable (h : Refers states counts refs)

include h

/-- Only the number of the references to each slot matters. -/
theorem congr (hcount : ∀ i, refs'.count (some i) = refs.count (some i)) :
    Refers states counts refs' := by
  have hmem : ∀ i, some i ∈ refs' ↔ some i ∈ refs := fun i => by
    rw [← count_pos_iff, hcount, count_pos_iff]
  refine ⟨h.length, fun i => (hmem i).trans (h.held i), fun i hi => ?_⟩
  rw [hcount]
  exact h.counted i ((hmem i).1 hi)

theorem lt (hi : states[i]? = some a) : i < counts.length := by
  obtain ⟨hlt, -⟩ := List.getElem?_eq_some_iff.1 hi
  rwa [h.length]

/-- Another state of a slot that was not retained, and is not. -/
theorem set (hi : states[i]? = some a) (ha : a ≠ .retained) (hb : b ≠ .retained) :
    Refers (states.set i b) counts refs := by
  refine ⟨by rw [length_set, h.length], fun j => ?_, h.counted⟩
  rw [h.held, getElem?_set_eq_some hi]
  split
  case isTrue hj =>
    subst hj
    simp [hi, ha, hb]
  case isFalse => rfl

/-- Only the references to the slot `i` change, and it gets a state and a count for them. -/
theorem update {count : UInt32} (hi : states[i]? = some a)
    (hother : ∀ j ≠ i, refs'.count (some j) = refs.count (some j))
    (hheld : some i ∈ refs' ↔ b = .retained)
    (hcount : some i ∈ refs' → count.toNat = refs'.count (some i)) :
    Refers (states.set i b) (counts.set i count) refs' := by
  have hmem : ∀ j ≠ i, (some j ∈ refs' ↔ some j ∈ refs) := fun j hj => by
    rw [← count_pos_iff, hother j hj, count_pos_iff]
  refine ⟨by simp [h.length], fun j => ?_, fun j hj => ?_⟩
  · rw [getElem?_set_eq_some hi]
    split
    case isTrue hj => rwa [hj]
    case isFalse hj => rw [hmem j hj, h.held]
  · rcases eq_or_ne j i with rfl | hne
    · rw [getD_eq_getElem?_getD, getElem?_set_self (h.lt hi)]
      exact hcount hj
    · rw [getD_eq_getElem?_getD, getElem?_set_ne (Ne.symm hne),
        ← getD_eq_getElem?_getD, hother j hne]
      exact h.counted j ((hmem j hne).1 hj)

end

theorem count_cons_of_ne (refs : List (Option ℕ)) {i j : ℕ} (hj : j ≠ i) :
    (some i :: refs).count (some j) = refs.count (some j) :=
  List.count_cons_of_ne fun heq => hj (Option.some.inj heq).symm

/-- The first reference. -/
theorem retain (h : Refers states counts refs) (hi : states[i]? = some a) (ha : a ≠ .retained) :
    Refers (states.set i .retained) (counts.set i 1) (some i :: refs) := by
  have hnot : some i ∉ refs := by
    rw [h.held, hi, Option.some_inj]
    exact ha
  refine h.update hi (fun j hj => count_cons_of_ne refs hj) (by simp) fun _ => ?_
  rw [count_cons_self, count_eq_zero.2 hnot]
  rfl

/-- One more reference, if it can be counted. -/
theorem add (h : Refers states counts refs) (hi : some i ∈ refs)
    (hfit : refs.count (some i) + 1 < 2 ^ 32) :
    Refers states (counts.set i (counts.getD i 0 + 1)) (some i :: refs) := by
  have hstate : states[i]? = some .retained := (h.held i).1 hi
  rw [← h.counted i hi] at hfit
  rw [← set_of_getElem? hstate]
  refine h.update hstate (fun j hj => count_cons_of_ne refs hj) (by simp) fun _ => ?_
  rw [count_cons_self, ← h.counted i hi, UInt32.toNat_add]
  exact Nat.mod_eq_of_lt hfit

section

variable (h : Refers states counts (some i :: refs))

include h

/-- The count without one of the references. -/
theorem toNat_sub_one : (counts.getD i 0 - 1).toNat = refs.count (some i) := by
  have hcount := h.counted i mem_cons_self
  rw [count_cons_self] at hcount
  have hle : (1 : UInt32) ≤ counts.getD i 0 := by
    rw [UInt32.le_iff_toNat_le, hcount]
    exact Nat.le_add_left ..
  rw [UInt32.toNat_sub_of_le _ _ hle, hcount]
  exact Nat.add_sub_cancel ..

/-- A reference goes, and others remain. -/
theorem drop (hi : some i ∈ refs) : Refers states (counts.set i (counts.getD i 0 - 1)) refs := by
  have hstate : states[i]? = some .retained := (h.held i).1 mem_cons_self
  rw [← set_of_getElem? hstate]
  refine h.update hstate (fun j hj => (count_cons_of_ne refs hj).symm) (by simpa) fun _ => ?_
  exact h.toNat_sub_one

/-- The last reference goes. -/
theorem dropLast (count : UInt32) (hi : some i ∉ refs) (hb : b ≠ .retained) :
    Refers (states.set i b) (counts.set i count) refs := by
  have hstate : states[i]? = some .retained := (h.held i).1 mem_cons_self
  refine h.update hstate (fun j hj => (count_cons_of_ne refs hj).symm) ?_ fun hmem => ?_
  · exact iff_of_false hi hb
  · exact absurd hmem hi

end

end Refers

/-! ## The pool and the handles -/

namespace Buffers

variable {s : Buffers} {free : List ℕ} {handles : List (Option ℕ)} {i j idx : ℕ}

/-- The accounts of the pool are right, and so are those of the leases and references. -/
structure Owned (s : Buffers) (free : List ℕ) : Prop where
  accounts : s.pool.Accounts free
  retained : s.pool.retained = s.pool.states.countP (· = .retained)
  leases : Names s.pool.states .leased s.leases.reduceOption
  refs : Refers s.pool.states s.pool.refCounts s.refs

theorem countP_retained {states : List SlotState} {a b : SlotState} (hi : states[i]? = some a)
    (ha : a ≠ .retained) (hb : b ≠ .retained) :
    (states.set i b).countP (· = .retained) = states.countP (· = .retained) := by
  simpa [ha, hb] using countP_set_add hi b (· = .retained)

namespace Owned

theorem new {slotCount : ℕ} (hsmall : slotCount < 2 ^ 32) :
    Owned (.new slotCount) (List.range slotCount) where
  accounts := .new hsmall
  retained := by simp [Buffers.new, PktBufferPool.new, countP_replicate]
  leases := ⟨nodup_nil, fun i => by simp [Buffers.new, PktBufferPool.new, getElem?_replicate]⟩
  refs := by
    refine ⟨by simp [Buffers.new, PktBufferPool.new], fun i => ?_, fun i hi => ?_⟩
    · simp [Buffers.new, PktBufferPool.new, getElem?_replicate]
    · simp [Buffers.new] at hi

/-- A free slot is handed out. -/
theorem taken (h : Owned s (i :: free)) :
    Owned { s with pool := s.pool.taken i, leases := s.leases ++ [some i] } free := by
  have hi : s.pool.states[i]? = some .free := (h.accounts.names.mem i).1 mem_cons_self
  exact {
    accounts := h.accounts.taken
    retained := h.retained.trans (countP_retained hi (by decide) (by decide)).symm
    leases := by
      refine (h.leases.add hi (by decide)).perm ?_
      rw [reduceOption_append]
      exact (perm_append_singleton i _).symm
    refs := h.refs.set hi (by decide) (by decide) }

/-- The return queue is drained, one slot after another. -/
theorem drainFrom {queue : List ℕ} (h : Owned s free) (hqueue : s.pool.returnQueue = queue) :
    ∃ pool, PktBufferPool.drainFrom queue s.pool = some pool ∧
      Owned { s with pool := pool } (queue.reverse ++ free) := by
  induction queue generalizing s free with
  | nil => exact ⟨s.pool, rfl, h⟩
  | cons idx queue ih =>
    have hnames : Names s.pool.states .queued (idx :: queue) := hqueue ▸ h.accounts.queued
    have hidx : s.pool.states[idx]? = some .queued := (hnames.mem idx).1 mem_cons_self
    have hfirst : Owned { s with pool := { s.pool with returnQueue := queue }.release idx }
        (idx :: free) := {
      accounts := h.accounts.release hidx (by decide) (hnames.remove (by decide))
      retained := h.retained.trans (countP_retained hidx (by decide) (by decide)).symm
      leases := h.leases.set hidx (by decide) (by decide)
      refs := h.refs.set hidx (by decide) (by decide) }
    obtain ⟨pool, hdrain, hrest⟩ := ih hfirst rfl
    refine ⟨pool, ?_, ?_⟩
    · rw [PktBufferPool.drainFrom, if_neg (not_not.2 hidx)]
      exact hdrain
    · rwa [reverse_cons, append_assoc, singleton_append]

/-- A buffer is handed out, unless there is no free slot and none in the return queue. -/
theorem allocate (h : Owned s free) : ∃ pool lease free', s.pool.allocate = some (pool, lease) ∧
    Owned { s with pool := pool, leases := s.leases ++ [lease] } free' ∧
    (lease = none → free = [] ∧ s.pool.returnQueue = []) := by
  cases free with
  | cons _ free => exact ⟨_, _, free, h.accounts.allocate_cons, h.taken, nofun⟩
  | nil =>
    -- after the drain, the free slots are those of the return queue
    obtain ⟨pool, hdrain, hpool⟩ := h.drainFrom rfl
    rw [h.accounts.allocate_nil, PktBufferPool.drainLocked, hdrain, Option.bind_some]
    rw [append_nil] at hpool
    rcases hqueue : s.pool.returnQueue.reverse with _ | ⟨i, free⟩
    · rw [hqueue] at hpool
      rw [hpool.accounts.popFree_nil]
      refine ⟨pool, none, [], if_pos rfl, ?_, fun _ => ⟨rfl, reverse_eq_nil_iff.1 hqueue⟩⟩
      exact { hpool with leases := by simpa [reduceOption_append] using hpool.leases }
    · rw [hqueue] at hpool
      obtain ⟨_, hpop, hne, hlease⟩ := hpool.accounts.popFree_cons
      rw [hpop]
      exact ⟨_, _, free, (if_neg hne).trans hlease, hpool.taken, nofun⟩

end Owned

/-! ## Handles -/

theorem getElem?_of_getD (hi : handles.getD i none = some idx) : handles[i]? = some (some idx) := by
  rw [getD_eq_getElem?_getD] at hi
  cases hget : handles[i]? with
  | none => simp [hget] at hi
  | some => simpa [hget] using hi

/-- To empty a handle that is empty changes nothing. -/
theorem set_none_of_getD (hi : handles.getD i none = none) : handles.set i none = handles := by
  rcases lt_or_ge i handles.length with hlt | hge
  · refine set_of_getElem? ?_
    simpa [getElem?_eq_getElem hlt] using hi
  · exact set_eq_of_length_le hge

theorem emptied (hi : ¬ handles.length ≤ i) : (handles.set i none)[i]? = some none :=
  getElem?_set_self (Nat.lt_of_not_le hi)

theorem moveTo_perm (handles : List (Option ℕ)) (j : ℕ) : moveTo handles j ~ none :: handles := by
  refine (perm_append_singleton _ _).trans ?_
  rw [getD_eq_getElem?_getD]
  exact getD_set_perm_cons handles j none

/-- What is moved to an empty handle is only somewhere else. -/
theorem moveInto_perm (hij : i ≠ j) (hi : handles[i]? = some none) :
    moveInto handles i j ~ handles := by
  rcases lt_or_ge j handles.length with hlt | hge
  · have hj : handles[j]? = some (handles.getD j none) := by simp [getElem?_eq_getElem hlt]
    exact perm_transfer hij hi hj
  · have hj : handles.getD j none = none := by simp [getElem?_eq_none hge]
    rw [moveInto, hj, set_of_getElem? hi, set_eq_of_length_le hge]

namespace Owned

section

variable (h : Owned s free)

include h

/-- The leases are moved around. -/
theorem of_leases {leases : List (Option ℕ)} (hperm : leases.reduceOption ~ s.leases.reduceOption) :
    Owned { s with leases := leases } free :=
  { h with leases := h.leases.perm hperm.symm }

/-- The references are moved around. -/
theorem of_refs {refs : List (Option ℕ)} (hcount : ∀ i, refs.count (some i) = s.refs.count (some i)) :
    Owned { s with refs := refs } free :=
  { h with refs := h.refs.congr hcount }

/-- A lease is released. -/
theorem releaseLease (i : ℕ) (owner : Bool) :
    ∃ s' free', s.releaseLease i owner = some s' ∧ Owned s' free' ∧
      s'.leases = s.leases.set i none := by
  rw [Buffers.releaseLease]
  cases hi : s.leases.getD i none with
  | none => exact ⟨s, free, rfl, h, (set_none_of_getD hi).symm⟩
  | some idx =>
    have hnames := h.leases.perm (reduceOption_release (getElem?_of_getD hi)).symm
    have hidx : s.pool.states[idx]? = some .leased := (hnames.mem idx).1 mem_cons_self
    obtain ⟨free', b, haccounts, hstates, hleased, hretained⟩ :=
      h.accounts.recycle owner hidx (by decide) (by decide)
    refine ⟨{ s with pool := s.pool.recycle owner idx, leases := s.leases.set i none }, free', ?_,
      ⟨haccounts, ?_, ?_, ?_⟩, rfl⟩
    · simp [PktBufferPool.returnBuffer, hidx]
    · rw [PktBufferPool.recycle_retained, hstates, countP_retained hidx (by decide) hretained]
      exact h.retained
    · rw [hstates]
      exact hnames.remove hleased
    · rw [hstates, PktBufferPool.recycle_refCounts]
      exact h.refs.set hidx (by decide) hretained

/-- A leased buffer is retained. -/
theorem retain (i : ℕ) : ∃ s', s.retain i = some s' ∧ Owned s' free := by
  rw [Buffers.retain]
  cases hi : s.leases.getD i none with
  | none => exact ⟨_, rfl, h.of_refs fun i => by simp⟩
  | some idx =>
    have hnames := h.leases.perm (reduceOption_release (getElem?_of_getD hi)).symm
    have hidx : s.pool.states[idx]? = some .leased := (hnames.mem idx).1 mem_cons_self
    refine ⟨_, by simp [PktBufferPool.retain, hidx]; rfl, ?_, ?_, ?_, ?_⟩
    · exact h.accounts.retain hidx
    · have hcount := countP_set_add hidx .retained (· = .retained)
      show s.pool.retained + 1 = (s.pool.states.set idx .retained).countP (· = .retained)
      rw [h.retained]
      simpa using hcount.symm
    · exact hnames.remove (by decide)
    · refine (h.refs.retain hidx (by decide)).congr fun j => ?_
      exact (perm_append_singleton _ _).count_eq _

/-- A reference is released; the last one gives the buffer back. -/
theorem releaseRef (j : ℕ) (owner : Bool) :
    ∃ s' free', s.releaseRef j owner = some s' ∧ Owned s' free' ∧
      s'.refs = s.refs.set j none := by
  rw [Buffers.releaseRef]
  cases hj : s.refs.getD j none with
  | none => exact ⟨s, free, rfl, h, (set_none_of_getD hj).symm⟩
  | some idx =>
    -- the references are the one that goes, and the others
    have hrefs : Refers s.pool.states s.pool.refCounts (some idx :: s.refs.set j none) := by
      refine h.refs.congr fun i => ?_
      rw [(perm_set (getElem?_of_getD hj) none).count_eq]
      simp
    have hidx : s.pool.states[idx]? = some .retained := (hrefs.held idx).1 mem_cons_self
    have hcount : s.pool.refCount idx - 1 = 0 ↔ some idx ∉ s.refs.set j none := by
      rw [← UInt32.toNat_inj, PktBufferPool.refCount, hrefs.toNat_sub_one]
      exact count_eq_zero
    dsimp only
    split
    case isTrue hzero =>
      -- the pool that the release finds
      let pool := { s.pool.setRefCount idx (s.pool.refCount idx - 1) with
        retained := s.pool.retained - 1 }
      have hpool : pool.Accounts free := { h.accounts with }
      obtain ⟨free', b, haccounts, hstates, hleased, hretained⟩ :=
        hpool.recycle owner hidx (by decide) (by decide)
      refine ⟨{ s with pool := pool.recycle owner idx, refs := s.refs.set j none }, free', ?_,
        ⟨haccounts, ?_, ?_, ?_⟩, rfl⟩
      · have hstate : (s.pool.setRefCount idx (s.pool.refCount idx - 1)).states[idx]? =
            some .retained := hidx
        rw [PktBufferPool.releaseRetained, if_neg (not_not.2 hstate)]
        rfl
      · have hcount : (s.pool.states.set idx b).countP (· = .retained) + 1 =
            s.pool.states.countP (· = .retained) := by
          simpa [hretained] using countP_set_add hidx b (· = .retained)
        rw [PktBufferPool.recycle_retained, hstates]
        show s.pool.retained - 1 = (s.pool.states.set idx b).countP (· = .retained)
        rw [h.retained, ← hcount, Nat.add_sub_cancel]
      · rw [hstates]
        exact h.leases.set hidx (by decide) hleased
      · rw [hstates, PktBufferPool.recycle_refCounts]
        exact hrefs.dropLast _ (hcount.1 hzero) hretained
    case isFalse hzero =>
      refine ⟨_, free, rfl, ⟨?_, h.retained, h.leases, hrefs.drop ?_⟩, rfl⟩
      · exact { h.accounts with }
      · exact not_not.1 fun hnot => hzero (hcount.2 hnot)

/-- A reference that is there is copied. -/
theorem addRef {ref : Option ℕ} {refs : List (Option ℕ)} (hmem : ref ∈ s.refs ∨ ref = none)
    (hfit : ∀ idx ∈ ref, s.refs.count (some idx) + 1 < 2 ^ 32)
    (hcount : ∀ i, refs.count (some i) = (ref :: s.refs).count (some i)) :
    Owned { s with pool := s.addRef ref, refs := refs } free := by
  cases ref with
  | none =>
    refine h.of_refs fun i => ?_
    rw [hcount i]
    simp
  | some idx =>
    have hidx : some idx ∈ s.refs := hmem.resolve_right nofun
    exact ⟨{ h.accounts with }, h.retained, h.leases, (h.refs.add hidx (hfit idx rfl)).congr hcount⟩

end

end Owned

theorem getD_mem_or (handles : List (Option ℕ)) (j : ℕ) :
    handles.getD j none ∈ handles ∨ handles.getD j none = none := by
  cases hj : handles.getD j none with
  | none => exact .inr rfl
  | some => exact .inl (mem_of_getElem? (getElem?_of_getD hj))

/-! ## Runs -/

/-- The references to the slot of the reference `j` can be counted with one more. -/
def Countable (refs : List (Option ℕ)) (j : ℕ) : Prop :=
  ∀ idx ∈ refs.getD j none, refs.count (some idx) + 1 < 2 ^ 32

instance (refs : List (Option ℕ)) (j : ℕ) : Decidable (Countable refs j) :=
  inferInstanceAs (Decidable (∀ idx ∈ refs.getD j none, refs.count (some idx) + 1 < 2 ^ 32))

/-- A reference is copied only if there are fewer than 2^32 - 1 others to its slot. The one
    that is assigned to does not count. -/
def Fits (s : Buffers) : BufferOp → Prop
  | .copyRef j => Countable s.refs j
  | .assignRef i j _ => (i = j ∨ s.refs.length ≤ i) ∨ Countable (s.refs.set i none) j
  | _ => True

instance (s : Buffers) : ∀ op, Decidable (s.Fits op)
  | .copyRef j => inferInstanceAs (Decidable (Countable s.refs j))
  | .assignRef i j _ =>
    inferInstanceAs (Decidable ((i = j ∨ s.refs.length ≤ i) ∨ Countable (s.refs.set i none) j))
  | .allocate | .moveLease _ | .assignLease .. | .releaseLease .. | .retain _ | .moveRef _
  | .assignRefMove .. | .releaseRef .. | .drainReturnQueue => .isTrue trivial

/-- No operation is a violation, and those that can be counted keep the accounts. -/
theorem Owned.step (h : Owned s free) (op : BufferOp) :
    ∃ s', s.step op = some s' ∧ (s.Fits op → ∃ free', Owned s' free') := by
  cases op with
  | allocate =>
    obtain ⟨_, _, free', halloc, howned, -⟩ := h.allocate
    refine ⟨_, ?_, fun _ => ⟨free', howned⟩⟩
    rw [Buffers.step, Buffers.allocate, halloc, Option.map_some]
  | moveLease i =>
    refine ⟨_, rfl, fun _ => ⟨free, h.of_leases ?_⟩⟩
    exact (moveTo_perm s.leases i).filterMap id
  | assignLease i _ owner =>
    rw [Buffers.step]
    split
    case isTrue => exact ⟨s, rfl, fun _ => ⟨free, h⟩⟩
    case isFalse hij =>
      obtain ⟨hne, hlt⟩ := not_or.1 hij
      obtain ⟨s', free', hrelease, howned, hleases⟩ := h.releaseLease i owner
      have hempty : s'.leases[i]? = some none := by
        rw [hleases]
        exact emptied hlt
      rw [hrelease]
      refine ⟨_, rfl, fun _ => ⟨free', howned.of_leases ?_⟩⟩
      exact (moveInto_perm hne hempty).filterMap id
  | releaseLease i owner =>
    obtain ⟨s', free', hrelease, howned, -⟩ := h.releaseLease i owner
    exact ⟨s', hrelease, fun _ => ⟨free', howned⟩⟩
  | retain i =>
    obtain ⟨s', hretain, howned⟩ := h.retain i
    exact ⟨s', hretain, fun _ => ⟨free, howned⟩⟩
  | copyRef j =>
    refine ⟨_, rfl, fun hfit => ⟨free, h.addRef (getD_mem_or s.refs j) hfit fun i => ?_⟩⟩
    exact (perm_append_singleton _ _).count_eq _
  | moveRef j =>
    refine ⟨_, rfl, fun _ => ⟨free, h.of_refs fun i => ?_⟩⟩
    rw [(moveTo_perm s.refs j).count_eq]
    simp
  | assignRef i j owner =>
    rw [Buffers.step]
    split
    case isTrue => exact ⟨s, rfl, fun _ => ⟨free, h⟩⟩
    case isFalse hij =>
      obtain ⟨-, hlt⟩ := not_or.1 hij
      obtain ⟨s', free', hrelease, howned, hrefs⟩ := h.releaseRef i owner
      have hempty : s'.refs[i]? = some none := by
        rw [hrefs]
        exact emptied hlt
      rw [hrelease]
      refine ⟨_, rfl, fun hfit => ⟨free', howned.addRef (getD_mem_or s'.refs j) ?_ fun k => ?_⟩⟩
      · rw [hrefs]
        exact hfit.resolve_left hij
      · rw [← (perm_set hempty _).count_eq]
        simp
  | assignRefMove i _ owner =>
    rw [Buffers.step]
    split
    case isTrue => exact ⟨s, rfl, fun _ => ⟨free, h⟩⟩
    case isFalse hij =>
      obtain ⟨hne, hlt⟩ := not_or.1 hij
      obtain ⟨s', free', hrelease, howned, hrefs⟩ := h.releaseRef i owner
      have hempty : s'.refs[i]? = some none := by
        rw [hrefs]
        exact emptied hlt
      rw [hrelease]
      refine ⟨_, rfl, fun _ => ⟨free', howned.of_refs fun k => ?_⟩⟩
      exact (moveInto_perm hne hempty).count_eq _
  | releaseRef i owner =>
    obtain ⟨s', free', hrelease, howned, -⟩ := h.releaseRef i owner
    exact ⟨s', hrelease, fun _ => ⟨free', howned⟩⟩
  | drainReturnQueue =>
    obtain ⟨_, hdrain, howned⟩ := h.drainFrom rfl
    refine ⟨_, ?_, fun _ => ⟨_, howned⟩⟩
    rw [Buffers.step, PktBufferPool.drainLocked, hdrain, Option.map_some]

/-- `s` is reached from a new pool, by operations whose references can be counted. -/
def Reachable (slotCount : ℕ) (s : Buffers) : Prop :=
  Runs (fun s op s' => s.Fits op ∧ s.step op = some s') (.new slotCount) s

theorem Reachable.owned {slotCount : ℕ} (h : Reachable slotCount s) (hsmall : slotCount < 2 ^ 32) :
    ∃ free, Owned s free := by
  refine h.invariant (P := fun s => ∃ free, Owned s free) ⟨_, .new hsmall⟩ ?_
  rintro s op s' ⟨_, howned⟩ ⟨hfit, hstep⟩
  obtain ⟨s'', hstep', hkept⟩ := howned.step op
  obtain rfl : s'' = s' := Option.some.inj (hstep'.symm.trans hstep)
  exact hkept hfit

/-- What the pool says about its slots is right, and no operation is a violation. -/
structure Ownership (s : Buffers) : Prop where
  /-- The links end, after each free slot was met once. -/
  free : ∃ free, Linked s.pool.next s.pool.slotCount s.pool.head free ∧
    Names s.pool.states .free free ∧ s.pool.freeCount = free.length
  queued : Names s.pool.states .queued s.pool.returnQueue
  outstanding : s.pool.outstanding = s.pool.states.countP (· ≠ .free)
  retained : s.pool.retained = s.pool.states.countP (· = .retained)
  counted : ∀ i, s.pool.states[i]? = some .retained →
    (s.pool.refCount i).toNat = s.refs.count (some i)
  leases : s.leases.reduceOption.Nodup
  apart : ∀ i, some i ∈ s.leases → some i ∉ s.refs
  exhausted : ∀ pool, s.pool.allocate = some (pool, none) →
    ∀ i : ℕ, s.pool.states[i]? ≠ some .free ∧ s.pool.states[i]? ≠ some .queued
  safe : ∀ op, (s.step op).isSome

end Buffers

/-- Of every pool with fewer than 2^32 slots, whatever is done with its buffers, as long as
    the references to a slot can be counted. -/
theorem buffers_owned (slotCount : ℕ) (hsmall : slotCount < 2 ^ 32) {s : Buffers}
    (h : Buffers.Reachable slotCount s) : s.Ownership := by
  obtain ⟨free, howned⟩ := h.owned hsmall
  have hfree := howned.accounts.toFreeList
  refine ⟨⟨free, hfree.linked, hfree.names, hfree.count⟩, howned.accounts.queued,
    howned.accounts.outstanding, howned.retained, ?_, howned.leases.nodup, ?_, ?_, ?_⟩
  · intro i hi
    exact howned.refs.counted i ((howned.refs.held i).2 hi)
  · -- the slot would be both leased and retained
    intro i hlease href
    have hleased := (howned.leases.mem i).1 (reduceOption_mem_iff.2 hlease)
    have hretained := (howned.refs.held i).1 href
    cases hleased.symm.trans hretained
  · intro pool hnone i
    obtain ⟨_, _, -, halloc, -, hempty⟩ := howned.allocate
    obtain ⟨rfl, rfl⟩ := Prod.mk.inj (Option.some.inj (halloc.symm.trans hnone))
    obtain ⟨rfl, hqueue⟩ := hempty rfl
    have hqueued := howned.accounts.queued.mem i
    rw [hqueue] at hqueued
    exact ⟨fun hi => not_mem_nil ((hfree.names.mem i).2 hi), fun hi => not_mem_nil (hqueued.2 hi)⟩
  · intro op
    obtain ⟨_, hstep, -⟩ := howned.step op
    rw [hstep]
    rfl

/-- One buffer is retained twice, and the other one, returned in another thread, is handed
    out again. -/
theorem buffers_owned_reused : ∃ s : Buffers,
    s.leases = [none, none, some 1] ∧ s.refs = [some 0, some 0] ∧ s.Ownership := by
  have hrun : [.allocate, .retain 0, .copyRef 0, .allocate, .releaseLease 1 false,
      .allocate].foldlM (guarded Buffers.step Buffers.Fits) (.new 2) = some
        { pool := { slotCount := 2, states := [.retained, .leased], refCounts := [2, 0],
                    freeNext := [1, 2, 2], freeHead := 0x400000002, freeCount := 0,
                    outstanding := 2, retained := 1 }
          leases := [none, none, some 1]
          refs := [some 0, some 0] } := by decide
  exact ⟨_, rfl, rfl, buffers_owned 2 (by decide) (runs_of_guarded hrun)⟩

/-! ## Too many references -/

namespace Buffers

/-- A pool with one slot, which is retained by `n + 1` references. -/
def held (n : ℕ) : Buffers where
  pool := { slotCount := 1, states := [.retained], refCounts := [UInt32.ofNat (n + 1)],
            freeNext := [1, 1], freeHead := 0x100000001, freeCount := 0, outstanding := 1,
            retained := 1 }
  leases := [none]
  refs := List.replicate (n + 1) (some 0)

theorem step_held (n : ℕ) : (held n).step (.copyRef 0) = some (held (n + 1)) := by
  have hcount : UInt32.ofNat (n + 1) + 1 = UInt32.ofNat (n + 1 + 1) :=
    (UInt32.ofNat_add (n + 1) 1).symm
  have hrefs : List.replicate (n + 1) (some 0) ++ [some 0] = List.replicate (n + 1 + 1) (some 0) :=
    replicate_succ'.symm
  simp only [step, held, replicate_succ, getD_cons_zero, addRef,
    PktBufferPool.setRefCount, PktBufferPool.refCount, set_cons_zero, hcount]
  rw [← replicate_succ, ← replicate_succ, hrefs]

theorem runs_held (n : ℕ) : Runs (fun s op s' => s.step op = some s') (.new 1) (held n) := by
  induction n with
  | zero => exact .head ⟨.allocate, rfl⟩ (.head ⟨.retain 0, rfl⟩ .refl)
  | succ n ih => exact ih.tail ⟨.copyRef 0, step_held n⟩

/-- The pool after its buffer was given back. -/
def returned : PktBufferPool where
  slotCount := 1
  states := [.free]
  refCounts := [0]
  freeNext := [1, 1]
  freeHead := 0x200000000
  freeCount := 1

/-- The count has come around to one, and with the first release the slot is free. -/
theorem releaseRef_held {n : ℕ} (hcount : UInt32.ofNat (n + 1) = 1) :
    (held n).step (.releaseRef 0 true) =
      some { pool := returned, leases := [none], refs := none :: List.replicate n (some 0) } := by
  have href : (held n).refs.getD 0 none = some 0 := by rw [held, replicate_succ]; rfl
  have hone : (held n).pool.refCount 0 - 1 = 0 := by
    show UInt32.ofNat (n + 1) - 1 = 0
    rw [hcount]
    decide
  have hpool : ((held n).pool.setRefCount 0 0).releaseRetained true 0 = some returned := by
    show PktBufferPool.releaseRetained
      { slotCount := 1, states := [.retained], refCounts := [0], freeNext := [1, 1],
        freeHead := 0x100000001, freeCount := 0, outstanding := 1, retained := 1 } true 0 = _
    decide
  have hrefs : (held n).refs.set 0 none = none :: List.replicate n (some 0) := by
    rw [held, replicate_succ]
    rfl
  rw [Buffers.step, Buffers.releaseRef, href]
  dsimp only
  rw [hone, if_pos rfl, hpool, hrefs]
  rfl

theorem allocate_returned : ∃ pool, returned.allocate = some (pool, some 0) := ⟨_, rfl⟩

end Buffers

/-- With 2^32 + 1 references to a buffer, the first one that is released gives it back, and
    it is handed out again while the others refer to it. -/
theorem references_uncounted : ∃ s s' : Buffers,
    Runs (fun s op s' => s.step op = some s') (.new 1) s ∧
    s.pool.states = [.retained] ∧ s.pool.refCount 0 = 1 ∧ s.refs.count (some 0) = 2 ^ 32 + 1 ∧
    Runs (fun s op s' => s.step op = some s') s s' ∧
    some 0 ∈ s'.leases ∧ s'.refs.count (some 0) = 2 ^ 32 := by
  have hcount : UInt32.ofNat (2 ^ 32 + 1) = 1 := by decide
  -- nothing below depends on how many they are
  generalize hn : 2 ^ 32 = n at hcount ⊢
  obtain ⟨pool, halloc⟩ := Buffers.allocate_returned
  refine ⟨.held n,
    { pool := pool, leases := [none, some 0], refs := none :: .replicate n (some 0) },
    Buffers.runs_held n, rfl, hcount, count_replicate_self, ?_, by simp, by simp⟩
  refine .head ⟨.releaseRef 0 true, Buffers.releaseRef_held hcount⟩ (.single ⟨.allocate, ?_⟩)
  show Buffers.allocate _ = _
  rw [Buffers.allocate, halloc]
  rfl

end Netstack2
