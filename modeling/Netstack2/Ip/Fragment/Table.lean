import Netstack2.Ip.Fragment.Entry

/-!
# The table of the reassembler

What a call does to the entries of the table: the entry of its own datagram is taken or
made anew, and the entries of other datagrams stay, unless their time has passed
(`Lookup`, `Added`). No two entries in use have the same key (`Tidy`).
-/

namespace Netstack2

open List

namespace FragmentReassembler

/-! ## Tidy tables -/

/-- An entry for `key` that holds nothing. What is left of a deadline does not matter. -/
def Blank (key : FragmentKey) (entry : ReassemblyEntry) : Prop :=
  entry = { key := key, deadlineMs := entry.deadlineMs }

theorem blank_fresh (key : FragmentKey) : Blank key { key := key } := rfl

/-- Entries that are not in use hold nothing, and no two in use have the same key. -/
structure Tidy (entries : List ReassemblyEntry) : Prop where
  unused : ∀ entry ∈ entries, entry.inUse = false → Blank entry.key entry
  unique : entries.Pairwise fun a b => a.inUse = true → b.inUse = true → a.key ≠ b.key

namespace Tidy

variable {entries entries' : List ReassemblyEntry} {entry : ReassemblyEntry}

theorem perm (h : Tidy entries) (hperm : entries ~ entries') : Tidy entries' where
  unused := fun entry hentry => h.unused entry (hperm.mem_iff.2 hentry)
  unique := (hperm.pairwise_iff fun hne ha hb => (hne hb ha).symm).1 h.unique

theorem cons_iff : Tidy (entry :: entries) ↔
    (entry.inUse = false → Blank entry.key entry) ∧
      (entry.inUse → ∀ e ∈ entries, e.inUse → e.key ≠ entry.key) ∧ Tidy entries := by
  constructor
  · intro h
    obtain ⟨hentry, hentries⟩ := pairwise_cons.1 h.unique
    refine ⟨h.unused entry mem_cons_self, fun hin e he hein => (hentry e he hin hein).symm, ?_,
      hentries⟩
    exact fun e he => h.unused e (mem_cons_of_mem _ he)
  · rintro ⟨hunused, hunique, htidy⟩
    refine ⟨forall_mem_cons.2 ⟨hunused, htidy.unused⟩, pairwise_cons.2 ⟨?_, htidy.unique⟩⟩
    exact fun e he hin hein => (hunique hin e he hein).symm

end Tidy

/-- The bytes that the entries hold. -/
def totalBytes (entries : List ReassemblyEntry) : ℕ := (entries.map ReassemblyEntry.bytesHeld).sum

theorem totalBytes_perm {entries entries' : List ReassemblyEntry} (h : entries ~ entries') :
    totalBytes entries = totalBytes entries' :=
  (h.map _).sum_eq

theorem totalBytes_cons (entry : ReassemblyEntry) (entries : List ReassemblyEntry) :
    totalBytes (entry :: entries) = entry.bytesHeld + totalBytes entries := by
  rw [totalBytes, map_cons, sum_cons]
  rfl

/-- The table is tidy, and its bytes are counted. -/
structure WellFormed (r : FragmentReassembler) : Prop where
  tidy : Tidy r.entries
  bytes : r.currentBytes = totalBytes r.entries

/-- `entry` gathers the fragments of the datagram `key`. -/
def Has (r : FragmentReassembler) (key : FragmentKey) (entry : ReassemblyEntry) : Prop :=
  entry ∈ r.entries ∧ entry.inUse = true ∧ entry.key = key

/-! ## The lookup -/

/-- What the lookup of an entry finds: an entry for `key`, which is the one there was, or
    a new one, and the other entries. -/
structure Lookup (r : FragmentReassembler) (key : FragmentKey) (nowMs : ℕ)
    (found : FragmentReassembler) (i : ℕ) (entry : ReassemblyEntry)
    (others : List ReassemblyEntry) : Prop where
  get : found.entries.getD i {} = entry
  set : ∀ new, found.entries.set i new ~ new :: others
  perm : found.entries ~ entry :: others
  keyed : entry.key = key
  live : (r.Has key entry ∧ entry.isExpired nowMs = false) ∨
    (Blank key entry ∧ ∀ e, r.Has key e → e.isExpired nowMs = true)
  foreign : ∀ e ∈ others, e ∈ r.entries ∧ (e.inUse = true → e.key ≠ key)
  kept : ∀ e ∈ r.entries, e.inUse = true → e.key ≠ key → e.isExpired nowMs = false →
    e ∈ others
  tidy : Tidy others
  bytes : found.currentBytes = entry.bytesHeld + totalBytes others

section Lookup

variable {r found : FragmentReassembler} {key : FragmentKey} {nowMs i : ℕ}

theorem Lookup.blank {entry : ReassemblyEntry} {others : List ReassemblyEntry}
    (h : Lookup r key nowMs found i entry others) (hout : entry.inUse = false) :
    Blank key entry := by
  rcases h.live with ⟨⟨-, hin, -⟩, -⟩ | ⟨hblank, -⟩
  · simp [hout] at hin
  · exact hblank

section

variable (h : r.WellFormed)

include h

theorem WellFormed.bytesHeld_le (i : ℕ) : (r.entries.getD i {}).bytesHeld ≤ r.currentBytes := by
  rcases Nat.lt_or_ge i r.entries.length with hi | hi
  · rw [getD_eq_getElem _ _ hi, h.bytes, ← totalBytes_perm (getElem_cons_eraseIdx_perm hi),
      totalBytes_cons]
    exact Nat.le_add_right ..
  · rw [getD_eq_default _ _ hi]
    exact Nat.zero_le _

section

variable {j : ℕ} {old : ReassemblyEntry} (hold : r.entries[i]? = some old)

include hold

/-- The entry at `i` is given away, or it stays as it is. -/
theorem lookup_set {new : ReassemblyEntry} (hfound : found.entries = r.entries.set i new)
    (hbytes : found.currentBytes = r.currentBytes - old.bytesHeld + new.bytesHeld)
    (hkey : new.key = key)
    (hlive : (r.Has key new ∧ new.isExpired nowMs = false) ∨
      (Blank key new ∧ ∀ e, r.Has key e → e.isExpired nowMs))
    (hforeign : ∀ e ∈ r.entries.eraseIdx i, e.inUse → e.key ≠ key)
    (hkept : old.inUse → old.key ≠ key → old.isExpired nowMs) :
    Lookup r key nowMs found i new (r.entries.eraseIdx i) := by
  obtain ⟨hi, rfl⟩ := List.getElem?_eq_some_iff.1 hold
  have hperm := getElem_cons_eraseIdx_perm hi
  have hset : ∀ new', found.entries.set i new' ~ new' :: r.entries.eraseIdx i := by
    intro new'
    rw [hfound, set_set]
    exact set_perm_cons_eraseIdx hi new'
  refine ⟨?_, hset, ?_, hkey, hlive, fun e he => ⟨mem_of_mem_eraseIdx he, hforeign e he⟩, ?_,
    (Tidy.cons_iff.1 (h.tidy.perm hperm.symm)).2.2, ?_⟩
  · rw [hfound, getD_eq_getElem _ _ (by rwa [length_set]), getElem_set_self]
  · rw [hfound]
    exact set_perm_cons_eraseIdx hi new
  · intro e he hin hne hlive'
    rcases mem_cons.1 (hperm.mem_iff.2 he) with rfl | hmem
    · simp [hkept hin hne] at hlive'
    · exact hmem
  · rw [hbytes, h.bytes, ← totalBytes_perm hperm, totalBytes_cons, Nat.add_sub_cancel_left, add_comm]

theorem lookup_reclaim (hexpired : ∀ e, r.Has key e → e.isExpired nowMs)
    (hforeign : ∀ e ∈ r.entries.eraseIdx i, e.inUse → e.key ≠ key)
    (hkept : old.inUse → old.key ≠ key → old.isExpired nowMs) :
    Lookup r key nowMs (r.reclaim i key) i { key := key }
      (r.entries.eraseIdx i) := by
  refine lookup_set h hold rfl ?_ rfl (.inr ⟨rfl, hexpired⟩) hforeign hkept
  rw [reclaim, getD_eq_getElem?_getD, hold]
  rfl

/-- There is an entry for the datagram. -/
theorem lookup_found (hin : old.inUse) (hkey : old.key = key)
    (hfound : (if old.isExpired nowMs then some (r.reclaim i key, i)
      else some (r, i)) = some (found, j)) :
    ∃ entry others, Lookup r key nowMs found j entry others := by
  obtain ⟨hi, rfl⟩ := List.getElem?_eq_some_iff.1 hold
  have hperm := getElem_cons_eraseIdx_perm hi
  have hforeign : ∀ e ∈ r.entries.eraseIdx i, e.inUse = true → e.key ≠ key :=
    fun e he hein => hkey ▸ (Tidy.cons_iff.1 (h.tidy.perm hperm.symm)).2.1 hin e he hein
  split at hfound
  case isTrue hexpired =>
    cases hfound
    refine ⟨_, _, lookup_reclaim h hold (fun e he => ?_) hforeign fun _ hne => absurd hkey hne⟩
    -- it is the only one
    rcases mem_cons.1 (hperm.mem_iff.2 he.1) with rfl | hmem
    · exact hexpired
    · exact absurd he.2.2 (hforeign e hmem he.2.1)
  case isFalse hlive =>
    cases hfound
    refine ⟨_, _, lookup_set h hold (set_getElem_self hi).symm ?_ hkey
      (.inl ⟨⟨getElem_mem hi, hin, hkey⟩, Bool.not_eq_true _ ▸ hlive⟩) hforeign
      fun _ hne => absurd hkey hne⟩
    exact (Nat.sub_add_cancel (getD_eq_getElem _ _ hi ▸ h.bytesHeld_le i)).symm

/-- An entry that is free, or whose time has passed, is given to the datagram. -/
theorem lookup_free (hno : ∀ e ∈ r.entries, e.inUse → e.key ≠ key)
    (hfree : old.inUse = false ∨ old.isExpired nowMs)
    (hfound : (if old.inUse then some (r.reclaim i key, i)
      else some ({ r with
        entries := r.entries.set i { old with key := key } }, i)) = some (found, j)) :
    ∃ entry others, Lookup r key nowMs found j entry others := by
  have hexpired : ∀ e, r.Has key e → e.isExpired nowMs = true :=
    fun e he => absurd he.2.2 (hno e he.1 he.2.1)
  have hforeign : ∀ e ∈ r.entries.eraseIdx i, e.inUse = true → e.key ≠ key :=
    fun e he => hno e (mem_of_mem_eraseIdx he)
  split at hfound
  case isTrue hin =>
    cases hfound
    exact ⟨_, _, lookup_reclaim h hold hexpired hforeign fun _ _ => hfree.resolve_left (by simp [hin])⟩
  case isFalse hout =>
    cases hfound
    have hunused := h.tidy.unused _ (mem_of_getElem? hold) (Bool.not_eq_true _ ▸ hout)
    have hempty : old.bytesHeld = 0 := by
      rw [hunused]
      rfl
    refine ⟨_, _, lookup_set h hold rfl ?_ rfl (.inr ⟨?_, hexpired⟩) hforeign
      fun hin _ => absurd hin hout⟩
    · exact (congrArg₂ (r.currentBytes - · + ·) hempty hempty).symm
    · rw [hunused]
      rfl

end

/-- An entry is added to the table. -/
theorem lookup_new (hno : ∀ e ∈ r.entries, e.inUse → e.key ≠ key) :
    Lookup r key nowMs
      { r with entries := r.entries ++ [{ key := key }] }
      r.entries.length { key := key } r.entries := by
  refine ⟨by simp, fun new => ?_, perm_append_singleton .., rfl, .inr ⟨rfl, fun e he => ?_⟩,
    fun e he => ⟨he, hno e he⟩, fun e he _ _ _ => he, h.tidy, h.bytes.trans (zero_add _).symm⟩
  · rw [set_append_right _ _ (le_refl _), Nat.sub_self, set_cons_zero]
    exact perm_append_singleton ..
  · exact absurd he.2.2 (hno e he.1 he.2.1)

theorem findOrCreate_spec (hfound : r.findOrCreate key nowMs = some (found, i)) :
    ∃ entry others, Lookup r key nowMs found i entry others := by
  rw [findOrCreate] at hfound
  split at hfound
  case h_1 j hfind =>
    obtain ⟨hlt, hmatch, -⟩ := findIdx?_eq_some_iff_getElem.1 hfind
    rw [Bool.and_eq_true, beq_iff_eq] at hmatch
    rw [getD_eq_getElem _ _ hlt] at hfound
    exact lookup_found h (getElem?_eq_getElem hlt) hmatch.1 hmatch.2 hfound
  case h_2 hnone =>
    have hno : ∀ e ∈ r.entries, e.inUse = true → e.key ≠ key := by
      intro e he hein hekey
      have := findIdx?_eq_none_iff.1 hnone e he
      simp [hein, hekey] at this
    split at hfound
    case h_1 j hfree =>
      obtain ⟨hlt, hfree, -⟩ := findIdx?_eq_some_iff_getElem.1 hfree
      rw [Bool.or_eq_true, Bool.not_eq_true'] at hfree
      rw [getD_eq_getElem _ _ hlt] at hfound
      exact lookup_free h (getElem?_eq_getElem hlt) hno hfree hfound
    case h_2 =>
      split at hfound
      case isFalse => cases hfound
      case isTrue =>
        cases hfound
        exact ⟨_, _, lookup_new h hno⟩

end

end Lookup

/-! ## Adding a fragment -/

/-- The limit for a datagram: that of the call, or that of the protocol. -/
def payloadLimit (hardPayloadLimit maxPayloadBytes : ℕ) : ℕ :=
  if maxPayloadBytes = 0 ∨ maxPayloadBytes > hardPayloadLimit then hardPayloadLimit
  else maxPayloadBytes

/-- A fragment was given to the entry that was found for it, and the other entries are left
    as they are. -/
structure Added (r : FragmentReassembler) (limit : ℕ) (key : FragmentKey)
    (fragment : Fragment) (nowMs expiresMs : ℕ) (ecn : UInt8) (found : FragmentReassembler)
    (entry entry' : ReassemblyEntry) (others : List ReassemblyEntry)
    (r' : FragmentReassembler) (result : FragmentAddResult) : Prop where
  lookup : ∃ i, r.findOrCreate key nowMs = some (found, i) ∧
    Lookup r key nowMs found i entry others
  added : ∃ budget, entry.addFragment fragment.offset fragment.data fragment.more nowMs expiresMs
    limit budget ecn = (entry', result)
  nonempty : fragment.data ≠ []
  representable : ¬fragment.data.length > 0xffffffff
  entries : r'.entries ~ (if result.complete then {} else entry') :: others
  wellFormed : r'.WellFormed

section Added

variable {r r' : FragmentReassembler} {hardPayloadLimit : ℕ} {key : FragmentKey}
  {fragmentOffset : UInt16} {more : Bool} {payload : Bytes}
  {nowMs expiresMs maxPayloadBytes : ℕ} {ecn : UInt8} {result : FragmentAddResult}
  {entry : ReassemblyEntry}

theorem bytesHeld_store {fragment : Fragment} :
    (entry.store fragment.offset fragment.data fragment.more nowMs expiresMs ecn).bytesHeld =
      max entry.bytesHeld fragment.stop := by
  have hgrow := length_growTo entry.dataBuffer (fragment.offset + fragment.data.length)
  rw [ReassemblyEntry.bytesHeld, ReassemblyEntry.bytesHeld, ReassemblyEntry.store,
    length_writeAt (by omega), hgrow]
  rfl

theorem inUse_store {fragment : Fragment} :
    (entry.store fragment.offset fragment.data fragment.more nowMs expiresMs ecn).inUse := by
  simp [ReassemblyEntry.inUse, ReassemblyEntry.store]

/-- The entry at `i` becomes `new`, and its bytes are counted. -/
theorem Lookup.wellFormed {found : FragmentReassembler} {i : ℕ} {new : ReassemblyEntry}
    {others : List ReassemblyEntry} (h : Lookup r key nowMs found i entry others)
    (hunused : new.inUse = false → Blank new.key new) (hkey : new.inUse → new.key = key)
    (hentries : r'.entries = found.entries.set i new)
    (hbytes : r'.currentBytes + entry.bytesHeld = found.currentBytes + new.bytesHeld) :
    r'.WellFormed := by
  refine ⟨?_, ?_⟩
  · rw [hentries]
    refine Tidy.perm (Tidy.cons_iff.2 ⟨hunused, fun hin e he hein => ?_, h.tidy⟩) (h.set new).symm
    rw [hkey hin]
    exact (h.foreign e he).2 hein
  · rw [hentries, totalBytes_perm (h.set new), totalBytes_cons]
    have := h.bytes
    omega

/-- A call is refused before the lookup, or it finds no entry, or the fragment is given to
    the entry that was found. -/
theorem addFragment_spec (h : r.WellFormed)
    (heq : r.addFragment hardPayloadLimit key fragmentOffset more payload nowMs expiresMs
      maxPayloadBytes ecn = (r', result)) :
    (r' = r ∧ result.complete = false ∧ result.error ≠ none ∧
      (payload = [] ∨ payload.length > 0xffffffff ∨
        r.findOrCreate key nowMs = none ∧ result.error = some .tooManyEntries)) ∨
    ∃ found entry entry' others, Added r (payloadLimit hardPayloadLimit maxPayloadBytes) key
      ⟨fragmentOffset.toNat * 8, payload, more⟩ nowMs expiresMs ecn found entry entry' others
      r' result := by
  rw [addFragment] at heq
  split at heq
  case isTrue hempty =>
    obtain ⟨rfl, rfl⟩ := Prod.mk.inj heq
    exact .inl ⟨rfl, rfl, nofun, .inl hempty⟩
  case isFalse hnonempty =>
    split at heq
    case isTrue hlong =>
      obtain ⟨rfl, rfl⟩ := Prod.mk.inj heq
      exact .inl ⟨rfl, rfl, nofun, .inr (.inl hlong)⟩
    case isFalse hrepresentable =>
      cases hfind : r.findOrCreate key nowMs with
      | none =>
        rw [hfind] at heq
        obtain ⟨rfl, rfl⟩ := Prod.mk.inj heq
        exact .inl ⟨rfl, rfl, nofun, .inr (.inr ⟨rfl, rfl⟩)⟩
      | some pair =>
        obtain ⟨found, i⟩ := pair
        obtain ⟨entry, others, hlookup⟩ := findOrCreate_spec h hfind
        rw [hfind] at heq
        dsimp only at heq
        rw [hlookup.get, ← payloadLimit] at heq
        generalize found.maxTotalBytes - found.currentBytes = budget at heq
        cases hadd : entry.addFragment (fragmentOffset.toNat * 8) payload more nowMs expiresMs
            (payloadLimit hardPayloadLimit maxPayloadBytes) budget ecn with
        | mk entry' result' =>
        rw [hadd] at heq
        have hbytes := hlookup.bytes
        obtain rfl : result' = result := by
          split_ifs at heq <;> exact (Prod.mk.inj heq).2
        suffices hkept : r'.entries ~ (if result'.complete then {} else entry') :: others ∧
            r'.WellFormed from .inr ⟨found, entry, entry', others, ⟨i, hfind, hlookup⟩,
          ⟨budget, hadd⟩, hnonempty, hrepresentable, hkept.1, hkept.2⟩
        cases @ReassemblyEntry.addFragment_gives entry ⟨fragmentOffset.toNat * 8, payload, more⟩
          _ _ _ _ _ _ _ hadd with
        | refused error discarded hsame =>
          cases heq
          refine ⟨hlookup.set _, hlookup.wellFormed (fun hout => ?_) (fun _ => ?_) rfl rfl⟩
          · -- an entry that is not in use is the new one
            have hentry : entry.inUse = false := hout
            rw [hsame hentry, hlookup.blank hentry]
            rfl
          · exact hlookup.keyed
        | kept hready =>
          cases heq
          refine ⟨hlookup.set _, hlookup.wellFormed (fun hout => ?_) (fun _ => ?_) rfl ?_⟩
          · rw [inUse_store] at hout
            cases hout
          · exact hlookup.keyed
          · have hgrown := @bytesHeld_store nowMs expiresMs ecn entry
              ⟨fragmentOffset.toNat * 8, payload, more⟩
            dsimp only at hgrown ⊢
            omega
        | whole stored hready hstored hcomplete =>
          cases heq
          refine ⟨hlookup.set {},
            hlookup.wellFormed (fun _ => blank_fresh _) (fun hin => ?_) rfl ?_⟩
          · cases hin
          · have hempty : ReassemblyEntry.bytesHeld {} = 0 := rfl
            dsimp only
            omega

variable {limit : ℕ} {fragment : Fragment} {found : FragmentReassembler}
  {entry entry' e : ReassemblyEntry} {others : List ReassemblyEntry} {key' : FragmentKey}

section

variable (h : Added r limit key fragment nowMs expiresMs ecn found entry entry' others r' result)

include h

/-- The entries of other datagrams that are there afterwards were there before. -/
theorem Added.has_of_ne (hne : key' ≠ key) (he : r'.Has key' e) :
    r.Has key' e ∧ found.Has key' e := by
  obtain ⟨_, -, hlookup⟩ := h.lookup
  obtain ⟨_, hadd⟩ := h.added
  obtain ⟨hmem, hin, hkey⟩ := he
  rcases mem_cons.1 (h.entries.mem_iff.1 hmem) with rfl | hother
  · -- the entry of the call has another key
    split at hin
    case isTrue => exact absurd hin Bool.false_ne_true
    case isFalse hincomplete =>
      rw [if_neg hincomplete] at hkey
      refine absurd (hkey.symm.trans ?_) hne
      cases ReassemblyEntry.addFragment_gives hadd with
      | refused | kept => exact hlookup.keyed
      | whole => exact absurd rfl hincomplete
  · exact ⟨⟨(hlookup.foreign e hother).1, hin, hkey⟩,
      hlookup.perm.mem_iff.2 (mem_cons_of_mem _ hother), hin, hkey⟩

/-- The entries of other datagrams stay until their time has passed. -/
theorem Added.has_of_live (hne : key' ≠ key) (he : r.Has key' e)
    (hlive : e.isExpired nowMs = false) : r'.Has key' e := by
  obtain ⟨_, -, hlookup⟩ := h.lookup
  obtain ⟨hmem, hin, hkey⟩ := he
  have hother := hlookup.kept e hmem hin (hkey ▸ hne) hlive
  exact ⟨h.entries.mem_iff.2 (mem_cons_of_mem _ hother), hin, hkey⟩

/-- The entry of the datagram is the one that the fragment was given to. -/
theorem Added.has_self (he : r'.Has key e) : result.complete = false ∧ e = entry' := by
  obtain ⟨_, -, hlookup⟩ := h.lookup
  obtain ⟨hmem, hin, hkey⟩ := he
  rcases mem_cons.1 (h.entries.mem_iff.1 hmem) with rfl | hother
  · split at hin
    case isTrue => exact absurd hin Bool.false_ne_true
    case isFalse hincomplete => exact ⟨Bool.not_eq_true _ ▸ hincomplete, if_neg hincomplete⟩
  · exact absurd hkey ((hlookup.foreign e hother).2 hin)

end

end Added

/-! ## Dropping old entries -/

section Purge

variable {r : FragmentReassembler} {nowMs : ℕ} {key : FragmentKey}

theorem has_purge_iff {e : ReassemblyEntry} : (r.purge nowMs).1.Has key e ↔
    r.Has key e ∧ e.isExpired nowMs = false := by
  constructor
  · rintro ⟨hmem, hin, hkey⟩
    obtain ⟨_, he', rfl⟩ := mem_map.1 hmem
    split at hin
    case isTrue => exact absurd hin Bool.false_ne_true
    case isFalse hlive =>
      rw [if_neg hlive] at hkey ⊢
      dsimp only at hlive
      rw [hin, Bool.true_and] at hlive
      exact ⟨⟨he', hin, hkey⟩, Bool.not_eq_true _ ▸ hlive⟩
  · rintro ⟨⟨hmem, hin, hkey⟩, hlive⟩
    refine ⟨mem_map.2 ⟨e, hmem, if_neg ?_⟩, hin, hkey⟩
    dsimp only
    rw [hin, hlive]
    decide

/-- The bytes of the entries that stay, and of those that are dropped. -/
theorem totalBytes_purge (nowMs : ℕ) (entries : List ReassemblyEntry) : totalBytes entries =
    totalBytes (entries.map fun entry =>
      if entry.inUse && entry.isExpired nowMs then {} else entry) +
    totalBytes (entries.filter fun entry => entry.inUse && entry.isExpired nowMs) := by
  induction entries with
  | nil => rfl
  | cons =>
    rw [totalBytes_cons, map_cons, totalBytes_cons, filter_cons]
    split
    case isTrue =>
      have hempty : ReassemblyEntry.bytesHeld {} = 0 := rfl
      rw [totalBytes_cons]
      omega
    case isFalse => omega

theorem wellFormed_purge (h : r.WellFormed) : (r.purge nowMs).1.WellFormed := by
  have htidy : ∀ entries : List ReassemblyEntry, Tidy entries → Tidy (entries.map fun entry =>
      if entry.inUse && entry.isExpired nowMs then {} else entry) := by
    intro entries htidy
    refine ⟨fun entry hentry hout => ?_, pairwise_map.2 (htidy.unique.imp fun {a b} hne ha hb => ?_)⟩
    · obtain ⟨e, he, rfl⟩ := mem_map.1 hentry
      split at hout
      case isTrue hexpired =>
        rw [if_pos hexpired]
        exact blank_fresh _
      case isFalse hlive =>
        rw [if_neg hlive]
        exact htidy.unused e he hout
    · split at ha
      case isTrue => exact absurd ha Bool.false_ne_true
      case isFalse hlive =>
        split at hb
        case isTrue => exact absurd hb Bool.false_ne_true
        case isFalse hlive' =>
          rw [if_neg hlive, if_neg hlive']
          exact hne ha hb
  refine ⟨htidy _ h.tidy, ?_⟩
  have hsum := totalBytes_purge nowMs r.entries
  have hcount := h.bytes
  rw [totalBytes.eq_def (r.entries.filter _)] at hsum
  rw [purge]
  dsimp only
  omega

end Purge

theorem wellFormed_new (maxEntries maxTotalBytes : ℕ) :
    (new maxEntries maxTotalBytes).WellFormed where
  tidy := ⟨fun _ h => absurd h not_mem_nil, .nil⟩
  bytes := rfl

end FragmentReassembler

end Netstack2
