import Netstack2.Ip.Fragment.Reassembly

/-!
# The memory of the reassembler

The bytes of the entries are counted by differences, where a buffer grows, is handed out or
dropped. A buffer may also fail to grow: the fragment is then refused, and of a first one
only the deadline is left (`FragmentReassembler.attempt`).

After any calls, the count is that of the entries, and within the limits (`Accounted`).
A call that is refused adds nothing, and drops only what has expired (`Refused`).
Together: `reassembly_memory_accounted`.
-/

namespace Netstack2

/-- A call of the reassembler, with pointers and memory as they are found. -/
inductive FragmentAttempt
  /-- An address or the payload is missing. -/
  | null (nowMs : ℕ)
  | add (source : FragmentSource) (args : FragmentArgs) (allocationFails : Bool)
  | purge (nowMs : ℕ)

def FragmentAttempt.nowMs : FragmentAttempt → ℕ
  | null nowMs | purge nowMs => nowMs
  | add _ args _ => args.nowMs

namespace FragmentReassembler

variable (r : FragmentReassembler)

def attempt : FragmentAttempt → FragmentReassembler × FragmentAddResult
  | .null _ => (r, { error := some .nullData })
  | .purge nowMs => r.call (.purge nowMs)
  | .add source args allocationFails =>
    match r.findOrCreate source.key args.nowMs with
    | none => r.call (.add source args)
    | some (found, i) =>
      let entry := found.entries.getD i {}
      -- the fragment passes all checks, and the buffer is to grow for it
      if allocationFails ∧ (r.call (.add source args)).2.error = none ∧
          entry.bytesHeld < args.fragment.stop then
        let deadlineMs := if entry.pieces = [] then
          ReassemblyEntry.deadline args.nowMs args.expiresMs else entry.deadlineMs
        ({ found with entries := found.entries.set i { entry with deadlineMs := deadlineMs } },
          { error := some .invalidFragment })
      else r.call (.add source args)

def attempts (calls : List FragmentAttempt) : FragmentReassembler :=
  calls.foldl (fun r call => (r.attempt call).1) r

/-! ## The limits -/

/-- The table is within the limits of `start`. -/
structure WithinLimits (start r : FragmentReassembler) : Prop where
  maxEntries : r.maxEntries = start.maxEntries
  maxTotalBytes : r.maxTotalBytes = start.maxTotalBytes
  size : r.entries.length ≤ start.maxEntries
  room : r.currentBytes ≤ start.maxTotalBytes

variable {r} {start found : FragmentReassembler} {key : FragmentKey} {nowMs i : ℕ}

theorem WithinLimits.findOrCreate (h : WithinLimits start r)
    (hfound : r.findOrCreate key nowMs = some (found, i)) : WithinLimits start found := by
  have hreclaim : ∀ j, WithinLimits start (r.reclaim j key) := fun j =>
    ⟨h.maxEntries, h.maxTotalBytes, by simpa [reclaim] using h.size,
      (Nat.sub_le ..).trans h.room⟩
  rw [FragmentReassembler.findOrCreate] at hfound
  split at hfound
  · split at hfound
    · cases hfound
      exact hreclaim _
    · cases hfound
      exact h
  · split at hfound
    · dsimp only at hfound
      split at hfound
      · cases hfound
        exact hreclaim _
      · cases hfound
        exact ⟨h.maxEntries, h.maxTotalBytes, by simpa using h.size, h.room⟩
    · obtain ⟨hroom, hfound⟩ := Option.ite_none_right_eq_some.1 hfound
      cases hfound
      refine ⟨h.maxEntries, h.maxTotalBytes, ?_, h.room⟩
      rw [List.length_append, ← h.maxEntries]
      exact hroom

/-- The buffer of an entry grows by no more than there is room for. -/
theorem bytesHeld_addFragment_le {entry entry' : ReassemblyEntry} {fragment : Fragment}
    {expiresMs limit budget : ℕ} {ecn : UInt8} {result : FragmentAddResult}
    (hadd : entry.addFragment fragment.offset fragment.data fragment.more nowMs expiresMs limit
      budget ecn = (entry', result)) (herror : result.error = none) :
    entry'.bytesHeld ≤ entry.bytesHeld + budget := by
  by_cases hready : entry.Ready fragment limit
  · rw [ReassemblyEntry.addFragment_of_ready hready] at hadd
    split at hadd
    case isTrue =>
      obtain ⟨rfl, rfl⟩ := Prod.mk.inj hadd
      cases herror
    case isFalse hroom =>
      have hstored := @bytesHeld_store nowMs expiresMs ecn entry fragment
      rw [ReassemblyEntry.finish] at hadd
      split at hadd
      · obtain ⟨rfl, rfl⟩ := Prod.mk.inj hadd
        exact Nat.zero_le _
      · obtain ⟨rfl, rfl⟩ := Prod.mk.inj hadd
        omega
  · obtain ⟨_, _, hrefused, -⟩ := ReassemblyEntry.addFragment_of_not_ready hready
    rw [hrefused] at hadd
    obtain ⟨rfl, rfl⟩ := Prod.mk.inj hadd
    cases herror

theorem WithinLimits.call (h : WithinLimits start r) (call : FragmentCall) :
    WithinLimits start (r.call call).1 := by
  have hset : ∀ {found : FragmentReassembler}, WithinLimits start found → ∀ i new currentBytes,
      currentBytes ≤ start.maxTotalBytes → WithinLimits start
        { found with entries := found.entries.set i new, currentBytes := currentBytes } :=
    fun h i new _ hroom => ⟨h.maxEntries, h.maxTotalBytes, by simpa using h.size, hroom⟩
  cases call with
  | purge =>
    exact ⟨h.maxEntries, h.maxTotalBytes, by simpa [FragmentReassembler.call, purge] using h.size,
      (Nat.sub_le ..).trans h.room⟩
  | add _ args =>
    rw [call_add, addFragment]
    split
    · exact h
    split
    · exact h
    dsimp only
    split
    · exact h
    case h_2 found i hfind =>
      have hfound := h.findOrCreate hfind
      have hroom := hfound.room
      generalize hadd : ReassemblyEntry.addFragment _ _ _ _ _ _ _ _ _ = out
      obtain ⟨entry', result⟩ := out
      split
      · exact hset hfound _ _ _ ((Nat.sub_le ..).trans hroom)
      split
      case isTrue herror =>
        have hgrows := @bytesHeld_addFragment_le _ _ _ args.fragment _ _ _ _ _ hadd herror
        have hmax := hfound.maxTotalBytes
        exact hset hfound _ _ _ (by dsimp only; omega)
      case isFalse => exact hset hfound _ _ _ hroom

/-! ## Calls that are refused -/

/-- What a call at `nowMs` that is refused leaves of the entries: none has got a fragment,
    and those that have not expired are there. -/
structure Refused (nowMs : ℕ) (r r' : FragmentReassembler) : Prop where
  old : ∀ key e', r'.Has key e' →
    ∃ e, r.Has key e ∧ e' = { e with discarded := e'.discarded }
  kept : ∀ key e, r.Has key e → e.isExpired nowMs = false →
    ∃ e', r'.Has key e' ∧ e' = { e with discarded := e'.discarded }

theorem Refused.refl : Refused nowMs r r := ⟨fun _ e h => ⟨e, h, rfl⟩, fun _ e h _ => ⟨e, h, rfl⟩⟩

variable {r' : FragmentReassembler} {entry new : ReassemblyEntry}
  {others : List ReassemblyEntry}

/-- The entry that was found becomes `new`, which has the same fragments. -/
theorem Lookup.refused (h : r.WellFormed) (hlookup : Lookup r key nowMs found i entry others)
    (hentries : r'.entries.Perm (new :: others)) (hunused : new.inUse = entry.inUse)
    (hnew : entry.inUse → new = { entry with discarded := new.discarded }) :
    Refused nowMs r r' := by
  constructor
  · rintro key' e' ⟨hmem, hin, hkey⟩
    rcases List.mem_cons.1 (hentries.mem_iff.1 hmem) with rfl | hother
    · -- an entry in use was in use before
      have hused : entry.inUse := hunused.symm.trans hin
      rcases hlookup.live with ⟨hhas, -⟩ | ⟨hblank, -⟩
      · refine ⟨entry, ⟨hhas.1, hused, ?_⟩, hnew hused⟩
        rw [hnew hused] at hkey
        exact hkey
      · rw [hblank] at hused
        cases hused
    · exact ⟨e', ⟨(hlookup.foreign e' hother).1, hin, hkey⟩, rfl⟩
  · rintro key' e hhas hlive
    by_cases hkey : key' = key
    · subst hkey
      rcases hlookup.live with ⟨hhas', -⟩ | ⟨-, hexpired⟩
      · obtain rfl := hhas.eq h hhas'
        have hsame := hnew hhas.2.1
        refine ⟨new, ⟨hentries.mem_iff.2 List.mem_cons_self, hunused.trans hhas.2.1, ?_⟩, hsame⟩
        rw [hsame]
        exact hhas.2.2
      · rw [hexpired e hhas] at hlive
        cases hlive
    · obtain ⟨hmem, hin, rfl⟩ := hhas
      have hother := hlookup.kept e hmem hin hkey hlive
      exact ⟨e, ⟨hentries.mem_iff.2 (List.mem_cons_of_mem _ hother), hin, rfl⟩, rfl⟩

theorem call_refused (h : r.WellFormed) (source : FragmentSource) (args : FragmentArgs)
    (herror : (r.call (.add source args)).2.error ≠ none) :
    Refused args.nowMs r (r.call (.add source args)).1 := by
  cases hcall : r.call (.add source args) with
  | mk =>
  rw [hcall] at herror
  rcases call_add_spec h hcall with ⟨rfl, -⟩ | ⟨found, entry, entry', others, hadded⟩
  · exact .refl
  · obtain ⟨_, -, hlookup⟩ := hadded.lookup
    obtain ⟨_, hadd⟩ := hadded.added
    have hentries := hadded.entries
    cases ReassemblyEntry.addFragment_gives hadd with
    | refused => exact hlookup.refused h hentries rfl fun _ => rfl
    | kept | whole => exact absurd rfl herror

/-! ## All calls -/

/-- The bytes are counted, and the table is within the limits of `start`. -/
structure Accounted (start r : FragmentReassembler) : Prop where
  wellFormed : r.WellFormed
  limits : WithinLimits start r

/-- A call is made as it is, or its fragment is refused because the buffer cannot grow. -/
theorem attempt_spec (h : Accounted start r) (call : FragmentAttempt) :
    Accounted start (r.attempt call).1 ∧ ((r.attempt call).2.error ≠ none →
      Refused call.nowMs r (r.attempt call).1) := by
  cases call with
  | null => exact ⟨h, fun _ => .refl⟩
  | purge => exact ⟨⟨wellFormed_call h.wellFormed _, h.limits.call _⟩, absurd rfl⟩
  | add source args =>
    have hcall := And.intro
      (Accounted.mk (wellFormed_call h.wellFormed (.add source args)) (h.limits.call _))
      (call_refused h.wellFormed source args)
    rw [attempt]
    split
    · exact hcall
    case h_2 found i hfind =>
      obtain ⟨entry, _, hlookup⟩ := findOrCreate_spec h.wellFormed hfind
      have hlimits := h.limits.findOrCreate hfind
      dsimp only
      rw [hlookup.get]
      split
      case isTrue =>
        generalize hdeadline : (if entry.pieces = [] then _ else _) = deadlineMs
        refine ⟨⟨hlookup.wellFormed (fun hout => ?_) (fun _ => ?_) rfl rfl, hlimits.maxEntries,
          hlimits.maxTotalBytes, by simpa using hlimits.size, hlimits.room⟩, fun _ =>
            hlookup.refused h.wellFormed (hlookup.set _) rfl fun hin => ?_⟩
        · -- the deadline may be that of the fragment
          rw [hlookup.blank hout]
          rfl
        · exact hlookup.keyed
        · have hpieces : entry.pieces ≠ [] := by simpa [ReassemblyEntry.inUse] using hin
          rw [← hdeadline, if_neg hpieces]
      case isFalse => exact hcall

theorem Accounted.attempts (h : Accounted start r) (calls : List FragmentAttempt) :
    Accounted start (r.attempts calls) := by
  induction calls generalizing r with
  | nil => exact h
  | cons call _ ih => exact ih (attempt_spec h call).1

theorem accounted_new (maxEntries maxTotalBytes : ℕ) :
    Accounted (.new maxEntries maxTotalBytes) (.new maxEntries maxTotalBytes) :=
  ⟨wellFormed_new .., rfl, rfl, Nat.zero_le _, Nat.zero_le _⟩

end FragmentReassembler

open FragmentReassembler

/-- After any calls, the bytes held are counted, and within the limits. No subtraction from
    the count wraps: of an entry that is reset, of the one that was found when its datagram is
    handed out, of those that are purged. Entries in use have different keys. A call that is
    refused adds no fragment, and leaves what is held for entries that have not expired. -/
theorem reassembly_memory_accounted (maxEntries maxTotalBytes : ℕ) (calls : List FragmentAttempt) :
    let start := FragmentReassembler.new maxEntries maxTotalBytes
    let r := start.attempts calls
    r.currentBytes = totalBytes r.entries ∧
      r.currentBytes ≤ start.maxTotalBytes ∧
      r.entries.length ≤ start.maxEntries ∧
      (∀ i, (r.entries.getD i {}).bytesHeld ≤ r.currentBytes) ∧
      (∀ key nowMs found i, r.findOrCreate key nowMs = some (found, i) →
        (found.entries.getD i {}).bytesHeld ≤ found.currentBytes) ∧
      (∀ nowMs, totalBytes (r.entries.filter fun entry =>
        entry.inUse && entry.isExpired nowMs) ≤ r.currentBytes) ∧
      (r.entries.Pairwise fun a b => a.inUse = true → b.inUse = true → a.key ≠ b.key) ∧
      ∀ call, (r.attempt call).2.error ≠ none →
        Refused call.nowMs r (r.attempt call).1 := by
  intro start r
  have h : Accounted start r := (accounted_new ..).attempts calls
  have hbytes := h.wellFormed.bytes
  refine ⟨hbytes, h.limits.room, h.limits.size, h.wellFormed.bytesHeld_le, ?_, fun nowMs => ?_,
    h.wellFormed.tidy.unique, fun call => (attempt_spec h call).2⟩
  · intro key nowMs found i hfind
    obtain ⟨_, _, hlookup⟩ := findOrCreate_spec h.wellFormed hfind
    rw [hlookup.get, hlookup.bytes]
    exact Nat.le_add_right ..
  · rw [hbytes, totalBytes_purge nowMs r.entries]
    exact Nat.le_add_left ..

end Netstack2
