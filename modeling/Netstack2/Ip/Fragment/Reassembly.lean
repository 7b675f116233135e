import Netstack2.Ip.Fragment.Table

/-!
# Reassembly is exact

Calls of the reassembler, for any datagrams, in any order, together with a log of the fragments that
were accepted for each datagram since its entry was last reset.

* What is handed out is made of the fragments in the log: they tile the datagram without gap or
  overlap (`ReassemblyLog.Faithful.isDatagram`).
* The fragments of a datagram are put together in any order, with calls for other datagrams in
  between, if they come before the deadline and there is room for them (`completes_of_datagram`).

Both are stated by `reassembly_exact`.
-/

namespace Netstack2

open List hiding Vector

/-! ## Calls -/

/-- What a call says of its fragment. -/
structure FragmentArgs where
  fragmentOffset : UInt16
  moreFragments : Bool
  payload : Bytes
  nowMs : ℕ
  expiresMs : ℕ := 0
  maxPayloadBytes : ℕ := 0
  ecn : UInt8 := 0
  deriving DecidableEq

def FragmentArgs.fragment (args : FragmentArgs) : Fragment :=
  ⟨args.fragmentOffset.toNat * 8, args.payload, args.moreFragments⟩

/-- What a call says of the datagram. -/
inductive FragmentSource
  | ipv4 (srcIp dstIp : Vector UInt8 4) (protocol : UInt8) (identification : UInt16)
  | ipv6 (srcIp dstIp : Vector UInt8 16) (identification : UInt32) (protocol : UInt8)
  deriving DecidableEq

namespace FragmentSource

def key : FragmentSource → FragmentKey
  | ipv4 srcIp dstIp protocol identification => {
      srcIp := ipv4Mapped srcIp
      dstIp := ipv4Mapped dstIp
      ipVersion := 4
      protocol := protocol
      identification := identification.toUInt32 }
  | ipv6 srcIp dstIp identification protocol => {
      srcIp := srcIp
      dstIp := dstIp
      ipVersion := 6
      protocol := protocol
      identification := identification }

def hardPayloadLimit : FragmentSource → ℕ
  | ipv4 .. => maxIpv4FragmentPayloadBytes
  | ipv6 .. => maxFragmentPayloadBytes

end FragmentSource

inductive FragmentCall
  | add (source : FragmentSource) (args : FragmentArgs)
  | purge (nowMs : ℕ)

def FragmentCall.nowMs : FragmentCall → ℕ
  | add _ args => args.nowMs
  | purge nowMs => nowMs

namespace FragmentReassembler

variable (r : FragmentReassembler)

def call : FragmentCall → FragmentReassembler × FragmentAddResult
  | .add (.ipv4 srcIp dstIp protocol identification) args =>
    r.addIpv4Fragment srcIp dstIp protocol identification args.fragmentOffset
      args.moreFragments args.payload args.nowMs args.expiresMs args.maxPayloadBytes args.ecn
  | .add (.ipv6 srcIp dstIp identification protocol) args =>
    r.addIpv6Fragment srcIp dstIp identification args.fragmentOffset args.moreFragments
      args.payload args.nowMs args.expiresMs args.maxPayloadBytes protocol args.ecn
  | .purge nowMs => ((r.purge nowMs).1, {})

theorem call_add (source : FragmentSource) (args : FragmentArgs) :
    r.call (.add source args) = r.addFragment source.hardPayloadLimit source.key
      args.fragmentOffset args.moreFragments args.payload args.nowMs args.expiresMs
      args.maxPayloadBytes args.ecn := by
  cases source <;> rfl

/-- There is an entry in use for the datagram. -/
def isUsed (key : FragmentKey) : Bool := r.entries.any fun entry => entry.inUse && entry.key == key

/-- The table with the entry of the call looked up. Entries whose time has passed may have
    been reset for that. -/
def afterLookup : FragmentCall → FragmentReassembler
  | .add source args =>
    if args.payload = [] ∨ args.payload.length > 0xffffffff then r
    else ((r.findOrCreate source.key args.nowMs).map Prod.fst).getD r
  | .purge nowMs => (r.purge nowMs).1

variable {r}

theorem isUsed_iff {key : FragmentKey} : r.isUsed key ↔ ∃ entry, r.Has key entry := by
  rw [isUsed, any_eq_true]
  refine exists_congr fun entry => and_congr_right fun _ => ?_
  rw [Bool.and_eq_true, beq_iff_eq]

/-- A call is refused before an entry is found, or its fragment is given to the entry. -/
theorem call_add_spec (h : r.WellFormed) {source : FragmentSource} {args : FragmentArgs}
    {r' : FragmentReassembler} {result : FragmentAddResult}
    (hcall : r.call (.add source args) = (r', result)) :
    (r' = r ∧ result.complete = false ∧ result.error ≠ none ∧
      (args.payload = [] ∨ args.payload.length > 0xffffffff ∨
        r.findOrCreate source.key args.nowMs = none ∧
          result.error = some .tooManyEntries)) ∨
    ∃ found entry entry' others, Added r
      (payloadLimit source.hardPayloadLimit args.maxPayloadBytes) source.key args.fragment args.nowMs
      args.expiresMs args.ecn found entry entry' others r' result := by
  rw [call_add] at hcall
  exact addFragment_spec h hcall

theorem wellFormed_call (h : r.WellFormed) (call : FragmentCall) : (r.call call).1.WellFormed := by
  cases call with
  | purge => exact wellFormed_purge h
  | add source args =>
    cases hcall : r.call (.add source args) with
    | mk =>
    rcases call_add_spec h hcall with ⟨rfl, -⟩ | ⟨_, _, _, _, hadded⟩
    · exact h
    · exact hadded.wellFormed

end FragmentReassembler

/-! ## The log -/

/-- A reassembler, with the fragments that were accepted for each datagram since its entry
    was last reset. -/
structure ReassemblyLog where
  reassembler : FragmentReassembler
  accepted : FragmentKey → List Fragment

namespace ReassemblyLog

def new (maxEntries maxTotalBytes : ℕ) : ReassemblyLog where
  reassembler := .new maxEntries maxTotalBytes
  accepted := fun _ => []

variable (log : ReassemblyLog)

/-- The accepted fragments of a datagram, unless the lookup of the call reset its entry. -/
def kept (call : FragmentCall) (key : FragmentKey) : List Fragment :=
  if (log.reassembler.afterLookup call).isUsed key then log.accepted key else []

/-- The log after a call with this result. -/
def record (call : FragmentCall) (result : FragmentAddResult) (key : FragmentKey) : List Fragment :=
  match call with
  | .purge _ => log.kept call key
  | .add source args =>
    if source.key = key ∧ result.error = none then
      if result.complete then [] else log.kept call key ++ [args.fragment]
    else log.kept call key

def step (call : FragmentCall) : ReassemblyLog where
  reassembler := (log.reassembler.call call).1
  accepted := log.record call (log.reassembler.call call).2

/-- A log after some calls. -/
def run (calls : List FragmentCall) : ReassemblyLog := calls.foldl step log

/-- Every entry in use holds the fragments of the log. -/
structure Faithful : Prop where
  wellFormed : log.reassembler.WellFormed
  holds : ∀ key entry, log.reassembler.Has key entry → entry.Holds (log.accepted key)

variable {log} {source : FragmentSource} {args : FragmentArgs}

open FragmentReassembler

/-- The entry that was found holds what is kept in the log. -/
theorem Faithful.holds_found (h : log.Faithful) {limit : ℕ} {found r' : FragmentReassembler}
    {entry entry' : ReassemblyEntry} {others : List ReassemblyEntry} {result : FragmentAddResult}
    (hadded : Added log.reassembler limit source.key args.fragment args.nowMs args.expiresMs args.ecn
      found entry entry' others r' result) :
    log.reassembler.afterLookup (.add source args) = found ∧
      entry.Holds (log.kept (.add source args) source.key) := by
  obtain ⟨_, hfind, hlookup⟩ := hadded.lookup
  have hafter : log.reassembler.afterLookup (.add source args) = found := by
    have hlooked : ¬(args.payload = [] ∨ args.payload.length > 0xffffffff) :=
      not_or.2 ⟨hadded.nonempty, hadded.representable⟩
    rw [afterLookup, if_neg hlooked, hfind]
    rfl
  refine ⟨hafter, ?_⟩
  rw [kept, hafter]
  rcases hlookup.live with ⟨hhas, -⟩ | ⟨hblank, -⟩
  · have hused : found.isUsed source.key := isUsed_iff.2
      ⟨entry, hlookup.perm.mem_iff.2 mem_cons_self, hhas.2.1, hhas.2.2⟩
    rw [if_pos hused]
    exact h.holds _ _ hhas
  · have hunused : ¬found.isUsed source.key := by
      rw [isUsed_iff]
      rintro ⟨e, hmem, hin, hkey⟩
      rcases mem_cons.1 (hlookup.perm.mem_iff.1 hmem) with rfl | hother
      · rw [hblank] at hin
        cases hin
      · exact (hlookup.foreign e hother).2 hin hkey
    rw [if_neg hunused, hblank]
    exact .fresh source.key entry.deadlineMs

/-- What is handed out is made of the fragments that were accepted since the last reset. -/
theorem Faithful.isDatagram (h : log.Faithful)
    (hcomplete : (log.reassembler.call (.add source args)).2.complete) :
    ReassemblyEntry.IsDatagram (log.kept (.add source args) source.key ++ [args.fragment])
      (log.reassembler.call (.add source args)).2 := by
  cases hcall : log.reassembler.call (.add source args) with
  | mk =>
  rw [hcall] at hcomplete
  rcases call_add_spec h.wellFormed hcall with ⟨-, hfalse, -⟩ | ⟨_, _, _, _, hadded⟩
  · simp [hfalse] at hcomplete
  · obtain ⟨_, hadd⟩ := hadded.added
    exact ((h.holds_found hadded).2.addFragment hadd).2.2 hcomplete

theorem Faithful.step (h : log.Faithful) (call : FragmentCall) : (log.step call).Faithful := by
  refine ⟨wellFormed_call h.wellFormed call, fun key e he => ?_⟩
  cases call with
  | purge nowMs =>
    -- the entries that stay are as they were
    have hused : ((log.reassembler.purge nowMs).1).isUsed key := isUsed_iff.2 ⟨e, he⟩
    change e.Holds (log.kept (.purge nowMs) key)
    rw [kept, afterLookup, if_pos hused]
    exact h.holds key e (has_purge_iff.1 he).1
  | add source args =>
    change e.Holds (log.record (.add source args) (log.reassembler.call (.add source args)).2 key)
    change ((log.reassembler.call (.add source args)).1).Has key e at he
    cases hcall : log.reassembler.call (.add source args) with
    | mk r' result =>
    rw [hcall] at he
    rw [record]
    rcases call_add_spec h.wellFormed hcall with
      ⟨rfl, -, herror, hnolookup⟩ | ⟨found, entry, entry', others, hadded⟩
    · -- nothing was looked up, or no entry was found
      have hafter : log.reassembler.afterLookup (.add source args) = log.reassembler := by
        rw [afterLookup]
        rcases hnolookup with hempty | hlong | ⟨hnone, -⟩
        · rw [if_pos (.inl hempty)]
        · rw [if_pos (.inr hlong)]
        · rw [hnone]
          exact ite_self _
      have hused : log.reassembler.isUsed key := isUsed_iff.2 ⟨e, he⟩
      rw [if_neg fun hboth => herror hboth.2, kept, hafter, if_pos hused]
      exact h.holds key e he
    · obtain ⟨hafter, hholds⟩ := h.holds_found hadded
      by_cases hkey : source.key = key
      · -- the entry of the call
        subst hkey
        obtain ⟨hincomplete, rfl⟩ := hadded.has_self he
        obtain ⟨_, hadd⟩ := hadded.added
        obtain ⟨hrefused, haccepted, -⟩ := hholds.addFragment hadd
        by_cases herror : result.error = none
        · rw [if_pos ⟨rfl, herror⟩, hincomplete, if_neg Bool.false_ne_true]
          exact haccepted herror hincomplete
        · rw [if_neg fun hboth => herror hboth.2]
          exact hrefused herror
      · -- another entry
        obtain ⟨hhas, hfound⟩ := hadded.has_of_ne (Ne.symm hkey) he
        have hused : found.isUsed key := isUsed_iff.2 ⟨e, hfound⟩
        rw [if_neg fun hboth => hkey hboth.1, kept, hafter, if_pos hused]
        exact h.holds key e hhas

theorem faithful_new (maxEntries maxTotalBytes : ℕ) : (new maxEntries maxTotalBytes).Faithful where
  wellFormed := wellFormed_new ..
  holds := fun _ _ he => absurd he.1 not_mem_nil

theorem Faithful.run (h : log.Faithful) (calls : List FragmentCall) : (log.run calls).Faithful := by
  induction calls generalizing log with
  | nil => exact h
  | cons call _ ih => exact ih (h.step call)

end ReassemblyLog

/-! ## The fragments of one datagram -/

/-- A call for a datagram, and its answer. -/
structure FragmentAnswer where
  source : FragmentSource
  args : FragmentArgs
  result : FragmentAddResult

/-- The limit for the datagram. -/
def FragmentAnswer.limit (answer : FragmentAnswer) : ℕ :=
  FragmentReassembler.payloadLimit answer.source.hardPayloadLimit answer.args.maxPayloadBytes

namespace FragmentReassembler

variable {source : FragmentSource} {args : FragmentArgs} {entry : ReassemblyEntry}
  {calls : List FragmentCall}

/-- The calls for the datagram `key` in a run, with their answers. -/
def answers (key : FragmentKey) : FragmentReassembler → List FragmentCall → List FragmentAnswer
  | _, [] => []
  | r, .purge nowMs :: calls => answers key (r.purge nowMs).1 calls
  | r, .add source args :: calls =>
    let (r', result) := r.call (.add source args)
    if source.key = key then ⟨source, args, result⟩ :: answers key r' calls
    else answers key r' calls

variable {r : FragmentReassembler} {key : FragmentKey} {pieces : List Bytes}
  {done remaining : List Fragment}

theorem payloadLimit_le (source : FragmentSource) (maxPayloadBytes : ℕ) :
    payloadLimit source.hardPayloadLimit maxPayloadBytes ≤ 65535 := by
  have hhard : source.hardPayloadLimit ≤ 65535 := by
    cases source with
    | ipv4 => exact (by decide : 65515 ≤ 65535)
    | ipv6 => exact le_refl _
  rw [payloadLimit]
  split <;> omega

theorem Has.eq (h : r.WellFormed) {e e' : ReassemblyEntry} (he : r.Has key e)
    (he' : r.Has key e') : e = e' := by
  have hsymm : Std.Symm fun a b : ReassemblyEntry =>
    a.inUse = true → b.inUse = true → a.key ≠ b.key := ⟨fun _ _ hab hb ha => (hab ha hb).symm⟩
  by_contra hne
  exact h.tidy.unique.forall he.1 he'.1 hne he.2.1 he'.2.1
    (he.2.2.trans he'.2.2.symm)

/-- The entry that a fragment of the datagram will be given to: the one there is, or a new one. -/
def Next (r : FragmentReassembler) (key : FragmentKey) (nowMs : ℕ)
    (entry : ReassemblyEntry) : Prop :=
  (r.Has key entry ∧ entry.isExpired nowMs = false) ∨
    (Blank key entry ∧ r.isUsed key = false)

/-- A fragment of the datagram is accepted, if there is room for it. -/
theorem call_datagram (h : r.WellFormed) (hcut : IsCutting pieces)
    (hnext : r.Next source.key args.nowMs entry) (hholds : entry.Holds done)
    (hkept : entry.discarded = false)
    (hperm : (done ++ args.fragment :: remaining).Perm (fragmentsFrom 0 pieces))
    (hlimit : pieces.flatten.length ≤ payloadLimit source.hardPayloadLimit args.maxPayloadBytes)
    {r' : FragmentReassembler} {result : FragmentAddResult}
    (hcall : r.call (.add source args) = (r', result))
    (hentries : result.error ≠ some .tooManyEntries)
    (hroom : result.error ≠ some .byteBudgetExceeded) :
    (remaining = [] → result.complete ∧ result.payload = pieces.flatten) ∧
      (remaining ≠ [] → result.complete = false ∧ r'.Has source.key
          (entry.store args.fragment.offset args.fragment.data args.fragment.more args.nowMs
            args.expiresMs args.ecn) ∧
        (entry.store args.fragment.offset args.fragment.data args.fragment.more args.nowMs
            args.expiresMs args.ecn).Holds (done ++ [args.fragment])) := by
  have hmax := payloadLimit_le source args.maxPayloadBytes
  have hready := ready_of_datagram hcut hlimit (by omega) hperm hholds hkept
  rcases call_add_spec h hcall with
    ⟨-, -, -, hempty | hlong | ⟨-, hmany⟩⟩ | ⟨found, entry₀, entry', others, hadded⟩
  · exact absurd hempty hready.nonempty
  · have hstop : args.fragment.stop = args.fragment.offset + args.payload.length := rfl
    have := hready.representable
    omega
  · exact absurd hmany hentries
  · obtain ⟨i, -, hlookup⟩ := hadded.lookup
    obtain ⟨budget, hadd⟩ := hadded.added
    -- the entry that is found is the one that was expected, up to a deadline it does not use
    have hentry : entry₀.Holds done ∧ entry₀.discarded = false ∧
        entry₀.store args.fragment.offset args.fragment.data args.fragment.more args.nowMs
          args.expiresMs args.ecn = entry.store args.fragment.offset args.fragment.data
            args.fragment.more args.nowMs args.expiresMs args.ecn := by
      rcases hnext with ⟨hhas, hlive⟩ | ⟨hblank, hunused⟩
      · rcases hlookup.live with ⟨hhas₀, -⟩ | ⟨-, hexpired⟩
        · rw [hhas₀.eq h hhas]
          exact ⟨hholds, hkept, rfl⟩
        · simp [hexpired entry hhas] at hlive
      · rcases hlookup.live with ⟨hhas₀, -⟩ | ⟨hfresh, -⟩
        · simp [isUsed_iff.2 ⟨_, hhas₀⟩] at hunused
        · rw [hblank] at hholds ⊢
          rw [hfresh]
          exact ⟨{ hholds with }, rfl, rfl⟩
    obtain ⟨hholds₀, hkept₀, hstore⟩ := hentry
    rw [← hstore]
    obtain ⟨-, hlast, hmore⟩ :=
      addFragment_datagram hcut hlimit (by omega) hperm hholds₀ hkept₀ hadd hroom
    refine ⟨hlast, fun hne => ?_⟩
    obtain ⟨hincomplete, rfl, hstored⟩ := hmore hne
    refine ⟨hincomplete, ⟨?_, inUse_store, hlookup.keyed⟩, hstored⟩
    rw [hadded.entries.mem_iff, hincomplete, if_neg Bool.false_ne_true]
    exact mem_cons_self

/-- Another call does not touch the entry of the datagram before its deadline. -/
theorem has_call_of_ne (h : r.WellFormed) {call : FragmentCall}
    (hhas : r.Has key entry) (hlive : entry.isExpired call.nowMs = false)
    (hother : ∀ source args, call = .add source args → source.key ≠ key) :
    (r.call call).1.Has key entry := by
  cases call with
  | purge => exact has_purge_iff.2 ⟨hhas, hlive⟩
  | add source args =>
    cases hcall : r.call (.add source args) with
    | mk =>
    rcases call_add_spec h hcall with ⟨rfl, -⟩ | ⟨_, _, _, _, hadded⟩
    · exact hhas
    · exact hadded.has_of_live (Ne.symm (hother source args rfl)) hhas hlive

/-- The calls bring the fragments of a datagram that are missing, and there is room for them. -/
structure Brings (key : FragmentKey) (pieces : List Bytes) (done : List Fragment)
    (r : FragmentReassembler) (calls : List FragmentCall) : Prop where
  perm : (done ++ (answers key r calls).map (·.args.fragment)).Perm
    (fragmentsFrom 0 pieces)
  limit : ∀ answer ∈ answers key r calls, pieces.flatten.length ≤ answer.limit
  room : ∀ answer ∈ answers key r calls,
    answer.result.error ≠ some .tooManyEntries ∧ answer.result.error ≠ some .byteBudgetExceeded

/-- The last answer hands out the datagram, and no other one hands out something. -/
def Completes (pieces : List Bytes) (answers : List FragmentAnswer) : Prop :=
  ∃ init last, answers = init ++ [last] ∧ (∀ answer ∈ init, answer.result.complete = false) ∧
    last.result.complete = true ∧ last.result.payload = pieces.flatten

/-- The next fragment of the datagram comes: it is the last one, or the others come later. -/
theorem completes_add (h : r.WellFormed) (hcut : IsCutting pieces)
    (hnext : r.Next source.key args.nowMs entry) (hholds : entry.Holds done)
    (hkept : entry.discarded = false)
    (hbrings : Brings source.key pieces done r (.add source args :: calls))
    (hrest : ∀ r' : FragmentReassembler, r'.WellFormed →
      r'.Has source.key (entry.store args.fragment.offset args.fragment.data
        args.fragment.more args.nowMs args.expiresMs args.ecn) →
      (entry.store args.fragment.offset args.fragment.data args.fragment.more args.nowMs
        args.expiresMs args.ecn).Holds (done ++ [args.fragment]) →
      answers source.key r' calls ≠ [] →
      Brings source.key pieces (done ++ [args.fragment]) r' calls →
      Completes pieces (answers source.key r' calls)) :
    Completes pieces (answers source.key r (.add source args :: calls)) := by
  obtain ⟨hperm, hlimit, hroom⟩ := hbrings
  rw [answers] at hperm hlimit hroom ⊢
  have hwf := wellFormed_call h (.add source args)
  cases hcall : r.call (.add source args) with
  | mk r' result =>
  rw [hcall] at hperm hlimit hroom hwf
  dsimp only at hperm hlimit hroom ⊢
  rw [if_pos rfl] at hperm hlimit hroom ⊢
  obtain ⟨hlimit₁, hlimit⟩ := forall_mem_cons.1 hlimit
  obtain ⟨⟨hentries, hbudget⟩, hroom⟩ := forall_mem_cons.1 hroom
  rw [map_cons] at hperm
  obtain ⟨hlast, hmore⟩ := call_datagram h hcut hnext hholds hkept hperm hlimit₁ hcall hentries hbudget
  by_cases hnil : answers source.key r' calls = []
  · rw [hnil] at hlast ⊢
    exact ⟨[], _, rfl, fun _ hmem => absurd hmem not_mem_nil, hlast rfl⟩
  · obtain ⟨hincomplete, hhas', hholds'⟩ := hmore (mt map_eq_nil_iff.1 hnil)
    rw [append_cons] at hperm
    obtain ⟨init, last, heq, hinit, hcomplete⟩ :=
      hrest r' hwf hhas' hholds' hnil ⟨hperm, hlimit, hroom⟩
    refine ⟨_ :: init, last, by rw [heq]; rfl, ?_, hcomplete⟩
    exact forall_mem_cons.2 ⟨hincomplete, hinit⟩

/-- The rest of the fragments of a datagram, of which some have come. -/
theorem completes_of_rest (h : r.WellFormed) (hcut : IsCutting pieces) {deadlineMs : ℕ}
    (hhas : r.Has key entry) (hholds : entry.Holds done) (hkept : entry.discarded = false)
    (hdeadline : entry.deadlineMs = deadlineMs) (hne : answers key r calls ≠ [])
    (htime : ∀ call ∈ calls, call.nowMs < deadlineMs) (hbrings : Brings key pieces done r calls) :
    Completes pieces (answers key r calls) := by
  induction calls generalizing r entry done with
  | nil => exact absurd rfl hne
  | cons call calls ih =>
    obtain ⟨hnow, hlater⟩ := forall_mem_cons.1 htime
    have hlive : entry.isExpired call.nowMs = false := by
      rw [ReassemblyEntry.isExpired, hdeadline]
      exact decide_eq_false (Nat.not_le.2 hnow)
    cases call with
    | purge nowMs =>
      have hhas' : (r.purge nowMs).1.Has key entry := has_purge_iff.2 ⟨hhas, hlive⟩
      exact ih (wellFormed_purge h) hhas' hholds hkept hdeadline hne hlater
        ⟨hbrings.perm, hbrings.limit, hbrings.room⟩
    | add source args =>
      by_cases hkey : source.key = key
      · subst hkey
        refine completes_add h hcut (.inl ⟨hhas, hlive⟩) hholds hkept hbrings ?_
        intro r' hwf hhas' hholds' hne' hbrings'
        refine ih hwf hhas' hholds' hkept ?_ hne' hlater hbrings'
        -- the deadline is that of the first fragment
        have hpieces := hhas.2.1
        rw [ReassemblyEntry.inUse, Bool.not_eq_true', isEmpty_eq_false_iff] at hpieces
        rw [ReassemblyEntry.store]
        exact (if_neg hpieces).trans hdeadline
      · have hother : ∀ source' args', FragmentCall.add source args = .add source' args' →
            source'.key ≠ key := by
          rintro _ _ ⟨⟩
          exact hkey
        have hrest : answers key r (.add source args :: calls) =
            answers key (r.call (.add source args)).1 calls := by
          rw [answers]
          exact if_neg hkey
        obtain ⟨hperm, hlimit, hroom⟩ := hbrings
        rw [hrest] at hne hperm hlimit hroom ⊢
        exact ih (wellFormed_call h _) (has_call_of_ne h hhas hlive hother) hholds hkept hdeadline hne
          hlater ⟨hperm, hlimit, hroom⟩

/-- The fragments of a datagram, of which the first one is that of the first call. -/
theorem completes_of_datagram (h : r.WellFormed) (hcut : IsCutting pieces)
    (hunused : r.isUsed source.key = false)
    (htime : ∀ call ∈ calls, call.nowMs < ReassemblyEntry.deadline args.nowMs args.expiresMs)
    (hbrings : Brings source.key pieces [] r (.add source args :: calls)) :
    Completes pieces (answers source.key r (.add source args :: calls)) := by
  refine completes_add h hcut (.inr ⟨blank_fresh _, hunused⟩) (.fresh source.key 0) rfl hbrings ?_
  intro r' hwf hhas' hholds' hne' hbrings'
  exact completes_of_rest hwf hcut hhas' hholds' rfl rfl hne' htime hbrings'

end FragmentReassembler

open FragmentReassembler

/-- After any calls, what is handed out is made of fragments that were accepted for its
    datagram since the last reset; and the fragments of a datagram are put together, in
    whatever order they come. -/
theorem reassembly_exact {maxEntries maxTotalBytes : ℕ} {before : List FragmentCall}
    {log : ReassemblyLog} (hlog : (ReassemblyLog.new maxEntries maxTotalBytes).run before = log) :
    (∀ source args, (log.reassembler.call (.add source args)).2.complete = true →
      ReassemblyEntry.IsDatagram (log.kept (.add source args) source.key ++ [args.fragment])
        (log.reassembler.call (.add source args)).2) ∧
    ∀ pieces source args calls, IsCutting pieces → log.reassembler.isUsed source.key = false →
      ((answers source.key log.reassembler (.add source args :: calls)).map
        (·.args.fragment)).Perm (fragmentsFrom 0 pieces) →
      (∀ answer ∈ answers source.key log.reassembler (.add source args :: calls),
        pieces.flatten.length ≤ answer.limit) →
      (∀ call ∈ calls, call.nowMs < ReassemblyEntry.deadline args.nowMs args.expiresMs) →
      (∀ answer ∈ answers source.key log.reassembler (.add source args :: calls),
        answer.result.error ≠ some .tooManyEntries ∧
          answer.result.error ≠ some .byteBudgetExceeded) →
      ∃ init last, answers source.key log.reassembler (.add source args :: calls) = init ++ [last] ∧
        (∀ answer ∈ init, answer.result.complete = false) ∧ last.result.complete = true ∧
        last.result.payload = pieces.flatten := by
  have h := (ReassemblyLog.faithful_new maxEntries maxTotalBytes).run before
  rw [hlog] at h
  refine ⟨fun source args => h.isDatagram, ?_⟩
  intro pieces source args calls hcut hunused hperm hlimit htime hroom
  exact completes_of_datagram h.wellFormed hcut hunused htime ⟨hperm, hlimit, hroom⟩

/-- Two fragments in the other order, with one of another datagram in between. -/
theorem reassembly_exact_two : ∃ init last,
    answers (FragmentSource.key (.ipv4 (.replicate 4 1) (.replicate 4 2) 17 7))
      (ReassemblyLog.new 4 0).reassembler [ .add (.ipv4 (.replicate 4 1) (.replicate 4 2) 17 7)
          { fragmentOffset := 1, moreFragments := false, payload := [9], nowMs := 0 },
        .add (.ipv4 (.replicate 4 1) (.replicate 4 2) 17 8)
          { fragmentOffset := 0, moreFragments := false, payload := [0], nowMs := 1 },
        .add (.ipv4 (.replicate 4 1) (.replicate 4 2) 17 7)
          { fragmentOffset := 0, moreFragments := true, payload := [1, 2, 3, 4, 5, 6, 7, 8],
            nowMs := 2 }] = init ++ [last] ∧
      (∀ answer ∈ init, answer.result.complete = false) ∧ last.result.complete = true ∧
      last.result.payload = [1, 2, 3, 4, 5, 6, 7, 8, 9] :=
  (@reassembly_exact 4 0 [] _ rfl).2 [[1, 2, 3, 4, 5, 6, 7, 8], [9]]
    (.ipv4 (.replicate 4 1) (.replicate 4 2) 17 7) _ _
    ⟨by decide, by decide, by decide, by decide⟩ rfl (by decide) (by decide) (by decide) (by decide)

end Netstack2
