import Netstack2.Tcp.Engine.Confine

/-!
# The books of the engine

An engine counts its connections by hand: those that are half open, and the memory of
their receive buffers. The counters and the entries of the connections are its `Ledger`.
What every change of a call enters in it is said once (`Posting`, `Change.posting`), and
whether the books are in order is a question about postings only.

* In every run, flows and identifiers are distinct, the table and the memory keep their
  limits, the memory is that of the receive buffers, and there are no more connections in
  TIME-WAIT than there may be (`table_books`): the oldest one is removed in time, as long
  as its deadline is a time that can be compared.
* The counter of half-open connections is right as long as no send buffer fails to be
  allocated (`halfOpenCount_eq`). If one does, the connection counts as established
  already, and the counter is one too large from then on (`halfOpenCount_leaks`).
-/

namespace Netstack2

open List TcpHandshakeEngine

variable {κ : Type}

/-! ## Postings -/

/-- The entries of the connections, and the counters. -/
structure Ledger where
  entries : List Entry
  halfOpen : ℕ
  memory : ℕ

namespace Ledger

/-- How many connections are in TIME-WAIT. -/
def waiting (l : Ledger) : ℕ := l.entries.countP (·.deadline.isSome)

/-- What a call enters in the books of an engine. -/
inductive Posting (c : EngineCall κ) (l : Ledger) : Ledger → Prop
  | same : Posting c l l
  | removed {entries : List Entry} (a : Entry) (h : (a :: entries).Perm l.entries) :
      Posting c l ⟨entries, l.halfOpen - a.halfOpen.toNat, l.memory - a.memory⟩
  | opened (hroom : l.entries.length < c.config.pcbLimit) :
      Posting c l ⟨l.entries ++ [⟨true, none, 0⟩], l.halfOpen + 1, l.memory⟩
  | established {entries : List Entry} (a : Entry) (memory : ℕ) (ha : a.halfOpen = true)
      (h : (a :: entries).Perm (⟨false, none, memory⟩ :: l.entries))
      (hbudget : l.memory + memory ≤ c.config.receiveMemoryBudget) :
      Posting c l ⟨entries, l.halfOpen - 1, l.memory + memory⟩
  /-- A connection is removed that counts as established, though it is not. -/
  | leaked {entries : List Entry} (a : Entry) (ha : a.halfOpen = true)
      (h : (a :: entries).Perm l.entries) (hfails : c.env.sendFails = true) :
      Posting c l ⟨entries, l.halfOpen, l.memory⟩
  /-- A connection enters TIME-WAIT; there is room, or no deadline can be compared. -/
  | waited {entries : List Entry} (a : Entry) {segment : TcpSegmentView} {nowMs : ℕ}
      (hop : c.op = .onSegment segment nowMs) (ha : a.halfOpen = false)
      (h : (a :: entries).Perm
        (⟨false, some (saturatingAdd nowMs c.config.timewaitMs), a.memory⟩ :: l.entries))
      (hroom : c.config.maxTimewaitEntries ≤ l.waiting →
        ∀ b ∈ l.entries, ∀ deadline ∈ b.deadline, maxUint64 ≤ deadline) :
      Posting c l ⟨entries, l.halfOpen, l.memory⟩
  /-- The connection `b` leaves TIME-WAIT for another one. -/
  | relieved {entries : List Entry} (a b : Entry) {segment : TcpSegmentView} {nowMs : ℕ}
      (hop : c.op = .onSegment segment nowMs) (ha : a.halfOpen = false)
      (hb : b.halfOpen = false) (hwaits : b.deadline.isSome = true)
      (h : (b :: a :: entries).Perm
        (⟨false, some (saturatingAdd nowMs c.config.timewaitMs), a.memory⟩ :: l.entries)) :
      Posting c l ⟨entries, l.halfOpen, l.memory - b.memory⟩

/-! ## Books in order -/

variable {c : EngineCall κ} {l l' : Ledger}

theorem sum_of_perm {as bs : List Entry} (h : as.Perm bs) :
    (as.map Entry.memory).sum = (bs.map Entry.memory).sum := (h.map Entry.memory).sum_eq

/-- The table and the memory keep their limits, and the memory is that of the entries. A
    connection that is half open has none. -/
structure Balanced (config : TcpHandshakeConfig) (l : Ledger) : Prop where
  room : l.entries.length ≤ config.pcbLimit
  fresh : ∀ a ∈ l.entries, a.halfOpen = true → a.memory = 0
  memory : l.memory = (l.entries.map Entry.memory).sum
  budget : l.memory ≤ config.receiveMemoryBudget

/-- With one more entry that is not half open. -/
theorem Balanced.fresh_of_subset {config : TcpHandshakeConfig} (h : Balanced config l)
    {entries : List Entry} {a : Entry} (hsub : entries ⊆ a :: l.entries)
    (ha : a.halfOpen = false) : ∀ b ∈ entries, b.halfOpen → b.memory = 0 := by
  intro b hb hopen
  rcases mem_cons.1 (hsub hb) with rfl | hmem
  · cases ha.symm.trans hopen
  · exact h.fresh b hmem hopen

theorem Balanced.posting (h : Balanced c.config l) (hp : Posting c l l') :
    Balanced c.config l' := by
  have hroom := h.room
  have hmemory := h.memory
  have hbudget := h.budget
  cases hp with
  | same => exact h
  | removed _ hperm =>
    have hlength := hperm.length_eq
    have hsum := sum_of_perm hperm
    simp only [length_cons, map_cons, sum_cons] at hlength hsum
    refine ⟨by dsimp only; omega, fun b hb => ?_, by dsimp only; omega, by dsimp only; omega⟩
    exact h.fresh b (hperm.subset (mem_cons_of_mem _ hb))
  | opened hfree =>
    refine ⟨?_, fun b hb hopen => ?_, by simpa using hmemory, hbudget⟩
    · rw [length_append]
      exact hfree
    · rcases mem_append.1 hb with hb | hb
      · exact h.fresh b hb hopen
      · rw [mem_singleton.1 hb]
  | established a _ ha hperm hfits =>
    have hlength := hperm.length_eq
    have hsum := sum_of_perm hperm
    simp only [length_cons, map_cons, sum_cons] at hlength hsum
    have hzero : a.memory = 0 := by
      rcases mem_cons.1 (hperm.subset mem_cons_self) with rfl | hmem
      · cases ha
      · exact h.fresh a hmem ha
    have hsub := List.Subset.trans (subset_cons_self a _) hperm.subset
    exact ⟨by dsimp only; omega, h.fresh_of_subset hsub rfl, by dsimp only; omega, hfits⟩
  | leaked a ha hperm =>
    have hlength := hperm.length_eq
    have hsum := sum_of_perm hperm
    have hzero := h.fresh a (hperm.subset mem_cons_self) ha
    simp only [length_cons, map_cons, sum_cons] at hlength hsum
    refine ⟨by dsimp only; omega, fun b hb => ?_, by dsimp only; omega, hbudget⟩
    exact h.fresh b (hperm.subset (mem_cons_of_mem _ hb))
  | waited a _ _ hperm =>
    have hlength := hperm.length_eq
    have hsum := sum_of_perm hperm
    simp only [length_cons, map_cons, sum_cons] at hlength hsum
    have hsub := List.Subset.trans (subset_cons_self a _) hperm.subset
    exact ⟨by dsimp only; omega, h.fresh_of_subset hsub rfl, by dsimp only; omega, hbudget⟩
  | relieved a b _ _ _ _ hperm =>
    have hlength := hperm.length_eq
    have hsum := sum_of_perm hperm
    simp only [length_cons, map_cons, sum_cons] at hlength hsum
    have hsub := List.Subset.trans (subset_cons_of_subset b (subset_cons_self a _))
      hperm.subset
    exact ⟨by dsimp only; omega, h.fresh_of_subset hsub rfl, by dsimp only; omega,
      by dsimp only; omega⟩

/-- There are no more connections in TIME-WAIT than there may be, and their deadlines can
    be compared. -/
structure Waits (config : TcpHandshakeConfig) (l : Ledger) : Prop where
  limit : l.waiting ≤ config.maxTimewaitEntries
  deadlines : ∀ a ∈ l.entries, ∀ deadline ∈ a.deadline, deadline < maxUint64

theorem waiting_eq (entries : List Entry) (halfOpen memory : ℕ) :
    (Ledger.mk entries halfOpen memory).waiting = entries.countP (·.deadline.isSome) := rfl

theorem Waits.posting (h : Waits c.config l) (hsome : 0 < c.config.maxTimewaitEntries)
    (htime : ∀ segment nowMs, c.op = .onSegment segment nowMs →
      nowMs + c.config.timewaitMs < maxUint64) (hp : Posting c l l') : Waits c.config l' := by
  have hlimit := h.limit
  have hdeadline : ∀ {segment nowMs}, c.op = .onSegment segment nowMs →
      saturatingAdd nowMs c.config.timewaitMs < maxUint64 := fun {segment nowMs} hop => by
    have := htime segment nowMs hop
    rw [saturatingAdd]
    split <;> omega
  cases hp with
  | same => exact h
  | removed a hperm | leaked a _ hperm =>
    have hcount := hperm.countP_eq (·.deadline.isSome)
    rw [countP_cons, ← waiting] at hcount
    refine ⟨?_, fun b hb => h.deadlines b (hperm.subset (mem_cons_of_mem _ hb))⟩
    rw [waiting_eq]
    omega
  | opened =>
    refine ⟨?_, fun b hb => ?_⟩
    · rwa [waiting_eq, countP_append, ← waiting]
    · rcases mem_append.1 hb with hb | hb
      · exact h.deadlines b hb
      · rw [mem_singleton.1 hb]
        nofun
  | established _ _ _ hperm =>
    have hcount := hperm.countP_eq (·.deadline.isSome)
    rw [countP_cons, countP_cons, ← waiting] at hcount
    refine ⟨?_, fun b hb => ?_⟩
    · rw [waiting_eq]
      simp at hcount
      omega
    · rcases mem_cons.1 (hperm.subset (mem_cons_of_mem _ hb)) with rfl | hmem
      · nofun
      · exact h.deadlines b hmem
  | waited a hop _ hperm hroom =>
    have hcount := hperm.countP_eq (·.deadline.isSome)
    rw [countP_cons, countP_cons, ← waiting] at hcount
    have hfree : l.waiting < c.config.maxTimewaitEntries := by
      by_contra hfull
      -- one of those in TIME-WAIT has a deadline that can be compared
      obtain ⟨b, hb, hwaits⟩ := countP_pos_iff.1
        (lt_of_lt_of_le hsome (Nat.le_of_not_lt hfull))
      obtain ⟨deadline, hd⟩ := Option.isSome_iff_exists.1 hwaits
      have := hroom (Nat.le_of_not_lt hfull) b hb deadline hd
      have := h.deadlines b hb deadline hd
      omega
    refine ⟨?_, fun b hb => ?_⟩
    · rw [waiting_eq]
      simp at hcount
      omega
    · rcases mem_cons.1 (hperm.subset (mem_cons_of_mem _ hb)) with rfl | hmem
      · rintro _ ⟨⟩
        exact hdeadline hop
      · exact h.deadlines b hmem
  | relieved _ _ hop _ _ hwaits hperm =>
    have hcount := hperm.countP_eq (·.deadline.isSome)
    rw [countP_cons, countP_cons, countP_cons, ← waiting, if_pos hwaits] at hcount
    refine ⟨?_, fun b' hb' => ?_⟩
    · rw [waiting_eq]
      simp at hcount
      omega
    · have hmem' := hperm.subset (mem_cons_of_mem _ (mem_cons_of_mem _ hb'))
      rcases mem_cons.1 hmem' with rfl | hmem
      · rintro _ ⟨⟩
        exact hdeadline hop
      · exact h.deadlines b' hmem

/-- The counter is the number of half-open connections. -/
def CountsHalfOpen (l : Ledger) : Prop := l.halfOpen = l.entries.countP (·.halfOpen)

theorem CountsHalfOpen.posting (h : CountsHalfOpen l) (hsend : c.env.sendFails = false)
    (hp : Posting c l l') : CountsHalfOpen l' := by
  rw [CountsHalfOpen] at h ⊢
  cases hp with
  | same => exact h
  | removed a hperm =>
    have hcount := hperm.countP_eq (·.halfOpen)
    rw [countP_cons, ← h] at hcount
    cases hopen : a.halfOpen <;> simp [hopen] at hcount ⊢ <;> omega
  | opened => simpa using h
  | established _ _ ha hperm =>
    have hcount := hperm.countP_eq (·.halfOpen)
    rw [countP_cons, countP_cons, ← h, if_pos ha] at hcount
    simp at hcount ⊢
    omega
  | leaked _ _ _ hfails => exact absurd hfails (by simp [hsend])
  | waited _ _ ha hperm =>
    have hcount := hperm.countP_eq (·.halfOpen)
    rw [countP_cons, countP_cons, ← h] at hcount
    simpa [ha] using hcount.symm
  | relieved _ _ _ ha hb _ hperm =>
    have hcount := hperm.countP_eq (·.halfOpen)
    rw [countP_cons, countP_cons, countP_cons, ← h] at hcount
    simpa [ha, hb] using hcount.symm

end Ledger

theorem TcpHandshakeConfig.maxTimewaitEntries_pos {config : TcpHandshakeConfig}
    (h : config.validate) : 0 < config.maxTimewaitEntries := by
  rw [validate] at h
  split_ifs at h with _ _ _ _ _ hentries
  exact Nat.pos_of_ne_zero fun hzero => hentries (.inl hzero)

/-- A deadline that the call sets is a time that can be compared. -/
def EngineCall.Timely (c : EngineCall κ) : Prop :=
  ∀ segment nowMs, c.op = .onSegment segment nowMs → nowMs + c.config.timewaitMs < 2 ^ 64 - 1

namespace TcpHandshakeEngine

def ledger (e : TcpHandshakeEngine κ) : Ledger where
  entries := e.pcbs.map Pcb.entry
  halfOpen := e.halfOpenCount
  memory := e.receiveMemoryBytes

variable {c : EngineCall κ} {e e' : TcpHandshakeEngine κ} {i : ℕ} {p p' : Pcb κ}
  {seen : List Observed}

theorem ledger_update (hp : e.pcbs[i]? = some p) (hentry : p'.entry = p.entry)
    (seen : List Observed) : (e.update i p' seen).ledger = e.ledger := by
  show Ledger.mk ((e.pcbs.set i p').map Pcb.entry) _ _ = _
  rw [map_set_of_eq hp hentry]
  rfl

theorem SameBooks.ledger (h : SameBooks e' e) : e'.ledger = e.ledger := by
  rw [TcpHandshakeEngine.ledger, h.pcbs, h.halfOpenCount, h.receiveMemoryBytes]
  rfl

theorem release_books (e : TcpHandshakeEngine κ) (p : Pcb κ) :
    (e.release p).halfOpenCount = e.halfOpenCount - p.entry.halfOpen.toNat ∧
      (e.release p).receiveMemoryBytes = e.receiveMemoryBytes - p.entry.memory := by
  have hsame := cancelTimers_sameBooks e p
  rw [release]
  rw [hsame.receiveMemoryBytes, hsame.halfOpenCount]
  constructor
  · show _ = _ - (decide (p.state = .synReceived)).toNat
    by_cases hstate : p.state = .synReceived
    · rw [if_pos hstate, decide_eq_true hstate]
      rfl
    · rw [if_neg hstate, decide_eq_false hstate]
      rfl
  · show _ = _ - p.receiveMemory
    rw [Pcb.receiveMemory]
    cases p.receive <;> rfl

/-- The ledger after a removal. -/
theorem ledger_removeAt (hp : e.pcbs[i]? = some p) : (e.removeAt i).ledger =
    ⟨(swapPop e.pcbs i).map Pcb.entry, e.halfOpenCount - p.entry.halfOpen.toNat,
      e.receiveMemoryBytes - p.entry.memory⟩ := by
  obtain ⟨hopen, hmemory⟩ := release_books e p
  rw [removeAt, hp]
  show Ledger.mk _ (e.release p).halfOpenCount (e.release p).receiveMemoryBytes = _
  rw [hopen, hmemory]

theorem posting_removeAt (e : TcpHandshakeEngine κ) (i : ℕ) :
    Ledger.Posting c e.ledger (e.removeAt i).ledger := by
  rcases hp : e.pcbs[i]? with _ | p
  · rw [removeAt, hp]
    exact .same
  · rw [ledger_removeAt hp]
    exact .removed p.entry ((perm_swapPop hp).map Pcb.entry)

/-! ## TIME-WAIT -/

/-- The ledger after a connection has entered TIME-WAIT. -/
theorem Enters.ledger {j deadlineMs : ℕ} {a : Pcb κ} (h : Enters e j a deadlineMs e')
    (ha : e.pcbs[j]? = some a) :
    ∃ entries, e'.ledger = ⟨entries, e.halfOpenCount, e.receiveMemoryBytes⟩ ∧
      (a.entry :: entries).Perm
        (⟨false, some deadlineMs, a.entry.memory⟩ :: e.pcbs.map Pcb.entry) := by
  obtain ⟨e₁, timer, hsame, rfl⟩ := h
  refine ⟨(e.pcbs.set j (a.enterTimeWait deadlineMs timer)).map Pcb.entry, ?_, ?_⟩
  · show Ledger.mk ((e₁.pcbs.set j _).map Pcb.entry) e₁.halfOpenCount e₁.receiveMemoryBytes = _
    rw [hsame.pcbs, hsame.halfOpenCount, hsame.receiveMemoryBytes]
  · exact (perm_set ha (a.enterTimeWait deadlineMs timer)).map Pcb.entry

theorem oldestTimeWaitFrom_eq_none {pcbs : List (Pcb κ)} {k deadline : ℕ} {oldest : Option ℕ}
    (h : oldestTimeWaitFrom pcbs k deadline oldest = none) :
    oldest = none ∧ ∀ p ∈ pcbs, p.state = .timeWait → deadline ≤ p.timewaitDeadlineMs := by
  induction pcbs generalizing k deadline oldest with
  | nil => exact ⟨h, fun p hp => absurd hp not_mem_nil⟩
  | cons _ _ ih =>
    rw [oldestTimeWaitFrom] at h
    split at h
    case isTrue => cases (ih h).1
    case isFalse hq =>
      obtain ⟨hnone, hrest⟩ := ih h
      refine ⟨hnone, fun p hp hstate => ?_⟩
      rcases mem_cons.1 hp with rfl | hp
      · exact Nat.le_of_not_lt fun hlt => hq ⟨hstate, hlt⟩
      · exact hrest p hp hstate

theorem waiting_ledger (e : TcpHandshakeEngine κ) :
    e.ledger.waiting = e.pcbs.countP (·.state = .timeWait) := by
  show (e.pcbs.map Pcb.entry).countP _ = _
  rw [countP_map]
  refine countP_congr fun p _ => ?_
  by_cases hstate : p.state = .timeWait <;> simp [Pcb.entry, hstate]

/-- Where nothing makes room in TIME-WAIT, there is room, or no deadline can be compared. -/
theorem room_of_oldestTimeWait (h : e.timeWaitFull → e.oldestTimeWait = none)
    (hfull : e.config.maxTimewaitEntries ≤ e.ledger.waiting) :
    ∀ b ∈ e.ledger.entries, ∀ deadline ∈ b.deadline, maxUint64 ≤ deadline := by
  rw [waiting_ledger] at hfull
  obtain ⟨-, hold⟩ := oldestTimeWaitFrom_eq_none (h (decide_eq_true hfull))
  intro b hb deadline hd
  obtain ⟨p, hp, rfl⟩ := mem_map.1 hb
  by_cases hstate : p.state = .timeWait
  · rw [Pcb.entry, if_pos hstate] at hd
    cases hd
    exact hold p hp hstate
  · rw [Pcb.entry, if_neg hstate] at hd
    cases hd

theorem posting_scheduleTimeWait {segment : TcpSegmentView} {nowMs : ℕ}
    (hconfig : e.config = c.config) (hop : c.op = .onSegment segment nowMs)
    (hp : e.pcbs[i]? = some p) (hnames : (e.pcbs.map Pcb.incomingFlow).Nodup)
    (hopen : p.entry.halfOpen = false) (env : Env) :
    Ledger.Posting c e.ledger (e.scheduleTimeWait env i nowMs).1.ledger := by
  obtain ⟨e₁, hroom, hcases⟩ := scheduleTimeWait_spec hp env nowMs
  rcases hcases with ⟨heq, -⟩ | ⟨j, a, ha, hflow, heq⟩
  · rw [heq]
    cases hroom with
    | nothing => exact .same
    | oldest _ _ _ _ _ heq => exact heq ▸ posting_removeAt e _
  · -- what is found on the flow is the connection itself
    obtain rfl : a = p := inj_on_of_nodup_map hnames
      (hroom.subset a (mem_of_getElem? ha)) (mem_of_getElem? hp) hflow
    have henters := enters_moveToTimeWait env e₁ j a nowMs
    rw [hroom.parameters.config, hconfig] at henters
    obtain ⟨_, hledger, hperm⟩ := henters.ledger ha
    rw [heq, hledger]
    cases hroom with
    | nothing hnone =>
      refine .waited a.entry hop hopen hperm fun hfull => ?_
      exact room_of_oldestTimeWait hnone (hconfig ▸ hfull)
    | @oldest o q _ _ _ hq hstate hpcbs hremoved =>
      have hqentry : q.entry.halfOpen = false ∧ q.entry.deadline.isSome := by
        simp [Pcb.entry, hstate]
      have hbooks : e₁.ledger = (e.removeAt o).ledger := hremoved ▸ rfl
      rw [ledger_removeAt hq, hqentry.1] at hbooks
      have hhalf : e₁.halfOpenCount = e.halfOpenCount := congrArg Ledger.halfOpen hbooks
      have hmemory : e₁.receiveMemoryBytes = e.receiveMemoryBytes - q.entry.memory :=
        congrArg Ledger.memory hbooks
      rw [hhalf, hmemory]
      rw [hpcbs] at hperm
      refine .relieved a.entry q.entry hop hopen hqentry.1 hqentry.2 ?_
      exact (hperm.cons q.entry).trans
        ((List.Perm.swap ..).trans (((perm_swapPop hq).map Pcb.entry).cons _))

/-! ## Changes -/

theorem posting_onPathMtuLowered [CongestionController κ] (e : TcpHandshakeEngine κ)
    (peer : IpAddress) (pmtu : ℕ) :
    Ledger.Posting c e.ledger (e.onPathMtuLowered peer pmtu).ledger := by
  obtain ⟨f, hf, heq⟩ := onPathMtuLowered_eq e peer pmtu
  have hentries : (e.pcbs.map f).map Pcb.entry = e.pcbs.map Pcb.entry := by
    rw [map_map]
    refine map_congr_left fun p _ => ?_
    rcases hf p with hp | ⟨-, mss, hp⟩
    · exact congrArg Pcb.entry hp
    · rw [Function.comp_apply, hp]
      rfl
  rw [heq]
  show Ledger.Posting c e.ledger ⟨(e.pcbs.map f).map Pcb.entry, _, _⟩
  rw [hentries]
  exact .same

variable [CongestionController κ]

/-- What the changes of a call enter in the books. -/
theorem Change.posting (h : Change c e e') (hapart : Apart c e) :
    Ledger.Posting c e.ledger e'.ledger := by
  cases h with
  | quiet hsame =>
    rw [hsame.ledger]
    exact .same
  | turn hp hturn =>
    rw [ledger_update hp hturn.entry]
    exact .same
  | remove i => exact posting_removeAt e i
  | @close i p _ segment nowMs _ hp =>
    have hacked : (p.onAck segment nowMs).entry = p.entry := rfl
    rw [← ledger_update hp hacked [.accepted segment.window]]
    exact posting_removeAt _ i
  | @enterTimeWait i _ seen _ _ p' env hop hp hstate _ hflow hentry =>
    have hconfig : (e.update i p' seen).config = c.config := hapart.config
    rw [← ledger_update hp hentry seen]
    refine posting_scheduleTimeWait hconfig hop (update_getElem hp p' seen) ?_ ?_ env
    · rw [update_pcbs, map_set_of_eq hp hflow]
      exact hapart.tracked.names
    · rw [hentry]
      exact decide_eq_false hstate
  | opens _ _ _ _ _ _ _ _ hroom =>
    rw [hapart.config] at hroom
    show Ledger.Posting c e.ledger ⟨(e.pcbs ++ [_]).map Pcb.entry, _, _⟩
    rw [map_append]
    exact .opened (by simpa [ledger] using hroom)
  | @establish i p r segment _ options _ hp _ hstate _ _ _ hbudget =>
    have hopen : p.entry.halfOpen := decide_eq_true hstate
    have hsame := cancelTimer_sameBooks e p.retryTimer
    have hperm := (perm_set hp (p.establish options segment.acknowledgment r
      (.new p.sndNxt (c.config.sendConfig p.options.peerMss) c.makeController))).map Pcb.entry
    rw [hapart.config] at hbudget
    show Ledger.Posting c e.ledger ⟨((e.cancelTimer p.retryTimer).pcbs.set i _).map Pcb.entry,
      (e.cancelTimer p.retryTimer).halfOpenCount - 1, e.receiveMemoryBytes + r.memoryBytes⟩
    rw [hsame.pcbs, hsame.halfOpenCount]
    exact .established p.entry r.memoryBytes hopen hperm hbudget
  | @sendFails _ p r _ _ _ hfails hp hstate =>
    have hopen : p.entry.halfOpen := decide_eq_true hstate
    have hsame := cancelTimer_sameBooks e p.retryTimer
    have hslot := (acquire_sameTable e p r).getElem hp
    rw [ledger_removeAt (update_getElem hslot _ _), update_pcbs, (acquire_sameTable e p r).pcbs]
    -- the memory that was taken is given back, the counter stays
    show Ledger.Posting c e.ledger ⟨_, (e.cancelTimer p.retryTimer).halfOpenCount,
      e.receiveMemoryBytes + r.memoryBytes - r.memoryBytes⟩
    rw [hsame.halfOpenCount, Nat.add_sub_cancel]
    refine .leaked p.entry hopen ?_ hfails
    exact (perm_swapPop_set hp _).map Pcb.entry
  | lowerMtu => exact posting_onPathMtuLowered ..
  | shutDown => exact .same

/-! ## Every run -/

omit [CongestionController κ] in
theorem ledger_new {config isn make factory epoch slots}
    (h : new config isn make factory epoch slots = some e) :
    config.validate ∧ e.config = config ∧ e.ledger = ⟨[], 0, 0⟩ := by
  rw [new] at h
  obtain ⟨hvalid, h⟩ := Option.ite_none_right_eq_some.1 h
  cases h
  exact ⟨hvalid, rfl, rfl⟩

theorem ReachableBy.balanced {B : EngineCall κ → Prop} (h : ReachableBy B e) :
    Ledger.Balanced e.config e.ledger := by
  refine h.invariant (P := fun e => Ledger.Balanced e.config e.ledger) (fun hnew => ?_)
    fun _ hapart hc hbalanced => ?_
  · obtain ⟨-, -, hledger⟩ := ledger_new hnew
    rw [hledger]
    exact ⟨Nat.zero_le _, nofun, rfl, Nat.zero_le _⟩
  · rw [hc.config, hapart.config]
    rw [hapart.config] at hbalanced
    exact hbalanced.posting (hc.posting hapart)

theorem ReachableBy.waits (h : ReachableBy EngineCall.Timely e) :
    0 < e.config.maxTimewaitEntries ∧ Ledger.Waits e.config e.ledger := by
  refine h.invariant (P := fun e => 0 < e.config.maxTimewaitEntries ∧
    Ledger.Waits e.config e.ledger) (fun hnew => ?_) fun htimely hapart hc ⟨hpos, hwaits⟩ => ?_
  · obtain ⟨hvalid, hconfig, hledger⟩ := ledger_new hnew
    rw [hledger, hconfig]
    exact ⟨TcpHandshakeConfig.maxTimewaitEntries_pos hvalid, Nat.zero_le _, nofun⟩
  · rw [hc.config, hapart.config]
    rw [hapart.config] at hpos hwaits
    exact ⟨hpos, hwaits.posting hpos htimely (hc.posting hapart)⟩

theorem ReachableBy.countsHalfOpen (h : ReachableBy (fun c => c.env.sendFails = false) e) :
    e.ledger.CountsHalfOpen := by
  refine h.invariant (P := fun e => e.ledger.CountsHalfOpen) (fun hnew => ?_)
    fun hsend hapart hc hcounts => hcounts.posting hsend (hc.posting hapart)
  obtain ⟨-, -, hledger⟩ := ledger_new hnew
  rw [hledger]
  rfl

omit [CongestionController κ] in
/-- The memory of the entries is that of the receive buffers. -/
theorem sum_memory (pcbs : List (Pcb κ)) : ((pcbs.map Pcb.entry).map Entry.memory).sum =
    ((pcbs.filterMap Pcb.receive).map TcpReceiveBuffer.memoryBytes).sum := by
  induction pcbs with
  | nil => rfl
  | cons p _ ih =>
    rw [map_cons, map_cons, sum_cons, ih]
    show p.receiveMemory + _ = _
    cases hr : p.receive <;> simp [Pcb.receiveMemory, hr]

end TcpHandshakeEngine

section

variable [CongestionController κ] {e : TcpHandshakeEngine κ}

/-- In every run whose deadlines can be compared: flows and identifiers are distinct, the
    table keeps its limit, the memory is that of the receive buffers and keeps its budget,
    and no more connections are in TIME-WAIT than there may be. -/
theorem table_books (h : e.ReachableBy EngineCall.Timely) :
    (e.pcbs.map Pcb.incomingFlow).Nodup ∧ (e.pcbs.map Pcb.flowId).Nodup ∧
      e.pcbs.length ≤ e.config.pcbLimit ∧
      e.receiveMemoryBytes =
        ((e.pcbs.filterMap Pcb.receive).map TcpReceiveBuffer.memoryBytes).sum ∧
      e.receiveMemoryBytes ≤ e.config.receiveMemoryBudget ∧
      e.pcbs.countP (·.state = .timeWait) ≤ e.config.maxTimewaitEntries := by
  have htracked := h.tracked
  have hbalanced := h.balanced
  refine ⟨htracked.names, htracked.idents, ?_, ?_, hbalanced.budget, ?_⟩
  · simpa [ledger] using hbalanced.room
  · exact hbalanced.memory.trans (sum_memory e.pcbs)
  · rw [← waiting_ledger]
    exact h.waits.2.limit

/-- In every run in which no send buffer fails to be allocated, the counter of half-open
    connections is their number. -/
theorem halfOpenCount_eq (h : e.ReachableBy fun c => c.env.sendFails = false) :
    e.halfOpenCount = e.pcbs.countP (·.state = .synReceived) := by
  have hcounts : e.halfOpenCount = (e.pcbs.map Pcb.entry).countP (·.halfOpen) := h.countsHalfOpen
  rw [hcounts, countP_map]
  rfl

end

/-- Two connections close, one after the other, and one may be in TIME-WAIT: the first
    one makes room. -/
theorem table_books_evicting : ∃ e : TcpHandshakeEngine AimdController,
    e.ReachableBy EngineCall.Timely ∧ e.pcbs.map Pcb.flowId = [3, 2] ∧
      e.pcbs.countP (·.state = .timeWait) = 1 ∧ e.config.maxTimewaitEntries = 1 ∧
      (e.pcbs.map Pcb.incomingFlow).Nodup ∧ e.pcbs.length ≤ e.config.pcbLimit ∧
      e.receiveMemoryBytes =
        ((e.pcbs.filterMap Pcb.receive).map TcpReceiveBuffer.memoryBytes).sum ∧
      e.receiveMemoryBytes ≤ e.config.receiveMemoryBudget := by
  obtain ⟨e, hreach, hids, hwaits, hmax⟩ := exists_reachableBy (B := EngineCall.Timely)
    (b := fun c => match c.op with
      | .onSegment _ nowMs => nowMs + c.config.timewaitMs < 2 ^ 64 - 1
      | _ => true)
    (P := fun e => e.pcbs.map Pcb.flowId = [3, 2] ∧ e.pcbs.countP (·.state = .timeWait) = 1 ∧
      e.config.maxTimewaitEntries = 1)
    { receiveWindow := 16, maxTimewaitEntries := 1 } (peerOpens 1 ++ peerOpens 2 ++ peerOpens 3 ++
      [({}, .closeFlow 1 1), ({}, .closeFlow 2 1), ({}, .pumpSendPaths 0 8 8),
      peerSends 1 TcpFlag.ack 101 2, peerSends 2 TcpFlag.ack 101 2,
      peerSends 1 (TcpFlag.ack ||| TcpFlag.fin) 101 2,
      peerSends 2 (TcpFlag.ack ||| TcpFlag.fin) 101 2])
    (fun c hc segment nowMs hop => by rw [hop] at hc; exact of_decide_eq_true hc)
    (by decide +kernel)
  obtain ⟨hnames, -, hroom, hmemory, hbudget, -⟩ := table_books hreach
  exact ⟨e, hreach, hids, hwaits, hmax, hnames, hroom, hmemory, hbudget⟩

/-- One connection is half open, another one established. -/
theorem halfOpenCount_eq_one : ∃ e : TcpHandshakeEngine AimdController,
    e.ReachableBy (fun c => c.env.sendFails = false) ∧ e.pcbs.length = 2 ∧ e.halfOpenCount = 1 ∧
      e.halfOpenCount = e.pcbs.countP (·.state = .synReceived) := by
  obtain ⟨e, hreach, hlength, hcount⟩ := exists_reachableBy
    (B := fun c => c.env.sendFails = false) (b := fun c => !c.env.sendFails)
    (P := fun e => e.pcbs.length = 2 ∧ e.halfOpenCount = 1)
    { receiveWindow := 16 } [peerSends 1 TcpFlag.syn 100 0, peerSends 1 TcpFlag.ack 101 1, peerSends 2 TcpFlag.syn 100 0]
    (fun c hc => by simpa using hc) (by decide +kernel)
  exact ⟨e, hreach, hlength, hcount, halfOpenCount_eq hreach⟩

/-- The send buffer of a connection fails to be allocated. The connection is removed, and the
    counter is not; with room for one half-open connection, no other is taken any more. -/
theorem halfOpenCount_leaks : ∃ e : TcpHandshakeEngine AimdController,
    e.ReachableBy (fun _ => True) ∧ e.pcbs = [] ∧ e.halfOpenCount = 1 ∧
      e.config.halfOpenLimit = 1 ∧
      e.halfOpenCount ≠ e.pcbs.countP (·.state = .synReceived) :=
  exists_reachableBy (b := fun _ => true)
    { receiveWindow := 16, halfOpenLimit := 1, backlogLimit := 1 } [peerSends 1 TcpFlag.syn 100 0,
      ({ openTcp := some 1, sendFails := true }, (peerSends 1 TcpFlag.ack 101 1).2)]
    (fun _ _ => trivial) (by decide +kernel)

end Netstack2
